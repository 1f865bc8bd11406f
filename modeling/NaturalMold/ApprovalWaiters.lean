import NaturalMold.ApprovalRecording
import NaturalMold.FirstOccurrences
import NaturalMold.PendingCalls
import NaturalMold.StepRuns

/-! # Runs that wait for approvals -/

namespace NaturalMold.ApprovalWaiters

open Approvals (ApprovalRequest Claim PendingInterrupt RecordEnvironment approvalActions closed
  requestOf stopped StopsRow)
open Conversations (Uuid Time RunStatus runActiveStatuses)
open FirstOccurrences KeyedTables PendingCalls StepRuns

inductive WaiterKind
  | triggerRun
  | apiRun
  deriving DecidableEq

structure WaiterKey where
  kind : WaiterKind
  id : Uuid
  deriving DecidableEq

/-- How a run that waited has ended, with the reason code of a schedule run or the error code
of an API run. -/
structure Outcome where
  isSuccess : Bool
  code : Option String
  message : Option String
  deriving DecidableEq

inductive WaiterStatus
  | running
  | waiting
  | ended (outcome : Outcome)
  deriving DecidableEq

/-- A schedule run or an API run, with the run of the conversation that it owns. -/
structure Waiter where
  key : WaiterKey
  conversationRunId : Uuid
  status : WaiterStatus := .running
  deriving DecidableEq

/-- A request, with the schedule run or the API run that waits on it. -/
structure WaiterRequest where
  request : ApprovalRequest
  triggerRunId : Option Uuid
  apiRunId : Option Uuid
  deriving DecidableEq

namespace WaiterRequest

def id (row : WaiterRequest) : Uuid :=
  row.request.id

def waiterId (row : WaiterRequest) : WaiterKind → Option Uuid
  | .triggerRun => row.triggerRunId
  | .apiRun => row.apiRunId

def Waits (row : WaiterRequest) (key : WaiterKey) : Prop :=
  row.waiterId key.kind = some key.id

instance (row : WaiterRequest) (key : WaiterKey) : Decidable (row.Waits key) :=
  inferInstanceAs (Decidable (_ = _))

def change (change : ApprovalRequest → ApprovalRequest) (row : WaiterRequest) : WaiterRequest :=
  { row with request := change row.request }

end WaiterRequest

structure ConversationRun where
  id : Uuid
  parentRunId : Option Uuid
  tenantId : Option Uuid
  agentId : Option Uuid
  conversationId : Uuid
  status : RunStatus
  deriving DecidableEq

/-- `ends` are the runs that were ended, in order. -/
structure Database where
  runs : Table ConversationRun.id := Table.empty
  requests : Table WaiterRequest.id := Table.empty
  waiters : Table Waiter.key := Table.empty
  ends : List WaiterKey := []

def requestTable (requests : Table WaiterRequest.id) : Approvals.RequestTable where
  rows := requests.rows.map WaiterRequest.request
  distinct := by
    rw [List.map_map]
    exact requests.distinct

def originId (origin : Option WaiterKey) (kind : WaiterKind) : Option Uuid :=
  (origin.filter fun key => key.kind = kind).map WaiterKey.id

section Record

variable (env : RecordEnvironment) (run : ConversationRun) (origin : Option WaiterKey)

/-- `_inherited`: the approval that the run resumed. -/
def inherited (requests : Table WaiterRequest.id) : Option WaiterRequest :=
  if run.parentRunId.isSome then
    requests.rows.find? fun row => row.request.resumedRunId = some run.id
  else none

def recordedRow (parent : Option WaiterRequest) (requests : Table WaiterRequest.id)
    (interrupt : PendingInterrupt) : WaiterRequest where
  request := requestOf env run.conversationId
    { id := run.id, parentRunId := run.parentRunId, tenantId := run.tenantId,
      agentId := run.agentId, status := run.status } (requestTable requests) interrupt
  triggerRunId := originId origin .triggerRun <|> parent.bind WaiterRequest.triggerRunId
  apiRunId := originId origin .apiRun <|> parent.bind WaiterRequest.apiRunId

def recordInterrupt (parent : Option WaiterRequest) (requests : Table WaiterRequest.id)
    (interrupt : PendingInterrupt) : Option (Table WaiterRequest.id) :=
  if (approvalActions interrupt.payload).isNone then some requests
  else if requests.rows.any fun row =>
      row.request.runId = run.id && row.request.interruptId = interrupt.interruptId then
    some requests
  else requests.insert? (recordedRow env run origin parent requests interrupt)

def recordPending (interrupts : List PendingInterrupt) (requests : Table WaiterRequest.id) :
    Option (Table WaiterRequest.id) :=
  if run.tenantId.isNone then some requests
  else interrupts.foldlM (recordInterrupt env run origin (inherited run requests)) requests

end Record

/-- `row.reason or default`. -/
def reasonOr (default : String) (reason : Option String) : String :=
  (reason.filter (· ≠ "")).getD default

/-- How `settle` ends a run, for the request that was resumed. -/
def settledOutcome (row : WaiterRequest) (status : RunStatus) : WaiterKind → Outcome
  | .triggerRun =>
      if row.request.status = .expired then
        ⟨false, some "approval_expired", some "approval_expired"⟩
      else if status = .completed then ⟨true, none, none⟩
      else ⟨false, none, some ("run " ++ status.value)⟩
  | .apiRun =>
      if row.request.status = .expired then
        ⟨false, some "APPROVAL_EXPIRED", some "the approval request expired"⟩
      else if status = .completed then ⟨true, none, none⟩
      else ⟨false, some "AGENT_API_RUN_FAILED", some ("the resumed run ended " ++ status.value)⟩

/-- How `abandon` ends a run, for the reason of a retired request. -/
def abandonedOutcome (reason : Option String) : WaiterKind → Outcome
  | .triggerRun =>
      ⟨false, some (reasonOr "approval_canceled" reason),
        some ("approval " ++ reasonOr "approval_canceled" reason)⟩
  | .apiRun =>
      ⟨false, some "APPROVAL_CANCELED",
        some ("the approval request was " ++ reasonOr "canceled" reason)⟩

/-- What an execution has left to do. -/
inductive Call
  | record (env : RecordEnvironment) (runId : Uuid) (origin : Option WaiterKey)
      (interrupts : List PendingInterrupt)
  /-- `deliver_trigger_waiting`. -/
  | deliverWaiting (key : WaiterKey)
  | settle (kind : WaiterKind) (runId : Uuid) (status : RunStatus)
  | abandon (kind : WaiterKind) (requestIds : List Uuid)
  /-- The loop of `abandon` over the runs and the reasons that it has read. -/
  | abandonEach (kind : WaiterKind) (retired : List (Uuid × Option String))
  /-- The run is locked and ended, if it still waits. -/
  | endWaiter (key : WaiterKey) (outcome : Outcome)

namespace Database

variable (db : Database)

def setStatus (key : WaiterKey) (status : WaiterStatus) : Database :=
  { db with
    waiters := db.waiters.updateWhere (fun waiter => waiter.key = key)
      (fun waiter => { waiter with status }) fun _ => rfl }

def setRun (id : Uuid) (status : RunStatus) : Database :=
  { db with
    runs := db.runs.updateWhere (fun run => run.id = id)
      (fun run => { run with status }) fun _ => rfl }

/-- `record_interrupted_run`. -/
def record (env : RecordEnvironment) (runId : Uuid) (origin : Option WaiterKey)
    (interrupts : List PendingInterrupt) : Database :=
  match db.runs.get? runId with
  | none => db
  | some run =>
      if run.status ≠ .interrupted then db
      else
        match recordPending env run origin interrupts db.requests with
        | none => db
        | some requests => { db with requests }

/-- The request that `settle` reads for a resumed run. -/
def resumedRow (kind : WaiterKind) (runId : Uuid) : Option WaiterRequest :=
  db.requests.rows.find? fun row =>
    row.request.resumedRunId = some runId && (row.waiterId kind).isSome

def settle (kind : WaiterKind) (runId : Uuid) (status : RunStatus) : List Call :=
  if status = .interrupted then []
  else
    match db.resumedRow kind runId with
    | none => []
    | some row =>
        ((row.waiterId kind).map fun id =>
          Call.endWaiter ⟨kind, id⟩ (settledOutcome row status kind)).toList

/-- The retired requests that `abandon` reads. -/
def retiredRows (kind : WaiterKind) (requestIds : List Uuid) : List WaiterRequest :=
  db.requests.rows.filter fun row =>
    requestIds.contains row.id && row.request.status = .canceled && (row.waiterId kind).isSome

/-- The runs that waited on them, each with the reason of its last request. -/
def retired (kind : WaiterKind) (requestIds : List Uuid) : List (Uuid × Option String) :=
  let rows := db.retiredRows kind requestIds
  (distinctOn id (rows.filterMap fun row => row.waiterId kind)).map fun waiter =>
    (waiter, (rows.reverse.find? fun row => row.waiterId kind = some waiter).bind fun row =>
      row.request.reason)

def StillPending (key : WaiterKey) : Prop :=
  ∃ row ∈ db.requests.rows, row.Waits key ∧ row.request.status = .pending

instance (key : WaiterKey) : Decidable (db.StillPending key) :=
  inferInstanceAs (Decidable (∃ row ∈ db.requests.rows, _))

def endWaiter (key : WaiterKey) (outcome : Outcome) : Database :=
  match db.waiters.get? key with
  | none => db
  | some waiter =>
      if waiter.status ≠ .waiting then db
      else { db.setStatus key (.ended outcome) with ends := db.ends ++ [key] }

def perform : Call → Database × List Call
  | .record env runId origin interrupts => (db.record env runId origin interrupts, [])
  | .deliverWaiting key => (db.setStatus key .waiting, [])
  | .settle kind runId status => (db, db.settle kind runId status)
  | .abandon kind requestIds => (db, [.abandonEach kind (db.retired kind requestIds)])
  | .abandonEach _ [] => (db, [])
  | .abandonEach kind ((id, reason) :: rest) =>
      if db.StillPending ⟨kind, id⟩ then (db, [.abandonEach kind rest])
      else (db, [.endWaiter ⟨kind, id⟩ (abandonedOutcome reason kind), .abandonEach kind rest])
  | .endWaiter key outcome => (db.endWaiter key outcome, [])

end Database

def settleBestEffort (runId : Uuid) (status : RunStatus) : List Call :=
  [.settle .triggerRun runId status, .settle .apiRun runId status]

def abandonBestEffort (requestIds : List Uuid) : List Call :=
  if requestIds = [] then []
  else [.abandon .triggerRun requestIds, .abandon .apiRun requestIds]

/-- `claim`, or nothing where it is stale. -/
def claim (claimed : Claim) (stamp : Time) (requests : Table WaiterRequest.id) :
    Option (Table WaiterRequest.id) :=
  if ∀ row ∈ requests.rows, claimed.Selects row.request → claimed.Guard stamp row.request then
    some (requests.updateWhere (fun row => claimed.Selects row.request)
      (WaiterRequest.change (claimed.decided stamp)) fun _ => rfl)
  else none

def expiryClaim (request : ApprovalRequest) (actions : ℕ) : Claim where
  runId := request.runId
  decisions := [(request.interruptId, List.replicate actions "reject")]
  channel := .expiry
  actorId := none

structure State where
  db : Database := {}
  executions : List (List Call) := []

inductive Event
  /-- A schedule run or an API run starts, with a run of a conversation. -/
  | begin (key : WaiterKey) (run : ConversationRun)
  | pause (key : WaiterKey) (env : RecordEnvironment) (interrupts : List PendingInterrupt)
  | advance (index : ℕ)
  /-- A decision or an expiry is claimed with a run that continues from the interrupts. -/
  | resume (claimed : Claim) (stamp : Time) (run : ConversationRun)
  /-- The worker of a resumed run has ended it, or finds that it has been ended. -/
  | finish (runId : Uuid) (status : RunStatus) (env : RecordEnvironment)
      (interrupts : List PendingInterrupt)
  /-- A resumed run is ended, and not by its worker. -/
  | sweep (runId : Uuid) (status : RunStatus)
  /-- An expiry that resumes nothing. -/
  | expire (requestId : Uuid) (actions : ℕ) (stamp : Time)
  | close (requestId : Uuid) (reason : String) (stamp : Time)
  | stop (agentIds : List Uuid) (stamp : Time)

namespace State

variable (state : State)

def start (db : Database) (calls : List Call) : State :=
  { db, executions := state.executions ++ [calls] }

/-- `pause`, and what the executor of the run does after it. -/
def pause (key : WaiterKey) (env : RecordEnvironment) (interrupts : List PendingInterrupt) :
    State :=
  match state.db.waiters.get? key with
  | none => state
  | some waiter =>
      match state.db.runs.get? waiter.conversationRunId with
      | none => state
      | some run =>
          if run.status ≠ .running then state
          else
            -- the owned envelopes follow the run
            let paused :=
              { state.db.setRun run.id .interrupted with
                waiters := state.db.waiters.updateWhere
                  (fun waiter => waiter.conversationRunId = run.id)
                  (fun waiter => { waiter with status := .waiting }) fun _ => rfl }
            state.start paused (.record env run.id (some key) interrupts ::
              match key.kind with
              | .triggerRun => [.deliverWaiting key]
              | .apiRun => [])

def advance (index : ℕ) : State :=
  match next? state.executions index with
  | none => state
  | some (call, rest) =>
      let (db, more) := state.db.perform call
      { db, executions := state.executions.set index (more ++ rest) }

def resume (claimed : Claim) (stamp : Time) (run : ConversationRun) : State :=
  match claim { claimed with resumedRunId := some run.id } stamp state.db.requests with
  | none => state
  | some requests =>
      match state.db.runs.insert?
          { run with parentRunId := some claimed.runId, status := .queued } with
      | none => state
      | some runs => { state with db := { state.db with requests, runs } }

def finish (runId : Uuid) (status : RunStatus) (env : RecordEnvironment)
    (interrupts : List PendingInterrupt) : State :=
  match state.db.runs.get? runId with
  | none => state
  | some run =>
      if run.parentRunId = none then state
      else if runActiveStatuses.contains run.status then
        if runActiveStatuses.contains status then state.start (state.db.setRun runId status) []
        else if status = .interrupted then
          state.start (state.db.setRun runId status)
            (.record env runId none interrupts :: settleBestEffort runId status)
        else state.start (state.db.setRun runId status) (settleBestEffort runId status)
      else state.start state.db (settleBestEffort runId run.status)

def sweep (runId : Uuid) (status : RunStatus) : State :=
  match state.db.runs.get? runId with
  | none => state
  | some run =>
      if run.parentRunId = none ∨ runActiveStatuses.contains run.status = false ∨
          runActiveStatuses.contains status ∨ status = .interrupted then state
      else { state with db := state.db.setRun runId status }

def expire (requestId : Uuid) (actions : ℕ) (stamp : Time) : State :=
  match state.db.requests.get? requestId with
  | none => state
  | some row =>
      if row.request.status ≠ .pending then state
      else
        match claim (expiryClaim row.request actions) stamp state.db.requests with
        | none => state
        | some requests => { state with db := { state.db with requests } }

def close (requestId : Uuid) (reason : String) (stamp : Time) : State :=
  state.start
    { state.db with
      requests := state.db.requests.updateWhere
        (fun row => row.id = requestId && row.request.status = .pending)
        (WaiterRequest.change (closed reason stamp)) fun _ => rfl }
    (abandonBestEffort [requestId])

/-- The requests that a stop cancels. -/
def stoppedIds (agentIds : List Uuid) : List Uuid :=
  (state.db.requests.rows.filter fun row => StopsRow agentIds row.request).map WaiterRequest.id

/-- `stop`, of the pending requests. -/
def stop (agentIds : List Uuid) (stamp : Time) : State :=
  state.start
    { state.db with
      requests := state.db.requests.updateWhere (fun row => StopsRow agentIds row.request)
        (WaiterRequest.change (stopped stamp)) fun _ => rfl }
    (abandonBestEffort (state.stoppedIds agentIds))

def step : Event → State
  | .begin key run =>
      match state.db.runs.insert? { run with parentRunId := none, status := .running },
          state.db.waiters.insert? { key, conversationRunId := run.id } with
      | some runs, some waiters => { state with db := { state.db with runs, waiters } }
      | _, _ => state
  | .pause key env interrupts => state.pause key env interrupts
  | .advance index => state.advance index
  | .resume claimed stamp run => state.resume claimed stamp run
  | .finish runId status env interrupts => state.finish runId status env interrupts
  | .sweep runId status => state.sweep runId status
  | .expire requestId actions stamp => state.expire requestId actions stamp
  | .close requestId reason stamp => state.close requestId reason stamp
  | .stop agentIds stamp => state.stop agentIds stamp

end State

end NaturalMold.ApprovalWaiters

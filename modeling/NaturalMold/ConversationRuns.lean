import NaturalMold.ConversationTables
import NaturalMold.StepRuns

/-! # Conversation runs -/

namespace NaturalMold.Conversations

open KeyedTables Fallible

structure RuntimePolicy where
  version : ℕ
  policyHash : String
  source : String
  deriving DecidableEq

/-- What a transaction reads outside these tables: the clock, a new UUID, and
how its checks of members, agents, stops, policies and limits come out. -/
structure Environment where
  now : Time
  newId : Uuid
  requirePrivateActor : Except Raised Unit := .ok ()
  acquirePrefix : Except Raised Unit := .ok ()
  loadAgentTree : Except Raised Unit := .ok ()
  refuseRun : Except Raised Unit := .ok ()
  runtimePolicy : Except Raised RuntimePolicy
  requireCapacity : Except Raised Unit := .ok ()

def conflict (detail : String) : Raised := .httpException 409 detail

def getActiveRun (env : Environment) (db : Database) (conversationId : Uuid)
    (context : OrgContext) : Except Raised (Option ConversationRun) := do
  env.requirePrivateActor
  scalarOneOrNone (db.runs.rows.filter fun run =>
    run.conversationId = conversationId ∧ PrivateRun db context run ∧ run.isActive)

/-- By falling completion time, a missing one last, and falling creation time. -/
def CompletedLater (first second : ConversationRun) : Prop :=
  let completed (run : ConversationRun) : ℕ := run.completedAt.elim 0 (· + 1)
  completed second < completed first ∨
    (completed first = completed second ∧ second.createdAt ≤ first.createdAt)

instance : DecidableRel CompletedLater := fun _ _ => inferInstanceAs (Decidable (_ ∨ _ ∧ _))

def latestInterruptedRun (db : Database) (conversationId : Uuid) (context : OrgContext) :
    Option ConversationRun :=
  firstInOrder CompletedLater (db.runs.rows.filter fun run =>
    run.conversationId = conversationId ∧ PrivateRun db context run ∧ AwaitsResume db run)

def getLatestInterruptedRun (env : Environment) (db : Database) (conversationId : Uuid)
    (context : OrgContext) : Except Raised (Option ConversationRun) := do
  env.requirePrivateActor
  return latestInterruptedRun db conversationId context

/-- The conversation rows a transaction has locked, all in one scope. -/
structure ExecutionProof where
  scope : OrgContext
  conversations : List Conversation

namespace ExecutionProof

def heldRow (proof : ExecutionProof) (conversationId : Uuid) : Option Conversation :=
  proof.conversations.find? fun conversation => conversation.id = conversationId

/-- `covers_conversation`. -/
def Covers (proof : ExecutionProof) (conversationId : Uuid) : Prop :=
  ∃ conversation ∈ proof.conversations, conversation.id = conversationId

instance (proof : ExecutionProof) (conversationId : Uuid) :
    Decidable (proof.Covers conversationId) :=
  inferInstanceAs (Decidable (∃ conversation ∈ proof.conversations, _))

end ExecutionProof

def lockConversations (db : Database) (context : OrgContext) (conversationIds : List Uuid) :
    List Conversation :=
  db.conversations.rows.filter fun conversation =>
    conversation.id ∈ conversationIds ∧ PrivateScope context conversation

def acquireExecutionProof (env : Environment) (db : Database) (context : OrgContext)
    (conversationIds : List Uuid) : Except Raised ExecutionProof := do
  env.acquirePrefix
  return { scope := context, conversations := lockConversations db context conversationIds }

def extendProofConversation (db : Database) (proof : ExecutionProof) (context : OrgContext)
    (conversationId : Uuid) : ExecutionProof :=
  if proof.Covers conversationId then proof
  else
    { proof with
      conversations := proof.conversations ++ lockConversations db context [conversationId] }

structure RunRequest where
  conversationId : Uuid
  agentId : Uuid
  context : OrgContext
  source : RunSource
  inputPreview : Option String := none
  parentRunId : Option Uuid := none
  interruptId : Option String := none
  metadata : Option (List (String × Json)) := none
  allowLegacyResume : Bool := false
  attributed : Bool := false

/-- A present text that is not empty, as Python takes it. -/
def truthy (text : Option String) : Option String :=
  text.filter fun text => text ≠ ""

def requireParentSnapshotMatch (parent : ConversationRun) (resolved : RuntimePolicy) :
    Except Raised ConversationRun :=
  let parentTuple :=
    (parent.runtimePolicyVersion, parent.runtimePolicyHash, parent.runtimePolicySource)
  let expected := (some resolved.version, some resolved.policyHash, some resolved.source)
  if parentTuple = (none, none, none) ∧ resolved.source ∈ ["legacy_compat", "server_owned"] then
    .ok
      { parent with
        runtimePolicyVersion := some resolved.version
        runtimePolicyHash := some resolved.policyHash
        runtimePolicySource := some resolved.source }
  else if parentTuple ≠ expected then .error (.appError "RUNTIME_POLICY_SNAPSHOT_INVALID")
  else .ok parent

def requireInterruptedParent (db : Database) (request : RunRequest)
    (runtimePolicy : RuntimePolicy) : Except Raised Database :=
  match request.parentRunId with
  | none => do
      ensure (request.allowLegacyResume ∧ (truthy request.interruptId).isSome)
        (conflict "Resume run requires an interrupted parent run")
      ensure (¬ ∃ run ∈ db.runs.rows, run.conversationId = request.conversationId ∧
          PrivateRun db request.context run ∧ run.source = .resume ∧ run.parentRunId = none ∧
          run.interruptId = request.interruptId)
        (conflict "Legacy interrupted run was already resumed")
      return db
  | some parentRunId =>
      match latestInterruptedRun db request.conversationId request.context with
      | none => .error (conflict "Resume run must target the latest interrupted run")
      | some latest => do
          ensure (latest.id = parentRunId)
            (conflict "Resume run must target the latest interrupted run")
          ensure ((truthy latest.interruptId).isSome → latest.interruptId = request.interruptId)
            (conflict "Resume interrupt id does not match the interrupted run")
          let parent ← requireParentSnapshotMatch latest runtimePolicy
          return db.saveRun parent

/-- The checks that only a resume run makes. -/
def requireResumable (db : Database) (request : RunRequest) (runtimePolicy : RuntimePolicy) :
    Except Raised Database :=
  if request.source = .resume then requireInterruptedParent db request runtimePolicy else .ok db

/-- Limits hold back a new attributed run; a resume continues. -/
def admitRun (env : Environment) (request : RunRequest) : Except Raised Unit :=
  if request.attributed ∧ request.source ≠ .resume then env.requireCapacity else .ok ()

def newRun (env : Environment) (request : RunRequest) (runtimePolicy : RuntimePolicy) :
    ConversationRun where
  id := env.newId
  conversationId := request.conversationId
  agentId := some request.agentId
  userId := request.context.userId
  parentRunId := request.parentRunId
  source := request.source
  status := .queued
  isActive := true
  interruptId := if request.source = .resume then request.interruptId else none
  inputPreview := (truthy request.inputPreview).map fun preview =>
    String.ofList (preview.toList.take 500)
  createdAt := env.now
  metadata := request.metadata
  runtimePolicyVersion := some runtimePolicy.version
  runtimePolicyHash := some runtimePolicy.policyHash
  runtimePolicySource := some runtimePolicy.source

/-- Insert a run under its primary key, its parent's foreign key and the unique
index on active runs. -/
def insertRun (db : Database) (run : ConversationRun) : Except Raised Database :=
  match db.runs.insert? run with
  | none => .error (.integrityError "conversation_runs_pkey")
  | some runs => do
      ensure (∀ parentRunId ∈ run.parentRunId, (runs.get? parentRunId).isSome)
        (.integrityError "conversation_runs_parent_run_id_fkey")
      ensure (run.isActive → ∀ other ∈ db.runs.rows, other.isActive →
          other.conversationId ≠ run.conversationId)
        (conflict "Conversation already has an active run")
      return { db with runs := runs }

def createRunFromLockedProof (env : Environment) (proof : ExecutionProof) (request : RunRequest)
    (db : Database) : Except Raised (Database × ConversationRun) := do
  ensure (request.context = proof.scope) (.executionProofError "execution_scope_expansion_denied")
  ensure (proof.Covers request.conversationId ∨
      ∃ conversation ∈ db.conversations.rows, conversation.id = request.conversationId ∧
        conversation.agentId = some request.agentId ∧ PrivateScope request.context conversation)
    (.httpException 404 "Conversation not found")
  ensure (proof.Covers request.conversationId)
    (.executionProofError "execution_scope_expansion_denied")
  ensure (∃ conversation ∈ proof.heldRow request.conversationId,
      conversation.agentId = some request.agentId)
    (.httpException 404 "Conversation not found")
  env.refuseRun
  let runtimePolicy ← env.runtimePolicy
  let active ← getActiveRun env db request.conversationId request.context
  ensure (active = none) (conflict "Conversation already has an active run")
  let db ← requireResumable db request runtimePolicy
  admitRun env request
  let run := newRun env request runtimePolicy
  let db ← insertRun db run
  return (db, run)

/-- `create_run`: in a transaction that already holds a proof, for some scope
and conversations, the proof is extended; otherwise it covers all of the user's
conversations with the agent. -/
def createRun (env : Environment) (live : Option (OrgContext × List Uuid)) (request : RunRequest)
    (db : Database) : Except Raised (Database × ConversationRun) :=
  match live with
  | some (scope, conversationIds) =>
      let proof : ExecutionProof :=
        { scope := scope, conversations := lockConversations db scope conversationIds }
      createRunFromLockedProof env
        (extendProofConversation db proof request.context request.conversationId) request db
  | none =>
      let batch := (db.conversations.rows.filter fun conversation =>
        conversation.agentId = some request.agentId ∧
          PrivateScope request.context conversation).map Conversation.id
      match acquireExecutionProof env db request.context batch with
      | .error (.appError _) => .error (.httpException 404 "Conversation not found")
      | .error raised => .error raised
      | .ok proof => createRunFromLockedProof env proof request db

def allowedTransitions : RunStatus → List RunStatus
  | .queued => [.running, .failed, .stale, .canceling]
  | .running => [.completed, .failed, .interrupted, .canceling, .stale]
  | .canceling => [.canceled, .failed, .stale]
  | .completed | .failed | .interrupted | .canceled | .stale => []

/-- The keyword arguments of a transition. -/
structure Transition where
  workerInstanceId : Option String := none
  interruptId : Option String := none
  errorCode : Option String := none
  errorMessage : Option String := none
  lastEventId : Option String := none
  cancellationAckWorkerId : Option String := none
  allowWorkerlessCancellationAck : Bool := false
  deriving DecidableEq

/-- The acknowledging worker owns the run. -/
def OwnerAck (run : ConversationRun) (transition : Transition) : Prop :=
  transition.cancellationAckWorkerId.isSome ∧
    run.workerInstanceId = transition.cancellationAckWorkerId

instance (run : ConversationRun) (transition : Transition) : Decidable (OwnerAck run transition) :=
  inferInstanceAs (Decidable (_ ∧ _))

def WorkerlessAck (run : ConversationRun) (transition : Transition) : Prop :=
  transition.allowWorkerlessCancellationAck ∧ run.workerInstanceId = none

instance (run : ConversationRun) (transition : Transition) :
    Decidable (WorkerlessAck run transition) :=
  inferInstanceAs (Decidable (_ ∧ _))

def transitioned (now : Time) (run : ConversationRun) (status : RunStatus)
    (transition : Transition) : ConversationRun :=
  let moved :=
    { run with
      status := status
      lastEventId := (truthy transition.lastEventId).or run.lastEventId }
  match status with
  | .running =>
      { moved with
        isActive := true
        startedAt := run.startedAt.or (some now)
        heartbeatAt := some now
        workerInstanceId := (truthy transition.workerInstanceId).or run.workerInstanceId }
  | .canceling =>
      { moved with
        isActive := true
        cancelRequestedAt := run.cancelRequestedAt.or (some now) }
  | .completed | .failed | .interrupted | .canceled | .stale =>
      { moved with
        isActive := false
        completedAt := run.completedAt.or (some now)
        cancellationAcknowledgedAt :=
          if run.cancelRequestedAt.isSome ∧ (OwnerAck run transition ∨ WorkerlessAck run transition)
          then run.cancellationAcknowledgedAt.or (some now)
          else run.cancellationAcknowledgedAt
        interruptId :=
          if status = .interrupted then (truthy transition.interruptId).or run.interruptId
          else run.interruptId
        errorCode := if status ∈ [.failed, .stale] then transition.errorCode else run.errorCode
        errorMessage :=
          if status ∈ [.failed, .stale] then transition.errorMessage else run.errorMessage }
  | .queued => moved

def transitionRun (now : Time) (run : ConversationRun) (status : RunStatus)
    (transition : Transition) : Except Raised ConversationRun := do
  ensure (status ∈ allowedTransitions run.status)
    (.valueError ("Invalid run status transition: " ++ run.status.value ++ " -> " ++ status.value))
  ensure (¬ (status ∈ runTerminalStatuses ∧ run.cancelRequestedAt.isSome ∧
      ¬ (OwnerAck run transition ∨ WorkerlessAck run transition) ∧
      (transition.cancellationAckWorkerId.isSome ∨ transition.allowWorkerlessCancellationAck)))
    (.valueError "Cancellation acknowledgment requires the owning worker")
  return transitioned now run status transition

def requestCancelRun (now : Time) (run : ConversationRun) (reason : String) :
    Except Raised ConversationRun :=
  if run.status ∈ runTerminalStatuses ∨ run.status = .canceling then .ok run
  else if run.status ∉ [.queued, .running] then
    .error (.valueError ("Run cannot be canceled from status: " ++ run.status.value))
  else transitionRun now { run with cancelReason := some reason } .canceling {}

def heartbeatRun (now : Time) (runId : Uuid) (db : Database) : Database × Bool :=
  match db.runs.get? runId with
  | none => (db, false)
  | some run =>
      if ¬ run.isActive ∨ run.status ∉ runActiveStatuses then (db, false)
      else (db.saveRun { run with heartbeatAt := some now }, true)

/-- The operations on runs.  A caller that finds no row under the id it has
returns without a transition. -/
inductive RunAction
  | createRun (env : Environment) (live : Option (OrgContext × List Uuid)) (request : RunRequest)
  | transitionRun (now : Time) (runId : Uuid) (status : RunStatus) (transition : Transition)
  | requestCancelRun (now : Time) (runId : Uuid) (reason : String)
  | heartbeatRun (now : Time) (runId : Uuid)

/-- Write what an operation makes of a row that is there. -/
def updateRun (runId : Uuid) (update : ConversationRun → Except Raised ConversationRun)
    (db : Database) : Except Raised Database :=
  match db.runs.get? runId with
  | none => .ok db
  | some run => do
      let run ← update run
      return db.saveRun run

def performRun (db : Database) : RunAction → Except Raised Database
  | .createRun env live request => do
      let created ← createRun env live request db
      return created.1
  | .transitionRun now runId status transition =>
      updateRun runId (fun run => transitionRun now run status transition) db
  | .requestCancelRun now runId reason =>
      updateRun runId (fun run => requestCancelRun now run reason) db
  | .heartbeatRun now runId => .ok (heartbeatRun now runId db).1

/-- An operation that raises is rolled back. -/
def stepRun (db : Database) (action : RunAction) : Database :=
  match performRun db action with
  | .ok after => after
  | .error _ => db

end NaturalMold.Conversations

import NaturalMold.Approvals
import NaturalMold.RowVersions
import NaturalMold.StepRuns

/-! # Transactions that decide, close and stop approval requests -/

namespace NaturalMold.Approvals

open Conversations (Uuid Time)
open KeyedTables RowVersions

/-- A run that continues an interrupted one. -/
structure ResumedRun where
  id : Uuid
  parentRunId : Uuid
  deriving DecidableEq

abbrev RunTable := Table ResumedRun.id

inductive Update
  | claim (request : Claim) (stamp : Time)
  | close (reason : String) (stamp : Time)
  | stop (agentIds : List Uuid) (stamp : Time)
  deriving DecidableEq

namespace Update

def guard : Update → ApprovalRequest → Bool
  | .claim request stamp, row => request.Guard stamp row
  | .close _ _, row => row.status = .pending
  | .stop agentIds _, row => StopsRow agentIds row

def apply : Update → ApprovalRequest → ApprovalRequest
  | .claim request stamp, row => request.decided stamp row
  | .close reason stamp, row => closed reason stamp row
  | .stop _ stamp, row => stopped stamp row

/-- The transaction is rolled back if the row is not updated. -/
def required : Update → Bool
  | .claim _ _ => true
  | .close _ _ | .stop _ _ => false

def missed : Update → ApprovalRequest → ApprovalStatus
  | .claim _ stamp, row => Claim.staleStatus stamp row
  | .close _ _, row | .stop _ _, row => row.status

end Update

inductive Statement
  | acceptRun (run : ResumedRun)
  | selectRequests (request : Claim)
  | closeRequest (rowId : Uuid) (reason : String)
  | cancelApprovals (agentIds : List Uuid)
  | update (change : Update) (rowId : Uuid)
  deriving DecidableEq

/-- `claim_resume`; `responses` are the decision types of the answers. -/
def claimResume (parentRunId : Uuid) (responses : List (String × List String)) (actorId : Uuid)
    (resumedRunId : Uuid) (channel : ApprovalChannel) : Claim where
  runId := parentRunId
  decisions := responses
  channel := channel
  actorId := some actorId
  resumedRunId := some resumedRunId

/-- The claim with which the sweep ends a request that nothing resumed. -/
def expireAlone (runId : Uuid) (interruptId : String) (actions : ℕ) : Claim where
  runId := runId
  decisions := [(interruptId, List.replicate actions "reject")]
  channel := .expiry
  actorId := none

inductive Work
  | respond (parentRunId : Uuid) (responses : List (String × List String)) (actorId : Uuid)
      (resumedRunId : Uuid) (channel : ApprovalChannel)
  | expire (runId : Uuid) (interruptId : String) (actions : ℕ)
  | close (rowId : Uuid) (reason : String)
  | stop (agentIds : List Uuid)
  deriving DecidableEq

namespace Work

def run : Work → Option ResumedRun
  | .respond parentRunId _ _ resumedRunId _ => some ⟨resumedRunId, parentRunId⟩
  | .expire .. | .close .. | .stop .. => none

def claim : Work → Option Claim
  | .respond parentRunId responses actorId resumedRunId channel =>
      some (claimResume parentRunId responses actorId resumedRunId channel)
  | .expire runId interruptId actions => some (expireAlone runId interruptId actions)
  | .close .. | .stop .. => none

def statements : Work → List Statement
  | .respond parentRunId responses actorId resumedRunId channel =>
      [.acceptRun ⟨resumedRunId, parentRunId⟩,
        .selectRequests (claimResume parentRunId responses actorId resumedRunId channel)]
  | .expire runId interruptId actions => [.selectRequests (expireAlone runId interruptId actions)]
  | .close rowId reason => [.closeRequest rowId reason]
  | .stop agentIds => [.cancelApprovals agentIds]

end Work

structure Transaction where
  work : Work
  remaining : List Statement
  created : Option ResumedRun
  stale : Option ApprovalStatus
  writer : Writer ApprovalRequest
  deriving DecidableEq

def Transaction.begin (work : Work) : Transaction where
  work := work
  remaining := work.statements
  created := none
  stale := none
  writer := .begun

/-- The committed rows, and all transactions so far. -/
structure System where
  rows : RequestTable
  runs : RunTable
  transactions : List Transaction

namespace System

def initial (rows : RequestTable) (runs : RunTable) : System where
  rows := rows
  runs := runs
  transactions := []

def writers (system : System) : List (Writer ApprovalRequest) :=
  system.transactions.map Transaction.writer

def put (system : System) (index : ℕ) (transaction : Transaction) : System :=
  { system with transactions := system.transactions.set index transaction }

def abort (system : System) (index : ℕ) (transaction : Transaction)
    (stale : Option ApprovalStatus) : System :=
  system.put index
    { transaction with stale, writer := { transaction.writer with phase := .rolledBack } }

def commit (system : System) (index : ℕ) (transaction : Transaction) : System :=
  let done := { transaction with writer := { transaction.writer with phase := .committed } }
  let installed := { system.put index done with
    rows := install system.rows transaction.writer.written }
  match transaction.created with
  | none => installed
  | some run =>
      match system.runs.insert? run with
      | some runs => { installed with runs }
      | none => system.abort index transaction none

def updateRow (system : System) (index : ℕ) (transaction : Transaction) (rest : List Statement)
    (change : Update) (rowId : Uuid) : System :=
  if lockedByOther ApprovalRequest.id system.writers index rowId then system
  else
    match view system.rows transaction.writer.written rowId with
    | none => system.abort index transaction none
    | some row =>
        if change.guard row then
          system.put index
            { transaction with
              remaining := rest
              writer := { transaction.writer with
                written := transaction.writer.written ++ [change.apply row] } }
        else if change.required then system.abort index transaction (some (change.missed row))
        else system.put index { transaction with remaining := rest }

/-- The next statement of a transaction; without one it commits. -/
def execute (system : System) (index : ℕ) (now : Time) : System :=
  match system.transactions[index]? with
  | none => system
  | some transaction =>
      if transaction.writer.phase ≠ .active then system
      else
        match transaction.remaining with
        | [] => system.commit index transaction
        | .acceptRun run :: rest =>
            match system.runs.insert? run with
            | none => system.abort index transaction none
            | some _ => system.put index { transaction with remaining := rest, created := some run }
        | .selectRequests request :: rest =>
            let found := system.rows.rows.filter fun row => request.Selects row
            let updates := found.map fun row => Statement.update (.claim request now) row.id
            system.put index { transaction with remaining := updates ++ rest }
        | .closeRequest rowId reason :: rest =>
            system.put index
              { transaction with remaining := .update (.close reason now) rowId :: rest }
        | .cancelApprovals agentIds :: rest =>
            let found := system.rows.rows.filter fun row => StopsRow agentIds row
            let updates := found.map fun row => Statement.update (.stop agentIds now) row.id
            system.put index { transaction with remaining := updates ++ rest }
        | .update change rowId :: rest => system.updateRow index transaction rest change rowId

end System

inductive Action
  | begin (work : Work)
  | execute (index : ℕ) (now : Time)
  | rollback (index : ℕ)

def System.step (system : System) : Action → System
  | .begin work => { system with transactions := system.transactions ++ [.begin work] }
  | .execute index now => system.execute index now
  | .rollback index =>
      match system.transactions[index]? with
      | none => system
      | some transaction =>
          if transaction.writer.phase = .active then system.abort index transaction none else system

def systemAfter (rows : RequestTable) (runs : RunTable) (actions : List Action) : System :=
  StepRuns.run System.step (System.initial rows runs) actions

end NaturalMold.Approvals

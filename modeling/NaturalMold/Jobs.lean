import NaturalMold.ConversationTables
import NaturalMold.StepRuns

/-!
# Background jobs

A worker claims a due job under a row lock, extends its lease with heartbeats and writes the
result. The payload and the columns that only scope a query are left out.
-/

namespace NaturalMold.Jobs

open Conversations (Time)

inductive JobState
  | queued
  | running
  | succeeded
  | failed
  | canceled
  deriving DecidableEq

/-- `is_finished`, that is membership in `TERMINAL_STATES`. -/
def isFinished : JobState → Bool
  | .succeeded | .failed | .canceled => true
  | .queued | .running => false

/-- A row of `jobs`. -/
structure Job (Result : Type) where
  type : String
  state : JobState
  progress : ℤ
  progressNote : Option String
  attempts : ℕ
  maxAttempts : ℤ
  lockedBy : Option String
  leaseUntil : Option Time
  heartbeatAt : Option Time
  cancelRequested : Bool
  runAfter : Time
  result : Option Result
  errorCode : Option String
  errorMessage : Option String
  finishedAt : Option Time
  deriving DecidableEq

variable {Result : Type}

def backoffSeconds : List ℕ :=
  [10, 60, 300, 900]

/-- The retry delay after an attempt; without attempts the index is `-1`. -/
def backoffDelay (attempts : ℕ) : ℕ :=
  if attempts = 0 then 900 else backoffSeconds.getD (min (attempts - 1) 3) 0

def messageLimit : ℕ :=
  500

def truncated (limit : ℕ) (text : String) : String :=
  String.ofList (text.toList.take limit)

/-- A new row, as `enqueue` adds it. -/
def newJob (type : String) (maxAttempts : ℤ) (runAfter : Time) : Job Result where
  type := type
  state := .queued
  progress := 0
  progressNote := none
  attempts := 0
  maxAttempts := maxAttempts
  lockedBy := none
  leaseUntil := none
  heartbeatAt := none
  cancelRequested := false
  runAfter := runAfter
  result := none
  errorCode := none
  errorMessage := none
  finishedAt := none

def Job.finish (job : Job Result) (state : JobState) (now : Time)
    (result : Option Result) (code message : Option String) : Job Result :=
  { job with
    state := state
    lockedBy := none
    leaseUntil := none
    finishedAt := some now
    progress := if state = .succeeded then 100 else job.progress
    result := if state = .succeeded then result else job.result
    errorCode := code
    errorMessage := (message.filter (· ≠ "")).map (truncated messageLimit) }

/-- What the worker keeps of a claim. -/
structure Claim where
  workerId : String
  attempt : ℕ
  deriving DecidableEq

/-- The condition of the claim's query. -/
def Job.due (job : Job Result) (moment : Time) : Bool :=
  (job.state = .queued ∧ job.runAfter ≤ moment) ∨
    (job.state = .running ∧ job.leaseUntil.any (· < moment))

/-- What `claim` makes of the row that it has locked. -/
def Job.claim (job : Job Result) (workerId : String) (leaseSeconds : ℕ) (moment now : Time) :
    Job Result × Option Claim :=
  if job.state = .running ∧ job.maxAttempts ≤ job.attempts then
    (job.finish .failed now none (some "lease_expired")
      (some "the worker stopped responding"), none)
  else if job.cancelRequested then (job.finish .canceled now none none none, none)
  else
    ({ job with
        state := .running
        attempts := job.attempts + 1
        lockedBy := some workerId
        leaseUntil := some (moment + leaseSeconds)
        heartbeatAt := some moment },
      some ⟨workerId, job.attempts + 1⟩)

inductive HolderCall (Result : Type)
  | heartbeat (leaseSeconds : ℕ) (progress : Option ℤ) (note : Option String)
  | succeed (result : Option Result)
  | fail (code message : String) (retry : Bool)
  | canceled
  deriving DecidableEq

/-- The test of `_held`. -/
def Job.heldBy (job : Job Result) (workerId : String) : Bool :=
  job.lockedBy = some workerId ∧ job.state = .running

/-- What a call sets on the row that it has selected. -/
def HolderCall.change (call : HolderCall Result) (now : Time) (job : Job Result) : Job Result :=
  match call with
  | heartbeat leaseSeconds progress note =>
      { job with
        heartbeatAt := some now
        leaseUntil := some (now + leaseSeconds)
        progress := progress.elim job.progress fun value => max 0 (min 100 value)
        progressNote := note.elim job.progressNote fun text => some (truncated 200 text) }
  | succeed result => job.finish .succeeded now result none none
  | fail code message retry =>
      if retry ∧ job.attempts < job.maxAttempts ∧ job.cancelRequested = false then
        { job with
          state := .queued
          lockedBy := none
          leaseUntil := none
          runAfter := now + backoffDelay job.attempts
          errorCode := some code
          errorMessage := some (truncated messageLimit message) }
      else job.finish .failed now none (some code) (some message)
  | canceled => job.finish .canceled now none none none

def Job.requestCancel (job : Job Result) (now : Time) : Job Result :=
  if isFinished job.state then job
  else if job.state = .queued then job.finish .canceled now none none none
  else { job with cancelRequested := true }

/-- A column after an `UPDATE`, which sets it only if the session changed it. -/
def written {Value : Type} [DecidableEq Value] (selected changed current : Value) : Value :=
  if changed = selected then current else changed

@[simp]
theorem written_self {Value : Type} [DecidableEq Value] (selected current : Value) :
    written selected selected current = current :=
  if_pos rfl

theorem written_of_ne {Value : Type} [DecidableEq Value] {selected changed : Value}
    (current : Value) (differs : changed ≠ selected) :
    written selected changed current = changed :=
  if_neg differs

/-- The row after the `UPDATE` of a session that had selected it earlier. -/
def Job.write [DecidableEq Result] (selected changed current : Job Result) : Job Result where
  type := written selected.type changed.type current.type
  state := written selected.state changed.state current.state
  progress := written selected.progress changed.progress current.progress
  progressNote := written selected.progressNote changed.progressNote current.progressNote
  attempts := written selected.attempts changed.attempts current.attempts
  maxAttempts := written selected.maxAttempts changed.maxAttempts current.maxAttempts
  lockedBy := written selected.lockedBy changed.lockedBy current.lockedBy
  leaseUntil := written selected.leaseUntil changed.leaseUntil current.leaseUntil
  heartbeatAt := written selected.heartbeatAt changed.heartbeatAt current.heartbeatAt
  cancelRequested :=
    written selected.cancelRequested changed.cancelRequested current.cancelRequested
  runAfter := written selected.runAfter changed.runAfter current.runAfter
  result := written selected.result changed.result current.result
  errorCode := written selected.errorCode changed.errorCode current.errorCode
  errorMessage := written selected.errorMessage changed.errorMessage current.errorMessage
  finishedAt := written selected.finishedAt changed.finishedAt current.finishedAt

inductive Transaction (Result : Type)
  | held (claim : Claim) (call : HolderCall Result) (selected : Job Result)
  | cancel (selected : Job Result)
  deriving DecidableEq

structure RowLock where
  workerId : String
  moment : Time

/-- The committed row, its lock, the attempts handed to handlers, and the open
transactions. -/
structure System (Result : Type) where
  row : Option (Job Result)
  lock : Option RowLock
  claims : List Claim
  transactions : List (Transaction Result)

def System.initial : System Result where
  row := none
  lock := none
  claims := []
  transactions := []

inductive Action (Result : Type)
  | enqueue (type : String) (maxAttempts : ℤ) (runAfter : Time)
  | lockDue (workerId : String) (moment : Time)
  | commitClaim (leaseSeconds : ℕ) (now : Time)
  | selectHeld (claim : Claim) (call : HolderCall Result)
  | loadToCancel
  | commit (transaction : Transaction Result) (now : Time)
  | abandon (transaction : Transaction Result)
  deriving DecidableEq

def Transaction.change (now : Time) : Transaction Result → Job Result
  | held _ call selected => call.change now selected
  | cancel selected => selected.requestCancel now

def Transaction.selected : Transaction Result → Job Result
  | held _ _ selected => selected
  | cancel selected => selected

variable [DecidableEq Result]

/-- One step; a step that is not possible changes nothing. -/
def System.step (system : System Result) (action : Action Result) : System Result :=
  match action, system.row with
  | .enqueue type maxAttempts runAfter, none =>
      { system with row := some (newJob type maxAttempts runAfter) }
  -- The same key returns the existing row.
  | .enqueue _ _ _, some _ => system
  | .lockDue workerId moment, some job =>
      if system.lock.isNone ∧ job.due moment then
        { system with lock := some ⟨workerId, moment⟩ }
      else system
  | .commitClaim leaseSeconds now, some job =>
      match system.lock with
      | none => system
      | some lock =>
          let claimed := job.claim lock.workerId leaseSeconds lock.moment now
          { system with
            row := some claimed.1
            lock := none
            claims := system.claims ++ claimed.2.toList }
  | .selectHeld claim call, some job =>
      if claim ∈ system.claims ∧ job.heldBy claim.workerId then
        { system with transactions := system.transactions ++ [.held claim call job] }
      else system
  | .loadToCancel, some job =>
      { system with transactions := system.transactions ++ [.cancel job] }
  -- A write waits for the lock of a claim.
  | .commit transaction now, some job =>
      if system.lock.isNone ∧ transaction ∈ system.transactions then
        { system with
          row := some (Job.write transaction.selected (transaction.change now) job)
          transactions := system.transactions.erase transaction }
      else system
  | .abandon transaction, _ =>
      { system with transactions := system.transactions.erase transaction }
  | _, none => system

def systemAfter (actions : List (Action Result)) : System Result :=
  StepRuns.run System.step System.initial actions

end NaturalMold.Jobs

import NaturalMold.Jobs

/-!
# Scheduling of memory consolidation

A saved memory queues a job for its scope once five new memories wait.
-/

namespace NaturalMold.ConsolidationSchedule

open Conversations (Uuid Time)
open Jobs (JobState isFinished)
open KeyedTables StepRuns

/-- The memories of a person, or those of one of their agents. -/
structure Scope where
  userId : Uuid
  agentId : Option Uuid
  deriving DecidableEq

structure MemoryRecord where
  id : Uuid
  userId : Uuid
  isAgentScope : Bool
  agentId : Option Uuid
  isActive : Bool
  createdAt : Time
  deriving DecidableEq

inductive RunOutcome
  | ok
  | failed
  | stopped
  deriving DecidableEq

structure MemoryConsolidationRun where
  id : Uuid
  scope : Scope
  outcome : RunOutcome
  createdAt : Time
  deriving DecidableEq

/-- The idempotency key: the scope and its last recorded run. -/
structure JobKey where
  scope : Scope
  last : Option Uuid
  deriving DecidableEq

structure ConsolidateJob where
  key : JobKey
  scope : Scope
  runAfter : Time
  state : JobState
  deriving DecidableEq

structure Database where
  records : Table MemoryRecord.id := Table.empty
  runs : Table MemoryConsolidationRun.id := Table.empty
  jobs : Table ConsolidateJob.key := Table.empty

/-- The settings that a save or a job reads. -/
structure Settings where
  runtimeProfile : Option String
  tenantEnabled : Bool
  userEnabled : Bool
  consolidation : Option String
  profile : Option String

def minNewMemories : ℕ :=
  5

/-- `INTERVAL`, in seconds. -/
def interval : ℕ :=
  24 * 60 * 60

def failureLimit : ℕ :=
  3

def enabledAxes (settings : Settings) : Option (String × String) :=
  if !settings.tenantEnabled || !settings.userEnabled then none
  else if settings.consolidation = some "off" && settings.profile = some "off" then none
  else some (settings.consolidation.getD "approve", settings.profile.getD "approve")

/-- `_scope_filter`, for a person's memories. -/
def inScope (scope : Scope) (record : MemoryRecord) : Bool :=
  record.userId = scope.userId &&
    match scope.agentId with
    | none => !record.isAgentScope
    | some agentId => record.isAgentScope && record.agentId = some agentId

def scopeOf (record : MemoryRecord) : Scope where
  userId := record.userId
  agentId := if record.isAgentScope then record.agentId else none

/-- The order of `_recent_runs`; runs of one time keep the order they were recorded in. -/
def Newer (first second : MemoryConsolidationRun) : Prop :=
  second.createdAt ≤ first.createdAt

instance : DecidableRel Newer := fun first second =>
  inferInstanceAs (Decidable (second.createdAt ≤ first.createdAt))

instance : Std.Total Newer where
  total first second := Nat.le_total second.createdAt first.createdAt

instance : IsTrans MemoryConsolidationRun Newer where
  trans _ _ _ first second := Nat.le_trans second first

def runsOf (db : Database) (scope : Scope) : List MemoryConsolidationRun :=
  db.runs.rows.filter fun run => run.scope = scope

def recentRuns (db : Database) (scope : Scope) (limit : ℕ) : List MemoryConsolidationRun :=
  ((runsOf db scope).insertionSort Newer).take limit

def stopped (runs : List MemoryConsolidationRun) (now : Time) : Bool :=
  let recent := (runs.take failureLimit).filter fun run => now ≤ run.createdAt + interval
  (runs.head?.any fun run => run.outcome = .stopped) ||
    (recent.length = failureLimit && recent.all fun run => run.outcome = .failed)

def newMemories (db : Database) (scope : Scope) (last : Option MemoryConsolidationRun) : ℕ :=
  (db.records.rows.filter fun record => inScope scope record && record.isActive &&
    last.all fun last => last.createdAt < record.createdAt).length

/-- `enqueue`; a job with the key is returned as it is. -/
def enqueue (key : JobKey) (runAfter : Time) (jobs : Table ConsolidateJob.key) :
    Table ConsolidateJob.key :=
  match jobs.get? key with
  | some _ => jobs
  | none =>
      (jobs.insert? { key, scope := key.scope, runAfter, state := .queued }).getD jobs

/-- Hidden runtime agents are not consolidated. -/
def Consolidated (settings : Settings) (scope : Scope) : Prop :=
  (scope.agentId = none ∨ settings.runtimeProfile = none ∨
    settings.runtimeProfile = some "standard") ∧ (enabledAxes settings).isSome

instance (settings : Settings) (scope : Scope) : Decidable (Consolidated settings scope) :=
  inferInstanceAs (Decidable (_ ∧ _))

def schedule (settings : Settings) (now : Time) (record : MemoryRecord) (db : Database) :
    Database :=
  let scope := scopeOf record
  if ¬ Consolidated settings scope then db
  else
    let runs := recentRuns db scope failureLimit
    if stopped runs now then db
    else
      let last := runs.head?
      if newMemories db scope last < minNewMemories then db
      else
        let runAfter := last.elim now fun last => max now (last.createdAt + interval)
        { db with
          jobs := enqueue ⟨scope, last.map MemoryConsolidationRun.id⟩ runAfter db.jobs }

/-- What an attempt of a job meets: the limits, the settings, whether there is anything to
read, and whether the model answers. -/
structure Attempt where
  isUsageLimited : Bool
  settings : Settings
  hasInputs : Bool
  isAnswered : Bool
  runId : Uuid
  now : Time
  recordedAt : Time

inductive Outcome
  | skipped
  | recorded (outcome : RunOutcome)
  deriving DecidableEq

/-- `run_consolidation`, with the run that it records. -/
def runConsolidation (attempt : Attempt) (scope : Scope) (db : Database) : Database × Outcome :=
  let runs := recentRuns db scope failureLimit
  if (enabledAxes attempt.settings).isNone || stopped runs attempt.now then (db, .skipped)
  else
    let outcome := if attempt.hasInputs && !attempt.isAnswered then .failed else .ok
    let run := { id := attempt.runId, scope, outcome, createdAt := attempt.recordedAt }
    match db.runs.insert? run with
    | none => (db, .skipped)
    | some runs => ({ db with runs := runs }, .recorded outcome)

/-- `_run_job`, up to the end of the job. -/
def runJob (attempt : Attempt) (scope : Scope) (db : Database) : Database × Outcome :=
  if attempt.isUsageLimited then (db, .skipped) else runConsolidation attempt scope db

inductive Action
  | save (record : MemoryRecord) (settings : Settings) (now : Time) (scheduled : Bool)
  | setActive (id : Uuid) (isActive : Bool)
  | attempt (key : JobKey) (attempt : Attempt)
  | endJob (key : JobKey) (state : JobState)

namespace Database

/-- One step.  A failure of `_schedule` does not fail the save; a job may end in any state, also
without an attempt that has recorded a run. -/
def step (db : Database) : Action → Database
  | .save record settings now scheduled =>
      match db.records.insert? record with
      | none => db
      | some records =>
          if scheduled then schedule settings now record { db with records := records }
          else { db with records := records }
  | .setActive id isActive =>
      match db.records.get? id with
      | none => db
      | some record => { db with records := db.records.save { record with isActive } }
  | .attempt key attempt =>
      match db.jobs.get? key with
      | none => db
      | some job => if isFinished job.state then db else (runJob attempt job.scope db).1
  | .endJob key state =>
      match db.jobs.get? key with
      | none => db
      | some job =>
          if isFinished job.state then db
          else { db with jobs := db.jobs.save { job with state } }

end Database

def lastRunId (db : Database) (scope : Scope) : Option Uuid :=
  (recentRuns db scope failureLimit).head?.map MemoryConsolidationRun.id

def ThreeFailures (db : Database) (scope : Scope) (now : Time) : Prop :=
  (recentRuns db scope failureLimit).length = failureLimit ∧
    ∀ run ∈ recentRuns db scope failureLimit,
      run.outcome = .failed ∧ now ≤ run.createdAt + interval

/-- A scope that has enough new memories and is not stopped gets a job with its next memory,
and it is stopped by three failures alone. -/
structure Unstuck (db : Database) : Prop where
  scheduled : ∀ settings now record, Consolidated settings (scopeOf record) →
    ¬ stopped (recentRuns db (scopeOf record) failureLimit) now →
    minNewMemories ≤ newMemories db (scopeOf record)
      (recentRuns db (scopeOf record) failureLimit).head? →
    ∃ job ∈ (schedule settings now record db).jobs.rows,
      job.scope = scopeOf record ∧ ¬ isFinished job.state
  stopped_iff : ∀ scope now,
    stopped (recentRuns db scope failureLimit) now ↔ ThreeFailures db scope now

def EndsRecorded (db : Database) : Action → Prop
  | .endJob key state => isFinished state → ∀ job ∈ db.jobs.get? key, ¬ isFinished job.state →
      key.last ≠ lastRunId db key.scope
  | _ => True

instance : DecidableRel EndsRecorded := fun db action =>
  match action with
  | .endJob key _ =>
      inferInstanceAs (Decidable (_ → ∀ job ∈ db.jobs.get? key, _ → _))
  | .save .. | .setActive .. | .attempt .. => inferInstanceAs (Decidable True)

end NaturalMold.ConsolidationSchedule

import NaturalMold.ConversationRunInvariants
import NaturalMold.EmergencyStops

/-!
# Emergency stops and run creations

A stop inserts its row, selects the active runs of its agents under their row locks, asks them to
cancel and commits.
-/

namespace NaturalMold.EmergencyStops

open Conversations (Uuid Time ConversationRun RunStatus RunMove Transition Raised runActiveStatuses
  transitionRun requestCancelRun)
open KeyedTables StepRuns

/-- The last statement of a stop's transaction; the selected runs stay locked. -/
inductive StopPhase
  | inserted
  | selected (runIds : List Uuid)
  | committed
  | rolledBack
  deriving DecidableEq

structure StopTransaction where
  tenantId : Uuid
  scopeType : StopScope
  scopeId : Uuid
  newId : Uuid
  agentIds : List Uuid
  phase : StopPhase

def StopTransaction.hasSelected (transaction : StopTransaction) : Bool :=
  match transaction.phase with
  | .selected _ => true
  | .inserted | .committed | .rolledBack => false

def StopTransaction.selectedIds (transaction : StopTransaction) : List Uuid :=
  match transaction.phase with
  | .selected runIds => runIds
  | .inserted | .committed | .rolledBack => []

/-- The last statement of a transaction that creates a run. -/
inductive CreationPhase
  | locked
  | passed
  | flushed
  | committed
  | rolledBack
  deriving DecidableEq

/-- A creation with its run, and the stops that were committed when it started. -/
structure Creation where
  run : ConversationRun
  knownStops : List Uuid
  phase : CreationPhase

def StopTransaction.Open (transaction : StopTransaction) : Prop :=
  transaction.phase ≠ .committed ∧ transaction.phase ≠ .rolledBack

instance (transaction : StopTransaction) : Decidable transaction.Open :=
  inferInstanceAs (Decidable (_ ∧ _))

def Creation.Open (creation : Creation) : Prop :=
  creation.phase ≠ .committed ∧ creation.phase ≠ .rolledBack

instance (creation : Creation) : Decidable creation.Open := inferInstanceAs (Decidable (_ ∧ _))

/-- The committed tables, and all transactions so far. -/
structure RaceState where
  db : Database
  runs : Table ConversationRun.id
  stops : List StopTransaction := []
  creations : List Creation := []

inductive RaceAction
  | beginStop (tenantId : Uuid) (scopeType : StopScope) (scopeId newId : Uuid)
  | selectRuns (index : ℕ)
  | commitStop (index : ℕ) (now : Time)
  | rollbackStop (index : ℕ)
  | release (tenantId stopId : Uuid)
  | beginCreation (run : ConversationRun)
  | refuseRun (index : ℕ)
  | flush (index : ℕ)
  | commitCreation (index : ℕ)
  | rollbackCreation (index : ℕ)
  | transition (now : Time) (runId : Uuid) (status : RunStatus) (transition : Transition)
  | requestCancel (now : Time) (runId : Uuid) (reason : String)

def ActiveStop (db : Database) (tenantId : Uuid) (scopeType : StopScope) (scopeId : Uuid) :
    Prop :=
  ∃ row ∈ db.stops.rows, row.tenantId = tenantId ∧ row.scopeType = scopeType ∧
    row.scopeId = scopeId ∧ row.status = .active

instance (db : Database) (tenantId : Uuid) (scopeType : StopScope) (scopeId : Uuid) :
    Decidable (ActiveStop db tenantId scopeType scopeId) :=
  inferInstanceAs (Decidable (∃ row ∈ db.stops.rows, _))

def OfAgents (agentIds : List Uuid) (run : ConversationRun) : Prop :=
  ∃ agentId ∈ run.agentId, agentId ∈ agentIds

instance (agentIds : List Uuid) (run : ConversationRun) : Decidable (OfAgents agentIds run) :=
  inferInstanceAs (Decidable (∃ agentId ∈ run.agentId, _))

def CoversRun (db : Database) (row : EmergencyStop) (run : ConversationRun) : Prop :=
  ∃ agentId ∈ run.agentId, Covers db row agentId

instance (db : Database) (row : EmergencyStop) (run : ConversationRun) :
    Decidable (CoversRun db row run) :=
  inferInstanceAs (Decidable (∃ agentId ∈ run.agentId, _))

/-- The runs that `_cancel_runs` selects. -/
def selectedRuns (agentIds : List Uuid) (runs : Table ConversationRun.id) : List Uuid :=
  (runs.rows.filter fun run => run.status ∈ runActiveStatuses ∧ OfAgents agentIds run).map
    ConversationRun.id

/-- `request_cancel_run` of a selected run. -/
def cancelRun (now : Time) (run : ConversationRun) : ConversationRun :=
  match requestCancelRun now run "emergency_stop" with
  | .ok canceled => canceled
  | .error _ => run

theorem cancelRun_move (now : Time) (run : ConversationRun) : RunMove run (cancelRun now run) := by
  unfold cancelRun
  split
  case h_1 canceled succeeded => exact Conversations.requestCancelRun_move succeeded
  case h_2 => exact .keep run

namespace RaceState

/-- A stop that has not ended has selected the run. -/
def Locked (state : RaceState) (runId : Uuid) : Prop :=
  ∃ transaction ∈ state.stops, runId ∈ transaction.selectedIds

instance (state : RaceState) (runId : Uuid) : Decidable (state.Locked runId) :=
  inferInstanceAs (Decidable (∃ transaction ∈ state.stops, _))

def setStop (state : RaceState) (index : ℕ) (transaction : StopTransaction)
    (phase : StopPhase) : RaceState :=
  { state with stops := state.stops.set index { transaction with phase := phase } }

def setCreation (state : RaceState) (index : ℕ) (creation : Creation)
    (phase : CreationPhase) : RaceState :=
  { state with creations := state.creations.set index { creation with phase := phase } }

def commitStop (state : RaceState) (index : ℕ) (transaction : StopTransaction) (now : Time) :
    RaceState :=
  if ActiveStop state.db transaction.tenantId transaction.scopeType transaction.scopeId ∨
      (state.db.stops.get? transaction.newId).isSome then
    state.setStop index transaction .rolledBack
  else
    { state.setStop index transaction .committed with
      db := stop state.db transaction.tenantId transaction.scopeType transaction.scopeId
        transaction.newId
      runs := state.runs.updateWhere (fun run => run.id ∈ transaction.selectedIds)
        (cancelRun now) fun run => (cancelRun_move now run).id_eq }

def updateRun (state : RaceState) (runId : Uuid)
    (update : ConversationRun → Except Raised ConversationRun) : RaceState :=
  match state.runs.get? runId with
  | none => state
  | some run =>
      if state.Locked runId then state
      else
        match update run with
        | .error _ => state
        | .ok moved => { state with runs := state.runs.save moved }

/-- One step; a step that is not possible, or that waits, changes nothing. -/
def step (state : RaceState) : RaceAction → RaceState
  | .beginStop tenantId scopeType scopeId newId =>
      match target state.db tenantId scopeType scopeId with
      | none => state
      | some agentIds =>
          if ActiveStop state.db tenantId scopeType scopeId then state
          else
            { state with
              stops := state.stops ++
                [{ tenantId, scopeType, scopeId, newId, agentIds, phase := .inserted }] }
  | .selectRuns index =>
      match state.stops[index]? with
      | none => state
      | some transaction =>
          let runIds := selectedRuns transaction.agentIds state.runs
          if transaction.phase = .inserted ∧ ∀ runId ∈ runIds, ¬ state.Locked runId then
            state.setStop index transaction (.selected runIds)
          else state
  | .commitStop index now =>
      match state.stops[index]? with
      | none => state
      | some transaction =>
          if transaction.hasSelected then state.commitStop index transaction now else state
  | .rollbackStop index =>
      match state.stops[index]? with
      | none => state
      | some transaction =>
          if transaction.phase = .committed then state
          else state.setStop index transaction .rolledBack
  | .release tenantId stopId => { state with db := release state.db tenantId stopId }
  | .beginCreation run =>
      if ∃ other ∈ state.creations, other.Open ∧ other.run.conversationId = run.conversationId then
        state
      else
        { state with
          creations := state.creations ++
            [{ run := run
               knownStops := state.db.stops.rows.map EmergencyStop.id
               phase := .locked }] }
  | .refuseRun index =>
      match state.creations[index]? with
      | none => state
      | some creation =>
          if creation.phase ≠ .locked then state
          else if ∃ row ∈ state.db.stops.rows, CoversRun state.db row creation.run then
            state.setCreation index creation .rolledBack
          else state.setCreation index creation .passed
  | .flush index =>
      match state.creations[index]? with
      | none => state
      | some creation =>
          if creation.phase = .passed then state.setCreation index creation .flushed else state
  | .commitCreation index =>
      match state.creations[index]? with
      | none => state
      | some creation =>
          if creation.phase ≠ .flushed then state
          else
            match state.runs.insert? creation.run with
            | none => state.setCreation index creation .rolledBack
            | some runs => { state.setCreation index creation .committed with runs := runs }
  | .rollbackCreation index =>
      match state.creations[index]? with
      | none => state
      | some creation =>
          if creation.phase = .committed then state
          else state.setCreation index creation .rolledBack
  | .transition now runId status transition =>
      state.updateRun runId fun run => transitionRun now run status transition
  | .requestCancel now runId reason =>
      state.updateRun runId fun run => requestCancelRun now run reason

def Ended (state : RaceState) : Prop :=
  (∀ transaction ∈ state.stops, ¬ transaction.Open) ∧
    ∀ creation ∈ state.creations, ¬ creation.Open

instance (state : RaceState) : Decidable state.Ended :=
  inferInstanceAs (Decidable ((∀ transaction ∈ state.stops, _) ∧ ∀ creation ∈ state.creations, _))

/-- The active runs that a stop covers are asked to cancel, and nobody who started after the
stop has created a run that it covers. -/
structure NothingRuns (state : RaceState) : Prop where
  canceling : ∀ row ∈ state.db.stops.rows, ∀ run ∈ state.runs.rows,
    run.status ∈ runActiveStatuses → CoversRun state.db row run → run.status = .canceling
  refused : ∀ row ∈ state.db.stops.rows, ∀ creation ∈ state.creations,
    creation.phase = .committed → row.id ∈ creation.knownStops →
      ¬ CoversRun state.db row creation.run

def CommitsUnstopped (state : RaceState) : RaceAction → Prop
  | .commitCreation index => ∀ creation ∈ state.creations[index]?, creation.phase = .flushed →
      (∀ row ∈ state.db.stops.rows, ¬ CoversRun state.db row creation.run) ∧
      ∀ transaction ∈ state.stops, transaction.hasSelected →
        ¬ OfAgents transaction.agentIds creation.run
  | _ => True

instance : DecidableRel CommitsUnstopped := fun state action =>
  match action with
  | .commitCreation index =>
      inferInstanceAs (Decidable (∀ creation ∈ state.creations[index]?, _ → (_ ∧ _)))
  | .beginStop .. | .selectRuns _ | .commitStop .. | .rollbackStop _ | .release ..
  | .beginCreation _ | .refuseRun _ | .flush _ | .rollbackCreation _ | .transition ..
  | .requestCancel .. => inferInstanceAs (Decidable True)

end RaceState

end NaturalMold.EmergencyStops

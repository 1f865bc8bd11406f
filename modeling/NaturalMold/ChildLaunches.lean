import NaturalMold.FallibleSteps
import NaturalMold.KeyedTables
import NaturalMold.PreparedRuns

/-!
# The ledger of child launches

A reservation of a child launch opens a permit, claims the slot of its key, and closes the permit;
a won slot is launched, finished or released by key.
-/

namespace NaturalMold.ChildLaunches

open Conversations (Uuid)
open CronExpressions (Text)
open Fallible (ensure)
open KeyedTables (Table)
open RecentKeys (moveToEnd)
open RivalEvents (Apart)

structure ChildLaunchKey where
  leaseId : Uuid
  parentTaskId : Text
  childId : Text
  invocationId : Text
  deriving DecidableEq

inductive ChildLaunchState where
  | reserved
  | launched
  | finished
  deriving DecidableEq

/-- The slot of a key with the number of its task. -/
structure Slot where
  key : ChildLaunchKey
  state : ChildLaunchState
  task : Option ℕ
  deriving DecidableEq

/-- The codes of `DispatchDeniedError`, and the `TypeError` of a comparison. -/
inductive LaunchError where
  | notPrepared
  | duplicate
  | terminal
  | typeError
  deriving DecidableEq

namespace LaunchError

def code : LaunchError → Option Text
  | notPrepared => some "child_launch_not_prepared".toList
  | duplicate => some "child_launch_duplicate".toList
  | terminal => some "prepared_run_lease_missing".toList
  | typeError => none

end LaunchError

def childTaskPath (parentTaskId invocationId : Text) : Text :=
  parentTaskId ++ '/' :: Nat.toDigits 10 invocationId.length ++ ':' :: invocationId

def chainKey (leaseId : Uuid) (root childId : Text) (earlier : List Text) (last : Text) :
    ChildLaunchKey :=
  ⟨leaseId, earlier.foldl childTaskPath root, childId, last⟩

structure ChildLaunchLedger where
  slots : Table Slot.key
  closed : List Uuid
  closedCap : ℕ

namespace ChildLaunchLedger

def empty (closedCap : ℕ) : ChildLaunchLedger :=
  ⟨.empty, [], closedCap⟩

def ensureOpen (ledger : ChildLaunchLedger) (leaseId : Uuid) : Except LaunchError Unit :=
  ensure (!ledger.closed.contains leaseId) .terminal

def claim (ledger : ChildLaunchLedger) (key : ChildLaunchKey) :
    Except LaunchError (Option ChildLaunchLedger) := do
  ledger.ensureOpen key.leaseId
  .ok ((ledger.slots.insert? ⟨key, .reserved, none⟩).map fun slots =>
    { ledger with slots := slots })

/-- `del self._slots[key]`. -/
def delete (ledger : ChildLaunchLedger) (key : ChildLaunchKey) : ChildLaunchLedger :=
  { ledger with slots := ledger.slots.filter fun slot => slot.key ≠ key }

def release (ledger : ChildLaunchLedger) (key : ChildLaunchKey) : ChildLaunchLedger :=
  match ledger.slots.get? key with
  | some slot => if slot.state = .reserved then ledger.delete key else ledger
  | none => ledger

/-- Launch the task that `start` makes, if it makes one; a refused launch may delete the
slot. -/
def launch (ledger : ChildLaunchLedger) (key : ChildLaunchKey) (task : Option ℕ) :
    Option LaunchError × ChildLaunchLedger :=
  match ledger.slots.get? key with
  | some slot =>
      if slot.state ≠ .reserved then (some .notPrepared, ledger)
      else if ledger.closed.contains key.leaseId then (some .terminal, ledger.delete key)
      else (none, { ledger with slots := ledger.slots.save ⟨key, .launched, task⟩ })
  | none => (some .notPrepared, ledger)

def finish (ledger : ChildLaunchLedger) (key : ChildLaunchKey) : Bool × ChildLaunchLedger :=
  match ledger.slots.get? key with
  | some slot =>
      match slot.state with
      | .finished => (false, ledger)
      | .reserved => (true, ledger.delete key)
      | .launched => (true, { ledger with slots := ledger.slots.save ⟨key, .finished, none⟩ })
  | none => (false, ledger)

def cancels (ledger : ChildLaunchLedger) (leaseId : Uuid) (done : List ℕ) : List ℕ :=
  ((ledger.slots.rows.filter fun slot => slot.key.leaseId = leaseId).filterMap (·.task)).filter
    fun task => !done.contains task

def terminalize (ledger : ChildLaunchLedger) (leaseId : Uuid) : ChildLaunchLedger :=
  { ledger with
    slots := ledger.slots.filter fun slot => slot.key.leaseId ≠ leaseId
    closed := (moveToEnd ledger.closed leaseId).rtake ledger.closedCap }

end ChildLaunchLedger

structure PreparedChild where
  parentPath : Text
  token : Text

structure ChildLaunchAdmission where
  runId : Uuid
  children : List (Text × PreparedChild)
  digest : Text
  catalogDigest : Text

namespace ChildLaunchAdmission

def compared (left right : Text) : Except LaunchError Unit :=
  match PreparedRuns.compareDigest left right with
  | .ok same => ensure same .notPrepared
  | .error _ => .error .typeError

/-- The key that `reserve_child_launch` goes on with. -/
def key (admission : ChildLaunchAdmission)
    (parentTaskId parentPath childId childToken invocationId : Text) :
    Except LaunchError ChildLaunchKey :=
  match admission.children.lookup childId with
  | none => .error .notPrepared
  | some child => do
      ensure (child.parentPath = parentPath ∧ parentTaskId ≠ []) .notPrepared
      compared child.token childToken
      compared admission.digest admission.catalogDigest
      ensure (invocationId ≠ []) .notPrepared
      .ok ⟨admission.runId, parentTaskId, childId, invocationId⟩

end ChildLaunchAdmission

inductive Event where
  | launched (key : ChildLaunchKey)
  | cancelled (task : ℕ)
  | terminalized (leaseId : Uuid)
  deriving DecidableEq

/-- How far a call of `reserve_child_launch` has come. -/
inductive Stage where
  | opening
  | admitted
  | claimed
  deriving DecidableEq

/-- The steps between awaits: a call of `reserve_child_launch` begins, its permit is opened
or refused, it claims, and its permit is closed or fails to; a reservation is launched,
finished or released; a lease is terminalized; a task ends or is cancelled by the one that
awaits it. -/
inductive Action where
  | reserve (caller : ℕ) (admission : ChildLaunchAdmission)
      (parentTaskId parentPath childId childToken invocationId : Text)
  | openPermit (caller : ℕ)
  | refusePermit (caller : ℕ)
  | claim (caller : ℕ)
  | closePermit (caller : ℕ)
  | failPermit (caller : ℕ)
  | launch (key : ChildLaunchKey) (starts : Bool)
  | finish (key : ChildLaunchKey)
  | release (key : ChildLaunchKey)
  | terminalize (leaseId : Uuid)
  | endTask (task : ℕ)
  | cancelTask (task : ℕ)

/-- The ledger, the keys of the started tasks by number with those that are done and those
whose cancellation was requested, the calls under way and the reservations they won. -/
structure World where
  ledger : ChildLaunchLedger
  tasks : List ChildLaunchKey
  done : List ℕ
  cancelled : List ℕ
  calls : ℕ → Option (ChildLaunchKey × Stage)
  reservations : List ChildLaunchKey
  events : List Event

namespace World

def initial (closedCap : ℕ) : World :=
  ⟨.empty closedCap, [], [], [], fun _ => none, [], []⟩

def setCall (world : World) (caller : ℕ) (call : Option (ChildLaunchKey × Stage)) : World :=
  { world with calls := Function.update world.calls caller call }

def claim (world : World) (caller : ℕ) (key : ChildLaunchKey) : World :=
  match world.ledger.claim key with
  | .ok (some ledger) => { world with ledger := ledger }.setCall caller (some (key, .claimed))
  | _ => world.setCall caller none

def launch (world : World) (key : ChildLaunchKey) (starts : Bool) : World :=
  match world.ledger.launch key (if starts then some world.tasks.length else none) with
  | (some _, ledger) => { world with ledger := ledger }
  | (none, ledger) =>
      { world with
        ledger := ledger
        tasks := if starts then world.tasks ++ [key] else world.tasks
        events := world.events ++ [.launched key] }

def terminalize (world : World) (leaseId : Uuid) : World :=
  let cancels := world.ledger.cancels leaseId world.done
  { world with
    ledger := world.ledger.terminalize leaseId
    cancelled := world.cancelled ++ cancels
    events := world.events ++ cancels.map .cancelled ++ [.terminalized leaseId] }

def step (world : World) : Action → World
  | .reserve caller admission parentTaskId parentPath childId childToken invocationId =>
      match admission.key parentTaskId parentPath childId childToken invocationId with
      | .ok key =>
          match world.ledger.ensureOpen key.leaseId with
          | .ok _ => world.setCall caller (some (key, .opening))
          | .error _ => world
      | .error _ => world
  | .openPermit caller =>
      match world.calls caller with
      | some (key, .opening) =>
          if world.events.contains (.terminalized key.leaseId) then world
          else world.setCall caller (some (key, .admitted))
      | _ => world
  | .refusePermit caller =>
      match world.calls caller with
      | some (_, .opening) => world.setCall caller none
      | _ => world
  | .claim caller =>
      match world.calls caller with
      | some (key, .admitted) => world.claim caller key
      | _ => world
  | .closePermit caller =>
      match world.calls caller with
      | some (key, .claimed) =>
          { world with reservations := world.reservations ++ [key] }.setCall caller none
      | _ => world
  | .failPermit caller =>
      match world.calls caller with
      | some (key, .claimed) =>
          { world with ledger := world.ledger.release key }.setCall caller none
      | _ => world
  | .launch key starts =>
      if world.reservations.contains key then world.launch key starts else world
  | .finish key =>
      if world.reservations.contains key then { world with ledger := (world.ledger.finish key).2 }
      else world
  | .release key =>
      if world.reservations.contains key then { world with ledger := world.ledger.release key }
      else world
  | .terminalize leaseId => world.terminalize leaseId
  | .endTask task =>
      if task < world.tasks.length then { world with done := world.done ++ [task] } else world
  | .cancelTask task =>
      if task < world.tasks.length then { world with cancelled := world.cancelled ++ [task] }
      else world

end World

namespace Event

def rivals : Event → List Event
  | launched key => [launched key, terminalized key.leaseId]
  | cancelled task => [cancelled task]
  | terminalized _ => []

end Event

/-- No key is launched twice or after its lease has ended, and the ledger cancels no task
twice; a lease that has ended has no slot, and each of its tasks is done or cancelled. -/
structure LaunchedOnce (world : World) : Prop where
  apart : Apart Event.rivals world.events
  slots : ∀ slot ∈ world.ledger.slots.rows, .terminalized slot.key.leaseId ∉ world.events
  tasks : ∀ task key, world.tasks[task]? = some key → .terminalized key.leaseId ∈ world.events →
    task ∈ world.done ∨ task ∈ world.cancelled

def Careful (world : World) : Action → Prop
  | .finish key => key ∈ world.reservations → ∀ slot task,
      world.ledger.slots.get? key = some slot → slot.state = .launched → slot.task = some task →
        task ∈ world.done ∨ task ∈ world.cancelled
  | .claim caller => ∀ key, world.calls caller = some (key, .admitted) →
      .terminalized key.leaseId ∈ world.events → key.leaseId ∈ world.ledger.closed
  | _ => True

end NaturalMold.ChildLaunches

import Mathlib.Logic.Function.Basic
import NaturalMold.ConversationTables
import NaturalMold.CronExpressions
import NaturalMold.RecentKeys
import NaturalMold.RivalEvents

/-!
# The registry of prepared run leases

A run id is reserved, a built lease is staged under it and activated, and the runner claims the
active lease once.
-/

namespace NaturalMold.PreparedRuns

open Conversations (Uuid)
open CronExpressions (Text)
open RecentKeys (remember)
open RivalEvents (Apart)

inductive LeaseState where
  | reserved
  | pendingCommit
  | active
  | dispatching
  | terminalizing
  deriving DecidableEq

namespace LeaseState

def live (state : LeaseState) : Bool :=
  state = active || state = dispatching

end LeaseState

structure PreparedRunBinding where
  tenantId : Uuid
  orgId : Uuid
  userId : Uuid
  agentId : Uuid
  conversationId : Uuid
  runId : Uuid
  threadId : Text
  participantPaths : List Text
  deriving DecidableEq

/-- A lease object; leases are compared as objects, and a lease may come without a
`close`. -/
structure PreparedRunLease where
  object : ℕ
  binding : PreparedRunBinding
  token : Text
  digest : Text
  hasClose : Bool
  deriving DecidableEq

namespace PreparedRunLease

def runId (lease : PreparedRunLease) : Uuid :=
  lease.binding.runId

end PreparedRunLease

/-- The codes of `PreparedRunLeaseError`, and the `TypeError` of a comparison. -/
inductive LeaseError where
  | missing
  | mismatch
  | duplicate
  | notAscii
  deriving DecidableEq

namespace LeaseError

def code : LeaseError → Option Text
  | missing => some "prepared_run_lease_missing".toList
  | mismatch => some "prepared_run_lease_mismatch".toList
  | duplicate => some "prepared_run_lease_duplicate".toList
  | notAscii => none

end LeaseError

inductive CleanupOutcome where
  | closed
  | noLease
  | closeFailed
  | closeTimeout
  | alreadyRemoved
  deriving DecidableEq

def retiredLimit : ℕ := 65536

def isAscii (text : Text) : Bool :=
  text.all fun char => char.toNat < 128

/-- `secrets.compare_digest` of two strings. -/
def compareDigest (left right : Text) : Except LeaseError Bool :=
  if isAscii left && isAscii right then .ok (left == right) else .error .notAscii

/-- A token of `secrets.token_urlsafe`. -/
structure Token where
  text : Text
  ascii : isAscii text = true
  deriving DecidableEq

/-- A clean-up task that has not run yet, or that waits for `close`. -/
inductive Cleanup where
  | scheduled
  | closing
  deriving DecidableEq

structure Entry where
  binding : PreparedRunBinding
  token : Token
  state : LeaseState
  lease : Option PreparedRunLease
  digest : Option Text
  cleanup : Option Cleanup
  deriving DecidableEq

/-- The entries, the retired ids, oldest first, and the callers that wait for the clean-up
of a run. -/
structure PreparedRunRegistry where
  entries : Uuid → Option Entry
  retired : List Uuid
  waiters : List (ℕ × Uuid)

namespace PreparedRunRegistry

def empty : PreparedRunRegistry :=
  ⟨fun _ => none, [], []⟩

def put (registry : PreparedRunRegistry) (runId : Uuid) (entry : Option Entry) :
    PreparedRunRegistry :=
  { registry with entries := Function.update registry.entries runId entry }

def reserve (registry : PreparedRunRegistry) (binding : PreparedRunBinding) (token : Token) :
    Except LeaseError PreparedRunRegistry :=
  if (registry.entries binding.runId).isSome || registry.retired.contains binding.runId then
    .error .duplicate
  else .ok (registry.put binding.runId (some ⟨binding, token, .reserved, none, none, none⟩))

def stageCode (registry : PreparedRunRegistry) (lease : PreparedRunLease) :
    Except LeaseError (Option LeaseError) :=
  match registry.entries lease.runId with
  | none => .ok (some .missing)
  | some entry =>
      if entry.state ≠ .reserved || entry.binding ≠ lease.binding then .ok (some .missing)
      else
        match compareDigest entry.token.text lease.token with
        | .ok same => .ok (if same then none else some .mismatch)
        | .error error => .error error

def attach (registry : PreparedRunRegistry) (lease : PreparedRunLease) : PreparedRunRegistry :=
  registry.put lease.runId ((registry.entries lease.runId).map fun entry =>
    { entry with lease := some lease, digest := some lease.digest, state := .pendingCommit })

/-- `_entry`: the entry of a run in one of the states. -/
def entry (registry : PreparedRunRegistry) (runId : Uuid) (states : LeaseState → Bool) :
    Except LeaseError Entry :=
  match registry.entries runId with
  | some entry => if states entry.state then .ok entry else .error .missing
  | none => .error .missing

def requireExact (entry : Entry) (token digest : Text) : Except LeaseError PreparedRunLease :=
  match entry.lease, entry.digest with
  | some lease, some stored => do
      if ← compareDigest entry.token.text token then
        if ← compareDigest stored digest then .ok lease else .error .mismatch
      else .error .mismatch
  | _, _ => .error .mismatch

def activate (registry : PreparedRunRegistry) (runId : Uuid) (token digest : Text) :
    Except LeaseError PreparedRunRegistry := do
  let entry ← registry.entry runId (· = .pendingCommit)
  let _ ← requireExact entry token digest
  .ok (registry.put runId (some { entry with state := .active }))

def acquire (registry : PreparedRunRegistry) (binding : PreparedRunBinding)
    (token digest : Text) : Except LeaseError PreparedRunLease := do
  let entry ← registry.entry binding.runId LeaseState.live
  if entry.binding ≠ binding then .error .mismatch else requireExact entry token digest

def claimDispatch (registry : PreparedRunRegistry) (binding : PreparedRunBinding)
    (token digest : Text) : Except LeaseError (PreparedRunLease × PreparedRunRegistry) := do
  let entry ← registry.entry binding.runId (· = .active)
  if entry.binding ≠ binding then .error .mismatch
  else
    let lease ← requireExact entry token digest
    .ok (lease, registry.put binding.runId (some { entry with state := .dispatching }))

def retire (registry : PreparedRunRegistry) (runId : Uuid) : PreparedRunRegistry :=
  { registry with retired := (remember registry.retired runId).rtake retiredLimit }

/-- The end of a clean-up: the entry goes, the id is retired, and the callers return. -/
def remove (registry : PreparedRunRegistry) (runId : Uuid) : PreparedRunRegistry :=
  { (registry.put runId none).retire runId with
    waiters := registry.waiters.filter fun waiter => waiter.2 ≠ runId }

end PreparedRunRegistry

inductive Event where
  | reserved (runId : Uuid)
  | staged (lease : PreparedRunLease)
  | attached (lease : PreparedRunLease)
  | refused (lease : PreparedRunLease)
  | closeCalled (lease : PreparedRunLease)
  | handedOut (lease : PreparedRunLease)
  | dispatched (runId : Uuid)
  | terminalizing (runId : Uuid)
  | returned (caller : ℕ) (runId : Uuid) (outcome : CleanupOutcome)
  | forgotten (runId : Uuid)
  deriving DecidableEq

/-- The steps between awaits.  A caller of `terminalize` can be cancelled while it waits;
what it waits for is shielded. -/
inductive Action where
  | reserve (binding : PreparedRunBinding) (token : Token)
  | stage (lease : PreparedRunLease)
  | activate (runId : Uuid) (token digest : Text)
  | acquire (binding : PreparedRunBinding) (token digest : Text)
  | claimDispatch (binding : PreparedRunBinding) (token digest : Text)
  | terminalize (caller : ℕ) (runId : Uuid)
  | cancel (caller : ℕ)
  | startCleanup (runId : Uuid)
  | endClose (runId : Uuid) (outcome : CleanupOutcome)

/-- The registry and all that has happened, oldest first. -/
structure World where
  registry : PreparedRunRegistry
  events : List Event

namespace World

def initial : World :=
  ⟨.empty, []⟩

/-- `close` is called on a lease that has one. -/
def closeCalls (lease : PreparedRunLease) : List Event :=
  if lease.hasClose then [.closeCalled lease] else []

/-- What `_cleanup` does at its end. -/
def endCleanup (world : World) (runId : Uuid) (outcome : CleanupOutcome) : World :=
  ⟨world.registry.remove runId,
    world.events ++ (world.registry.waiters.filter fun waiter => waiter.2 = runId).map
        (fun waiter => Event.returned waiter.1 runId outcome) ++
      ((remember world.registry.retired runId).rdrop retiredLimit).map Event.forgotten⟩

def step (world : World) : Action → World
  | .reserve binding token =>
      match world.registry.reserve binding token with
      | .ok registry => ⟨registry, world.events ++ [.reserved binding.runId]⟩
      | .error _ => world
  | .stage lease =>
      match world.registry.stageCode lease with
      | .ok none =>
          ⟨world.registry.attach lease, world.events ++ [.staged lease, .attached lease]⟩
      | .ok (some _) =>
          ⟨world.registry, world.events ++ [.staged lease] ++ closeCalls lease ++ [.refused lease]⟩
      | .error _ => ⟨world.registry, world.events ++ [.staged lease, .refused lease]⟩
  | .activate runId token digest =>
      match world.registry.activate runId token digest with
      | .ok registry => ⟨registry, world.events⟩
      | .error _ => world
  | .acquire binding token digest =>
      match world.registry.acquire binding token digest with
      | .ok lease => ⟨world.registry, world.events ++ [.handedOut lease]⟩
      | .error _ => world
  | .claimDispatch binding token digest =>
      match world.registry.claimDispatch binding token digest with
      | .ok (lease, registry) =>
          ⟨registry, world.events ++ [.handedOut lease, .dispatched binding.runId]⟩
      | .error _ => world
  | .terminalize caller runId =>
      match world.registry.entries runId with
      | none => ⟨world.registry, world.events ++ [.returned caller runId .alreadyRemoved]⟩
      | some entry =>
          let registry := { world.registry with
            waiters := world.registry.waiters ++ [(caller, runId)] }
          if entry.cleanup.isSome then ⟨registry, world.events⟩
          else
            ⟨registry.put runId
                (some { entry with state := .terminalizing, cleanup := some .scheduled }),
              world.events ++ [.terminalizing runId]⟩
  | .cancel caller =>
      { world with registry := { world.registry with
          waiters := world.registry.waiters.filter fun waiter => waiter.1 ≠ caller } }
  | .startCleanup runId =>
      match world.registry.entries runId with
      | some entry =>
          if entry.cleanup = some .scheduled then
            match entry.lease with
            | none => world.endCleanup runId .noLease
            | some lease =>
                if lease.hasClose then
                  ⟨world.registry.put runId (some { entry with cleanup := some .closing }),
                    world.events ++ [.closeCalled lease]⟩
                else world.endCleanup runId .noLease
          else world
      | none => world
  | .endClose runId outcome =>
      match world.registry.entries runId with
      | some entry =>
          if entry.cleanup = some .closing then world.endCleanup runId outcome else world
      | none => world

end World

namespace Event

def runId : Event → Uuid
  | reserved runId => runId
  | staged lease => lease.runId
  | attached lease => lease.runId
  | refused lease => lease.runId
  | closeCalled lease => lease.runId
  | handedOut lease => lease.runId
  | dispatched runId => runId
  | terminalizing runId => runId
  | returned _ runId _ => runId
  | forgotten runId => runId

def rivals : Event → List Event
  | reserved runId => [reserved runId]
  | handedOut lease => [terminalizing lease.runId, closeCalled lease]
  | dispatched runId => [dispatched runId, terminalizing runId]
  | closeCalled lease => [closeCalled lease]
  | _ => []

end Event

structure HandsOut (world : World) (binding : PreparedRunBinding) (token digest : Text)
    (lease : PreparedRunLease) : Prop where
  binding_eq : lease.binding = binding
  token_eq : lease.token = token
  digest_eq : lease.digest = digest
  live : ∃ entry, world.registry.entries binding.runId = some entry ∧ entry.state.live = true ∧
    entry.lease = some lease
  attached : .attached lease ∈ world.events
  notTerminalizing : .terminalizing binding.runId ∉ world.events
  notClosed : .closeCalled lease ∉ world.events

/-- The clean-up of a run that is still to take its first step. -/
def CleanupDue (world : World) (runId : Uuid) : Prop :=
  ∃ entry, world.registry.entries runId = some entry ∧ entry.cleanup = some .scheduled

/-- No id is reserved twice, no run is dispatched twice or after its end has begun, no lease
is closed twice or handed out after it; what is handed out is exact; a refused lease is
closed, and so is the lease of a run whose clean-up has begun. -/
structure SingleUse (world : World) : Prop where
  apart : Apart Event.rivals world.events
  acquire : ∀ binding token digest lease,
    world.registry.acquire binding token digest = .ok lease →
      HandsOut world binding token digest lease
  claimDispatch : ∀ binding token digest lease registry,
    world.registry.claimDispatch binding token digest = .ok (lease, registry) →
      HandsOut world binding token digest lease ∧ .dispatched binding.runId ∉ world.events
  refused : ∀ lease, .refused lease ∈ world.events → lease.hasClose = true →
    .closeCalled lease ∈ world.events
  terminalized : ∀ lease, .attached lease ∈ world.events → lease.hasClose = true →
    .terminalizing lease.runId ∈ world.events →
      CleanupDue world lease.runId ∨ .closeCalled lease ∈ world.events
  returned : ∀ caller outcome lease, .returned caller lease.runId outcome ∈ world.events →
    outcome ≠ .alreadyRemoved → .attached lease ∈ world.events → lease.hasClose = true →
      .closeCalled lease ∈ world.events

/-- An id that the bounded set of retired ids has dropped is not reserved; a lease that has
a `close` is staged once, and with a token that can be compared where it is compared. -/
def Careful (world : World) : Action → Prop
  | .reserve binding _ => .forgotten binding.runId ∉ world.events
  | .stage lease => lease.hasClose = true → .staged lease ∉ world.events ∧
      ∀ entry, world.registry.entries lease.runId = some entry → entry.state = .reserved →
        entry.binding = lease.binding → isAscii lease.token = true
  | _ => True

end NaturalMold.PreparedRuns

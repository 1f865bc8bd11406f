import NaturalMold.GrantStoredProjection
import NaturalMold.OutboxConvergence
import NaturalMold.ReconciliationRepair

/-! # The tuple store follows the database -/

namespace NaturalMold.Outbox

open RetriedOperations

variable {Condition : Type} {start : TupleStore Condition} {system : System Condition}
  {keys : Set TupleKey} {key : TupleKey}

/-- Nothing is enqueued on the given keys. -/
def Action.Apart (keys : Set TupleKey) : Action Condition → Prop
  | .enqueue entries _ _ _ => ∀ entry ∈ entries, entry.op.tuple.toTupleKey ∉ keys
  | .claim _ _ _ _ | .readOlder _ | .takeRow _ | .call _ _ | .commit _ | .crash _ => True

theorem committed_eq (table : OutboxTable Condition) (key : TupleKey) :
    committed table key = ((table.rows.map OutboxRow.op).filter fun op =>
      op.tuple.toTupleKey = key).map TupleOp.operation := by
  rw [committed, List.filter_map, List.map_map]
  rfl

theorem committed_insert? {table after : OutboxTable Condition} {entries : List (NewEntry Condition)}
    {sourceTable : String} {sourceId : Conversations.Uuid} {now : Conversations.Time}
    (inserted : table.insert? (entries.map (NewEntry.row sourceTable sourceId now)) = some after) :
    committed after key = committed table key ++
      ((entries.map NewEntry.op).filter fun op => op.tuple.toTupleKey = key).map
        TupleOp.operation := by
  rw [committed_eq, committed_eq, OutboxTable.insert?_eq_some inserted, List.map_append,
    List.filter_append, List.map_append, List.map_map]
  rfl

theorem finishRow_table {worker : ℕ} {drain : Drain Condition} {row : OutboxRow Condition}
    {raised : Option SendError} {progress : Progress Condition} :
    (system.finishRow worker drain row raised progress).table = system.table := by
  rw [System.finishRow]
  split <;> rfl

theorem committed_step {action : Action Condition} (apart : action.Apart keys)
    (member : key ∈ keys) :
    committed (step system action).table key = committed system.table key := by
  cases action with
  | enqueue entries sourceTable sourceId now =>
      rw [step, System.enqueue]
      cases inserted :
          system.table.insert? (entries.map (NewEntry.row sourceTable sourceId now)) with
      | none => rfl
      | some table =>
          have nothing : ((entries.map NewEntry.op).filter fun op =>
              op.tuple.toTupleKey = key) = [] := by
            rw [List.filter_eq_nil_iff, List.forall_mem_map]
            intro entry listed same
            exact apart entry listed (of_decide_eq_true same ▸ member)
          simp only [committed_insert? inserted, nothing, List.map_nil, List.append_nil]
  | claim | readOlder | takeRow | call | commit | crash =>
      simp only [step, System.claim, System.readOlder, System.takeRow, System.call, System.commit]
      repeat' split
      all_goals first | rfl | rw [finishRow_table] | exact committed_flush _ _ _

theorem remaining_eq_nil {table : OutboxTable Condition}
    (done : ∀ row ∈ table.rows, row.op.tuple.toTupleKey = key → row.processedAt.isSome) :
    remaining table [] key = [] := by
  rw [remaining, List.map_eq_nil_iff, List.filter_eq_nil_iff]
  intro row member
  by_cases sameKey : row.op.tuple.toTupleKey = key
  · simp [Option.isSome_iff_ne_none.mp (done row member sameKey)]
  · simp [sameKey]

end NaturalMold.Outbox

namespace NaturalMold.Authz

open Conversations (Uuid Time)
open KeyedDifferences KeyedTables RetriedOperations
open Outbox (Action NewEntry OutboxTable System WritersSerialised)

variable {now : Time} {before after : GrantTable} {change : GrantChange}
  {items : List MarketplaceItemRow} {keys : Set TupleKey} {key : TupleKey}

/-- What the active rows project on a key. -/
def intended (grants : GrantTable) (items : List MarketplaceItemRow) (now : Time)
    (key : TupleKey) : Option Tuple :=
  lookup RelationTuple.toTupleKey (projection grants.rows items key.object now) key

theorem marketplaceTenant_object {row : GrantRow} {item : Tuple}
    (member : item ∈ marketplaceTenant row) : item.object = row.object := by
  rw [marketplaceTenant] at member
  split at member
  case isTrue fanout =>
      obtain ⟨tenant, _, rfl⟩ := List.mem_map.mp member
      rw [GrantRow.object, fanout.1]
      rfl
  case isFalse => cases member

namespace Flushes

theorem object_eq (flushes : Flushes now before after change) {item : Tuple}
    (member : item ∈ change.tuples now) : item.object = change.row.object := by
  obtain ⟨row, slotEq, own⟩ := flushes.own_of_mem_tuples member
  have objectEq : row.object = change.row.object := congrArg Prod.fst slotEq
  rw [← objectEq]
  rcases own with fanout | principal
  · exact marketplaceTenant_object fanout
  · exact congrArg TupleKey.object principal

/-- On other objects a change leaves what the rows project. -/
theorem intended_eq_of_object_ne (flushes : Flushes now before after change)
    (other : key.object ≠ change.row.object) :
    intended before items now key = intended after items now key := by
  apply lookup_congr (before.coherent_projection items key.object now)
    (after.coherent_projection items key.object now)
  intro item _
  rw [mem_projection, mem_projection]
  refine or_congr_left (exists_congr fun row => and_congr_left fun _ => ?_)
  rw [mem_activeOn, mem_activeOn]
  constructor
  · rintro ⟨member, on, active⟩
    refine ⟨(flushes.mem_iff_of_id_ne ?_).mp member, on, active⟩
    intro same
    have slotEq := (flushes.before_mem (flushes.before_eq_of_id_eq member same)).2.2.2
    exact other (on.symm.trans (congrArg Prod.fst slotEq))
  · rintro ⟨member, on, active⟩
    refine ⟨(flushes.mem_iff_of_id_ne ?_).mpr member, on, active⟩
    intro same
    have rowEq := (flushes.after_mem (flushes.after_eq_of_id_eq member active same)).2.2.1
    exact other (on.symm.trans (congrArg GrantRow.object rowEq))

/-- The operations of a change turn what the rows projected on any key into what
they project after it. -/
theorem applyAll_changeOps (flushes : Flushes now before after change)
    (current : NoneLapsed after change now) {ops : List (TupleOp Condition)}
    (returned : changeOps after.rows items change.before change.after now = .ok ops) :
    applyAll ((ops.filter fun op => op.tuple.toTupleKey = key).map TupleOp.operation)
      (intended before items now key) = intended after items now key := by
  rw [changeOps, change.after_or_before] at returned
  by_cases on : key.object = change.row.object
  · obtain ⟨others, othersEq, turned⟩ :=
      changeOpsWithin_spec flushes items current change.row.scope_eq_none_or
    obtain rfl := Except.ok.inj (othersEq.symm.trans returned)
    have own := turned (fun _ => intended before items now key) key (by rw [intended, on])
    rw [applyOps_apply] at own
    rw [own, intended, on]
  · have untouched : (ops.filter fun op => op.tuple.toTupleKey = key) = [] := by
      rw [List.filter_eq_nil_iff]
      intro op member same
      obtain ⟨item, changed, keyEq⟩ := List.mem_map.mp (changeOpsWithin_keys returned member)
      rw [← of_decide_eq_true same, ← keyEq] at on
      exact on (flushes.object_eq changed)
    rw [untouched]
    exact flushes.intended_eq_of_object_ne on

end Flushes

/-- The rows of the grants beside the queue and the store. -/
abbrev Served := GrantTable × System Condition

/-- A change commits its rows together with its operations. The queue goes on in any
other way that leaves the given keys to the grants. -/
inductive Commits (items : List MarketplaceItemRow) (keys : Set TupleKey) : Served → Served → Prop
  | change {now : Time} {before after : GrantTable} {change : GrantChange}
      {system : System Condition} {entries : List (NewEntry Condition)} {sourceTable : String}
      {sourceId : Uuid} {table : OutboxTable Condition}
      (flushes : Flushes now before after change) (current : NoneLapsed after change now)
      (returned : changeOps after.rows items change.before change.after now =
        .ok (entries.map NewEntry.op))
      (serialised : WritersSerialised system (.enqueue entries sourceTable sourceId now))
      (inserted : system.table.insert? (entries.map (NewEntry.row sourceTable sourceId now)) =
        some table) : Commits items keys (before, system) (after, { system with table })
  | queue {grants : GrantTable} {system : System Condition} (action : Action Condition)
      (apart : action.Apart keys) (serialised : WritersSerialised system action) :
      Commits items keys (grants, system) (grants, Outbox.step system action)

/-- What has been committed on the keys leads to what the rows project. -/
structure Follows (items : List MarketplaceItemRow) (keys : Set TupleKey)
    (start : TupleStore Condition) (state : Served) : Prop where
  invariant : Outbox.Invariant start state.2
  cells : ∀ key ∈ keys, ∀ now,
    applyAll (Outbox.committed state.2.table key) (start key) = intended state.1 items now key

variable {start : TupleStore Condition} {state next : Served}

theorem Follows.step (follows : Follows items keys start state)
    (commits : Commits items keys state next) : Follows items keys start next := by
  cases commits with
  | @change now before after change system entries sourceTable sourceId table flushes current
      returned serialised inserted =>
      have invariant := follows.invariant.enqueue entries sourceTable sourceId now serialised
      rw [System.enqueue, inserted] at invariant
      refine ⟨invariant, ?_⟩
      intro key member later
      rw [Outbox.committed_insert? inserted, applyAll_append, follows.cells key member now,
        flushes.applyAll_changeOps current returned]
      -- a marketplace item projects the same at any time
      rfl
  | queue action apart serialised =>
      refine ⟨follows.invariant.step action serialised, ?_⟩
      intro key member later
      rw [Outbox.committed_step apart member, follows.cells key member later]

theorem Follows.run (follows : Follows items keys start state)
    (reached : Relation.ReflTransGen (Commits items keys) state next) :
    Follows items keys start next := by
  induction reached with
  | refl => exact follows
  | tail _ commits earlier => exact earlier.step commits

/-- However changes of grants, workers, crashes and retries interleave, what remains
of the queue leads each key from its tuple in the store to what the rows project, so
that a key with nothing pending has that tuple. -/
theorem store_follows_grants {first last : GrantTable} {system : System Condition}
    (stored : ∀ key ∈ keys, ∀ now, start key = intended first items now key)
    (reached : Relation.ReflTransGen (Commits items keys) (first, System.start start)
      (last, system)) :
    ∀ key ∈ keys, ∀ now,
      applyAll (Outbox.remaining system.table [] key) (system.store key) =
        intended last items now key ∧
      ((∀ row ∈ system.table.rows, row.op.tuple.toTupleKey = key → row.processedAt.isSome) →
        system.store key = intended last items now key) := by
  have started : Follows items keys start (first, System.start start) :=
    ⟨Outbox.invariant_start start, stored⟩
  have follows := started.run reached
  intro key member now
  have leads := (follows.invariant.cells key).trans (follows.cells key member now)
  refine ⟨leads, fun done => ?_⟩
  rwa [Outbox.remaining_eq_nil done] at leads

def closedEntry : NewEntry Condition where
  id := 1
  seq := 1
  op := ⟨.delete, installerTuple 12, false⟩

def closedQueue : System Condition :=
  { System.start (intended (twoFanouts none) [systemItem] 0) with
    table := ⟨[closedEntry.row "resource_grants" 2 10], by simp, by simp⟩ }

/-- The closed grant is gone from the store once a worker has been through the queue. -/
theorem store_follows_grants_oneClosed :
    (StepRuns.run Outbox.step closedQueue [.claim 0 none 100 10, .readOlder 0, .takeRow 0,
      .call 0 .returned, .commit 0]).store (installerTuple 12).toTupleKey =
        intended (oneClosed none) [systemItem] 10 (installerTuple 12).toTupleKey := by
  have unlimited : ∀ row ∈ activeOn (oneClosed none).rows ⟨.marketplaceItem, 7⟩,
      row.expiresAt = none := by decide
  have current : NoneLapsed (oneClosed none) (.close (fanout 2 12 none)) 10 := by
    intro row member _ _ ⟨finish, finishEq, _⟩
    rw [unlimited row member] at finishEq
    cases finishEq
  have returned : changeOps (oneClosed none).rows [systemItem] (some (fanout 2 12 none)) none 10 =
      .ok ([closedEntry].map NewEntry.op) := by decide
  have closed : Commits [systemItem] Set.univ
      (twoFanouts none, System.start (intended (twoFanouts none) [systemItem] 0))
      (oneClosed none, closedQueue) :=
    .change (flushes_oneClosed none) current returned
      (show WritersSerialised _ (.enqueue [closedEntry] "resource_grants" 2 10) by decide)
      rfl
  have reached := (((((Relation.ReflTransGen.single closed).tail
    (.queue (.claim 0 none 100 10) trivial trivial)).tail (.queue (.readOlder 0) trivial trivial)).tail
      (.queue (.takeRow 0) trivial trivial)).tail (.queue (.call 0 .returned) trivial trivial)).tail
        (.queue (.commit 0) trivial trivial)
  exact (store_follows_grants (fun _ _ _ => rfl) reached _ trivial 10).2 (by decide)

end NaturalMold.Authz

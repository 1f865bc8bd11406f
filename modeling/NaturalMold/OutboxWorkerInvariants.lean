import NaturalMold.OutboxBackOff
import NaturalMold.OutboxWorkers

/-!
# What concurrent drains keep

A row that a transaction has sent, or is about to send, has no older pending row of its key but
those the same transaction has already marked as processed.
-/

namespace NaturalMold.Outbox

open RetriedOperations
open Conversations (Uuid Time)

variable {Condition : Type}

/-- The older rows of a row's key are processed, or marked as processed by the
transaction at hand. -/
def Clear (table : OutboxTable Condition) (processed : List Uuid)
    (row : OutboxRow Condition) : Prop :=
  ∀ earlier ∈ table.rows, earlier.tupleKey = row.tupleKey → earlier.seq < row.seq →
    earlier.processedAt.isSome ∨ earlier.id ∈ processed

def Phase.progress? : Phase Condition → Option (Progress Condition)
  | .claimed => none
  | .between progress | .sending _ _ progress => some progress

/-- What a transaction has marked as processed and not yet committed. -/
def Drain.processed (drain : Drain Condition) : List Uuid :=
  (drain.phase.progress?.map (·.applied.processed)).getD []

/-- The loop has gone through the rows `done` of a batch. -/
structure Progress.Consistent (table : OutboxTable Condition)
    (batch done : List (OutboxRow Condition)) (progress : Progress Condition) : Prop where
  rows : progress.applied.rows.map OutboxRow.id = done.map OutboxRow.id
  marked : ∀ row ∈ progress.applied.rows,
    row.processedAt.isSome ↔ row.id ∈ progress.applied.processed
  processed : ∀ id ∈ progress.applied.processed, ∃ row ∈ done, row.id = id
  clear : ∀ row ∈ done, row.id ∈ progress.applied.processed →
    Clear table progress.applied.processed row
  left : ∀ row ∈ done, row.id ∈ progress.applied.processed ∨
    row.tupleKey ∈ progress.applied.blocked ∨ behindOlder progress.older row = true
  older : ∀ row ∈ batch, behindOlder progress.older row = false →
    ∀ earlier ∈ table.rows, earlier.tupleKey = row.tupleKey → earlier.seq < row.seq →
      earlier.processedAt.isSome ∨ earlier.id ∈ batch.map OutboxRow.id

/-- The calls of a send still to come: all of them, or the write of a
replacement whose key has been deleted. -/
def CallsLeft (store : TupleStore Condition) (row : OutboxRow Condition)
    (calls : List (StoreCall Condition)) : Prop :=
  calls = row.op.calls ∨
    (row.op.operation = .assign row.op.tuple ∧ calls = [.write row.op.tuple] ∧
      store row.op.tuple.toTupleKey = none)

def Phase.Consistent (table : OutboxTable Condition) (store : TupleStore Condition)
    (batch : List (OutboxRow Condition)) : Phase Condition → Prop
  | .claimed => True
  | .between progress =>
      ∃ done, batch = done ++ progress.todo ∧ progress.Consistent table batch done
  | .sending row calls progress =>
      (∃ done, batch = done ++ row :: progress.todo ∧ progress.Consistent table batch done) ∧
        mustWait progress.older progress.applied.blocked row = false ∧ CallsLeft store row calls

/-- The rows of a transaction are pending and locked by it. -/
structure Drain.Consistent (system : System Condition) (worker : ℕ) (drain : Drain Condition) :
    Prop where
  member : ∀ row ∈ drain.batch, row ∈ system.table.rows
  pending : ∀ row ∈ drain.batch, row.processedAt = none
  locked : ∀ row ∈ drain.batch, system.lockedBy row.id = some worker
  ordered : drain.batch.Pairwise fun first second => first.seq < second.seq
  phase : drain.phase.Consistent system.table system.store drain.batch

/-- The operations of a key that are neither processed nor marked as processed
by the transaction at hand, in the order of their commits. -/
def remaining (table : OutboxTable Condition) (processed : List Uuid) (key : TupleKey) :
    List (Operation (RelationTuple Condition)) :=
  (table.rows.filter fun row => row.op.tuple.toTupleKey = key && row.processedAt.isNone &&
    !processed.contains row.id).map (·.op.operation)

def committed (table : OutboxTable Condition) (key : TupleKey) :
    List (Operation (RelationTuple Condition)) :=
  (table.rows.filter fun row => row.op.tuple.toTupleKey = key).map (·.op.operation)

/-- What remains leads from the present cell to the intended one. -/
def Leads (start : TupleStore Condition) (table : OutboxTable Condition)
    (store : TupleStore Condition) (processed : List Uuid) (key : TupleKey) : Prop :=
  applyAll (remaining table processed key) (store key) =
    applyAll (committed table key) (start key)

structure Invariant (start : TupleStore Condition) (system : System Condition) : Prop where
  keyOrder : SeqFollowsCommits system.table.rows
  processedFirst : ∀ earlier ∈ system.table.rows, ∀ later ∈ system.table.rows,
    earlier.tupleKey = later.tupleKey → earlier.seq < later.seq → later.processedAt.isSome →
      earlier.processedAt.isSome
  drains : ∀ worker drain, system.drains worker = some drain → drain.Consistent system worker
  cells : ∀ key, Leads start system.table system.store [] key
  drainCells : ∀ worker drain, system.drains worker = some drain →
    ∀ key, Leads start system.table system.store drain.processed key

theorem invariant_start (store : TupleStore Condition) :
    Invariant store (System.start store) where
  keyOrder := List.Pairwise.nil
  processedFirst := by
    intro earlier member
    simp [System.start] at member
  drains := by
    intro worker drain found
    cases found
  cells key := rfl
  drainCells := by
    intro worker drain found
    cases found

section Sending

variable {table : OutboxTable Condition} {batch done : List (OutboxRow Condition)}
  {progress : Progress Condition}

theorem Progress.Consistent.clear_next {row : OutboxRow Condition}
    {rest : List (OutboxRow Condition)} (consistent : progress.Consistent table batch done)
    (split : batch = done ++ row :: rest)
    (ordered : batch.Pairwise fun first second => first.seq < second.seq)
    (member : ∀ row ∈ batch, row ∈ table.rows)
    (next : mustWait progress.older progress.applied.blocked row = false) :
    Clear table progress.applied.processed row := by
  rw [mustWait, Bool.or_eq_false_iff] at next
  have unblocked : row.tupleKey ∉ progress.applied.blocked := by
    simpa using next.1
  have rowMember : row ∈ batch := by simp [split]
  intro earlier earlierMember sameKey before
  rcases consistent.older row rowMember next.2 earlier earlierMember sameKey before with
    processed | inBatch
  · exact Or.inl processed
  · -- the older row of the batch has been gone through, and neither it nor its key was held back
    obtain ⟨batchRow, batchMember, sameId⟩ := List.mem_map.mp inBatch
    obtain rfl := table.eq_of_id_eq (member batchRow batchMember) earlierMember sameId
    have gone : batchRow ∈ done := by
      rw [split] at batchMember ordered
      rcases List.mem_append.mp batchMember with gone | later
      · exact gone
      · exfalso
        rcases List.mem_cons.mp later with rfl | later
        · exact Nat.lt_irrefl _ before
        · have after := (List.pairwise_cons.mp (List.pairwise_append.mp ordered).2.1).1 _ later
          exact Nat.lt_asymm before after
    rcases consistent.left batchRow gone with processed | blocked | behind
    · exact Or.inr processed
    · exact absurd (sameKey ▸ blocked) unblocked
    · have rowBehind := behindOlder_of_seq_lt sameKey before behind
      rw [behindOlder, next.2] at rowBehind
      cases rowBehind

end Sending

theorem Phase.Consistent.progress {table : OutboxTable Condition} {store : TupleStore Condition}
    {batch : List (OutboxRow Condition)} {phase : Phase Condition} {progress : Progress Condition}
    (consistent : phase.Consistent table store batch)
    (progressEq : phase.progress? = some progress) :
    ∃ done, (∀ row ∈ done, row ∈ batch) ∧ progress.Consistent table batch done := by
  cases phase with
  | claimed => cases progressEq
  | between other =>
      obtain rfl := Option.some.inj progressEq
      obtain ⟨done, split, held⟩ := consistent
      exact ⟨done, fun row member => split ▸ List.mem_append_left _ member, held⟩
  | sending row calls other =>
      obtain rfl := Option.some.inj progressEq
      obtain ⟨⟨done, split, held⟩, -⟩ := consistent
      exact ⟨done, fun row member => split ▸ List.mem_append_left _ member, held⟩

theorem Drain.Consistent.mem_processed {system : System Condition} {worker : ℕ}
    {drain : Drain Condition} (consistent : drain.Consistent system worker) {id : Uuid}
    (marked : id ∈ drain.processed) : ∃ row ∈ drain.batch, row.id = id := by
  cases progressEq : drain.phase.progress? with
  | none => simp [Drain.processed, progressEq] at marked
  | some progress =>
      simp only [Drain.processed, progressEq, Option.map_some, Option.getD_some] at marked
      obtain ⟨done, inBatch, held⟩ := consistent.phase.progress progressEq
      obtain ⟨row, member, sameId⟩ := held.processed id marked
      exact ⟨row, inBatch row member, sameId⟩

def Drain.Sends (drain : Drain Condition) (row : OutboxRow Condition) : Prop :=
  row ∈ drain.batch ∧ (row.id ∈ drain.processed ∨
    ∃ calls progress, drain.phase = .sending row calls progress)

theorem Drain.Consistent.clear_of_sends {system : System Condition} {worker : ℕ}
    {drain : Drain Condition} (consistent : drain.Consistent system worker)
    {row : OutboxRow Condition} (sends : drain.Sends row) :
    Clear system.table drain.processed row := by
  obtain ⟨member, marked | ⟨calls, progress, phaseEq⟩⟩ := sends
  · cases progressEq : drain.phase.progress? with
    | none => simp [Drain.processed, progressEq] at marked
    | some progress =>
        simp only [Drain.processed, progressEq, Option.map_some, Option.getD_some] at marked ⊢
        obtain ⟨done, inBatch, held⟩ := consistent.phase.progress progressEq
        obtain ⟨other, otherDone, sameId⟩ := held.processed row.id marked
        obtain rfl := system.table.eq_of_id_eq (consistent.member other (inBatch other otherDone))
          (consistent.member row member) sameId
        exact held.clear other otherDone marked
  · have phase := consistent.phase
    rw [phaseEq] at phase
    obtain ⟨⟨done, split, held⟩, next, -⟩ := phase
    simp only [Drain.processed, phaseEq]
    exact held.clear_next split consistent.ordered consistent.member next

theorem Invariant.sends_exclusive {start : TupleStore Condition} {system : System Condition}
    (invariant : Invariant start system) {first second : ℕ}
    {firstDrain secondDrain : Drain Condition} (firstOpen : system.drains first = some firstDrain)
    (secondOpen : system.drains second = some secondDrain) (different : first ≠ second)
    {row other : OutboxRow Condition} (firstSends : firstDrain.Sends row)
    (secondSends : secondDrain.Sends other) : row.tupleKey ≠ other.tupleKey := by
  have firstHeld := invariant.drains first firstDrain firstOpen
  have secondHeld := invariant.drains second secondDrain secondOpen
  -- a row of one batch is neither processed nor marked by the other transaction
  have notMarked : ∀ id, system.lockedBy id = some first → id ∉ secondDrain.processed := by
    intro id locked marked
    obtain ⟨held, member, rfl⟩ := secondHeld.mem_processed marked
    exact different (Option.some.inj (locked.symm.trans (secondHeld.locked held member)))
  have notMarkedBack : ∀ id, system.lockedBy id = some second → id ∉ firstDrain.processed := by
    intro id locked marked
    obtain ⟨held, member, rfl⟩ := firstHeld.mem_processed marked
    exact different (Option.some.inj ((firstHeld.locked held member).symm.trans locked))
  have rowLocked := firstHeld.locked row firstSends.1
  have otherLocked := secondHeld.locked other secondSends.1
  intro sameKey
  rcases Nat.lt_trichotomy row.seq other.seq with before | sameSeq | after
  · rcases secondHeld.clear_of_sends secondSends row (firstHeld.member row firstSends.1) sameKey
      before with processed | marked
    · rw [firstHeld.pending row firstSends.1] at processed
      cases processed
    · exact notMarked row.id rowLocked marked
  · obtain rfl := system.table.eq_of_seq_eq (firstHeld.member row firstSends.1)
      (secondHeld.member other secondSends.1) sameSeq
    exact different (Option.some.inj (rowLocked.symm.trans otherLocked))
  · rcases firstHeld.clear_of_sends firstSends other (secondHeld.member other secondSends.1)
      sameKey.symm after with processed | marked
    · rw [secondHeld.pending other secondSends.1] at processed
      cases processed
    · exact notMarkedBack other.id otherLocked marked

end NaturalMold.Outbox

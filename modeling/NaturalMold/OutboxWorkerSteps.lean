import NaturalMold.OutboxWorkerInvariants

/-! # The steps of concurrent drains -/

namespace NaturalMold.Outbox

open RetriedOperations
open Conversations (Uuid Time)

variable {Condition : Type} {start : TupleStore Condition} {system : System Condition}

section LoopBody

variable {table : OutboxTable Condition} {batch done rest : List (OutboxRow Condition)}
  {progress : Progress Condition} {row : OutboxRow Condition}

theorem Clear.mono {processed more : List Uuid} (clear : Clear table processed row)
    (within : ∀ id ∈ processed, id ∈ more) : Clear table more row := by
  intro earlier member sameKey before
  rcases clear earlier member sameKey before with committed | marked
  · exact Or.inl committed
  · exact Or.inr (within _ marked)

/-- What the body of the loop does to its local variables: it marks the row as
processed, or leaves it pending behind an older row or in front of a blocked
key. -/
theorem applyRow_cases {older : String → Option ℕ} {stamp : Time} {raised : Option SendError}
    {applied after : Applied Condition}
    (returned : applyRow older stamp raised applied row = .ok after) :
    (mustWait older applied.blocked row = false ∧ raised = none ∧
        after.processed = applied.processed ++ [row.id] ∧ after.blocked = applied.blocked ∧
        after.rows = applied.rows ++ [row.sent stamp]) ∨
      ((mustWait older applied.blocked row = true ∨ raised.isSome) ∧
        after.processed = applied.processed ∧ (∀ key ∈ applied.blocked, key ∈ after.blocked) ∧
        (row.tupleKey ∈ after.blocked ∨ behindOlder older row = true) ∧
        ∃ left, after.rows = applied.rows ++ [left] ∧ left.id = row.id ∧
          left.processedAt = row.processedAt) := by
  rw [applyRow.eq_def] at returned
  cases waiting : mustWait older applied.blocked row with
  | true =>
      rw [waiting] at returned
      obtain rfl := Except.ok.inj returned
      rw [mustWait, Bool.or_eq_true] at waiting
      refine Or.inr ⟨Or.inl rfl, rfl, fun key member => member, ?_, row, rfl, rfl, rfl⟩
      exact waiting.imp_left fun blocked => by simpa using blocked
  | false =>
      rw [waiting] at returned
      cases raised with
      | none =>
          obtain rfl := Except.ok.inj returned
          exact Or.inl ⟨rfl, rfl, rfl, rfl, rfl⟩
      | some error =>
          simp only [Bool.false_eq_true, if_false, Fallible.bind_eq_ok, backOff_eq_ok_iff]
            at returned
          obtain ⟨_, ⟨-, rfl⟩, returned⟩ := returned
          obtain rfl := Except.ok.inj returned
          exact Or.inr ⟨Or.inr rfl, rfl, fun key member => List.mem_cons_of_mem _ member,
            Or.inl List.mem_cons_self, _, rfl, rfl, rfl⟩

/-- A row that has not been gone through is not marked as processed. -/
theorem Progress.Consistent.unmarked (consistent : progress.Consistent table batch done)
    (split : batch = done ++ row :: rest)
    (ordered : batch.Pairwise fun first second => first.seq < second.seq)
    (member : ∀ row ∈ batch, row ∈ table.rows) : row.id ∉ progress.applied.processed := by
  intro marked
  obtain ⟨other, otherDone, sameId⟩ := consistent.processed row.id marked
  obtain rfl := table.eq_of_id_eq (member other (by simp [split, otherDone]))
    (member row (by simp [split])) sameId
  rw [split, List.pairwise_append] at ordered
  exact Nat.lt_irrefl _ (ordered.2.2 other otherDone other List.mem_cons_self)

/-- The body of the loop keeps its invariant. -/
theorem Progress.Consistent.applyRow {stamp : Time} {raised : Option SendError}
    {after : Applied Condition} (consistent : progress.Consistent table batch done)
    (split : batch = done ++ row :: rest)
    (ordered : batch.Pairwise fun first second => first.seq < second.seq)
    (member : ∀ row ∈ batch, row ∈ table.rows) (pending : row.processedAt = none)
    (returned : Outbox.applyRow progress.older stamp raised progress.applied row = .ok after) :
    ({ progress with applied := after } : Progress Condition).Consistent table batch
      (done ++ [row]) := by
  have unmarked := consistent.unmarked split ordered member
  rcases applyRow_cases returned with ⟨next, -, processedEq, blockedEq, rowsEq⟩ |
    ⟨-, processedEq, blocked, held, left, rowsEq, leftId, leftProcessed⟩
  · have rowClear := consistent.clear_next split ordered member next
    have grown : ∀ id ∈ progress.applied.processed, id ∈ after.processed := by
      intro id marked
      rw [processedEq]
      exact List.mem_append_left _ marked
    constructor
    · simp [rowsEq, consistent.rows, OutboxRow.sent]
    · intro other otherMember
      rw [rowsEq] at otherMember
      rw [processedEq, List.mem_append, List.mem_singleton]
      rcases List.mem_append.mp otherMember with gone | new
      · rw [consistent.marked other gone]
        constructor
        · exact Or.inl
        · rintro (marked | sameId)
          · exact marked
          · -- an applied row with the id of this row would be one gone through
            exfalso
            have idGone : other.id ∈ done.map OutboxRow.id :=
              consistent.rows ▸ List.mem_map_of_mem gone
            obtain ⟨first, firstDone, firstId⟩ := List.mem_map.mp idGone
            obtain rfl := table.eq_of_id_eq (member first (by simp [split, firstDone]))
              (member row (by simp [split])) (firstId.trans sameId)
            rw [split, List.pairwise_append] at ordered
            exact Nat.lt_irrefl _ (ordered.2.2 first firstDone first List.mem_cons_self)
      · rw [List.mem_singleton.mp new]
        simp [OutboxRow.sent]
    · intro id marked
      rw [processedEq, List.mem_append, List.mem_singleton] at marked
      rcases marked with marked | rfl
      · obtain ⟨other, otherDone, sameId⟩ := consistent.processed id marked
        exact ⟨other, List.mem_append_left _ otherDone, sameId⟩
      · exact ⟨row, by simp, rfl⟩
    · intro other otherMember marked
      rcases List.mem_append.mp otherMember with gone | new
      · rw [processedEq, List.mem_append, List.mem_singleton] at marked
        rcases marked with marked | sameId
        · exact (consistent.clear other gone marked).mono grown
        · obtain rfl := table.eq_of_id_eq (member other (by simp [split, gone]))
            (member row (by simp [split])) sameId
          exact rowClear.mono grown
      · rw [List.mem_singleton.mp new]
        exact rowClear.mono grown
    · intro other otherMember
      rw [processedEq, blockedEq, List.mem_append, List.mem_singleton]
      rcases List.mem_append.mp otherMember with gone | new
      · rcases consistent.left other gone with marked | held
        · exact Or.inl (Or.inl marked)
        · exact Or.inr held
      · rw [List.mem_singleton.mp new]
        exact Or.inl (Or.inr rfl)
    · exact consistent.older
  · constructor
    · simp [rowsEq, consistent.rows, leftId]
    · intro other otherMember
      rw [rowsEq] at otherMember
      rw [processedEq]
      rcases List.mem_append.mp otherMember with gone | new
      · exact consistent.marked other gone
      · rw [List.mem_singleton.mp new, leftProcessed, leftId, pending]
        simpa using unmarked
    · intro id marked
      rw [processedEq] at marked
      obtain ⟨other, otherDone, sameId⟩ := consistent.processed id marked
      exact ⟨other, List.mem_append_left _ otherDone, sameId⟩
    · intro other otherMember marked
      rw [processedEq] at marked ⊢
      rcases List.mem_append.mp otherMember with gone | new
      · exact consistent.clear other gone marked
      · rw [List.mem_singleton.mp new] at marked
        exact absurd marked unmarked
    · intro other otherMember
      rw [processedEq]
      rcases List.mem_append.mp otherMember with gone | new
      · exact (consistent.left other gone).imp_right (Or.imp_left (blocked _))
      · rw [List.mem_singleton.mp new]
        exact Or.inr held
    · exact consistent.older

end LoopBody

section Cells

variable {table : OutboxTable Condition} {processed : List Uuid} {row : OutboxRow Condition}
  {key : TupleKey}

theorem tupleKey_eq_of_key_eq {first second : OutboxRow Condition}
    (same : first.op.tuple.toTupleKey = second.op.tuple.toTupleKey) :
    first.tupleKey = second.tupleKey := by
  rw [OutboxRow.tupleKey, OutboxRow.tupleKey, same]

theorem remaining_mark_of_ne (member : row ∈ table.rows)
    (different : row.op.tuple.toTupleKey ≠ key) :
    remaining table (processed ++ [row.id]) key = remaining table processed key := by
  rw [remaining, remaining]
  congr 1
  apply List.filter_congr
  intro other otherMember
  by_cases sameKey : other.op.tuple.toTupleKey = key
  · have otherId : other.id ≠ row.id := by
      intro sameId
      obtain rfl := table.eq_of_id_eq otherMember member sameId
      exact different sameKey
    simp [otherId]
  · simp [sameKey]

/-- A pending row whose older rows are done comes first in what remains. -/
theorem remaining_eq_cons (keyOrder : SeqFollowsCommits table.rows) (member : row ∈ table.rows)
    (pending : row.processedAt = none) (unmarked : row.id ∉ processed)
    (clear : Clear table processed row) :
    remaining table processed row.op.tuple.toTupleKey =
      row.op.operation :: remaining table (processed ++ [row.id]) row.op.tuple.toTupleKey := by
  obtain ⟨before, after, split⟩ := List.append_of_mem member
  rw [SeqFollowsCommits, split, List.pairwise_append] at keyOrder
  have beforeDone : before.filter (fun other =>
      other.op.tuple.toTupleKey = row.op.tuple.toTupleKey && other.processedAt.isNone &&
        !processed.contains other.id) = [] := by
    rw [List.filter_eq_nil_iff]
    intro other otherMember
    by_cases sameKey : other.op.tuple.toTupleKey = row.op.tuple.toTupleKey
    · have sameText := tupleKey_eq_of_key_eq sameKey
      rcases clear other (by simp [split, otherMember]) sameText
        (keyOrder.2.2 other otherMember row List.mem_cons_self sameText) with committed | marked
      · simp [Option.isSome_iff_ne_none.mp committed]
      · simp [marked]
    · simp [sameKey]
  have beforeMarked : before.filter (fun other =>
      other.op.tuple.toTupleKey = row.op.tuple.toTupleKey && other.processedAt.isNone &&
        !(processed ++ [row.id]).contains other.id) = [] := by
    rw [List.filter_eq_nil_iff] at beforeDone ⊢
    intro other otherMember
    have := beforeDone other otherMember
    simp only [Bool.and_eq_true, decide_eq_true_eq, Bool.not_eq_true', not_and] at this ⊢
    intro sameKey
    have marked := this sameKey
    simp only [List.contains_eq_mem, decide_eq_false_iff_not, not_not] at marked ⊢
    exact List.mem_append_left _ marked
  have afterUnchanged : after.filter (fun other =>
      other.op.tuple.toTupleKey = row.op.tuple.toTupleKey && other.processedAt.isNone &&
        !(processed ++ [row.id]).contains other.id) =
      after.filter (fun other =>
        other.op.tuple.toTupleKey = row.op.tuple.toTupleKey && other.processedAt.isNone &&
          !processed.contains other.id) := by
    apply List.filter_congr
    intro other otherMember
    have distinct := table.distinctIds
    rw [split, List.map_append, List.map_cons, List.nodup_append, List.nodup_cons] at distinct
    have otherId : other.id ≠ row.id := fun sameId =>
      distinct.2.1.1 (sameId ▸ List.mem_map_of_mem otherMember)
    simp [otherId]
  rw [remaining, remaining, split, List.filter_append, List.filter_append, beforeDone,
    beforeMarked, List.filter_cons, List.filter_cons, afterUnchanged]
  simp [pending, unmarked]

/-- What remains for a transaction remains in the queue. -/
theorem mem_remaining_nil {operation : Operation (RelationTuple Condition)}
    (member : operation ∈ remaining table processed key) : operation ∈ remaining table [] key := by
  rw [remaining, List.mem_map] at member ⊢
  obtain ⟨other, listed, rfl⟩ := member
  rw [List.mem_filter, Bool.and_eq_true] at listed
  refine ⟨other, ?_, rfl⟩
  rw [List.mem_filter]
  simp only [List.contains_nil, Bool.not_false, Bool.and_true]
  exact ⟨listed.1, listed.2.1⟩

/-- The next call of a send completes the operation, or clears the cell before
the write of a replacement. -/
theorem CallsLeft.next {store : TupleStore Condition} {next : StoreCall Condition}
    {calls : List (StoreCall Condition)} (left : CallsLeft store row (next :: calls)) :
    next.key = row.op.tuple.toTupleKey ∧
      ((calls = [] ∧ next.effect store row.op.tuple.toTupleKey =
          row.op.operation.apply (store row.op.tuple.toTupleKey)) ∨
        (row.op.operation = .assign row.op.tuple ∧ calls = [.write row.op.tuple] ∧
          next.effect store row.op.tuple.toTupleKey = none)) := by
  rcases left with all | ⟨replaces, write, cleared⟩
  · refine ⟨TupleOp.calls_key (all ▸ List.mem_cons_self), ?_⟩
    generalize row.op = op at all ⊢
    obtain ⟨kind, tuple, replace⟩ := op
    cases kind <;> cases replace <;> simp only [TupleOp.calls] at all <;>
      simp at all <;> obtain ⟨rfl, rfl⟩ := all <;>
      simp [TupleOp.operation, StoreCall.effect, TupleStore.write, TupleStore.delete,
        Operation.apply]
  · rw [List.cons_eq_cons] at write
    obtain ⟨rfl, rfl⟩ := write
    refine ⟨rfl, Or.inl ⟨rfl, ?_⟩⟩
    rw [replaces]
    simp [StoreCall.effect, TupleStore.write, Operation.apply, cleared]

theorem older_of_not_behind {batch : List (OutboxRow Condition)} (member : row ∈ batch)
    (ahead : behindOlder (olderPending table batch) row = false) :
    ∀ earlier ∈ table.rows, earlier.tupleKey = row.tupleKey → earlier.seq < row.seq →
      earlier.processedAt.isSome ∨ earlier.id ∈ batch.map OutboxRow.id := by
  intro earlier earlierMember sameKey before
  by_contra neither
  rw [not_or] at neither
  have pending : earlier.processedAt = none := by simpa using neither.1
  have listed : earlier.seq ∈ (table.rows.filter fun other =>
      other.processedAt.isNone && other.tupleKey = row.tupleKey &&
        (batch.map OutboxRow.tupleKey).contains row.tupleKey &&
        !(batch.map OutboxRow.id).contains other.id).map OutboxRow.seq := by
    refine List.mem_map_of_mem (List.mem_filter.mpr ⟨earlierMember, ?_⟩)
    have keyListed : row.tupleKey ∈ batch.map OutboxRow.tupleKey := List.mem_map_of_mem member
    simp only [pending, sameKey, Option.isNone_none, decide_true, Bool.true_and,
      Bool.and_eq_true, List.contains_iff_mem, Bool.not_eq_true']
    exact ⟨keyListed, by simpa using neither.2⟩
  rw [behindOlder, decide_eq_false_iff_not, not_lt] at ahead
  cases lowest : olderPending table batch row.tupleKey with
  | none =>
      rw [olderPending, List.min?_eq_none_iff] at lowest
      rw [lowest] at listed
      simp at listed
  | some seq =>
      rw [lowest, Option.getD_some] at ahead
      rw [olderPending, List.min?_eq_some_iff] at lowest
      have least := lowest.2 earlier.seq listed
      omega

end Cells

section Transactions

variable {worker : ℕ} {drain : Drain Condition} {store : TupleStore Condition}

theorem Invariant.others (invariant : Invariant start system)
    (opened : system.drains worker = some drain)
    (changes : ∀ key, store key ≠ system.store key →
      ∃ row, drain.Sends row ∧ row.op.tuple.toTupleKey = key)
    (cells : ∀ key, Leads start system.table store [] key) {other : ℕ}
    {otherDrain : Drain Condition} (otherOpened : system.drains other = some otherDrain)
    (different : other ≠ worker) :
    otherDrain.phase.Consistent system.table store otherDrain.batch ∧
      ∀ key, Leads start system.table store otherDrain.processed key := by
  have held := invariant.drains other otherDrain otherOpened
  -- no row of the other transaction has a key whose cell has changed
  have untouched : ∀ row, otherDrain.Sends row →
      store row.op.tuple.toTupleKey = system.store row.op.tuple.toTupleKey := by
    intro row otherSends
    by_contra changed
    obtain ⟨sent, sends, sameKey⟩ := changes _ changed
    exact invariant.sends_exclusive otherOpened opened different otherSends sends
      (tupleKey_eq_of_key_eq sameKey.symm)
  constructor
  · have phase := held.phase
    cases phaseEq : otherDrain.phase with
    | claimed => trivial
    | between progress => rwa [phaseEq] at phase
    | sending row calls progress =>
        rw [phaseEq] at phase
        obtain ⟨⟨done, split, consistent⟩, next, left⟩ := phase
        refine ⟨⟨done, split, consistent⟩, next, ?_⟩
        rcases left with all | ⟨replaces, write, cleared⟩
        · exact Or.inl all
        · refine Or.inr ⟨replaces, write, ?_⟩
          rw [untouched row ⟨by simp [split], Or.inr ⟨calls, progress, phaseEq⟩⟩]
          exact cleared
  · intro key
    by_cases same : store key = system.store key
    · have before := invariant.drainCells other otherDrain otherOpened key
      rw [Leads] at before ⊢
      rw [same]
      exact before
    · -- the other transaction has marked no row of this key
      have all : remaining system.table otherDrain.processed key =
          remaining system.table [] key := by
        rw [remaining, remaining]
        congr 1
        apply List.filter_congr
        intro row member
        by_cases sameKey : row.op.tuple.toTupleKey = key
        · have unmarked : row.id ∉ otherDrain.processed := by
            intro marked
            obtain ⟨batchRow, batchMember, sameId⟩ := held.mem_processed marked
            obtain rfl := system.table.eq_of_id_eq (held.member batchRow batchMember) member sameId
            exact same (sameKey ▸ untouched batchRow ⟨batchMember, Or.inl marked⟩)
          simp [unmarked]
        · simp [sameKey]
      have queue := cells key
      rw [Leads] at queue ⊢
      rw [all]
      exact queue

theorem Invariant.proceed (invariant : Invariant start system)
    (opened : system.drains worker = some drain) {phase : Phase Condition}
    (changes : ∀ key, store key ≠ system.store key →
      ∃ row, drain.Sends row ∧ row.op.tuple.toTupleKey = key)
    (cells : ∀ key, Leads start system.table store [] key)
    (consistent : phase.Consistent system.table store drain.batch)
    (own : ∀ key,
      Leads start system.table store ({ drain with phase } : Drain Condition).processed key) :
    Invariant start (({ system with store } : System Condition).proceed worker drain phase) where
  keyOrder := invariant.keyOrder
  processedFirst := invariant.processedFirst
  cells := cells
  drains := by
    intro other otherDrain otherOpened
    by_cases same : other = worker
    · subst other
      obtain rfl : { drain with phase } = otherDrain := by
        simpa [System.proceed] using otherOpened
      have held := invariant.drains worker drain opened
      exact ⟨held.member, held.pending, held.locked, held.ordered, consistent⟩
    · have before : system.drains other = some otherDrain := by
        simpa [System.proceed, same] using otherOpened
      have held := invariant.drains other otherDrain before
      exact ⟨held.member, held.pending, held.locked, held.ordered,
        (invariant.others opened changes cells before same).1⟩
  drainCells := by
    intro other otherDrain otherOpened
    by_cases same : other = worker
    · subst other
      obtain rfl : { drain with phase } = otherDrain := by
        simpa [System.proceed] using otherOpened
      exact own
    · have before : system.drains other = some otherDrain := by
        simpa [System.proceed, same] using otherOpened
      exact (invariant.others opened changes cells before same).2

/-- A transaction ends without a commit. -/
theorem Invariant.release (invariant : Invariant start system) (store : TupleStore Condition)
    (changes : ∀ drain, system.drains worker = some drain → ∀ key, store key ≠ system.store key →
      ∃ row, drain.Sends row ∧ row.op.tuple.toTupleKey = key)
    (idle : system.drains worker = none → store = system.store)
    (cells : ∀ key, Leads start system.table store [] key) :
    Invariant start (({ system with store } : System Condition).release worker) where
  keyOrder := invariant.keyOrder
  processedFirst := invariant.processedFirst
  cells := cells
  drains := by
    intro other otherDrain otherOpened
    have same : other ≠ worker := by
      rintro rfl
      simp [System.release] at otherOpened
    have before : system.drains other = some otherDrain := by
      simpa [System.release, same] using otherOpened
    have held := invariant.drains other otherDrain before
    refine ⟨held.member, held.pending, ?_, held.ordered, ?_⟩
    · intro row member
      simp [System.release, held.locked row member, same]
    · cases opened : system.drains worker with
      | none =>
          rw [idle opened]
          exact held.phase
      | some drain => exact (invariant.others opened (changes drain opened) cells before same).1
  drainCells := by
    intro other otherDrain otherOpened
    have same : other ≠ worker := by
      rintro rfl
      simp [System.release] at otherOpened
    have before : system.drains other = some otherDrain := by
      simpa [System.release, same] using otherOpened
    cases opened : system.drains worker with
    | none =>
        intro key
        have leads := invariant.drainCells other otherDrain before key
        rw [idle opened]
        exact leads
    | some drain => exact (invariant.others opened (changes drain opened) cells before same).2

theorem Invariant.finishRow (invariant : Invariant start system) (store : TupleStore Condition)
    (opened : system.drains worker = some drain) {row : OutboxRow Condition}
    {raised : Option SendError} {progress : Progress Condition} {done : List (OutboxRow Condition)}
    (split : drain.batch = done ++ row :: progress.todo)
    (consistent : progress.Consistent system.table drain.batch done)
    (changes : ∀ key, store key ≠ system.store key →
      ∃ row, drain.Sends row ∧ row.op.tuple.toTupleKey = key)
    (cells : ∀ key, Leads start system.table store [] key)
    (left : mustWait progress.older progress.applied.blocked row = true ∨ raised.isSome →
      ∀ key, Leads start system.table store progress.applied.processed key)
    (marked : mustWait progress.older progress.applied.blocked row = false → raised = none →
      ∀ key, Leads start system.table store (progress.applied.processed ++ [row.id]) key) :
    Invariant start
      (({ system with store } : System Condition).finishRow worker drain row raised progress) := by
  have held := invariant.drains worker drain opened
  rw [System.finishRow]
  cases returned : applyRow progress.older drain.stamp raised progress.applied row with
  | error error =>
      apply invariant.release store
      · intro other otherOpened
        obtain rfl := Option.some.inj (opened.symm.trans otherOpened)
        exact changes
      · intro idle
        rw [opened] at idle
        cases idle
      · exact cells
  | ok applied =>
      apply invariant.proceed opened changes cells
      · exact ⟨done ++ [row], by rw [split, List.append_assoc]; rfl,
          consistent.applyRow split held.ordered held.member
            (held.pending row (by simp [split])) returned⟩
      · intro key
        show Leads start system.table store applied.processed key
        rcases applyRow_cases returned with ⟨next, sent, processedEq, -⟩ | ⟨kept, processedEq, -⟩
        · rw [processedEq]
          exact marked next sent key
        · rw [processedEq]
          exact left kept key

theorem leads_of_cell {table : OutboxTable Condition} {before : TupleStore Condition}
    {processed : List Uuid} {changed : TupleKey}
    (elsewhere : ∀ key, key ≠ changed → store key = before key)
    (leads : ∀ key, key ≠ changed → Leads start table before processed key)
    (cell : Leads start table store processed changed) (key : TupleKey) :
    Leads start table store processed key := by
  by_cases same : key = changed
  · rw [same]
    exact cell
  · have unchanged := leads key same
    rw [Leads] at unchanged ⊢
    rw [elsewhere key same]
    exact unchanged

/-- What a call that takes effect leaves to be done: whether its row will be
sent again or not, the key still ends up where it should. -/
theorem Invariant.effect (invariant : Invariant start system)
    (opened : system.drains worker = some drain) {row : OutboxRow Condition}
    {next : StoreCall Condition} {calls : List (StoreCall Condition)}
    {progress : Progress Condition}
    (phaseEq : drain.phase = .sending row (next :: calls) progress) :
    (∀ key, next.effect system.store key ≠ system.store key →
      ∃ row, drain.Sends row ∧ row.op.tuple.toTupleKey = key) ∧
      (∀ key, Leads start system.table (next.effect system.store) [] key) ∧
      (∀ key, Leads start system.table (next.effect system.store) progress.applied.processed key) ∧
      (calls = [] → ∀ key, Leads start system.table (next.effect system.store)
        (progress.applied.processed ++ [row.id]) key) ∧
      (calls ≠ [] → CallsLeft (next.effect system.store) row calls) := by
  have held := invariant.drains worker drain opened
  have phase := held.phase
  rw [phaseEq] at phase
  obtain ⟨⟨done, split, consistent⟩, unheld, left⟩ := phase
  obtain ⟨callKey, outcome⟩ := left.next
  have inBatch : row ∈ drain.batch := by simp [split]
  have member := held.member row inBatch
  have own : ∀ key, Leads start system.table system.store progress.applied.processed key := by
    have leads := invariant.drainCells worker drain opened
    rwa [Drain.processed, phaseEq] at leads
  have first := remaining_eq_cons invariant.keyOrder member (held.pending row inBatch)
    (consistent.unmarked split held.ordered held.member)
    (consistent.clear_next split held.ordered held.member unheld)
  have elsewhere : ∀ key, key ≠ row.op.tuple.toTupleKey →
      next.effect system.store key = system.store key :=
    fun key different => StoreCall.effect_of_key_ne (callKey.trans_ne different.symm)
  have queueLeads := invariant.cells row.op.tuple.toTupleKey
  have ownLeads := own row.op.tuple.toTupleKey
  rw [Leads] at queueLeads ownLeads
  rw [first] at ownLeads
  have listed : ∀ operation ∈ row.op.operation ::
      remaining system.table (progress.applied.processed ++ [row.id]) row.op.tuple.toTupleKey,
      operation ∈ remaining system.table [] row.op.tuple.toTupleKey := by
    intro operation listed
    rw [← first] at listed
    exact mem_remaining_nil listed
  refine ⟨?_, leads_of_cell elsewhere (fun key _ => invariant.cells key) ?_,
    leads_of_cell elsewhere (fun key _ => own key) ?_, ?_, ?_⟩
  · intro key changed
    refine ⟨row, ⟨inBatch, Or.inr ⟨_, _, phaseEq⟩⟩, ?_⟩
    by_contra different
    exact changed (elsewhere key fun same => different same.symm)
  · rw [Leads]
    rcases outcome with ⟨-, applied⟩ | ⟨replaces, -, cleared⟩
    · rw [applied]
      exact applyAll_resend queueLeads ownLeads listed
    · rw [applyAll_eq_of_overwrites (listed _ List.mem_cons_self) (by rw [replaces]; rfl) _
        (system.store row.op.tuple.toTupleKey)]
      exact queueLeads
  · rw [Leads, first]
    rcases outcome with ⟨-, applied⟩ | ⟨replaces, -, cleared⟩
    · rw [applied]
      exact applyAll_resend ownLeads ownLeads fun operation member => member
    · rw [applyAll_eq_of_overwrites List.mem_cons_self (by rw [replaces]; rfl) _
        (system.store row.op.tuple.toTupleKey)]
      exact ownLeads
  · rintro rfl
    apply leads_of_cell elsewhere
    · intro key different
      rw [Leads, remaining_mark_of_ne member different.symm]
      exact own key
    · rcases outcome with ⟨-, applied⟩ | ⟨-, unfinished, -⟩
      · rw [Leads, applied]
        exact ownLeads
      · cases unfinished
  · intro unfinished
    rcases outcome with ⟨finished, -⟩ | ⟨replaces, write, cleared⟩
    · exact absurd finished unfinished
    · exact Or.inr ⟨replaces, write, cleared⟩

end Transactions

theorem Invariant.readOlder (invariant : Invariant start system) (worker : ℕ) :
    Invariant start (system.readOlder worker) := by
  rw [System.readOlder]
  cases opened : system.drains worker with
  | none => exact invariant
  | some drain =>
      have held := invariant.drains worker drain opened
      obtain ⟨stamp, batch, phase⟩ := drain
      cases phase with
      | between progress => exact invariant
      | sending row calls progress => exact invariant
      | claimed =>
          refine invariant.proceed opened (fun key changed => absurd rfl changed) invariant.cells
            ⟨[], rfl, ?_⟩ fun key => invariant.cells key
          constructor
          · rfl
          · intro row member
            simp [Applied.none] at member
          · intro id marked
            simp [Applied.none] at marked
          · intro row member
            simp at member
          · intro row member
            simp at member
          · intro row member ahead
            exact older_of_not_behind member ahead

theorem Invariant.takeRow (invariant : Invariant start system) (worker : ℕ) :
    Invariant start (system.takeRow worker) := by
  rw [System.takeRow]
  cases opened : system.drains worker with
  | none => exact invariant
  | some drain =>
      have held := invariant.drains worker drain opened
      have own := invariant.drainCells worker drain opened
      obtain ⟨stamp, batch, phase⟩ := drain
      cases phase with
      | claimed => exact invariant
      | sending row calls progress => exact invariant
      | between progress =>
          obtain ⟨done, split, consistent⟩ := held.phase
          obtain ⟨older, applied, todo⟩ := progress
          cases todo with
          | nil => exact invariant
          | cons row todo =>
              have still : ({ older, applied, todo } : Progress Condition).Consistent system.table
                  batch done :=
                ⟨consistent.rows, consistent.marked, consistent.processed, consistent.clear,
                  consistent.left, consistent.older⟩
              show Invariant start (if mustWait older applied.blocked row then _ else _)
              split
              case isTrue waiting =>
                  refine invariant.finishRow system.store opened split still
                    (fun key changed => absurd rfl changed) invariant.cells (fun _ => own) ?_
                  intro next
                  rw [waiting] at next
                  cases next
              case isFalse next =>
                  exact invariant.proceed opened (fun key changed => absurd rfl changed)
                    invariant.cells ⟨⟨done, split, still⟩, by simpa using next, Or.inl rfl⟩ own

theorem Invariant.call (invariant : Invariant start system) (worker : ℕ) (outcome : CallOutcome) :
    Invariant start (system.call worker outcome) := by
  rw [System.call]
  cases opened : system.drains worker with
  | none => exact invariant
  | some drain =>
      have held := invariant.drains worker drain opened
      have own := invariant.drainCells worker drain opened
      have effect : ∀ row next calls progress,
          drain.phase = .sending row (next :: calls) progress → _ :=
        fun row next calls progress phaseEq => invariant.effect opened phaseEq
      obtain ⟨stamp, batch, phase⟩ := drain
      cases phase with
      | claimed => exact invariant
      | between progress => exact invariant
      | sending row calls progress =>
          cases calls with
          | nil => exact invariant
          | cons next calls =>
              obtain ⟨⟨done, split, consistent⟩, unheld, left⟩ := held.phase
              obtain ⟨changes, cells, again, finished, unfinished⟩ :=
                effect row next calls progress rfl
              cases outcome with
              | returned =>
                  show Invariant start (if calls.isEmpty then _ else _)
                  split
                  case isTrue last =>
                      refine invariant.finishRow _ opened split consistent changes cells ?_ ?_
                      · rintro (waiting | raised)
                        · rw [unheld] at waiting
                          cases waiting
                        · cases raised
                      · exact fun _ _ => finished (List.isEmpty_iff.mp last)
                  case isFalse more =>
                      exact invariant.proceed opened changes cells
                        ⟨⟨done, split, consistent⟩, unheld,
                          unfinished fun empty => more (by simp [empty])⟩ again
              | raised error tookEffect =>
                  cases tookEffect with
                  | false =>
                      exact invariant.finishRow system.store opened split consistent
                        (fun key changed => absurd rfl changed) invariant.cells (fun _ => own)
                        (fun _ sent => by cases sent)
                  | true =>
                      exact invariant.finishRow _ opened split consistent changes cells
                        (fun _ => again) (fun _ sent => by cases sent)

end NaturalMold.Outbox

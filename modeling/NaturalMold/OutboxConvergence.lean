import NaturalMold.OutboxWorkerSteps

/-! # Convergence of the outbox -/

namespace NaturalMold.Outbox

open RetriedOperations
open Conversations (Uuid Time)

variable {Condition : Type} {start : TupleStore Condition} {system : System Condition}

theorem Invariant.claim (invariant : Invariant start system) (worker : ℕ)
    (ids : Option (List Uuid)) (limit : ℕ) (stamp : Time) :
    Invariant start (system.claim worker ids limit stamp) := by
  rw [System.claim]
  cases opened : system.drains worker with
  | some drain => exact invariant
  | none =>
      simp only
      split
      · exact invariant
      · refine ⟨invariant.keyOrder, invariant.processedFirst, ?_, invariant.cells, ?_⟩
        · intro other drain otherOpened
          by_cases same : other = worker
          · subst other
            obtain rfl := Option.some.inj ((Function.update_self worker _ _).symm.trans otherOpened)
            refine ⟨fun row member => (mem_due member).1, fun row member => (mem_due member).2.1,
              ?_, due_pairwise, trivial⟩
            intro row member
            have listed : row.id ∈ (due system.table (fun id => (system.lockedBy id).isSome) ids
                limit stamp).map OutboxRow.id := List.mem_map_of_mem member
            exact if_pos (List.contains_iff_mem.mpr listed)
          · have before : system.drains other = some drain := by
              simpa [same] using otherOpened
            have held := invariant.drains other drain before
            refine ⟨held.member, held.pending, ?_, held.ordered, held.phase⟩
            intro row member
            have locked := held.locked row member
            -- the rows of a batch are those that nobody has locked
            have unclaimed : row.id ∉ (due system.table (fun id => (system.lockedBy id).isSome) ids
                limit stamp).map OutboxRow.id := by
              intro claimed
              obtain ⟨new, newMember, sameId⟩ := List.mem_map.mp claimed
              have free := (mem_due newMember).2.2
              rw [sameId, locked] at free
              cases free
            exact (if_neg fun claimed => unclaimed (List.contains_iff_mem.mp claimed)).trans locked
        · intro other drain otherOpened
          by_cases same : other = worker
          · subst other
            obtain rfl := Option.some.inj ((Function.update_self worker _ _).symm.trans otherOpened)
            exact invariant.cells
          · have before : system.drains other = some drain := by
              simpa [same] using otherOpened
            exact invariant.drainCells other drain before

/-- Every older row of a batch's key comes from an older row of the queue as it
was, and is processed if that one is. -/
def OlderFrom (before after : OutboxTable Condition) (batch : List (OutboxRow Condition)) : Prop :=
  ∀ row ∈ batch, ∀ earlier ∈ after.rows, earlier.tupleKey = row.tupleKey → earlier.seq < row.seq →
    ∃ old ∈ before.rows, old.id = earlier.id ∧ old.tupleKey = earlier.tupleKey ∧
      old.seq = earlier.seq ∧ (old.processedAt.isSome → earlier.processedAt.isSome)

theorem Progress.Consistent.of_olderFrom {before after : OutboxTable Condition}
    {batch done : List (OutboxRow Condition)} {progress : Progress Condition}
    (consistent : progress.Consistent before batch done) (older : OlderFrom before after batch)
    (gone : ∀ row ∈ done, row ∈ batch) : progress.Consistent after batch done where
  rows := consistent.rows
  marked := consistent.marked
  processed := consistent.processed
  left := consistent.left
  clear := by
    intro row member marked earlier earlierMember sameKey lower
    obtain ⟨old, oldMember, sameId, oldKey, oldSeq, kept⟩ :=
      older row (gone row member) earlier earlierMember sameKey lower
    rcases consistent.clear row member marked old oldMember (oldKey.trans sameKey)
      (oldSeq ▸ lower) with processed | oldMarked
    · exact Or.inl (kept processed)
    · exact Or.inr (sameId ▸ oldMarked)
  older := by
    intro row member ahead earlier earlierMember sameKey lower
    obtain ⟨old, oldMember, sameId, oldKey, oldSeq, kept⟩ :=
      older row member earlier earlierMember sameKey lower
    rcases consistent.older row member ahead old oldMember (oldKey.trans sameKey)
      (oldSeq ▸ lower) with processed | inBatch
    · exact Or.inl (kept processed)
    · exact Or.inr (sameId ▸ inBatch)

theorem Phase.Consistent.of_olderFrom {before after : OutboxTable Condition}
    {store : TupleStore Condition} {batch : List (OutboxRow Condition)} {phase : Phase Condition}
    (consistent : phase.Consistent before store batch) (older : OlderFrom before after batch) :
    phase.Consistent after store batch := by
  cases phase with
  | claimed => trivial
  | between progress =>
      obtain ⟨done, split, held⟩ := consistent
      exact ⟨done, split, held.of_olderFrom older fun row member =>
        split ▸ List.mem_append_left _ member⟩
  | sending row calls progress =>
      obtain ⟨⟨done, split, held⟩, next, left⟩ := consistent
      exact ⟨⟨done, split, held.of_olderFrom older fun row member =>
        split ▸ List.mem_append_left _ member⟩, next, left⟩

theorem Invariant.enqueue (invariant : Invariant start system)
    (entries : List (NewEntry Condition)) (sourceTable : String) (sourceId : Uuid) (now : Time)
    (serialised : WritersSerialised system (.enqueue entries sourceTable sourceId now)) :
    Invariant start (system.enqueue entries sourceTable sourceId now) := by
  rw [System.enqueue]
  cases inserted : system.table.insert? (entries.map (NewEntry.row sourceTable sourceId now)) with
  | none => exact invariant
  | some table =>
      have rowsEq := OutboxTable.insert?_eq_some inserted
      rw [WritersSerialised, ← rowsEq] at serialised
      generalize newEq : entries.map (NewEntry.row sourceTable sourceId now) = new at rowsEq
      have newPending : ∀ row ∈ new, row.processedAt = none := by
        intro row member
        rw [← newEq] at member
        obtain ⟨entry, -, rfl⟩ := List.mem_map.mp member
        rfl
      have keyOrder := serialised
      rw [SeqFollowsCommits, rowsEq, List.pairwise_append] at keyOrder
      -- new operations go to the end, both of what remains and of what there is in all
      have leads : ∀ processed : List Uuid, (∀ id ∈ processed, ∃ row ∈ system.table.rows, row.id = id) →
          ∀ key, Leads start system.table system.store processed key →
            Leads start table system.store processed key := by
        intro processed old key before
        have newRemaining : new.filter (fun row => row.op.tuple.toTupleKey = key &&
            row.processedAt.isNone && !processed.contains row.id) =
            new.filter fun row => row.op.tuple.toTupleKey = key := by
          apply List.filter_congr
          intro row member
          have unmarked : row.id ∉ processed := by
            intro marked
            obtain ⟨oldRow, oldMember, sameId⟩ := old row.id marked
            have distinct := table.distinctIds
            rw [rowsEq, List.map_append, List.nodup_append] at distinct
            exact distinct.2.2 _ (List.mem_map_of_mem oldMember) _ (List.mem_map_of_mem member) sameId
          simp [newPending row member, unmarked]
        rw [Leads, remaining, committed] at before ⊢
        rw [rowsEq, List.filter_append, List.filter_append, newRemaining, List.map_append,
          List.map_append, applyAll_append, applyAll_append, before]
      refine ⟨serialised, ?_, ?_, ?_, ?_⟩
      · intro earlier earlierMember later laterMember sameKey lower processed
        rw [rowsEq] at earlierMember laterMember
        have laterOld : later ∈ system.table.rows := by
          rcases List.mem_append.mp laterMember with old | added
          · exact old
          · rw [newPending later added] at processed
            cases processed
        rcases List.mem_append.mp earlierMember with old | added
        · exact invariant.processedFirst earlier old later laterOld sameKey lower processed
        · have after := keyOrder.2.2 later laterOld earlier added sameKey.symm
          exact absurd after (Nat.lt_asymm lower)
      · intro worker drain opened
        have held := invariant.drains worker drain opened
        refine ⟨?_, held.pending, held.locked, held.ordered, held.phase.of_olderFrom ?_⟩
        · intro row member
          show row ∈ table.rows
          rw [rowsEq]
          exact List.mem_append_left _ (held.member row member)
        · intro row member earlier earlierMember sameKey lower
          rw [rowsEq] at earlierMember
          rcases List.mem_append.mp earlierMember with old | added
          · exact ⟨earlier, old, rfl, rfl, rfl, id⟩
          · have after := keyOrder.2.2 row (held.member row member) earlier added sameKey.symm
            exact absurd after (Nat.lt_asymm lower)
      · intro key
        exact leads [] (fun id member => by simp at member) key (invariant.cells key)
      · intro worker drain opened key
        refine leads drain.processed ?_ key (invariant.drainCells worker drain opened key)
        intro id marked
        obtain ⟨row, member, sameId⟩ := (invariant.drains worker drain opened).mem_processed marked
        exact ⟨row, (invariant.drains worker drain opened).member row member, sameId⟩

section Commit

variable {worker : ℕ} {drain : Drain Condition} {progress : Progress Condition}

/-- A commit writes the marks of its transaction, and only to its batch. -/
theorem Drain.Consistent.flushed (held : drain.Consistent system worker)
    (phaseEq : drain.phase = .between progress) (finished : progress.todo = [])
    {row : OutboxRow Condition} (member : row ∈ system.table.rows) :
    ((Outbox.flushed progress.applied.rows row).processedAt.isSome ↔
        row.processedAt.isSome ∨ row.id ∈ progress.applied.processed) ∧
      (row ∉ drain.batch → Outbox.flushed progress.applied.rows row = row) := by
  have phase := held.phase
  rw [phaseEq] at phase
  obtain ⟨done, split, consistent⟩ := phase
  rw [finished, List.append_nil] at split
  rw [← split] at consistent
  rw [Outbox.flushed]
  cases found : progress.applied.rows.find? (·.id = row.id) with
  | none =>
      -- the row is not part of the batch
      have unmarked : row.id ∉ progress.applied.processed := by
        intro marked
        obtain ⟨other, otherMember, sameId⟩ := consistent.processed row.id marked
        have listed : row.id ∈ progress.applied.rows.map OutboxRow.id := by
          rw [consistent.rows, ← sameId]
          exact List.mem_map_of_mem otherMember
        obtain ⟨new, newMember, newId⟩ := List.mem_map.mp listed
        exact absurd newId (by simpa using List.find?_eq_none.mp found new newMember)
      simp [unmarked]
  | some new =>
      have newMember := List.mem_of_find?_eq_some found
      have newId : new.id = row.id := by simpa using List.find?_some found
      have listed : row.id ∈ drain.batch.map OutboxRow.id := by
        rw [← consistent.rows, ← newId]
        exact List.mem_map_of_mem newMember
      obtain ⟨batchRow, batchMember, sameId⟩ := List.mem_map.mp listed
      obtain rfl := system.table.eq_of_id_eq (held.member batchRow batchMember) member sameId
      have pending := held.pending batchRow batchMember
      have marked := consistent.marked new newMember
      rw [newId] at marked
      refine ⟨?_, fun outside => absurd batchMember outside⟩
      simpa [pending] using marked

theorem remaining_flush (held : drain.Consistent system worker)
    (phaseEq : drain.phase = .between progress) (finished : progress.todo = [])
    (processed : List Uuid) (key : TupleKey) :
    remaining (system.table.flush progress.applied.rows) processed key =
      (system.table.rows.filter fun row => row.op.tuple.toTupleKey = key &&
        (row.processedAt.isNone && !progress.applied.processed.contains row.id) &&
          !processed.contains row.id).map (·.op.operation) := by
  rw [remaining, OutboxTable.flush, List.filter_map, List.map_map]
  simp only [Function.comp_def, flushed_op, flushed_id]
  congr 1
  apply List.filter_congr
  intro row member
  have pending : (Outbox.flushed progress.applied.rows row).processedAt.isNone =
      (row.processedAt.isNone && !progress.applied.processed.contains row.id) := by
    rw [Bool.eq_iff_iff, ← Option.not_isSome, Bool.not_eq_true',
      ← Bool.not_eq_true, (held.flushed phaseEq finished member).1]
    simp
  rw [pending]

theorem committed_flush (changed : List (OutboxRow Condition)) (table : OutboxTable Condition)
    (key : TupleKey) : committed (table.flush changed) key = committed table key := by
  rw [committed, OutboxTable.flush, List.filter_map, List.map_map]
  simp only [Function.comp_def, flushed_op]
  rfl

/-- A finished transaction commits what it has marked. -/
theorem Invariant.flush (invariant : Invariant start system)
    (opened : system.drains worker = some drain) (phaseEq : drain.phase = .between progress)
    (finished : progress.todo = []) :
    Invariant start (({ system with
      table := system.table.flush progress.applied.rows } : System Condition).release worker) := by
  have held := invariant.drains worker drain opened
  have processedEq : drain.processed = progress.applied.processed := by
    rw [Drain.processed, phaseEq]
    rfl
  have flushedSome : ∀ row ∈ system.table.rows,
      ((Outbox.flushed progress.applied.rows row).processedAt.isSome ↔
        row.processedAt.isSome ∨ row.id ∈ progress.applied.processed) :=
    fun row member => (held.flushed phaseEq finished member).1
  have others : ∀ other otherDrain,
      (({ system with table := system.table.flush progress.applied.rows } :
        System Condition).release worker).drains other = some otherDrain →
      other ≠ worker ∧ system.drains other = some otherDrain := by
    intro other otherDrain otherOpened
    have different : other ≠ worker := by
      rintro rfl
      simp [System.release] at otherOpened
    exact ⟨different, by simpa [System.release, different] using otherOpened⟩
  -- what the transaction has marked is exactly what no longer remains
  have ownRemaining : ∀ key, remaining (system.table.flush progress.applied.rows) [] key =
      remaining system.table progress.applied.processed key := by
    intro key
    rw [remaining_flush held phaseEq finished, remaining]
    simp only [List.contains_nil, Bool.not_false, Bool.and_true, Bool.and_assoc]
  have cells : ∀ key,
      Leads start (system.table.flush progress.applied.rows) system.store [] key := by
    intro key
    have own := invariant.drainCells worker drain opened key
    rw [Leads, ownRemaining, committed_flush, ← processedEq]
    exact own
  refine ⟨?_, ?_, ?_, cells, ?_⟩
  · have before := invariant.keyOrder
    rw [SeqFollowsCommits] at before ⊢
    rw [System.release, OutboxTable.flush, List.pairwise_map]
    simpa only [flushed_tupleKey, flushed_seq] using before
  · intro earlier earlierMember later laterMember sameKey lower processed
    obtain ⟨earlierRow, earlierOld, rfl⟩ := List.mem_map.mp earlierMember
    obtain ⟨laterRow, laterOld, rfl⟩ := List.mem_map.mp laterMember
    rw [flushed_tupleKey, flushed_tupleKey] at sameKey
    rw [flushed_seq, flushed_seq] at lower
    rw [flushedSome laterRow laterOld] at processed
    rw [flushedSome earlierRow earlierOld]
    rcases processed with processed | marked
    · exact Or.inl (invariant.processedFirst earlierRow earlierOld laterRow laterOld sameKey lower
        processed)
    · obtain ⟨batchRow, batchMember, sameId⟩ := held.mem_processed (processedEq ▸ marked)
      obtain rfl := system.table.eq_of_id_eq (held.member batchRow batchMember) laterOld sameId
      rw [← processedEq] at marked ⊢
      exact held.clear_of_sends ⟨batchMember, Or.inl marked⟩ earlierRow earlierOld sameKey lower
  · intro other otherDrain otherOpened
    obtain ⟨different, before⟩ := others other otherDrain otherOpened
    have otherHeld := invariant.drains other otherDrain before
    refine ⟨?_, otherHeld.pending, ?_, otherHeld.ordered, otherHeld.phase.of_olderFrom ?_⟩
    · intro row member
      have outside : row ∉ drain.batch := by
        intro inBatch
        have locked := (held.locked row inBatch).symm.trans (otherHeld.locked row member)
        exact different (Option.some.inj locked).symm
      refine List.mem_map.mpr ⟨row, otherHeld.member row member, ?_⟩
      exact (held.flushed phaseEq finished (otherHeld.member row member)).2 outside
    · intro row member
      simp [System.release, otherHeld.locked row member, different]
    · intro row member earlier earlierMember sameKey lower
      obtain ⟨old, oldMember, rfl⟩ := List.mem_map.mp earlierMember
      refine ⟨old, oldMember, (flushed_id _ _).symm, (flushed_tupleKey _ _).symm,
        (flushed_seq _ _).symm, ?_⟩
      exact fun processed => (flushedSome old oldMember).mpr (Or.inl processed)
  · intro other otherDrain otherOpened key
    obtain ⟨different, before⟩ := others other otherDrain otherOpened
    have otherHeld := invariant.drains other otherDrain before
    by_cases marks : ∃ row ∈ system.table.rows, row.op.tuple.toTupleKey = key ∧
        row.id ∈ progress.applied.processed
    · -- the key was this transaction's, so the other one has marked nothing of it
      obtain ⟨row, member, rowKey, marked⟩ := marks
      obtain ⟨batchRow, batchMember, sameId⟩ := held.mem_processed (processedEq ▸ marked)
      obtain rfl := system.table.eq_of_id_eq (held.member batchRow batchMember) member sameId
      have all : remaining (system.table.flush progress.applied.rows) otherDrain.processed key =
          remaining (system.table.flush progress.applied.rows) [] key := by
        rw [remaining_flush held phaseEq finished, remaining_flush held phaseEq finished]
        congr 1
        apply List.filter_congr
        intro otherRow otherMember
        by_cases sameKey : otherRow.op.tuple.toTupleKey = key
        · have unmarked : otherRow.id ∉ otherDrain.processed := by
            intro otherMarked
            obtain ⟨batchOther, batchOtherMember, otherId⟩ := otherHeld.mem_processed otherMarked
            obtain rfl := system.table.eq_of_id_eq (otherHeld.member batchOther batchOtherMember)
              otherMember otherId
            refine invariant.sends_exclusive opened before different.symm
              ⟨batchMember, Or.inl (processedEq ▸ marked)⟩ ⟨batchOtherMember, Or.inl otherMarked⟩
              (tupleKey_eq_of_key_eq (rowKey.trans sameKey.symm))
          simp [unmarked]
        · simp [sameKey]
      rw [Leads, System.release]
      show applyAll (remaining (system.table.flush progress.applied.rows) otherDrain.processed key)
        (system.store key) = _
      rw [all]
      exact cells key
    · have same : remaining (system.table.flush progress.applied.rows) otherDrain.processed key =
          remaining system.table otherDrain.processed key := by
        rw [remaining_flush held phaseEq finished, remaining]
        congr 1
        apply List.filter_congr
        intro row member
        by_cases sameKey : row.op.tuple.toTupleKey = key
        · have unmarked : row.id ∉ progress.applied.processed :=
            fun marked => marks ⟨row, member, sameKey, marked⟩
          simp [unmarked]
        · simp [sameKey]
      have own := invariant.drainCells other otherDrain before key
      rw [Leads, System.release]
      show applyAll (remaining (system.table.flush progress.applied.rows) otherDrain.processed key)
        (system.store key) =
          applyAll (committed (system.table.flush progress.applied.rows) key) (start key)
      rw [same, committed_flush]
      exact own

theorem Invariant.commit (invariant : Invariant start system) (worker : ℕ) :
    Invariant start (system.commit worker) := by
  rw [System.commit]
  cases opened : system.drains worker with
  | none => exact invariant
  | some drain =>
      have flush : ∀ progress, drain.phase = .between progress → progress.todo = [] → _ :=
        fun progress phaseEq finished => invariant.flush opened phaseEq finished
      obtain ⟨stamp, batch, phase⟩ := drain
      cases phase with
      | claimed => exact invariant
      | sending row calls progress => exact invariant
      | between progress =>
          obtain ⟨older, applied, todo⟩ := progress
          cases todo with
          | cons row todo => exact invariant
          | nil => exact flush _ rfl rfl

end Commit

theorem Invariant.step (invariant : Invariant start system) (action : Action Condition)
    (serialised : WritersSerialised system action) :
    Invariant start (Outbox.step system action) := by
  cases action with
  | enqueue entries sourceTable sourceId now =>
      exact invariant.enqueue entries sourceTable sourceId now serialised
  | claim worker ids limit stamp => exact invariant.claim worker ids limit stamp
  | readOlder worker => exact invariant.readOlder worker
  | takeRow worker => exact invariant.takeRow worker
  | call worker outcome => exact invariant.call worker outcome
  | commit worker => exact invariant.commit worker
  | crash worker =>
      exact invariant.release system.store (fun _ _ key changed => absurd rfl changed)
        (fun _ => rfl) invariant.cells

theorem invariant_run {actions : List (Action Condition)} (invariant : Invariant start system)
    (serialised : StepRuns.EveryStep step WritersSerialised system actions) :
    Invariant start (StepRuns.run step system actions) := by
  induction actions generalizing system with
  | nil => exact invariant
  | cons action actions ih => exact ih (invariant.step action serialised.1) serialised.2

/-- In commit order, the rows of one key are in sequence order. -/
theorem Invariant.operations_eq (invariant : Invariant start system) (key : TupleKey) :
    system.operations key = committed system.table key := by
  have keyOrder := invariant.keyOrder.filter fun row => row.op.tuple.toTupleKey = key
  rw [System.operations, committed, List.Pairwise.insertionSort_eq]
  refine keyOrder.imp_of_mem ?_
  intro first second firstMember secondMember ordered
  have firstKey := (List.mem_filter.mp firstMember).2
  have secondKey := (List.mem_filter.mp secondMember).2
  rw [decide_eq_true_iff] at firstKey secondKey
  exact Nat.le_of_lt (ordered (tupleKey_eq_of_key_eq (firstKey.trans secondKey.symm)))

/-- After every run with serialised writers: a row that is being sent has no
older pending row of its key but those its transaction has marked as processed,
and a key without pending rows holds the result of its operations, each applied
once in sequence order. -/
theorem outbox_converges (store : TupleStore Condition) (actions : List (Action Condition))
    (serialised : StepRuns.EveryStep step WritersSerialised (System.start store) actions) :
    (∀ worker drain row calls progress,
        (StepRuns.run step (System.start store) actions).drains worker = some drain →
        drain.phase = .sending row calls progress →
        row.processedAt = none ∧
          ∀ earlier ∈ (StepRuns.run step (System.start store) actions).table.rows,
            earlier.tupleKey = row.tupleKey → earlier.seq < row.seq →
              earlier.processedAt.isSome ∨ earlier.id ∈ progress.applied.processed) ∧
      ∀ key, (∀ row ∈ (StepRuns.run step (System.start store) actions).table.rows,
          row.op.tuple.toTupleKey = key → row.processedAt.isSome) →
        (StepRuns.run step (System.start store) actions).store key =
          applyAll ((StepRuns.run step (System.start store) actions).operations key)
            (store key) := by
  have invariant := invariant_run (invariant_start store) serialised
  generalize StepRuns.run step (System.start store) actions = system at invariant ⊢
  constructor
  · intro worker drain row calls progress opened phaseEq
    have held := invariant.drains worker drain opened
    have phase := held.phase
    rw [phaseEq] at phase
    obtain ⟨⟨done, split, consistent⟩, next, -⟩ := phase
    exact ⟨held.pending row (by simp [split]),
      consistent.clear_next split held.ordered held.member next⟩
  · intro key done
    have leads := invariant.cells key
    have nothing : remaining system.table [] key = [] := by
      rw [remaining, List.map_eq_nil_iff, List.filter_eq_nil_iff]
      intro row member
      by_cases sameKey : row.op.tuple.toTupleKey = key
      · simp [Option.isSome_iff_ne_none.mp (done row member sameKey)]
      · simp [sameKey]
    rw [Leads, nothing, applyAll_nil] at leads
    rw [leads, invariant.operations_eq]

def plainTuple (condition : Option String) : RelationTuple String where
  user := { ref := { kind := .user, id := 1 }, members := false }
  relation := "viewer"
  object := { kind := .agent, id := 1 }
  condition := condition

/-- A worker dies between the delete and the write of a replacement, so another
one sends the older write again; the replacement then fails once more. -/
def retriedRun : List (Action String) :=
  [.enqueue [{ id := 1, seq := 1, op := { op := .write, tuple := plainTuple none, replace := false } },
      { id := 2, seq := 2, op := { op := .write, tuple := plainTuple (some "expiry"), replace := true } }]
      "resource_grants" 7 0,
    .claim 0 none 100 10, .readOlder 0, .takeRow 0, .call 0 .returned, .takeRow 0,
    .call 0 .returned, .crash 0,
    .claim 1 (some [1]) 1 11, .claim 0 none 100 11, .readOlder 0, .takeRow 0, .readOlder 1,
    .takeRow 1, .call 1 .returned, .commit 0, .commit 1,
    .claim 1 none 100 12, .readOlder 1, .takeRow 1, .call 1 .returned,
    .call 1 (.raised { kind := "AuthzUnavailable", text := "write" } false), .commit 1,
    .claim 0 none 100 3000000, .readOlder 0, .takeRow 0, .call 0 .returned, .call 0 .returned,
    .commit 0]

theorem outbox_converges_retried :
    (StepRuns.run step (System.start fun _ => none) retriedRun).store
        (plainTuple none).toTupleKey = some (plainTuple (some "expiry")) := by
  rw [(outbox_converges (fun _ => none) retriedRun (by decide)).2
    (plainTuple none).toTupleKey (by decide +kernel)]
  decide +kernel

end NaturalMold.Outbox

import NaturalMold.Outbox

/-! # What a batch does to its rows -/

namespace NaturalMold.Outbox

open Fallible
open Conversations (Uuid Time)

variable {Condition : Type}

section Batch

variable (older : String → Option ℕ) (stamp : Time)
  (raises : OutboxRow Condition → Option SendError)

/-- Whether an older pending row of the key is not part of the batch. -/
def behindOlder (row : OutboxRow Condition) : Bool :=
  (older row.tupleKey).getD row.seq < row.seq

/-- Whether a row of a batch has an older pending row of its key outside the
batch, or one inside it whose send raises. -/
def waits (batch : List (OutboxRow Condition)) (row : OutboxRow Condition) : Bool :=
  behindOlder older row || batch.any fun earlier =>
    earlier.tupleKey = row.tupleKey && earlier.seq < row.seq && (raises earlier).isSome

def settledRow (batch : List (OutboxRow Condition)) (row : OutboxRow Condition) :
    OutboxRow Condition :=
  if waits older raises batch row then row
  else
    match raises row with
    | some error => row.backedOff error stamp
    | none => row.sent stamp

def succeeds (batch : List (OutboxRow Condition)) (row : OutboxRow Condition) : Bool :=
  !waits older raises batch row && (raises row).isNone

def fails (batch : List (OutboxRow Condition)) (row : OutboxRow Condition) : Bool :=
  !waits older raises batch row && (raises row).isSome

def through (batch done : List (OutboxRow Condition)) : Applied Condition where
  processed := (done.filter (succeeds older raises batch)).map OutboxRow.id
  failed := (done.filter (fails older raises batch)).map OutboxRow.id
  deferred := (done.filter (waits older raises batch)).map OutboxRow.id
  blocked := ((done.filter (fails older raises batch)).map OutboxRow.tupleKey).reverse
  rows := done.map (settledRow older stamp raises batch)

variable {older stamp raises} {batch : List (OutboxRow Condition)}

theorem waits_eq_true_iff {row : OutboxRow Condition} :
    waits older raises batch row = true ↔
      behindOlder older row = true ∨ ∃ earlier ∈ batch, earlier.tupleKey = row.tupleKey ∧
        earlier.seq < row.seq ∧ (raises earlier).isSome := by
  simp [waits, and_assoc]

theorem behindOlder_of_seq_lt {earlier row : OutboxRow Condition}
    (sameKey : earlier.tupleKey = row.tupleKey) (before : earlier.seq < row.seq)
    (behind : behindOlder older earlier = true) : behindOlder older row = true := by
  rw [behindOlder, decide_eq_true_iff] at behind ⊢
  rw [sameKey] at behind
  cases lowest : older row.tupleKey with
  | none =>
      rw [lowest] at behind
      exact absurd behind (Nat.lt_irrefl _)
  | some seq =>
      rw [lowest] at behind
      exact Nat.lt_trans behind before

theorem waits_iff_fails {row : OutboxRow Condition} :
    waits older raises batch row = true ↔
      behindOlder older row = true ∨ ∃ earlier ∈ batch, earlier.tupleKey = row.tupleKey ∧
        earlier.seq < row.seq ∧ fails older raises batch earlier = true := by
  rw [waits_eq_true_iff]
  constructor
  · rintro (behind | ⟨earlier, member, sameKey, before, raised⟩)
    · exact Or.inl behind
    · -- by induction on the sequence number: either this row is attempted, or one before it
      generalize seqEq : earlier.seq = seq
      induction seq using Nat.strong_induction_on generalizing earlier with
      | _ seq ih =>
          by_cases waiting : waits older raises batch earlier = true
          · rcases waits_eq_true_iff.mp waiting with behind |
              ⟨first, firstMember, firstKey, firstBefore, firstRaised⟩
            · exact Or.inl (behindOlder_of_seq_lt sameKey before behind)
            · exact ih first.seq (seqEq ▸ firstBefore) first firstMember
                (firstKey.trans sameKey) (firstBefore.trans before) firstRaised rfl
          · refine Or.inr ⟨earlier, member, sameKey, before, ?_⟩
            rw [fails, raised]
            simpa using waiting
  · rintro (behind | ⟨earlier, member, sameKey, before, failed⟩)
    · exact Or.inl behind
    · refine Or.inr ⟨earlier, member, sameKey, before, ?_⟩
      rw [fails, Bool.and_eq_true] at failed
      exact failed.2

theorem mustWait_through {done rest : List (OutboxRow Condition)} {row : OutboxRow Condition}
    (split : batch = done ++ row :: rest)
    (ordered : batch.Pairwise fun first second => first.seq < second.seq) :
    mustWait older (through older stamp raises batch done).blocked row =
      waits older raises batch row := by
  rw [Bool.eq_iff_iff, waits_iff_fails, mustWait, Bool.or_eq_true, or_comm]
  apply or_congr Iff.rfl
  have blocked : (through older stamp raises batch done).blocked.contains row.tupleKey = true ↔
      ∃ earlier ∈ done, earlier.tupleKey = row.tupleKey ∧
        fails older raises batch earlier = true := by
    simp [through, and_assoc, and_comm]
  rw [blocked]
  constructor
  · rintro ⟨earlier, member, sameKey, failed⟩
    refine ⟨earlier, split ▸ List.mem_append_left _ member, sameKey, ?_, failed⟩
    rw [split, List.pairwise_append] at ordered
    exact ordered.2.2 earlier member row List.mem_cons_self
  · rintro ⟨earlier, member, sameKey, before, failed⟩
    refine ⟨earlier, ?_, sameKey, failed⟩
    rw [split] at member ordered
    rcases List.mem_append.mp member with done | later
    · exact done
    · -- the row itself and the later ones do not come before it
      exfalso
      rcases List.mem_cons.mp later with rfl | later
      · exact Nat.lt_irrefl _ before
      · have after := (List.pairwise_cons.mp (List.pairwise_append.mp ordered).2.1).1 _ later
        exact Nat.lt_asymm before after

def DelaysInRange (older : String → Option ℕ) (raises : OutboxRow Condition → Option SendError)
    (batch : List (OutboxRow Condition)) : Prop :=
  ∀ row ∈ batch, fails older raises batch row = true → row.attempts ≤ lastAttempts

theorem applyRow_through_eq_ok_iff {done rest : List (OutboxRow Condition)}
    {row : OutboxRow Condition} (split : batch = done ++ row :: rest)
    (ordered : batch.Pairwise fun first second => first.seq < second.seq)
    {applied : Applied Condition} :
    applyRow older stamp (raises row) (through older stamp raises batch done) row = .ok applied ↔
      (fails older raises batch row = true → row.attempts ≤ lastAttempts) ∧
        applied = through older stamp raises batch (done ++ [row]) := by
  rw [applyRow.eq_def, mustWait_through split ordered]
  cases waiting : waits older raises batch row with
  | true =>
      simp [through, succeeds, fails, settledRow, waiting, List.filter_append, eq_comm]
  | false =>
      cases raised : raises row with
      | none =>
          simp [through, succeeds, fails, settledRow, waiting, raised, List.filter_append, eq_comm]
      | some error =>
          simp only [Bool.false_eq_true, if_false, bind_eq_ok, backOff_eq_ok_iff]
          constructor
          · rintro ⟨after, ⟨few, rfl⟩, returned⟩
            obtain rfl := Except.ok.inj returned
            refine ⟨fun _ => few, ?_⟩
            simp [through, succeeds, fails, settledRow, waiting, raised, List.filter_append,
              OutboxRow.backedOff, OutboxRow.delayed, OutboxRow.tupleKey]
          · rintro ⟨few, rfl⟩
            refine ⟨_, ⟨few (by simp [fails, waiting, raised]), rfl⟩, ?_⟩
            simp [through, succeeds, fails, settledRow, waiting, raised, List.filter_append,
              OutboxRow.backedOff, OutboxRow.delayed, OutboxRow.tupleKey, pure, Except.pure]

/-- The loop goes through the whole batch exactly when its delays are in range,
and then every row has become what the batch makes of it. -/
theorem applyBatch_eq_ok_iff
    (ordered : batch.Pairwise fun first second => first.seq < second.seq)
    {applied : Applied Condition} :
    applyBatch older stamp raises batch = .ok applied ↔
      DelaysInRange older raises batch ∧ applied = through older stamp raises batch batch := by
  have suffix : ∀ rest done, batch = done ++ rest →
      (rest.foldlM (fun applied row => applyRow older stamp (raises row) applied row)
          (through older stamp raises batch done) = .ok applied ↔
        (∀ row ∈ rest, fails older raises batch row = true → row.attempts ≤ lastAttempts) ∧
          applied = through older stamp raises batch batch) := by
    intro rest
    induction rest with
    | nil =>
        intro done split
        rw [List.append_nil] at split
        subst done
        constructor
        · intro returned
          exact ⟨fun row member => absurd member List.not_mem_nil,
            (Except.ok.inj returned).symm⟩
        · rintro ⟨-, rfl⟩
          rfl
    | cons row rest ih =>
        intro done split
        rw [List.foldlM_cons, bind_eq_ok]
        simp only [applyRow_through_eq_ok_iff split ordered]
        have continued := ih (done ++ [row]) (by rw [split, List.append_assoc]; rfl)
        constructor
        · rintro ⟨_, ⟨few, rfl⟩, returned⟩
          obtain ⟨restFew, appliedEq⟩ := continued.mp returned
          exact ⟨List.forall_mem_cons.mpr ⟨few, restFew⟩, appliedEq⟩
        · rintro ⟨few, appliedEq⟩
          obtain ⟨rowFew, restFew⟩ := List.forall_mem_cons.mp few
          exact ⟨_, ⟨rowFew, rfl⟩, continued.mpr ⟨restFew, appliedEq⟩⟩
  exact suffix batch [] rfl

end Batch

section Drain

variable {older : String → Option ℕ} {stamp : Time}
  {raises : OutboxRow Condition → Option SendError} {batch : List (OutboxRow Condition)}

theorem settledRow_id (row : OutboxRow Condition) :
    (settledRow older stamp raises batch row).id = row.id := by
  rw [settledRow]
  split
  · rfl
  · split <;> rfl

/-- A row takes over the columns of what the batch has made of it. -/
theorem flushed_settled (table : OutboxTable Condition)
    (members : ∀ row ∈ batch, row ∈ table.rows) {row : OutboxRow Condition}
    (member : row ∈ table.rows) :
    flushed (batch.map (settledRow older stamp raises batch)) row =
      if (batch.map OutboxRow.id).contains row.id then settledRow older stamp raises batch row
      else row := by
  rw [flushed, List.find?_map, Function.comp_def]
  simp only [settledRow_id]
  cases found : batch.find? fun other => other.id = row.id with
  | none =>
      have absent : (batch.map OutboxRow.id).contains row.id = false := by
        simpa using found
      rw [absent]
      rfl
  | some other =>
      have otherMember := List.mem_of_find?_eq_some found
      have sameId : other.id = row.id := by simpa using List.find?_some found
      obtain rfl := table.eq_of_id_eq (members other otherMember) member sameId
      have present : (batch.map OutboxRow.id).contains other.id = true := by
        rw [List.contains_iff_mem]
        exact List.mem_map_of_mem otherMember
      rw [present, if_pos rfl, Option.map_some, settledRow]
      cases waits older raises batch other <;> cases raises other <;> rfl

/-- The drain has settled every row of its batch and left all others alone: a
row is processed, backed off or deferred as `settledRow` says. -/
structure Settled (table : OutboxTable Condition) (batch : List (OutboxRow Condition))
    (raises : OutboxRow Condition → Option SendError) (stamp : Time) (run : OutboxRun)
    (after : OutboxTable Condition) : Prop where
  processed : run.processed =
    (batch.filter (succeeds (olderPending table batch) raises batch)).map OutboxRow.id
  failed : run.failed =
    (batch.filter (fails (olderPending table batch) raises batch)).map OutboxRow.id
  deferred : run.deferred =
    (batch.filter (waits (olderPending table batch) raises batch)).map OutboxRow.id
  rows : after.rows = table.rows.map fun row =>
    if (batch.map OutboxRow.id).contains row.id then
      settledRow (olderPending table batch) stamp raises batch row
    else row

/-- A drain carries on past failing rows exactly as long as the delay of every
row whose send raises is in range; beyond, the error handler itself raises and
the whole batch is rolled back. -/
theorem drain_carries_on_iff {Others : Type}
    (complete : OutboxTable Condition → List (String × Uuid) → Others → Option Others)
    (raises : OutboxRow Condition → Option SendError) (locked : Uuid → Bool)
    (ids : Option (List Uuid)) (limit : ℕ) (stamp : Time) (table : OutboxTable Condition)
    (others : Others) :
    (∃ run after othersAfter,
        processOutbox complete raises locked ids limit stamp table others =
            .ok (run, after, othersAfter) ∧
          Settled table (due table locked ids limit stamp) raises stamp run after) ↔
      DelaysInRange (olderPending table (due table locked ids limit stamp)) raises
        (due table locked ids limit stamp) := by
  have members : ∀ row ∈ due table locked ids limit stamp, row ∈ table.rows :=
    fun row member => (mem_due member).1
  rw [processOutbox]
  generalize batchEq : due table locked ids limit stamp = batch at members ⊢
  have ordered : batch.Pairwise fun first second => first.seq < second.seq :=
    batchEq ▸ due_pairwise
  by_cases empty : batch = []
  · -- nothing is due, so nothing is written
    subst empty
    constructor
    · rintro -
      intro row member
      simp at member
    · rintro -
      exact ⟨_, _, _, rfl, rfl, rfl, rfl, by simp⟩
  · have nonempty : batch.isEmpty = false := by simpa using empty
    simp only [nonempty, Bool.false_eq_true, if_false, bind_eq_ok, applyBatch_eq_ok_iff ordered]
    constructor
    · rintro ⟨run, after, othersAfter, ⟨applied, ⟨inRange, -⟩, -⟩, -⟩
      exact inRange
    · intro inRange
      refine ⟨_, _, _, ⟨_, ⟨inRange, rfl⟩, rfl⟩, rfl, rfl, rfl, ?_⟩
      rw [OutboxTable.flush]
      exact List.map_congr_left fun row member => flushed_settled table members member

/-- Two due rows of different keys, the first one after 46 failed attempts. -/
def agedQueue : OutboxTable Unit where
  rows :=
    [{ id := 1, seq := 1, sourceTable := "resource_grants", sourceId := 7, attempts := 46
       op := { op := .write, replace := false
               tuple := { user := { ref := { kind := .user, id := 1 }, members := false }
                          relation := "viewer", object := { kind := .agent, id := 1 }
                          condition := none } }
       nextAttemptAt := 0, lastError := none, processedAt := none },
     { id := 2, seq := 2, sourceTable := "resource_grants", sourceId := 8, attempts := 0
       op := { op := .write, replace := false
               tuple := { user := { ref := { kind := .user, id := 2 }, members := false }
                          relation := "viewer", object := { kind := .agent, id := 2 }
                          condition := none } }
       nextAttemptAt := 0, lastError := none, processedAt := none }]
  distinctIds := by decide
  distinctSeqs := by decide

def firstUnavailable (row : OutboxRow Unit) : Option SendError :=
  if row.id = 1 then some { kind := "AuthzUnavailable", text := "write" } else none

/-- The drain of the aged queue raises and settles nothing. -/
theorem drain_stops_at_aged_row :
    ¬ ∃ run after othersAfter,
        processOutbox (fun _ _ (others : Unit) => some others) firstUnavailable (fun _ => false)
            none 100 10 agedQueue () = .ok (run, after, othersAfter) ∧
          Settled agedQueue (due agedQueue (fun _ => false) none 100 10) firstUnavailable 10 run
            after := by
  have raises : (processOutbox (fun _ _ (others : Unit) => some others) firstUnavailable
      (fun _ => false) none 100 10 agedQueue ()).toOption.isNone = true := by
    decide
  rintro ⟨run, after, othersAfter, returned, -⟩
  rw [returned] at raises
  cases raises

end Drain

end NaturalMold.Outbox

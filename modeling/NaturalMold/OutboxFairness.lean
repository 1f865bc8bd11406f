import NaturalMold.OutboxBackOff

/-! # Keys that share a batch -/

namespace NaturalMold.Outbox

open Fallible
open Conversations (Uuid Time)

variable {Condition : Type}

section Heads

variable (table : OutboxTable Condition) (limit : ℕ) (stamp : Time)
  (raises : OutboxRow Condition → Option SendError)

/-- The oldest pending row of its key. -/
structure IsHead (row : OutboxRow Condition) : Prop where
  member : row ∈ table.rows
  pending : row.processedAt = none
  oldest : ∀ other ∈ table.rows, other.processedAt = none → other.tupleKey = row.tupleKey →
    row.seq ≤ other.seq

/-- The batch of a drain that nobody else is in the way of. -/
def freeBatch : List (OutboxRow Condition) :=
  due table (fun _ => false) none limit stamp

def Attempts (batch : List (OutboxRow Condition)) (row : OutboxRow Condition) : Prop :=
  ∃ done rest applied, batch = done ++ row :: rest ∧
    done.foldlM (fun applied row =>
      applyRow (olderPending table batch) stamp (raises row) applied row) Applied.none =
        .ok applied ∧
    mustWait (olderPending table batch) applied.blocked row = false

/-- If some oldest row of a key is due, then the batch attempts such a row. -/
def NoStarvation : Prop :=
  (∃ row, IsHead table row ∧ row.nextAttemptAt ≤ stamp) →
    ∃ row, IsHead table row ∧ row.nextAttemptAt ≤ stamp ∧
      Attempts table stamp raises (freeBatch table limit stamp) row

def dueBefore (row : OutboxRow Condition) : ℕ :=
  table.rows.countP fun other =>
    isDue (fun _ => false) none stamp other && other.seq < row.seq

/-- If some oldest row of a key is due, then fewer due rows than the limit come before one. -/
def HeadWithinLimit : Prop :=
  (∃ row, IsHead table row ∧ row.nextAttemptAt ≤ stamp) →
    ∃ row, IsHead table row ∧ row.nextAttemptAt ≤ stamp ∧ dueBefore table stamp row < limit

end Heads

/-- In a list in strict order, the first items are those that few others come before. -/
theorem mem_take_iff {Item : Type*} {seq : Item → ℕ} {items : List Item} {item : Item}
    (ordered : items.Pairwise fun first second => seq first < seq second) (listed : item ∈ items)
    (limit : ℕ) :
    item ∈ items.take limit ↔ (items.countP fun other => seq other < seq item) < limit := by
  induction items generalizing limit with
  | nil => cases listed
  | cons first items ih =>
      obtain ⟨least, ordered⟩ := List.pairwise_cons.mp ordered
      cases limit with
      | zero => simp
      | succ limit =>
          rw [List.take_succ_cons, List.mem_cons, List.countP_cons]
          rcases List.mem_cons.mp listed with rfl | later
          · have none : (items.countP fun other => seq other < seq item) = 0 := by
              rw [List.countP_eq_zero]
              intro other member
              have := least other member
              simp
              omega
            simp [none]
          · have before := least item later
            have different : item ≠ first := by
              rintro rfl
              omega
            rw [ih ordered later]
            simp [different, before]

theorem exists_first {Item : Type*} {property : Item → Prop} {items : List Item} {item : Item}
    (listed : item ∈ items) (holds : property item) :
    ∃ before first after, items = before ++ first :: after ∧ property first ∧
      ∀ other ∈ before, ¬ property other := by
  induction items with
  | nil => cases listed
  | cons first items ih =>
      by_cases here : property first
      · exact ⟨[], first, items, rfl, here, fun _ member => absurd member List.not_mem_nil⟩
      · have later : item ∈ items := by
          rcases List.mem_cons.mp listed with rfl | later
          · exact absurd holds here
          · exact later
        obtain ⟨before, found, after, split, property, others⟩ := ih later
        refine ⟨first :: before, found, after, by rw [split]; rfl, property, ?_⟩
        exact List.forall_mem_cons.mpr ⟨here, others⟩

section Batch

variable {table : OutboxTable Condition} {limit : ℕ} {stamp : Time}
  {raises : OutboxRow Condition → Option SendError}

variable {row : OutboxRow Condition}

theorem isDue_free_iff :
    isDue (fun _ => false) none stamp row = true ↔
      row.processedAt = none ∧ row.nextAttemptAt ≤ stamp := by
  simp [isDue]

theorem sorted_pairwise (table : OutboxTable Condition) (stamp : Time) :
    ((table.rows.filter (isDue (fun _ => false) none stamp)).insertionSort InSeqOrder).Pairwise
      fun first second => first.seq < second.seq := by
  have whole := @due_pairwise Condition table (fun _ => false) none
    ((table.rows.filter (isDue (fun _ => false) none stamp)).insertionSort InSeqOrder).length stamp
  rwa [due, List.take_length] at whole

theorem mem_freeBatch_iff (member : row ∈ table.rows)
    (isDueRow : isDue (fun _ => false) none stamp row = true) :
    row ∈ freeBatch table limit stamp ↔ dueBefore table stamp row < limit := by
  have listed : row ∈ (table.rows.filter (isDue (fun _ => false) none stamp)).insertionSort
      InSeqOrder :=
    (List.mem_insertionSort InSeqOrder).mpr (List.mem_filter.mpr ⟨member, isDueRow⟩)
  rw [freeBatch, due, mem_take_iff (sorted_pairwise table stamp) listed,
    (List.perm_insertionSort InSeqOrder _).countP_eq, List.countP_filter, dueBefore]
  simp only [Bool.and_comm]

theorem exists_isHead (member : row ∈ table.rows) (pending : row.processedAt = none) :
    ∃ head, IsHead table head ∧ head.tupleKey = row.tupleKey ∧ head.seq ≤ row.seq := by
  -- by induction on the sequence number: a row that is not the oldest has an older one
  generalize seqEq : row.seq = seq
  induction seq using Nat.strong_induction_on generalizing row with
  | _ seq ih =>
      by_cases oldest : IsHead table row
      · exact ⟨row, oldest, rfl, by omega⟩
      · have older : ∃ other ∈ table.rows, other.processedAt = none ∧
            other.tupleKey = row.tupleKey ∧ other.seq < row.seq := by
          by_contra none
          apply oldest
          constructor
          case member => exact member
          case pending => exact pending
          case oldest =>
              intro other listed waiting sameKey
              by_contra later
              exact none ⟨other, listed, waiting, sameKey, by omega⟩
        obtain ⟨other, listed, waiting, sameKey, before⟩ := older
        obtain ⟨head, isHead, headKey, headSeq⟩ := ih other.seq (by omega) listed waiting rfl
        exact ⟨head, isHead, headKey.trans sameKey, by omega⟩

variable {batch : List (OutboxRow Condition)}

theorem olderPending_le {other : OutboxRow Condition} (inBatch : row ∈ batch)
    (listed : other ∈ table.rows) (pending : other.processedAt = none)
    (sameKey : other.tupleKey = row.tupleKey) (outside : other.id ∉ batch.map OutboxRow.id) :
    ∃ lowest, olderPending table batch row.tupleKey = some lowest ∧ lowest ≤ other.seq := by
  have found : other.seq ∈ (table.rows.filter fun older =>
      older.processedAt.isNone && older.tupleKey = row.tupleKey &&
        (batch.map OutboxRow.tupleKey).contains row.tupleKey &&
          !(batch.map OutboxRow.id).contains older.id).map OutboxRow.seq := by
    apply List.mem_map_of_mem
    apply List.mem_filter.mpr
    have key : row.tupleKey ∈ batch.map OutboxRow.tupleKey := List.mem_map_of_mem inBatch
    simp_all
  rw [olderPending]
  cases lowest : ((table.rows.filter fun older =>
      older.processedAt.isNone && older.tupleKey = row.tupleKey &&
        (batch.map OutboxRow.tupleKey).contains row.tupleKey &&
          !(batch.map OutboxRow.id).contains older.id).map OutboxRow.seq).min? with
  | none =>
      rw [List.min?_eq_none_iff.mp lowest] at found
      cases found
  | some least => exact ⟨least, rfl, (List.min?_eq_some_iff.mp lowest).2 _ found⟩

theorem le_olderPending (head : IsHead table row) {lowest : ℕ}
    (found : olderPending table batch row.tupleKey = some lowest) : row.seq ≤ lowest := by
  obtain ⟨other, member, rfl⟩ := List.mem_map.mp (List.min?_eq_some_iff.mp found).1
  obtain ⟨listed, marks⟩ := List.mem_filter.mp member
  simp only [Bool.and_eq_true, Option.isNone_iff_eq_none, decide_eq_true_eq] at marks
  exact head.oldest other listed marks.1.1.1 marks.1.1.2

/-- A head does not wait while no key is blocked. -/
theorem mustWait_head (head : IsHead table row) :
    mustWait (olderPending table batch) [] row = false := by
  rw [mustWait]
  cases found : olderPending table batch row.tupleKey with
  | none => simp
  | some lowest =>
      have := le_olderPending head found
      simpa using this

theorem mustWait_before_head {done rest : List (OutboxRow Condition)}
    (split : freeBatch table limit stamp = done ++ rest)
    (noHead : ∀ other ∈ done, ¬ IsHead table other) (early : row ∈ done) :
    mustWait (olderPending table (freeBatch table limit stamp)) [] row = true := by
  have inBatch : row ∈ freeBatch table limit stamp := by
    rw [split]
    exact List.mem_append_left _ early
  obtain ⟨listed, pending, _⟩ := mem_due inBatch
  obtain ⟨head, isHead, sameKey, before⟩ := exists_isHead listed pending
  have different : head.seq ≠ row.seq := by
    intro same
    have equal := table.eq_of_seq_eq isHead.member listed same
    exact noHead row early (equal ▸ isHead)
  have outside : head.id ∉ (freeBatch table limit stamp).map OutboxRow.id := by
    intro inside
    obtain ⟨other, otherIn, sameId⟩ := List.mem_map.mp inside
    have equal := table.eq_of_id_eq (mem_due otherIn).1 isHead.member sameId
    rw [equal, split] at otherIn
    rcases List.mem_append.mp otherIn with first | later
    · exact noHead head first isHead
    · have ordered : (freeBatch table limit stamp).Pairwise _ := due_pairwise
      rw [split, List.pairwise_append] at ordered
      have after := ordered.2.2 row early head later
      omega
  obtain ⟨lowest, found, least⟩ :=
    olderPending_le inBatch isHead.member isHead.pending sameKey outside
  rw [mustWait, found]
  simp
  omega

theorem foldlM_waiting (stamp : Time) (raises : OutboxRow Condition → Option SendError)
    {older : String → Option ℕ} {done : List (OutboxRow Condition)}
    (waiting : ∀ row ∈ done, mustWait older [] row = true) (applied : Applied Condition)
    (free : applied.blocked = []) :
    ∃ after : Applied Condition, after.blocked = [] ∧
      done.foldlM (fun applied row => applyRow older stamp (raises row) applied row) applied =
        .ok after := by
  induction done generalizing applied with
  | nil => exact ⟨applied, free, rfl⟩
  | cons row done ih =>
      obtain ⟨waits, waiting⟩ := List.forall_mem_cons.mp waiting
      rw [List.foldlM_cons, applyRow.eq_def, free, if_pos waits]
      exact ih waiting _ rfl

/-- A batch attempts the oldest due row of some key just when fewer due rows than its limit
come before such a row. -/
theorem noStarvation_iff (table : OutboxTable Condition) (limit : ℕ) (stamp : Time)
    (raises : OutboxRow Condition → Option SendError) :
    NoStarvation table limit stamp raises ↔ HeadWithinLimit table limit stamp := by
  constructor
  · intro attempted someHead
    obtain ⟨row, head, isDueRow, done, rest, applied, split, _, _⟩ := attempted someHead
    have inBatch : row ∈ freeBatch table limit stamp := by
      rw [split]
      exact List.mem_append_right _ List.mem_cons_self
    exact ⟨row, head, isDueRow, (mem_freeBatch_iff head.member
      (isDue_free_iff.mpr ⟨head.pending, isDueRow⟩)).mp inBatch⟩
  · intro within someHead
    obtain ⟨row, head, isDueRow, few⟩ := within someHead
    have inBatch := (mem_freeBatch_iff head.member
      (isDue_free_iff.mpr ⟨head.pending, isDueRow⟩)).mpr few
    obtain ⟨done, first, rest, split, firstHead, noHead⟩ :=
      exists_first inBatch head
    obtain ⟨applied, free, through⟩ := foldlM_waiting stamp raises
      (fun row early => mustWait_before_head split noHead early) Applied.none rfl
    have firstIn : first ∈ freeBatch table limit stamp := by
      rw [split]
      exact List.mem_append_right _ List.mem_cons_self
    have firstDue : first.nextAttemptAt ≤ stamp := by
      have listed := (List.mem_insertionSort InSeqOrder).mp (List.mem_of_mem_take firstIn)
      exact (isDue_free_iff.mp (List.mem_filter.mp listed).2).2
    refine ⟨first, firstHead, firstDue, done, rest, applied, split, through, ?_⟩
    rw [free]
    exact mustWait_head firstHead

end Batch

def viewerRow (seq agent dueAt attempts : ℕ) : OutboxRow Unit where
  id := seq
  seq := seq
  op :=
    { op := .write, replace := false
      tuple := { user := { ref := { kind := .user, id := 1 }, members := false }
                 relation := "viewer", object := { kind := .agent, id := agent }
                 condition := none } }
  sourceTable := "resource_grants"
  sourceId := seq
  attempts := attempts
  nextAttemptAt := dueAt
  lastError := none
  processedAt := none

/-- A backed-off row, a hundred due rows of its key and one due row of another key. -/
def crowdedQueue : OutboxTable Unit where
  rows := viewerRow 0 1 300000000 8 :: (List.range 100).map (fun place =>
    viewerRow (place + 1) 1 0 0) ++ [viewerRow 101 2 0 0]
  distinctIds := by decide +kernel
  distinctSeqs := by decide +kernel

theorem crowdedQueue_tupleKey {row : OutboxRow Unit} (listed : row ∈ crowdedQueue.rows) :
    row.tupleKey = (viewerRow 0 1 300000000 8).tupleKey ∨ row = viewerRow 101 2 0 0 := by
  rcases List.mem_append.mp listed with early | last
  · left
    rcases List.mem_cons.mp early with rfl | waiting
    · rfl
    · obtain ⟨place, _, rfl⟩ := List.mem_map.mp waiting
      rfl
  · exact .inr (List.mem_singleton.mp last)

/-- The hundred rows that wait fill the batch, and the row of the other key is left. -/
theorem crowdedQueue_not_noStarvation :
    ¬ NoStarvation crowdedQueue 100 1000000 fun _ => none := by
  intro attempted
  have last : viewerRow 101 2 0 0 ∈ crowdedQueue.rows :=
    List.mem_append_right _ (List.mem_singleton_self _)
  have apart : (viewerRow 0 1 300000000 8).tupleKey ≠ (viewerRow 101 2 0 0).tupleKey := by
    decide +kernel
  have head : IsHead crowdedQueue (viewerRow 101 2 0 0) := by
    constructor
    case member => exact last
    case pending => rfl
    case oldest =>
    intro other listed _ sameKey
    rcases crowdedQueue_tupleKey listed with key | rfl
    · exact absurd (key.symm.trans sameKey) apart
    · exact Nat.le_refl _
  obtain ⟨row, found, _, done, rest, applied, split, _, _⟩ :=
    attempted ⟨_, head, Nat.zero_le _⟩
  have inBatch : row ∈ freeBatch crowdedQueue 100 1000000 := by
    rw [split]
    exact List.mem_append_right _ List.mem_cons_self
  have crowded : ((freeBatch crowdedQueue 100 1000000).all fun other =>
      0 < other.seq && other.seq < 101) = true := by
    decide +kernel
  have behind := List.all_eq_true.mp crowded row inBatch
  rw [Bool.and_eq_true, decide_eq_true_eq, decide_eq_true_eq] at behind
  rcases crowdedQueue_tupleKey (mem_due inBatch).1 with key | rfl
  · have oldest := found.oldest (viewerRow 0 1 300000000 8) List.mem_cons_self rfl key.symm
    exact absurd oldest (Nat.not_le.mpr behind.1)
  · exact absurd behind.2 (Nat.lt_irrefl _)

end NaturalMold.Outbox

import NaturalMold.ConversationTables
import NaturalMold.FallibleSteps
import NaturalMold.RelationTuples
import Mathlib.Data.List.Sort

/-!
# The outbox of tuple operations

Writers queue operations as rows; a drain takes a batch of due rows, sends each one whose key has
no older pending row, and backs a row off when its send raises. Times are in microseconds.
-/

namespace NaturalMold.Outbox

open Fallible
open Conversations (Uuid Time)

variable {Condition : Type}

/-- A row of `authz_outbox`, its operation already decoded. -/
structure OutboxRow (Condition : Type) where
  id : Uuid
  seq : ℕ
  op : TupleOp Condition
  sourceTable : String
  sourceId : Uuid
  attempts : ℕ
  nextAttemptAt : Time
  lastError : Option String
  processedAt : Option Time
  deriving DecidableEq

/-- The key text that `enqueue` stores with an operation. -/
def OutboxRow.tupleKey (row : OutboxRow Condition) : String :=
  row.op.tuple.text

/-- What a send raises, and its text. -/
structure SendError where
  kind : String
  text : String
  deriving DecidableEq

/-- A delay beyond the range of `timedelta`. -/
inductive OverflowError
  | timedelta
  deriving DecidableEq

/-- `timedelta(seconds=…)` in microseconds: at most 999999999 days. -/
def timedelta (seconds : ℕ) : Except OverflowError ℕ :=
  if seconds / 86400 ≤ 999999999 then .ok (seconds * 1000000) else .error .timedelta

/-- Five minutes. -/
def maxBackoff : ℕ :=
  300000000

def errorWidth : ℕ :=
  500

/-- The columns that `_back_off` writes, given the delay in microseconds. -/
def OutboxRow.delayed (row : OutboxRow Condition) (error : SendError) (stamp : Time)
    (delay : ℕ) : OutboxRow Condition :=
  { row with
    attempts := row.attempts + 1
    nextAttemptAt := stamp + min delay maxBackoff
    lastError := some (String.ofList ((error.kind ++ ": " ++ error.text).toList.take errorWidth)) }

def backOff (row : OutboxRow Condition) (error : SendError) (stamp : Time) :
    Except OverflowError (OutboxRow Condition) := do
  let delay ← timedelta (2 ^ (row.attempts + 1))
  return row.delayed error stamp delay

/-- The row after an attempt that failed: it waits `2 ^ attempts` seconds, five
minutes at most. -/
def OutboxRow.backedOff (row : OutboxRow Condition) (error : SendError) (stamp : Time) :
    OutboxRow Condition :=
  row.delayed error stamp (2 ^ (row.attempts + 1) * 1000000)

def OutboxRow.sent (row : OutboxRow Condition) (stamp : Time) : OutboxRow Condition :=
  { row with processedAt := some stamp, lastError := none }

def lastAttempts : ℕ :=
  45

theorem timedelta_eq_ok_iff {attempts delay : ℕ} :
    timedelta (2 ^ (attempts + 1)) = .ok delay ↔
      attempts ≤ lastAttempts ∧ delay = 2 ^ (attempts + 1) * 1000000 := by
  have inRange : 2 ^ (attempts + 1) / 86400 ≤ 999999999 ↔ attempts ≤ lastAttempts := by
    constructor
    · intro small
      by_contra large
      have exponent : 47 ≤ attempts + 1 := by
        rw [lastAttempts] at large
        omega
      have power : 2 ^ 47 ≤ 2 ^ (attempts + 1) := Nat.pow_le_pow_right (by decide) exponent
      omega
    · intro few
      have exponent : attempts + 1 ≤ 46 := Nat.succ_le_succ few
      have power : 2 ^ (attempts + 1) ≤ 2 ^ 46 := Nat.pow_le_pow_right (by decide) exponent
      omega
  rw [timedelta]
  split
  case isTrue small => simp [inRange.mp small, eq_comm]
  case isFalse large =>
  constructor
  · intro raised
    cases raised
  · intro fits
    exact absurd (inRange.mpr fits.1) large

/-- The handler of a failed send returns exactly while the delay is in range. -/
theorem backOff_eq_ok_iff {row after : OutboxRow Condition} {error : SendError} {stamp : Time} :
    backOff row error stamp = .ok after ↔
      row.attempts ≤ lastAttempts ∧ after = row.backedOff error stamp := by
  rw [backOff]
  simp only [bind_eq_ok, timedelta_eq_ok_iff]
  constructor
  · rintro ⟨delay, ⟨few, rfl⟩, returned⟩
    exact ⟨few, (Except.ok.inj returned).symm⟩
  · rintro ⟨few, rfl⟩
    exact ⟨_, ⟨few, rfl⟩, rfl⟩

/-- The queue: ids and sequence numbers are unique. -/
structure OutboxTable (Condition : Type) where
  rows : List (OutboxRow Condition)
  distinctIds : (rows.map OutboxRow.id).Nodup
  distinctSeqs : (rows.map OutboxRow.seq).Nodup

namespace OutboxTable

/-- Two rows of the queue with the same id are one row. -/
theorem eq_of_id_eq (table : OutboxTable Condition) {first second : OutboxRow Condition}
    (firstMember : first ∈ table.rows) (secondMember : second ∈ table.rows)
    (same : first.id = second.id) : first = second :=
  List.inj_on_of_nodup_map table.distinctIds firstMember secondMember same

theorem eq_of_seq_eq (table : OutboxTable Condition) {first second : OutboxRow Condition}
    (firstMember : first ∈ table.rows) (secondMember : second ∈ table.rows)
    (same : first.seq = second.seq) : first = second :=
  List.inj_on_of_nodup_map table.distinctSeqs firstMember secondMember same

end OutboxTable

/-- Write the columns that a drain changes over the stored row. -/
def flushed (changed : List (OutboxRow Condition)) (row : OutboxRow Condition) :
    OutboxRow Condition :=
  match changed.find? (·.id = row.id) with
  | some new =>
      { row with
        attempts := new.attempts
        nextAttemptAt := new.nextAttemptAt
        lastError := new.lastError
        processedAt := new.processedAt }
  | none => row

variable (changed : List (OutboxRow Condition)) (row : OutboxRow Condition)

@[simp]
theorem flushed_id : (flushed changed row).id = row.id := by
  rw [flushed]
  split <;> rfl

@[simp]
theorem flushed_seq : (flushed changed row).seq = row.seq := by
  rw [flushed]
  split <;> rfl

@[simp]
theorem flushed_op : (flushed changed row).op = row.op := by
  rw [flushed]
  split <;> rfl

@[simp]
theorem flushed_tupleKey : (flushed changed row).tupleKey = row.tupleKey := by
  rw [OutboxRow.tupleKey, flushed_op, OutboxRow.tupleKey]

def OutboxTable.flush (table : OutboxTable Condition) (changed : List (OutboxRow Condition)) :
    OutboxTable Condition where
  rows := table.rows.map (flushed changed)
  distinctIds := by
    rw [List.map_map, Function.comp_def]
    simpa only [flushed_id] using table.distinctIds
  distinctSeqs := by
    rw [List.map_map, Function.comp_def]
    simpa only [flushed_seq] using table.distinctSeqs

def InSeqOrder (first second : OutboxRow Condition) : Prop :=
  first.seq ≤ second.seq

instance : DecidableRel (@InSeqOrder Condition) :=
  fun first second => inferInstanceAs (Decidable (first.seq ≤ second.seq))

instance : Std.Total (@InSeqOrder Condition) where
  total first second := Nat.le_total first.seq second.seq

instance : IsTrans (OutboxRow Condition) InSeqOrder where
  trans _ _ _ := Nat.le_trans

/-- Whether a drain may take a row: it is pending and due, among the wanted ids
if there are any, and not locked by another transaction. -/
def isDue (locked : Uuid → Bool) (ids : Option (List Uuid)) (stamp : Time)
    (row : OutboxRow Condition) : Bool :=
  row.processedAt.isNone && row.nextAttemptAt ≤ stamp && ids.all (·.contains row.id) &&
    !locked row.id

/-- `_due`: the first rows that the drain may take. -/
def due (table : OutboxTable Condition) (locked : Uuid → Bool) (ids : Option (List Uuid))
    (limit : ℕ) (stamp : Time) : List (OutboxRow Condition) :=
  ((table.rows.filter (isDue locked ids stamp)).insertionSort InSeqOrder).take limit

section Due

variable {table : OutboxTable Condition} {locked : Uuid → Bool} {ids : Option (List Uuid)}
  {limit : ℕ} {stamp : Time}

theorem mem_due {row : OutboxRow Condition} (member : row ∈ due table locked ids limit stamp) :
    row ∈ table.rows ∧ row.processedAt = none ∧ locked row.id = false := by
  have listed := (List.mem_insertionSort InSeqOrder).mp (List.mem_of_mem_take member)
  rw [List.mem_filter, isDue] at listed
  simp only [Bool.and_eq_true, Option.isNone_iff_eq_none, Bool.not_eq_true'] at listed
  exact ⟨listed.1, listed.2.1.1.1, listed.2.2⟩

/-- A batch comes in strict sequence order. -/
theorem due_pairwise :
    (due table locked ids limit stamp).Pairwise fun first second => first.seq < second.seq := by
  apply List.Pairwise.sublist (List.take_sublist _ _)
  have sorted :=
    List.pairwise_insertionSort InSeqOrder (table.rows.filter (isDue locked ids stamp))
  have distinct : ((table.rows.filter (isDue locked ids stamp)).map OutboxRow.seq).Nodup :=
    table.distinctSeqs.sublist (List.filter_sublist.map OutboxRow.seq)
  have sortedDistinct : (((table.rows.filter (isDue locked ids stamp)).insertionSort
      InSeqOrder).map OutboxRow.seq).Nodup :=
    ((List.perm_insertionSort InSeqOrder _).map OutboxRow.seq).nodup_iff.mpr distinct
  rw [List.Nodup, List.pairwise_map] at sortedDistinct
  exact sorted.imp₂ (fun first second => Nat.lt_of_le_of_ne) sortedDistinct

end Due

/-- `_older_pending`: the lowest pending row outside the batch, for the keys of
the batch. -/
def olderPending (table : OutboxTable Condition) (batch : List (OutboxRow Condition))
    (key : String) : Option ℕ :=
  ((table.rows.filter fun row =>
      row.processedAt.isNone && row.tupleKey = key && (batch.map OutboxRow.tupleKey).contains key &&
        !(batch.map OutboxRow.id).contains row.id).map OutboxRow.seq).min?

/-- The local variables of `_apply`, and the rows it has gone through as they
now stand. -/
structure Applied (Condition : Type) where
  processed : List Uuid
  failed : List Uuid
  deferred : List Uuid
  blocked : List String
  rows : List (OutboxRow Condition)

def Applied.none : Applied Condition where
  processed := []
  failed := []
  deferred := []
  blocked := []
  rows := []

def mustWait (older : String → Option ℕ) (blocked : List String) (row : OutboxRow Condition) :
    Bool :=
  blocked.contains row.tupleKey || (older row.tupleKey).getD row.seq < row.seq

/-- The body of the loop of `_apply`, given what the send of the row raises. -/
def applyRow (older : String → Option ℕ) (stamp : Time) (raised : Option SendError)
    (applied : Applied Condition) (row : OutboxRow Condition) :
    Except OverflowError (Applied Condition) :=
  if mustWait older applied.blocked row then
    .ok { applied with deferred := applied.deferred ++ [row.id], rows := applied.rows ++ [row] }
  else
    match raised with
    | some error => do
        let row ← backOff row error stamp
        return { applied with
          failed := applied.failed ++ [row.id]
          blocked := row.tupleKey :: applied.blocked
          rows := applied.rows ++ [row] }
    | none =>
        .ok { applied with
          processed := applied.processed ++ [row.id]
          rows := applied.rows ++ [row.sent stamp] }

def applyBatch (older : String → Option ℕ) (stamp : Time)
    (raises : OutboxRow Condition → Option SendError) (batch : List (OutboxRow Condition)) :
    Except OverflowError (Applied Condition) :=
  batch.foldlM (fun applied row => applyRow older stamp (raises row) applied row) Applied.none

structure OutboxRun where
  processed : List Uuid
  failed : List Uuid
  deferred : List Uuid
  deriving DecidableEq

/-- `process_outbox` as one transaction: the queue and the other tables after
the commit, or an error that rolls everything back.  `complete` is
`complete_sources` on the other tables; when it raises, only its own writes are
lost. -/
def processOutbox {Others : Type}
    (complete : OutboxTable Condition → List (String × Uuid) → Others → Option Others)
    (raises : OutboxRow Condition → Option SendError) (locked : Uuid → Bool)
    (ids : Option (List Uuid)) (limit : ℕ) (stamp : Time) (table : OutboxTable Condition)
    (others : Others) : Except OverflowError (OutboxRun × OutboxTable Condition × Others) := do
  let batch := due table locked ids limit stamp
  if batch.isEmpty then
    return ({ processed := [], failed := [], deferred := [] }, table, others)
  let applied ← applyBatch (olderPending table batch) stamp raises batch
  let table := table.flush applied.rows
  let done := (batch.filter fun row => applied.processed.contains row.id).map fun row =>
    (row.sourceTable, row.sourceId)
  return ({ processed := applied.processed, failed := applied.failed,
            deferred := applied.deferred }, table, (complete table done others).getD others)

end NaturalMold.Outbox

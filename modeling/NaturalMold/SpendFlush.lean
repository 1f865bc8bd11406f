import Mathlib.Algebra.Order.Floor.Ring
import Mathlib.Algebra.Order.Round
import Mathlib.Data.Rat.Floor
import Mathlib.Tactic.FieldSimp
import Mathlib.Tactic.Linarith
import NaturalMold.ConversationTables
import NaturalMold.GroupedTotals

/-! # Spend entries and the daily aggregates -/

namespace NaturalMold.Spend

open Conversations (Uuid)
open GroupedTotals

/-- `SpendEntry`; a date is given by its number of days. -/
structure SpendEntry where
  date : ℕ
  userId : Uuid
  tokensIn : ℤ
  tokensOut : ℤ
  costUsd : ℚ
  agentId : Option Uuid
  modelId : Option Uuid
  requestCount : ℤ
  orgId : Option Uuid
  tenantId : Uuid
  deriving DecidableEq

/-- `Bucket`, and what a row adds up to. -/
@[ext]
structure Bucket where
  tokensIn : ℤ
  tokensOut : ℤ
  costUsd : ℚ
  requestCount : ℤ
  deriving DecidableEq

namespace Bucket

instance : Zero Bucket :=
  ⟨⟨0, 0, 0, 0⟩⟩

instance : Add Bucket :=
  ⟨fun first second => ⟨first.tokensIn + second.tokensIn, first.tokensOut + second.tokensOut,
    first.costUsd + second.costUsd, first.requestCount + second.requestCount⟩⟩

instance : AddCommMonoid Bucket where
  add_assoc first second third := by
    ext <;> exact add_assoc _ _ _
  zero_add bucket := by
    ext <;> exact zero_add _
  add_zero bucket := by
    ext <;> exact add_zero _
  add_comm first second := by
    ext <;> exact add_comm _ _
  nsmul := nsmulRec

end Bucket

/-- `(date, org_id, tenant_id, target_id)`. -/
structure BucketKey where
  date : ℕ
  orgId : Option Uuid
  tenantId : Uuid
  targetId : Uuid
  deriving DecidableEq

/-- `AXES`. -/
inductive Axis
  | user
  | agent
  | model
  deriving DecidableEq

namespace SpendEntry

def target (entry : SpendEntry) : Axis → Option Uuid
  | .user => some entry.userId
  | .agent => entry.agentId
  | .model => entry.modelId

def bucket (entry : SpendEntry) : Bucket where
  tokensIn := entry.tokensIn
  tokensOut := entry.tokensOut
  costUsd := entry.costUsd
  requestCount := entry.requestCount

def key (axis : Axis) (entry : SpendEntry) : Option BucketKey :=
  (entry.target axis).map fun targetId => ⟨entry.date, entry.orgId, entry.tenantId, targetId⟩

end SpendEntry

def groupByTenant (entries : List SpendEntry) : List (Uuid × List SpendEntry) :=
  (groups SpendEntry.tenantId entries).entries

/-- `bucket_entries`, for one of the axes. -/
def bucketEntries (axis : Axis) (entries : List SpendEntry) : OrderedDict BucketKey Bucket :=
  totals (SpendEntry.key axis) SpendEntry.bucket entries

/-- A row of a `daily_spend_*` table. -/
structure Row where
  key : BucketKey
  total : Bucket
  deriving DecidableEq

/-- `Numeric(20, 8)` keeps eight decimals, half away from zero. -/
def roundCost (cost : ℚ) : ℚ :=
  if 0 ≤ cost then (⌊cost * 10 ^ 8 + 1 / 2⌋ : ℚ) / 10 ^ 8
  else -((⌊-cost * 10 ^ 8 + 1 / 2⌋ : ℚ) / 10 ^ 8)

def Bucket.stored (bucket : Bucket) : Bucket :=
  { bucket with costUsd := roundCost bucket.costUsd }

/-- The rows conflict on `(org_id, date, target)`; a null organization conflicts with
none. -/
def Row.conflicts (row other : Row) : Bool :=
  row.key.orgId ≠ none ∧ other.key.orgId = row.key.orgId ∧ other.key.date = row.key.date ∧
    other.key.targetId = row.key.targetId

/-- `ON CONFLICT … DO UPDATE` of one row. -/
def upsertRow (rows : List Row) (row : Row) : List Row :=
  match rows with
  | [] => [row]
  | other :: rows =>
      if row.conflicts other then { other with total := other.total + row.total } :: rows
      else other :: upsertRow rows row

def upsertAxis (rows : List Row) (buckets : OrderedDict BucketKey Bucket) : List Row :=
  buckets.entries.foldl (fun rows entry => upsertRow rows ⟨entry.1, entry.2.stored⟩) rows

/-- What `flush_tenant` commits. -/
def flushTenant (tables : Axis → List Row) (entries : List SpendEntry) : Axis → List Row :=
  fun axis => upsertAxis (tables axis) (bucketEntries axis entries)

def names (date : ℕ) (orgId : Option Uuid) (targetId : Uuid) (key : BucketKey) : Bool :=
  key.date = date ∧ key.orgId = orgId ∧ key.targetId = targetId

def stored (rows : List Row) (date : ℕ) (orgId : Option Uuid) (targetId : Uuid) : Bucket :=
  ((rows.filter fun row => names date orgId targetId row.key).map Row.total).sum

def spent (axis : Axis) (entries : List SpendEntry) (date : ℕ) (orgId : Option Uuid)
    (targetId : Uuid) : Bucket :=
  ((entries.filter fun entry => (entry.key axis).any (names date orgId targetId)).map
    SpendEntry.bucket).sum

section Stored

variable {date : ℕ} {orgId : Option Uuid} {targetId : Uuid}

theorem stored_cons (row : Row) (rows : List Row) :
    stored (row :: rows) date orgId targetId =
      (if names date orgId targetId row.key then row.total else 0) +
        stored rows date orgId targetId := by
  by_cases named : names date orgId targetId row.key <;> simp [stored, named]

theorem names_of_conflicts {row other : Row} (conflict : row.conflicts other) :
    names date orgId targetId other.key = names date orgId targetId row.key := by
  rw [Row.conflicts, decide_eq_true_eq] at conflict
  obtain ⟨_, sameOrg, sameDate, sameTarget⟩ := conflict
  rw [names, names, sameOrg, sameDate, sameTarget]

theorem stored_upsertRow (rows : List Row) (row : Row) :
    stored (upsertRow rows row) date orgId targetId =
      stored rows date orgId targetId +
        if names date orgId targetId row.key then row.total else 0 := by
  induction rows with
  | nil =>
      rw [upsertRow, stored_cons]
      exact add_comm _ _
  | cons other rows ih =>
      rw [upsertRow]
      split
      · rename_i conflict
        rw [stored_cons, stored_cons, ← names_of_conflicts conflict]
        by_cases named : names date orgId targetId other.key
        · simp only [named, if_true, add_right_comm]
        · simp [named]
      · rw [stored_cons, stored_cons, ih, add_assoc]

theorem stored_upsertAxis (rows : List Row) {buckets : OrderedDict BucketKey Bucket}
    (exactly : ∀ entry ∈ buckets.entries, entry.2.stored = entry.2) :
    stored (upsertAxis rows buckets) date orgId targetId =
      stored rows date orgId targetId + sumWhere (names date orgId targetId) buckets.entries := by
  rw [upsertAxis]
  generalize buckets.entries = entries at exactly
  induction entries generalizing rows with
  | nil => simp [sumWhere]
  | cons entry entries ih =>
      rw [List.foldl_cons, ih _ fun other member => exactly other (List.mem_cons_of_mem _ member),
        stored_upsertRow, sumWhere_cons, exactly entry List.mem_cons_self, add_assoc]

end Stored

/-- The cost has at most eight decimals. -/
def Representable (cost : ℚ) : Prop :=
  ∃ units : ℤ, cost = units / 10 ^ 8

theorem roundCost_of_representable {cost : ℚ} (representable : Representable cost) :
    roundCost cost = cost := by
  obtain ⟨units, rfl⟩ := representable
  have floor_half : ∀ number : ℤ, ⌊(number : ℚ) + 1 / 2⌋ = number := by
    intro number
    rw [Int.floor_intCast_add]
    norm_num
  rw [roundCost]
  split
  · rw [div_mul_cancel₀ _ (by norm_num), floor_half]
  · have negated : -((units : ℚ) / 10 ^ 8) * 10 ^ 8 = ((-units : ℤ) : ℚ) := by
      push_cast
      field_simp
    rw [negated, floor_half]
    push_cast
    field_simp

theorem representable_zero : Representable 0 :=
  ⟨0, by simp⟩

theorem Representable.add {first second : ℚ} (firstRep : Representable first)
    (secondRep : Representable second) : Representable (first + second) := by
  obtain ⟨units, rfl⟩ := firstRep
  obtain ⟨others, rfl⟩ := secondRep
  refine ⟨units + others, ?_⟩
  push_cast
  rw [add_div]

def Bucket.Exact (bucket : Bucket) : Prop :=
  Representable bucket.costUsd

theorem Bucket.Exact.stored_eq {bucket : Bucket} (exactly : bucket.Exact) :
    bucket.stored = bucket := by
  rw [Bucket.stored, roundCost_of_representable exactly]

theorem Bucket.exact_zero : (0 : Bucket).Exact :=
  representable_zero

theorem Bucket.Exact.add {first second : Bucket} (firstExact : first.Exact)
    (secondExact : second.Exact) : (first + second).Exact :=
  Representable.add firstExact secondExact

theorem stored_flushTenant (tables : Axis → List Row) {entries : List SpendEntry}
    (representable : ∀ entry ∈ entries, Representable entry.costUsd) (axis : Axis) (date : ℕ)
    (orgId : Option Uuid) (targetId : Uuid) :
    stored (flushTenant tables entries axis) date orgId targetId =
      stored (tables axis) date orgId targetId + spent axis entries date orgId targetId := by
  have buckets : ∀ entry ∈ (bucketEntries axis entries).entries, entry.2.Exact :=
    forall_totals Bucket.exact_zero (fun _ _ first second => first.add second)
      (SpendEntry.key axis) SpendEntry.bucket representable
  rw [flushTenant, stored_upsertAxis _ fun entry member => (buckets entry member).stored_eq,
    bucketEntries, sumWhere_totals]
  rfl

theorem spent_append (axis : Axis) (first second : List SpendEntry) (date : ℕ)
    (orgId : Option Uuid) (targetId : Uuid) :
    spent axis (first ++ second) date orgId targetId =
      spent axis first date orgId targetId + spent axis second date orgId targetId := by
  simp [spent]

end NaturalMold.Spend

import Mathlib.Data.List.Nodup
import Mathlib.Data.Prod.Lex
import Mathlib.Logic.Relation
import Mathlib.Order.WithBot

/-! # Lock tables -/

namespace NaturalMold.LockTables

/-- A relation whose steps raise a rank, where another step follows, has no cycle. -/
theorem not_transGen_self {Node Rank : Type*} [Preorder Rank] {related : Node → Node → Prop}
    (rank : Node → Rank)
    (raises : ∀ first second third, related first second → related second third →
      rank first < rank second) (node : Node) : ¬ Relation.TransGen related node node := by
  have chain : ∀ first last, Relation.TransGen related first last →
      ∀ next, related last next → rank first < rank last := by
    intro first last path
    induction path with
    | single step => exact fun next follows => raises _ _ next step follows
    | tail path step ih =>
        exact fun next follows => (ih _ step).trans (raises _ _ next step follows)
  intro cycle
  obtain ⟨next, step, _⟩ := Relation.TransGen.head'_iff.mp cycle
  exact lt_irrefl _ (chain node node cycle next step)

/-- A lock, granted or waited for. -/
structure Lock (Txn Key Mode : Type*) where
  owner : Txn
  key : Key
  mode : Mode
  deriving DecidableEq

structure LockTable (Txn Key Mode : Type*) where
  held : List (Lock Txn Key Mode)
  waiting : List (Lock Txn Key Mode)

namespace LockTable

variable {Txn Key Mode : Type*}

def empty : LockTable Txn Key Mode where
  held := []
  waiting := []

def request (table : LockTable Txn Key Mode) (lock : Lock Txn Key Mode) :
    LockTable Txn Key Mode :=
  { table with waiting := table.waiting ++ [lock] }

section Relation

variable (conflicts : Mode → Mode → Bool)

/-- No other transaction holds a conflicting lock. -/
def Free (table : LockTable Txn Key Mode) (lock : Lock Txn Key Mode) : Prop :=
  ∀ other ∈ table.held, other.key = lock.key → other.owner ≠ lock.owner →
    conflicts lock.mode other.mode = false

instance [DecidableEq Txn] [DecidableEq Key] (table : LockTable Txn Key Mode)
    (lock : Lock Txn Key Mode) : Decidable (table.Free conflicts lock) :=
  inferInstanceAs (Decidable (∀ other ∈ table.held, _))

/-- `other` stands in the way of `lock`. -/
def Blocks (lock other : Lock Txn Key Mode) : Prop :=
  other.owner ≠ lock.owner ∧ other.key = lock.key ∧ conflicts lock.mode other.mode

/-- One transaction waits for another: it holds a conflicting lock, or it asked for one
before. -/
def WaitsFor (table : LockTable Txn Key Mode) (first second : Txn) : Prop :=
  ∃ earlier lock later, table.waiting = earlier ++ lock :: later ∧ lock.owner = first ∧
    ∃ other ∈ table.held ++ earlier, Blocks conflicts lock other ∧ other.owner = second

end Relation

variable [DecidableEq Txn] [DecidableEq Key] [DecidableEq Mode]

def grant (table : LockTable Txn Key Mode) (lock : Lock Txn Key Mode) : LockTable Txn Key Mode where
  held := lock :: table.held
  waiting := table.waiting.erase lock

/-- What the end of a transaction leaves. -/
def release (table : LockTable Txn Key Mode) (owner : Txn) : LockTable Txn Key Mode where
  held := table.held.filter fun lock => lock.owner ≠ owner
  waiting := table.waiting.filter fun lock => lock.owner ≠ owner

def place {Rank : Type*} (rank : Key → Rank) (table : LockTable Txn Key Mode)
    (lock : Lock Txn Key Mode) : Rank ×ₗ ℕᵒᵈ :=
  toLex (rank lock.key, OrderDual.toDual (table.waiting.idxOf lock))

def placeOf {Rank : Type*} (rank : Key → Rank) (table : LockTable Txn Key Mode) (owner : Txn) :
    WithBot (Rank ×ₗ ℕᵒᵈ) :=
  (table.waiting.find? fun lock => lock.owner = owner).map (table.place rank)

theorem placeOf_eq {Rank : Type*} {rank : Key → Rank} {table : LockTable Txn Key Mode}
    (once : (table.waiting.map Lock.owner).Nodup) {lock : Lock Txn Key Mode}
    (waits : lock ∈ table.waiting) : table.placeOf rank lock.owner = table.place rank lock := by
  have found : table.waiting.find? (fun other => other.owner = lock.owner) = some lock := by
    obtain ⟨other, found⟩ : ∃ other,
        table.waiting.find? (fun other => other.owner = lock.owner) = some other := by
      apply Option.isSome_iff_exists.mp
      rw [List.find?_isSome]
      exact ⟨lock, waits, by simp⟩
    have same : other.owner = lock.owner := by simpa using List.find?_some found
    rw [found, List.inj_on_of_nodup_map once (List.mem_of_find?_eq_some found) waits same]
  rw [placeOf, found]
  rfl

/-- Locking in ascending order excludes cycles: a transaction that is waited for waits
only for a key above those it holds, unless nobody is in the way of its lock. -/
theorem acyclic {Rank : Type*} [PartialOrder Rank] {conflicts : Mode → Mode → Bool}
    {table : LockTable Txn Key Mode} (rank : Key → Rank) (exempt : Key → Prop)
    (once : (table.waiting.map Lock.owner).Nodup)
    (ascending : ∀ lock ∈ table.waiting, ¬ exempt lock.key → ∀ other ∈ table.held,
      other.owner = lock.owner → ¬ exempt other.key → rank other.key < rank lock.key)
    (undisturbed : ∀ lock ∈ table.waiting, exempt lock.key →
      ∀ other ∈ table.held ++ table.waiting, ¬ Blocks conflicts lock other)
    (txn : Txn) : ¬ Relation.TransGen (table.WaitsFor conflicts) txn txn := by
  have unexempt : ∀ first second, table.WaitsFor conflicts first second →
      ∀ lock ∈ table.waiting, lock.owner = first → ¬ exempt lock.key := by
    rintro first second ⟨earlier, lock, later, waiting, rfl, other, member, blocks, _⟩ same sameMem
      owner exempted
    have sameEq : same = lock :=
      List.inj_on_of_nodup_map once sameMem (by rw [waiting]; simp) owner
    subst sameEq
    refine undisturbed same sameMem exempted other ?_ blocks
    rcases List.mem_append.mp member with held | asked
    · exact List.mem_append_left _ held
    · exact List.mem_append_right _ (by rw [waiting]; exact List.mem_append_left _ asked)
  apply not_transGen_self (table.placeOf rank)
  intro first second third waits next
  obtain ⟨earlier, lock, later, waiting, rfl, other, member, blocks, rfl⟩ := id waits
  have lockMem : lock ∈ table.waiting := by rw [waiting]; simp
  obtain ⟨_, after, _, afterWaiting, afterOwner, _⟩ := id next
  have afterMem : after ∈ table.waiting := by rw [afterWaiting]; simp
  have lockOrdered := unexempt _ _ waits lock lockMem rfl
  have afterOrdered := unexempt _ _ next after afterMem afterOwner
  rw [placeOf_eq once lockMem, ← afterOwner, placeOf_eq once afterMem, WithBot.coe_lt_coe]
  rcases List.mem_append.mp member with held | asked
  · have below := ascending after afterMem afterOrdered other held afterOwner.symm
      (by rw [blocks.2.1]; exact lockOrdered)
    rw [blocks.2.1] at below
    exact Prod.Lex.toLex_lt_toLex.mpr (Or.inl below)
  · have otherMem : other ∈ table.waiting := by rw [waiting]; exact List.mem_append_left _ asked
    have sameEq : after = other := List.inj_on_of_nodup_map once afterMem otherMem afterOwner
    subst sameEq
    refine Prod.Lex.toLex_lt_toLex.mpr (Or.inr ⟨by rw [blocks.2.1], ?_⟩)
    have nodup := List.Nodup.of_map Lock.owner once
    rw [OrderDual.toDual_lt_toDual, waiting, List.idxOf_append_of_mem asked,
      List.idxOf_append_of_notMem, List.idxOf_cons_self]
    · exact Nat.lt_add_right _ (List.idxOf_lt_length_iff.mpr asked)
    · rw [waiting] at nodup
      intro twice
      exact (List.disjoint_of_nodup_append nodup) twice List.mem_cons_self

end LockTable

end NaturalMold.LockTables

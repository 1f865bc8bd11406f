import Mathlib.Data.List.Basic

/-!
# Operations that are sent again

A cell of a store takes operations one after another: an insertion leaves a present value alone, an
assignment and an erasure do not look at what is there. A sender that loses track of what it has
sent starts over at an earlier operation.
-/

namespace NaturalMold.RetriedOperations

variable {Value : Type*}

inductive Operation (Value : Type*)
  | insert (value : Value)
  | assign (value : Value)
  | erase
  deriving DecidableEq

namespace Operation

def apply : Operation Value → Option Value → Option Value
  | insert value, cell => some (cell.getD value)
  | assign value, _ => some value
  | erase, _ => none

/-- Whether the result does not depend on what the cell holds. -/
def overwrites : Operation Value → Bool
  | insert _ => false
  | assign _ | erase => true

theorem apply_eq_of_overwrites {operation : Operation Value} (blind : operation.overwrites)
    (first second : Option Value) : operation.apply first = operation.apply second := by
  cases operation with
  | insert value => simp [overwrites] at blind
  | assign value => rfl
  | erase => rfl

theorem apply_some_of_not_overwrites {operation : Operation Value}
    (insertion : operation.overwrites = false) (value : Value) :
    operation.apply (some value) = some value := by
  cases operation with
  | insert other => rfl
  | assign other => simp [overwrites] at insertion
  | erase => simp [overwrites] at insertion

theorem apply_isSome_of_not_overwrites {operation : Operation Value}
    (insertion : operation.overwrites = false) (cell : Option Value) :
    ∃ value, operation.apply cell = some value := by
  cases operation with
  | insert other => exact ⟨cell.getD other, rfl⟩
  | assign other => simp [overwrites] at insertion
  | erase => simp [overwrites] at insertion

end Operation

def applyAll (operations : List (Operation Value)) (cell : Option Value) : Option Value :=
  operations.foldl (fun cell operation => operation.apply cell) cell

@[simp]
theorem applyAll_nil (cell : Option Value) : applyAll [] cell = cell :=
  rfl

@[simp]
theorem applyAll_cons (operation : Operation Value) (operations : List (Operation Value))
    (cell : Option Value) :
    applyAll (operation :: operations) cell = applyAll operations (operation.apply cell) :=
  rfl

theorem applyAll_append (first second : List (Operation Value)) (cell : Option Value) :
    applyAll (first ++ second) cell = applyAll second (applyAll first cell) :=
  List.foldl_append

theorem applyAll_toList_insert (value : Option Value) (stored : Value) :
    applyAll (value.map Operation.insert).toList (some stored) = some stored := by
  cases value <;> rfl

/-- One overwriting operation makes the result independent of the cell. -/
theorem applyAll_eq_of_overwrites {operations : List (Operation Value)}
    {blind : Operation Value} (member : blind ∈ operations) (overwrites : blind.overwrites)
    (first second : Option Value) : applyAll operations first = applyAll operations second := by
  induction operations generalizing first second with
  | nil => simp at member
  | cons operation operations ih =>
      rw [applyAll_cons, applyAll_cons]
      rcases List.mem_cons.mp member with rfl | later
      · rw [Operation.apply_eq_of_overwrites overwrites first second]
      · exact ih later _ _

/-- Insertions leave a present value alone. -/
theorem applyAll_some_of_insertions {operations : List (Operation Value)}
    (insertions : ∀ operation ∈ operations, operation.overwrites = false) (value : Value) :
    applyAll operations (some value) = some value := by
  induction operations with
  | nil => rfl
  | cons operation operations ih =>
      rw [applyAll_cons,
        Operation.apply_some_of_not_overwrites (insertions operation List.mem_cons_self)]
      exact ih fun later member => insertions later (List.mem_cons_of_mem _ member)

/-- The next operation may be sent although the pending ones will be sent again
from their start: they still lead to the same result. -/
theorem applyAll_resend {pending rest : List (Operation Value)} {next : Operation Value}
    {cell result : Option Value} (resent : applyAll pending cell = result)
    (forward : applyAll (next :: rest) cell = result)
    (listed : ∀ operation ∈ next :: rest, operation ∈ pending) :
    applyAll pending (next.apply cell) = result := by
  by_cases someBlind : ∃ blind ∈ pending, blind.overwrites
  · obtain ⟨blind, member, overwrites⟩ := someBlind
    rw [applyAll_eq_of_overwrites member overwrites _ cell]
    exact resent
  · -- all pending operations are insertions, so the value that is now present stays
    have insertions : ∀ operation ∈ pending, operation.overwrites = false := by
      intro operation member
      by_contra blind
      exact someBlind ⟨operation, member, by simpa using blind⟩
    obtain ⟨value, present⟩ := Operation.apply_isSome_of_not_overwrites
      (insertions next (listed next List.mem_cons_self)) cell
    have stays : applyAll rest (some value) = some value :=
      applyAll_some_of_insertions (fun operation member =>
        insertions operation (listed operation (List.mem_cons_of_mem _ member))) value
    rw [applyAll_cons, present, stays] at forward
    rw [present, applyAll_some_of_insertions insertions value]
    exact forward

end NaturalMold.RetriedOperations

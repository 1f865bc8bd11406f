import Mathlib.Data.List.Basic
import Mathlib.Data.List.Nodup

/-!
# Greedy selections

A list is gone through in its order and a rule says, for the items selected before, why the next
one is left out.
-/

namespace NaturalMold.GreedySelections

variable {Item Reason : Type*} {why : List Item → Item → Option Reason}

/-- The items that a rule does not leave out, after those selected so far. -/
def select (why : List Item → Item → Option Reason) : List Item → List Item → List Item
  | chosen, [] => chosen
  | chosen, item :: items =>
      match why chosen item with
      | none => select why (chosen ++ [item]) items
      | some _ => select why chosen items

theorem select_cons_of_eq_none {chosen : List Item} {item : Item} (items : List Item)
    (admitted : why chosen item = none) :
    select why chosen (item :: items) = select why (chosen ++ [item]) items := by
  rw [select, admitted]

theorem select_cons_of_eq_some {chosen : List Item} {item : Item} {reason : Reason}
    (items : List Item) (leftOut : why chosen item = some reason) :
    select why chosen (item :: items) = select why chosen items := by
  rw [select, leftOut]

theorem select_append (chosen first second : List Item) :
    select why chosen (first ++ second) = select why (select why chosen first) second := by
  induction first generalizing chosen with
  | nil => rfl
  | cons item items ih =>
      cases admitted : why chosen item with
      | none =>
          rw [List.cons_append, select_cons_of_eq_none _ admitted,
            select_cons_of_eq_none _ admitted, ih]
      | some reason =>
          rw [List.cons_append, select_cons_of_eq_some _ admitted,
            select_cons_of_eq_some _ admitted, ih]

variable (why) in
theorem exists_select_eq (chosen items : List Item) :
    ∃ later : List Item, later.Sublist items ∧ select why chosen items = chosen ++ later := by
  induction items generalizing chosen with
  | nil => exact ⟨[], List.Sublist.slnil, (List.append_nil chosen).symm⟩
  | cons item items ih =>
      cases admitted : why chosen item with
      | none =>
          obtain ⟨later, sublist, selected⟩ := ih (chosen ++ [item])
          use item :: later
          constructor
          · exact sublist.cons_cons item
          · rw [select_cons_of_eq_none _ admitted, selected, List.append_assoc]
            rfl
      | some reason =>
          obtain ⟨later, sublist, selected⟩ := ih chosen
          use later
          constructor
          · exact sublist.cons item
          · rw [select_cons_of_eq_some _ admitted, selected]

variable (why) in
theorem sublist_select (items : List Item) : (select why [] items).Sublist items := by
  obtain ⟨later, sublist, selected⟩ := exists_select_eq why [] items
  rwa [selected]

theorem take_succ_eq {items : List Item} {index : ℕ} {item : Item}
    (found : items[index]? = some item) :
    items.take (index + 1) = items.take index ++ [item] := by
  rw [List.take_add_one, found]
  rfl

section Deciding

variable [DecidableEq Item]

/-- A selection of the items that the rule does not leave out. -/
structure IsGreedy (why : List Item → Item → Option Reason) (items chosen : List Item) : Prop where
  sublist : chosen.Sublist items
  mem_iff : ∀ (index : ℕ) (item : Item), items[index]? = some item →
    (item ∈ chosen ↔ why ((items.take index).filter (· ∈ chosen)) item = none)

theorem filter_mem_of_sublist {items chosen : List Item} (sublist : chosen.Sublist items)
    (nodup : items.Nodup) : items.filter (· ∈ chosen) = chosen := by
  induction sublist with
  | slnil => rfl
  | cons item sublist ih =>
      obtain ⟨fresh, nodup⟩ := List.nodup_cons.mp nodup
      rw [List.filter_cons_of_neg, ih nodup]
      simpa using fun listed => fresh (sublist.subset listed)
  | cons_cons item sublist ih =>
      obtain ⟨fresh, nodup⟩ := List.nodup_cons.mp nodup
      rw [List.filter_cons_of_pos (by simp)]
      congr 1
      conv_rhs => rw [← ih nodup]
      apply List.filter_congr
      intro other listed
      have different : other ≠ item := fun same => fresh (same ▸ listed)
      simp [different]

theorem select_take {items : List Item} (nodup : items.Nodup) (index : ℕ) :
    select why [] (items.take index) =
      (items.take index).filter (· ∈ select why [] items) := by
  obtain ⟨later, sublist, selected⟩ :=
    exists_select_eq why (select why [] (items.take index)) (items.drop index)
  rw [← select_append, List.take_append_drop] at selected
  have apart : (items.take index).Disjoint (items.drop index) := by
    apply List.disjoint_of_nodup_append
    rwa [List.take_append_drop]
  rw [selected]
  conv_lhs =>
    rw [← filter_mem_of_sublist (sublist_select why (items.take index))
      (nodup.sublist (List.take_sublist index items))]
  apply List.filter_congr
  intro item listed
  have notLater : item ∉ later := fun member => apart listed (sublist.subset member)
  simp [notLater]

theorem isGreedy_select {items : List Item} (nodup : items.Nodup) :
    IsGreedy why items (select why [] items) where
  sublist := sublist_select why items
  mem_iff := by
    intro index item found
    have upTo := take_succ_eq found
    have nodupUpTo : (items.take index ++ [item]).Nodup := by
      rw [← upTo]
      exact nodup.sublist (List.take_sublist _ items)
    have fresh : item ∉ select why [] (items.take index) := by
      intro member
      have earlier := (sublist_select why (items.take index)).subset member
      exact (List.disjoint_of_nodup_append nodupUpTo) earlier (List.mem_singleton_self item)
    have local_iff : item ∈ select why [] items ↔
        item ∈ select why [] (items.take (index + 1)) := by
      rw [select_take nodup (index + 1), List.mem_filter, upTo]
      simp
    rw [local_iff, upTo, select_append, ← select_take nodup]
    cases admitted : why (select why [] (items.take index)) item with
    | none =>
        rw [select_cons_of_eq_none _ admitted]
        simp [select]
    | some reason =>
        rw [select_cons_of_eq_some _ admitted]
        simpa [select] using fresh

theorem IsGreedy.select_take {items chosen : List Item} (greedy : IsGreedy why items chosen)
    (index : ℕ) : select why [] (items.take index) = (items.take index).filter (· ∈ chosen) := by
  induction index with
  | zero => rfl
  | succ index ih =>
      cases found : items[index]? with
      | none =>
          have past := List.getElem?_eq_none_iff.mp found
          rw [List.take_of_length_le past] at ih
          rwa [List.take_of_length_le (by omega)]
      | some item =>
          rw [take_succ_eq found, select_append, ih, List.filter_append]
          have taken := greedy.mem_iff index item found
          cases admitted : why ((items.take index).filter (· ∈ chosen)) item with
          | none =>
              rw [select_cons_of_eq_none _ admitted]
              simp [select, taken.mpr admitted]
          | some reason =>
              rw [select_cons_of_eq_some _ admitted]
              rw [admitted] at taken
              simp [select, show item ∉ chosen from fun member => by cases taken.mp member]

theorem isGreedy_iff {items chosen : List Item} (nodup : items.Nodup) :
    IsGreedy why items chosen ↔ chosen = select why [] items := by
  constructor
  · intro greedy
    have whole := greedy.select_take items.length
    rw [List.take_length, filter_mem_of_sublist greedy.sublist nodup] at whole
    exact whole.symm
  · rintro rfl
    exact isGreedy_select nodup

end Deciding

end NaturalMold.GreedySelections

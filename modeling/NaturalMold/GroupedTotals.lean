import Mathlib.Algebra.BigOperators.Group.List.Basic
import NaturalMold.OrderedDictionaries

/-! # Items grouped in a dictionary -/

namespace NaturalMold.GroupedTotals

open OrderedDict (setEntry lookupEntry)

variable {Item Key : Type*} [DecidableEq Key]

section Totals

variable {Total : Type*} [AddCommMonoid Total]

def sumWhere (test : Key → Bool) (entries : List (Key × Total)) : Total :=
  ((entries.filter fun entry => test entry.1).map Prod.snd).sum

omit [DecidableEq Key] in
theorem sumWhere_cons (test : Key → Bool) (entry : Key × Total) (entries : List (Key × Total)) :
    sumWhere test (entry :: entries) =
      (if test entry.1 then entry.2 else 0) + sumWhere test entries := by
  by_cases passes : test entry.1 <;> simp [sumWhere, passes]

/-- `dict.setdefault(key, zero)` and then `+=`. -/
def add (dict : OrderedDict Key Total) (key : Key) (value : Total) : OrderedDict Key Total :=
  dict.set key ((dict.get? key).getD 0 + value)

theorem sumWhere_setEntry (test : Key → Bool) (key : Key) (value : Total)
    (entries : List (Key × Total)) :
    sumWhere test (setEntry key ((lookupEntry key entries).getD 0 + value) entries) =
      sumWhere test entries + if test key then value else 0 := by
  induction entries with
  | nil =>
      rw [setEntry, lookupEntry, sumWhere_cons, Option.getD_none, zero_add]
      exact add_comm _ _
  | cons entry entries ih =>
      by_cases same : entry.1 = key
      · rw [setEntry, if_pos same, lookupEntry, if_pos same, sumWhere_cons, sumWhere_cons, same,
          Option.getD_some]
        by_cases passes : test key
        · rw [if_pos passes, if_pos passes, if_pos passes, add_right_comm]
        · rw [if_neg passes, if_neg passes, if_neg passes, add_zero]
      · rw [setEntry, if_neg same, lookupEntry, if_neg same, sumWhere_cons, sumWhere_cons, ih,
          add_assoc]

theorem sumWhere_add (test : Key → Bool) (dict : OrderedDict Key Total) (key : Key)
    (value : Total) :
    sumWhere test (add dict key value).entries =
      sumWhere test dict.entries + if test key then value else 0 :=
  sumWhere_setEntry test key value dict.entries

def totals (keyOf : Item → Option Key) (value : Item → Total) (items : List Item) :
    OrderedDict Key Total :=
  items.foldl (fun dict item =>
    match keyOf item with
    | none => dict
    | some key => add dict key (value item)) OrderedDict.empty

theorem totals_append_singleton (keyOf : Item → Option Key) (value : Item → Total)
    (items : List Item) (item : Item) :
    totals keyOf value (items ++ [item]) =
      match keyOf item with
      | none => totals keyOf value items
      | some key => add (totals keyOf value items) key (value item) := by
  rw [totals, List.foldl_append]
  rfl

theorem sumWhere_totals (test : Key → Bool) (keyOf : Item → Option Key) (value : Item → Total)
    (items : List Item) :
    sumWhere test (totals keyOf value items).entries =
      ((items.filter fun item => (keyOf item).any test).map value).sum := by
  induction items using List.reverseRecOn with
  | nil => rfl
  | append_singleton items item ih =>
      rw [totals_append_singleton, List.filter_append, List.map_append, List.sum_append, ← ih]
      cases keyEq : keyOf item with
      | none => simp [keyEq]
      | some key => by_cases passes : test key <;> simp [sumWhere_add, keyEq, passes]

theorem forall_totals {holds : Total → Prop} (zero : holds 0)
    (added : ∀ first second, holds first → holds second → holds (first + second))
    (keyOf : Item → Option Key) (value : Item → Total) {items : List Item}
    (values : ∀ item ∈ items, holds (value item)) :
    ∀ entry ∈ (totals keyOf value items).entries, holds entry.2 := by
  induction items using List.reverseRecOn with
  | nil => simp [totals]
  | append_singleton items item ih =>
      have before := ih fun other member => values other (List.mem_append_left _ member)
      rw [totals_append_singleton]
      cases keyEq : keyOf item with
      | none => exact before
      | some key =>
          intro entry member
          rcases OrderedDict.mem_setEntry member with rfl | old
          · apply added
            · cases found : (totals keyOf value items).get? key with
              | none => exact zero
              | some total => exact before (key, total) (OrderedDict.get?_eq_some_iff.mp found)
            · exact values item (by simp)
          · exact before entry old

end Totals

/-- `groups.setdefault(key, []).append(item)` for every item. -/
def groups (keyOf : Item → Key) (items : List Item) : OrderedDict Key (List Item) :=
  items.foldl (fun dict item =>
    dict.set (keyOf item) ((dict.get? (keyOf item)).getD [] ++ [item])) OrderedDict.empty

theorem groups_append_singleton (keyOf : Item → Key) (items : List Item) (item : Item) :
    groups keyOf (items ++ [item]) = (groups keyOf items).set (keyOf item)
      (((groups keyOf items).get? (keyOf item)).getD [] ++ [item]) := by
  rw [groups, List.foldl_append]
  rfl

theorem flatMap_setEntry_perm (key : Key) (item : Item) (entries : List (Key × List Item)) :
    ((setEntry key ((lookupEntry key entries).getD [] ++ [item]) entries).flatMap Prod.snd).Perm
      (entries.flatMap Prod.snd ++ [item]) := by
  induction entries with
  | nil => simp [setEntry, lookupEntry]
  | cons entry entries ih =>
      by_cases same : entry.1 = key
      · rw [setEntry, if_pos same, lookupEntry, if_pos same, List.flatMap_cons, List.flatMap_cons,
          Option.getD_some, List.append_assoc, List.append_assoc]
        exact List.perm_append_comm.append_left entry.2
      · rw [setEntry, if_neg same, lookupEntry, if_neg same, List.flatMap_cons, List.flatMap_cons,
          List.append_assoc]
        exact ih.append_left entry.2

theorem flatMap_groups_perm (keyOf : Item → Key) (items : List Item) :
    ((groups keyOf items).entries.flatMap Prod.snd).Perm items := by
  induction items using List.reverseRecOn with
  | nil => rfl
  | append_singleton items item ih =>
      rw [groups_append_singleton]
      exact (flatMap_setEntry_perm _ item _).trans (ih.append_right [item])

theorem keyOf_mem_groups (keyOf : Item → Key) (items : List Item) :
    ∀ group ∈ (groups keyOf items).entries, ∀ item ∈ group.2, keyOf item = group.1 := by
  induction items using List.reverseRecOn with
  | nil => simp [groups]
  | append_singleton items item ih =>
      rw [groups_append_singleton]
      intro group member other otherMem
      rcases OrderedDict.mem_setEntry member with rfl | old
      · rcases List.mem_append.mp otherMem with earlier | last
        · cases found : (groups keyOf items).get? (keyOf item) with
          | none => simp [found] at earlier
          | some members =>
              rw [found, Option.getD_some] at earlier
              exact ih _ (OrderedDict.get?_eq_some_iff.mp found) other earlier
        · rw [List.mem_singleton.mp last]
      · exact ih group old other otherMem

end NaturalMold.GroupedTotals

import Mathlib.Data.List.Pairwise
import Mathlib.Data.List.Sort

/-!
# First occurrences

The items of a list without those whose key has occurred before.
-/

namespace NaturalMold.FirstOccurrences

section

variable {Item Key : Type*} [DecidableEq Key] (key : Item → Key)

def distinctOn : List Item → List Item
  | [] => []
  | item :: items => item :: (distinctOn items).filter fun other => key other ≠ key item

variable {key}

theorem filter_distinctOn (test : Key → Bool) (items : List Item) :
    (distinctOn key items).filter (fun item => test (key item)) =
      distinctOn key (items.filter fun item => test (key item)) := by
  induction items with
  | nil => rfl
  | cons item items ih =>
      rw [distinctOn]
      cases passes : test (key item) with
      | true =>
          rw [List.filter_cons_of_pos (by exact passes), List.filter_cons_of_pos (by exact passes),
            distinctOn, ← ih, List.filter_filter, List.filter_filter]
          simp only [Bool.and_comm]
      | false =>
          rw [List.filter_cons_of_neg (by simp [passes]), List.filter_cons_of_neg (by simp [passes]),
            ← ih, List.filter_filter]
          apply List.filter_congr
          intro other _
          by_cases same : key other = key item
          · rw [same, passes, Bool.false_and]
          · simp [same]

theorem mem_map_distinctOn {items : List Item} {wanted : Key} :
    wanted ∈ (distinctOn key items).map key ↔ wanted ∈ items.map key := by
  induction items with
  | nil => rfl
  | cons item items ih =>
      have rest : wanted ∈ ((distinctOn key items).filter fun other => key other ≠ key item).map
          key ↔ wanted ∈ items.map key ∧ wanted ≠ key item := by
        rw [← ih]
        simp only [List.mem_map, List.mem_filter, decide_eq_true_eq]
        constructor
        · rintro ⟨other, ⟨member, different⟩, rfl⟩
          exact ⟨⟨other, member, rfl⟩, different⟩
        · rintro ⟨⟨other, member, rfl⟩, different⟩
          exact ⟨other, ⟨member, different⟩, rfl⟩
      rw [distinctOn, List.map_cons, List.mem_cons, List.map_cons, List.mem_cons, rest]
      tauto

theorem distinctOn_append (first second : List Item) :
    distinctOn key (first ++ second) =
      distinctOn key first ++
        (distinctOn key second).filter fun item => key item ∉ first.map key := by
  induction first with
  | nil => simp [distinctOn]
  | cons item first ih =>
      rw [List.cons_append, distinctOn, ih, distinctOn, List.filter_append, List.cons_append,
        List.filter_filter]
      congr 2
      apply List.filter_congr
      intro other _
      simp [not_or]

/-- Items whose keys have occurred may be left out before. -/
theorem distinctOn_append_filter {first second : List Item} (known : Key → Bool)
    (exact : ∀ wanted, known wanted ↔ wanted ∈ first.map key) :
    distinctOn key (first ++ second.filter fun item => !known (key item)) =
      distinctOn key (first ++ second) := by
  have same : (fun item => decide (key item ∉ first.map key)) =
      fun item => !known (key item) := by
    funext item
    rw [Bool.eq_iff_iff, decide_eq_true_eq, ← exact]
    simp
  rw [distinctOn_append, distinctOn_append, same,
    ← filter_distinctOn (fun wanted => !known wanted), List.filter_filter]
  simp

theorem distinctOn_congr_append {first other : List Item} (second : List Item)
    (same : distinctOn key first = distinctOn key other) :
    distinctOn key (first ++ second) = distinctOn key (other ++ second) := by
  have keys : ∀ wanted, wanted ∈ first.map key ↔ wanted ∈ other.map key := by
    intro wanted
    rw [← mem_map_distinctOn, same, mem_map_distinctOn]
  rw [distinctOn_append, distinctOn_append, same]
  simp only [keys]

theorem distinctOn_sublist (items : List Item) : (distinctOn key items).Sublist items := by
  induction items with
  | nil => exact List.Sublist.refl []
  | cons item items ih =>
      rw [distinctOn]
      exact (List.filter_sublist.trans ih).cons_cons item

theorem mem_of_mem_distinctOn {items : List Item} {item : Item}
    (member : item ∈ distinctOn key items) : item ∈ items :=
  (distinctOn_sublist items).subset member

theorem distinctOn_nodup {items : List Item} (nodup : items.Nodup) :
    (distinctOn key items).Nodup :=
  nodup.sublist (distinctOn_sublist items)

theorem pairwise_distinctOn (key : Item → Key) (items : List Item) :
    (distinctOn key items).Pairwise fun first second => key first ≠ key second := by
  induction items with
  | nil => exact List.Pairwise.nil
  | cons item items ih =>
      rw [distinctOn, List.pairwise_cons]
      refine ⟨?_, ih.sublist List.filter_sublist⟩
      intro other member
      rw [List.mem_filter, decide_eq_true_eq] at member
      exact fun same => member.2 same.symm

theorem distinctOn_eq_self {items : List Item}
    (distinct : items.Pairwise fun first second => key first ≠ key second) :
    distinctOn key items = items := by
  induction distinct with
  | nil => rfl
  | cons apart _ ih =>
      rw [distinctOn, ih, List.filter_eq_self.mpr]
      intro other member
      simpa using (apart other member).symm

end

section Ordered

variable {Row : Type*} {before : Row → Row → Prop}

theorem eq_of_perm_of_strict {rows strict : List Row} (perm : rows.Perm strict)
    (sorted : rows.Pairwise before)
    (ordered : strict.Pairwise fun first second => before first second ∧ ¬ before second first) :
    rows = strict := by
  have unique : ∀ first ∈ strict, ∀ second ∈ strict,
      before first second → before second first → first = second := by
    intro first firstMember second secondMember
    refine List.Pairwise.forall_of_forall_of_flip
      (R := fun first second => before first second → before second first → first = second)
      ?_ ?_ ?_ firstMember secondMember
    · exact fun _ _ _ _ => rfl
    · exact ordered.imp fun strict _ back => absurd back strict.2
    · exact ordered.imp fun strict back _ => absurd back strict.2
  refine List.Perm.eq_of_pairwise ?_ sorted (ordered.imp And.left) perm
  exact fun first second firstMember secondMember =>
    unique first (perm.mem_iff.mp firstMember) second secondMember

variable (before) [DecidableRel before] [Std.Total before] [IsTrans Row before]

/-- Rows that pass a test and are strictly in order come in that order from a
query over all rows. -/
theorem filter_insertionSort_eq {rows : List Row} {test : Row → Bool}
    (ordered : (rows.filter test).Pairwise fun first second =>
      before first second ∧ ¬ before second first) :
    (rows.insertionSort before).filter test = rows.filter test := by
  apply eq_of_perm_of_strict ((List.perm_insertionSort before rows).filter test) _ ordered
  exact (List.pairwise_insertionSort before rows).sublist List.filter_sublist

theorem insertionSort_eq_of_perm {rows strict : List Row} (perm : rows.Perm strict)
    (ordered : strict.Pairwise fun first second => before first second ∧ ¬ before second first) :
    rows.insertionSort before = strict :=
  eq_of_perm_of_strict ((List.perm_insertionSort before rows).trans perm)
    (List.pairwise_insertionSort before rows) ordered

end Ordered

end NaturalMold.FirstOccurrences

import Mathlib.Data.List.Sort

/-! # Stable sorting -/

namespace NaturalMold.StableOrders

variable {Item : Type*} {before within : Item → Item → Prop} [DecidableRel before]

theorem filter_orderedInsert [IsTrans Item before] (test : Item → Bool) (item : Item)
    {items : List Item} (sorted : items.Pairwise before) :
    (items.orderedInsert before item).filter test =
      if test item then (items.filter test).orderedInsert before item else items.filter test := by
  induction items with
  | nil => by_cases kept : test item <;> simp [kept]
  | cons head items ih =>
      obtain ⟨first, rest⟩ := List.pairwise_cons.mp sorted
      by_cases earlier : before item head
      · rw [List.orderedInsert_cons_of_le before items earlier]
        by_cases kept : test item
        · rw [if_pos kept, List.filter_cons_of_pos kept]
          cases shown : (head :: items).filter test with
          | nil => rfl
          | cons next later =>
              have member : next ∈ head :: items :=
                List.mem_of_mem_filter (shown ▸ List.mem_cons_self)
              have ahead : before item next := by
                rcases List.mem_cons.mp member with rfl | behind
                · exact earlier
                · exact IsTrans.trans _ _ _ earlier (first next behind)
              rw [List.orderedInsert_cons_of_le before later ahead]
        · rw [if_neg kept, List.filter_cons_of_neg kept]
      · rw [List.orderedInsert_of_not_le before items earlier]
        by_cases kept : test head
        · rw [List.filter_cons_of_pos kept, ih rest, List.filter_cons_of_pos kept]
          split
          · rw [List.orderedInsert_of_not_le before _ earlier]
          · rfl
        · rw [List.filter_cons_of_neg kept, ih rest, List.filter_cons_of_neg kept]

variable [Std.Total before] [IsTrans Item before]

theorem filter_insertionSort (test : Item → Bool) (items : List Item) :
    (items.insertionSort before).filter test = (items.filter test).insertionSort before := by
  induction items with
  | nil => rfl
  | cons item items ih =>
      rw [List.insertionSort_cons,
        filter_orderedInsert test item (List.pairwise_insertionSort before items), ih]
      by_cases kept : test item
      · rw [if_pos kept, List.filter_cons_of_pos kept, List.insertionSort_cons]
      · rw [if_neg kept, List.filter_cons_of_neg kept]

theorem pairwise_orderedInsert_stable {item : Item} {items : List Item}
    (sorted : items.Pairwise fun first second =>
      before first second ∧ (before second first → within first second))
    (ahead : ∀ other ∈ items, within item other) :
    (items.orderedInsert before item).Pairwise fun first second =>
      before first second ∧ (before second first → within first second) := by
  induction items with
  | nil => exact List.pairwise_singleton _ item
  | cons head items ih =>
      obtain ⟨first, rest⟩ := List.pairwise_cons.mp sorted
      by_cases earlier : before item head
      · rw [List.orderedInsert_cons_of_le before items earlier, List.pairwise_cons]
        refine ⟨fun other member => ⟨?_, fun _ => ahead other member⟩, sorted⟩
        rcases List.mem_cons.mp member with rfl | behind
        · exact earlier
        · exact IsTrans.trans _ _ _ earlier (first other behind).1
      · rw [List.orderedInsert_of_not_le before items earlier, List.pairwise_cons]
        refine ⟨fun other member => ?_,
          ih rest fun other member => ahead other (List.mem_cons_of_mem _ member)⟩
        rcases (List.mem_orderedInsert before).mp member with rfl | behind
        · exact ⟨(Std.Total.total other head).resolve_left earlier,
            fun back => absurd back earlier⟩
        · exact first other behind

theorem pairwise_insertionSort_stable {items : List Item} (ordered : items.Pairwise within) :
    (items.insertionSort before).Pairwise fun first second =>
      before first second ∧ (before second first → within first second) := by
  induction items with
  | nil => exact List.Pairwise.nil
  | cons item items ih =>
      obtain ⟨ahead, rest⟩ := List.pairwise_cons.mp ordered
      rw [List.insertionSort_cons]
      apply pairwise_orderedInsert_stable (ih rest)
      intro other member
      exact ahead other ((List.mem_insertionSort before).mp member)

/-- The places of the items of a list without repetitions rise along it. -/
theorem pairwise_idxOf_lt [DecidableEq Item] {items : List Item} (distinct : items.Nodup) :
    items.Pairwise fun first second => items.idxOf first < items.idxOf second := by
  rw [List.pairwise_iff_getElem]
  intro i j _ _ lt
  rwa [distinct.idxOf_getElem, distinct.idxOf_getElem]

end NaturalMold.StableOrders

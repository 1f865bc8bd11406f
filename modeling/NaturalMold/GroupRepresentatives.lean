import NaturalMold.FirstOccurrences
import Mathlib.Data.List.Perm.Subperm

/-!
# Representatives of groups

The items of a list with the same key form a group, which its first item represents.
-/

namespace NaturalMold.FirstOccurrences

section

variable {Item Key : Type*} [DecidableEq Key] {key : Item → Key}

theorem eq_of_mem_distinctOn {items : List Item} {first second : Item}
    (firstMember : first ∈ distinctOn key items) (secondMember : second ∈ distinctOn key items)
    (same : key first = key second) : first = second := by
  induction items with
  | nil => exact absurd firstMember List.not_mem_nil
  | cons item items ih =>
      rw [distinctOn, List.mem_cons, List.mem_filter, decide_eq_true_eq] at firstMember secondMember
      rcases firstMember with rfl | ⟨firstMember, firstOther⟩
      · rcases secondMember with rfl | ⟨_, secondOther⟩
        · rfl
        · exact absurd same.symm secondOther
      · rcases secondMember with rfl | ⟨secondMember, _⟩
        · exact absurd same firstOther
        · exact ih firstMember secondMember

theorem exists_first (key : Item → Key) {items : List Item} {item : Item} (member : item ∈ items) :
    ∃ first ∈ distinctOn key items, key first = key item ∧
      (first = item ∨ [first, item].Sublist items) := by
  induction items with
  | nil => exact absurd member List.not_mem_nil
  | cons head items ih =>
      rw [distinctOn]
      by_cases same : key item = key head
      · refine ⟨head, List.mem_cons_self, same.symm, ?_⟩
        rcases List.mem_cons.mp member with rfl | later
        · exact Or.inl rfl
        · exact Or.inr ((List.singleton_sublist.mpr later).cons_cons head)
      · have later : item ∈ items := by
          rcases List.mem_cons.mp member with rfl | later
          · exact absurd rfl same
          · exact later
        obtain ⟨first, firstMember, keyEq, place⟩ := ih later
        refine ⟨first, List.mem_cons_of_mem head (List.mem_filter.mpr ⟨firstMember, ?_⟩), keyEq,
          place.imp_right fun before => before.cons head⟩
        simpa [keyEq] using same

theorem foldl_unseen (key : Item → Key)
    [∀ (found : List Item) item, Decidable (key item ∈ found.map key)] (items found : List Item) :
    items.foldl (fun found item =>
        if key item ∈ found.map key then found else found ++ [item]) found =
      found ++ (distinctOn key items).filter fun item => key item ∉ found.map key := by
  induction items generalizing found with
  | nil => simp [distinctOn]
  | cons item items ih =>
      rw [List.foldl_cons, ih, distinctOn]
      by_cases seen : key item ∈ found.map key
      · rw [if_pos seen, List.filter_cons_of_neg (by simpa using seen), List.filter_filter]
        congr 1
        apply List.filter_congr
        intro other _
        have apart : key other ∉ found.map key → key other ≠ key item :=
          fun fresh same => fresh (same ▸ seen)
        rw [Bool.eq_iff_iff, Bool.and_eq_true, decide_eq_true_eq, decide_eq_true_eq]
        exact ⟨fun fresh => ⟨fresh, apart fresh⟩, And.left⟩
      · rw [if_neg seen, List.filter_cons_of_pos (by simpa using seen), List.append_assoc,
          List.singleton_append, List.filter_filter]
        congr 2
        apply List.filter_congr
        intro other _
        rw [Bool.eq_iff_iff]
        simp only [Bool.and_eq_true, decide_eq_true_eq, List.map_append, List.map_singleton,
          List.mem_append, List.mem_singleton, not_or]

end

section

variable {Item Key : Type*} [DecidableEq Item] [DecidableEq Key] (key : Item → Key)

def representatives (chosen : Item) (items : List Item) : List Item :=
  items.filter fun item =>
    item = chosen ∨ (item ∈ distinctOn key items ∧ key item ≠ key chosen)

/-- No first item of another group stands between the chosen item and an earlier
item of its group. -/
def Settled (items : List Item) (chosen : Item) : Prop :=
  ∀ early other, [early, other, chosen].Sublist items → key early = key chosen →
    other ∈ distinctOn key items → key other = key chosen

variable {key} {items : List Item} {chosen : Item}

theorem mem_representatives {item : Item} :
    item ∈ representatives key chosen items ↔
      item ∈ items ∧ (item = chosen ∨ (item ∈ distinctOn key items ∧ key item ≠ key chosen)) := by
  rw [representatives, List.mem_filter, decide_eq_true_eq]

/-- The chosen item before the first items of the other groups, up to order. -/
theorem representatives_perm (nodup : items.Nodup) (member : chosen ∈ items) :
    (chosen :: (distinctOn key items).filter fun item => key item ≠ key chosen).Perm
      (representatives key chosen items) := by
  rw [List.perm_ext_iff_of_nodup]
  · intro item
    rw [List.mem_cons, List.mem_filter, decide_eq_true_eq, mem_representatives]
    constructor
    · rintro (rfl | first)
      · exact ⟨member, Or.inl rfl⟩
      · exact ⟨mem_of_mem_distinctOn first.1, Or.inr first⟩
    · exact And.right
  · rw [List.nodup_cons, List.mem_filter, decide_eq_true_eq]
    exact ⟨fun own => own.2 rfl, (distinctOn_nodup nodup).filter _⟩
  · exact nodup.filter _

theorem filter_mem_distinctOn (nodup : items.Nodup) :
    (items.filter fun item => item ∈ distinctOn key items) = distinctOn key items := by
  have ordered : ((distinctOn key items).filter fun item => item ∈ distinctOn key items).Sublist
      (items.filter fun item => item ∈ distinctOn key items) := (distinctOn_sublist items).filter _
  rw [List.filter_eq_self.mpr (by simp)] at ordered
  have short : (items.filter fun item => item ∈ distinctOn key items).length ≤
      (distinctOn key items).length := by
    apply List.Subperm.length_le
    apply List.subperm_of_subset (nodup.filter _)
    intro item member
    simpa using (List.mem_filter.mp member).2
  exact (ordered.eq_of_length_le short).symm

theorem representatives_eq_distinctOn (nodup : items.Nodup)
    (first : chosen ∈ distinctOn key items) :
    representatives key chosen items = distinctOn key items := by
  rw [← filter_mem_distinctOn nodup]
  apply List.filter_congr
  intro item _
  rw [decide_eq_decide]
  constructor
  · rintro (rfl | other)
    · exact first
    · exact other.1
  · intro own
    by_cases same : key item = key chosen
    · exact Or.inl (eq_of_mem_distinctOn own first same)
    · exact Or.inr ⟨own, same⟩

omit [DecidableEq Item] in
/-- An item before another one of its group keeps it from being the first. -/
theorem notMem_distinctOn_of_before (nodup : items.Nodup) {early late : Item}
    (before : [early, late].Sublist items) (same : key early = key late) :
    late ∉ distinctOn key items := by
  obtain ⟨front, back, rfl, earlyMember, lateSublist⟩ := List.cons_sublist_iff.mp before
  have lateMember : late ∈ back := List.singleton_sublist.mp lateSublist
  have apart := (List.nodup_append.mp nodup).2.2
  rw [distinctOn_append, List.mem_append, List.mem_filter, not_or]
  constructor
  · exact fun member => apart late (mem_of_mem_distinctOn member) late lateMember rfl
  · rintro ⟨_, fresh⟩
    rw [decide_eq_true_eq, ← same] at fresh
    exact fresh (List.mem_map_of_mem earlyMember)

omit [DecidableEq Item] in
theorem settled_of_mem_distinctOn (nodup : items.Nodup) (first : chosen ∈ distinctOn key items) :
    Settled key items chosen := by
  intro early other between same _
  have before : [early, chosen].Sublist [early, other, chosen] := by simp
  exact absurd first (notMem_distinctOn_of_before nodup (before.trans between) same)

omit [DecidableEq Item] in
private theorem others_of_nodup {newer middle older : List Item} {first : Item}
    (nodup : (newer ++ [first] ++ middle ++ [chosen] ++ older).Nodup) :
    ∀ item ∈ newer ++ middle ++ older, item ≠ first ∧ item ≠ chosen := by
  simp only [List.nodup_append, List.mem_append, List.mem_singleton] at nodup ⊢
  grind

omit [DecidableEq Item] in
private theorem between_sublist {newer middle older : List Item} {first item : Item}
    (member : item ∈ middle) :
    [first, item, chosen].Sublist (newer ++ [first] ++ middle ++ [chosen] ++ older) := by
  have parts : ([] ++ [first] ++ [item] ++ [chosen] ++ []).Sublist
      (newer ++ [first] ++ middle ++ [chosen] ++ older) := by
    apply List.Sublist.append _ (List.nil_sublist older)
    apply List.Sublist.append _ (List.Sublist.refl [chosen])
    apply List.Sublist.append _ (List.singleton_sublist.mpr member)
    exact List.Sublist.append (List.nil_sublist newer) (List.Sublist.refl [first])
  exact parts

theorem exists_first_in_place (nodup : items.Nodup) (member : chosen ∈ items)
    (settled : Settled key items chosen) :
    ∃ first ∈ distinctOn key items, key first = key chosen ∧
      distinctOn key items = (representatives key chosen items).map fun item =>
        if item = chosen then first else item := by
  obtain ⟨first, firstMember, keyEq, rfl | before⟩ := exists_first key member
  · refine ⟨first, firstMember, rfl, ?_⟩
    rw [representatives_eq_distinctOn nodup firstMember]
    have unchanged : (fun item => if item = first then first else item) = id := by
      funext item
      by_cases same : item = first
      · rw [if_pos same, same, id]
      · rw [if_neg same, id]
    rw [unchanged, List.map_id]
  · refine ⟨first, firstMember, keyEq, ?_⟩
    have late := notMem_distinctOn_of_before nodup before keyEq
    have apart : first ≠ chosen := fun same => late (same ▸ firstMember)
    obtain ⟨front, back, itemsEq, frontMember, backSublist⟩ := List.cons_sublist_iff.mp before
    obtain ⟨newer, middle, rfl⟩ := List.append_of_mem frontMember
    obtain ⟨middle', older, rfl⟩ := List.append_of_mem (List.singleton_sublist.mp backSublist)
    -- Away from the two exchanged items the two lists keep the same items.
    have kept : ∀ segment : List Item, (∀ item ∈ segment, item ≠ first ∧ item ≠ chosen) →
        (segment.filter fun item => item = chosen ∨
            (item ∈ distinctOn key items ∧ key item ≠ key chosen)).map
            (fun item => if item = chosen then first else item) =
          segment.filter fun item => item ∈ distinctOn key items := by
      intro segment others
      rw [List.map_congr_left (g := id), List.map_id]
      · apply List.filter_congr
        intro item itemMember
        rw [decide_eq_decide]
        constructor
        · rintro (same | own)
          · exact absurd same (others item itemMember).2
          · exact own.1
        · intro own
          refine Or.inr ⟨own, fun same => (others item itemMember).1 ?_⟩
          exact eq_of_mem_distinctOn own firstMember (same.trans keyEq.symm)
      · intro item itemMember
        rw [if_neg (others item (List.mem_of_mem_filter itemMember)).2, id]
    replace itemsEq : items = newer ++ [first] ++ (middle ++ middle') ++ [chosen] ++ older := by
      simpa using itemsEq
    have parts : ∀ test : Item → Bool, items.filter test =
        newer.filter test ++ [first].filter test ++ (middle ++ middle').filter test ++
          [chosen].filter test ++ older.filter test := by
      intro test
      rw [itemsEq]
      simp only [List.filter_append]
    have others := others_of_nodup (itemsEq ▸ nodup)
    have middleNone :
      (middle ++ middle').filter (fun item => item ∈ distinctOn key items) = [] := by
      rw [List.filter_eq_nil_iff]
      intro item itemMember own
      rw [decide_eq_true_eq] at own
      have between : [first, item, chosen].Sublist items := by
        rw [itemsEq]
        exact between_sublist itemMember
      apply (others item (List.mem_append_left _ (List.mem_append_right _ itemMember))).1
      apply eq_of_mem_distinctOn own firstMember
      rw [settled first item between keyEq own, keyEq]
    calc distinctOn key items
        = items.filter fun item => item ∈ distinctOn key items := (filter_mem_distinctOn nodup).symm
      _ = newer.filter (fun item => item ∈ distinctOn key items) ++ [first] ++ [] ++ [] ++
            older.filter fun item => item ∈ distinctOn key items := by
          rw [parts, middleNone, List.filter_singleton, List.filter_singleton]
          simp [firstMember, late]
      _ = _ := by
          rw [representatives, parts, List.map_append, List.map_append, List.map_append,
            List.map_append, kept newer fun item own => others item (by simp [own]),
            kept older fun item own => others item (by simp [own]),
            kept (middle ++ middle') fun item own =>
              others item (List.mem_append_left _ (List.mem_append_right _ own)),
            middleNone]
          simp [keyEq, apart]

/-- Where the list is not settled, a first item of another group has one item less
after it among the first items than among the representatives. -/
theorem one_less_behind (nodup : items.Nodup) {early other : Item}
    (between : [early, other, chosen].Sublist items) (same : key early = key chosen)
    (first : other ∈ distinctOn key items) (different : key other ≠ key chosen) :
    ∃ newer older newer' older',
      representatives key chosen items = newer ++ other :: older ∧
        distinctOn key items = newer' ++ other :: older' ∧ older.length = older'.length + 1 := by
  obtain ⟨front, back, itemsEq, earlyMember, restSublist⟩ := List.cons_sublist_iff.mp between
  obtain ⟨middle, rest, rfl, otherMember, chosenSublist⟩ := List.cons_sublist_iff.mp restSublist
  obtain ⟨before, after, rfl⟩ := List.append_of_mem otherMember
  obtain ⟨newer, older, rfl⟩ := List.append_of_mem (List.singleton_sublist.mp chosenSublist)
  replace itemsEq : items = (front ++ before) ++ [other] ++
      ((after ++ newer) ++ [chosen] ++ older) := by
    simpa using itemsEq
  have parts : ∀ test : Item → Bool, items.filter test =
      (front ++ before).filter test ++ [other].filter test ++
        ((after ++ newer).filter test ++ [chosen].filter test ++ older.filter test) := by
    intro test
    rw [itemsEq]
    simp only [List.filter_append]
  have notFirst : ∀ item ∈ (after ++ newer) ++ [chosen] ++ older,
      key item = key chosen → item ∉ distinctOn key items := by
    intro item behind itemSame
    apply notMem_distinctOn_of_before nodup _ (same.trans itemSame.symm)
    rw [itemsEq]
    have ordered : ([early] ++ [item]).Sublist
        ((front ++ before) ++ [other] ++ ((after ++ newer) ++ [chosen] ++ older)) :=
      List.Sublist.append (List.singleton_sublist.mpr (by simp [earlyMember]))
        (List.singleton_sublist.mpr behind)
    exact ordered
  have chosenLate : chosen ∉ distinctOn key items := notFirst chosen (by simp) rfl
  -- Behind the other group's first item only the chosen item is told apart.
  have kept : ∀ segment : List Item, segment ⊆ (after ++ newer) ++ [chosen] ++ older →
      chosen ∉ segment →
      (segment.filter fun item => item = chosen ∨
          (item ∈ distinctOn key items ∧ key item ≠ key chosen)) =
        segment.filter fun item => item ∈ distinctOn key items := by
    intro segment within absent
    apply List.filter_congr
    intro item itemMember
    rw [decide_eq_decide]
    constructor
    · rintro (rfl | own)
      · exact absurd itemMember absent
      · exact own.1
    · exact fun own => Or.inr ⟨own, fun itemSame => notFirst item (within itemMember) itemSame own⟩
  have absent : chosen ∉ after ++ newer ∧ chosen ∉ older := by
    have apart := itemsEq ▸ nodup
    simp only [List.nodup_append, List.mem_append, List.mem_singleton] at apart ⊢
    grind
  have middleWithin : after ++ newer ⊆ (after ++ newer) ++ [chosen] ++ older := by
    rw [List.append_assoc]
    exact List.subset_append_left _ _
  have chosenList : representatives key chosen items =
      (front ++ before).filter (fun item =>
          item = chosen ∨ (item ∈ distinctOn key items ∧ key item ≠ key chosen)) ++
        other :: ((after ++ newer).filter (fun item => item ∈ distinctOn key items) ++
          chosen :: older.filter fun item => item ∈ distinctOn key items) := by
    rw [representatives, parts, kept (after ++ newer) middleWithin absent.1,
      kept older (List.subset_append_right _ _) absent.2]
    simp [first, different]
  have firstList : distinctOn key items =
      (front ++ before).filter (fun item => item ∈ distinctOn key items) ++
        other :: ((after ++ newer).filter (fun item => item ∈ distinctOn key items) ++
          older.filter fun item => item ∈ distinctOn key items) := by
    conv_lhs => rw [← filter_mem_distinctOn nodup, parts]
    simp [first, chosenLate]
  refine ⟨_, _, _, _, chosenList, firstList, ?_⟩
  rw [List.length_append, List.length_append, List.length_cons]
  omega

end

end NaturalMold.FirstOccurrences

import NaturalMold.RetriedOperations
import Mathlib.Data.List.Dedup

/-!
# Differences of keyed values

A list of items is coherent when items with one key are equal: it then is a finite map, whose value
at a key is the first item with that key.
-/

namespace NaturalMold.KeyedDifferences

open RetriedOperations

variable {Item Key : Type*}

def Coherent (key : Item → Key) (items : List Item) : Prop :=
  ∀ first ∈ items, ∀ second ∈ items, key first = key second → first = second

section Lookup

variable [DecidableEq Key] {key : Item → Key}

def lookup (key : Item → Key) (items : List Item) (wanted : Key) : Option Item :=
  items.find? fun item => key item = wanted

theorem lookup_isSome_iff {items : List Item} {wanted : Key} :
    (lookup key items wanted).isSome ↔ ∃ item ∈ items, key item = wanted := by
  rw [lookup, List.find?_isSome]
  simp

theorem mem_of_lookup {items : List Item} {wanted : Key} {item : Item}
    (found : lookup key items wanted = some item) : item ∈ items ∧ key item = wanted := by
  refine ⟨List.mem_of_find?_eq_some found, ?_⟩
  simpa using List.find?_some found

theorem lookup_eq_some_iff {items : List Item} (coherent : Coherent key items) {wanted : Key}
    {item : Item} : lookup key items wanted = some item ↔ item ∈ items ∧ key item = wanted := by
  constructor
  · intro found
    exact mem_of_lookup found
  · rintro ⟨member, rfl⟩
    obtain ⟨other, found⟩ : ∃ other, lookup key items (key item) = some other := by
      apply Option.isSome_iff_exists.mp
      exact lookup_isSome_iff.mpr ⟨item, member, rfl⟩
    have ⟨otherMember, same⟩ := mem_of_lookup found
    rw [found, coherent other otherMember item member same]

/-- The value at a key depends only on which items with that key occur. -/
theorem lookup_congr {first second : List Item} (firstCoherent : Coherent key first)
    (secondCoherent : Coherent key second) {wanted : Key}
    (same : ∀ item, key item = wanted → (item ∈ first ↔ item ∈ second)) :
    lookup key first wanted = lookup key second wanted := by
  apply Option.ext
  intro item
  rw [lookup_eq_some_iff firstCoherent, lookup_eq_some_iff secondCoherent]
  constructor
  · rintro ⟨member, keyEq⟩
    exact ⟨(same item keyEq).mp member, keyEq⟩
  · rintro ⟨member, keyEq⟩
    exact ⟨(same item keyEq).mpr member, keyEq⟩

end Lookup

theorem Coherent.subset {key : Item → Key} {items part : List Item}
    (coherent : Coherent key items) (inside : ∀ item ∈ part, item ∈ items) :
    Coherent key part :=
  fun first firstMember second secondMember =>
    coherent first (inside first firstMember) second (inside second secondMember)

section PerKey

variable {Op : Type*} [DecidableEq Key] {opKey : Op → Key} {choose : Key → Option Op}

theorem filter_filterMap_of_notMem (own : ∀ key op, choose key = some op → opKey op = key)
    {keys : List Key} {wanted : Key} (absent : wanted ∉ keys) :
    ((keys.filterMap choose).filter fun op => opKey op = wanted) = [] := by
  rw [List.filter_eq_nil_iff]
  intro op member
  obtain ⟨key, keyMember, chosen⟩ := List.mem_filterMap.mp member
  rw [decide_eq_true_eq, own key op chosen]
  exact fun same => absent (same ▸ keyMember)

theorem filter_filterMap_of_mem (own : ∀ key op, choose key = some op → opKey op = key)
    {keys : List Key} (distinct : keys.Nodup) {wanted : Key} (member : wanted ∈ keys) :
    ((keys.filterMap choose).filter fun op => opKey op = wanted) = (choose wanted).toList := by
  induction keys with
  | nil => cases member
  | cons key keys ih =>
      rw [List.nodup_cons] at distinct
      rw [List.filterMap_cons]
      rcases List.mem_cons.mp member with rfl | later
      · cases chosen : choose wanted with
        | none => exact filter_filterMap_of_notMem own distinct.1
        | some op =>
            rw [List.filter_cons_of_pos (by simp [own wanted op chosen]),
              filter_filterMap_of_notMem own distinct.1]
            rfl
      · have different : key ≠ wanted := fun same => distinct.1 (same ▸ later)
        cases chosen : choose key with
        | none => exact ih distinct.2 later
        | some op =>
            rw [List.filter_cons_of_neg (by simp [own key op chosen, different])]
            exact ih distinct.2 later

end PerKey

section Between

variable {Value : Type*} [DecidableEq Value]

def between : Option Value → Option Value → Option (Operation Value)
  | none, none => none
  | none, some desired => some (.insert desired)
  | some previous, some desired => if desired = previous then none else some (.assign desired)
  | some _, none => some .erase

theorem applyAll_between (previous desired : Option Value) :
    applyAll (between previous desired).toList previous = desired := by
  cases previous with
  | none => cases desired <;> rfl
  | some previous =>
      cases desired with
      | none => rfl
      | some desired =>
          rw [between]
          split
          case isTrue same => simp [same]
          case isFalse => rfl

end Between

end NaturalMold.KeyedDifferences

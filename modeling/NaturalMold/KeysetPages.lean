import Mathlib.Data.List.Sort
import Mathlib.Order.Defs.LinearOrder

/-!
# Pages of keys

A set of keys is read page by page, each page in order and after the last key of the page before.
-/

namespace NaturalMold.KeysetPages

variable {Key : Type*} [LinearOrder Key]

def IsAfter (cursor : Option Key) (key : Key) : Prop :=
  ∀ last ∈ cursor, last < key

instance (cursor : Option Key) (key : Key) : Decidable (IsAfter cursor key) :=
  match cursor with
  | none => isTrue fun _ member => by cases member
  | some last => decidable_of_iff (last < key) (by simp [IsAfter])

def Passed (cursor : Option Key) (key : Key) : Prop :=
  ∃ last ∈ cursor, key ≤ last

def page (limit : ℕ) (cursor : Option Key) (keys : List Key) : List Key :=
  ((keys.filter fun key => IsAfter cursor key).insertionSort (· ≤ ·)).take limit

structure Covers (limit : ℕ) (cursor : Option Key) (page : List Key) (key : Key) : Prop where
  after : IsAfter cursor key
  within : page.length < limit ∨ Passed page.getLast? key

def remaining (cursor : Option Key) (keys : List Key) : ℕ :=
  keys.countP fun key => IsAfter cursor key

variable {limit : ℕ} {cursor : Option Key} {keys : List Key} {key : Key}

theorem passed_or_isAfter (cursor : Option Key) (key : Key) :
    Passed cursor key ∨ IsAfter cursor key := by
  cases cursor with
  | none => exact Or.inr fun _ member => by cases member
  | some last =>
      rcases le_or_gt key last with passed | after
      · exact Or.inl ⟨last, rfl, passed⟩
      · exact Or.inr fun other member => by rwa [← Option.some.inj member]

theorem Passed.trans_isAfter (passed : Passed cursor key) {later : Key}
    (after : IsAfter cursor later) : key < later := by
  obtain ⟨last, isLast, before⟩ := passed
  exact lt_of_le_of_lt before (after last isLast)

theorem mem_of_mem_page (member : key ∈ page limit cursor keys) :
    key ∈ keys ∧ IsAfter cursor key := by
  have listed := (List.mem_insertionSort (· ≤ ·)).mp (List.mem_of_mem_take member)
  simpa using listed

theorem sorted_pairwise_lt (cursor : Option Key) (nodup : keys.Nodup) :
    ((keys.filter fun key => IsAfter cursor key).insertionSort (· ≤ ·)).Pairwise (· < ·) := by
  have distinct : ((keys.filter fun key => IsAfter cursor key).insertionSort (· ≤ ·)).Nodup :=
    (List.perm_insertionSort (· ≤ ·) _).nodup_iff.mpr (nodup.filter _)
  have ordered := List.pairwise_insertionSort (· ≤ ·) (keys.filter fun key => IsAfter cursor key)
  exact ordered.imp₂ (fun _ _ below different => lt_of_le_of_ne below different) distinct

theorem page_pairwise (nodup : keys.Nodup) : (page limit cursor keys).Pairwise (· < ·) :=
  (sorted_pairwise_lt cursor nodup).sublist (List.take_sublist _ _)

theorem passed_getLast {items : List Key} (ordered : items.Pairwise (· < ·))
    (member : key ∈ items) : Passed items.getLast? key := by
  rcases List.eq_nil_or_concat items with rfl | ⟨before, last, rfl⟩
  · cases member
  · use last
    rw [List.concat_eq_append] at member ordered ⊢
    constructor
    · simp
    · rcases List.mem_append.mp member with early | final
      · exact le_of_lt ((List.pairwise_append.mp ordered).2.2 key early last (by simp))
      · exact le_of_eq (List.mem_singleton.mp final)

theorem mem_page_of_covers (nodup : keys.Nodup) (listed : key ∈ keys)
    (covers : Covers limit cursor (page limit cursor keys) key) :
    key ∈ page limit cursor keys := by
  have sorted : key ∈ (keys.filter fun key => IsAfter cursor key).insertionSort (· ≤ ·) := by
    apply (List.mem_insertionSort (· ≤ ·)).mpr
    simpa using ⟨listed, covers.after⟩
  have ordered := sorted_pairwise_lt cursor nodup
  rcases covers.within with short | ⟨last, isLast, before⟩
  · rw [page, List.length_take] at short
    rwa [page, List.take_of_length_le (by omega)]
  · rw [← List.take_append_drop limit ((keys.filter fun key => IsAfter cursor key).insertionSort
      (· ≤ ·))] at sorted ordered
    rcases List.mem_append.mp sorted with early | late
    · exact early
    · have isListed := List.mem_of_getLast? isLast
      have after := (List.pairwise_append.mp ordered).2.2 last isListed key late
      exact absurd before (not_le_of_gt after)

theorem exists_getLast_of_full (positive : 0 < limit)
    (full : ¬ (page limit cursor keys).length < limit) :
    ∃ last, (page limit cursor keys).getLast? = some last ∧ last ∈ keys ∧ IsAfter cursor last := by
  have nonempty : page limit cursor keys ≠ [] := by
    intro empty
    rw [empty] at full
    exact full positive
  refine ⟨_, List.getLast?_eq_some_getLast nonempty, ?_⟩
  exact mem_of_mem_page (List.getLast_mem nonempty)

theorem remaining_lt {last : Key} (listed : last ∈ keys) (after : IsAfter cursor last) :
    remaining (some last) keys < remaining cursor keys := by
  have fewer : ∀ others : List Key, remaining (some last) others ≤ remaining cursor others := by
    intro others
    apply List.countP_mono_left
    intro key _ beyond
    rw [decide_eq_true_eq] at beyond ⊢
    intro other isLast
    exact lt_trans (after other isLast) (beyond last rfl)
  have gone : ¬ IsAfter (some last) last := fun beyond => lt_irrefl last (beyond last rfl)
  obtain ⟨before, behind, rfl⟩ := List.append_of_mem listed
  have first := fewer before
  have second := fewer behind
  rw [remaining, remaining] at first second ⊢
  rw [List.countP_append, List.countP_append, List.countP_cons, List.countP_cons,
    decide_eq_false gone, decide_eq_true after]
  simp
  omega

end NaturalMold.KeysetPages

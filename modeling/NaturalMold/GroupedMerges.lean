import NaturalMold.OrderedDictionaries

/-!
# Items merged under their keys

A dictionary is filled item by item: the first item of a key starts an entry, and each later one is
merged into it.
-/

namespace NaturalMold.GroupedMerges

variable {Key Item Value Field : Type*}

def mergeAll (start : Item → Value) (merge : Value → Item → Value) : List Item → Option Value
  | [] => none
  | item :: items => some (items.foldl merge (start item))

variable {start : Item → Value} {merge : Value → Item → Value}

theorem mergeAll_concat (items : List Item) (item : Item) :
    mergeAll start merge (items ++ [item]) =
      match mergeAll start merge items with
      | none => some (start item)
      | some value => some (merge value item) := by
  cases items with
  | nil => rfl
  | cons first items => simp [mergeAll]

theorem exists_mergeAll (start : Item → Value) (merge : Value → Item → Value) {items : List Item}
    (nonempty : items ≠ []) : ∃ value, mergeAll start merge items = some value := by
  cases items with
  | nil => exact absurd rfl nonempty
  | cons first items => exact ⟨_, rfl⟩

theorem field_eq_findSome? (field : Value → Option Field) (itemField : Item → Option Field)
    (starts : ∀ item, field (start item) = itemField item)
    (merges : ∀ value item, field (merge value item) = (field value).or (itemField item))
    {items : List Item} {value : Value} (merged : mergeAll start merge items = some value) :
    field value = items.findSome? itemField := by
  induction items using List.reverseRecOn generalizing value with
  | nil => cases merged
  | append_singleton items item ih =>
      rw [mergeAll_concat] at merged
      rw [List.findSome?_append, List.findSome?_singleton]
      cases before : mergeAll start merge items with
      | none =>
          rw [before] at merged
          cases merged
          have none : items = [] := by
            by_contra nonempty
            obtain ⟨value, some⟩ := exists_mergeAll start merge nonempty
            rw [before] at some
            cases some
          rw [none, starts]
          rfl
      | some old =>
          rw [before] at merged
          cases merged
          rw [merges, ih before]

theorem mem_iff_exists_mem (has : Value → Field → Prop) (itemHas : Item → Field → Prop)
    (starts : ∀ item thing, has (start item) thing ↔ itemHas item thing)
    (merges : ∀ value item thing, has (merge value item) thing ↔
      has value thing ∨ itemHas item thing)
    {items : List Item} {value : Value} (merged : mergeAll start merge items = some value)
    (thing : Field) : has value thing ↔ ∃ item ∈ items, itemHas item thing := by
  cases items with
  | nil => cases merged
  | cons first items =>
      cases merged
      have all : ∀ (rest : List Item) (value : Value),
          has (rest.foldl merge value) thing ↔
            has value thing ∨ ∃ item ∈ rest, itemHas item thing := by
        intro rest
        induction rest with
        | nil => simp
        | cons item rest ih =>
            intro value
            rw [List.foldl_cons, ih, merges, or_assoc]
            simp
      rw [all, starts]
      simp

variable [DecidableEq Key]

def mergeInto (start : Item → Value) (merge : Value → Item → Value)
    (dict : OrderedDict Key Value) (pair : Key × Item) : OrderedDict Key Value :=
  dict.set pair.1
    (match dict.get? pair.1 with
    | none => start pair.2
    | some value => merge value pair.2)

def itemsOf (key : Key) (pairs : List (Key × Item)) : List Item :=
  (pairs.filter fun pair => pair.1 = key).map Prod.snd

theorem get?_foldl_mergeInto (pairs : List (Key × Item)) (key : Key) :
    (pairs.foldl (mergeInto start merge) OrderedDict.empty).get? key =
      mergeAll start merge (itemsOf key pairs) := by
  induction pairs using List.reverseRecOn with
  | nil => rfl
  | append_singleton pairs pair ih =>
      rw [List.foldl_append, List.foldl_cons, List.foldl_nil, mergeInto, OrderedDict.get?_set]
      rw [itemsOf, List.filter_append, List.map_append]
      rw [itemsOf] at ih
      by_cases same : pair.1 = key
      · rw [if_pos same.symm, List.filter_singleton, decide_eq_true same, cond_true,
          List.map_singleton, mergeAll_concat, ← ih, same]
        cases (pairs.foldl (mergeInto start merge) OrderedDict.empty).get? key <;> rfl
      · rw [if_neg (Ne.symm same), List.filter_singleton, decide_eq_false same, cond_false,
          List.map_nil, List.append_nil, ih]

theorem mem_itemsOf {key : Key} {pairs : List (Key × Item)} {item : Item} :
    item ∈ itemsOf key pairs ↔ (key, item) ∈ pairs := by
  rw [itemsOf, List.mem_map]
  constructor
  · rintro ⟨⟨other, found⟩, filtered, rfl⟩
    obtain ⟨listed, same⟩ := List.mem_filter.mp filtered
    rw [decide_eq_true_eq] at same
    exact same ▸ listed
  · intro listed
    exact ⟨(key, item), List.mem_filter.mpr ⟨listed, decide_eq_true rfl⟩, rfl⟩

theorem mem_keys_foldl_mergeInto {pairs : List (Key × Item)} {key : Key} :
    key ∈ (pairs.foldl (mergeInto start merge) OrderedDict.empty).keys ↔
      ∃ item, (key, item) ∈ pairs := by
  rw [← OrderedDict.get?_isSome_iff, get?_foldl_mergeInto]
  constructor
  · intro merged
    cases items : itemsOf key pairs with
    | nil =>
        rw [items] at merged
        cases merged
    | cons item rest => exact ⟨item, mem_itemsOf.mp (items ▸ List.mem_cons_self)⟩
  · rintro ⟨item, listed⟩
    obtain ⟨value, merged⟩ := exists_mergeAll start merge
      (List.ne_nil_of_mem (mem_itemsOf.mpr listed))
    rw [merged]
    rfl

end NaturalMold.GroupedMerges

import NaturalMold.OrderedDictionaries

/-! # Nested values -/

namespace NaturalMold

inductive Nested (Key Leaf : Type) where
  | leaf (value : Leaf)
  | list (items : List (Nested Key Leaf))
  | tuple (items : List (Nested Key Leaf))
  | dict (fields : List (Key × Nested Key Leaf))

namespace Nested

variable {Key Leaf : Type}

inductive Step (Key : Type)
  | key (key : Key)
  | index (index : ℕ)
  deriving DecidableEq

inductive Distinct : Nested Key Leaf → Prop
  | leaf (value : Leaf) : Distinct (.leaf value)
  | list {items : List (Nested Key Leaf)} (each : ∀ item ∈ items, Distinct item) :
      Distinct (.list items)
  | tuple {items : List (Nested Key Leaf)} (each : ∀ item ∈ items, Distinct item) :
      Distinct (.tuple items)
  | dict {fields : List (Key × Nested Key Leaf)} (distinct : (fields.map Prod.fst).Nodup)
      (each : ∀ field ∈ fields, Distinct field.2) : Distinct (.dict fields)

/-- What holds of a container whenever it holds of what is in it holds of every value. -/
theorem induction {motive : Nested Key Leaf → Prop} (leaf : ∀ value, motive (.leaf value))
    (list : ∀ items, (∀ item ∈ items, motive item) → motive (.list items))
    (tuple : ∀ items, (∀ item ∈ items, motive item) → motive (.tuple items))
    (dict : ∀ fields, (∀ field ∈ fields, motive field.2) → motive (.dict fields))
    (value : Nested Key Leaf) : motive value := by
  apply @Nested.rec Key Leaf motive (fun items => ∀ item ∈ items, motive item)
    (fun fields => ∀ field ∈ fields, motive field.2) (fun field => motive field.2)
  case leaf => exact leaf
  case list => exact list
  case tuple => exact tuple
  case dict => exact dict
  case nil => exact List.forall_mem_nil _
  case cons => exact fun _ _ first rest => List.forall_mem_cons.mpr ⟨first, rest⟩
  case nil => exact List.forall_mem_nil _
  case cons => exact fun _ _ first rest => List.forall_mem_cons.mpr ⟨first, rest⟩
  case mk => exact fun _ _ value => value

variable {Other : Type}

mutual

def map (change : Leaf → Other) : Nested Key Leaf → Nested Key Other
  | .leaf value => .leaf (change value)
  | .list items => .list (mapItems change items)
  | .tuple items => .tuple (mapItems change items)
  | .dict fields => .dict (mapFields change fields)

def mapItems (change : Leaf → Other) : List (Nested Key Leaf) → List (Nested Key Other)
  | [] => []
  | item :: items => map change item :: mapItems change items

def mapFields (change : Leaf → Other) :
    List (Key × Nested Key Leaf) → List (Key × Nested Key Other)
  | [] => []
  | (key, value) :: fields => (key, map change value) :: mapFields change fields

end

mutual

def leaves : Nested Key Leaf → List Leaf
  | .leaf value => [value]
  | .list items => leavesOfItems items
  | .tuple items => leavesOfItems items
  | .dict fields => leavesOfFields fields

def leavesOfItems : List (Nested Key Leaf) → List Leaf
  | [] => []
  | item :: items => leaves item ++ leavesOfItems items

def leavesOfFields : List (Key × Nested Key Leaf) → List Leaf
  | [] => []
  | (_, value) :: fields => leaves value ++ leavesOfFields fields

end

theorem mapItems_eq_iff {first second : Leaf → Other} {items : List (Nested Key Leaf)}
    (each : ∀ item ∈ items, map first item = map second item ↔
      ∀ leaf ∈ leaves item, first leaf = second leaf) :
    mapItems first items = mapItems second items ↔
      ∀ leaf ∈ leavesOfItems items, first leaf = second leaf := by
  induction items with
  | nil => simp [mapItems, leavesOfItems]
  | cons item items ih =>
      obtain ⟨here, later⟩ := List.forall_mem_cons.mp each
      rw [mapItems, mapItems, List.cons.injEq, here, ih later, leavesOfItems,
        List.forall_mem_append]

theorem mapFields_eq_iff {first second : Leaf → Other} {fields : List (Key × Nested Key Leaf)}
    (each : ∀ field ∈ fields, map first field.2 = map second field.2 ↔
      ∀ leaf ∈ leaves field.2, first leaf = second leaf) :
    mapFields first fields = mapFields second fields ↔
      ∀ leaf ∈ leavesOfFields fields, first leaf = second leaf := by
  induction fields with
  | nil => simp [mapFields, leavesOfFields]
  | cons field fields ih =>
      obtain ⟨here, later⟩ := List.forall_mem_cons.mp each
      rw [mapFields, mapFields, List.cons.injEq, Prod.mk.injEq, here, ih later, leavesOfFields,
        List.forall_mem_append, eq_self_iff_true, true_and]

/-- Two changes give the same value if they agree on the leaves. -/
theorem map_eq_map_iff {first second : Leaf → Other} (value : Nested Key Leaf) :
    map first value = map second value ↔ ∀ leaf ∈ leaves value, first leaf = second leaf := by
  induction value using Nested.induction with
  | leaf value => rw [map, map, Nested.leaf.injEq, leaves, List.forall_mem_singleton]
  | list items each => rw [map, map, Nested.list.injEq, leaves, mapItems_eq_iff each]
  | tuple items each => rw [map, map, Nested.tuple.injEq, leaves, mapItems_eq_iff each]
  | dict fields each => rw [map, map, Nested.dict.injEq, leaves, mapFields_eq_iff each]

end Nested

end NaturalMold

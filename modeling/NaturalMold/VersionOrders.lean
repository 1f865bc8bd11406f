import Mathlib.Data.List.Nodup

/-!
# Versions of keyed items

Items have keys, and the versions of an item are ordered. A list is below another one when every
item of it has a version there that is no older.
-/

namespace NaturalMold

structure VersionOrder (Item Key : Type*) where
  key : Item → Key
  le : Item → Item → Prop
  refl : ∀ item, le item item
  trans : ∀ {first second third}, le first second → le second third → le first third
  antisymm : ∀ {first second}, le first second → le second first → first = second
  key_eq : ∀ {first second}, le first second → key first = key second

namespace VersionOrder

variable {Item Key : Type*} (order : VersionOrder Item Key)

def Below (items others : List Item) : Prop :=
  ∀ item ∈ items, ∃ other ∈ others, order.le item other

def Unique (items : List Item) : Prop :=
  (items.map order.key).Nodup

def Overlay (items updates result : List Item) : Prop :=
  ∀ item, item ∈ result ↔
    item ∈ updates ∨ (item ∈ items ∧ ∀ update ∈ updates, order.key update ≠ order.key item)

variable {order} {items others third updates result : List Item}

theorem Unique.eq_of_key (unique : order.Unique items) {item other : Item}
    (member : item ∈ items) (member' : other ∈ items) (same : order.key item = order.key other) :
    item = other :=
  List.inj_on_of_nodup_map unique member member' same

theorem below_refl (items : List Item) : order.Below items items :=
  fun item member => ⟨item, member, order.refl item⟩

theorem below_nil (items : List Item) : order.Below [] items :=
  nofun

theorem Below.trans (first : order.Below items others) (second : order.Below others third) :
    order.Below items third := by
  intro item member
  obtain ⟨other, member', later⟩ := first item member
  obtain ⟨last, member'', latest⟩ := second other member'
  exact ⟨last, member'', order.trans later latest⟩

theorem Below.of_same_members (same : ∀ item, item ∈ items ↔ item ∈ others) :
    order.Below items others :=
  fun item member => ⟨item, (same item).mp member, order.refl item⟩

theorem Below.le (below : order.Below items others) (unique : order.Unique others)
    {item other : Item} (member : item ∈ items) (member' : other ∈ others)
    (same : order.key item = order.key other) : order.le item other := by
  obtain ⟨later, present, le⟩ := below item member
  rwa [unique.eq_of_key member' present (same.symm.trans (order.key_eq le))]

/-- An item that has not changed from one end to the other has not changed between. -/
theorem Below.mem_between (first : order.Below items others) (second : order.Below others third)
    (unique : order.Unique third) {item : Item} (member : item ∈ items) (member' : item ∈ third) :
    item ∈ others := by
  obtain ⟨other, between, later⟩ := first item member
  have latest := second.le unique between member' (order.key_eq later).symm
  rwa [order.antisymm later latest]

theorem Overlay.below (overlay : order.Overlay items updates result)
    (later : ∀ item ∈ items, ∀ update ∈ updates, order.key update = order.key item →
      order.le item update) : order.Below items result := by
  intro item member
  by_cases updated : ∃ update ∈ updates, order.key update = order.key item
  · obtain ⟨update, present, same⟩ := updated
    exact ⟨update, (overlay update).mpr (.inl present), later item member update present same⟩
  · refine ⟨item, (overlay item).mpr (.inr ⟨member, ?_⟩), order.refl item⟩
    exact fun update present same => updated ⟨update, present, same⟩

theorem Overlay.below_of_parts (overlay : order.Overlay items updates result)
    (rest : order.Below items others) (updated : order.Below updates others) :
    order.Below result others := by
  intro item member
  rcases (overlay item).mp member with update | ⟨kept, -⟩
  · exact updated item update
  · exact rest item kept

end VersionOrder

end NaturalMold

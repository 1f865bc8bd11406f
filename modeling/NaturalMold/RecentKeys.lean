import Mathlib.Data.List.DropRight

/-! # Ordered sets of keys with a bound -/

namespace NaturalMold.RecentKeys

variable {Key : Type*}

/-- A key is either dropped, when only the newest are kept, or among them. -/
theorem mem_rdrop_or_mem_rtake (bound : ℕ) {keys : List Key} {key : Key} (member : key ∈ keys) :
    key ∈ keys.rdrop bound ∨ key ∈ keys.rtake bound := by
  rw [← List.mem_append, List.rdrop, List.rtake, List.take_append_drop]
  exact member

variable [BEq Key] [LawfulBEq Key]

/-- `keys[key] = None`: a new key goes to the end, an old one keeps its place. -/
def remember (keys : List Key) (key : Key) : List Key :=
  if keys.contains key then keys else keys ++ [key]

/-- `keys[key] = None; keys.move_to_end(key)`. -/
def moveToEnd (keys : List Key) (key : Key) : List Key :=
  keys.erase key ++ [key]

theorem mem_remember_self (keys : List Key) (key : Key) : key ∈ remember keys key := by
  rw [remember]
  split
  · rename_i known
    exact List.contains_iff_mem.mp known
  · exact List.mem_append_right _ (List.mem_singleton_self key)

omit [LawfulBEq Key] in
theorem mem_remember_of_mem {keys : List Key} {key other : Key} (member : other ∈ keys) :
    other ∈ remember keys key := by
  rw [remember]
  split
  · exact member
  · exact List.mem_append_left _ member

end NaturalMold.RecentKeys

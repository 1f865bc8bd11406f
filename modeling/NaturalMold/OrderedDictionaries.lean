import Mathlib.Data.List.Nodup
import Mathlib.Data.List.Dedup
import Mathlib.Data.List.DropRight

/-!
# Insertion-ordered dictionaries and their bounded form

An insertion-ordered dictionary keeps its keys in the order in which they were first set: setting a
present key replaces the value where it stands. A bounded dictionary drops its oldest entries
whenever a new key makes it too long.
-/

namespace NaturalMold

/-- A dictionary with pairwise different keys, oldest entry first. -/
structure OrderedDict (Key Value : Type*) where
  entries : List (Key × Value)
  nodup : (entries.map Prod.fst).Nodup

namespace OrderedDict

variable {Key Value : Type*}

/-- The dictionary without entries. -/
def empty : OrderedDict Key Value :=
  ⟨[], List.nodup_nil⟩

def keys (dict : OrderedDict Key Value) : List Key :=
  dict.entries.map Prod.fst

@[simp]
theorem keys_empty : (empty : OrderedDict Key Value).keys = [] :=
  rfl

@[simp]
theorem entries_empty : (empty : OrderedDict Key Value).entries = [] :=
  rfl

theorem keys_nodup (dict : OrderedDict Key Value) : dict.keys.Nodup :=
  dict.nodup

@[simp]
theorem length_keys (dict : OrderedDict Key Value) :
    dict.keys.length = dict.entries.length := by
  simp [keys]

section Lookup

variable [DecidableEq Key]

def lookupEntry (key : Key) : List (Key × Value) → Option Value
  | [] => none
  | entry :: entries => if entry.1 = key then some entry.2 else lookupEntry key entries

def get? (dict : OrderedDict Key Value) (key : Key) : Option Value :=
  lookupEntry key dict.entries

@[simp]
theorem get?_empty (key : Key) : (empty : OrderedDict Key Value).get? key = none :=
  rfl

private theorem lookupEntry_eq_some_iff {entries : List (Key × Value)}
    (nodup : (entries.map Prod.fst).Nodup) (key : Key) (value : Value) :
    lookupEntry key entries = some value ↔ (key, value) ∈ entries := by
  induction entries with
  | nil => simp [lookupEntry]
  | cons entry entries ih =>
      obtain ⟨first, stored⟩ := entry
      rw [List.map_cons, List.nodup_cons] at nodup
      by_cases same : first = key
      · subst first
        have absent : ∀ other, (key, other) ∉ entries := fun other member =>
          nodup.1 (List.mem_map.mpr ⟨_, member, rfl⟩)
        simp [lookupEntry, absent, eq_comm]
      · have differs : ¬ key = first := fun equal => same equal.symm
        simp [lookupEntry, same, differs, ih nodup.2]

variable {dict : OrderedDict Key Value}

theorem get?_eq_some_iff {key : Key} {value : Value} :
    dict.get? key = some value ↔ (key, value) ∈ dict.entries :=
  lookupEntry_eq_some_iff dict.nodup key value

private theorem lookupEntry_eq_none_iff {key : Key} {entries : List (Key × Value)} :
    lookupEntry key entries = none ↔ key ∉ entries.map Prod.fst := by
  induction entries with
  | nil => simp [lookupEntry]
  | cons entry entries ih =>
      by_cases same : entry.1 = key
      · simp [lookupEntry, same]
      · have differs : ¬ key = entry.1 := fun equal => same equal.symm
        rw [lookupEntry, if_neg same, ih, List.map_cons, List.mem_cons, not_or]
        exact ⟨fun absent => ⟨differs, absent⟩, And.right⟩

theorem get?_eq_none_iff {key : Key} : dict.get? key = none ↔ key ∉ dict.keys :=
  lookupEntry_eq_none_iff

theorem get?_isSome_iff {key : Key} : (dict.get? key).isSome ↔ key ∈ dict.keys := by
  rw [Option.isSome_iff_ne_none, ne_eq, get?_eq_none_iff, not_not]

theorem exists_get?_of_mem_keys {key : Key} (member : key ∈ dict.keys) :
    ∃ value, dict.get? key = some value :=
  Option.isSome_iff_exists.mp (get?_isSome_iff.mpr member)

theorem mem_keys_of_get? {key : Key} {value : Value} (found : dict.get? key = some value) :
    key ∈ dict.keys :=
  get?_isSome_iff.mp (by simp [found])

instance (dict : OrderedDict Key Value) (key : Key) : Decidable (key ∈ dict.keys) :=
  inferInstanceAs (Decidable (key ∈ dict.entries.map Prod.fst))

end Lookup

section Update

variable [DecidableEq Key]

def setEntry (key : Key) (value : Value) : List (Key × Value) → List (Key × Value)
  | [] => [(key, value)]
  | entry :: entries =>
      if entry.1 = key then (key, value) :: entries
      else entry :: setEntry key value entries

theorem map_fst_setEntry (key : Key) (value : Value) (entries : List (Key × Value)) :
    (setEntry key value entries).map Prod.fst =
      if key ∈ entries.map Prod.fst then entries.map Prod.fst
      else entries.map Prod.fst ++ [key] := by
  induction entries with
  | nil => simp [setEntry]
  | cons entry entries ih =>
      by_cases same : entry.1 = key
      · simp [setEntry, same]
      · have differs : ¬ key = entry.1 := fun equal => same equal.symm
        rw [setEntry, if_neg same, List.map_cons, ih]
        by_cases member : key ∈ entries.map Prod.fst
        · rw [if_pos member, if_pos (by simp [member])]
          rfl
        · rw [if_neg member, if_neg (by simpa [differs] using member)]
          rfl

variable {entries : List (Key × Value)}

variable {key : Key} {value : Value}

theorem mem_setEntry {entry : Key × Value} (member : entry ∈ setEntry key value entries) :
    entry = (key, value) ∨ entry ∈ entries := by
  induction entries with
  | nil => exact Or.inl (by simpa [setEntry] using member)
  | cons first entries ih =>
      by_cases same : first.1 = key
      · rw [setEntry, if_pos same, List.mem_cons] at member
        exact member.imp_right (List.mem_cons_of_mem _)
      · rw [setEntry, if_neg same, List.mem_cons] at member
        rcases member with rfl | member
        · exact Or.inr List.mem_cons_self
        · exact (ih member).imp_right (List.mem_cons_of_mem _)

/-- The dictionary after `dict[key] = value`. -/
def set (dict : OrderedDict Key Value) (key : Key) (value : Value) :
    OrderedDict Key Value where
  entries := setEntry key value dict.entries
  nodup := by
    rw [map_fst_setEntry]
    split
    · exact dict.nodup
    · exact List.nodup_append.mpr ⟨dict.nodup, List.nodup_singleton key, by
        rintro present member _ (last : _ ∈ [key]) rfl
        rw [List.mem_singleton] at last
        subst last
        contradiction⟩

variable (dict : OrderedDict Key Value)

theorem keys_set (key : Key) (value : Value) :
    (dict.set key value).keys =
      if key ∈ dict.keys then dict.keys else dict.keys ++ [key] :=
  map_fst_setEntry key value dict.entries

theorem mem_keys_set {dict : OrderedDict Key Value} {other : Key} :
    other ∈ (dict.set key value).keys ↔ other = key ∨ other ∈ dict.keys := by
  rw [keys_set]
  split
  · rename_i present
    constructor
    · exact Or.inr
    · rintro (rfl | member)
      · exact present
      · exact member
  · simp [or_comm]

private theorem lookupEntry_setEntry (key other : Key) (value : Value)
    (entries : List (Key × Value)) :
    lookupEntry other (setEntry key value entries) =
      if other = key then some value else lookupEntry other entries := by
  induction entries with
  | nil =>
      by_cases same : key = other
      · simp [setEntry, lookupEntry, same]
      · have differs : ¬ other = key := fun equal => same equal.symm
        simp [setEntry, lookupEntry, same, differs]
  | cons entry entries ih =>
      by_cases first : entry.1 = key
      · subst first
        by_cases same : entry.1 = other
        · simp [setEntry, lookupEntry, same]
        · have differs : ¬ other = entry.1 := fun equal => same equal.symm
          simp [setEntry, lookupEntry, same, differs]
      · rw [setEntry, if_neg first, lookupEntry, lookupEntry, ih]
        by_cases same : entry.1 = other
        · have differs : ¬ other = key := fun equal => first (same.trans equal)
          simp [same, differs]
        · simp [same]

@[simp]
theorem get?_set_self (key : Key) (value : Value) : (dict.set key value).get? key = some value := by
  simp [get?, set, lookupEntry_setEntry]

theorem get?_set_of_ne {other : Key} (value : Value) (differs : other ≠ key) :
    (dict.set key value).get? other = dict.get? other := by
  simp [get?, set, lookupEntry_setEntry, differs]

theorem get?_set (key other : Key) (value : Value) :
    (dict.set key value).get? other =
      if other = key then some value else dict.get? other := by
  simp [get?, set, lookupEntry_setEntry]

theorem set_eq_self {dict : OrderedDict Key Value} (present : dict.get? key = some value) :
    dict.set key value = dict := by
  obtain ⟨entries, nodup⟩ := dict
  replace present : lookupEntry key entries = some value := present
  have kept : setEntry key value entries = entries := by
    clear nodup
    induction entries with
    | nil => cases present
    | cons entry entries ih =>
        rw [lookupEntry] at present
        by_cases same : entry.1 = key
        · rw [if_pos same] at present
          rw [setEntry, if_pos same, ← same, ← Option.some.inj present]
        · rw [if_neg same] at present
          rw [setEntry, if_neg same, ih present]
  unfold set
  simp only [kept]

def setAll (dict : OrderedDict Key Value) (keys : List Key) (value : Value) :
    OrderedDict Key Value :=
  keys.foldl (fun dict key => dict.set key value) dict

theorem get?_setAll (keys : List Key) (value : Value) (other : Key) :
    (dict.setAll keys value).get? other = if other ∈ keys then some value else dict.get? other := by
  induction keys using List.reverseRecOn with
  | nil => simp [setAll]
  | append_singleton keys key ih =>
      rw [setAll] at ih
      rw [setAll, List.foldl_append, List.foldl_cons, List.foldl_nil, get?_set, ih]
      by_cases same : other = key
      · simp [same]
      · simp [same]

/-- Nothing changes when every key has the value already. -/
theorem setAll_eq_self_iff {dict : OrderedDict Key Value} {keys : List Key} :
    dict.setAll keys value = dict ↔ ∀ key ∈ keys, dict.get? key = some value := by
  constructor
  · intro unchanged key member
    rw [← unchanged, get?_setAll, if_pos member]
  · intro present
    induction keys with
    | nil => rfl
    | cons key keys ih =>
        rw [setAll, List.foldl_cons, set_eq_self (present key List.mem_cons_self)]
        exact ih fun other member => present other (List.mem_cons_of_mem _ member)

/-- The dictionary that the entries of a comprehension give, one after another. -/
def ofEntries (entries : List (Key × Value)) : OrderedDict Key Value :=
  entries.foldl (fun dict entry => dict.set entry.1 entry.2) empty

theorem get?_ofEntries (entries : List (Key × Value)) (key : Key) :
    (ofEntries entries).get? key = lookupEntry key entries.reverse := by
  induction entries using List.reverseRecOn with
  | nil => rfl
  | append_singleton entries entry ih =>
      rw [ofEntries, List.foldl_append, List.foldl_cons, List.foldl_nil, get?_set]
      rw [ofEntries] at ih
      rw [ih, List.reverse_append, List.reverse_singleton, List.singleton_append, lookupEntry]
      by_cases same : entry.1 = key
      · rw [if_pos same.symm, if_pos same]
      · rw [if_neg (Ne.symm same), if_neg same]

theorem get?_ofEntries_eq_some_iff (nodup : (entries.map Prod.fst).Nodup) :
    (ofEntries entries).get? key = some value ↔ (key, value) ∈ entries := by
  rw [get?_ofEntries, lookupEntry_eq_some_iff, List.mem_reverse]
  rwa [List.map_reverse, List.nodup_reverse]

private theorem mem_of_lookupEntry (found : lookupEntry key entries = some value) :
    (key, value) ∈ entries := by
  induction entries with
  | nil => cases found
  | cons entry entries ih =>
      rw [lookupEntry] at found
      split at found
      · rename_i same
        cases Option.some.inj found
        exact List.mem_cons.mpr (Or.inl (by rw [← same]))
      · exact List.mem_cons_of_mem _ (ih found)

theorem mem_of_get?_ofEntries (found : (ofEntries entries).get? key = some value) :
    (key, value) ∈ entries := by
  rw [get?_ofEntries] at found
  exact List.mem_reverse.mp (mem_of_lookupEntry found)

theorem lookupEntry_append (key : Key) (first second : List (Key × Value)) :
    lookupEntry key (first ++ second) = (lookupEntry key first).or (lookupEntry key second) := by
  induction first with
  | nil => rfl
  | cons entry first ih =>
      rw [List.cons_append, lookupEntry, lookupEntry, ih]
      split <;> rfl

/-- Later entries win over earlier ones. -/
theorem get?_ofEntries_append (first second : List (Key × Value)) (key : Key) :
    (ofEntries (first ++ second)).get? key =
      ((ofEntries second).get? key).or ((ofEntries first).get? key) := by
  rw [get?_ofEntries, get?_ofEntries, get?_ofEntries, List.reverse_append, lookupEntry_append]

theorem get?_ofEntries_cons (entry : Key × Value) (entries : List (Key × Value)) (key : Key) :
    (ofEntries (entry :: entries)).get? key =
      ((ofEntries entries).get? key).or (if entry.1 = key then some entry.2 else none) := by
  rw [← List.singleton_append, get?_ofEntries_append, get?_ofEntries [entry]]
  rfl

theorem get?_ofEntries_eq_none (absent : ∀ entry ∈ entries, entry.1 ≠ key) :
    (ofEntries entries).get? key = none := by
  cases found : (ofEntries entries).get? key with
  | none => rfl
  | some value => exact absurd rfl (absent _ (mem_of_get?_ofEntries found))

theorem get?_ofEntries_entries (key : Key) : (ofEntries dict.entries).get? key = dict.get? key := by
  ext value
  rw [get?_ofEntries_eq_some_iff dict.nodup, get?_eq_some_iff]

theorem exists_get?_ofEntries (listed : key ∈ entries.map Prod.fst) :
    ∃ value, (ofEntries entries).get? key = some value := by
  rw [get?_ofEntries]
  apply Option.ne_none_iff_exists'.mp
  rw [ne_eq, lookupEntry_eq_none_iff, List.map_reverse, List.mem_reverse, not_not]
  exact listed

theorem lookupEntry_map {Image : Type*} (image : Value → Image) (key : Key)
    (entries : List (Key × Value)) :
    lookupEntry key (entries.map fun entry => (entry.1, image entry.2)) =
      (lookupEntry key entries).map image := by
  induction entries with
  | nil => rfl
  | cons entry entries ih =>
      rw [List.map_cons, lookupEntry, lookupEntry, ih]
      split <;> rfl

/-- The dictionary after `dict.pop(key, None)`. -/
def erase (dict : OrderedDict Key Value) (key : Key) : OrderedDict Key Value where
  entries := dict.entries.filter fun entry => entry.1 ≠ key
  nodup := dict.nodup.sublist (List.filter_sublist.map Prod.fst)

theorem get?_erase (key other : Key) :
    (dict.erase key).get? other = if other = key then none else dict.get? other := by
  ext value
  rw [get?_eq_some_iff, erase, List.mem_filter, ← get?_eq_some_iff]
  by_cases same : other = key
  · simp [same]
  · simp [same]

theorem erase_of_notMem {dict : OrderedDict Key Value} (absent : key ∉ dict.keys) :
    dict.erase key = dict := by
  have kept : dict.entries.filter (fun entry => entry.1 ≠ key) = dict.entries := by
    apply List.filter_eq_self.mpr
    rintro entry member
    exact decide_eq_true fun same => absent (List.mem_map.mpr ⟨entry, member, same⟩)
  unfold erase
  simp only [kept]

theorem entries_erase_of_cons {dict : OrderedDict Key Value} {oldest : Key × Value}
    {rest : List (Key × Value)} (whole : dict.entries = oldest :: rest) :
    (dict.erase oldest.1).entries = rest := by
  have nodup := dict.nodup
  rw [whole, List.map_cons, List.nodup_cons] at nodup
  rw [erase]
  dsimp only
  rw [whole, List.filter_cons_of_neg (by simp)]
  apply List.filter_eq_self.mpr
  intro entry member
  exact decide_eq_true fun same => nodup.1 (same ▸ List.mem_map_of_mem member)

theorem length_erase_le (key : Key) : (dict.erase key).entries.length ≤ dict.entries.length :=
  List.length_filter_le _ _

/-- A key that is present leaves a place free. -/
theorem length_erase_lt {dict : OrderedDict Key Value} (present : key ∈ dict.keys) :
    (dict.erase key).entries.length < dict.entries.length := by
  obtain ⟨entry, member, same⟩ := List.mem_map.mp present
  exact List.length_filter_lt_length_iff_exists.mpr ⟨entry, member, by simpa using same⟩

theorem length_set_le (key : Key) (value : Value) :
    (dict.set key value).entries.length ≤ dict.entries.length + 1 := by
  rw [← length_keys, ← length_keys, keys_set]
  split
  · omega
  · rw [List.length_append, List.length_singleton]

theorem length_set_of_mem {dict : OrderedDict Key Value} (value : Value)
    (present : key ∈ dict.keys) :
    (dict.set key value).entries.length = dict.entries.length := by
  rw [← length_keys, ← length_keys, keys_set, if_pos present]

def mapValues (dict : OrderedDict Key Value) (change : Value → Value) : OrderedDict Key Value where
  entries := dict.entries.map fun entry => (entry.1, change entry.2)
  nodup := by
    rw [List.map_map]
    exact dict.nodup

@[simp]
theorem length_mapValues (change : Value → Value) :
    (dict.mapValues change).entries.length = dict.entries.length := by
  rw [mapValues, List.length_map]

end Update

section Trim

/-- Drop the oldest elements while there are more than `bound`. -/
def trimOldest {Entry : Type*} (bound : Nat) : List Entry → List Entry
  | [] => []
  | entry :: entries =>
      if bound < entries.length + 1 then trimOldest bound entries
      else entry :: entries

theorem trimOldest_eq_rtake {Entry : Type*} (bound : Nat) (entries : List Entry) :
    trimOldest bound entries = entries.rtake bound := by
  induction entries with
  | nil => simp [trimOldest]
  | cons entry entries ih =>
      rw [trimOldest]
      split
      · rename_i long
        rw [ih, List.rtake, List.rtake, List.length_cons,
          show entries.length + 1 - bound = entries.length - bound + 1 by omega,
          List.drop_succ_cons]
      · rename_i short
        rw [List.rtake, List.length_cons, Nat.sub_eq_zero_of_le (by omega), List.drop_zero]

/-- The dictionary after its oldest entries beyond `bound` are popped. -/
def trim (bound : Nat) (dict : OrderedDict Key Value) : OrderedDict Key Value where
  entries := trimOldest bound dict.entries
  nodup := by
    rw [trimOldest_eq_rtake, List.rtake, List.map_drop]
    exact dict.nodup.sublist (List.drop_sublist _ _)

theorem keys_trim (bound : Nat) (dict : OrderedDict Key Value) :
    (dict.trim bound).keys = dict.keys.rtake bound := by
  simp [keys, trim, trimOldest_eq_rtake, List.rtake]

end Trim

section Bounded

variable [DecidableEq Key]

/-- Write one entry and pop the oldest ones while the dictionary is too long. -/
def setBounded (bound : Nat) (dict : OrderedDict Key Value) (key : Key) (value : Value) :
    OrderedDict Key Value :=
  (dict.set key value).trim bound

variable {bound : Nat} {dict : OrderedDict Key Value}

theorem mem_entries_setBounded {key : Key} {value : Value} {entry : Key × Value}
    (member : entry ∈ (dict.setBounded bound key value).entries) :
    entry = (key, value) ∨ entry ∈ dict.entries := by
  change entry ∈ trimOldest bound (setEntry key value dict.entries) at member
  rw [trimOldest_eq_rtake] at member
  exact mem_setEntry (List.mem_of_mem_drop member)

/-- Write a sequence of entries one after another. -/
def fillBounded (bound : Nat) (dict : OrderedDict Key Value) :
    List (Key × Value) → OrderedDict Key Value
  | [] => dict
  | entry :: entries => fillBounded bound (dict.setBounded bound entry.1 entry.2) entries

theorem mem_entries_fillBounded {written : List (Key × Value)} {entry : Key × Value}
    (member : entry ∈ (dict.fillBounded bound written).entries) :
    entry ∈ written ∨ entry ∈ dict.entries := by
  induction written generalizing dict with
  | nil => exact Or.inr member
  | cons first written ih =>
      rcases ih member with later | earlier
      · exact Or.inl (List.mem_cons_of_mem _ later)
      · rcases mem_entries_setBounded earlier with rfl | old
        · exact Or.inl List.mem_cons_self
        · exact Or.inr old

def pushKey (bound : Nat) (window : List Key) (key : Key) : List Key :=
  if key ∈ window then window else (window ++ [key]).rtake bound

/-- The keys of a sequence that are absent from the window when their turn
comes, in order. -/
def arrivals (bound : Nat) : List Key → List Key → List Key
  | _, [] => []
  | window, key :: written =>
      if key ∈ window then arrivals bound window written
      else key :: arrivals bound (pushKey bound window key) written

theorem length_pushKey_le {window : List Key} (short : window.length ≤ bound) (key : Key) :
    (pushKey bound window key).length ≤ bound := by
  rw [pushKey]
  split
  · exact short
  · simp [List.rtake]
    omega

theorem keys_setBounded (short : dict.keys.length ≤ bound) (key : Key) (value : Value) :
    (dict.setBounded bound key value).keys = pushKey bound dict.keys key := by
  rw [setBounded, keys_trim, keys_set, pushKey]
  split
  · rw [List.rtake, Nat.sub_eq_zero_of_le short, List.drop_zero]
  · rfl

theorem length_keys_setBounded_le (short : dict.keys.length ≤ bound) (key : Key) (value : Value) :
    (dict.setBounded bound key value).keys.length ≤ bound := by
  rw [keys_setBounded short]
  exact length_pushKey_le short key

theorem length_keys_fillBounded_le (written : List (Key × Value))
    (short : dict.keys.length ≤ bound) :
    (dict.fillBounded bound written).keys.length ≤ bound := by
  induction written generalizing dict with
  | nil => exact short
  | cons entry written ih => exact ih (length_keys_setBounded_le short _ _)

private theorem rtake_append_rtake {Entry : Type*} (bound : Nat) (older newer : List Entry) :
    (older.rtake bound ++ newer).rtake bound = (older ++ newer).rtake bound := by
  simp only [List.rtake, List.length_append, List.length_drop]
  rw [List.drop_append, List.drop_append, List.drop_drop, List.length_drop]
  congr 2 <;> omega

/-- After any sequence of writes the dictionary holds the last `bound` of its
old keys followed by the arrivals of the sequence. -/
theorem keys_fillBounded (written : List (Key × Value)) (short : dict.keys.length ≤ bound) :
    (dict.fillBounded bound written).keys =
      (dict.keys ++ arrivals bound dict.keys (written.map Prod.fst)).rtake bound := by
  induction written generalizing dict with
  | nil =>
      rw [List.map_nil, arrivals, List.append_nil, List.rtake,
        Nat.sub_eq_zero_of_le short, List.drop_zero]
      rfl
  | cons entry written ih =>
      rw [fillBounded, ih (length_keys_setBounded_le short _ _), keys_setBounded short,
        List.map_cons, arrivals]
      by_cases present : entry.1 ∈ dict.keys
      · simp [pushKey, present]
      · rw [if_neg present, pushKey, if_neg present, rtake_append_rtake, List.append_assoc]
        rfl

theorem mem_arrivals {window written : List Key} {key : Key} (listed : key ∈ written)
    (absent : key ∉ window) : key ∈ arrivals bound window written := by
  induction written generalizing window with
  | nil => simp at listed
  | cons first written ih =>
      rw [arrivals]
      by_cases same : key = first
      · subst first
        simp [absent]
      · have later : key ∈ written := (List.mem_cons.mp listed).resolve_left same
        split
        · exact ih later absent
        · rename_i fresh
          refine List.mem_cons_of_mem _ (ih later ?_)
          rw [pushKey, if_neg fresh]
          intro member
          have := List.mem_of_mem_drop member
          simp [absent, same] at this

/-- Different keys that are all absent from the window all arrive. -/
theorem arrivals_of_fresh {window written : List Key} (nodup : written.Nodup)
    (fresh : ∀ key ∈ written, key ∉ window) : arrivals bound window written = written := by
  induction written generalizing window with
  | nil => rfl
  | cons first written ih =>
      rw [List.nodup_cons] at nodup
      have absent := fresh first List.mem_cons_self
      rw [arrivals, if_neg absent, ih nodup.2]
      intro key member
      rw [pushKey, if_neg absent]
      intro pushed
      rcases List.mem_append.mp (List.mem_of_mem_drop pushed) with old | new
      · exact fresh key (List.mem_cons_of_mem _ member) old
      · rw [List.mem_singleton] at new
        exact nodup.1 (new ▸ member)

theorem length_arrivals_le (bound : Nat) (window written : List Key) :
    (arrivals bound window written).length ≤ written.length := by
  induction written generalizing window with
  | nil => simp [arrivals]
  | cons first written ih =>
      rw [arrivals]
      split
      · exact (ih window).trans (Nat.le_succ _)
      · simpa using ih _

/-- What fits into the bound altogether is never dropped. -/
theorem rtake_eq_self_of_length_le {Entry : Type*} {entries : List Entry}
    (short : entries.length ≤ bound) : entries.rtake bound = entries := by
  rw [List.rtake, Nat.sub_eq_zero_of_le short, List.drop_zero]

end Bounded

end OrderedDict

end NaturalMold

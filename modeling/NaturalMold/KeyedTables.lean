import Mathlib.Data.List.Nodup
import Mathlib.Data.List.Sort
import Mathlib.Logic.Relation

/-!
# Tables with a primary key

A table holds its rows with the evidence that no two of them share a key.
-/

namespace NaturalMold.KeyedTables

structure Table {Row Key : Type*} (key : Row → Key) where
  rows : List Row
  distinct : (rows.map key).Nodup

variable {Row Key : Type*} {key : Row → Key}

namespace Table

def empty : Table key where
  rows := []
  distinct := List.nodup_nil

theorem eq_of_key_eq (table : Table key) {first second : Row} (firstMember : first ∈ table.rows)
    (secondMember : second ∈ table.rows) (same : key first = key second) : first = second :=
  List.inj_on_of_nodup_map table.distinct firstMember secondMember same

def updateWhere (table : Table key) (test : Row → Bool) (change : Row → Row)
    (keeps : ∀ row, key (change row) = key row) : Table key where
  rows := table.rows.map fun row => if test row then change row else row
  distinct := by
    have keys : ∀ row, key (if test row then change row else row) = key row := by
      intro row
      split
      case isTrue => exact keeps row
      case isFalse => rfl
    rw [List.map_map, Function.comp_def, funext keys]
    exact table.distinct

variable {table : Table key}

theorem mem_updateWhere {test : Row → Bool} {change : Row → Row}
    {keeps : ∀ row, key (change row) = key row} {other : Row} :
    other ∈ (table.updateWhere test change keeps).rows ↔
      (∃ row ∈ table.rows, test row ∧ other = change row) ∨
        (other ∈ table.rows ∧ ¬ test other) := by
  rw [updateWhere, List.mem_map]
  constructor
  · rintro ⟨row, member, rfl⟩
    split
    case isTrue passes => exact Or.inl ⟨row, member, passes, rfl⟩
    case isFalse fails => exact Or.inr ⟨member, fails⟩
  · rintro (⟨row, member, passes, rfl⟩ | ⟨member, fails⟩)
    · exact ⟨row, member, if_pos passes⟩
    · exact ⟨other, member, if_neg fails⟩

theorem updateWhere_eq_self {test : Row → Bool} {change : Row → Row}
    {keeps : ∀ row, key (change row) = key row}
    (same : ∀ row ∈ table.rows, test row → change row = row) :
    table.updateWhere test change keeps = table := by
  have stays : ∀ row ∈ table.rows, (if test row then change row else row) = id row := by
    intro row member
    split
    case isTrue tested => exact same row member tested
    case isFalse => rfl
  have kept := (List.map_congr_left stays).trans (List.map_id table.rows)
  obtain ⟨rows, distinct⟩ := table
  unfold updateWhere
  simp only [kept]

theorem keys_updateWhere (table : Table key) (test : Row → Bool) (change : Row → Row)
    (keeps : ∀ row, key (change row) = key row) :
    (table.updateWhere test change keeps).rows.map key = table.rows.map key := by
  rw [updateWhere, List.map_map]
  apply List.map_congr_left
  intro row _
  rw [Function.comp_apply]
  split
  case isTrue => exact keeps row
  case isFalse => rfl

variable [DecidableEq Key]

def get? (table : Table key) (wanted : Key) : Option Row :=
  table.rows.find? fun row => key row = wanted

theorem get?_eq_some_iff {wanted : Key} {row : Row} :
    table.get? wanted = some row ↔ row ∈ table.rows ∧ key row = wanted := by
  constructor
  · intro found
    refine ⟨List.mem_of_find?_eq_some found, ?_⟩
    simpa using List.find?_some found
  · rintro ⟨member, rfl⟩
    obtain ⟨other, found⟩ : ∃ other, table.get? (key row) = some other := by
      apply Option.isSome_iff_exists.mp
      rw [get?, List.find?_isSome]
      exact ⟨row, member, by simp⟩
    have same : key other = key row := by simpa using List.find?_some found
    rw [found, table.eq_of_key_eq (List.mem_of_find?_eq_some found) member same]

theorem get?_eq_none_iff {wanted : Key} :
    table.get? wanted = none ↔ ∀ row ∈ table.rows, key row ≠ wanted := by
  rw [get?, List.find?_eq_none]
  simp

def filter (table : Table key) (test : Row → Bool) : Table key where
  rows := table.rows.filter test
  distinct := table.distinct.sublist (List.filter_sublist.map key)

theorem get?_filter (table : Table key) (test : Row → Bool) (wanted : Key) :
    (table.filter test).get? wanted = (table.get? wanted).filter test := by
  apply Option.ext
  intro row
  rw [get?_eq_some_iff, Option.filter_eq_some_iff, get?_eq_some_iff, filter, List.mem_filter]
  tauto

theorem get?_filter_key (table : Table key) (test : Key → Bool) (wanted : Key) :
    (table.filter fun row => test (key row)).get? wanted =
      if test wanted then table.get? wanted else none := by
  rw [get?_filter]
  cases found : table.get? wanted with
  | none => simp
  | some row =>
      rw [Option.filter_some, (get?_eq_some_iff.mp found).2]

/-- A query for several keys finds, under each of them, what a query for that key finds. -/
theorem get?_filter_listed (table : Table key) (test : Row → Bool) {keys : List Key}
    {wanted : Key} (listed : wanted ∈ keys) :
    (table.filter fun row => key row ∈ keys && test row).get? wanted =
      (table.get? wanted).filter test := by
  rw [get?_filter]
  cases found : table.get? wanted with
  | none => rfl
  | some row =>
      have member : key row ∈ keys := (get?_eq_some_iff.mp found).2 ▸ listed
      simp [Option.filter_some, member]

theorem filter_key_eq (table : Table key) (wanted : Key) :
    (table.rows.filter fun row => key row = wanted) = (table.get? wanted).toList := by
  obtain ⟨rows, distinct⟩ := table
  change rows.filter _ = (rows.find? _).toList
  induction rows with
  | nil => rfl
  | cons row rows ih =>
      rw [List.map_cons, List.nodup_cons] at distinct
      by_cases same : key row = wanted
      · have others : rows.filter (fun other => key other = wanted) = [] := by
          rw [List.filter_eq_nil_iff]
          intro other member otherKey
          rw [decide_eq_true_eq] at otherKey
          exact distinct.1 (List.mem_map.mpr ⟨other, member, otherKey.trans same.symm⟩)
        simp [same, others]
      · simpa [same] using ih distinct.2

def insert? (table : Table key) (row : Row) : Option (Table key) :=
  if absent : key row ∉ table.rows.map key then
    some
      { rows := table.rows ++ [row]
        distinct := by
          rw [List.map_append, List.nodup_append]
          refine ⟨table.distinct, List.nodup_singleton _, ?_⟩
          rintro taken member _ new rfl
          rw [List.map_singleton, List.mem_singleton] at new
          exact absent (new ▸ member) }
  else none

theorem insert?_eq_some {after : Table key} {row : Row}
    (inserted : table.insert? row = some after) :
    after.rows = table.rows ++ [row] ∧ ∀ other ∈ table.rows, key other ≠ key row := by
  rw [insert?] at inserted
  split at inserted
  case isTrue absent =>
      obtain rfl := Option.some.inj inserted
      exact ⟨rfl, fun other member same => absent (List.mem_map.mpr ⟨other, member, same⟩)⟩
  case isFalse => cases inserted

theorem insert?_eq_none_iff {row : Row} :
    table.insert? row = none ↔ ∃ old ∈ table.rows, key old = key row := by
  rw [insert?]
  split
  case isTrue absent =>
      refine iff_of_false (by simp) ?_
      rintro ⟨old, member, same⟩
      exact absent (List.mem_map.mpr ⟨old, member, same⟩)
  case isFalse taken => exact iff_of_true rfl (List.mem_map.mp (not_not.mp taken))

def save (table : Table key) (row : Row) : Table key where
  rows := table.rows.map fun old => if key old = key row then row else old
  distinct := by
    have keys : ∀ old, key (if key old = key row then row else old) = key old := by
      intro old
      split
      case isTrue same => exact same.symm
      case isFalse => rfl
    rw [List.map_map, Function.comp_def, funext keys]
    exact table.distinct

theorem mem_save {row other : Row} :
    other ∈ (table.save row).rows ↔
      (other = row ∧ ∃ old ∈ table.rows, key old = key row) ∨
        (other ∈ table.rows ∧ key other ≠ key row) := by
  rw [save, List.mem_map]
  constructor
  · rintro ⟨old, member, rfl⟩
    split
    case isTrue same => exact Or.inl ⟨rfl, old, member, same⟩
    case isFalse different => exact Or.inr ⟨member, different⟩
  · rintro (⟨rfl, old, member, same⟩ | ⟨member, different⟩)
    · exact ⟨old, member, if_pos same⟩
    · exact ⟨other, member, if_neg different⟩

theorem get?_insert? {after : Table key} {row : Row} (inserted : table.insert? row = some after)
    (wanted : Key) :
    after.get? wanted = if key row = wanted then some row else table.get? wanted := by
  obtain ⟨rows, unused⟩ := insert?_eq_some inserted
  ext other
  split
  case isTrue same =>
      subst same
      rw [get?_eq_some_iff, rows, List.mem_append, List.mem_singleton, Option.some.injEq]
      constructor
      · rintro ⟨old | rfl, sameKey⟩
        · exact absurd sameKey (unused other old)
        · rfl
      · rintro rfl
        exact ⟨Or.inr rfl, rfl⟩
  case isFalse different =>
  rw [get?_eq_some_iff, get?_eq_some_iff, rows, List.mem_append, List.mem_singleton]
  constructor
  · rintro ⟨old | rfl, sameKey⟩
    · exact ⟨old, sameKey⟩
    · exact absurd sameKey different
  · rintro ⟨old, sameKey⟩
    exact ⟨Or.inl old, sameKey⟩

theorem get?_save {old : Row} {wanted : Key} (row : Row) (found : table.get? wanted = some old) :
    (table.save row).get? wanted = if key row = wanted then some row else some old := by
  obtain ⟨member, rfl⟩ := get?_eq_some_iff.mp found
  split
  case isTrue same =>
      rw [get?_eq_some_iff, mem_save]
      exact ⟨Or.inl ⟨rfl, old, member, same.symm⟩, same⟩
  case isFalse different =>
      rw [get?_eq_some_iff, mem_save]
      exact ⟨Or.inr ⟨member, fun same => different same.symm⟩, rfl⟩

theorem get?_updateWhere (table : Table key) (test : Row → Bool) (change : Row → Row)
    (keeps : ∀ row, key (change row) = key row) (wanted : Key) :
    (table.updateWhere test change keeps).get? wanted =
      (table.get? wanted).map fun row => if test row then change row else row := by
  rw [get?, get?, updateWhere, List.find?_map]
  congr 2
  ext row
  rw [Function.comp_apply]
  split
  case isTrue => rw [keeps]
  case isFalse => rfl

theorem save_eq_self_iff {old new : Row} (member : old ∈ table.rows) (same : key old = key new) :
    table.save new = table ↔ new = old := by
  constructor
  · intro unchanged
    have stored : new ∈ (table.save new).rows :=
      mem_save.mpr (Or.inl ⟨rfl, old, member, same⟩)
    rw [unchanged] at stored
    exact table.eq_of_key_eq stored member same.symm
  · rintro rfl
    have stays : ∀ row ∈ table.rows, (if key row = key new then new else row) = id row := by
      intro row rowMember
      split
      case isTrue sameKey => exact table.eq_of_key_eq member rowMember sameKey.symm
      case isFalse => rfl
    have kept := (List.map_congr_left stays).trans (List.map_id table.rows)
    obtain ⟨rows, distinct⟩ := table
    unfold save
    simp only [kept]

end Table

section

variable (before : Row → Row → Prop) [DecidableRel before] {rows : List Row} {found : Row}

def firstInOrder (rows : List Row) : Option Row :=
  (rows.insertionSort before).head?

theorem mem_of_firstInOrder (first : firstInOrder before rows = some found) : found ∈ rows :=
  (List.mem_insertionSort before).mp (List.mem_of_head? first)

theorem firstInOrder_eq_none_iff : firstInOrder before rows = none ↔ rows = [] := by
  rw [firstInOrder, List.head?_eq_none_iff, ← List.length_eq_zero_iff,
    List.length_insertionSort, List.length_eq_zero_iff]

theorem before_of_firstInOrder [Std.Total before] [IsTrans Row before]
    (first : firstInOrder before rows = some found) {row : Row} (member : row ∈ rows) :
    before found row := by
  have ordered := List.pairwise_insertionSort before rows
  obtain ⟨rest, sorted⟩ := List.head?_eq_some_iff.mp first
  rw [sorted, List.pairwise_cons] at ordered
  have listed : row ∈ found :: rest := by
    rw [← sorted, List.mem_insertionSort]
    exact member
  rcases List.mem_cons.mp listed with rfl | later
  · exact (Std.Total.total row row).elim id id
  · exact ordered.1 row later

theorem firstInOrder_cons (row : Row) (rows : List Row) :
    firstInOrder before (row :: rows) =
      match firstInOrder before rows with
      | none => some row
      | some found => if before row found then some row else some found := by
  unfold firstInOrder
  rw [List.insertionSort_cons]
  cases rows.insertionSort before with
  | nil => rfl
  | cons found rest =>
      rw [List.orderedInsert_cons, List.head?_cons]
      dsimp only
      split <;> rfl

theorem firstInOrder_concat [Std.Total before] [IsTrans Row before] (rows : List Row) (row : Row) :
    firstInOrder before (rows ++ [row]) = firstInOrder before rows ∨
      firstInOrder before (rows ++ [row]) = some row := by
  induction rows with
  | nil => exact Or.inr rfl
  | cons head rows ih =>
      rw [List.cons_append, firstInOrder_cons before head (rows ++ [row]),
        firstInOrder_cons before head rows]
      rcases ih with same | added
      · rw [same]
        exact Or.inl rfl
      · rw [added]
        dsimp only
        split
        case isFalse => exact Or.inr rfl
        case isTrue earlier =>
        left
        cases found : firstInOrder before rows with
        | none => rfl
        | some first =>
            have member := mem_of_firstInOrder before found
            have later := before_of_firstInOrder before added
              (List.mem_append_left _ member)
            dsimp only
            rw [if_pos (trans_of before earlier later)]

end

variable [DecidableEq Key]

inductive Write (fresh : Table key → Row → Prop) (move : Table key → Row → Row → Prop) :
    Table key → Table key → Prop
  | insert {before after : Table key} {row : Row} (admissible : fresh before row)
      (inserted : before.insert? row = some after) : Write fresh move before after
  | save {before : Table key} {old new : Row} (member : old ∈ before.rows)
      (same : key new = key old) (moved : move before old new) :
      Write fresh move before (before.save new)

/-- Any number of writes. -/
abbrev Writes (fresh : Table key → Row → Prop) (move : Table key → Row → Row → Prop) :
    Table key → Table key → Prop :=
  Relation.ReflTransGen (Write fresh move)

section

variable {fresh : Table key → Row → Prop} {move : Table key → Row → Row → Prop}
  {before after : Table key}

theorem Writes.mono {wider : Table key → Row → Prop} {freer : Table key → Row → Row → Prop}
    (admits : ∀ table row, fresh table row → wider table row)
    (allows : ∀ table old new, move table old new → freer table old new)
    (writes : Writes fresh move before after) : Writes wider freer before after := by
  refine Relation.ReflTransGen.mono (fun _ _ write => ?_) _ _ writes
  cases write with
  | insert admissible inserted => exact .insert (admits _ _ admissible) inserted
  | save member same moved => exact .save member same (allows _ _ _ moved)

theorem Writes.forall_rows (holds : Row → Prop)
    (created : ∀ table row, fresh table row → holds row)
    (kept : ∀ table old new, move table old new → holds old → holds new)
    (writes : Writes fresh move before after) (initial : ∀ row ∈ before.rows, holds row) :
    ∀ row ∈ after.rows, holds row := by
  induction writes with
  | refl => exact initial
  | tail _ write ih =>
      intro row member
      cases write with
      | insert admissible inserted =>
          rw [(Table.insert?_eq_some inserted).1, List.mem_append, List.mem_singleton] at member
          rcases member with older | rfl
          · exact ih row older
          · exact created _ row admissible
      | save oldMember same moved =>
          rcases Table.mem_save.mp member with ⟨rfl, _⟩ | ⟨untouched, _⟩
          · exact kept _ _ row moved (ih _ oldMember)
          · exact ih row untouched

theorem Writes.exists_of_mem (related : Row → Row → Prop) (reflexive : ∀ row, related row row)
    (transitive : ∀ first second third, related first second → related second third →
      related first third)
    (moves : ∀ table old new, move table old new → related old new)
    (writes : Writes fresh move before after) {row : Row} (member : row ∈ before.rows) :
    ∃ later ∈ after.rows, key later = key row ∧ related row later := by
  induction writes with
  | refl => exact ⟨row, member, rfl, reflexive row⟩
  | tail _ write ih =>
      obtain ⟨middle, middleMember, middleKey, toMiddle⟩ := ih
      cases write with
      | insert admissible inserted =>
          refine ⟨middle, ?_, middleKey, toMiddle⟩
          rw [(Table.insert?_eq_some inserted).1]
          exact List.mem_append_left _ middleMember
      | @save old new oldMember same moved =>
          by_cases touched : key middle = key new
          · have equal : middle = old :=
              Table.eq_of_key_eq _ middleMember oldMember (touched.trans same)
            subst equal
            refine ⟨new, Table.mem_save.mpr (Or.inl ⟨rfl, middle, middleMember, touched⟩),
              touched ▸ middleKey, ?_⟩
            exact transitive row middle new toMiddle (moves _ _ _ moved)
          · exact ⟨middle, Table.mem_save.mpr (Or.inr ⟨middleMember, touched⟩), middleKey,
              toMiddle⟩

def UniqueIndex {Entry : Type*} (indexed : Row → Prop) (entry : Row → Entry)
    (table : Table key) : Prop :=
  ∀ first ∈ table.rows, ∀ second ∈ table.rows, indexed first → indexed second →
    entry first = entry second → first = second

theorem Write.uniqueIndex {Entry : Type*} {indexed : Row → Prop} {entry : Row → Entry}
    (created : ∀ row, fresh before row → indexed row →
      ∀ other ∈ before.rows, indexed other → entry other ≠ entry row)
    (kept : ∀ old ∈ before.rows, ∀ new, move before old new → indexed new →
      (indexed old ∧ entry new = entry old) ∨
        ∀ other ∈ before.rows, indexed other → entry other ≠ entry new)
    (write : Write fresh move before after) (unique : UniqueIndex indexed entry before) :
    UniqueIndex indexed entry after := by
  -- a row that was not written has another entry than one that was
  have written : ∀ old ∈ before.rows, ∀ new, key new = key old → move before old new →
      indexed new → ∀ other ∈ before.rows, key other ≠ key new → indexed other →
        entry other ≠ entry new := by
    intro old oldMember new same moved newIndexed other otherMember different otherIndexed
    rcases kept old oldMember new moved newIndexed with ⟨oldIndexed, sameEntry⟩ | unused
    · rw [sameEntry]
      intro equalEntry
      obtain rfl := unique other otherMember old oldMember otherIndexed oldIndexed equalEntry
      exact different same.symm
    · exact unused other otherMember otherIndexed
  intro first firstMember second secondMember firstIndexed secondIndexed sameEntry
  cases write with
  | insert admissible inserted =>
      rw [(Table.insert?_eq_some inserted).1, List.mem_append, List.mem_singleton]
        at firstMember secondMember
      rcases firstMember with firstOld | rfl <;> rcases secondMember with secondOld | rfl
      · exact unique first firstOld second secondOld firstIndexed secondIndexed sameEntry
      · exact absurd sameEntry (created _ admissible secondIndexed first firstOld firstIndexed)
      · exact absurd sameEntry.symm
          (created _ admissible firstIndexed second secondOld secondIndexed)
      · rfl
  | save oldMember same moved =>
      rcases Table.mem_save.mp firstMember with ⟨rfl, _⟩ | ⟨firstOld, firstKey⟩ <;>
        rcases Table.mem_save.mp secondMember with ⟨rfl, _⟩ | ⟨secondOld, secondKey⟩
      · rfl
      · exact absurd sameEntry.symm
          (written _ oldMember _ same moved firstIndexed second secondOld secondKey secondIndexed)
      · exact absurd sameEntry
          (written _ oldMember _ same moved secondIndexed first firstOld firstKey firstIndexed)
      · exact unique first firstOld second secondOld firstIndexed secondIndexed sameEntry

theorem Writes.uniqueIndex {Entry : Type*} {indexed : Row → Prop} {entry : Row → Entry}
    (created : ∀ table row, fresh table row → indexed row →
      ∀ other ∈ table.rows, indexed other → entry other ≠ entry row)
    (kept : ∀ table, ∀ old ∈ table.rows, ∀ new, move table old new → indexed new →
      (indexed old ∧ entry new = entry old) ∨
        ∀ other ∈ table.rows, indexed other → entry other ≠ entry new)
    (writes : Writes fresh move before after) (unique : UniqueIndex indexed entry before) :
    UniqueIndex indexed entry after := by
  induction writes with
  | refl => exact unique
  | tail _ write ih => exact write.uniqueIndex (created _) (kept _) ih

end

end NaturalMold.KeyedTables

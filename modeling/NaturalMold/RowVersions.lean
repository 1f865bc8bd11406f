import NaturalMold.KeyedTables

/-!
# Uncommitted versions of rows

A transaction writes new versions of rows and holds a lock on each row that it has written, until
it installs its versions or drops them.
-/

namespace NaturalMold.RowVersions

open KeyedTables

variable {Row Key : Type*} {key : Row → Key}

inductive Phase
  | active
  | committed
  | rolledBack
  deriving DecidableEq

/-- The versions that a transaction has written. -/
structure Writer (Row : Type*) where
  written : List Row
  phase : Phase
  deriving DecidableEq

def Writer.begun : Writer Row where
  written := []
  phase := .active

section Versions

variable [DecidableEq Key]

/-- Write the versions of a transaction into the table. -/
def install (table : Table key) (written : List Row) : Table key where
  rows := table.rows.map fun old => (written.find? fun row => key row = key old).getD old
  distinct := by
    have keys : ∀ old, key ((written.find? fun row => key row = key old).getD old) = key old := by
      intro old
      cases found : written.find? fun row => key row = key old with
      | none => rfl
      | some row => simpa using List.find?_some found
    rw [List.map_map, Function.comp_def, funext keys]
    exact table.distinct

def view (table : Table key) (written : List Row) (wanted : Key) : Option Row :=
  (written.find? fun row => key row = wanted).or (table.get? wanted)

theorem view_eq_some {table : Table key} {written : List Row} {wanted : Key} {row : Row}
    (seen : view table written wanted = some row) :
    key row = wanted ∧ (row ∈ written ∨
      (row ∈ table.rows ∧ ∀ other ∈ written, key other ≠ wanted)) := by
  rw [view, Option.or_eq_some_iff] at seen
  rcases seen with own | ⟨notOwn, stored⟩
  · exact ⟨by simpa using List.find?_some own, Or.inl (List.mem_of_find?_eq_some own)⟩
  · obtain ⟨member, same⟩ := Table.get?_eq_some_iff.mp stored
    exact ⟨same, Or.inr ⟨member, by simpa using notOwn⟩⟩

theorem find?_eq_some_of_nodup {written : List Row} (distinct : (written.map key).Nodup)
    {row : Row} (member : row ∈ written) :
    (written.find? fun other => key other = key row) = some row :=
  Table.get?_eq_some_iff.mpr (⟨member, rfl⟩ :
    row ∈ (⟨written, distinct⟩ : Table key).rows ∧ key row = key row)

theorem mem_install {table : Table key} {written : List Row}
    (distinct : (written.map key).Nodup) {row : Row} :
    row ∈ (install table written).rows ↔
      (row ∈ table.rows ∧ ∀ other ∈ written, key other ≠ key row) ∨
        (row ∈ written ∧ ∃ old ∈ table.rows, key old = key row) := by
  rw [install, List.mem_map]
  constructor
  · rintro ⟨old, member, rfl⟩
    cases found : written.find? fun row => key row = key old with
    | none => exact Or.inl ⟨member, by simpa using found⟩
    | some row =>
        have same : key row = key old := by simpa using List.find?_some found
        exact Or.inr ⟨List.mem_of_find?_eq_some found, old, member, same.symm⟩
  · rintro (⟨member, others⟩ | ⟨member, old, oldMember, same⟩)
    · refine ⟨row, member, ?_⟩
      rw [List.find?_eq_none.mpr (by simpa using others)]
      rfl
    · refine ⟨old, oldMember, ?_⟩
      rw [same, find?_eq_some_of_nodup distinct member]
      rfl

def lockedByOther (key : Row → Key) (writers : List (Writer Row)) (index : ℕ) (wanted : Key) :
    Bool :=
  writers.zipIdx.any fun other =>
    other.2 ≠ index && other.1.phase = .active && other.1.written.any fun row => key row = wanted

theorem ne_of_unlocked {writers : List (Writer Row)} {index : ℕ} {wanted : Key}
    (unlocked : lockedByOther key writers index wanted = false) {other : ℕ} {writer : Writer Row}
    (found : writers[other]? = some writer) (differs : other ≠ index)
    (active : writer.phase = .active) {row : Row} (member : row ∈ writer.written) :
    key row ≠ wanted := by
  intro same
  have listed : (writer, other) ∈ writers.zipIdx := List.mem_zipIdx_iff_getElem?.mpr found
  have free := List.any_eq_false.mp unlocked _ listed
  apply free
  simp only [differs, active, ne_eq, not_false_eq_true, decide_true, Bool.true_and,
    List.any_eq_true, decide_eq_true_eq]
  exact ⟨row, member, same⟩

end Versions

/-- The versions that transactions have written since the table was `initial`. -/
structure Consistent (settled : Row → Prop) (initial table : Table key)
    (writers : List (Writer Row)) : Prop where
  distinct : ∀ writer ∈ writers, (writer.written.map key).Nodup
  allSettled : ∀ writer ∈ writers, ∀ row ∈ writer.written, settled row
  apart : ∀ (first second : ℕ) (one other : Writer Row), writers[first]? = some one →
    writers[second]? = some other → first ≠ second → one.phase ≠ .rolledBack →
    other.phase ≠ .rolledBack →
      ∀ row ∈ one.written, ∀ another ∈ other.written, key row ≠ key another
  unsettled : ∀ writer ∈ writers, writer.phase = .active → ∀ row ∈ writer.written,
    ∃ old ∈ table.rows, key old = key row ∧ ¬ settled old
  installed : ∀ writer ∈ writers, writer.phase = .committed → ∀ row ∈ writer.written,
    row ∈ table.rows
  origin : ∀ row ∈ table.rows, row ∈ initial.rows ∨
    ∃ writer ∈ writers, writer.phase = .committed ∧ row ∈ writer.written

namespace Consistent

variable {settled : Row → Prop} {initial table : Table key} {writers : List (Writer Row)}

theorem start (settled : Row → Prop) (initial : Table key) :
    Consistent settled initial initial [] :=
  ⟨nofun, nofun, nofun, nofun, nofun, fun _ member => Or.inl member⟩

theorem begin (consistent : Consistent settled initial table writers) :
    Consistent settled initial table (writers ++ [.begun]) := by
  have cases : ∀ writer ∈ writers ++ [Writer.begun], writer ∈ writers ∨ writer = .begun := by
    intro writer member
    simpa using member
  constructor
  · intro writer member
    rcases cases writer member with old | rfl
    · exact consistent.distinct writer old
    · exact List.nodup_nil
  · intro writer member row written
    rcases cases writer member with old | rfl
    · exact consistent.allSettled writer old row written
    · exact absurd written List.not_mem_nil
  · intro first second one other foundOne foundOther differs oneStays otherStays row written
      another alsoWritten
    have fromOld : ∀ (index : ℕ) (writer : Writer Row),
        (writers ++ [.begun])[index]? = some writer → ∀ row ∈ writer.written,
          writers[index]? = some writer := by
      intro index writer found row written
      rw [List.getElem?_append] at found
      split at found
      · exact found
      · have begun := List.mem_of_getElem? found
        rw [List.mem_singleton.mp begun] at written
        exact absurd written List.not_mem_nil
    exact consistent.apart first second one other (fromOld _ _ foundOne _ written)
      (fromOld _ _ foundOther _ alsoWritten) differs oneStays otherStays row written another
      alsoWritten
  · intro writer member active row written
    rcases cases writer member with old | rfl
    · exact consistent.unsettled writer old active row written
    · exact absurd written List.not_mem_nil
  · intro writer member committed
    rcases cases writer member with old | rfl
    · exact consistent.installed writer old committed
    · cases committed
  · intro row member
    apply (consistent.origin row member).imp_right
    rintro ⟨writer, old, committed, written⟩
    exact ⟨writer, List.mem_append_left _ old, committed, written⟩

variable {index : ℕ} {writer : Writer Row}

theorem replace (consistent : Consistent settled initial table writers) {changed : Writer Row}
    (found : writers[index]? = some writer) {after : Table key}
    (distinct : (changed.written.map key).Nodup) (allSettled : ∀ row ∈ changed.written, settled row)
    (apart : ∀ (position : ℕ) (other : Writer Row), writers[position]? = some other →
      position ≠ index → changed.phase ≠ .rolledBack → other.phase ≠ .rolledBack →
        ∀ row ∈ changed.written, ∀ another ∈ other.written, key row ≠ key another)
    (unsettled : changed.phase = .active → ∀ row ∈ changed.written,
      ∃ old ∈ after.rows, key old = key row ∧ ¬ settled old)
    (installed : changed.phase = .committed → ∀ row ∈ changed.written, row ∈ after.rows)
    (others : ∀ (position : ℕ) (other : Writer Row), writers[position]? = some other →
      position ≠ index → other.phase ≠ .rolledBack → ∀ row ∈ other.written,
        ∀ old ∈ table.rows, key old = key row → old ∈ after.rows)
    (origin : ∀ row ∈ after.rows, row ∈ initial.rows ∨
      ∃ other ∈ writers.set index changed, other.phase = .committed ∧ row ∈ other.written) :
    Consistent settled initial after (writers.set index changed) := by
  have cases : ∀ (position : ℕ) (other : Writer Row),
      (writers.set index changed)[position]? = some other →
        (position = index ∧ other = changed) ∨
          (position ≠ index ∧ writers[position]? = some other) := by
    intro position other atPosition
    by_cases same : position = index
    · subst same
      obtain ⟨bound, _⟩ := List.getElem?_eq_some_iff.mp found
      rw [List.getElem?_set_self bound] at atPosition
      exact Or.inl ⟨rfl, (Option.some.inj atPosition).symm⟩
    · rw [List.getElem?_set_ne (Ne.symm same)] at atPosition
      exact Or.inr ⟨same, atPosition⟩
  constructor
  · intro other member
    obtain ⟨position, atPosition⟩ := List.mem_iff_getElem?.mp member
    rcases cases position other atPosition with ⟨_, rfl⟩ | ⟨_, old⟩
    · exact distinct
    · exact consistent.distinct other (List.mem_of_getElem? old)
  · intro other member
    obtain ⟨position, atPosition⟩ := List.mem_iff_getElem?.mp member
    rcases cases position other atPosition with ⟨_, rfl⟩ | ⟨_, old⟩
    · exact allSettled
    · exact consistent.allSettled other (List.mem_of_getElem? old)
  · intro first second one other foundOne foundOther differs oneStays otherStays
    rcases cases first one foundOne with ⟨rfl, rfl⟩ | ⟨firstDiffers, oldOne⟩ <;>
      rcases cases second other foundOther with ⟨rfl, rfl⟩ | ⟨secondDiffers, oldOther⟩
    · exact absurd rfl differs
    · exact apart second other oldOther secondDiffers oneStays otherStays
    · intro row written another alsoWritten same
      exact apart first one oldOne firstDiffers otherStays oneStays another alsoWritten row written
        same.symm
    · exact consistent.apart first second one other oldOne oldOther differs oneStays otherStays
  · intro other member active row written
    obtain ⟨position, atPosition⟩ := List.mem_iff_getElem?.mp member
    rcases cases position other atPosition with ⟨_, rfl⟩ | ⟨differs, before⟩
    · exact unsettled active row written
    · obtain ⟨old, stored, same, open_⟩ :=
        consistent.unsettled other (List.mem_of_getElem? before) active row written
      have stays : other.phase ≠ .rolledBack := by
        rw [active]
        nofun
      exact ⟨old, others position other before differs stays row written old stored same, same,
        open_⟩
  · intro other member committed row written
    obtain ⟨position, atPosition⟩ := List.mem_iff_getElem?.mp member
    rcases cases position other atPosition with ⟨_, rfl⟩ | ⟨differs, before⟩
    · exact installed committed row written
    · have stored :=
        consistent.installed other (List.mem_of_getElem? before) committed row written
      have stays : other.phase ≠ .rolledBack := by
        rw [committed]
        nofun
      exact others position other before differs stays row written row stored rfl
  · exact origin

theorem mem_set_of_committed {changed other : Writer Row} (found : writers[index]? = some writer)
    (active : writer.phase = .active) (member : other ∈ writers)
    (committed : other.phase = .committed) : other ∈ writers.set index changed := by
  obtain ⟨position, atPosition⟩ := List.mem_iff_getElem?.mp member
  have differs : index ≠ position := by
    rintro rfl
    rw [found] at atPosition
    cases atPosition
    exact absurd (active.symm.trans committed) nofun
  exact List.mem_iff_getElem?.mpr ⟨position, by rw [List.getElem?_set_ne differs, atPosition]⟩

theorem origin_set (consistent : Consistent settled initial table writers) {changed : Writer Row}
    (found : writers[index]? = some writer) (active : writer.phase = .active) {row : Row}
    (stored : row ∈ table.rows) :
    row ∈ initial.rows ∨
      ∃ other ∈ writers.set index changed, other.phase = .committed ∧ row ∈ other.written := by
  apply (consistent.origin row stored).imp_right
  rintro ⟨other, member, committed, written⟩
  exact ⟨other, mem_set_of_committed found active member committed, committed, written⟩

/-- A transaction drops its versions. -/
theorem rollback (consistent : Consistent settled initial table writers)
    (found : writers[index]? = some writer) (active : writer.phase = .active) :
    Consistent settled initial table (writers.set index { writer with phase := .rolledBack }) := by
  have member := List.mem_of_getElem? found
  apply consistent.replace found
  · exact consistent.distinct writer member
  · exact consistent.allSettled writer member
  · intro _ _ _ _ stays
    exact absurd rfl stays
  · nofun
  · nofun
  · exact fun _ _ _ _ _ _ _ old stored _ => stored
  · exact fun row stored => consistent.origin_set found active stored

theorem eq_of_committed (consistent : Consistent settled initial table writers)
    {first second : ℕ} {one other : Writer Row} (foundOne : writers[first]? = some one)
    (foundOther : writers[second]? = some other) (oneCommitted : one.phase = .committed)
    (otherCommitted : other.phase = .committed) {row another : Row} (written : row ∈ one.written)
    (alsoWritten : another ∈ other.written) (same : key row = key another) : first = second := by
  by_contra differs
  exact consistent.apart first second one other foundOne foundOther differs
    (by rw [oneCommitted]; nofun) (by rw [otherCommitted]; nofun) row written another alsoWritten
    same

variable [DecidableEq Key]

theorem write (consistent : Consistent settled initial table writers)
    (found : writers[index]? = some writer) (active : writer.phase = .active) {old new : Row}
    (same : key new = key old) (seen : view table writer.written (key old) = some old)
    (open_ : ¬ settled old) (closed : settled new)
    (unlocked : lockedByOther key writers index (key old) = false) :
    Consistent settled initial table
      (writers.set index { writer with written := writer.written ++ [new] }) := by
  have member := List.mem_of_getElem? found
  obtain ⟨stored, ownFree⟩ :
      old ∈ table.rows ∧ ∀ other ∈ writer.written, key other ≠ key old := by
    rcases (view_eq_some seen).2 with own | stored
    · exact absurd (consistent.allSettled writer member old own) open_
    · exact stored
  -- A committed version of the row would be the row itself, which is not settled.
  have otherFree : ∀ (position : ℕ) (other : Writer Row), writers[position]? = some other →
      position ≠ index → other.phase ≠ .rolledBack →
        ∀ row ∈ other.written, key row ≠ key old := by
    intro position other atPosition differs stays row written sameKey
    have listed := List.mem_of_getElem? atPosition
    cases phase : other.phase with
    | active => exact ne_of_unlocked unlocked atPosition differs phase written sameKey
    | rolledBack => exact stays phase
    | committed =>
        have equal := table.eq_of_key_eq (consistent.installed other listed phase row written)
          stored sameKey
        exact open_ (equal ▸ consistent.allSettled other listed row written)
  have cases : ∀ row ∈ writer.written ++ [new], row ∈ writer.written ∨ row = new := by
    intro row written
    simpa using written
  apply consistent.replace found
  · rw [List.map_append, List.nodup_append]
    refine ⟨consistent.distinct writer member, List.nodup_singleton _, ?_⟩
    rintro taken takenMember _ newKey rfl
    obtain ⟨row, written, rfl⟩ := List.mem_map.mp takenMember
    rw [List.map_singleton, List.mem_singleton] at newKey
    exact ownFree row written (newKey.trans same)
  · intro row written
    rcases cases row written with before | rfl
    · exact consistent.allSettled writer member row before
    · exact closed
  · intro position other atPosition differs _ stays row written another alsoWritten sameKey
    rcases cases row written with before | rfl
    · have ownStays : writer.phase ≠ .rolledBack := by
        rw [active]
        nofun
      exact consistent.apart index position writer other found atPosition (Ne.symm differs)
        ownStays stays row before another alsoWritten sameKey
    · exact otherFree position other atPosition differs stays another alsoWritten
        (sameKey.symm.trans same)
  · intro _ row written
    rcases cases row written with before | rfl
    · exact consistent.unsettled writer member active row before
    · exact ⟨old, stored, same.symm, open_⟩
  · intro committed
    exact absurd (active.symm.trans committed) nofun
  · exact fun _ _ _ _ _ _ _ old stored _ => stored
  · exact fun row stored => consistent.origin_set found active stored

/-- A transaction commits its versions. -/
theorem commit (consistent : Consistent settled initial table writers)
    (found : writers[index]? = some writer) (active : writer.phase = .active) :
    Consistent settled initial (install table writer.written)
      (writers.set index { writer with phase := .committed }) := by
  have member := List.mem_of_getElem? found
  have distinct := consistent.distinct writer member
  have ownStays : writer.phase ≠ .rolledBack := by
    rw [active]
    nofun
  apply consistent.replace found
  · exact distinct
  · exact consistent.allSettled writer member
  · intro position other atPosition differs _ stays
    exact consistent.apart index position writer other found atPosition (Ne.symm differs) ownStays
      stays
  · nofun
  · intro _ row written
    obtain ⟨old, stored, same, _⟩ := consistent.unsettled writer member active row written
    exact (mem_install distinct).mpr (Or.inr ⟨written, old, stored, same⟩)
  · intro position other atPosition differs stays row written old stored same
    refine (mem_install distinct).mpr (Or.inl ⟨stored, fun another ownWritten sameKey => ?_⟩)
    exact consistent.apart index position writer other found atPosition (Ne.symm differs) ownStays
      stays another ownWritten row written (sameKey.trans same)
  · intro row stored
    rcases (mem_install distinct).mp stored with ⟨before, _⟩ | ⟨written, _⟩
    · exact consistent.origin_set found active before
    · obtain ⟨bound, _⟩ := List.getElem?_eq_some_iff.mp found
      exact Or.inr ⟨_, List.mem_set bound _, rfl, written⟩

theorem mem_install_of_settled (consistent : Consistent settled initial table writers)
    (member : writer ∈ writers) (active : writer.phase = .active) {row : Row}
    (stored : row ∈ table.rows) (closed : settled row) :
    row ∈ (install table writer.written).rows := by
  refine (mem_install (consistent.distinct writer member)).mpr (Or.inl ⟨stored, ?_⟩)
  intro other written same
  obtain ⟨old, oldStored, oldSame, open_⟩ := consistent.unsettled writer member active other written
  have equal := table.eq_of_key_eq oldStored stored (oldSame.trans same)
  exact open_ (equal ▸ closed)

end Consistent

end NaturalMold.RowVersions

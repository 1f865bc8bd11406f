import Mathlib.Data.List.Nodup
import NaturalMold.RevisionSnapshots

/-! # When the committed revisions keep their snapshots -/

namespace NaturalMold.RevisionSnapshots

open CronExpressions (Text)
open StepRuns (run EveryStep)

variable {Files : Type*} {store : RevisionStore Files}

/-- The number of a row is unique and is that of its key. -/
structure Consistent (store : RevisionStore Files) : Prop where
  numbers : (store.rows.map (·.number)).Nodup
  key : ∀ row ∈ store.rows, row.objectKey = revisionPath row.number

theorem revisionPath_injective : Function.Injective revisionPath := by
  intro number other same
  rw [revisionPath, revisionPath, List.cons_append, List.cons_append, List.cons.injEq,
    List.append_cancel_right_eq] at same
  exact CronExpressions.toDigits_injective same.2

theorem consistent_empty : Consistent (RevisionStore.empty : RevisionStore Files) :=
  ⟨List.nodup_nil, fun _ member => absurd member List.not_mem_nil⟩

theorem keepsSnapshots_empty : KeepsSnapshots (RevisionStore.empty : RevisionStore Files) :=
  ⟨fun _ member => absurd member List.not_mem_nil, List.nodup_nil⟩

theorem Consistent.keys (consistent : Consistent store) :
    ((store.rows.filter fun row => row.owner = none).map (·.objectKey)).Nodup := by
  have paths : (store.rows.map (·.objectKey)) =
      (store.rows.map (·.number)).map revisionPath := by
    rw [List.map_map]
    exact List.map_congr_left consistent.key
  have nodup : (store.rows.map (·.objectKey)).Nodup :=
    paths ▸ List.Nodup.map revisionPath_injective consistent.numbers
  exact nodup.sublist (List.filter_sublist.map _)

theorem Consistent.keepsSnapshots_iff (consistent : Consistent store) :
    KeepsSnapshots store ↔ ∀ row ∈ store.rows, row.owner = none → Unmarked store row →
      store.snapshots (revisionPath row.number) = some row.files := by
  constructor
  · intro keeps row member committed unmarked
    rw [← consistent.key row member]
    exact keeps.snapshot row member committed unmarked
  · intro snapshot
    refine ⟨fun row member committed unmarked => ?_, consistent.keys⟩
    rw [consistent.key row member]
    exact snapshot row member committed unmarked

namespace RevisionStore

@[simp]
theorem number_committedRow (store : RevisionStore Files) (tx : ℕ) (row : RevisionRow Files) :
    (store.committedRow tx row).number = row.number := by
  rw [committedRow]
  split <;> rfl

@[simp]
theorem objectKey_committedRow (store : RevisionStore Files) (tx : ℕ) (row : RevisionRow Files) :
    (store.committedRow tx row).objectKey = row.objectKey := by
  rw [committedRow]
  split <;> rfl

@[simp]
theorem files_committedRow (store : RevisionStore Files) (tx : ℕ) (row : RevisionRow Files) :
    (store.committedRow tx row).files = row.files := by
  rw [committedRow]
  split <;> rfl

theorem owner_committedRow {tx : ℕ} {row : RevisionRow Files} :
    (store.committedRow tx row).owner = none ↔ row.owner = none ∨ row.owner = some tx := by
  rw [committedRow]
  split
  · rename_i seen
    exact iff_of_true rfl seen
  · rename_i unseen
    exact iff_of_false (fun none => unseen (Or.inl none)) unseen

theorem pruned_committedRow {tx : ℕ} {row : RevisionRow Files}
    (seen : row.owner = none ∨ row.owner = some tx) :
    (store.committedRow tx row).pruned = false ↔
      row.pruned = false ∧ (tx, row.number) ∉ store.marks := by
  rw [committedRow, if_pos seen, Bool.or_eq_false_iff, ← Bool.not_eq_true, ← Bool.not_eq_true,
    List.contains_iff_mem]

end RevisionStore

theorem mem_marks_close {tx : ℕ} {mark : ℕ × ℕ} :
    mark ∈ (store.close tx).marks ↔ mark ∈ store.marks ∧ mark.1 ≠ tx := by
  rw [RevisionStore.close, List.mem_filter, decide_eq_true_eq]

theorem Consistent.rollback (consistent : Consistent store) (tx : ℕ) :
    Consistent (store.rollback tx) where
  numbers := consistent.numbers.sublist (List.filter_sublist.map _)
  key := fun row member => consistent.key row (List.mem_of_mem_filter member)

theorem Consistent.commit (consistent : Consistent store) (tx : ℕ) :
    Consistent (store.commit tx) where
  numbers := by
    rw [RevisionStore.commit, List.map_map]
    simpa [Function.comp_def] using consistent.numbers
  key := by
    intro row member
    obtain ⟨before, beforeMember, rfl⟩ := List.mem_map.mp member
    simpa using consistent.key before beforeMember

theorem Consistent.insertRow (consistent : Consistent store) (tx number : ℕ) (files : Files)
    (createdAt : ℕ) : Consistent (store.insertRow tx number files createdAt) := by
  rw [RevisionStore.insertRow]
  split
  · exact consistent.rollback tx
  · split
    · exact consistent
    · rename_i free
      rw [List.any_eq_true] at free
      have fresh : number ∉ store.rows.map (·.number) := by
        rintro taken
        obtain ⟨row, member, same⟩ := List.mem_map.mp taken
        exact free ⟨row, member, decide_eq_true same⟩
      refine ⟨?_, fun row member => ?_⟩
      · rw [List.map_append]
        exact List.nodup_append.mpr ⟨consistent.numbers, List.nodup_singleton _, by
          rintro old oldMember new newMember rfl
          rw [List.map_singleton, List.mem_singleton] at newMember
          replace newMember : old = number := newMember
          exact fresh (newMember ▸ oldMember)⟩
      · rcases List.mem_append.mp member with old | new
        · exact consistent.key row old
        · rw [List.mem_singleton] at new
          rw [new]

theorem Consistent.step (consistent : Consistent store) (action : RevisionAction Files) :
    Consistent (store.step action) := by
  cases action with
  | readNumber tx => exact ⟨consistent.numbers, consistent.key⟩
  | writeSnapshot tx files =>
      simp only [RevisionStore.step]
      split
      · exact ⟨consistent.numbers, consistent.key⟩
      · exact consistent
  | insertRow tx createdAt =>
      simp only [RevisionStore.step]
      split
      · exact consistent.insertRow _ _ _ _
      · exact consistent
  | readRevisions tx protectedNumbers cutoff => exact ⟨consistent.numbers, consistent.key⟩
  | deleteSnapshot tx =>
      simp only [RevisionStore.step]
      split
      · exact ⟨consistent.numbers, consistent.key⟩
      · exact consistent
  | commit tx => exact consistent.commit tx
  | rollback tx => exact consistent.rollback tx

theorem keepsSnapshots_rollback_iff (consistent : Consistent store) (keeps : KeepsSnapshots store)
    (tx : ℕ) :
    KeepsSnapshots (store.rollback tx) ↔ EndsIntact store tx (unmarkedAgain store tx) := by
  constructor
  · intro kept row member unpruned others
    rw [unmarkedAgain, List.mem_filter, Bool.and_eq_true, decide_eq_true_eq] at member
    obtain ⟨listed, committed, -⟩ := member
    refine kept.snapshot row ?_ committed ⟨unpruned, fun other marked => ?_⟩
    · exact List.mem_filter.mpr ⟨listed, decide_eq_true (committed ▸ (Option.some_ne_none tx).symm)⟩
    · obtain ⟨marked, different⟩ := mem_marks_close.mp marked
      exact others other different marked
  · intro intact
    refine ⟨fun row member committed unmarked => ?_, (consistent.rollback tx).keys⟩
    have listed := List.mem_of_mem_filter member
    have others : ∀ other, other ≠ tx → (other, row.number) ∉ store.marks :=
      fun other different marked => unmarked.2 other (mem_marks_close.mpr ⟨marked, different⟩)
    by_cases marked : (tx, row.number) ∈ store.marks
    · refine intact row (List.mem_filter.mpr ⟨listed, ?_⟩) unmarked.1 others
      rw [Bool.and_eq_true, decide_eq_true_eq, List.contains_iff_mem]
      exact ⟨committed, marked⟩
    · refine keeps.snapshot row listed committed ⟨unmarked.1, fun other => ?_⟩
      by_cases same : other = tx
      · rwa [same]
      · exact others other same

theorem keepsSnapshots_commit_iff (consistent : Consistent store) (keeps : KeepsSnapshots store)
    (tx : ℕ) :
    KeepsSnapshots (store.commit tx) ↔ EndsIntact store tx (store.rows.filter fun row =>
      row.owner = some tx && !store.marks.contains (tx, row.number)) := by
  constructor
  · intro kept row member unpruned others
    rw [List.mem_filter, Bool.and_eq_true, decide_eq_true_eq, Bool.not_eq_true',
      ← Bool.not_eq_true, List.contains_iff_mem] at member
    obtain ⟨listed, own, unmarked⟩ := member
    have stands := kept.snapshot (store.committedRow tx row)
      (List.mem_map.mpr ⟨row, listed, rfl⟩)
      (RevisionStore.owner_committedRow.mpr (Or.inr own))
      ⟨(RevisionStore.pruned_committedRow (Or.inr own)).mpr ⟨unpruned, unmarked⟩,
        fun other marked => by
          obtain ⟨marked, different⟩ := mem_marks_close.mp marked
          rw [RevisionStore.number_committedRow] at marked
          exact others other different marked⟩
    rwa [RevisionStore.objectKey_committedRow, RevisionStore.files_committedRow] at stands
  · intro intact
    refine ⟨fun row member committed unmarked => ?_, (consistent.commit tx).keys⟩
    obtain ⟨before, listed, rfl⟩ := List.mem_map.mp member
    have seen := RevisionStore.owner_committedRow.mp committed
    obtain ⟨unpruned, unmarkedHere⟩ := (RevisionStore.pruned_committedRow seen).mp unmarked.1
    have others : ∀ other, other ≠ tx → (other, before.number) ∉ store.marks := by
      intro other different marked
      apply unmarked.2 other
      rw [RevisionStore.number_committedRow]
      exact mem_marks_close.mpr ⟨marked, different⟩
    rw [RevisionStore.objectKey_committedRow, RevisionStore.files_committedRow]
    rcases seen with old | own
    · refine keeps.snapshot before listed old ⟨unpruned, fun other => ?_⟩
      by_cases same : other = tx
      · rwa [same]
      · exact others other same
    · refine intact before (List.mem_filter.mpr ⟨listed, ?_⟩) unpruned others
      rw [Bool.and_eq_true, decide_eq_true_eq, Bool.not_eq_true', ← Bool.not_eq_true,
        List.contains_iff_mem]
      exact ⟨own, unmarkedHere⟩

theorem keepsSnapshots_write_iff (consistent : Consistent store) (keeps : KeepsSnapshots store)
    (tx number : ℕ) (files : Files) :
    KeepsSnapshots { store with
        snapshots := Function.update store.snapshots (revisionPath number) (some files)
        drafts := Function.update store.drafts tx (some (number, some files)) } ↔
      ∀ row ∈ store.rows, row.number = number → row.owner = none → Unmarked store row →
        row.files = files := by
  have written : Consistent { store with
      snapshots := Function.update store.snapshots (revisionPath number) (some files)
      drafts := Function.update store.drafts tx (some (number, some files)) } :=
    ⟨consistent.numbers, consistent.key⟩
  rw [written.keepsSnapshots_iff]
  constructor
  · intro kept row member same committed unmarked
    have stands := kept row member committed unmarked
    change Function.update store.snapshots (revisionPath number) (some files)
      (revisionPath row.number) = some row.files at stands
    rw [same, Function.update_self, Option.some.injEq] at stands
    exact stands.symm
  · intro fits row member committed unmarked
    replace unmarked : Unmarked store row := unmarked
    change Function.update store.snapshots (revisionPath number) (some files)
      (revisionPath row.number) = some row.files
    by_cases same : row.number = number
    · rw [same, Function.update_self, fits row member same committed unmarked]
    · rw [Function.update_of_ne fun equal => same (revisionPath_injective equal)]
      exact consistent.keepsSnapshots_iff.mp keeps row member committed unmarked

theorem keepsSnapshots_delete (consistent : Consistent store) (keeps : KeepsSnapshots store)
    (tx number : ℕ) (later : List ℕ) :
    KeepsSnapshots { store with
      snapshots := Function.update store.snapshots (revisionPath number) none
      pruning := Function.update store.pruning tx later
      marks := store.marks ++ [(tx, number)] } := by
  have deleted : Consistent { store with
      snapshots := Function.update store.snapshots (revisionPath number) none
      pruning := Function.update store.pruning tx later
      marks := store.marks ++ [(tx, number)] } := ⟨consistent.numbers, consistent.key⟩
  refine deleted.keepsSnapshots_iff.mpr fun row member committed unmarked => ?_
  have different : row.number ≠ number := by
    rintro rfl
    exact unmarked.2 tx (List.mem_append_right _ (List.mem_singleton_self _))
  change Function.update store.snapshots (revisionPath number) none (revisionPath row.number) =
    some row.files
  rw [Function.update_of_ne fun equal => different (revisionPath_injective equal)]
  exact consistent.keepsSnapshots_iff.mp keeps row member committed
    ⟨unmarked.1, fun other marked => unmarked.2 other (List.mem_append_left _ marked)⟩

theorem keepsSnapshots_insertRow_iff (consistent : Consistent store)
    (keeps : KeepsSnapshots store) (tx number : ℕ) (files : Files) (createdAt : ℕ) :
    KeepsSnapshots (store.insertRow tx number files createdAt) ↔
      (store.conflicts tx number = true → EndsIntact store tx (unmarkedAgain store tx)) := by
  have after := consistent.insertRow tx number files createdAt
  rw [RevisionStore.insertRow] at after ⊢
  by_cases taken : store.conflicts tx number = true
  · rw [if_pos taken, keepsSnapshots_rollback_iff consistent keeps]
    exact ⟨fun intact _ => intact, fun intact => intact taken⟩
  · refine iff_of_true ?_ fun conflict => absurd conflict taken
    rw [if_neg taken] at after ⊢
    split at after
    · rename_i waits
      rwa [if_pos waits]
    · rename_i free
      rw [if_neg free]
      refine ⟨fun row member committed unmarked => ?_, after.keys⟩
      rcases List.mem_append.mp member with old | new
      · exact keeps.snapshot row old committed unmarked
      · rw [List.mem_singleton] at new
        rw [new] at committed
        cases committed

/-- A step leaves the committed rows with their files exactly when it is careful. -/
theorem keepsSnapshots_step_iff (consistent : Consistent store) (keeps : KeepsSnapshots store)
    (action : RevisionAction Files) :
    KeepsSnapshots (store.step action) ↔ Careful store action := by
  cases action with
  | readNumber tx => exact iff_of_true ⟨keeps.snapshot, keeps.keys⟩ trivial
  | writeSnapshot tx files =>
      simp only [RevisionStore.step, Careful]
      split
      · exact keepsSnapshots_write_iff consistent keeps _ _ _
      · exact iff_of_true keeps trivial
  | insertRow tx createdAt =>
      simp only [RevisionStore.step, Careful]
      split
      · exact keepsSnapshots_insertRow_iff consistent keeps _ _ _ _
      · exact iff_of_true keeps trivial
  | readRevisions tx protectedNumbers cutoff =>
      exact iff_of_true ⟨keeps.snapshot, keeps.keys⟩ trivial
  | deleteSnapshot tx =>
      refine iff_of_true ?_ trivial
      simp only [RevisionStore.step]
      split
      · exact keepsSnapshots_delete consistent keeps _ _ _
      · exact keeps
  | commit tx => exact keepsSnapshots_commit_iff consistent keeps tx
  | rollback tx => exact keepsSnapshots_rollback_iff consistent keeps tx

/-- All along a run, every committed revision that is not marked keeps its own snapshot
and its own key, exactly when every step of the run is careful. -/
theorem run_keepsSnapshots_iff (actions : List (RevisionAction Files)) :
    (∀ front, front <+: actions →
        KeepsSnapshots (run RevisionStore.step (RevisionStore.empty : RevisionStore Files) front)) ↔
      EveryStep RevisionStore.step Careful (RevisionStore.empty : RevisionStore Files) actions :=
  StepRuns.forall_prefix_iff_everyStep Consistent KeepsSnapshots
    (fun _ action consistent => consistent.step action)
    (fun _ action consistent keeps => keepsSnapshots_step_iff consistent keeps action)
    consistent_empty keepsSnapshots_empty actions

/-- Two transactions read the same number; the second replaces the snapshot of the first
after it has committed. -/
def lateWriter : List (RevisionAction Text) :=
  [.readNumber 1, .readNumber 2, .writeSnapshot 1 "first".toList, .insertRow 1 0, .commit 1,
    .writeSnapshot 2 "second".toList]

theorem lateWriter_not_keepsSnapshots :
    ¬ ∀ front, front <+: lateWriter →
      KeepsSnapshots (run RevisionStore.step (RevisionStore.empty : RevisionStore Text) front) := by
  intro keeps
  have last := keeps lateWriter (List.prefix_refl _)
  have stands := last.snapshot ⟨1, revisionPath 1, "first".toList, 0, false, none⟩
    (List.mem_singleton_self _) rfl ⟨rfl, fun _ => List.not_mem_nil⟩
  exact absurd stands (by decide)

end NaturalMold.RevisionSnapshots

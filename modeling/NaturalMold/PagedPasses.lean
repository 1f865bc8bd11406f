import NaturalMold.KeyedTables

/-!
# Passes over matching rows, a page at a time

A pass reads the rows that match a selection in pages of a bounded size, and handles the rows of a
page one after another.
-/

namespace NaturalMold.PagedPasses

open KeyedTables

variable {Row Key Outside : Type*} {key : Row → Key}

/-- How the rows are selected, listed and handled.  An attempt knows the number of attempts before
it and what lies outside the table; it either gives the row to write or fails. -/
structure Pass (Row Outside : Type*) where
  batchSize : ℕ
  matching : Row → Bool
  current : Outside → Bool
  attempt : ℕ → Row → Outside → Option Row × Outside
  arrange : ℕ → List Row → List Row
  perm : ∀ page rows, (arrange page rows).Perm rows

structure Progress (key : Row → Key) (Outside : Type*) where
  table : Table key
  outside : Outside
  failed : List Key := []
  attempted : List Key := []
  handled : ℕ := 0

section Runs

variable [DecidableEq Key] (pass : Pass Row Outside)

def attemptRow (progress : Progress key Outside) (row : Row) : Progress key Outside :=
  match pass.attempt progress.attempted.length row progress.outside with
  | (some updated, outside) =>
      { progress with
        table := progress.table.save updated
        outside := outside
        attempted := progress.attempted ++ [key row]
        handled := progress.handled + 1 }
  | (none, outside) =>
      { progress with
        outside := outside
        attempted := progress.attempted ++ [key row]
        failed := key row :: progress.failed }

def candidates (progress : Progress key Outside) : List Row :=
  progress.table.rows.filter fun row => pass.matching row && key row ∉ progress.failed

def fetch (page : ℕ) (progress : Progress key Outside) : List Row :=
  (pass.arrange page (candidates pass progress)).take pass.batchSize

def run : ℕ → ℕ → Progress key Outside → Option (Progress key Outside)
  | 0, _, _ => none
  | fuel + 1, page, progress =>
      if !pass.current progress.outside then some progress
      else
        let rows := fetch pass page progress
        if rows.isEmpty then some progress
        else
          let next := rows.foldl (attemptRow pass) progress
          if rows.length < pass.batchSize then some next else run fuel (page + 1) next

end Runs

/-- A written row keeps its key and leaves the selection, and no attempt ends the pass. -/
structure Lawful (key : Row → Key) (pass : Pass Row Outside) : Prop where
  positive : 0 < pass.batchSize
  keeps : ∀ count row outside updated,
    (pass.attempt count row outside).1 = some updated → key updated = key row
  leaves : ∀ count row outside updated, pass.matching row →
    (pass.attempt count row outside).1 = some updated → pass.matching updated = false
  current : ∀ count row outside, pass.matching row → pass.current outside →
    pass.current (pass.attempt count row outside).2

structure Consistent (pass : Pass Row Outside) (initial : Table key)
    (progress : Progress key Outside) : Prop where
  current : pass.current progress.outside
  once : progress.attempted.Nodup
  selected : ∀ wanted ∈ progress.attempted,
    wanted ∈ (initial.rows.filter pass.matching).map key
  failedOnce : progress.failed.Nodup
  failedAttempted : ∀ wanted ∈ progress.failed, wanted ∈ progress.attempted
  left : ∀ row, row ∈ progress.table.rows ∧ pass.matching row ↔
    row ∈ initial.rows ∧ pass.matching row ∧ (key row ∈ progress.attempted →
      key row ∈ progress.failed)
  count : progress.handled + progress.failed.length = progress.attempted.length

/-- Every matching row was attempted once, and the rows that failed are those that still match. -/
structure Completed (pass : Pass Row Outside) (initial : Table key)
    (final : Progress key Outside) : Prop where
  attempted : final.attempted.Perm ((initial.rows.filter pass.matching).map key)
  failedOnce : final.failed.Nodup
  failedAttempted : ∀ wanted ∈ final.failed, wanted ∈ final.attempted
  left : ∀ row, row ∈ final.table.rows ∧ pass.matching row ↔
    row ∈ initial.rows ∧ pass.matching row ∧ key row ∈ final.failed
  count : final.handled + final.failed.length = (initial.rows.filter pass.matching).length

section Proofs

variable {pass : Pass Row Outside} {initial : Table key} {progress : Progress key Outside}

theorem consistent_start {outside : Outside} (current : pass.current outside) :
    Consistent pass initial { table := initial, outside := outside } where
  current := current
  once := List.nodup_nil
  selected := nofun
  failedOnce := List.nodup_nil
  failedAttempted := nofun
  left row := by simp
  count := rfl

theorem Consistent.length_le (consistent : Consistent pass initial progress) :
    progress.attempted.length ≤ (initial.rows.filter pass.matching).length := by
  rw [← @List.length_map _ _ _ key]
  exact (List.subperm_of_subset consistent.once consistent.selected).length_le

theorem Consistent.completed (consistent : Consistent pass initial progress)
    (all : ∀ row ∈ initial.rows, pass.matching row → key row ∈ progress.attempted) :
    Completed pass initial progress := by
  have attempted : progress.attempted.Perm ((initial.rows.filter pass.matching).map key) := by
    rw [List.perm_ext_iff_of_nodup consistent.once
      (initial.distinct.sublist (List.filter_sublist.map key))]
    intro wanted
    refine ⟨consistent.selected wanted, fun member => ?_⟩
    obtain ⟨row, listed, rfl⟩ := List.mem_map.mp member
    obtain ⟨stored, isMatching⟩ := List.mem_filter.mp listed
    exact all row stored isMatching
  refine ⟨attempted, consistent.failedOnce, consistent.failedAttempted, fun row => ?_, ?_⟩
  · rw [consistent.left]
    constructor
    · rintro ⟨stored, isMatching, failed⟩
      exact ⟨stored, isMatching, failed (all row stored isMatching)⟩
    · rintro ⟨stored, isMatching, failed⟩
      exact ⟨stored, isMatching, fun _ => failed⟩
  · rw [consistent.count, attempted.length_eq, List.length_map]

variable [DecidableEq Key]

theorem attempted_attemptRow (row : Row) :
    (attemptRow pass progress row).attempted = progress.attempted ++ [key row] := by
  rw [attemptRow]
  split <;> rfl

theorem Consistent.attemptRow (lawful : Lawful key pass)
    (consistent : Consistent pass initial progress) {row : Row} (stored : row ∈ initial.rows)
    (isMatching : pass.matching row) (fresh : key row ∉ progress.attempted) :
    Consistent pass initial (attemptRow pass progress row) := by
  have here : row ∈ progress.table.rows :=
    ((consistent.left row).mpr ⟨stored, isMatching, fun done => absurd done fresh⟩).1
  have unfailed : key row ∉ progress.failed := fun failed =>
    fresh (consistent.failedAttempted _ failed)
  have once : (progress.attempted ++ [key row]).Nodup :=
    List.nodup_append.mpr ⟨consistent.once, List.nodup_singleton _, by
      rintro wanted done _ last rfl
      exact fresh (List.mem_singleton.mp last ▸ done)⟩
  have selected : ∀ wanted ∈ progress.attempted ++ [key row],
      wanted ∈ (initial.rows.filter pass.matching).map key := by
    intro wanted member
    rcases List.mem_append.mp member with earlier | last
    · exact consistent.selected wanted earlier
    · rw [List.mem_singleton.mp last]
      exact List.mem_map.mpr ⟨row, List.mem_filter.mpr ⟨stored, isMatching⟩, rfl⟩
  have count := consistent.count
  rw [PagedPasses.attemptRow]
  split
  · next updated outside result =>
      have written : (pass.attempt progress.attempted.length row progress.outside).1 =
          some updated := by rw [result]
      have sameKey := lawful.keeps _ _ _ _ written
      have unmatched := lawful.leaves _ _ _ _ isMatching written
      refine
        { current := ?_
          once := once
          selected := selected
          failedOnce := consistent.failedOnce
          failedAttempted := fun wanted failed =>
            List.mem_append_left _ (consistent.failedAttempted wanted failed)
          left := fun other => ?_
          count := ?_ }
      · have kept := lawful.current progress.attempted.length row _ isMatching consistent.current
        rwa [result] at kept
      · rw [Table.mem_save, sameKey]
        constructor
        · rintro ⟨⟨rfl, _⟩ | ⟨member, different⟩, matches'⟩
          · exact absurd matches' (by simp [unmatched])
          · obtain ⟨inInitial, _, kept⟩ := (consistent.left other).mp ⟨member, matches'⟩
            refine ⟨inInitial, matches', fun done => ?_⟩
            exact kept ((List.mem_append.mp done).resolve_right
              fun last => different (List.mem_singleton.mp last))
        · rintro ⟨inInitial, matches', kept⟩
          have different : key other ≠ key row := fun same =>
            unfailed (same ▸ kept (by simp [same]))
          obtain ⟨member, _⟩ := (consistent.left other).mpr
            ⟨inInitial, matches', fun done => kept (List.mem_append_left _ done)⟩
          exact ⟨Or.inr ⟨member, different⟩, matches'⟩
      · simp only [List.length_append, List.length_singleton]
        omega
  · next outside result =>
      refine
        { current := ?_
          once := once
          selected := selected
          failedOnce := List.nodup_cons.mpr ⟨unfailed, consistent.failedOnce⟩
          failedAttempted := ?_
          left := fun other => ?_
          count := ?_ }
      · have kept := lawful.current progress.attempted.length row _ isMatching consistent.current
        rwa [result] at kept
      · intro wanted failed
        rcases List.mem_cons.mp failed with rfl | earlier
        · exact List.mem_append_right _ (List.mem_singleton_self _)
        · exact List.mem_append_left _ (consistent.failedAttempted wanted earlier)
      · rw [consistent.left]
        by_cases same : key other = key row
        · simp [same, fresh]
        · simp [same]
      · simp only [List.length_append, List.length_cons, List.length_nil]
        omega

theorem Consistent.foldl_attemptRow (lawful : Lawful key pass)
    (consistent : Consistent pass initial progress) {rows : List Row}
    (distinct : (rows.map key).Nodup)
    (fresh : ∀ row ∈ rows, row ∈ initial.rows ∧ pass.matching row ∧
      key row ∉ progress.attempted) :
    Consistent pass initial (rows.foldl (PagedPasses.attemptRow pass) progress) ∧
      (rows.foldl (PagedPasses.attemptRow pass) progress).attempted =
        progress.attempted ++ rows.map key := by
  induction rows generalizing progress with
  | nil => exact ⟨consistent, (List.append_nil _).symm⟩
  | cons row rows ih =>
      rw [List.map_cons, List.nodup_cons] at distinct
      obtain ⟨⟨stored, isMatching, untried⟩, later⟩ := List.forall_mem_cons.mp fresh
      have next := consistent.attemptRow lawful stored isMatching untried
      have still : ∀ other ∈ rows, other ∈ initial.rows ∧ pass.matching other ∧
          key other ∉ (PagedPasses.attemptRow pass progress row).attempted := by
        intro other member
        obtain ⟨otherStored, otherMatching, otherUntried⟩ := later other member
        refine ⟨otherStored, otherMatching, ?_⟩
        rw [attempted_attemptRow, List.mem_append, List.mem_singleton, not_or]
        exact ⟨otherUntried, fun same => distinct.1 (same ▸ List.mem_map_of_mem member)⟩
      obtain ⟨kept, attempted⟩ := ih next distinct.2 still
      refine ⟨kept, ?_⟩
      rw [List.foldl_cons, attempted, attempted_attemptRow, List.map_cons, List.append_assoc]
      rfl

theorem Consistent.mem_candidates (consistent : Consistent pass initial progress) {row : Row} :
    row ∈ candidates pass progress ↔
      row ∈ initial.rows ∧ pass.matching row ∧ key row ∉ progress.attempted := by
  rw [candidates, List.mem_filter, Bool.and_eq_true, decide_eq_true_iff, ← and_assoc,
    consistent.left]
  constructor
  · rintro ⟨⟨stored, isMatching, kept⟩, unfailed⟩
    exact ⟨stored, isMatching, fun done => unfailed (kept done)⟩
  · rintro ⟨stored, isMatching, untried⟩
    exact ⟨⟨stored, isMatching, fun done => absurd done untried⟩,
      fun failed => untried (consistent.failedAttempted _ failed)⟩

theorem mem_candidates_of_mem_fetch {page : ℕ} {row : Row}
    (member : row ∈ fetch pass page progress) : row ∈ candidates pass progress :=
  (pass.perm page _).mem_iff.mp (List.mem_of_mem_take member)

theorem nodup_fetch (page : ℕ) : ((fetch pass page progress).map key).Nodup := by
  have whole : ((candidates pass progress).map key).Nodup :=
    progress.table.distinct.sublist (List.filter_sublist.map key)
  exact (((pass.perm page _).map key).nodup_iff.mpr whole).sublist
    ((List.take_sublist _ _).map key)

theorem mem_fetch_of_short {page : ℕ} (short : (fetch pass page progress).length < pass.batchSize)
    {row : Row} (candidate : row ∈ candidates pass progress) :
    row ∈ fetch pass page progress := by
  have whole : fetch pass page progress = pass.arrange page (candidates pass progress) := by
    rw [fetch] at short ⊢
    rw [List.length_take] at short
    exact List.take_of_length_le (by omega)
  rw [whole]
  exact (pass.perm page _).mem_iff.mpr candidate

theorem exists_run (lawful : Lawful key pass) (consistent : Consistent pass initial progress)
    (fuel page : ℕ)
    (enough : (initial.rows.filter pass.matching).length < fuel + progress.attempted.length) :
    ∃ final, run pass fuel page progress = some final ∧ Completed pass initial final := by
  induction fuel generalizing page progress with
  | zero =>
      have bounded := consistent.length_le
      omega
  | succ fuel ih =>
      have fresh : ∀ row ∈ fetch pass page progress, row ∈ initial.rows ∧ pass.matching row ∧
          key row ∉ progress.attempted := fun row member =>
        consistent.mem_candidates.mp (mem_candidates_of_mem_fetch member)
      obtain ⟨next, attempted⟩ := consistent.foldl_attemptRow lawful (nodup_fetch page) fresh
      have positive := lawful.positive
      rw [run, consistent.current, Bool.not_true, if_neg Bool.false_ne_true]
      dsimp only
      by_cases short : (fetch pass page progress).length < pass.batchSize
      · have all : ∀ row ∈ initial.rows, pass.matching row → key row ∈ progress.attempted ∨
            row ∈ fetch pass page progress := by
          intro row stored isMatching
          by_contra missed
          rw [not_or] at missed
          exact missed.2 (mem_fetch_of_short short
            (consistent.mem_candidates.mpr ⟨stored, isMatching, missed.1⟩))
        split
        · next empty =>
            rw [List.isEmpty_iff] at empty
            refine ⟨progress, rfl, consistent.completed fun row stored isMatching => ?_⟩
            exact (all row stored isMatching).resolve_right (by simp [empty])
        · refine ⟨_, rfl, next.completed fun row stored isMatching => ?_⟩
          rw [attempted, List.mem_append]
          exact (all row stored isMatching).imp_right List.mem_map_of_mem
      · have nonempty : (fetch pass page progress).isEmpty = false := by
          rw [← Bool.not_eq_true, List.isEmpty_iff]
          intro empty
          rw [empty] at short
          exact short positive
        rw [nonempty, if_neg Bool.false_ne_true, if_neg short]
        apply ih next
        rw [attempted, List.length_append, List.length_map]
        omega

end Proofs

end NaturalMold.PagedPasses

import NaturalMold.SkillDrafts

/-! # Normalised draft paths and the archive built from them -/

namespace NaturalMold.SkillDrafts

open CronExpressions (Text)
open Fallible (bind_eq_ok ensure_eq_ok)
open FileWrites (Write contents)
open PosixPaths (Path IsName IsPlain components joined parentName)
open PythonText (isSpace strip)
open SkillPackages

variable {Metadata Digest : Type} {packager : Packager Metadata Digest} {workspace : FileTree}
  {targetDir : Path}

/-- A normalised text: a dot, or a plain path without backslashes. -/
def IsNormal (rel : Text) : Prop :=
  rel = ['.'] ∨ ∃ path, IsPlain path ∧ rel = joined path ∧ '\\' ∉ rel

def cleanedPath (path : Text) : Text :=
  (forwardSlashes (strip path)).dropWhile (· = '/')

theorem normalizeDraftPath_eq_ok {path rel : Text} (normal : normalizeDraftPath path = .ok rel) :
    cleanedPath path ≠ [] ∧ parentName ∉ components (cleanedPath path) ∧
      rel = asPosix (components (cleanedPath path)) := by
  rw [normalizeDraftPath] at normal
  simp only [bind_eq_ok, ensure_eq_ok] at normal
  obtain ⟨_, ⟨nonempty, inside, _⟩, equal⟩ := normal
  rw [Bool.not_eq_true', ← Bool.not_eq_true, List.contains_iff_mem] at inside
  exact ⟨nonempty, inside, (Except.ok.inj equal).symm⟩

theorem notMem_backslash_cleanedPath (path : Text) : '\\' ∉ cleanedPath path := fun member =>
  notMem_backslash_forwardSlashes (strip path)
    ((List.dropWhile_sublist fun char => decide (char = '/')).subset member)

theorem isNormal_of_normalizeDraftPath {path rel : Text}
    (normal : normalizeDraftPath path = .ok rel) : IsNormal rel := by
  obtain ⟨-, inside, rfl⟩ := normalizeDraftPath_eq_ok normal
  by_cases empty : components (cleanedPath path) = []
  · exact Or.inl (if_pos empty)
  · refine Or.inr ⟨_, ⟨empty, fun part member => ?_⟩, if_neg empty, ?_⟩
    · exact PosixPaths.isName_of_mem_components member fun same => inside (same ▸ member)
    · rw [asPosix, if_neg empty]
      intro member
      rcases PosixPaths.mem_joined member with slash | ⟨part, listed, inPart⟩
      · exact absurd slash (by decide)
      · exact notMem_backslash_cleanedPath path (PosixPaths.mem_of_mem_components listed inPart)

theorem length_le_of_normalizeDraftPath {path rel : Text}
    (normal : normalizeDraftPath path = .ok rel) : rel.length ≤ (strip path).length := by
  obtain ⟨nonempty, -, rfl⟩ := normalizeDraftPath_eq_ok normal
  calc
    (asPosix (components (cleanedPath path))).length ≤ (cleanedPath path).length :=
      length_asPosix_le nonempty
    _ ≤ (forwardSlashes (strip path)).length :=
      (List.dropWhile_sublist fun char => decide (char = '/')).length_le
    _ = (strip path).length := List.length_map _

theorem dropWhile_slash {text : Text} (relative : text.head? ≠ some '/') :
    text.dropWhile (· = '/') = text := by
  cases text with
  | nil => rfl
  | cons char text =>
      rw [List.head?_cons, ne_eq, Option.some.injEq] at relative
      exact List.dropWhile_cons_of_neg (by simp [relative])

/-- A plain path without backslashes and without white space around it is normal. -/
theorem eq_joined_of_normalizeDraftPath {path : Path} {rel : Text} (plain : IsPlain path)
    (free : '\\' ∉ joined path) (tight : strip (joined path) = joined path)
    (normal : normalizeDraftPath (joined path) = .ok rel) : rel = joined path := by
  have cleaned : cleanedPath (joined path) = joined path := by
    rw [cleanedPath, tight, forwardSlashes_eq_self free,
      dropWhile_slash (PosixPaths.head?_joined_ne plain)]
  obtain ⟨-, -, rfl⟩ := normalizeDraftPath_eq_ok normal
  rw [cleaned, PosixPaths.components_joined plain, asPosix, if_neg plain.ne_nil]

theorem topLevel_joined {path : Path} (plain : IsPlain path) :
    topLevel (joined path) = path.headD [] := by
  rw [topLevel, PosixPaths.splitOn_joined plain]

theorem topLevel_of_normalizeDraftPath {path : Path} {rel folder : Text} (plain : IsPlain path)
    (excluded : folder = "inputs".toList ∨ folder = "evals".toList)
    (top : path.headD [] = folder) (normal : normalizeDraftPath (joined path) = .ok rel) :
    topLevel rel = folder := by
  obtain ⟨first, rest, rfl⟩ := List.exists_cons_of_ne_nil plain.ne_nil
  replace top : first = folder := top
  subst top
  by_cases alone : rest = []
  · subst alone
    rw [joined, List.intercalate_singleton] at normal
    rcases excluded with rfl | rfl
    · have same : normalizeDraftPath "inputs".toList = .ok "inputs".toList := by decide
      cases same.symm.trans normal
      decide
    · have same : normalizeDraftPath "evals".toList = .ok "evals".toList := by decide
      cases same.symm.trans normal
      decide
  · obtain ⟨inside, relEq⟩ := (normalizeDraftPath_eq_ok normal).2
    have cleaned : ∃ kept, cleanedPath (joined (first :: rest)) = first ++ '/' :: kept := by
      rw [PosixPaths.joined_cons first alone, cleanedPath]
      rcases excluded with rfl | rfl
      · obtain ⟨kept, same⟩ := exists_strip_append "inputs".toList (joined rest)
          (show _ = some 'i' from rfl) (by decide)
        exact ⟨forwardSlashes kept, by rw [same]; rfl⟩
      · obtain ⟨kept, same⟩ := exists_strip_append "evals".toList (joined rest)
          (show _ = some 'e' from rfl) (by decide)
        exact ⟨forwardSlashes kept, by rw [same]; rfl⟩
    obtain ⟨kept, cleaned⟩ := cleaned
    have firstName : components first = [first] := by
      rcases excluded with rfl | rfl <;> decide
    rw [cleaned, PosixPaths.components_append_slash, firstName] at inside relEq
    have plainRel : IsPlain ([first] ++ components kept) := by
      refine ⟨List.cons_ne_nil _ _, fun part member => ?_⟩
      rcases List.mem_append.mp member with new | later
      · rw [List.mem_singleton] at new
        exact new ▸ plain.names first List.mem_cons_self
      · exact PosixPaths.isName_of_mem_components later fun same =>
          inside (List.mem_append_right _ (same ▸ later))
    rw [relEq, asPosix, if_neg plainRel.ne_nil, topLevel_joined plainRel]
    rfl

theorem slugKeeps_dashRuns {text : Text} {begun : Bool} {char : Char}
    (member : char ∈ dashRuns begun text) : slugKeeps char = true := by
  induction text generalizing begun with
  | nil => exact absurd member List.not_mem_nil
  | cons first text ih =>
      rw [dashRuns] at member
      split at member
      · rename_i keeps
        rcases List.mem_cons.mp member with rfl | later
        · exact keeps
        · exact ih later
      · split at member
        · exact ih member
        · rcases List.mem_cons.mp member with rfl | later
          · decide
          · exact ih later

/-- The folder of a slug is a name in small letters, digits and dashes. -/
theorem slugKeeps_slugify {lower : Text → Text} {slug : Text} {char : Char}
    (member : char ∈ slugify lower slug) : slugKeeps char = true := by
  rw [slugify] at member
  split at member
  · have letters : "skill".toList.all slugKeeps = true := by decide
    exact List.all_eq_true.mp letters char member
  · rw [stripDashes, List.mem_reverse] at member
    have inRuns := (List.dropWhile_sublist fun char => decide (char = '-')).subset member
    rw [List.mem_reverse] at inRuns
    exact slugKeeps_dashRuns
      ((List.dropWhile_sublist fun char => decide (char = '-')).subset inRuns)

theorem isName_slugify (lower : Text → Text) (slug : Text) : IsName (slugify lower slug) where
  ne_nil := by
    rw [slugify]
    split
    · decide
    · assumption
  notMem_slash := fun member => absurd (slugKeeps_slugify member) (by decide)
  ne_dot := by
    intro same
    have dot : '.' ∈ slugify lower slug := same ▸ List.mem_cons_self
    exact absurd (slugKeeps_slugify dot) (by decide)
  ne_parentName := by
    intro same
    have dot : '.' ∈ slugify lower slug := by
      rw [same]
      decide
    exact absurd (slugKeeps_slugify dot) (by decide)

theorem slugify_ne_skillMd (lower : Text → Text) (slug : Text) :
    slugify lower slug ≠ skillMdName := by
  intro same
  have capital : 'S' ∈ slugify lower slug := by
    rw [same]
    decide
  exact absurd (slugKeeps_slugify capital) (by decide)

def excludedTopDirs : List Text :=
  [inputsDir] ++ excludedExportDirs

def draftEntry (file : Path × Bytes) : Option (Text × Bytes) :=
  match normalizeDraftPath (joined file.1) with
  | .ok rel => if excludedTopDirs.contains (topLevel rel) then none else some (rel, file.2)
  | .error _ => none

theorem draftEntry_eq_some_iff {file : Path × Bytes} {rel : Text} {content : Bytes} :
    draftEntry file = some (rel, content) ↔
      normalizeDraftPath (joined file.1) = .ok rel ∧
        excludedTopDirs.contains (topLevel rel) = false ∧ file.2 = content := by
  rw [draftEntry]
  cases normal : normalizeDraftPath (joined file.1) with
  | error error => simp
  | ok found =>
      dsimp only
      by_cases excluded : excludedTopDirs.contains (topLevel found) = true
      · rw [if_pos excluded]
        simp only [reduceCtorEq, Except.ok.injEq, false_iff]
        rintro ⟨rfl, kept, -⟩
        rw [excluded] at kept
        cases kept
      · rw [if_neg excluded, Option.some.injEq, Prod.mk.injEq, Except.ok.injEq]
        constructor
        · rintro ⟨rfl, rfl⟩
          exact ⟨rfl, Bool.not_eq_true _ ▸ excluded, rfl⟩
        · rintro ⟨rfl, -, rfl⟩
          exact ⟨rfl, rfl⟩

structure Collected (files : List (Path × Bytes)) (done : DraftEntries) : Prop where
  entries_eq : done.entries = OrderedDict.ofEntries (files.filterMap draftEntry)
  normal : ∀ file ∈ files, ∃ rel, normalizeDraftPath (joined file.1) = .ok rel

theorem Collected.addEntry {maxPackageBytes : ℕ} {files : List (Path × Bytes)}
    {done next : DraftEntries} {file : Path × Bytes} (collected : Collected files done)
    (run : addEntry maxPackageBytes excludedTopDirs done file = .ok next) :
    Collected (files ++ [file]) next := by
  rw [SkillDrafts.addEntry, bind_eq_ok] at run
  obtain ⟨rel, normal, run⟩ := run
  have normals : ∀ other ∈ files ++ [file],
      ∃ rel, normalizeDraftPath (joined other.1) = .ok rel := by
    intro other member
    rcases List.mem_append.mp member with old | new
    · exact collected.normal other old
    · rw [List.mem_singleton] at new
      exact ⟨rel, new ▸ normal⟩
  by_cases excluded : excludedTopDirs.contains (topLevel rel) = true
  · rw [if_pos excluded] at run
    cases Except.ok.inj run
    have skipped : draftEntry file = none := by
      rw [draftEntry, normal]
      exact if_pos excluded
    refine ⟨?_, normals⟩
    rw [collected.entries_eq, List.filterMap_append]
    simp [skipped]
  · rw [if_neg excluded, bind_eq_ok] at run
    obtain ⟨_, -, run⟩ := run
    cases Except.ok.inj run
    have entered : draftEntry file = some (rel, file.2) :=
      draftEntry_eq_some_iff.mpr ⟨normal, Bool.not_eq_true _ ▸ excluded, rfl⟩
    refine ⟨?_, normals⟩
    rw [List.filterMap_append, OrderedDict.ofEntries, List.foldl_append, collected.entries_eq]
    simp [entered, OrderedDict.ofEntries]

theorem Collected.foldlM {maxPackageBytes : ℕ} {files later : List (Path × Bytes)}
    {done next : DraftEntries} (collected : Collected files done)
    (run : later.foldlM (SkillDrafts.addEntry maxPackageBytes excludedTopDirs) done = .ok next) :
    Collected (files ++ later) next := by
  induction later generalizing files done with
  | nil =>
      rw [List.foldlM_nil] at run
      cases Except.ok.inj run
      rwa [List.append_nil]
  | cons file later ih =>
      rw [List.foldlM_cons, bind_eq_ok] at run
      obtain ⟨between, first, rest⟩ := run
      have whole := ih (collected.addEntry first) rest
      rwa [List.append_assoc, List.singleton_append] at whole

theorem exists_collected {lower : Text → Text} {maxPackageBytes : ℕ} {slug : Text}
    {zf : List ZipMember}
    (built : buildWorkspaceZipBytes lower maxPackageBytes slug workspace = .ok zf) :
    ∃ done, Collected (sortedTree workspace) done ∧ skillMdName ∈ done.entries.keys ∧
      zf = archiveMembers (slugify lower slug) done.entries := by
  rw [buildWorkspaceZipBytes, buildSkillZipBytesFromDir] at built
  simp only [bind_eq_ok, ensure_eq_ok] at built
  obtain ⟨done, walk, _, present, equal⟩ := built
  have start : Collected [] ⟨OrderedDict.empty, 0⟩ :=
    ⟨rfl, fun _ member => absurd member List.not_mem_nil⟩
  exact ⟨done, start.foldlM walk, present, (Except.ok.inj equal).symm⟩

theorem mem_sortedTree {path : Path} {content : Bytes} :
    (path, content) ∈ sortedTree workspace ↔ workspace.get? path = some content := by
  rw [sortedTree, List.mem_insertionSort, OrderedDict.get?_eq_some_iff]

theorem Collected.exists_file {done : DraftEntries}
    (collected : Collected (sortedTree workspace) done) {rel : Text} {content : Bytes}
    (entered : done.entries.get? rel = some content) :
    ∃ path, workspace.get? path = some content ∧ normalizeDraftPath (joined path) = .ok rel ∧
      excludedTopDirs.contains (topLevel rel) = false := by
  rw [collected.entries_eq] at entered
  obtain ⟨⟨path, stored⟩, member, same⟩ :=
    List.mem_filterMap.mp (OrderedDict.mem_of_get?_ofEntries entered)
  obtain ⟨normal, kept, rfl⟩ := draftEntry_eq_some_iff.mp same
  exact ⟨path, mem_sortedTree.mp member, normal, kept⟩

theorem Collected.exists_entry {done : DraftEntries}
    (collected : Collected (sortedTree workspace) done) {path : Path} {rel : Text}
    {content : Bytes} (stored : workspace.get? path = some content)
    (normal : normalizeDraftPath (joined path) = .ok rel)
    (kept : excludedTopDirs.contains (topLevel rel) = false) :
    ∃ last, done.entries.get? rel = some last := by
  rw [collected.entries_eq]
  apply OrderedDict.exists_get?_ofEntries
  exact List.mem_map.mpr ⟨(rel, content), List.mem_filterMap.mpr
    ⟨(path, content), mem_sortedTree.mpr stored,
      draftEntry_eq_some_iff.mpr ⟨normal, kept, rfl⟩⟩, rfl⟩

end NaturalMold.SkillDrafts

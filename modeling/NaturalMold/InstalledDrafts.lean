import Mathlib.Data.Finset.Dedup
import Mathlib.Data.Finset.Max
import NaturalMold.NormalizedDrafts

/-! # What of a draft is installed -/

namespace NaturalMold.SkillDrafts

open CronExpressions (Text)
open FileWrites (Write contents)
open PosixPaths (Path IsName IsPlain components joined size)
open PythonText (strip)
open SkillPackages

variable {Metadata Digest : Type} {packager : Packager Metadata Digest} {workspace : FileTree}
  {targetDir : Path} {folder : Text} {entries : OrderedDict Text Bytes}

/-- A path below `inputs/` or `evals/`. -/
def inExcludedDir : Path → Bool
  | top :: _ :: _ => excludedTopDirs.contains top
  | _ => false

/-- The installed files are those of the workspace outside `inputs/` and `evals/`, their
`SKILL.md` has been given to the validation, and each of them has been given to the
validation or to the scan of binary files. -/
structure InstallsWorkspace (decode : Bytes → Text) (workspace : FileTree)
    (installed : Path → Option Bytes) : Prop where
  files : ∀ path, installed path = if inExcludedDir path then none else workspace.get? path
  skillMd : ∃ loaded raw file, loadDraftFiles decode workspace = .ok loaded ∧
    installed [skillMdName] = some raw ∧
    draftFile decode [skillMdName] raw = .ok (some file) ∧ file ∈ loaded
  shown : ∀ path content, installed path = some content →
    ∃ loaded, loadDraftFiles decode workspace = .ok loaded ∧
      ((∃ file ∈ loaded, draftFile decode path content = .ok (some file)) ∨
        (path, content.take maxContentScanBytes) ∈
          binarySecretScan workspace (loaded.map (·.path)))

/-- No path outside `inputs/` and `evals/` has a backslash or white space around it, no
file of the workspace has the name of one of these folders, no text file has too long a
path, and `SKILL.md` has no null byte where the validation reads it. -/
structure PlainDraft (workspace : FileTree) : Prop where
  tight : ∀ path ∈ workspace.keys, inExcludedDir path = false →
    '\\' ∉ joined path ∧ strip (joined path) = joined path
  named : ∀ top ∈ excludedTopDirs, [top] ∉ workspace.keys
  loadable : ∀ path content, workspace.get? path = some content → path.headD [] ≠ inputsDir →
    0 ∉ content.take maxAdapterFileBytes → (joined path).length ≤ maxDraftPathChars
  skillMd : ∀ content, workspace.get? [skillMdName] = some content →
    0 ∉ content.take maxAdapterFileBytes

def entryMember (folder rel : Text) (content : Bytes) : ZipMember :=
  ⟨folder ++ '/' :: rel, 0o600 <<< 16, some content⟩

theorem mem_archiveMembers {member : ZipMember} :
    member ∈ archiveMembers folder entries ↔
      ∃ rel content, entries.get? rel = some content ∧
        member = entryMember folder rel content := by
  rw [archiveMembers, List.mem_map]
  constructor
  · rintro ⟨⟨rel, content⟩, listed, rfl⟩
    rw [List.mem_insertionSort, ← OrderedDict.get?_eq_some_iff] at listed
    exact ⟨rel, content, listed, rfl⟩
  · rintro ⟨rel, content, entered, rfl⟩
    refine ⟨(rel, content), ?_, rfl⟩
    rwa [List.mem_insertionSort, ← OrderedDict.get?_eq_some_iff]

theorem get?_of_contentOf {rel : Text} {content : Bytes}
    (read : contentOf (archiveMembers folder entries) (folder ++ '/' :: rel) = some content) :
    entries.get? rel = some content := by
  obtain ⟨member, listed, named, own⟩ := exists_member_of_contentOf read
  obtain ⟨other, stored, entered, rfl⟩ := mem_archiveMembers.mp listed
  replace named : folder ++ '/' :: other = folder ++ '/' :: rel := named
  rw [List.append_cancel_left_eq, List.cons.injEq] at named
  rw [← named.2, entered, ← own]
  rfl

theorem IsName.cons (name : IsName folder) {path : Path} (plain : IsPlain path) :
    IsPlain (folder :: path) := by
  refine ⟨List.cons_ne_nil _ _, fun part member => ?_⟩
  rcases List.mem_cons.mp member with rfl | later
  · exact name
  · exact plain.names part later

theorem IsName.head?_append_ne (name : IsName folder) (rest : Text) :
    (folder ++ rest).head? ≠ some '/' := by
  obtain ⟨char, tail, rfl⟩ := List.exists_cons_of_ne_nil name.ne_nil
  rw [List.cons_append, List.head?_cons, ne_eq, Option.some.injEq]
  rintro rfl
  exact name.notMem_slash List.mem_cons_self

theorem IsNormal.getLast?_ne {rel : Text} (normal : IsNormal rel) : rel.getLast? ≠ some '/' := by
  rcases normal with rfl | ⟨path, plain, rfl, -⟩
  · decide
  · exact PosixPaths.getLast?_joined_ne plain

theorem IsNormal.ne_nil {rel : Text} (normal : IsNormal rel) : rel ≠ [] := by
  rcases normal with rfl | ⟨path, plain, rfl, -⟩
  · decide
  · exact PosixPaths.joined_ne_nil plain

theorem IsNormal.isDir {rel : Text} (normal : IsNormal rel) (content : Bytes) :
    (entryMember folder rel content).isDir = false := by
  apply decide_eq_false
  have last := normal.getLast?_ne
  obtain ⟨char, rest, rfl⟩ := List.exists_cons_of_ne_nil normal.ne_nil
  rw [entryMember, List.getLast?_append_of_ne_nil _ (List.cons_ne_nil _ _),
    List.getLast?_cons_cons]
  exact last

theorem IsNormal.isSlash_head {rel : Text} (normal : IsNormal rel) :
    ∃ char rest, rel = char :: rest ∧ isSlash char = false := by
  obtain ⟨char, rest, rfl⟩ := List.exists_cons_of_ne_nil normal.ne_nil
  refine ⟨char, rest, rfl, ?_⟩
  rcases normal with same | ⟨path, plain, same, free⟩
  · cases same
    decide
  · have relative := PosixPaths.head?_joined_ne plain
    rw [← same, List.head?_cons, ne_eq, Option.some.injEq] at relative
    rw [List.mem_cons, not_or] at free
    simp [isSlash, relative, Ne.symm free.1]

/-- Cutting the folder off gives the normalised text back. -/
theorem IsNormal.relativeName {rel : Text} (normal : IsNormal rel) (name : IsName folder) :
    relativeName folder (folder ++ '/' :: rel) = some rel := by
  obtain ⟨char, rest, rfl, visible⟩ := normal.isSlash_head
  have slash : isSlash '/' = true := by decide
  rw [SkillPackages.relativeName, if_neg name.ne_nil,
    if_pos (List.isPrefixOf_iff_prefix.mpr (List.prefix_append folder _)), List.drop_left]
  simp [slash, visible]

/-- The `SKILL.md` that the extractor finds is the one of the folder. -/
theorem folderPrefix_archiveMembers (name : IsName folder) (different : folder ≠ skillMdName)
    (normal : ∀ rel ∈ entries.keys, IsNormal rel) {found : Text}
    (foundEq : findSkillMd (archiveMembers folder entries) = some found) :
    folderPrefix found = folder := by
  obtain ⟨member, listed, rfl⟩ := List.mem_map.mp (List.mem_of_find?_eq_some foundEq)
  have sought := List.find?_some foundEq
  obtain ⟨rel, content, entered, rfl⟩ := mem_archiveMembers.mp listed
  rcases normal rel (OrderedDict.mem_keys_of_get? entered) with rfl | ⟨path, plain, rfl, -⟩
  · have parts : pathParts (folder ++ ['/', '.']) = [folder] := by
      have whole := PosixPaths.components_joined
        (IsPlain.mk (List.cons_ne_nil folder []) fun part member =>
          List.mem_singleton.mp member ▸ name)
      rw [joined, List.intercalate_singleton] at whole
      rw [pathParts, rootParts_of_relative (IsName.head?_append_ne name _),
        show folder ++ ['/', '.'] = folder ++ '/' :: ['.'] from rfl,
        PosixPaths.components_append_slash, whole]
      rfl
    replace sought : isSkillMd (folder ++ ['/', '.']) = true := sought
    rw [isSkillMd, parts, Bool.and_eq_true, decide_eq_true_eq, List.getLast?_singleton,
      Option.some.injEq] at sought
    exact absurd sought.1 different
  · have whole := IsName.cons name plain
    have text : (entryMember folder (joined path) content).filename = joined (folder :: path) :=
      (PosixPaths.joined_cons folder plain.ne_nil).symm
    rw [text] at sought ⊢
    rcases (isSkillMd_joined whole).mp sought with alone | ⟨top, both⟩
    · exact absurd (List.cons.inj alone).2 plain.ne_nil
    · rw [folderPrefix, folderOf, pathParts_joined whole, (List.cons.inj both).2]
      simp [joined]

section Installed

variable {done : Extraction}

theorem exists_isPlain_of_entry (name : IsName folder)
    (normal : ∀ rel ∈ entries.keys, IsNormal rel)
    (extracted : Extracted packager (archiveMembers folder entries) targetDir folder
      (archiveMembers folder entries) done) {rel : Text} {content : Bytes}
    (entered : entries.get? rel = some content) :
    ∃ path, IsPlain path ∧ rel = joined path ∧ '\\' ∉ rel := by
  have relNormal := normal rel (OrderedDict.mem_keys_of_get? entered)
  rcases relNormal with rfl | plain
  · obtain ⟨_, -, written⟩ := extracted.exists_write
      (mem_archiveMembers.mpr ⟨_, content, entered, rfl⟩) (IsNormal.isDir (Or.inl rfl) content)
      (IsNormal.relativeName (Or.inl rfl) name)
    exact absurd rfl (extracted.inside _ written).2
  · exact plain

theorem contents_archiveMembers (name : IsName folder)
    (normal : ∀ rel ∈ entries.keys, IsNormal rel)
    (extracted : Extracted packager (archiveMembers folder entries) targetDir folder
      (archiveMembers folder entries) done) {path : Path} {content : Bytes} :
    contents done.writes (targetDir ++ path) = some content ↔
      IsPlain path ∧ '\\' ∉ joined path ∧ entries.get? (joined path) = some content := by
  have forward : ∀ content, contents done.writes (targetDir ++ path) = some content →
      IsPlain path ∧ '\\' ∉ joined path ∧ entries.get? (joined path) = some content := by
    intro content stands
    obtain ⟨write, written, pathEq, rfl⟩ := FileWrites.exists_of_contents stands
    obtain ⟨listed, -, read, rel, relEq, resolved⟩ := extracted.mem_writes_iff.mp written
    obtain ⟨other, stored, entered, source⟩ := mem_archiveMembers.mp listed
    obtain ⟨otherPath, plain, otherEq, free⟩ :=
      exists_isPlain_of_entry name normal extracted entered
    rw [source] at read relEq
    replace relEq : relativeName folder (folder ++ '/' :: other) = some rel := relEq
    rw [(normal other (OrderedDict.mem_keys_of_get? entered)).relativeName name,
      Option.some.injEq] at relEq
    rw [← relEq, otherEq, resolve_joined targetDir plain, pathEq, List.append_cancel_left_eq]
      at resolved
    rw [resolved, ← otherEq]
    exact ⟨plain, free, get?_of_contentOf read⟩
  refine ⟨forward content, fun ⟨plain, free, entered⟩ => ?_⟩
  have relNormal := normal _ (OrderedDict.mem_keys_of_get? entered)
  obtain ⟨_, -, written⟩ := extracted.exists_write
    (mem_archiveMembers.mpr ⟨_, content, entered, rfl⟩) (relNormal.isDir content)
    (relNormal.relativeName name)
  obtain ⟨standing, stands⟩ := FileWrites.exists_contents written
  replace stands : contents done.writes (resolve targetDir (joined path)) = some standing := stands
  rw [resolve_joined targetDir plain] at stands
  rw [stands, ← entered, (forward standing stands).2.2]

end Installed

section Loaded

variable {decode : Bytes → Text} {loaded : List SkillDraftFile}

theorem draftFile_eq_some {path : Path} {content : Bytes} {file : SkillDraftFile}
    (given : draftFile decode path content = .ok (some file)) :
    0 ∉ content.take maxAdapterFileBytes ∧ (joined path).length ≤ maxDraftPathChars ∧
      file.path = joined path := by
  rw [draftFile] at given
  split at given
  · cases given
  · rename_i visible
    simp only [Fallible.bind_eq_ok, Fallible.ensure_eq_ok] at given
    obtain ⟨_, short, equal⟩ := given
    cases equal
    exact ⟨fun null => visible (List.contains_iff_mem.mpr null), short, rfl⟩

/-- A file with a null byte is left out, any other is given with its path. -/
theorem draftFile_cases (decode : Bytes → Text) (path : Path) (content : Bytes) :
    (0 ∈ content.take maxAdapterFileBytes ∧ draftFile decode path content = .ok none) ∨
      0 ∉ content.take maxAdapterFileBytes ∧ ((joined path).length ≤ maxDraftPathChars →
        ∃ file, draftFile decode path content = .ok (some file)) := by
  by_cases null : 0 ∈ content.take maxAdapterFileBytes
  · left
    refine ⟨null, ?_⟩
    rw [draftFile]
    exact if_pos (List.contains_iff_mem.mpr null)
  · right
    refine ⟨null, fun short => ⟨⟨joined path, decode (content.take maxAdapterFileBytes),
      roleForPath (joined path)⟩, ?_⟩⟩
    rw [draftFile, if_neg fun listed => null (List.contains_iff_mem.mp listed), Fallible.ensure,
      if_pos short]
    rfl

theorem mem_loadDraftFiles (load : loadDraftFiles decode workspace = .ok loaded)
    {file : SkillDraftFile} :
    file ∈ loaded ↔ ∃ path content, workspace.get? path = some content ∧
      topLevel (joined path) ≠ inputsDir ∧ draftFile decode path content = .ok (some file) := by
  rw [loadDraftFiles, Fallible.bind_eq_ok] at load
  obtain ⟨results, each, equal⟩ := load
  cases equal
  rw [Fallible.mapM_eq_ok_iff] at each
  rw [List.mem_filterMap]
  constructor
  · rintro ⟨result, member, same⟩
    obtain ⟨⟨path, content⟩, listed, given⟩ := Fallible.exists_mem_of_forall₂ each member
    rw [List.mem_filter, mem_sortedTree, decide_eq_true_eq] at listed
    cases same
    exact ⟨path, content, listed.1, listed.2, given⟩
  · rintro ⟨path, content, stored, kept, given⟩
    have listed : (path, content) ∈ (sortedTree workspace).filter fun file =>
        topLevel (joined file.1) ≠ inputsDir :=
      List.mem_filter.mpr ⟨mem_sortedTree.mpr stored, decide_eq_true kept⟩
    obtain ⟨result, member, resultEq⟩ := Fallible.exists_mem_of_forall₂ each.flip listed
    replace resultEq : draftFile decode path content = .ok result := resultEq
    rw [given, Except.ok.injEq] at resultEq
    exact ⟨result, member, resultEq.symm⟩

/-- What was loaded of a file outside `inputs/`. -/
theorem exists_draftFile_of_load (load : loadDraftFiles decode workspace = .ok loaded)
    {path : Path} {content : Bytes} (stored : workspace.get? path = some content)
    (kept : topLevel (joined path) ≠ inputsDir) :
    ∃ result, draftFile decode path content = .ok result := by
  rw [loadDraftFiles, Fallible.bind_eq_ok] at load
  obtain ⟨results, each, -⟩ := load
  rw [Fallible.mapM_eq_ok_iff] at each
  have listed : (path, content) ∈ (sortedTree workspace).filter fun file =>
      topLevel (joined file.1) ≠ inputsDir :=
    List.mem_filter.mpr ⟨mem_sortedTree.mpr stored, decide_eq_true kept⟩
  obtain ⟨result, -, resultEq⟩ := Fallible.exists_mem_of_forall₂ each.flip listed
  exact ⟨result, resultEq⟩

theorem exists_loadDraftFiles (decode : Bytes → Text) (workspace : FileTree)
    (short : ∀ path content, workspace.get? path = some content →
      topLevel (joined path) ≠ inputsDir → 0 ∉ content.take maxAdapterFileBytes →
        (joined path).length ≤ maxDraftPathChars) :
    ∃ loaded, loadDraftFiles decode workspace = .ok loaded := by
  have succeeds : ∀ file ∈ (sortedTree workspace).filter fun file =>
      topLevel (joined file.1) ≠ inputsDir,
        ∃ result, draftFile decode file.1 file.2 = .ok result := by
    rintro ⟨path, content⟩ listed
    rw [List.mem_filter, mem_sortedTree, decide_eq_true_eq] at listed
    rcases draftFile_cases decode path content with ⟨-, given⟩ | ⟨visible, given⟩
    · exact ⟨none, given⟩
    · obtain ⟨file, given⟩ := given (short path content listed.1 listed.2 visible)
      exact ⟨some file, given⟩
  obtain ⟨results, each⟩ := Fallible.exists_mapM_eq_ok succeeds
  refine ⟨results.filterMap id, ?_⟩
  rw [loadDraftFiles, Fallible.bind_eq_ok]
  exact ⟨results, each, rfl⟩

theorem mem_binarySecretScan {knownPaths : List Text} {path : Path} {content : Bytes}
    (stored : workspace.get? path = some content)
    (kept : excludedTopDirs.contains (topLevel (joined path)) = false)
    (unknown : joined path ∉ knownPaths) :
    (path, content.take maxContentScanBytes) ∈ binarySecretScan workspace knownPaths := by
  rw [binarySecretScan, List.mem_map]
  refine ⟨(path, content), List.mem_filter.mpr ⟨mem_sortedTree.mpr stored, ?_⟩, rfl⟩
  rw [Bool.and_eq_true, Bool.not_eq_true', Bool.not_eq_true', ← Bool.not_eq_true,
    ← Bool.not_eq_true, List.contains_iff_mem, List.contains_iff_mem]
  rw [← Bool.not_eq_true, List.contains_iff_mem, excludedTopDirs] at kept
  refine ⟨fun member => kept ?_, unknown⟩
  rw [List.mem_append] at member ⊢
  exact member.symm

end Loaded

section Draft

variable {done : DraftEntries} {decode : Bytes → Text} {installed : Path → Option Bytes}

def InstallsEntries (done : DraftEntries) (installed : Path → Option Bytes) : Prop :=
  ∀ path content, installed path = some content ↔
    IsPlain path ∧ '\\' ∉ joined path ∧ done.entries.get? (joined path) = some content

theorem excluded_of_inExcludedDir {path : Path} (inside : inExcludedDir path = true) :
    path.headD [] ∈ excludedTopDirs := by
  match path with
  | [] => cases inside
  | [_] => cases inside
  | top :: _ :: _ => exact List.contains_iff_mem.mp inside

/-- A file outside `inputs/` and `evals/` that has neither of these names. -/
theorem PlainDraft.kept (draft : PlainDraft workspace) (plain : PlainTree workspace) {path : Path}
    {content : Bytes} (stored : workspace.get? path = some content)
    (outside : inExcludedDir path = false) :
    excludedTopDirs.contains (topLevel (joined path)) = false := by
  have member := OrderedDict.mem_keys_of_get? stored
  rw [topLevel_joined (plain path member)]
  match path with
  | [] => rfl
  | [top] =>
      apply Bool.eq_false_iff.mpr
      intro excluded
      exact draft.named top (List.contains_iff_mem.mp excluded) member
  | top :: _ :: _ => exact outside

/-- The file that an entry comes from is not in an excluded folder. -/
theorem Collected.outside (collected : Collected (sortedTree workspace) done)
    (plain : PlainTree workspace) {rel : Text} {content : Bytes}
    (entered : done.entries.get? rel = some content) :
    ∃ path, workspace.get? path = some content ∧ normalizeDraftPath (joined path) = .ok rel ∧
      inExcludedDir path = false := by
  obtain ⟨path, stored, normal, kept⟩ := collected.exists_file entered
  refine ⟨path, stored, normal, ?_⟩
  by_contra inside
  rw [Bool.not_eq_false] at inside
  have excluded := excluded_of_inExcludedDir inside
  have top := topLevel_of_normalizeDraftPath (plain path (OrderedDict.mem_keys_of_get? stored))
    (by simpa [excludedTopDirs, excludedExportDirs, inputsDir] using excluded) rfl normal
  rw [top, ← Bool.not_eq_true, List.contains_iff_mem] at kept
  exact kept excluded

theorem PlainDraft.installed_iff (draft : PlainDraft workspace) (plain : PlainTree workspace)
    (collected : Collected (sortedTree workspace) done)
    (entries : InstallsEntries done installed) {path : Path} {content : Bytes} :
    installed path = some content ↔
      workspace.get? path = some content ∧ inExcludedDir path = false := by
  have forward : ∀ content, installed path = some content →
      workspace.get? path = some content ∧ inExcludedDir path = false := by
    intro content stands
    obtain ⟨pathPlain, -, entered⟩ := (entries path content).mp stands
    obtain ⟨file, stored, normal, outside⟩ := collected.outside plain entered
    have member := OrderedDict.mem_keys_of_get? stored
    obtain ⟨free, tight⟩ := draft.tight file member outside
    have same := eq_joined_of_normalizeDraftPath (plain file member) free tight normal
    rw [PosixPaths.joined_injective pathPlain (plain file member) same]
    exact ⟨stored, outside⟩
  refine ⟨forward content, fun ⟨stored, outside⟩ => ?_⟩
  have member := OrderedDict.mem_keys_of_get? stored
  obtain ⟨free, tight⟩ := draft.tight path member outside
  obtain ⟨rel, normal⟩ := collected.normal (path, content) (mem_sortedTree.mpr stored)
  have same := eq_joined_of_normalizeDraftPath (plain path member) free tight normal
  have kept := draft.kept plain stored outside
  rw [← same] at kept
  obtain ⟨last, entered⟩ := collected.exists_entry stored normal kept
  rw [same] at entered
  have stands := (entries path last).mpr ⟨plain path member, free, entered⟩
  rw [stands, ← stored, (forward last stands).1]

theorem PlainDraft.installs (draft : PlainDraft workspace) (plain : PlainTree workspace)
    (collected : Collected (sortedTree workspace) done)
    (present : skillMdName ∈ done.entries.keys) (entries : InstallsEntries done installed) :
    InstallsWorkspace decode workspace installed := by
  have installed_iff : ∀ path content, installed path = some content ↔
      workspace.get? path = some content ∧ inExcludedDir path = false :=
    fun _ _ => draft.installed_iff plain collected entries
  have isPlain : ∀ {path content}, workspace.get? path = some content → IsPlain path :=
    fun stored => plain _ (OrderedDict.mem_keys_of_get? stored)
  obtain ⟨loaded, load⟩ := exists_loadDraftFiles decode workspace
    fun path content stored kept visible => draft.loadable path content stored
      (by rwa [topLevel_joined (isPlain stored)] at kept) visible
  exact {
    files := by
      intro path
      ext content
      rw [installed_iff]
      cases outside : inExcludedDir path <;> simp
    skillMd := by
      obtain ⟨raw, entered⟩ := OrderedDict.exists_get?_of_mem_keys present
      rw [← joined_skillMd] at entered
      have stands := (entries [skillMdName] raw).mpr ⟨isPlain_skillMd, by decide, entered⟩
      have stored := ((installed_iff _ _).mp stands).1
      rcases draftFile_cases decode [skillMdName] raw with ⟨null, -⟩ | ⟨-, given⟩
      · exact absurd null (draft.skillMd raw stored)
      · obtain ⟨file, given⟩ := given (by decide)
        exact ⟨loaded, raw, file, load, stands, given,
          (mem_loadDraftFiles load).mpr ⟨_, raw, stored, by decide, given⟩⟩
    shown := by
      intro path content stands
      obtain ⟨stored, outside⟩ := (installed_iff path content).mp stands
      have kept := draft.kept plain stored outside
      have loadedTop : topLevel (joined path) ≠ inputsDir := by
        intro same
        rw [same] at kept
        exact absurd kept (by decide)
      refine ⟨loaded, load, ?_⟩
      obtain ⟨result, given⟩ := exists_draftFile_of_load load stored loadedTop
      cases result with
      | some file =>
          exact Or.inl
            ⟨file, (mem_loadDraftFiles load).mpr ⟨path, content, stored, loadedTop, given⟩, given⟩
      | none =>
          refine Or.inr (mem_binarySecretScan stored kept ?_)
          rw [List.mem_map]
          rintro ⟨file, member, same⟩
          obtain ⟨other, otherContent, otherStored, -, otherGiven⟩ :=
            (mem_loadDraftFiles load).mp member
          have otherPath := (draftFile_eq_some otherGiven).2.2
          cases PosixPaths.joined_injective (isPlain stored) (isPlain otherStored)
            (same.symm.trans otherPath)
          cases stored.symm.trans otherStored
          rw [given] at otherGiven
          cases otherGiven }

/-- Stripping makes a path shorter, so a longest path that would be stripped could not
have been installed. -/
theorem InstallsWorkspace.tight (installs : InstallsWorkspace decode workspace installed)
    (plain : PlainTree workspace) (collected : Collected (sortedTree workspace) done)
    (entries : InstallsEntries done installed) {path : Path} (member : path ∈ workspace.keys)
    (outside : inExcludedDir path = false) :
    '\\' ∉ joined path ∧ strip (joined path) = joined path := by
  have entered : ∀ path ∈ workspace.keys, inExcludedDir path = false →
      '\\' ∉ joined path ∧ ∃ content, done.entries.get? (joined path) = some content := by
    intro path member outside
    obtain ⟨content, stored⟩ := OrderedDict.exists_get?_of_mem_keys member
    have stands := installs.files path
    rw [outside, stored] at stands
    obtain ⟨-, free, entered⟩ := (entries path content).mp stands
    exact ⟨free, content, entered⟩
  refine ⟨(entered path member outside).1, ?_⟩
  by_contra changed
  have nonempty : (workspace.keys.toFinset.filter fun path =>
      inExcludedDir path = false ∧ strip (joined path) ≠ joined path).Nonempty :=
    ⟨path, Finset.mem_filter.mpr ⟨List.mem_toFinset.mpr member, outside, changed⟩⟩
  obtain ⟨longest, longestKept, longer⟩ := Finset.exists_max_image _ size nonempty
  rw [Finset.mem_filter, List.mem_toFinset] at longestKept
  obtain ⟨longestMember, longestOutside, longestChanged⟩ := longestKept
  obtain ⟨-, content, longestEntered⟩ := entered longest longestMember longestOutside
  obtain ⟨file, stored, normal, fileOutside⟩ := collected.outside plain longestEntered
  have fileMember := OrderedDict.mem_keys_of_get? stored
  have fileChanged : strip (joined file) ≠ joined file := by
    intro unchanged
    have same := eq_joined_of_normalizeDraftPath (plain file fileMember)
      (entered file fileMember fileOutside).1 unchanged normal
    rw [← same] at unchanged
    exact longestChanged unchanged
  have notLonger := longer file (Finset.mem_filter.mpr
    ⟨List.mem_toFinset.mpr fileMember, fileOutside, fileChanged⟩)
  have shorter := (length_le_of_normalizeDraftPath normal).trans_lt (length_strip_lt fileChanged)
  have longestLength := PosixPaths.length_joined (plain longest longestMember).ne_nil
  have fileLength := PosixPaths.length_joined (plain file fileMember).ne_nil
  omega

theorem InstallsWorkspace.plainDraft (installs : InstallsWorkspace decode workspace installed)
    (plain : PlainTree workspace) (collected : Collected (sortedTree workspace) done)
    (entries : InstallsEntries done installed) : PlainDraft workspace where
  tight := fun _ member outside => installs.tight plain collected entries member outside
  named := by
    intro top excluded member
    obtain ⟨content, stored⟩ := OrderedDict.exists_get?_of_mem_keys member
    have stands := installs.files [top]
    replace stands : installed [top] = workspace.get? [top] := stands
    rw [stored] at stands
    obtain ⟨topPlain, -, entered⟩ := (entries [top] content).mp stands
    obtain ⟨-, -, -, kept⟩ := collected.exists_file entered
    rw [topLevel_joined topPlain, ← Bool.not_eq_true, List.contains_iff_mem] at kept
    exact kept excluded
  loadable := by
    intro path content stored kept visible
    obtain ⟨loaded, -, -, load, -⟩ := installs.skillMd
    have pathPlain := plain path (OrderedDict.mem_keys_of_get? stored)
    obtain ⟨result, given⟩ := exists_draftFile_of_load load stored
      (by rwa [topLevel_joined pathPlain])
    cases result with
    | some file => exact (draftFile_eq_some given).2.1
    | none =>
        rw [draftFile] at given
        rw [if_neg fun listed => visible (List.contains_iff_mem.mp listed)] at given
        simp only [Fallible.bind_eq_ok, Except.ok.injEq, reduceCtorEq, and_false, exists_false]
          at given
  skillMd := by
    intro content stored
    obtain ⟨-, raw, file, -, stands, given, -⟩ := installs.skillMd
    have files := installs.files [skillMdName]
    replace files : installed [skillMdName] = workspace.get? [skillMdName] := files
    rw [stands, stored, Option.some.injEq] at files
    exact files ▸ (draftFile_eq_some given).1

end Draft

theorem exists_installsEntries {lower : Text → Text} {slug : Text} {zf : List ZipMember}
    {info : PackageInfo Metadata Digest} {writes : List (Write ZipMember Bytes)}
    (built : buildWorkspaceZipBytes lower packager.maxPackageBytes slug workspace = .ok zf)
    (run : extractPackage packager zf targetDir = .ok (info, writes)) :
    ∃ done, Collected (sortedTree workspace) done ∧ skillMdName ∈ done.entries.keys ∧
      InstallsEntries done fun path => contents writes (targetDir ++ path) := by
  obtain ⟨done, collected, present, rfl⟩ := exists_collected built
  obtain ⟨found, _, _, extraction, accepted, equal⟩ := exists_accepted run
  cases equal
  have normal : ∀ rel ∈ done.entries.keys, IsNormal rel := by
    intro rel member
    obtain ⟨content, entered⟩ := OrderedDict.exists_get?_of_mem_keys member
    obtain ⟨_, _, fromFile, _⟩ := collected.exists_file entered
    exact isNormal_of_normalizeDraftPath fromFile
  have name := isName_slugify lower slug
  have extracted := accepted.extracted
  rw [folderPrefix_archiveMembers name (slugify_ne_skillMd lower slug) normal accepted.found]
    at extracted
  exact ⟨done, collected, present, fun path content =>
    contents_archiveMembers name normal extracted⟩

/-- What is installed of an accepted draft is what was validated exactly when the draft is
plain. -/
theorem installsWorkspace_iff (plain : PlainTree workspace) {lower : Text → Text} {slug : Text}
    {zf : List ZipMember} {info : PackageInfo Metadata Digest}
    {writes : List (Write ZipMember Bytes)}
    (built : buildWorkspaceZipBytes lower packager.maxPackageBytes slug workspace = .ok zf)
    (run : extractPackage packager zf targetDir = .ok (info, writes)) (decode : Bytes → Text) :
    InstallsWorkspace decode workspace (fun path => contents writes (targetDir ++ path)) ↔
      PlainDraft workspace := by
  obtain ⟨done, collected, present, entries⟩ := exists_installsEntries built run
  exact ⟨fun installs => installs.plainDraft plain collected entries,
    fun draft => draft.installs plain collected present entries⟩

def asciiText (content : Bytes) : Text :=
  content.map fun byte => Char.ofNat byte.toNat

/-- A draft with one file next to its `SKILL.md`. -/
def notesWorkspace (name : String) : FileTree :=
  OrderedDict.ofEntries [(samplePath ["SKILL.md"], notesSkillMd),
    (samplePath [name], asciiBytes "x")]

def notesZip (name : String) : List ZipMember :=
  [fileMember "notes/SKILL.md" notesSkillMd,
    ⟨"notes/".toList ++ name.toList, 0o600 <<< 16, some (asciiBytes "x")⟩]

def notesWrites (name : String) : List (Write ZipMember Bytes) :=
  [⟨fileMember "notes/SKILL.md" notesSkillMd, samplePath ["data", "skill", "SKILL.md"],
      notesSkillMd⟩,
    ⟨⟨"notes/".toList ++ name.toList, 0o600 <<< 16, some (asciiBytes "x")⟩,
      samplePath ["data", "skill", name], asciiBytes "x"⟩]

theorem installsWorkspace_notes :
    InstallsWorkspace asciiText (notesWorkspace "b.txt")
        (fun path => contents (notesWrites "b.txt") (samplePath ["data", "skill"] ++ path)) ↔
      PlainDraft (notesWorkspace "b.txt") :=
  have built : buildWorkspaceZipBytes (List.map Char.toLower) notesPackager.maxPackageBytes
      "Notes".toList (notesWorkspace "b.txt") = .ok (notesZip "b.txt") := by decide
  have run : extractPackage notesPackager (notesZip "b.txt") (samplePath ["data", "skill"]) =
      .ok (notesInfo ["SKILL.md", "b.txt"] 45, notesWrites "b.txt") := by decide +kernel
  installsWorkspace_iff (by decide) built run asciiText

/-- A name that ends with a space is installed without it. -/
theorem trailingSpace_not_installed :
    ∃ zf info writes, PlainTree (notesWorkspace "b.txt ") ∧
      buildWorkspaceZipBytes (List.map Char.toLower) notesPackager.maxPackageBytes
        "Notes".toList (notesWorkspace "b.txt ") = .ok zf ∧
      extractPackage notesPackager zf (samplePath ["data", "skill"]) = .ok (info, writes) ∧
      ¬ InstallsWorkspace asciiText (notesWorkspace "b.txt ")
        (fun path => contents writes (samplePath ["data", "skill"] ++ path)) := by
  refine ⟨notesZip "b.txt", notesInfo ["SKILL.md", "b.txt"] 45, notesWrites "b.txt",
    by decide, by decide +kernel, by decide +kernel, fun installs => ?_⟩
  exact absurd (installs.files (samplePath ["b.txt "])) (by decide)

end NaturalMold.SkillDrafts

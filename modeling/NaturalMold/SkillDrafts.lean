import NaturalMold.ExtractedMembers

/-!
# Draft workspaces of a skill

A draft is a folder of files.
-/

namespace NaturalMold.SkillDrafts

open CronExpressions (Text)
open Fallible (ensure)
open PosixPaths (Path IsName IsPlain components joined parentName)
open PythonText (isSpace strip)
open SkillPackages

inductive DraftError where
  | invalidPath (path : Text)
  | pathTooLong (path : Text)
  | packageTooLarge (bytes : ℕ)
  | missingSkillMd
deriving DecidableEq

def inputsDir : Text := "inputs".toList

def excludedExportDirs : List Text :=
  ["evals".toList]

/-- `PurePosixPath.as_posix`: a path without names is a dot. -/
def asPosix (path : Path) : Text :=
  if path = [] then ['.'] else joined path

def normalizeDraftPath (path : Text) : Except DraftError Text := do
  let cleaned := (forwardSlashes (strip path)).dropWhile (· = '/')
  ensure (cleaned ≠ [] ∧ !(components cleaned).contains parentName ∧
    !cleaned.contains (Char.ofNat 0)) (.invalidPath path)
  .ok (asPosix (components cleaned))

/-- `path.split("/", 1)[0]`. -/
def topLevel (path : Text) : Text :=
  (path.splitOn '/').headD []

def slugKeeps (char : Char) : Bool :=
  ('a' ≤ char && char ≤ 'z') || ('0' ≤ char && char ≤ '9') || char = '-'

def dashRuns : Bool → Text → Text
  | _, [] => []
  | begun, char :: text =>
      if slugKeeps char then char :: dashRuns false text
      else if begun then dashRuns true text
      else '-' :: dashRuns true text

def stripDashes (text : Text) : Text :=
  ((text.dropWhile (· = '-')).reverse.dropWhile (· = '-')).reverse

def slugify (lower : Text → Text) (value : Text) : Text :=
  let base := (lower (strip value)).map fun char => if char = '_' ∨ char = ' ' then '-' else char
  let cleaned := stripDashes (dashRuns false base)
  if cleaned = [] then "skill".toList else cleaned

/-- The regular files in the order of `sorted(root.rglob("*"))`. -/
def sortedTree (tree : FileTree) : List (Path × Bytes) :=
  tree.entries.insertionSort fun first second => first.1 ≤ second.1

/-- The files of the archive so far, under their normalised texts. -/
structure DraftEntries where
  entries : OrderedDict Text Bytes
  totalBytes : ℕ

def addEntry (maxPackageBytes : ℕ) (excluded : List Text) (done : DraftEntries)
    (file : Path × Bytes) : Except DraftError DraftEntries := do
  let relPath ← normalizeDraftPath (joined file.1)
  if excluded.contains (topLevel relPath) then .ok done
  else do
    let totalBytes := done.totalBytes + file.2.length
    ensure (totalBytes ≤ maxPackageBytes) (.packageTooLarge totalBytes)
    .ok ⟨done.entries.set relPath file.2, totalBytes⟩

def archiveMembers (folder : Text) (entries : OrderedDict Text Bytes) : List ZipMember :=
  (entries.entries.insertionSort fun first second => first.1 ≤ second.1).map fun entry =>
    ⟨folder ++ '/' :: entry.1, 0o600 <<< 16, some entry.2⟩

def buildSkillZipBytesFromDir (lower : Text → Text) (maxPackageBytes : ℕ) (slug : Text)
    (root : FileTree) (includeEvals : Bool) (excludeTopDirs : List Text) :
    Except DraftError (List ZipMember) := do
  let excluded := excludeTopDirs ++ if includeEvals then [] else excludedExportDirs
  let done ← (sortedTree root).foldlM (addEntry maxPackageBytes excluded) ⟨OrderedDict.empty, 0⟩
  ensure (skillMdName ∈ done.entries.keys) .missingSkillMd
  .ok (archiveMembers (slugify lower slug) done.entries)

def buildWorkspaceZipBytes (lower : Text → Text) (maxPackageBytes : ℕ) (slug : Text)
    (workspace : FileTree) : Except DraftError (List ZipMember) :=
  buildSkillZipBytesFromDir lower maxPackageBytes slug workspace false [inputsDir]

structure SkillDraftFile where
  path : Text
  content : Text
  role : Text
deriving DecidableEq

def roleForPath (path : Text) : Text :=
  if path = "SKILL.md".toList then "skill".toList
  else if "scripts/".toList.isPrefixOf path then "script".toList
  else if "references/".toList.isPrefixOf path then "reference".toList
  else if "assets/".toList.isPrefixOf path then "asset".toList
  else if "agents/".toList.isPrefixOf path then "metadata".toList
  else if "evals/".toList.isPrefixOf path then "eval".toList
  else "asset".toList

def maxAdapterFileBytes : ℕ := 2 * 1024 * 1024

def maxContentScanBytes : ℕ := 256 * 1024

/-- The longest path of a `SkillDraftFile`. -/
def maxDraftPathChars : ℕ := 500

def draftFile (decode : Bytes → Text) (path : Path) (content : Bytes) :
    Except DraftError (Option SkillDraftFile) :=
  let raw := content.take maxAdapterFileBytes
  if raw.contains 0 then .ok none
  else do
    ensure ((joined path).length ≤ maxDraftPathChars) (.pathTooLong (joined path))
    .ok (some ⟨joined path, decode raw, roleForPath (joined path)⟩)

def loadDraftFiles (decode : Bytes → Text) (workspace : FileTree) :
    Except DraftError (List SkillDraftFile) := do
  let loaded ← ((sortedTree workspace).filter fun file =>
    topLevel (joined file.1) ≠ inputsDir).mapM fun file => draftFile decode file.1 file.2
  .ok (loaded.filterMap id)

/-- The paths that are scanned because they were not loaded, with the heads that are read. -/
def binarySecretScan (workspace : FileTree) (knownPaths : List Text) : List (Path × Bytes) :=
  ((sortedTree workspace).filter fun file =>
    !(excludedExportDirs ++ [inputsDir]).contains (topLevel (joined file.1)) &&
      !knownPaths.contains (joined file.1)).map
    fun file => (file.1, file.2.take maxContentScanBytes)

theorem strip_isInfix (text : Text) : strip text <:+: text := by
  rw [strip]
  have front := (List.dropWhile_suffix isSpace (l := text)).isInfix
  have back := (List.dropWhile_suffix isSpace (l := (text.dropWhile isSpace).reverse)).isInfix
  rw [← List.reverse_infix, List.reverse_reverse] at back
  exact back.trans front

/-- A text that is stripped of something becomes shorter. -/
theorem length_strip_lt {text : Text} (changed : strip text ≠ text) :
    (strip text).length < text.length :=
  lt_of_le_of_ne (strip_isInfix text).length_le fun same =>
    changed ((strip_isInfix text).eq_of_length same)

/-- White space at the end of a longer text leaves its first segment alone. -/
theorem exists_strip_append (start rest : Text) {char : Char} (first : start.head? = some char)
    (visible : isSpace char = false) :
    ∃ kept, strip (start ++ '/' :: rest) = start ++ '/' :: kept := by
  obtain ⟨tail, rfl⟩ := List.head?_eq_some_iff.mp first
  have front : (char :: tail ++ '/' :: rest).dropWhile isSpace = char :: tail ++ '/' :: rest := by
    rw [List.cons_append, List.dropWhile_cons_of_neg (by simp [visible])]
  refine ⟨(rest.reverse.dropWhile isSpace).reverse, ?_⟩
  have slash : isSpace '/' = false := by decide
  have back : (char :: tail ++ '/' :: rest).reverse.dropWhile isSpace =
      rest.reverse.dropWhile isSpace ++ '/' :: (char :: tail).reverse := by
    rw [List.reverse_append, List.reverse_cons, List.append_assoc, List.singleton_append,
      List.dropWhile_append]
    split
    · rename_i spaces
      rw [List.isEmpty_iff] at spaces
      rw [spaces, List.dropWhile_cons_of_neg (by simp [slash]), List.nil_append]
    · rfl
  rw [strip, front, back]
  simp

theorem length_asPosix_le {text : Text} (nonempty : text ≠ []) :
    (asPosix (components text)).length ≤ text.length := by
  have positive := List.length_pos_iff.mpr nonempty
  rw [asPosix]
  split
  · exact positive
  · rename_i names
    have whole := PosixPaths.length_joined names
    have fewer := PosixPaths.size_components_le text
    omega

end NaturalMold.SkillDrafts

import Mathlib.Data.Char
import Mathlib.Data.List.Lex
import Mathlib.Data.List.Sort
import NaturalMold.FallibleSteps
import NaturalMold.FileWrites
import NaturalMold.OrderedDictionaries

/-!
# Extraction of a skill package

A package is an archive with a `SKILL.md` at its root or one folder deep.
-/

namespace NaturalMold.SkillPackages

open CronExpressions (Text)
open Fallible (ensure)
open FileWrites (Write)
open PosixPaths (Path IsPlain components joined follow)

abbrev Bytes := List UInt8

/-- The regular files of a folder, by their paths. -/
abbrev FileTree := OrderedDict Path Bytes

/-- Every path of the tree is one that a folder can hold. -/
def PlainTree (tree : FileTree) : Prop :=
  ∀ path ∈ tree.keys, IsPlain path

instance (tree : FileTree) : Decidable (PlainTree tree) :=
  inferInstanceAs (Decidable (∀ path ∈ tree.keys, IsPlain path))

/-- An entry of the archive; without content, its data cannot be read. -/
structure ZipMember where
  filename : Text
  externalAttr : ℕ
  content : Option Bytes
deriving DecidableEq

inductive ExtractError where
  | packageTooLarge (stage : Text) (bytes : ℕ)
  | invalidZip
  | skillMdNotFound
  | invalidMetadata (message : Text)
  | symlink (name : Text)
  | absolutePath (name : Text)
  | nullByte (name : Text)
  | pathTraversal (name : Text)
  | tooManyFiles (count : ℕ)
  | notADirectory (path : Path)
  | isADirectory (path : Path)
deriving DecidableEq

/-- A parsed `SKILL.md`. -/
structure SkillMd (Metadata : Type) where
  metadata : Metadata
  name : Text
  description : Text
  version : Option Text
  body : Text

structure PackageInfo (Metadata Digest : Type) where
  name : Text
  description : Text
  body : Text
  metadata : Metadata
  version : Option Text
  files : List Text
  totalBytes : ℕ
  hasScripts : Bool
  contentHash : Digest
deriving DecidableEq

/-- The settings and the libraries an extraction uses. -/
structure Packager (Metadata Digest : Type) where
  maxPackageBytes : ℕ
  maxPackageFiles : ℕ
  archiveBytes : List ZipMember → ℕ
  parseSkillMd : Bytes → Except Text (SkillMd Metadata)
  sha256 : Text → Digest

variable {Metadata Digest : Type}

def skillMdName : Text := "SKILL.md".toList

/-- The root of an absolute path: two slashes stay two, three or more are one. -/
def rootParts (name : Text) : Path :=
  if ['/', '/'].isPrefixOf name && ¬ ['/', '/', '/'].isPrefixOf name then [['/', '/']]
  else if ['/'].isPrefixOf name then [['/']]
  else []

/-- `Path(name).parts`. -/
def pathParts (name : Text) : Path :=
  rootParts name ++ components name

def isSkillMd (name : Text) : Bool :=
  (pathParts name).getLast? = some skillMdName && (pathParts name).length ≤ 2

def findSkillMd (zf : List ZipMember) : Option Text :=
  (zf.map (·.filename)).find? isSkillMd

/-- The path of the folder of `SKILL.md`. -/
def folderOf (skillMd : Text) : Path :=
  (pathParts skillMd).dropLast

def folderPrefix (skillMd : Text) : Text :=
  joined (folderOf skillMd)

def isSlash (char : Char) : Bool :=
  char = '/' || char = '\\'

/-- `rel.replace("\\", "/")`. -/
def forwardSlashes (text : Text) : Text :=
  text.map fun char => if char = '\\' then '/' else char

/-- What is left of a member's name when the folder is cut off; `none` for a
member that is skipped. -/
def relativeName (start name : Text) : Option Text :=
  if start = [] then if name = [] then none else some name
  else if start.isPrefixOf name then
    let rel := (name.drop start.length).dropWhile isSlash
    if rel = [] then none else some rel
  else none

def packageName (metadataName skillMd : Text) : Text :=
  if metadataName ≠ [] then metadataName
  else
    match components skillMd with
    | [folder, _] => folder
    | _ => "untitled".toList

def ZipMember.isDir (member : ZipMember) : Bool :=
  member.filename.getLast? = some '/'

def isSymlink (member : ZipMember) : Bool :=
  (member.externalAttr >>> 16) &&& 0o170000 = 0o120000

def isAbsolute (name : Text) : Bool :=
  name.head? = some '/'

/-- `(dest / name).resolve()` for a relative name. -/
def resolve (dest : Path) (name : Text) : Path :=
  follow dest (components name)

def validateMember (member : ZipMember) (dest : Path) : Except ExtractError Unit := do
  ensure (¬ isSymlink member) (.symlink member.filename)
  ensure (¬ isAbsolute member.filename) (.absolutePath member.filename)
  ensure (Char.ofNat 0 ∉ member.filename) (.nullByte member.filename)
  ensure (dest <+: resolve dest member.filename) (.pathTraversal member.filename)

/-- The data that `zf.open(name)` reads. -/
def contentOf (zf : List ZipMember) (name : Text) : Option Bytes :=
  (zf.reverse.find? fun member => member.filename = name).bind (·.content)

def openMember (zf : List ZipMember) (name : Text) : Except ExtractError Bytes :=
  match contentOf zf name with
  | some content => .ok content
  | none => .error .invalidZip

def zipReadChunkBytes : ℕ := 1024 * 1024

def afterExtraction : Text := "after extraction".toList

def copyLimitedStream (limit totalBytes : ℕ) (written source : Bytes) :
    Except ExtractError Bytes :=
  if source = [] then .ok written
  else
    let grown := written ++ source.take zipReadChunkBytes
    if limit < totalBytes + grown.length then
      .error (.packageTooLarge afterExtraction (totalBytes + grown.length))
    else copyLimitedStream limit totalBytes grown (source.drop zipReadChunkBytes)
termination_by source.length
decreasing_by
  rename_i nonempty _
  have positive := List.length_pos_iff.mpr nonempty
  rw [List.length_drop, zipReadChunkBytes]
  omega

theorem eq_append_of_copyLimitedStream {limit totalBytes : ℕ} {written source copied : Bytes}
    (run : copyLimitedStream limit totalBytes written source = .ok copied) :
    copied = written ++ source := by
  fun_induction copyLimitedStream limit totalBytes written source with
  | case1 written => exact (Except.ok.inj run).symm.trans (List.append_nil _).symm
  | case2 => cases run
  | case3 written source _ grown _ ih =>
      rw [ih run, List.append_assoc, List.take_append_drop]

theorem le_of_copyLimitedStream {limit totalBytes : ℕ} {written source copied : Bytes}
    (within : totalBytes + written.length ≤ limit)
    (run : copyLimitedStream limit totalBytes written source = .ok copied) :
    totalBytes + copied.length ≤ limit := by
  fun_induction copyLimitedStream limit totalBytes written source with
  | case1 written =>
      rw [← Except.ok.inj run]
      exact within
  | case2 => cases run
  | case3 written source _ grown small ih => exact ih (Nat.le_of_not_lt small) run

def readMemberLimited (packager : Packager Metadata Digest) (zf : List ZipMember) (name : Text) :
    Except ExtractError Bytes := do
  let source ← openMember zf name
  copyLimitedStream packager.maxPackageBytes 0 [] source

/-- What the loop over the members has done so far. -/
structure Extraction where
  writes : List (Write ZipMember Bytes)
  files : List Text
  totalBytes : ℕ
  fileCount : ℕ
  hasScripts : Bool

def Extraction.start : Extraction :=
  ⟨[], [], 0, 0, false⟩

def isScript (rel : Text) : Bool :=
  "scripts/".toList.isPrefixOf rel && ".py".toList.isSuffixOf rel

def writeMember (packager : Packager Metadata Digest) (zf : List ZipMember) (targetDir : Path)
    (done : Extraction) (member : ZipMember) (rel : Text) : Except ExtractError Extraction := do
  ensure (done.fileCount + 1 ≤ packager.maxPackageFiles) (.tooManyFiles (done.fileCount + 1))
  ensure (targetDir <+: resolve targetDir rel) (.pathTraversal rel)
  ensure (¬ FileWrites.underFile done.writes (resolve targetDir rel))
    (.notADirectory (resolve targetDir rel))
  let source ← openMember zf member.filename
  ensure (¬ FileWrites.isFolder targetDir done.writes (resolve targetDir rel))
    (.isADirectory (resolve targetDir rel))
  let copied ← copyLimitedStream packager.maxPackageBytes done.totalBytes [] source
  .ok {
    writes := done.writes ++ [⟨member, resolve targetDir rel, copied⟩]
    files := done.files ++ [forwardSlashes rel]
    totalBytes := done.totalBytes + copied.length
    fileCount := done.fileCount + 1
    hasScripts := done.hasScripts || isScript rel }

/-- The body of the loop over the members. -/
def extractMember (packager : Packager Metadata Digest) (zf : List ZipMember) (targetDir : Path)
    (start : Text) (done : Extraction) (member : ZipMember) : Except ExtractError Extraction :=
  if member.isDir then .ok done
  else do
    validateMember member targetDir
    match relativeName start member.filename with
    | none => .ok done
    | some rel => writeMember packager zf targetDir done member rel

/-- The order of `sorted` on texts. -/
def sortedTexts (texts : List Text) : List Text :=
  texts.insertionSort fun first second => first ≤ second

def packageInfo (packager : Packager Metadata Digest) (skillMd : Text) (parsed : SkillMd Metadata)
    (done : Extraction) : PackageInfo Metadata Digest where
  name := packageName parsed.name skillMd
  description := parsed.description
  body := parsed.body
  metadata := parsed.metadata
  version := parsed.version
  files := sortedTexts done.files
  totalBytes := done.totalBytes
  hasScripts := done.hasScripts
  contentHash := packager.sha256 parsed.body

/-- Extract an archive into an empty folder: what is known of the package, and the
files that were written. -/
def extractPackage (packager : Packager Metadata Digest) (zf : List ZipMember)
    (targetDir : Path) :
    Except ExtractError (PackageInfo Metadata Digest × List (Write ZipMember Bytes)) := do
  ensure (packager.archiveBytes zf ≤ packager.maxPackageBytes)
    (.packageTooLarge [] (packager.archiveBytes zf))
  match findSkillMd zf with
  | none => .error .skillMdNotFound
  | some skillMd => do
      let raw ← readMemberLimited packager zf skillMd
      let parsed ← (packager.parseSkillMd raw).mapError .invalidMetadata
      let done ← zf.foldlM
        (extractMember packager zf targetDir (folderPrefix skillMd)) Extraction.start
      .ok (packageInfo packager skillMd parsed done, done.writes)

def asciiBytes (text : String) : Bytes :=
  text.toList.map fun char => UInt8.ofNat char.toNat

def notesSkillMd : Bytes :=
  asciiBytes "---\nname: notes\ndescription: Notes.\n---\nBody"

def notesMetadata : SkillMd Text where
  metadata := "name: notes\ndescription: Notes.".toList
  name := "notes".toList
  description := "Notes.".toList
  version := none
  body := "Body".toList

/-- A packager with the default limits whose parser knows one `SKILL.md`. -/
def notesPackager : Packager Text Text where
  maxPackageBytes := 52428800
  maxPackageFiles := 1000
  archiveBytes := fun zf => (zf.map fun member => 100 + member.content.elim 0 List.length).sum
  parseSkillMd := fun raw =>
    if raw = notesSkillMd then .ok notesMetadata
    else .error "SKILL.md frontmatter field 'name' must be a non-empty string".toList
  sha256 := id

def fileMember (name : String) (content : Bytes) : ZipMember :=
  ⟨name.toList, 0o600 <<< 16, some content⟩

def notesInfo (files : List String) (totalBytes : ℕ) : PackageInfo Text Text where
  name := "notes".toList
  description := "Notes.".toList
  body := "Body".toList
  metadata := "name: notes\ndescription: Notes.".toList
  version := none
  files := files.map String.toList
  totalBytes := totalBytes
  hasScripts := false
  contentHash := "Body".toList

def samplePath (names : List String) : Path :=
  names.map String.toList

end NaturalMold.SkillPackages

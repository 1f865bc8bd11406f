import NaturalMold.ExtractedMembers

/-!
# Revisions of a package skill

A revision keeps the files of a skill as an archive of its own, sorted by name.
-/

namespace NaturalMold.SkillRevisions

open CronExpressions (Text)
open Fallible (ensure)
open FileWrites (Write contents)
open PosixPaths (Path IsPlain joined)
open SkillPackages

variable {Metadata Digest : Type}

def excludedFileNames : List Text :=
  [".DS_Store".toList]

def excludedDirNames : List Text :=
  [".moldy-output".toList, ".moldy-runtime".toList, "__moldy_outputs__".toList,
    "__moldy_runtime__".toList]

def excludedFileSuffixes : List Text :=
  ["~".toList, ".swp".toList, ".swo".toList]

def isExcludedPackagePath (rel : Path) : Bool :=
  let name := rel.getLastD []
  excludedFileNames.contains name || excludedFileSuffixes.any (·.isSuffixOf name) ||
    rel.any excludedDirNames.contains

def packageFile (tree : FileTree) (path : Path) : Option Bytes :=
  if isExcludedPackagePath path then none else tree.get? path

def sortedFiles (files : List (Text × Bytes)) : List (Text × Bytes) :=
  files.insertionSort fun first second => first.1 ≤ second.1

/-- `list_files` with the content of each file; excluded paths are left out. -/
def listFiles (tree : FileTree) : List (Text × Bytes) :=
  sortedFiles ((tree.entries.filter fun file => !isExcludedPackagePath file.1).map
    fun file => (joined file.1, file.2))

inductive RevisionError where
  | fileTooLarge (path : Text)
  | fileNotFound (path : Text)
  | snapshotPruned
  | snapshotMissing
  | corruptMember (name : Text)
  | missingSkillMd
  | invalidSkillMd
  | invalidPackage
  | undecodable (path : Text)
deriving DecidableEq

def maxReadBytes : ℕ := 5242880

/-- A file that `read_file_safe` reads. -/
def readFileSafe (path : Text) (content : Bytes) : Except RevisionError Bytes := do
  ensure (content.length ≤ maxReadBytes) (.fileTooLarge path)
  .ok content

def snapshotFiles (tree : FileTree) : Except RevisionError (List (Text × Bytes)) :=
  (listFiles tree).mapM fun file => do
    let content ← readFileSafe file.1 file.2
    .ok (file.1, content)

/-- The archive of some files; no two of them have one name. -/
def writeZip (files : List (Text × Bytes)) : List ZipMember :=
  (sortedFiles files).map fun file => ⟨file.1, 0o600 <<< 16, some file.2⟩

/-- The settings and the libraries the revisions use.  Whatever parses as a `SKILL.md`
has been decoded first. -/
structure RevisionService (Metadata Digest : Type) where
  packager : Packager Metadata Digest
  tempDir : Path
  decodes : Bytes → Bool
  decodes_of_parses : ∀ raw parsed, packager.parseSkillMd raw = .ok parsed → decodes raw = true
  readsMoldyMetadata : Bytes → Bool

structure SkillRevision where
  revisionNumber : ℕ
  restoredFrom : Option ℕ
  snapshotPruned : Bool
deriving DecidableEq

/-- A skill with its files, its revisions and the archives of these. -/
structure SkillState where
  tree : FileTree
  revisions : List SkillRevision
  snapshots : OrderedDict ℕ (List ZipMember)

def nextRevisionNumber (revisions : List SkillRevision) : ℕ :=
  match (revisions.map (·.revisionNumber)).max? with
  | none => 1
  | some current => current + 1

def createRevisionForSkill (state : SkillState) (restoredFrom : Option ℕ) :
    Except RevisionError (SkillState × SkillRevision) := do
  let number := nextRevisionNumber state.revisions
  let files ← snapshotFiles state.tree
  let revision : SkillRevision := ⟨number, restoredFrom, false⟩
  .ok ({ state with
    revisions := state.revisions ++ [revision]
    snapshots := state.snapshots.set number (writeZip files) }, revision)

def validatePackageSnapshot (service : RevisionService Metadata Digest) (zf : List ZipMember) :
    Except RevisionError Unit := do
  match zf.find? fun member => contentOf zf member.filename = none with
  | some corrupt => .error (.corruptMember corrupt.filename)
  | none =>
      match contentOf zf skillMdName with
      | none => .error .missingSkillMd
      | some skillMd =>
          match service.packager.parseSkillMd skillMd with
          | .error _ => .error .invalidSkillMd
          | .ok _ => .ok ()

def extractedTree (targetDir : Path) (writes : List (Write ZipMember Bytes)) : FileTree :=
  OrderedDict.ofEntries
    (writes.map fun write => (write.path.drop targetDir.length, write.content))

def moldyYamlPath : Path :=
  ["agents".toList, "moldy.yaml".toList]

/-- `get_file_bytes` on the skill. -/
def getFileBytes (tree : FileTree) (path : Path) : Except RevisionError Bytes :=
  match tree.get? path with
  | none => .error (.fileNotFound (joined path))
  | some content => readFileSafe (joined path) content

/-- What is read from the replaced files: the frontmatter of `SKILL.md` and the columns
of `agents/moldy.yaml`. -/
def syncReplacedFiles (service : RevisionService Metadata Digest) (tree : FileTree) :
    Except RevisionError Unit := do
  let skillMd ← getFileBytes tree [skillMdName]
  ensure (service.decodes skillMd) (.undecodable skillMdName)
  match getFileBytes tree moldyYamlPath with
  | .error (.fileNotFound _) => .ok ()
  | .error error => .error error
  | .ok content => ensure (service.readsMoldyMetadata content) (.undecodable (joined moldyYamlPath))

def rollbackToRevision (service : RevisionService Metadata Digest) (state : SkillState)
    (revision : SkillRevision) : SkillState × Except RevisionError SkillRevision :=
  if revision.snapshotPruned then (state, .error .snapshotPruned)
  else
    match state.snapshots.get? revision.revisionNumber with
    | none => (state, .error .snapshotMissing)
    | some zf =>
        match validatePackageSnapshot service zf with
        | .error error => (state, .error error)
        | .ok _ =>
            match extractPackage service.packager zf service.tempDir with
            | .error _ => (state, .error .invalidPackage)
            | .ok (_, writes) =>
                -- From here on the files of the skill are replaced, whatever is raised.
                let replaced := { state with tree := extractedTree service.tempDir writes }
                match syncReplacedFiles service replaced.tree with
                | .error error => (replaced, .error error)
                | .ok _ =>
                    match createRevisionForSkill replaced (some revision.revisionNumber) with
                    | .error error => (replaced, .error error)
                    | .ok (next, created) => (next, .ok created)

def edit (state : SkillState) (tree : FileTree) : SkillState :=
  { state with tree }

theorem mem_sortedFiles {files : List (Text × Bytes)} {file : Text × Bytes} :
    file ∈ sortedFiles files ↔ file ∈ files :=
  List.mem_insertionSort _

theorem pairwise_sortedFiles (files : List (Text × Bytes)) :
    (sortedFiles files).Pairwise fun first second => first.1 ≤ second.1 := by
  have : Std.Total fun first second : Text × Bytes => first.1 ≤ second.1 :=
    ⟨fun first second => le_total first.1 second.1⟩
  have : IsTrans (Text × Bytes) fun first second => first.1 ≤ second.1 :=
    ⟨fun _ _ _ lower upper => le_trans lower upper⟩
  exact List.pairwise_insertionSort _ files

theorem mem_listFiles {tree : FileTree} {name : Text} {content : Bytes} :
    (name, content) ∈ listFiles tree ↔
      ∃ path, packageFile tree path = some content ∧ joined path = name := by
  rw [listFiles, mem_sortedFiles, List.mem_map]
  constructor
  · rintro ⟨⟨path, stored⟩, member, same⟩
    rw [List.mem_filter, Bool.not_eq_true'] at member
    rw [Prod.mk.injEq] at same
    obtain ⟨rfl, rfl⟩ := same
    refine ⟨path, ?_, rfl⟩
    rw [packageFile, member.2]
    exact OrderedDict.get?_eq_some_iff.mpr member.1
  · rintro ⟨path, stored, rfl⟩
    rw [packageFile] at stored
    split at stored
    · cases stored
    · rename_i kept
      exact ⟨(path, content), List.mem_filter.mpr
        ⟨OrderedDict.get?_eq_some_iff.mp stored, by simpa using kept⟩, rfl⟩

theorem snapshotFiles_eq_ok_iff {tree : FileTree} {files : List (Text × Bytes)} :
    snapshotFiles tree = .ok files ↔
      files = listFiles tree ∧ ∀ file ∈ files, file.2.length ≤ maxReadBytes := by
  rw [snapshotFiles, Fallible.mapM_eq_ok_iff]
  generalize listFiles tree = listed
  have reads : ∀ file result : Text × Bytes,
      (do let content ← readFileSafe file.1 file.2; .ok (file.1, content) :
        Except RevisionError (Text × Bytes)) = .ok result ↔
      result = file ∧ result.2.length ≤ maxReadBytes := by
    intro file result
    simp only [readFileSafe, Fallible.bind_eq_ok, Fallible.ensure_eq_ok]
    constructor
    · rintro ⟨content, ⟨_, small, same⟩, equal⟩
      cases same
      cases equal
      exact ⟨rfl, small⟩
    · rintro ⟨rfl, small⟩
      exact ⟨result.2, ⟨(), small, rfl⟩, rfl⟩
  simp only [reads]
  induction listed generalizing files with
  | nil =>
      rw [List.forall₂_nil_left_iff]
      constructor
      · rintro rfl
        exact ⟨rfl, fun _ member => absurd member List.not_mem_nil⟩
      · exact And.left
  | cons file listed ih =>
      rw [List.forall₂_cons_left_iff]
      constructor
      · rintro ⟨result, rest, ⟨rfl, small⟩, tail, rfl⟩
        obtain ⟨rfl, allSmall⟩ := ih.mp tail
        refine ⟨rfl, fun other member => ?_⟩
        rcases List.mem_cons.mp member with rfl | later
        · exact small
        · exact allSmall other later
      · rintro ⟨rfl, allSmall⟩
        exact ⟨file, listed, ⟨rfl, allSmall file List.mem_cons_self⟩,
          ih.mpr ⟨rfl, fun other member => allSmall other (List.mem_cons_of_mem _ member)⟩, rfl⟩

end NaturalMold.SkillRevisions

import NaturalMold.SnapshotArchives
import NaturalMold.StepRuns

/-! # What a rollback restores -/

namespace NaturalMold.SkillRevisions

open CronExpressions (Text)
open Fallible (bind_eq_ok ensure_eq_ok)
open FileWrites (Write contents)
open PosixPaths (Path IsPlain components joined)
open SkillPackages
open StepRuns (run)

variable {Metadata Digest : Type} {service : RevisionService Metadata Digest} {tree : FileTree}
  {raw : Bytes} {parsed : SkillMd Metadata} {state : SkillState} {revision : SkillRevision}

/-- The rollback raises and leaves the files alone, or the files of the tree are back,
the new revision has the same archive members, and a rollback to it changes nothing. -/
def Restores (service : RevisionService Metadata Digest) (tree : FileTree) (state : SkillState)
    (revision : SkillRevision) : Prop :=
  match rollbackToRevision service state revision with
  | (left, .error _) => left.tree = state.tree
  | (left, .ok created) =>
      (∀ path, packageFile left.tree path = packageFile tree path) ∧
      (∃ zf, left.snapshots.get? created.revisionNumber = some zf ∧
        ∀ member, member ∈ zf ↔ member ∈ snapshotZip tree) ∧
      ∀ path, (rollbackToRevision service left created).1.tree.get? path = left.tree.get? path

/-- The extractor refuses the archive; or no `SKILL.md` of a folder sorts before the one
of the root, and a file `agents/moldy.yaml` can be read. -/
def RestorableSnapshot (service : RevisionService Metadata Digest) (tree : FileTree) : Prop :=
  (∃ error, extractPackage service.packager (snapshotZip tree) service.tempDir = .error error) ∨
    ¬ EarlierSkillMd tree ∧ ∀ content, packageFile tree moldyYamlPath = some content →
      service.readsMoldyMetadata content = true

theorem exists_of_createRevisionForSkill {restoredFrom : Option ℕ} {next : SkillState}
    {created : SkillRevision}
    (snapshotted : createRevisionForSkill state restoredFrom = .ok (next, created)) :
    next.tree = state.tree ∧ created.snapshotPruned = false ∧
      next.snapshots.get? created.revisionNumber = some (snapshotZip state.tree) ∧
      ∀ file ∈ listFiles state.tree, file.2.length ≤ maxReadBytes := by
  rw [createRevisionForSkill, bind_eq_ok] at snapshotted
  obtain ⟨files, filesEq, equal⟩ := snapshotted
  obtain ⟨rfl, small⟩ := snapshotFiles_eq_ok_iff.mp filesEq
  cases equal
  exact ⟨rfl, rfl, OrderedDict.get?_set_self _ _ _, small⟩

theorem exists_createRevisionForSkill (state : SkillState) (restoredFrom : Option ℕ)
    (small : ∀ file ∈ listFiles state.tree, file.2.length ≤ maxReadBytes) :
    ∃ result, createRevisionForSkill state restoredFrom = .ok result := by
  have snapshotted : snapshotFiles state.tree = .ok (listFiles state.tree) :=
    snapshotFiles_eq_ok_iff.mpr ⟨rfl, small⟩
  rw [createRevisionForSkill, snapshotted]
  exact ⟨_, rfl⟩

/-- The check before the replacement passes on the archive of a tree. -/
theorem validatePackageSnapshot_snapshotZip (plain : PlainTree tree)
    (rootFile : tree.get? [skillMdName] = some raw)
    (parses : service.packager.parseSkillMd raw = .ok parsed) :
    validatePackageSnapshot service (snapshotZip tree) = .ok () := by
  have readable : (snapshotZip tree).find?
      (fun member => contentOf (snapshotZip tree) member.filename = none) = none := by
    apply List.find?_eq_none.mpr
    intro member listed unreadable
    obtain ⟨path, content, stored, rfl⟩ := mem_snapshotZip.mp listed
    rw [decide_eq_true_eq] at unreadable
    replace unreadable : contentOf (snapshotZip tree) (joined path) = none := unreadable
    rw [contentOf_snapshotZip plain (isPlain_of_packageFile plain stored), stored] at unreadable
    cases unreadable
  have skillMd : contentOf (snapshotZip tree) skillMdName = some raw := by
    have read := contentOf_snapshotZip plain isPlain_skillMd
    rwa [joined_skillMd, packageFile_skillMd, rootFile] at read
  rw [validatePackageSnapshot, readable]
  dsimp only
  rw [skillMd]
  dsimp only
  rw [parses]

theorem rollbackToRevision_of_refused (plain : PlainTree tree)
    (rootFile : tree.get? [skillMdName] = some raw)
    (parses : service.packager.parseSkillMd raw = .ok parsed)
    (kept : revision.snapshotPruned = false)
    (stored : state.snapshots.get? revision.revisionNumber = some (snapshotZip tree))
    {error : ExtractError}
    (refused : extractPackage service.packager (snapshotZip tree) service.tempDir = .error error) :
    rollbackToRevision service state revision = (state, .error .invalidPackage) := by
  rw [rollbackToRevision, kept, stored]
  dsimp only
  rw [validatePackageSnapshot_snapshotZip plain rootFile parses]
  dsimp only
  rw [refused]
  rfl

/-- What is left of a rollback once the files have been replaced. -/
def afterReplacement (service : RevisionService Metadata Digest) (replaced : SkillState)
    (revision : SkillRevision) : SkillState × Except RevisionError SkillRevision :=
  match syncReplacedFiles service replaced.tree with
  | .error error => (replaced, .error error)
  | .ok _ =>
      match createRevisionForSkill replaced (some revision.revisionNumber) with
      | .error error => (replaced, .error error)
      | .ok (next, created) => (next, .ok created)

variable {info : PackageInfo Metadata Digest} {writes : List (Write ZipMember Bytes)}

theorem rollbackToRevision_of_extracted (plain : PlainTree tree)
    (rootFile : tree.get? [skillMdName] = some raw)
    (parses : service.packager.parseSkillMd raw = .ok parsed)
    (kept : revision.snapshotPruned = false)
    (stored : state.snapshots.get? revision.revisionNumber = some (snapshotZip tree))
    (extracted : extractPackage service.packager (snapshotZip tree) service.tempDir =
      .ok (info, writes)) :
    rollbackToRevision service state revision =
      afterReplacement service { state with tree := extractedTree service.tempDir writes }
        revision := by
  rw [rollbackToRevision, kept, stored]
  dsimp only
  rw [validatePackageSnapshot_snapshotZip plain rootFile parses]
  dsimp only
  rw [extracted]
  rfl

/-- The replaced files stay, whatever is raised. -/
theorem tree_afterReplacement (service : RevisionService Metadata Digest)
    (revision : SkillRevision) (replaced : SkillState) :
    (afterReplacement service replaced revision).1.tree = replaced.tree := by
  rw [afterReplacement]
  split
  · rfl
  · split
    · rfl
    · rename_i created
      exact (exists_of_createRevisionForSkill created).1

/-- With the `SKILL.md` of the root found first, the extracted tree has the files of the
snapshot. -/
theorem get?_extractedTree_of_root (plain : PlainTree tree)
    (rootFile : tree.get? [skillMdName] = some raw) (first : ¬ EarlierSkillMd tree)
    (extraction : extractPackage service.packager (snapshotZip tree) service.tempDir =
      .ok (info, writes)) (path : Path) :
    (extractedTree service.tempDir writes).get? path = packageFile tree path := by
  obtain ⟨found, _, _, done, accepted, equal⟩ := exists_accepted extraction
  cases equal
  have chosen := (findSkillMd_snapshotZip_iff plain rootFile).mpr first
  rw [accepted.found, Option.some.injEq] at chosen
  have fromRoot := accepted.extracted
  rw [chosen, show folderPrefix skillMdName = [] by decide] at fromRoot
  rw [get?_extractedTree fun write member => (fromRoot.inside write member).1]
  exact contents_of_extracted plain fromRoot path

theorem packageFile_of_get? {other : FileTree}
    (same : ∀ path, other.get? path = packageFile tree path) (path : Path) :
    packageFile other path = packageFile tree path := by
  rw [packageFile, same, packageFile]
  split <;> rfl

theorem plainTree_of_get? (plain : PlainTree tree) {other : FileTree}
    (same : ∀ path, other.get? path = packageFile tree path) : PlainTree other := by
  intro path member
  obtain ⟨content, stored⟩ := OrderedDict.exists_get?_of_mem_keys member
  rw [same] at stored
  exact isPlain_of_packageFile plain stored

theorem small_of_get? {other : FileTree} (same : ∀ path, other.get? path = packageFile tree path)
    (small : ∀ file ∈ listFiles tree, file.2.length ≤ maxReadBytes) :
    ∀ file ∈ listFiles other, file.2.length ≤ maxReadBytes := by
  rintro ⟨name, content⟩ listed
  obtain ⟨path, stored, named⟩ := mem_listFiles.mp listed
  exact small _ (mem_listFiles.mpr ⟨path, packageFile_of_get? same path ▸ stored, named⟩)

theorem getFileBytes_of_small {path : Path} {content : Bytes}
    (small : ∀ file ∈ listFiles tree, file.2.length ≤ maxReadBytes)
    (stored : packageFile tree path = some content) {other : FileTree}
    (same : ∀ path, other.get? path = packageFile tree path) :
    getFileBytes other path = .ok content := by
  have fits : content.length ≤ maxReadBytes :=
    small (_, content) (mem_listFiles.mpr ⟨path, stored, rfl⟩)
  rw [getFileBytes, same, stored]
  dsimp only
  rw [readFileSafe, Fallible.ensure, if_pos fits]
  rfl

/-- What is read from the replaced files can be read exactly when `agents/moldy.yaml` can. -/
theorem syncReplacedFiles_eq_ok_iff (rootFile : tree.get? [skillMdName] = some raw)
    (parses : service.packager.parseSkillMd raw = .ok parsed)
    (small : ∀ file ∈ listFiles tree, file.2.length ≤ maxReadBytes) {other : FileTree}
    (same : ∀ path, other.get? path = packageFile tree path) :
    syncReplacedFiles service other = .ok () ↔
      ∀ content, packageFile tree moldyYamlPath = some content →
        service.readsMoldyMetadata content = true := by
  have skillMd : getFileBytes other [skillMdName] = .ok raw :=
    getFileBytes_of_small small ((packageFile_skillMd tree).trans rootFile) same
  have decoded := service.decodes_of_parses raw parsed parses
  rw [syncReplacedFiles, skillMd]
  cases stored : packageFile tree moldyYamlPath with
  | none =>
      have missing : getFileBytes other moldyYamlPath =
          .error (.fileNotFound (joined moldyYamlPath)) := by
        rw [getFileBytes, same, stored]
      simp [missing, decoded]
  | some content =>
      have read : getFileBytes other moldyYamlPath = .ok content :=
        getFileBytes_of_small small stored same
      simp [read, decoded]

theorem tree_rollbackToRevision (plain : PlainTree tree)
    (rootFile : tree.get? [skillMdName] = some raw)
    (parses : service.packager.parseSkillMd raw = .ok parsed) (first : ¬ EarlierSkillMd tree)
    (kept : revision.snapshotPruned = false)
    (stored : state.snapshots.get? revision.revisionNumber = some (snapshotZip tree))
    (current : ∀ path, state.tree.get? path = packageFile tree path) (path : Path) :
    (rollbackToRevision service state revision).1.tree.get? path = state.tree.get? path := by
  cases extraction : extractPackage service.packager (snapshotZip tree) service.tempDir with
  | error error =>
      rw [rollbackToRevision_of_refused plain rootFile parses kept stored extraction]
  | ok result =>
      obtain ⟨info, writes⟩ := result
      rw [rollbackToRevision_of_extracted plain rootFile parses kept stored extraction,
        tree_afterReplacement, current]
      exact get?_extractedTree_of_root plain rootFile first extraction path

theorem restores_of_root (plain : PlainTree tree) (rootFile : tree.get? [skillMdName] = some raw)
    (parses : service.packager.parseSkillMd raw = .ok parsed) (first : ¬ EarlierSkillMd tree)
    (small : ∀ file ∈ listFiles tree, file.2.length ≤ maxReadBytes)
    (readable : ∀ content, packageFile tree moldyYamlPath = some content →
      service.readsMoldyMetadata content = true) (kept : revision.snapshotPruned = false)
    (stored : state.snapshots.get? revision.revisionNumber = some (snapshotZip tree))
    (extraction : extractPackage service.packager (snapshotZip tree) service.tempDir =
      .ok (info, writes)) : Restores service tree state revision := by
  have same := get?_extractedTree_of_root plain rootFile first extraction
  have synced := (syncReplacedFiles_eq_ok_iff rootFile parses small same).mpr readable
  obtain ⟨⟨next, created⟩, createdEq⟩ := exists_createRevisionForSkill
    { state with tree := extractedTree service.tempDir writes } (some revision.revisionNumber)
    (small_of_get? same small)
  obtain ⟨nextTree, createdKept, createdStored, -⟩ := exists_of_createRevisionForSkill createdEq
  have files := packageFile_of_get? same
  rw [Restores, rollbackToRevision_of_extracted plain rootFile parses kept stored extraction,
    afterReplacement, synced]
  dsimp only
  rw [createdEq]
  dsimp only
  dsimp only at nextTree createdStored
  refine ⟨fun path => by rw [nextTree, files], ⟨_, createdStored, fun member => ?_⟩,
    fun path => ?_⟩
  · rw [mem_snapshotZip, mem_snapshotZip]
    simp only [files]
  · -- The new archive is that of the restored files, which fulfil the same conditions.
    refine tree_rollbackToRevision (plainTree_of_get? plain same) ?_ parses ?_ createdKept
      createdStored (fun path => ?_) path
    · rw [same, packageFile_skillMd, rootFile]
    · rintro ⟨folder, content, folderStored, earlier⟩
      exact first ⟨folder, content, (files _).symm.trans folderStored, earlier⟩
    · rw [nextTree, files, same]

theorem run_edit (created : SkillState) (edits : List FileTree) :
    (run edit created edits).snapshots = created.snapshots := by
  induction edits generalizing created with
  | nil => rfl
  | cons tree edits ih =>
      rw [StepRuns.run_cons, ih]
      rfl

/-- The `SKILL.md` that the extractor found is among the extracted files. -/
theorem exists_skillMd_extracted (plain : PlainTree tree)
    (rootFile : tree.get? [skillMdName] = some raw) {found : Text} {foundRaw : Bytes}
    {foundParsed : SkillMd Metadata} {done : Extraction}
    (accepted : Accepted service.packager (snapshotZip tree) service.tempDir found foundRaw
      foundParsed done) :
    ∃ content,
      (extractedTree service.tempDir done.writes).get? [skillMdName] = some content := by
  obtain ⟨path, content, foundEq, stored, place⟩ := exists_findSkillMd plain rootFile
  rw [accepted.found, Option.some.injEq] at foundEq
  have pathPlain := isPlain_of_packageFile plain stored
  have cut : relativeName (folderPrefix found) (joined path) = some skillMdName := by
    rw [foundEq, folderPrefix, folderOf, pathParts_joined pathPlain]
    rcases place with rfl | ⟨folder, rfl⟩
    · decide
    · have name := (pathPlain.names folder List.mem_cons_self).ne_nil
      have begins : (joined [folder, skillMdName]) = folder ++ '/' :: skillMdName := by
        simp [joined]
      rw [show joined [folder, skillMdName].dropLast = folder by simp [joined], begins,
        relativeName, if_neg name,
        if_pos (List.isPrefixOf_iff_prefix.mpr (List.prefix_append folder _)), List.drop_left]
      decide
  obtain ⟨_, -, member⟩ := accepted.extracted.exists_write
    (mem_snapshotZip.mpr ⟨path, content, stored, rfl⟩) (isDir_memberOf pathPlain content) cut
  obtain ⟨standing, stands⟩ := FileWrites.exists_contents member
  refine ⟨standing, ?_⟩
  rw [get?_extractedTree fun write listed => (accepted.extracted.inside write listed).1, ← stands,
    ← joined_skillMd, resolve_joined service.tempDir isPlain_skillMd, joined_skillMd]

/-- Where a rollback over an empty tree restores the snapshot, the replaced files are read
and are those of the snapshot. -/
theorem Restores.extracted {content : Bytes} (plain : PlainTree tree)
    (rootFile : tree.get? [skillMdName] = some raw)
    (parses : service.packager.parseSkillMd raw = .ok parsed)
    (kept : revision.snapshotPruned = false)
    (stored : state.snapshots.get? revision.revisionNumber = some (snapshotZip tree))
    (extraction : extractPackage service.packager (snapshotZip tree) service.tempDir =
      .ok (info, writes))
    (standing : (extractedTree service.tempDir writes).get? [skillMdName] = some content)
    (emptied : state.tree = OrderedDict.empty) (restores : Restores service tree state revision) :
    syncReplacedFiles service (extractedTree service.tempDir writes) = .ok () ∧
      ∀ path, packageFile (extractedTree service.tempDir writes) path = packageFile tree path := by
  have left := tree_afterReplacement service revision
    { state with tree := extractedTree service.tempDir writes }
  rw [Restores, rollbackToRevision_of_extracted plain rootFile parses kept stored extraction]
    at restores
  split at restores
  · rename_i after error afterEq
    rw [afterEq] at left
    replace left : after.tree = extractedTree service.tempDir writes := left
    rw [← left, restores, emptied] at standing
    cases standing
  · rename_i after created afterEq
    rw [afterEq] at left
    replace left : after.tree = extractedTree service.tempDir writes := left
    rw [left] at restores
    refine ⟨?_, restores.1⟩
    rw [afterReplacement] at afterEq
    split at afterEq
    · cases afterEq
    · assumption

/-- After whatever edits, a rollback restores a snapshot or raises without a change exactly
when the snapshot is restorable. -/
theorem rollback_restores_iff (plain : PlainTree state.tree)
    (rootFile : state.tree.get? [skillMdName] = some raw)
    (parses : service.packager.parseSkillMd raw = .ok parsed) {restoredFrom : Option ℕ}
    {created : SkillState}
    (snapshotted : createRevisionForSkill state restoredFrom = .ok (created, revision)) :
    (∀ edits, Restores service state.tree (run edit created edits) revision) ↔
      RestorableSnapshot service state.tree := by
  obtain ⟨-, kept, stored, small⟩ := exists_of_createRevisionForSkill snapshotted
  have storedAfter : ∀ edits, (run edit created edits).snapshots.get? revision.revisionNumber =
      some (snapshotZip state.tree) := fun edits => by rw [run_edit, stored]
  cases extraction : extractPackage service.packager (snapshotZip state.tree) service.tempDir with
  | error error =>
      refine iff_of_true (fun edits => ?_) (Or.inl ⟨error, extraction⟩)
      rw [Restores, rollbackToRevision_of_refused plain rootFile parses kept (storedAfter edits)
        extraction]
  | ok result =>
      obtain ⟨info, writes⟩ := result
      constructor
      · intro restores
        right
        obtain ⟨found, foundRaw, foundParsed, done, accepted, equal⟩ := exists_accepted extraction
        cases equal
        obtain ⟨content, standing⟩ := exists_skillMd_extracted plain rootFile accepted
        obtain ⟨synced, files⟩ := (restores [OrderedDict.empty]).extracted plain rootFile parses
          kept (storedAfter _) extraction standing rfl
        have inside := fun write listed => (accepted.extracted.inside write listed).1
        have first : ¬ EarlierSkillMd state.tree := by
          intro earlier
          obtain ⟨path, _, foundEq, pathStored, place⟩ := exists_findSkillMd plain rootFile
          rcases place with rfl | ⟨folder, rfl⟩
          · rw [joined_skillMd] at foundEq
            exact (findSkillMd_snapshotZip_iff plain rootFile).mp foundEq earlier
          · rw [accepted.found, Option.some.injEq] at foundEq
            have folderPlain := isPlain_of_packageFile plain pathStored
            have cut : folderPrefix found ≠ [] := by
              rw [foundEq, folderPrefix, folderOf, pathParts_joined folderPlain]
              simpa [joined] using (folderPlain.names folder List.mem_cons_self).ne_nil
            obtain ⟨missing, lost, lostStored, absent⟩ :=
              exists_missing_of_extracted plain rootFile cut accepted.extracted
            have kept := get?_of_packageFile ((files missing).trans lostStored)
            rw [get?_extractedTree inside, absent] at kept
            cases kept
        have same := get?_extractedTree_of_root plain rootFile first extraction
        exact ⟨first, (syncReplacedFiles_eq_ok_iff rootFile parses small same).mp synced⟩
      · rintro (⟨error, refused⟩ | ⟨first, readable⟩) edits
        · rw [extraction] at refused
          cases refused
        · exact restores_of_root plain rootFile parses first small readable kept
            (storedAfter edits) extraction

/-- A service whose `SKILL.md` and `agents/moldy.yaml` are ASCII texts. -/
def notesService : RevisionService Text Text where
  packager := notesPackager
  tempDir := samplePath ["tmp", "tmp1", "skill"]
  decodes := fun content => content.all (· < 128)
  decodes_of_parses := by
    intro raw parsed parses
    replace parses : (if raw = notesSkillMd then Except.ok notesMetadata else .error _) =
      .ok parsed := parses
    split at parses
    · rename_i same
      rw [same]
      decide
    · cases parses
  readsMoldyMetadata := fun content => content.all (· < 128)

/-- A skill with a second `SKILL.md` in a folder. -/
def notesTree (folder : String) : FileTree :=
  OrderedDict.ofEntries [(samplePath ["SKILL.md"], notesSkillMd),
    (samplePath [folder, "SKILL.md"], notesSkillMd)]

def notesState (folder : String) : SkillState :=
  ⟨notesTree folder, [], OrderedDict.empty⟩

def notesRevised (folder : String) : SkillState :=
  ⟨notesTree folder, [⟨1, none, false⟩],
    OrderedDict.empty.set 1 (snapshotZip (notesTree folder))⟩

theorem createRevisionForSkill_notesState (folder : String)
    (small : ∀ file ∈ listFiles (notesTree folder), file.2.length ≤ maxReadBytes) :
    createRevisionForSkill (notesState folder) none =
      .ok (notesRevised folder, ⟨1, none, false⟩) := by
  have snapshotted : snapshotFiles (notesState folder).tree = .ok (listFiles (notesTree folder)) :=
    snapshotFiles_eq_ok_iff.mpr ⟨rfl, small⟩
  rw [createRevisionForSkill, snapshotted]
  rfl

theorem parseSkillMd_notesSkillMd :
    notesService.packager.parseSkillMd notesSkillMd = .ok notesMetadata := by
  simp only [notesService, notesPackager, if_true]

theorem rollback_restores_examples :
    (∀ edits, Restores notesService (notesTree "examples")
        (run edit (notesRevised "examples") edits) ⟨1, none, false⟩) ↔
      RestorableSnapshot notesService (notesTree "examples") :=
  have rootFile : (notesState "examples").tree.get? [skillMdName] = some notesSkillMd := by decide
  rollback_restores_iff (by decide) rootFile parseSkillMd_notesSkillMd
    (createRevisionForSkill_notesState "examples" (by decide))

/-- The `SKILL.md` of the folder is found first, and the rest of the skill is lost. -/
theorem rollback_loses_archive :
    ∃ created revision, createRevisionForSkill (notesState "Archive") none =
        .ok (created, revision) ∧ PlainTree (notesTree "Archive") ∧
      (notesTree "Archive").get? [skillMdName] = some notesSkillMd ∧
      notesService.packager.parseSkillMd notesSkillMd = .ok notesMetadata ∧
      ¬ Restores notesService (notesTree "Archive") (run edit created []) revision := by
  refine ⟨_, _, createRevisionForSkill_notesState "Archive" (by decide), by decide, by decide,
    parseSkillMd_notesSkillMd, fun restores => ?_⟩
  have lost : (rollbackToRevision notesService (notesRevised "Archive")
      ⟨1, none, false⟩).1.tree.get? (samplePath ["Archive", "SKILL.md"]) = none := by
    decide +kernel
  have succeeded : (rollbackToRevision notesService (notesRevised "Archive")
      ⟨1, none, false⟩).2.toOption.isSome = true := by decide +kernel
  rw [StepRuns.run_nil, Restores] at restores
  split at restores
  · rename_i failed
    rw [failed] at succeeded
    cases succeeded
  · rename_i left created rolledBack
    rw [rolledBack] at lost
    have restored := restores.1 (samplePath ["Archive", "SKILL.md"])
    rw [packageFile, lost, ite_self] at restored
    exact absurd restored (by decide)

end NaturalMold.SkillRevisions

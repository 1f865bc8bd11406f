import NaturalMold.ExtractedMembers

/-!
# When an extraction writes the folder of `SKILL.md`

The place of a member is the path its name leads to inside the archive.
-/

namespace NaturalMold.SkillPackages

open CronExpressions (Text)
open FileWrites (Write contents)
open PosixPaths (Path IsName IsPlain components joined follow descend parentName)

variable {Metadata Digest : Type} {packager : Packager Metadata Digest} {zf : List ZipMember}
  {targetDir : Path} {skillMd : Text} {raw : Bytes} {parsed : SkillMd Metadata} {done : Extraction}

/-- The place of a member in the archive; `none` for a name that leads out of it. -/
def locationOf (name : Text) : Option Path :=
  if isAbsolute name then none else descend [] (components name)

structure LiesAt (folder rel : Path) (member : ZipMember) : Prop where
  regular : member.isDir = false
  below : rel ≠ []
  place : locationOf member.filename = some (folder ++ rel)

/-- The extraction has written the folder of `SKILL.md` and nothing else. -/
structure ExtractsFolder (packager : Packager Metadata Digest) (zf : List ZipMember)
    (targetDir : Path) (skillMd : Text) (info : PackageInfo Metadata Digest)
    (writes : List (Write ZipMember Bytes)) : Prop where
  inside : ∀ write ∈ writes, targetDir <+: write.path
  written_iff : ∀ member ∈ zf, ∀ rel,
    (∃ write ∈ writes, write.source = member ∧ write.path = targetDir ++ rel) ↔
      LiesAt (folderOf skillMd) rel member
  ownContent : ∀ member ∈ zf, ∀ rel, LiesAt (folderOf skillMd) rel member →
    contents writes (targetDir ++ rel) = member.content
  describes : ∃ raw parsed, contentOf zf skillMd = some raw ∧
    contents writes (targetDir ++ [skillMdName]) = some raw ∧
    packager.parseSkillMd raw = .ok parsed ∧ info.metadata = parsed.metadata ∧
    info.body = parsed.body ∧ info.contentHash = packager.sha256 parsed.body
  files_iff : ∀ file, file ∈ info.files ↔
    ∃ rel content, contents writes (targetDir ++ rel) = some content ∧ file = joined rel
  totalBytes_le : (writes.map fun write => write.content.length).sum ≤ packager.maxPackageBytes
  fileCount_le : writes.length ≤ packager.maxPackageFiles

/-- The names of the members say where they lie: a member whose name does not start
with the text of the folder lies elsewhere; what is left of any other name is plain, has
no backslash, and is the place of the member in the folder; members at one place have one
content; and `SKILL.md` is itself a file of the folder. -/
structure PlainlySpelled (zf : List ZipMember) (skillMd : Text) : Prop where
  skipped : ∀ member ∈ zf, relativeName (folderPrefix skillMd) member.filename = none →
    ∀ rel, ¬ LiesAt (folderOf skillMd) rel member
  spelled : ∀ member ∈ zf, member.isDir = false →
    ∀ rel, relativeName (folderPrefix skillMd) member.filename = some rel →
      '\\' ∉ rel ∧ ∃ path, IsPlain path ∧ rel = joined path ∧
        locationOf member.filename = some (folderOf skillMd ++ path)
  agree : ∀ member ∈ zf, ∀ other ∈ zf, ∀ rel, LiesAt (folderOf skillMd) rel member →
    LiesAt (folderOf skillMd) rel other → member.content = other.content
  present : ∃ member ∈ zf, LiesAt (folderOf skillMd) [skillMdName] member ∧
    member.content = contentOf zf skillMd

theorem isName_of_descend {base path found : Path} (baseNames : ∀ part ∈ base, IsName part)
    (names : ∀ part ∈ path, part ≠ parentName → IsName part)
    (leads : descend base path = some found) : ∀ part ∈ found, IsName part := by
  induction path generalizing base with
  | nil =>
      rw [descend, Option.some.injEq] at leads
      exact leads ▸ baseNames
  | cons first path ih =>
      have later : ∀ part ∈ path, part ≠ parentName → IsName part := fun part member =>
        names part (List.mem_cons_of_mem _ member)
      rw [descend] at leads
      split at leads
      · split at leads
        · cases leads
        · exact ih (fun part member => baseNames part (List.dropLast_subset base member)) later
            leads
      · rename_i different
        apply ih _ later leads
        intro part member
        rcases List.mem_append.mp member with old | new
        · exact baseNames part old
        · rw [List.mem_singleton] at new
          exact new ▸ names first List.mem_cons_self different

theorem isName_of_locationOf {name : Text} {path : Path} (place : locationOf name = some path) :
    ∀ part ∈ path, IsName part := by
  rw [locationOf] at place
  split at place
  · cases place
  · exact isName_of_descend (fun _ member => absurd member List.not_mem_nil)
      (fun _ member different => PosixPaths.isName_of_mem_components member different) place

theorem LiesAt.isPlain {folder rel : Path} {member : ZipMember} (lies : LiesAt folder rel member) :
    IsPlain rel :=
  ⟨lies.below, fun part inRel =>
    isName_of_locationOf lies.place part (List.mem_append_right folder inRel)⟩

theorem splitOn_forwardSlashes_joined {pieces : Path} (nonempty : pieces ≠ []) :
    (forwardSlashes (joined pieces)).splitOn '/' =
      pieces.flatMap fun piece => (forwardSlashes piece).splitOn '/' := by
  induction pieces with
  | nil => exact absurd rfl nonempty
  | cons piece pieces ih =>
      cases pieces with
      | nil => simp [joined]
      | cons next rest =>
          have tail := ih (List.cons_ne_nil next rest)
          rw [joined] at tail ⊢
          rw [List.intercalate_cons_of_ne_nil (List.cons_ne_nil next rest), List.flatMap_cons,
            ← tail, forwardSlashes, forwardSlashes, forwardSlashes, List.append_assoc,
            List.map_append, List.map_append]
          exact List.splitOn_append_cons_self _ _

theorem isPlain_splitOn {rel : Text} {path : Path} (plain : IsPlain path)
    (same : forwardSlashes rel = joined path) : IsPlain (rel.splitOn '/') := by
  have pieces : ((rel.splitOn '/').flatMap fun piece => (forwardSlashes piece).splitOn '/') =
      path := by
    rw [← splitOn_forwardSlashes_joined (List.splitOn_ne_nil '/' rel), PosixPaths.joined_splitOn,
      same, PosixPaths.splitOn_joined plain]
  have named : ∀ piece ∈ rel.splitOn '/', ∀ part ∈ (forwardSlashes piece).splitOn '/',
      IsName part := fun piece member part inPiece =>
    plain.names part (pieces ▸ List.mem_flatMap.mpr ⟨piece, member, inPiece⟩)
  refine ⟨List.splitOn_ne_nil '/' rel, fun piece member => ?_⟩
  have slashless := PosixPaths.notMem_slash_of_mem_splitOn member
  have names := named piece member
  exact {
    notMem_slash := slashless
    ne_nil := by
      rintro rfl
      exact (names [] (List.mem_singleton_self _)).ne_nil rfl
    ne_dot := by
      rintro rfl
      exact (names ['.'] (List.mem_singleton_self _)).ne_dot rfl
    ne_parentName := by
      rintro rfl
      exact (names parentName (List.mem_singleton_self _)).ne_parentName rfl }

theorem PlainlySpelled.path_eq (spelled : PlainlySpelled zf skillMd)
    (extracted : Extracted packager zf targetDir (folderPrefix skillMd) zf done)
    {write : Write ZipMember Bytes} (member : write ∈ done.writes) :
    ∃ path, relativeName (folderPrefix skillMd) write.source.filename = some (joined path) ∧
      write.path = targetDir ++ path ∧ LiesAt (folderOf skillMd) path write.source := by
  obtain ⟨listed, regular, -, rel, relEq, pathEq⟩ := extracted.mem_writes_iff.mp member
  obtain ⟨-, path, plain, rfl, place⟩ := spelled.spelled write.source listed regular rel relEq
  exact ⟨path, relEq, pathEq.trans (resolve_joined targetDir plain), regular, plain.ne_nil, place⟩

theorem PlainlySpelled.written_iff (spelled : PlainlySpelled zf skillMd)
    (extracted : Extracted packager zf targetDir (folderPrefix skillMd) zf done)
    {member : ZipMember} (listed : member ∈ zf) (rel : Path) :
    (∃ write ∈ done.writes, write.source = member ∧ write.path = targetDir ++ rel) ↔
      LiesAt (folderOf skillMd) rel member := by
  constructor
  · rintro ⟨write, written, rfl, pathEq⟩
    obtain ⟨path, -, samePath, lies⟩ := spelled.path_eq extracted written
    rw [samePath, List.append_cancel_left_eq] at pathEq
    exact pathEq ▸ lies
  · intro lies
    cases relEq : relativeName (folderPrefix skillMd) member.filename with
    | none => exact absurd lies (spelled.skipped member listed relEq rel)
    | some name =>
        obtain ⟨-, path, plain, rfl, place⟩ :=
          spelled.spelled member listed lies.regular name relEq
        obtain ⟨content, -, written⟩ := extracted.exists_write listed lies.regular relEq
        have samePath : path = rel := by
          rw [lies.place, Option.some.injEq, List.append_cancel_left_eq] at place
          exact place.symm
        exact ⟨_, written, rfl, by rw [resolve_joined targetDir plain, samePath]⟩

theorem PlainlySpelled.ownContent (spelled : PlainlySpelled zf skillMd)
    (extracted : Extracted packager zf targetDir (folderPrefix skillMd) zf done)
    {member : ZipMember} (listed : member ∈ zf) {rel : Path}
    (lies : LiesAt (folderOf skillMd) rel member) :
    contents done.writes (targetDir ++ rel) = member.content := by
  obtain ⟨write, written, -, pathEq⟩ := (spelled.written_iff extracted listed rel).mpr lies
  obtain ⟨content, stands⟩ := FileWrites.exists_contents written
  rw [pathEq] at stands
  obtain ⟨last, lastWritten, lastPath, lastContent⟩ := FileWrites.exists_of_contents stands
  have fromZip := extracted.mem_writes_iff.mp lastWritten
  have lastLies := (spelled.written_iff extracted fromZip.1 rel).mp
    ⟨last, lastWritten, rfl, lastPath⟩
  -- The archive answers for the name with its last member of that name.
  obtain ⟨named, namedListed, sameName, namedContent⟩ :=
    exists_member_of_contentOf fromZip.2.2.1
  have namedLies : LiesAt (folderOf skillMd) rel named :=
    ⟨by rw [ZipMember.isDir, sameName]; exact lastLies.regular, lastLies.below,
      by rw [sameName]; exact lastLies.place⟩
  rw [stands, ← spelled.agree named namedListed member listed rel namedLies lies, namedContent,
    lastContent]

theorem PlainlySpelled.files_iff (spelled : PlainlySpelled zf skillMd)
    (extracted : Extracted packager zf targetDir (folderPrefix skillMd) zf done) (file : Text) :
    file ∈ done.files ↔
      ∃ rel content,
        contents done.writes (targetDir ++ rel) = some content ∧ file = joined rel := by
  rw [extracted.mem_files_iff]
  constructor
  · rintro ⟨member, listed, regular, name, relEq, rfl⟩
    obtain ⟨free, path, plain, rfl, place⟩ := spelled.spelled member listed regular name relEq
    have lies : LiesAt (folderOf skillMd) path member := ⟨regular, plain.ne_nil, place⟩
    obtain ⟨write, written, -, pathEq⟩ := (spelled.written_iff extracted listed path).mpr lies
    obtain ⟨content, stands⟩ := FileWrites.exists_contents written
    exact ⟨path, content, pathEq ▸ stands, forwardSlashes_eq_self free⟩
  · rintro ⟨rel, content, stands, rfl⟩
    obtain ⟨write, written, pathEq, -⟩ := FileWrites.exists_of_contents stands
    obtain ⟨path, relEq, samePath, lies⟩ := spelled.path_eq extracted written
    rw [samePath, List.append_cancel_left_eq] at pathEq
    have listed := (extracted.mem_writes_iff.mp written).1
    have free := (spelled.spelled write.source listed lies.regular (joined path) relEq).1
    exact ⟨write.source, listed, lies.regular, joined path, relEq,
      by rw [forwardSlashes_eq_self free, pathEq]⟩

theorem mem_sortedTexts {texts : List Text} {text : Text} :
    text ∈ sortedTexts texts ↔ text ∈ texts :=
  List.mem_insertionSort _

theorem Accepted.extractsFolder
    (accepted : Accepted packager zf targetDir skillMd raw parsed done)
    (spelled : PlainlySpelled zf skillMd) :
    ExtractsFolder packager zf targetDir skillMd (packageInfo packager skillMd parsed done)
      done.writes where
  inside := fun write member => (accepted.extracted.inside write member).1
  written_iff := fun _ listed rel => spelled.written_iff accepted.extracted listed rel
  ownContent := fun _ listed _ lies => spelled.ownContent accepted.extracted listed lies
  describes := by
    obtain ⟨member, listed, lies, own⟩ := spelled.present
    have stands := spelled.ownContent accepted.extracted listed lies
    rw [own, accepted.read] at stands
    exact ⟨raw, parsed, accepted.read, stands, accepted.parses, rfl, rfl, rfl⟩
  files_iff := fun file => mem_sortedTexts.trans (spelled.files_iff accepted.extracted file)
  totalBytes_le := by
    rw [← accepted.extracted.totalBytes_eq]
    exact accepted.extracted.totalBytes_le
  fileCount_le := by
    rw [← accepted.extracted.fileCount_eq]
    exact accepted.extracted.fileCount_le

theorem ExtractsFolder.exists_liesAt {info : PackageInfo Metadata Digest}
    (extracts : ExtractsFolder packager zf targetDir skillMd info done.writes)
    (extracted : Extracted packager zf targetDir (folderPrefix skillMd) zf done) {rel : Path}
    {content : Bytes} (stands : contents done.writes (targetDir ++ rel) = some content) :
    ∃ member ∈ zf, LiesAt (folderOf skillMd) rel member := by
  obtain ⟨write, written, pathEq, -⟩ := FileWrites.exists_of_contents stands
  have listed := (extracted.mem_writes_iff.mp written).1
  exact ⟨write.source, listed,
    (extracts.written_iff write.source listed rel).mp ⟨write, written, rfl, pathEq⟩⟩

theorem ExtractsFolder.spelled
    (extracts : ExtractsFolder packager zf targetDir skillMd
      (packageInfo packager skillMd parsed done) done.writes)
    (extracted : Extracted packager zf targetDir (folderPrefix skillMd) zf done)
    {member : ZipMember} (listed : member ∈ zf) (regular : member.isDir = false) {rel : Text}
    (relEq : relativeName (folderPrefix skillMd) member.filename = some rel) :
    '\\' ∉ rel ∧ ∃ path, IsPlain path ∧ rel = joined path ∧
      locationOf member.filename = some (folderOf skillMd ++ path) := by
  obtain ⟨content, -, written⟩ := extracted.exists_write listed regular relEq
  obtain ⟨path, pathEq⟩ := extracts.inside _ written
  replace pathEq : targetDir ++ path = resolve targetDir rel := pathEq
  have lies := (extracts.written_iff member listed path).mp ⟨_, written, rfl, pathEq.symm⟩
  obtain ⟨stored, stands⟩ := FileWrites.exists_contents written
  have standsAt : contents done.writes (targetDir ++ path) = some stored := by
    rw [pathEq]
    exact stands
  -- The listed name is the text of some file that stands, so the name is a plain path.
  have fileListed : forwardSlashes rel ∈ (packageInfo packager skillMd parsed done).files :=
    mem_sortedTexts.mpr (extracted.mem_files_iff.mpr ⟨member, listed, regular, rel, relEq, rfl⟩)
  obtain ⟨other, otherContent, otherStands, same⟩ := (extracts.files_iff _).mp fileListed
  obtain ⟨_, _, otherLies⟩ := extracts.exists_liesAt extracted otherStands
  have plain := isPlain_splitOn otherLies.isPlain same
  have relJoined := PosixPaths.joined_splitOn rel
  have samePath : rel.splitOn '/' = path := by
    have led := resolve_joined targetDir plain
    rw [relJoined, ← pathEq, List.append_cancel_left_eq] at led
    exact led.symm
  rw [samePath] at relJoined plain
  -- The text of the path is listed too, and no listed text has a backslash.
  have pathListed := (extracts.files_iff (joined path)).mpr ⟨path, stored, standsAt, rfl⟩
  rw [relJoined] at pathListed
  obtain ⟨_, _, _, name, _, listedName⟩ :=
    extracted.mem_files_iff.mp (mem_sortedTexts.mp pathListed)
  exact ⟨listedName ▸ notMem_backslash_forwardSlashes name, path, plain, relJoined.symm, lies.place⟩

theorem ExtractsFolder.plainlySpelled
    (extracts : ExtractsFolder packager zf targetDir skillMd
      (packageInfo packager skillMd parsed done) done.writes)
    (extracted : Extracted packager zf targetDir (folderPrefix skillMd) zf done) :
    PlainlySpelled zf skillMd where
  skipped := by
    intro member listed unread rel lies
    obtain ⟨write, written, rfl, -⟩ := (extracts.written_iff member listed rel).mpr lies
    obtain ⟨-, -, -, name, relEq, -⟩ := extracted.mem_writes_iff.mp written
    rw [unread] at relEq
    cases relEq
  spelled := fun _ listed regular _ relEq => extracts.spelled extracted listed regular relEq
  agree := by
    intro member listed other otherListed rel lies otherLies
    rw [← extracts.ownContent member listed rel lies,
      extracts.ownContent other otherListed rel otherLies]
  present := by
    obtain ⟨raw, parsed, read, stands, -⟩ := extracts.describes
    obtain ⟨member, listed, lies⟩ := extracts.exists_liesAt extracted stands
    refine ⟨member, listed, lies, ?_⟩
    rw [← extracts.ownContent member listed _ lies, stands, read]

/-- An accepted archive is extracted as the folder of its `SKILL.md` exactly when its
names say where the members lie. -/
theorem extractsFolder_iff {info : PackageInfo Metadata Digest}
    {writes : List (Write ZipMember Bytes)}
    (run : extractPackage packager zf targetDir = .ok (info, writes))
    (chosen : findSkillMd zf = some skillMd) :
    ExtractsFolder packager zf targetDir skillMd info writes ↔ PlainlySpelled zf skillMd := by
  obtain ⟨found, raw, parsed, done, accepted, equal⟩ := exists_accepted run
  rw [Prod.mk.injEq] at equal
  obtain ⟨rfl, rfl⟩ := equal
  have same : found = skillMd := Option.some.inj (accepted.found.symm.trans chosen)
  subst same
  exact ⟨fun extracts => extracts.plainlySpelled accepted.extracted,
    fun spelled => accepted.extractsFolder spelled⟩

section Samples

/-- One file next to `SKILL.md`. -/
def folderZip : List ZipMember :=
  [fileMember "foo/SKILL.md" notesSkillMd, fileMember "foo/x.txt" (asciiBytes "x")]

/-- A file of another folder whose name begins with the name of the folder. -/
def siblingZip : List ZipMember :=
  [fileMember "foo/SKILL.md" notesSkillMd, fileMember "foobar/x.txt" (asciiBytes "x")]

end Samples

theorem extractsFolder_folderZip :
    ExtractsFolder notesPackager folderZip (samplePath ["data", "skill"]) "foo/SKILL.md".toList
        (notesInfo ["SKILL.md", "x.txt"] 45)
        [⟨fileMember "foo/SKILL.md" notesSkillMd, samplePath ["data", "skill", "SKILL.md"],
            notesSkillMd⟩,
          ⟨fileMember "foo/x.txt" (asciiBytes "x"), samplePath ["data", "skill", "x.txt"],
            asciiBytes "x"⟩] ↔
      PlainlySpelled folderZip "foo/SKILL.md".toList :=
  extractsFolder_iff (by decide +kernel) (by decide +kernel)

/-- The file of the other folder is written into the package. -/
theorem siblingZip_not_extractsFolder :
    ∃ info writes, extractPackage notesPackager siblingZip (samplePath ["data", "skill"]) =
        .ok (info, writes) ∧ findSkillMd siblingZip = some "foo/SKILL.md".toList ∧
      ¬ ExtractsFolder notesPackager siblingZip (samplePath ["data", "skill"])
        "foo/SKILL.md".toList info writes := by
  refine ⟨notesInfo ["SKILL.md", "bar/x.txt"] 45,
    [⟨fileMember "foo/SKILL.md" notesSkillMd, samplePath ["data", "skill", "SKILL.md"],
        notesSkillMd⟩,
      ⟨fileMember "foobar/x.txt" (asciiBytes "x"), samplePath ["data", "skill", "bar", "x.txt"],
        asciiBytes "x"⟩], by decide +kernel, by decide +kernel, ?_⟩
  intro extracts
  have lies := (extracts.written_iff (fileMember "foobar/x.txt" (asciiBytes "x")) (by decide)
    (samplePath ["bar", "x.txt"])).mp ⟨_, List.mem_cons_of_mem _ List.mem_cons_self, rfl, rfl⟩
  exact absurd lies.place (by decide)

end NaturalMold.SkillPackages

import NaturalMold.SkillPackages

/-! # What an accepted extraction has written -/

namespace NaturalMold.SkillPackages

open CronExpressions (Text)
open Fallible (bind_eq_ok ensure_eq_ok)
open FileWrites (Write)
open PosixPaths (Path IsPlain components joined follow)

variable {Metadata Digest : Type} {packager : Packager Metadata Digest} {zf : List ZipMember}
  {targetDir : Path} {start : Text}

theorem isPlain_skillMd : IsPlain [skillMdName] :=
  ⟨List.cons_ne_nil _ _, fun part member => by
    rw [List.mem_singleton] at member
    subst member
    exact ⟨by decide, by decide, by decide, by decide⟩⟩

theorem joined_skillMd : joined [skillMdName] = skillMdName := by
  decide

theorem rootParts_of_relative {name : Text} (relative : name.head? ≠ some '/') :
    rootParts name = [] := by
  rw [rootParts]
  cases name with
  | nil => rfl
  | cons char rest =>
      rw [List.head?_cons, ne_eq, Option.some.injEq] at relative
      have differs : ('/' == char) = false := beq_eq_false_iff_ne.mpr (Ne.symm relative)
      simp [List.isPrefixOf, differs]

theorem pathParts_joined {path : Path} (plain : IsPlain path) : pathParts (joined path) = path := by
  rw [pathParts, rootParts_of_relative (PosixPaths.head?_joined_ne plain),
    PosixPaths.components_joined plain, List.nil_append]

theorem isSkillMd_joined {path : Path} (plain : IsPlain path) :
    isSkillMd (joined path) = true ↔
      path = [skillMdName] ∨ ∃ folder, path = [folder, skillMdName] := by
  rw [isSkillMd, pathParts_joined plain, Bool.and_eq_true, decide_eq_true_eq, decide_eq_true_eq]
  constructor
  · rintro ⟨last, short⟩
    match path with
    | [] => cases last
    | [name] =>
        rw [List.getLast?_singleton, Option.some.injEq] at last
        exact Or.inl (by rw [last])
    | [folder, name] =>
        rw [List.getLast?_cons_cons, List.getLast?_singleton, Option.some.injEq] at last
        exact Or.inr ⟨folder, by rw [last]⟩
    | _ :: _ :: _ :: rest =>
        simp only [List.length_cons] at short
        omega
  · rintro (rfl | ⟨folder, rfl⟩)
    · exact ⟨rfl, by decide⟩
    · exact ⟨rfl, by simp⟩

theorem notMem_backslash_forwardSlashes (text : Text) : '\\' ∉ forwardSlashes text := by
  rw [forwardSlashes, List.mem_map]
  rintro ⟨char, -, same⟩
  split at same
  · cases same
  · contradiction

theorem forwardSlashes_eq_self {text : Text} (free : '\\' ∉ text) : forwardSlashes text = text := by
  have kept : ∀ char ∈ text, (if char = '\\' then '/' else char) = id char :=
    fun char member => if_neg fun same : char = '\\' => free (same ▸ member)
  rw [forwardSlashes, List.map_congr_left kept, List.map_id]

def writeOf (zf : List ZipMember) (targetDir : Path) (start : Text) (member : ZipMember) :
    Option (Write ZipMember Bytes) :=
  if member.isDir then none
  else (relativeName start member.filename).bind fun rel =>
    (contentOf zf member.filename).map fun content => ⟨member, resolve targetDir rel, content⟩

def fileOf (start : Text) (member : ZipMember) : Option Text :=
  if member.isDir then none else (relativeName start member.filename).map forwardSlashes

theorem writeOf_eq_some_iff {member : ZipMember} {write : Write ZipMember Bytes} :
    writeOf zf targetDir start member = some write ↔
      member.isDir = false ∧ write.source = member ∧
        contentOf zf member.filename = some write.content ∧
        ∃ rel, relativeName start member.filename = some rel ∧
          write.path = resolve targetDir rel := by
  obtain ⟨source, path, content⟩ := write
  rw [writeOf]
  by_cases folder : member.isDir
  · simp [folder]
  · simp only [folder, Bool.false_eq_true, if_false, Option.bind_eq_some_iff,
      Option.map_eq_some_iff, Write.mk.injEq]
    constructor
    · rintro ⟨rel, relEq, read, readEq, rfl, rfl, rfl⟩
      exact ⟨trivial, rfl, readEq, rel, relEq, rfl⟩
    · rintro ⟨-, rfl, readEq, rel, relEq, rfl⟩
      exact ⟨rel, relEq, content, readEq, rfl, rfl, rfl⟩

theorem fileOf_eq_some_iff {member : ZipMember} {file : Text} :
    fileOf start member = some file ↔
      member.isDir = false ∧
        ∃ rel, relativeName start member.filename = some rel ∧ forwardSlashes rel = file := by
  rw [fileOf]
  by_cases folder : member.isDir
  · simp [folder]
  · simp [folder, Option.map_eq_some_iff]

theorem resolve_joined (dest : Path) {path : Path} (plain : IsPlain path) :
    resolve dest (joined path) = dest ++ path :=
  PosixPaths.follow_joined plain

theorem exists_member_of_contentOf {name : Text} {content : Bytes}
    (read : contentOf zf name = some content) :
    ∃ member ∈ zf, member.filename = name ∧ member.content = some content := by
  rw [contentOf, Option.bind_eq_some_iff] at read
  obtain ⟨member, last, own⟩ := read
  have named := List.find?_some last
  rw [decide_eq_true_eq] at named
  exact ⟨member, List.mem_reverse.mp (List.mem_of_find?_eq_some last), named, own⟩

theorem openMember_eq_ok {name : Text} {content : Bytes} :
    openMember zf name = .ok content ↔ contentOf zf name = some content := by
  rw [openMember]
  split
  · rename_i read found
    rw [found, Option.some.injEq, Except.ok.injEq]
  · rename_i missing
    rw [missing]
    simp

structure Extracted (packager : Packager Metadata Digest) (zf : List ZipMember) (targetDir : Path)
    (start : Text) (members : List ZipMember) (done : Extraction) : Prop where
  writes_eq : done.writes = members.filterMap (writeOf zf targetDir start)
  files_eq : done.files = members.filterMap (fileOf start)
  inside : ∀ write ∈ done.writes, targetDir <+: write.path ∧ write.path ≠ targetDir
  readable : ∀ member ∈ members, member.isDir = false →
    ∀ rel, relativeName start member.filename = some rel →
      ∃ content, contentOf zf member.filename = some content
  totalBytes_eq : done.totalBytes = (done.writes.map fun write => write.content.length).sum
  fileCount_eq : done.fileCount = done.writes.length
  totalBytes_le : done.totalBytes ≤ packager.maxPackageBytes
  fileCount_le : done.fileCount ≤ packager.maxPackageFiles

theorem extracted_start : Extracted packager zf targetDir start [] Extraction.start where
  writes_eq := rfl
  files_eq := rfl
  inside := fun _ member => absurd member List.not_mem_nil
  readable := fun _ member => absurd member List.not_mem_nil
  totalBytes_eq := rfl
  fileCount_eq := rfl
  totalBytes_le := Nat.zero_le _
  fileCount_le := Nat.zero_le _

/-- A member that is not written leaves everything as it was. -/
theorem Extracted.skip {members : List ZipMember} {done : Extraction} {member : ZipMember}
    (extracted : Extracted packager zf targetDir start members done)
    (skipped : member.isDir = true ∨ relativeName start member.filename = none) :
    Extracted packager zf targetDir start (members ++ [member]) done where
  writes_eq := by
    have unwritten : writeOf zf targetDir start member = none := by
      rw [writeOf]
      rcases skipped with folder | outside
      · rw [if_pos folder]
      · rw [outside, Option.bind_none, ite_self]
    rw [List.filterMap_append, ← extracted.writes_eq]
    simp [unwritten]
  files_eq := by
    have unlisted : fileOf start member = none := by
      rw [fileOf]
      rcases skipped with folder | outside
      · rw [if_pos folder]
      · rw [outside, Option.map_none, ite_self]
    rw [List.filterMap_append, ← extracted.files_eq]
    simp [unlisted]
  inside := extracted.inside
  readable := by
    intro other otherMember regular rel relEq
    rcases List.mem_append.mp otherMember with old | new
    · exact extracted.readable other old regular rel relEq
    · rw [List.mem_singleton] at new
      subst new
      rcases skipped with folder | outside
      · rw [folder] at regular
        cases regular
      · rw [outside] at relEq
        cases relEq
  totalBytes_eq := extracted.totalBytes_eq
  fileCount_eq := extracted.fileCount_eq
  totalBytes_le := extracted.totalBytes_le
  fileCount_le := extracted.fileCount_le

theorem Extracted.write {members : List ZipMember} {done next : Extraction} {member : ZipMember}
    {rel : Text} (extracted : Extracted packager zf targetDir start members done)
    (regular : member.isDir = false) (relEq : relativeName start member.filename = some rel)
    (run : writeMember packager zf targetDir done member rel = .ok next) :
    Extracted packager zf targetDir start (members ++ [member]) next := by
  rw [writeMember] at run
  simp only [bind_eq_ok, ensure_eq_ok, openMember_eq_ok] at run
  obtain ⟨_, few, _, within, _, _, source, sourceEq, _, notFolder, copied, copy, equal⟩ := run
  cases Except.ok.inj equal
  have whole : copied = source := eq_append_of_copyLimitedStream copy
  have small := le_of_copyLimitedStream (by simpa using extracted.totalBytes_le) copy
  rw [FileWrites.isFolder, not_or] at notFolder
  subst whole
  exact {
    writes_eq := by
      have written : writeOf zf targetDir start member =
          some ⟨member, resolve targetDir rel, copied⟩ :=
        writeOf_eq_some_iff.mpr ⟨regular, rfl, sourceEq, rel, relEq, rfl⟩
      rw [List.filterMap_append, ← extracted.writes_eq]
      simp [written]
    files_eq := by
      have listed : fileOf start member = some (forwardSlashes rel) :=
        fileOf_eq_some_iff.mpr ⟨regular, rel, relEq, rfl⟩
      rw [List.filterMap_append, ← extracted.files_eq]
      simp [listed]
    inside := by
      intro write writeMember
      rcases List.mem_append.mp writeMember with old | new
      · exact extracted.inside write old
      · rw [List.mem_singleton] at new
        subst new
        exact ⟨within, notFolder.1⟩
    readable := by
      intro other otherMember otherRegular otherRel otherRelEq
      rcases List.mem_append.mp otherMember with old | new
      · exact extracted.readable other old otherRegular otherRel otherRelEq
      · rw [List.mem_singleton] at new
        subst new
        exact ⟨copied, sourceEq⟩
    totalBytes_eq := by
      rw [List.map_append, List.sum_append, ← extracted.totalBytes_eq]
      simp
    fileCount_eq := by
      rw [List.length_append, ← extracted.fileCount_eq, List.length_singleton]
    totalBytes_le := small
    fileCount_le := few }

theorem Extracted.member {members : List ZipMember} {done next : Extraction} {member : ZipMember}
    (extracted : Extracted packager zf targetDir start members done)
    (run : extractMember packager zf targetDir start done member = .ok next) :
    Extracted packager zf targetDir start (members ++ [member]) next := by
  rw [extractMember] at run
  by_cases folder : member.isDir
  · rw [if_pos folder] at run
    cases Except.ok.inj run
    exact extracted.skip (Or.inl folder)
  · rw [if_neg folder, bind_eq_ok] at run
    obtain ⟨_, _, run⟩ := run
    cases relEq : relativeName start member.filename with
    | none =>
        rw [relEq] at run
        cases Except.ok.inj run
        exact extracted.skip (Or.inr relEq)
    | some rel =>
        rw [relEq] at run
        exact extracted.write (Bool.not_eq_true _ ▸ folder) relEq run

theorem Extracted.foldlM {members later : List ZipMember} {done next : Extraction}
    (extracted : Extracted packager zf targetDir start members done)
    (run : later.foldlM (extractMember packager zf targetDir start) done = .ok next) :
    Extracted packager zf targetDir start (members ++ later) next := by
  induction later generalizing members done with
  | nil =>
      rw [List.foldlM_nil] at run
      cases Except.ok.inj run
      rwa [List.append_nil]
  | cons member later ih =>
      rw [List.foldlM_cons, bind_eq_ok] at run
      obtain ⟨between, first, rest⟩ := run
      have whole := ih (extracted.member first) rest
      rwa [List.append_assoc, List.singleton_append] at whole

structure Accepted (packager : Packager Metadata Digest) (zf : List ZipMember) (targetDir : Path)
    (skillMd : Text) (raw : Bytes) (parsed : SkillMd Metadata) (done : Extraction) : Prop where
  small : packager.archiveBytes zf ≤ packager.maxPackageBytes
  found : findSkillMd zf = some skillMd
  read : contentOf zf skillMd = some raw
  parses : packager.parseSkillMd raw = .ok parsed
  extracted : Extracted packager zf targetDir (folderPrefix skillMd) zf done

theorem exists_accepted {result : PackageInfo Metadata Digest × List (Write ZipMember Bytes)}
    (run : extractPackage packager zf targetDir = .ok result) :
    ∃ skillMd raw parsed done, Accepted packager zf targetDir skillMd raw parsed done ∧
      result = (packageInfo packager skillMd parsed done, done.writes) := by
  rw [extractPackage, bind_eq_ok] at run
  obtain ⟨_, small, run⟩ := run
  rw [ensure_eq_ok] at small
  cases found : findSkillMd zf with
  | none =>
      rw [found] at run
      cases run
  | some skillMd =>
      rw [found] at run
      simp only [bind_eq_ok, Fallible.mapError_eq_ok] at run
      obtain ⟨raw, read, parsed, parses, done, loop, equal⟩ := run
      rw [readMemberLimited, bind_eq_ok] at read
      obtain ⟨source, opened, copy⟩ := read
      have whole : raw = source := eq_append_of_copyLimitedStream copy
      rw [openMember_eq_ok, ← whole] at opened
      exact ⟨skillMd, raw, parsed, done,
        ⟨small, found, opened, parses, extracted_start.foldlM loop⟩,
        (Except.ok.inj equal).symm⟩

/-- A member is written exactly when it is no folder and is not skipped. -/
theorem Extracted.mem_writes_iff {done : Extraction}
    (extracted : Extracted packager zf targetDir start zf done)
    {write : Write ZipMember Bytes} :
    write ∈ done.writes ↔ write.source ∈ zf ∧ write.source.isDir = false ∧
      contentOf zf write.source.filename = some write.content ∧
      ∃ rel, relativeName start write.source.filename = some rel ∧
        write.path = resolve targetDir rel := by
  rw [extracted.writes_eq, List.mem_filterMap]
  constructor
  · rintro ⟨member, listed, written⟩
    obtain ⟨regular, rfl, facts⟩ := writeOf_eq_some_iff.mp written
    exact ⟨listed, regular, facts⟩
  · rintro ⟨listed, regular, facts⟩
    exact ⟨write.source, listed, writeOf_eq_some_iff.mpr ⟨regular, rfl, facts⟩⟩

theorem Extracted.mem_files_iff {done : Extraction}
    (extracted : Extracted packager zf targetDir start zf done) {file : Text} :
    file ∈ done.files ↔ ∃ member ∈ zf, member.isDir = false ∧
      ∃ rel, relativeName start member.filename = some rel ∧ forwardSlashes rel = file := by
  rw [extracted.files_eq, List.mem_filterMap]
  simp only [fileOf_eq_some_iff]

theorem Extracted.exists_write {done : Extraction}
    (extracted : Extracted packager zf targetDir start zf done) {member : ZipMember}
    (listed : member ∈ zf) (regular : member.isDir = false) {rel : Text}
    (relEq : relativeName start member.filename = some rel) :
    ∃ content, contentOf zf member.filename = some content ∧
      (⟨member, resolve targetDir rel, content⟩ : Write ZipMember Bytes) ∈ done.writes := by
  obtain ⟨content, read⟩ := extracted.readable member listed regular rel relEq
  exact ⟨content, read, extracted.mem_writes_iff.mpr ⟨listed, regular, read, rel, relEq, rfl⟩⟩

end NaturalMold.SkillPackages

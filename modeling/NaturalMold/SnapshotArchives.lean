import Mathlib.Data.Finset.Dedup
import Mathlib.Data.Finset.Max
import NaturalMold.SkillRevisions

/-! # The archive of a snapshot and what its extraction leaves -/

namespace NaturalMold.SkillRevisions

open CronExpressions (Text)
open FileWrites (Write contents)
open PosixPaths (Path IsPlain components joined size)
open SkillPackages

variable {Metadata Digest : Type} {packager : Packager Metadata Digest} {tree : FileTree}
  {targetDir : Path}

def snapshotZip (tree : FileTree) : List ZipMember :=
  writeZip (listFiles tree)

/-- The `SKILL.md` of a top-level folder sorts before the one of the root. -/
def EarlierSkillMd (tree : FileTree) : Prop :=
  ∃ folder content, packageFile tree [folder, skillMdName] = some content ∧
    joined [folder, skillMdName] < skillMdName

theorem packageFile_eq_get? {path : Path} (kept : isExcludedPackagePath path = false) :
    packageFile tree path = tree.get? path := by
  rw [packageFile, kept]
  rfl

theorem get?_of_packageFile {path : Path} {content : Bytes}
    (stored : packageFile tree path = some content) : tree.get? path = some content := by
  rw [packageFile] at stored
  split at stored
  · cases stored
  · exact stored

theorem isPlain_of_packageFile (plain : PlainTree tree) {path : Path} {content : Bytes}
    (stored : packageFile tree path = some content) : IsPlain path :=
  plain path (OrderedDict.mem_keys_of_get? (get?_of_packageFile stored))

def memberOf (path : Path) (content : Bytes) : ZipMember :=
  ⟨joined path, 0o600 <<< 16, some content⟩

theorem mem_snapshotZip {member : ZipMember} :
    member ∈ snapshotZip tree ↔
      ∃ path content, packageFile tree path = some content ∧ member = memberOf path content := by
  rw [snapshotZip, writeZip, List.mem_map]
  constructor
  · rintro ⟨⟨name, content⟩, listed, rfl⟩
    obtain ⟨path, stored, rfl⟩ := mem_listFiles.mp (mem_sortedFiles.mp listed)
    exact ⟨path, content, stored, rfl⟩
  · rintro ⟨path, content, stored, rfl⟩
    exact ⟨(joined path, content),
      mem_sortedFiles.mpr (mem_listFiles.mpr ⟨path, stored, rfl⟩), rfl⟩

theorem contentOf_snapshotZip (plain : PlainTree tree) {path : Path} (pathPlain : IsPlain path) :
    contentOf (snapshotZip tree) (joined path) = packageFile tree path := by
  cases stored : packageFile tree path with
  | some content =>
      have listed : memberOf path content ∈ (snapshotZip tree).reverse :=
        List.mem_reverse.mpr (mem_snapshotZip.mpr ⟨path, content, stored, rfl⟩)
      obtain ⟨last, lastEq⟩ := Option.isSome_iff_exists.mp
        (List.find?_isSome (p := fun member => member.filename = joined path).mpr
          ⟨_, listed, decide_eq_true rfl⟩)
      have named := List.find?_some lastEq
      rw [decide_eq_true_eq] at named
      obtain ⟨other, otherContent, otherStored, rfl⟩ :=
        mem_snapshotZip.mp (List.mem_reverse.mp (List.mem_of_find?_eq_some lastEq))
      cases PosixPaths.joined_injective (isPlain_of_packageFile plain otherStored) pathPlain named
      rw [contentOf, lastEq, ← stored, otherStored]
      rfl
  | none =>
      cases read : contentOf (snapshotZip tree) (joined path) with
      | none => rfl
      | some content =>
          obtain ⟨member, listed, named, -⟩ := exists_member_of_contentOf read
          obtain ⟨other, otherContent, otherStored, rfl⟩ := mem_snapshotZip.mp listed
          have otherPlain := isPlain_of_packageFile plain otherStored
          cases PosixPaths.joined_injective otherPlain pathPlain named
          rw [stored] at otherStored
          cases otherStored

theorem isDir_memberOf {path : Path} (plain : IsPlain path) (content : Bytes) :
    (memberOf path content).isDir = false :=
  decide_eq_false (PosixPaths.getLast?_joined_ne plain)

theorem packageFile_skillMd (tree : FileTree) :
    packageFile tree [skillMdName] = tree.get? [skillMdName] :=
  packageFile_eq_get? (by decide)

theorem pairwise_names (tree : FileTree) :
    ((snapshotZip tree).map (·.filename)).Pairwise fun first second => first ≤ second := by
  rw [snapshotZip, writeZip, List.map_map, List.pairwise_map]
  exact pairwise_sortedFiles _

theorem le_of_find? {names : List Text} (sorted : names.Pairwise fun first second => first ≤ second)
    {sought : Text → Bool} {found name : Text} (first : names.find? sought = some found)
    (member : name ∈ names) (also : sought name = true) : found ≤ name := by
  obtain ⟨-, before, after, rfl, none⟩ := List.find?_eq_some_iff_append.mp first
  rcases List.mem_append.mp member with early | late
  · have unsought := none name early
    rw [also] at unsought
    cases unsought
  · rcases List.mem_cons.mp late with rfl | later
    · exact le_refl name
    · exact List.rel_of_pairwise_cons (List.pairwise_append.mp sorted).2.1 later

/-- The extractor finds the `SKILL.md` of the root or of a top-level folder. -/
theorem exists_findSkillMd (plain : PlainTree tree) {raw : Bytes}
    (rootFile : tree.get? [skillMdName] = some raw) :
    ∃ path content, findSkillMd (snapshotZip tree) = some (joined path) ∧
      packageFile tree path = some content ∧
      (path = [skillMdName] ∨ ∃ folder, path = [folder, skillMdName]) := by
  have listed : skillMdName ∈ (snapshotZip tree).map (·.filename) := by
    have member := mem_snapshotZip.mpr
      ⟨[skillMdName], raw, (packageFile_skillMd tree).trans rootFile, rfl⟩
    exact joined_skillMd ▸ List.mem_map_of_mem (f := fun member => member.filename) member
  have sought : isSkillMd skillMdName = true := by decide
  obtain ⟨name, found⟩ := Option.isSome_iff_exists.mp
    (List.find?_isSome.mpr ⟨skillMdName, listed, sought⟩)
  obtain ⟨member, memberListed, rfl⟩ := List.mem_map.mp (List.mem_of_find?_eq_some found)
  obtain ⟨path, content, stored, rfl⟩ := mem_snapshotZip.mp memberListed
  exact ⟨path, content, found, stored,
    (isSkillMd_joined (isPlain_of_packageFile plain stored)).mp (List.find?_some found)⟩

/-- The `SKILL.md` of the root is found unless that of a folder sorts before it. -/
theorem findSkillMd_snapshotZip_iff (plain : PlainTree tree) {raw : Bytes}
    (rootFile : tree.get? [skillMdName] = some raw) :
    findSkillMd (snapshotZip tree) = some skillMdName ↔ ¬ EarlierSkillMd tree := by
  constructor
  · rintro found ⟨folder, content, stored, earlier⟩
    have listed : joined [folder, skillMdName] ∈ (snapshotZip tree).map (·.filename) :=
      List.mem_map.mpr ⟨_, mem_snapshotZip.mpr ⟨_, content, stored, rfl⟩, rfl⟩
    have atMost := le_of_find? (pairwise_names tree) found listed
      ((isSkillMd_joined (isPlain_of_packageFile plain stored)).mpr (Or.inr ⟨folder, rfl⟩))
    exact absurd earlier (not_lt.mpr atMost)
  · intro notEarlier
    obtain ⟨path, content, found, stored, rfl | ⟨folder, rfl⟩⟩ := exists_findSkillMd plain rootFile
    · rw [found, joined_skillMd]
    · have listed : skillMdName ∈ (snapshotZip tree).map (·.filename) :=
        List.mem_map.mpr ⟨_, mem_snapshotZip.mpr
          ⟨[skillMdName], raw, (packageFile_skillMd tree).trans rootFile, rfl⟩, joined_skillMd⟩
      have atMost := le_of_find? (pairwise_names tree) found listed (by decide)
      have atLeast : skillMdName ≤ joined [folder, skillMdName] := not_lt.mp fun earlier =>
        notEarlier ⟨folder, content, stored, earlier⟩
      rw [found, le_antisymm atMost atLeast]

theorem get?_extractedTree {writes : List (Write ZipMember Bytes)}
    (inside : ∀ write ∈ writes, targetDir <+: write.path) (path : Path) :
    (extractedTree targetDir writes).get? path = contents writes (targetDir ++ path) := by
  induction writes using List.reverseRecOn with
  | nil => rfl
  | append_singleton writes write ih =>
      have rest := ih fun other member => inside other (List.mem_append_left _ member)
      obtain ⟨rel, relEq⟩ := inside write (List.mem_append_right _ (List.mem_singleton_self _))
      rw [extractedTree, OrderedDict.ofEntries] at rest ⊢
      rw [List.map_append, List.foldl_append, List.map_singleton, List.foldl_cons, List.foldl_nil,
        OrderedDict.get?_set, FileWrites.contents_concat, rest, ← relEq, List.drop_left]
      by_cases same : path = rel
      · rw [if_pos same, if_pos (by rw [same])]
      · rw [if_neg same, if_neg fun equal => same (List.append_cancel_left equal).symm]

theorem relativeName_nil {path : Path} (plain : IsPlain path) :
    relativeName [] (joined path) = some (joined path) := by
  rw [relativeName, if_pos rfl, if_neg (PosixPaths.joined_ne_nil plain)]

theorem contents_of_extracted (plain : PlainTree tree) {done : Extraction}
    (extracted : Extracted packager (snapshotZip tree) targetDir [] (snapshotZip tree) done)
    (path : Path) : contents done.writes (targetDir ++ path) = packageFile tree path := by
  have written : ∀ content, contents done.writes (targetDir ++ path) = some content →
      packageFile tree path = some content := by
    intro content stands
    obtain ⟨write, member, pathEq, rfl⟩ := FileWrites.exists_of_contents stands
    obtain ⟨listed, -, read, rel, relEq, resolved⟩ := extracted.mem_writes_iff.mp member
    obtain ⟨other, otherContent, stored, source⟩ := mem_snapshotZip.mp listed
    have otherPlain := isPlain_of_packageFile plain stored
    rw [source] at read relEq
    replace read : contentOf (snapshotZip tree) (joined other) = some write.content := read
    replace relEq : relativeName [] (joined other) = some rel := relEq
    rw [relativeName_nil otherPlain, Option.some.injEq] at relEq
    rw [← relEq, resolve_joined targetDir otherPlain, pathEq, List.append_cancel_left_eq]
      at resolved
    rw [resolved, ← contentOf_snapshotZip plain otherPlain, read]
  cases stored : packageFile tree path with
  | none =>
      cases stands : contents done.writes (targetDir ++ path) with
      | none => rfl
      | some content =>
          rw [written content stands] at stored
          cases stored
  | some content =>
      have pathPlain := isPlain_of_packageFile plain stored
      obtain ⟨_, -, member⟩ := extracted.exists_write
        (mem_snapshotZip.mpr ⟨path, content, stored, rfl⟩) (isDir_memberOf pathPlain content)
        (relativeName_nil pathPlain)
      obtain ⟨standing, stands⟩ := FileWrites.exists_contents member
      replace stands :
          contents done.writes (resolve targetDir (joined path)) = some standing := stands
      rw [resolve_joined targetDir pathPlain] at stands
      rw [stands, ← written standing stands, stored]

/-- What is cut off in front of a member's path makes the path shorter. -/
theorem length_lt_of_relativeName {start name rel : Text} (cut : start ≠ [])
    (relEq : relativeName start name = some rel) : rel.length < name.length := by
  rw [relativeName, if_neg cut] at relEq
  split at relEq
  · rename_i begins
    dsimp only at relEq
    split at relEq
    · cases relEq
    · cases relEq
      have positive := List.length_pos_iff.mpr cut
      have fits := (List.isPrefixOf_iff_prefix.mp begins).length_le
      have dropped := (List.dropWhile_sublist isSlash (l := name.drop start.length)).length_le
      rw [List.length_drop] at dropped
      omega
  · cases relEq

/-- Extracted from a folder, the archive of a snapshot does not give the files of the
tree: the longest path has nothing that it could come from. -/
theorem exists_missing_of_extracted (plain : PlainTree tree) {raw : Bytes}
    (rootFile : tree.get? [skillMdName] = some raw) {start : Text} (cut : start ≠ [])
    {done : Extraction}
    (extracted : Extracted packager (snapshotZip tree) targetDir start (snapshotZip tree) done) :
    ∃ path content, packageFile tree path = some content ∧
      contents done.writes (targetDir ++ path) = none := by
  have kept : (tree.keys.toFinset.filter fun path => (packageFile tree path).isSome).Nonempty := by
    refine ⟨[skillMdName], Finset.mem_filter.mpr
      ⟨List.mem_toFinset.mpr (OrderedDict.mem_keys_of_get? rootFile), ?_⟩⟩
    rw [packageFile_skillMd, rootFile]
    rfl
  obtain ⟨longest, longestKept, longer⟩ := Finset.exists_max_image _ size kept
  obtain ⟨content, stored⟩ := Option.isSome_iff_exists.mp (Finset.mem_filter.mp longestKept).2
  refine ⟨longest, content, stored, ?_⟩
  by_contra stands
  obtain ⟨standing, stands⟩ := Option.ne_none_iff_exists'.mp stands
  obtain ⟨write, member, pathEq, -⟩ := FileWrites.exists_of_contents stands
  obtain ⟨listed, -, -, rel, relEq, resolved⟩ := extracted.mem_writes_iff.mp member
  obtain ⟨other, otherContent, otherStored, source⟩ := mem_snapshotZip.mp listed
  rw [source] at relEq
  have shorter : rel.length < (joined other).length := length_lt_of_relativeName cut relEq
  have otherKept : size other ≤ size longest :=
    longer other (Finset.mem_filter.mpr
      ⟨List.mem_toFinset.mpr (OrderedDict.mem_keys_of_get? (get?_of_packageFile otherStored)), by
        rw [otherStored]
        rfl⟩)
  have otherLength := PosixPaths.length_joined (isPlain_of_packageFile plain otherStored).ne_nil
  have followed := PosixPaths.size_follow_le targetDir (components rel)
  have fewParts := PosixPaths.size_components_le rel
  rw [← resolve, ← resolved, pathEq, PosixPaths.size_append] at followed
  omega

end NaturalMold.SkillRevisions

import NaturalMold.ThreadBranches
import Mathlib.Data.Finset.Basic

/-! # The tree of the leaves and the tree of all checkpoints -/

namespace NaturalMold.ThreadBranches

open ParentWalks

variable {Content : Type}

section Readings

variable {first second : Reading Content} {active : Checkpoint Content}
  {leaves : List (Checkpoint Content)}

theorem Reading.discover_subset (reading : Reading Content) (idx : ℕ)
    (found : List (Checkpoint Content)) (leaf : Checkpoint Content) :
    reading.discover active idx found leaf ⊆ found ++ [leaf] := by
  rw [Reading.discover]
  split_ifs
  · exact List.subset_append_left found [leaf]
  · exact List.subset_append_left found [leaf]
  · exact List.subset_append_left found [leaf]
  · exact List.Subset.refl _

theorem Reading.discover_congr
    (agree : ∀ leaf ∈ active :: leaves, ∀ idx, first.keyAt leaf idx = second.keyAt leaf idx)
    (idx : ℕ) {found : List (Checkpoint Content)} (known : found ⊆ active :: leaves)
    {leaf : Checkpoint Content} (member : leaf ∈ active :: leaves) :
    first.discover active idx found leaf = second.discover active idx found leaf := by
  have keys : (found.map fun seen => first.keyAt seen idx) =
      found.map fun seen => second.keyAt seen idx :=
    List.map_congr_left fun seen seenMember => agree seen (known seenMember) idx
  have parents : ∀ leaf ∈ active :: leaves,
      first.parentKeyAt leaf idx = second.parentKeyAt leaf idx := by
    intro leaf member
    cases idx with
    | zero => rfl
    | succ before => exact agree leaf member before
  rw [Reading.discover, Reading.discover, keys, agree leaf member idx, parents leaf member,
    parents active List.mem_cons_self]

theorem Reading.siblingLeaves_congr
    (agree : ∀ leaf ∈ active :: leaves, ∀ idx, first.keyAt leaf idx = second.keyAt leaf idx)
    (idx : ℕ) : first.siblingLeaves active leaves idx = second.siblingLeaves active leaves idx := by
  have run : ∀ remaining found, remaining ⊆ leaves → found ⊆ active :: leaves →
      remaining.foldl (first.discover active idx) found =
        remaining.foldl (second.discover active idx) found := by
    intro remaining
    induction remaining with
    | nil => intro found _ _; rfl
    | cons leaf remaining ih =>
        intro found within known
        have member : leaf ∈ active :: leaves :=
          List.mem_cons_of_mem active (within List.mem_cons_self)
        have knownNext : second.discover active idx found leaf ⊆ active :: leaves := by
          apply List.Subset.trans (second.discover_subset idx found leaf)
          exact List.append_subset.mpr ⟨known, List.cons_subset.mpr ⟨member, List.nil_subset _⟩⟩
        rw [List.foldl_cons, List.foldl_cons, Reading.discover_congr agree idx known member]
        exact ih _ (fun _ later => within (List.mem_cons_of_mem leaf later)) knownNext
  apply run leaves [active] (List.Subset.refl leaves)
  exact List.cons_subset.mpr ⟨List.mem_cons_self, List.nil_subset _⟩

/-- The ids of the siblings, up to their order, are those of the messages that the
leaves have at the index. -/
theorem Reading.map_messageId_siblings (reading : Reading Content) (idx : ℕ) :
    ((reading.siblings active leaves idx).map BranchSibling.messageId).Perm
      ((reading.siblingLeaves active leaves idx).filterMap fun leaf =>
        leaf.messages[idx]?.map fun msg => messageId msg idx) := by
  have sorted := (List.perm_insertionSort
    (fun first second => reading.sortKey first ≤ reading.sortKey second)
    ((reading.siblingLeaves active leaves idx).filterMap (reading.siblingAt idx))).map
      BranchSibling.messageId
  apply sorted.trans
  rw [List.map_filterMap]
  apply List.Perm.of_eq
  congr 1
  funext leaf
  rw [Reading.siblingAt, Option.map_map]
  rfl

theorem Reading.siblingIds_perm
    (agree : ∀ leaf ∈ active :: leaves, ∀ idx, first.keyAt leaf idx = second.keyAt leaf idx)
    (idx : ℕ) :
    ((first.siblings active leaves idx).map BranchSibling.messageId).Perm
      ((second.siblings active leaves idx).map BranchSibling.messageId) := by
  apply (first.map_messageId_siblings idx).trans
  rw [Reading.siblingLeaves_congr agree idx]
  exact (second.map_messageId_siblings idx).symm

end Readings

def siblingIds (siblings : List BranchSibling) : Finset String :=
  (siblings.map BranchSibling.messageId).toFinset

/-- The same active checkpoint, messages and parents, branch totals, and branchable
messages with the same sets of sibling ids. -/
structure MessageTree.Agrees (leafTree fullTree : MessageTree Content) : Prop where
  activeCheckpointId : leafTree.activeCheckpointId = fullTree.activeCheckpointId
  chain : (leafTree.nodes.map fun node => (node.message, node.parentId)) =
    fullTree.nodes.map fun node => (node.message, node.parentId)
  branchTotals : leafTree.nodes.map MessageTreeNode.branchTotal =
    fullTree.nodes.map MessageTreeNode.branchTotal
  branches : ∀ mid, (leafTree.branchesByMessage.get? mid).map siblingIds =
    (fullTree.branchesByMessage.get? mid).map siblingIds

theorem Reading.buildTree_agrees {first second : Reading Content} {active : Checkpoint Content}
    {leaves : List (Checkpoint Content)}
    (agree : ∀ leaf ∈ active :: leaves, ∀ idx, first.keyAt leaf idx = second.keyAt leaf idx) :
    (first.buildTree active leaves).Agrees (second.buildTree active leaves) := by
  have lengths : ∀ idx, (first.siblings active leaves idx).length =
      (second.siblings active leaves idx).length := by
    intro idx
    simpa using (Reading.siblingIds_perm agree idx).length_eq
  have entries : ∀ entry, (first.branchesAt active leaves entry).map
        (fun branch => (branch.1, siblingIds branch.2)) =
      (second.branchesAt active leaves entry).map fun branch => (branch.1, siblingIds branch.2) := by
    intro entry
    have ids : siblingIds (first.siblings active leaves entry.2) =
        siblingIds (second.siblings active leaves entry.2) :=
      List.toFinset_eq_of_perm _ _ (Reading.siblingIds_perm agree entry.2)
    simp only [Reading.branchesAt, lengths entry.2]
    split
    · simp only [Option.map_some, ids]
    · rfl
  have lookups : ∀ (reading : Reading Content) mid,
      ((reading.buildTree active leaves).branchesByMessage.get? mid).map siblingIds =
        OrderedDict.lookupEntry mid (active.messages.zipIdx.reverse.filterMap fun entry =>
          (reading.branchesAt active leaves entry).map
            fun branch => (branch.1, siblingIds branch.2)) := by
    intro reading mid
    rw [Reading.buildTree, OrderedDict.get?_ofEntries, ← OrderedDict.lookupEntry_map,
      ← List.filterMap_reverse, List.map_filterMap]
  refine ⟨rfl, ?_, ?_, ?_⟩
  · simp only [Reading.buildTree, List.mapIdx_eq_zipIdx_map, List.map_map]
    rfl
  · simp only [Reading.buildTree, List.mapIdx_eq_zipIdx_map, List.map_map, Function.comp_def,
      Reading.nodeAt, lengths]
  · intro mid
    rw [lookups, lookups]
    simp only [entries]

/-- Distinct ids, listed parents, no cycle, and messages with ids of their own. -/
structure WellFormed (checkpoints : List (Checkpoint Content)) : Prop where
  distinct : (checkpoints.map Checkpoint.checkpointId).Nodup
  listed : ∀ checkpoint ∈ checkpoints, ∀ parent, checkpoint.parentCheckpointId = some parent →
    parent ∈ checkpoints.map Checkpoint.checkpointId
  acyclic : ∀ checkpointId, ¬ Relation.TransGen (fun child parent => ∃ checkpoint ∈ checkpoints,
    checkpoint.checkpointId = child ∧ checkpoint.parentCheckpointId = some parent)
      checkpointId checkpointId
  identified : ∀ checkpoint ∈ checkpoints, ∀ msg ∈ checkpoint.messages, ∃ raw,
    msg.id = some raw ∧ raw ≠ "" ∧ isSyntheticId raw = false

namespace WellFormed

variable {checkpoints : List (Checkpoint Content)} (formed : WellFormed checkpoints)

include formed

theorem byId_eq_some_iff {checkpointId : String} {checkpoint : Checkpoint Content} :
    (byId checkpoints).get? checkpointId = some checkpoint ↔
      checkpoint ∈ checkpoints ∧ checkpoint.checkpointId = checkpointId := by
  rw [byId, OrderedDict.get?_ofEntries_eq_some_iff, List.mem_map]
  · constructor
    · rintro ⟨listed, member, pair⟩
      rw [Prod.mk.injEq] at pair
      rw [← pair.2]
      exact ⟨member, pair.1⟩
    · rintro ⟨member, rfl⟩
      exact ⟨checkpoint, member, rfl⟩
  · rw [List.map_map]
    exact formed.distinct

theorem parentOf_eq_some {low high : Checkpoint Content}
    (above : parentOf checkpoints low = some high) :
    high ∈ checkpoints ∧ low.parentCheckpointId = some high.checkpointId := by
  rw [parentOf, Option.bind_eq_some_iff] at above
  obtain ⟨parent, parentEq, found⟩ := above
  obtain ⟨member, rfl⟩ := formed.byId_eq_some_iff.mp found
  exact ⟨member, parentEq⟩

theorem parentById_checkpointId {checkpoint : Checkpoint Content}
    (member : checkpoint ∈ checkpoints) :
    parentById checkpoints checkpoint.checkpointId = checkpoint.parentCheckpointId := by
  have found : (OrderedDict.ofEntries (checkpoints.map fun checkpoint =>
      (checkpoint.checkpointId, checkpoint.parentCheckpointId))).get? checkpoint.checkpointId =
        some checkpoint.parentCheckpointId := by
    rw [OrderedDict.get?_ofEntries_eq_some_iff]
    · exact List.mem_map.mpr ⟨checkpoint, member, rfl⟩
    · rw [List.map_map]
      exact formed.distinct
  rw [parentById, found, Option.join_some]

theorem parentById_eq_map {checkpoint : Checkpoint Content} (member : checkpoint ∈ checkpoints) :
    parentById checkpoints checkpoint.checkpointId =
      (parentOf checkpoints checkpoint).map Checkpoint.checkpointId := by
  rw [formed.parentById_checkpointId member, parentOf]
  cases parentEq : checkpoint.parentCheckpointId with
  | none => rfl
  | some parent =>
      obtain ⟨above, aboveMember, rfl⟩ :=
        List.mem_map.mp (formed.listed checkpoint member parent parentEq)
      have found := formed.byId_eq_some_iff.mpr ⟨aboveMember, rfl⟩
      rw [Option.bind_some, found, Option.map_some]

theorem exists_walk {fuel : ℕ} (enough : checkpoints.length ≤ fuel)
    {checkpoint : Checkpoint Content} (member : checkpoint ∈ checkpoints) :
    ∃ path, walk (parentOf checkpoints) fuel checkpoint = some path := by
  apply ParentWalks.exists_walk _ _ enough member
  · exact fun _ _ _ above => (formed.parentOf_eq_some above).1
  · intro low cycle
    apply formed.acyclic low.checkpointId
    apply cycle.lift Checkpoint.checkpointId
    rintro child parent ⟨childMember, above⟩
    exact ⟨child, childMember, rfl, (formed.parentOf_eq_some above).2⟩

/-- Both walks meet the active checkpoint, or neither does. -/
theorem exists_meets {fuel : ℕ} (enough : checkpoints.length ≤ fuel) (wanted : String) :
    ∃ met : Checkpoint Content → Bool, ∀ leaf ∈ checkpoints,
      meets (parentOf checkpoints) (fun checkpoint => checkpoint.checkpointId = wanted) fuel leaf =
          some (met leaf) ∧
        meets (parentById checkpoints) (fun checkpointId => checkpointId = wanted) fuel
          leaf.checkpointId = some (met leaf) := by
  refine ⟨fun leaf => ((walk (parentOf checkpoints) fuel leaf).getD []).any fun checkpoint =>
    checkpoint.checkpointId = wanted, fun leaf member => ?_⟩
  obtain ⟨path, walked⟩ := formed.exists_walk enough member
  have image : walk (parentById checkpoints) fuel leaf.checkpointId =
      some (path.map Checkpoint.checkpointId) := by
    rw [walk_map Checkpoint.checkpointId (fun checkpoint => checkpoint ∈ checkpoints)
      (fun _ _ _ above => (formed.parentOf_eq_some above).1)
      (fun _ kept => formed.parentById_eq_map kept) fuel member, walked, Option.map_some]
  dsimp only
  rw [walked, Option.getD_some]
  refine ⟨meets_eq_of_walk _ walked, ?_⟩
  rw [meets_eq_of_walk _ image, List.any_map]
  rfl

theorem mem_leavesOf {leaf : Checkpoint Content} (member : leaf ∈ leavesOf checkpoints) :
    leaf ∈ checkpoints := by
  cases checkpoints with
  | nil => exact member
  | cons newest older =>
      rw [leavesOf] at member
      split at member
      · rw [List.mem_singleton] at member
        exact member ▸ List.mem_cons_self
      · exact List.mem_of_mem_filter member

/-- Every leaf has a chain, and both resolutions give the same one of the leaves. -/
theorem exists_resolved {fuel : ℕ} (enough : checkpoints.length ≤ fuel)
    {leaves : List (Checkpoint Content)} (within : leaves ⊆ checkpoints)
    {newest : Checkpoint Content} (listed : newest ∈ leaves) (activeCheckpointId : Option String) :
    ∃ active ∈ leaves,
      resolveActiveLeaf fuel checkpoints leaves newest activeCheckpointId = some active ∧
      resolveActiveLeafFromParentMap fuel (parentById checkpoints) leaves newest
        activeCheckpointId = some active := by
  rw [resolveActiveLeaf, resolveActiveLeafFromParentMap, resolveLeaf, resolveLeaf]
  cases activeCheckpointId.filter (· ≠ "") with
  | none => exact ⟨newest, listed, rfl, rfl⟩
  | some wanted =>
      dsimp only
      cases direct : leaves.find? fun leaf => leaf.checkpointId = wanted with
      | some leaf => exact ⟨leaf, List.mem_of_find?_eq_some direct, rfl, rfl⟩
      | none =>
          obtain ⟨met, both⟩ := formed.exists_meets enough wanted
          have full := findM?_eq_find? fun leaf member => (both leaf (within member)).1
          have leafOnly := findM?_eq_find? fun leaf member => (both leaf (within member)).2
          simp only [full, leafOnly]
          cases found : leaves.find? met with
          | none => exact ⟨newest, listed, rfl, rfl⟩
          | some leaf => exact ⟨leaf, List.mem_of_find?_eq_some found, rfl, rfl⟩

omit formed in
theorem messageBranchKey_eq_siblingKey (repr : Rendering Content) {msg : BaseMessage Content}
    {raw : String} (named : msg.id = some raw) (nonempty : raw ≠ "")
    (real : isSyntheticId raw = false) (idx : ℕ) (checkpointId : String) :
    messageBranchKey repr msg idx checkpointId = siblingKey repr msg idx := by
  have mid : messageId msg idx = raw := by rw [messageId, named]; exact if_neg nonempty
  simp [messageBranchKey, siblingKey, mid, real]

theorem keyAt_eq (repr : Rendering Content) (leaves : List (Checkpoint Content))
    (chains : OrderedDict String (List (Checkpoint Content))) {leaf : Checkpoint Content}
    (member : leaf ∈ checkpoints) (idx : ℕ) :
    (leafReading repr leaves).keyAt leaf idx =
      (fullReading repr checkpoints chains).keyAt leaf idx := by
  rw [Reading.keyAt, Reading.keyAt]
  apply Option.map_congr
  intro msg shown
  obtain ⟨raw, named, nonempty, real⟩ :=
    formed.identified leaf member msg (List.mem_of_getElem? shown)
  exact (messageBranchKey_eq_siblingKey repr named nonempty real idx _).symm

end WellFormed

/-- The tree of the leaves refines the tree of all checkpoints: both builders end,
and their trees agree. -/
theorem leaf_tree_refines_full (repr : Rendering Content)
    {checkpoints : List (Checkpoint Content)} (formed : WellFormed checkpoints)
    (activeCheckpointId : Option String) {fuel : ℕ} (enough : checkpoints.length ≤ fuel) :
    ∃ leafTree fullTree,
      buildTreeFromLeafCheckpoints repr fuel (leavesOf checkpoints) (parentById checkpoints)
        activeCheckpointId = some leafTree ∧
      buildTreeFromCheckpoints repr fuel checkpoints activeCheckpointId = some fullTree ∧
      leafTree.Agrees fullTree := by
  have within : leavesOf checkpoints ⊆ checkpoints := fun _ member => formed.mem_leavesOf member
  rw [buildTreeFromLeafCheckpoints.eq_def, buildTreeFromCheckpoints]
  cases leavesEq : leavesOf checkpoints with
  | nil => exact ⟨_, _, rfl, rfl, rfl, rfl, rfl, fun _ => rfl⟩
  | cons newest older =>
      rw [leavesEq] at within
      obtain ⟨active, activeMember, full, leafOnly⟩ :=
        formed.exists_resolved enough within List.mem_cons_self activeCheckpointId
      obtain ⟨chains, chained⟩ : ∃ chains, (newest :: older).mapM (fun leaf =>
          (buildLeafChain fuel checkpoints leaf).map fun chain => (leaf.checkpointId, chain)) =
            some chains := by
        apply exists_mapM
        intro leaf member
        obtain ⟨path, walked⟩ := formed.exists_walk enough (within member)
        exact ⟨(leaf.checkpointId, path.reverse), by rw [buildLeafChain, walked]; rfl⟩
      simp only [full, leafOnly, chained]
      refine ⟨_, _, rfl, rfl, Reading.buildTree_agrees ?_⟩
      intro leaf member idx
      apply formed.keyAt_eq
      rcases List.mem_cons.mp member with rfl | listed
      · exact within activeMember
      · exact within listed

/-- A question, its answer, and another answer in its place. -/
def regenerated : List (Checkpoint String) :=
  let question : BaseMessage String := ⟨some "q", "human", "Why?", none⟩
  let answer : BaseMessage String := ⟨some "a", "ai", "Because.", none⟩
  let other : BaseMessage String := ⟨some "b", "ai", "It depends.", none⟩
  [⟨"3", some "1", [question, other]⟩, ⟨"2", some "1", [question, answer]⟩,
    ⟨"1", none, [question]⟩]

/-- `repr`, for texts without quotes. -/
def quoted : Rendering String where
  content text := "'" ++ text ++ "'"
  fingerprint parts := "('" ++ parts.1 ++ "', \"" ++ parts.2.1 ++ "\", " ++
    (parts.2.2.elim "None" fun name => "'" ++ name ++ "'") ++ ")"

/-- Parents that are strictly older do not lead back. -/
theorem acyclic_of_older {checkpoints : List (Checkpoint Content)} (age : String → ℕ)
    (older : ∀ checkpoint ∈ checkpoints, ∀ parent, checkpoint.parentCheckpointId = some parent →
      age checkpoint.checkpointId < age parent) (checkpointId : String) :
    ¬ Relation.TransGen (fun child parent => ∃ checkpoint ∈ checkpoints,
      checkpoint.checkpointId = child ∧ checkpoint.parentCheckpointId = some parent)
        checkpointId checkpointId := by
  intro cycle
  have ages : Relation.TransGen (· < ·) (age checkpointId) (age checkpointId) := by
    apply cycle.lift age
    rintro child parent ⟨checkpoint, member, rfl, above⟩
    exact older checkpoint member parent above
  rw [Relation.transGen_eq_self] at ages
  exact lt_irrefl _ ages

theorem regenerated_wellFormed : WellFormed regenerated where
  distinct := by decide
  listed := by simp [regenerated]
  acyclic := acyclic_of_older (fun checkpointId => if checkpointId = "1" then 1 else 0) (by
    simp [regenerated])
  identified := by
    simp [regenerated]
    decide

theorem leaf_tree_refines_full_regenerated :
    ∃ leafTree fullTree,
      buildTreeFromLeafCheckpoints quoted 3 (leavesOf regenerated) (parentById regenerated)
        (some "2") = some leafTree ∧
      buildTreeFromCheckpoints quoted 3 regenerated (some "2") = some fullTree ∧
      leafTree.Agrees fullTree :=
  leaf_tree_refines_full quoted regenerated_wellFormed (some "2") (by decide)

end NaturalMold.ThreadBranches

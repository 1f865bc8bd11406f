import NaturalMold.GroupRepresentatives
import NaturalMold.ThreadBranchesRefinement

/-!
# The numbering of the branch picker

The picker numbers the siblings of a message from the oldest representative to the newest.
-/

namespace NaturalMold.ThreadBranches

open FirstOccurrences

variable {Content : Type}

section Representatives

variable {leaves : List (Checkpoint Content)} {active : Checkpoint Content}
  {idx : ℕ}

def Reading.peers (reading : Reading Content) (active : Checkpoint Content)
    (leaves : List (Checkpoint Content)) (idx : ℕ) : List (Checkpoint Content) :=
  leaves.filter fun leaf => idx < leaf.messages.length ∧
    reading.parentKeyAt leaf idx = reading.parentKeyAt active idx

theorem Reading.mem_peers {reading : Reading Content} {leaf : Checkpoint Content} :
    leaf ∈ reading.peers active leaves idx ↔ leaf ∈ leaves ∧ idx < leaf.messages.length ∧
      reading.parentKeyAt leaf idx = reading.parentKeyAt active idx := by
  rw [Reading.peers, List.mem_filter, decide_eq_true_eq]

theorem Reading.discover_eq (reading : Reading Content) :
    reading.discover active idx = fun found leaf =>
      if decide (leaf.checkpointId ≠ active.checkpointId ∧ idx < leaf.messages.length ∧
          reading.parentKeyAt leaf idx = reading.parentKeyAt active idx) = true then
        if reading.keyAt leaf idx ∈ found.map (fun seen => reading.keyAt seen idx) then found
        else found ++ [leaf]
      else found := by
  funext found leaf
  rw [Reading.discover]
  by_cases own : leaf.checkpointId = active.checkpointId
  · simp [own]
  · by_cases short : leaf.messages.length ≤ idx
    · simp [short, Nat.not_lt.mpr short]
    · by_cases same : reading.parentKeyAt leaf idx = reading.parentKeyAt active idx
      · simp [own, same, Nat.lt_of_not_le short]
      · simp [own, same]

/-- The active leaf, then the newest leaf of each other message. -/
theorem Reading.siblingLeaves_eq (reading : Reading Content)
    (distinct : (leaves.map Checkpoint.checkpointId).Nodup) (member : active ∈ leaves) :
    reading.siblingLeaves active leaves idx =
      active :: (distinctOn (fun leaf => reading.keyAt leaf idx)
          (reading.peers active leaves idx)).filter
        fun leaf => reading.keyAt leaf idx ≠ reading.keyAt active idx := by
  have others : ∀ leaf ∈ leaves, reading.keyAt leaf idx ≠ reading.keyAt active idx →
      leaf.checkpointId ≠ active.checkpointId := by
    intro leaf leafMember different same
    rw [List.inj_on_of_nodup_map distinct leafMember member same] at different
    exact different rfl
  let key : Checkpoint Content → Option (String × String) := fun leaf => reading.keyAt leaf idx
  have different : ∀ items, (distinctOn key items).filter (fun leaf => key leaf ≠ key active) =
      distinctOn key (items.filter fun leaf => key leaf ≠ key active) :=
    filter_distinctOn fun other => other ≠ key active
  rw [Reading.siblingLeaves, Reading.discover_eq, ← List.foldl_filter]
  refine (foldl_unseen key _ [active]).trans ?_
  rw [List.singleton_append, List.map_singleton]
  simp only [List.mem_singleton]
  rw [different, different, Reading.peers, List.filter_filter, List.filter_filter]
  congr 2
  apply List.filter_congr
  intro leaf leafMember
  rw [Bool.eq_iff_iff]
  simp only [Bool.and_eq_true, decide_eq_true_eq]
  constructor
  · exact fun kept => ⟨kept.1, kept.2.2⟩
  · exact fun kept => ⟨kept.1, others leaf leafMember kept.1, kept.2⟩

end Representatives

structure OwnIds (leaves : List (Checkpoint Content)) : Prop where
  distinct : (leaves.map Checkpoint.checkpointId).Nodup
  named : ∀ leaf ∈ leaves, leaf.checkpointId ≠ ""
  identified : ∀ leaf ∈ leaves, ∀ msg ∈ leaf.messages, ∃ raw, msg.id = some raw ∧ raw ≠ ""
  own : ∀ leaf ∈ leaves, ∀ other ∈ leaves, ∀ msg ∈ leaf.messages, ∀ second ∈ other.messages,
    msg.id = second.id → msg = second
  once : ∀ leaf ∈ leaves, (leaf.messages.map BaseMessage.id).Nodup

def siblingOf (idx : ℕ) (leaf : Checkpoint Content) : BranchSibling :=
  ⟨(leaf.messages[idx]?).elim "" fun msg => messageId msg idx, leaf.checkpointId⟩

section Ordered

variable (repr : Rendering Content) {leaves : List (Checkpoint Content)}
  {active : Checkpoint Content} {idx : ℕ}

theorem siblingAt_leafReading {leaf : Checkpoint Content} (inRange : idx < leaf.messages.length) :
    (leafReading repr leaves).siblingAt idx leaf = some (siblingOf idx leaf) := by
  rw [Reading.siblingAt, List.getElem?_eq_getElem inRange, siblingOf,
    List.getElem?_eq_getElem inRange]
  rfl

theorem rank_leafReading (distinct : (leaves.map Checkpoint.checkpointId).Nodup) {place : ℕ}
    (bound : place < leaves.length) :
    (leafReading repr leaves).rank leaves[place].checkpointId = place := by
  have found : (OrderedDict.ofEntries (leaves.map Checkpoint.checkpointId).zipIdx).get?
      leaves[place].checkpointId = some place := by
    rw [OrderedDict.get?_ofEntries_eq_some_iff]
    · simp [List.mem_zipIdx_iff_getElem?, bound]
    · rw [List.zipIdx_map_fst]
      exact distinct
  rw [Reading.rank]
  change (Option.map Int.ofNat ((OrderedDict.ofEntries (leaves.map
    Checkpoint.checkpointId).zipIdx).get? leaves[place].checkpointId)).getD _ = _
  rw [found]
  rfl

theorem sortKey_pairwise (distinct : (leaves.map Checkpoint.checkpointId).Nodup) :
    leaves.Pairwise fun newer older =>
      (leafReading repr leaves).sortKey (siblingOf idx older) <
        (leafReading repr leaves).sortKey (siblingOf idx newer) := by
  rw [List.pairwise_iff_getElem]
  intro first second firstBound secondBound before
  rw [Reading.sortKey, Reading.sortKey, Prod.Lex.toLex_lt_toLex]
  left
  simp only [siblingOf]
  rw [rank_leafReading repr distinct firstBound, rank_leafReading repr distinct secondBound]
  omega

theorem mem_peers_self (member : active ∈ leaves) (inRange : idx < active.messages.length) :
    active ∈ (leafReading repr leaves).peers active leaves idx :=
  Reading.mem_peers.mpr ⟨member, inRange, rfl⟩

theorem leaves_nodup (distinct : (leaves.map Checkpoint.checkpointId).Nodup) : leaves.Nodup :=
  List.Nodup.of_map Checkpoint.checkpointId distinct

theorem peers_nodup (distinct : (leaves.map Checkpoint.checkpointId).Nodup) :
    ((leafReading repr leaves).peers active leaves idx).Nodup :=
  (leaves_nodup distinct).filter _

variable [DecidableEq Content]

def representing (active : Checkpoint Content) (leaves : List (Checkpoint Content)) (idx : ℕ) :
    List (Checkpoint Content) :=
  representatives (fun leaf => (leafReading repr leaves).keyAt leaf idx) active
    ((leafReading repr leaves).peers active leaves idx)

theorem representing_sublist :
    (representing repr active leaves idx).Sublist leaves :=
  List.filter_sublist.trans List.filter_sublist

theorem inRange_of_mem_representing {leaf : Checkpoint Content}
    (member : leaf ∈ representing repr active leaves idx) : idx < leaf.messages.length :=
  (Reading.mem_peers.mp (mem_representatives.mp member).1).2.1

/-- The siblings are those of the representatives, oldest first. -/
theorem siblings_leafReading (distinct : (leaves.map Checkpoint.checkpointId).Nodup)
    (member : active ∈ leaves) (inRange : idx < active.messages.length) :
    (leafReading repr leaves).siblings active leaves idx =
      (representing repr active leaves idx).reverse.map (siblingOf idx) := by
  have perm : ((leafReading repr leaves).siblingLeaves active leaves idx).Perm
      (representing repr active leaves idx) := by
    rw [Reading.siblingLeaves_eq _ distinct member]
    exact representatives_perm (peers_nodup repr distinct) (mem_peers_self repr member inRange)
  have images : ((leafReading repr leaves).siblingLeaves active leaves idx).filterMap
      ((leafReading repr leaves).siblingAt idx) =
        ((leafReading repr leaves).siblingLeaves active leaves idx).map (siblingOf idx) := by
    rw [← List.filterMap_eq_map]
    apply List.filterMap_congr
    intro leaf leafMember
    exact siblingAt_leafReading repr (inRange_of_mem_representing repr (perm.mem_iff.mp leafMember))
  have ordered : ((representing repr active leaves idx).reverse.map (siblingOf idx)).Pairwise
      fun first second => (leafReading repr leaves).sortKey first <
        (leafReading repr leaves).sortKey second := by
    rw [List.pairwise_map, List.pairwise_reverse]
    exact (sortKey_pairwise repr distinct).sublist (representing_sublist repr)
  rw [Reading.siblings, images]
  apply insertionSort_eq_of_perm
  · exact (perm.trans (List.reverse_perm _).symm).map _
  · exact ordered.imp fun less => ⟨less.le, not_le_of_gt less⟩

end Ordered

namespace MessageTree

def siblingsAt (tree : MessageTree Content) (idx : ℕ) : Option (List BranchSibling) :=
  tree.nodes[idx]?.bind fun node => tree.branchesByMessage.get? (messageId node.message idx)

def ShowsSibling (tree : MessageTree Content) (leaves : List (Checkpoint Content)) (idx : ℕ)
    (siblings : List BranchSibling) (number : ℕ) : Prop :=
  ∃ sibling leaf node listed, siblings[number]? = some sibling ∧
    leaf ∈ leaves ∧ leaf.checkpointId = sibling.checkpointId ∧
    leaf.messages[idx]? = some node.message ∧ messageId node.message idx = sibling.messageId ∧
    tree.nodes[idx]? = some node ∧ node.branchIndex = some number ∧
    node.branchTotal = some siblings.length ∧ tree.siblingsAt idx = some listed ∧
    listed.map BranchSibling.messageId = siblings.map BranchSibling.messageId

end MessageTree

section Trees

variable (repr : Rendering Content) {leaves : List (Checkpoint Content)}
  {active : Checkpoint Content} {idx : ℕ}

def leafTree (leaves : List (Checkpoint Content)) (active : Checkpoint Content) :
    MessageTree Content :=
  (leafReading repr leaves).buildTree active leaves

theorem build_leaf (own : OwnIds leaves) (member : active ∈ leaves) (fuel : ℕ)
    (parents : String → Option String) :
    buildTreeFromLeafCheckpoints repr fuel leaves parents (some active.checkpointId) =
      some (leafTree repr leaves active) := by
  have direct : leaves.find? (fun leaf => leaf.checkpointId = active.checkpointId) =
      some active := by
    obtain ⟨leaf, found⟩ : ∃ leaf, leaves.find?
        (fun leaf => leaf.checkpointId = active.checkpointId) = some leaf := by
      rw [← Option.isSome_iff_exists, List.find?_isSome]
      exact ⟨active, member, by simp⟩
    have same : leaf = active := List.inj_on_of_nodup_map own.distinct
      (List.mem_of_find?_eq_some found) member (by simpa using List.find?_some found)
    rw [found, same]
  have truthy : (some active.checkpointId).filter (fun id => decide (id ≠ "")) =
      some active.checkpointId := by
    simp [Option.filter, own.named active member]
  rw [buildTreeFromLeafCheckpoints.eq_def]
  cases leaves with
  | nil => exact absurd member List.not_mem_nil
  | cons newest older =>
      simp only [resolveActiveLeafFromParentMap, resolveLeaf, truthy, direct]
      rfl

theorem eq_leafTree (distinct : (leaves.map Checkpoint.checkpointId).Nodup)
    (member : active ∈ leaves) {fuel : ℕ}
    {parents : String → Option String} {activeCheckpointId : Option String}
    {tree : MessageTree Content}
    (built : buildTreeFromLeafCheckpoints repr fuel leaves parents activeCheckpointId = some tree)
    (shown : tree.activeCheckpointId = some active.checkpointId) :
    tree = leafTree repr leaves active := by
  rw [buildTreeFromLeafCheckpoints.eq_def] at built
  cases leaves with
  | nil => exact absurd member List.not_mem_nil
  | cons newest older =>
      simp only [Option.bind_eq_bind, Option.bind_eq_some_iff] at built
      obtain ⟨leaf, resolved, treeEq⟩ := built
      obtain rfl := Option.some.inj treeEq
      have leafMember : leaf ∈ newest :: older := by
        rw [resolveActiveLeafFromParentMap, resolveLeaf] at resolved
        split at resolved
        · exact Option.some.inj resolved ▸ List.mem_cons_self
        · split at resolved
          · rename_i found
            exact Option.some.inj resolved ▸ List.mem_of_find?_eq_some found
          · simp only [Option.bind_eq_bind, Option.bind_eq_some_iff] at resolved
            obtain ⟨found, search, chosen⟩ := resolved
            cases found with
            | none => exact Option.some.inj chosen ▸ List.mem_cons_self
            | some other =>
                exact Option.some.inj chosen ▸ ParentWalks.mem_of_findM?_eq_some search
      have same : leaf = active := List.inj_on_of_nodup_map distinct leafMember member
        (Option.some.inj shown)
      rw [same, leafTree]

theorem messageId_of_named {msg : BaseMessage Content} {raw : String} (named : msg.id = some raw)
    (nonempty : raw ≠ "") : messageId msg idx = raw := by
  rw [messageId, named]
  exact if_neg nonempty

def DistinctMessageIds (leaf : Checkpoint Content) : Prop :=
  leaf.messages.zipIdx.Pairwise fun first second =>
    messageId first.1 first.2 ≠ messageId second.1 second.2

theorem messageIds_pairwise (own : OwnIds leaves) (member : active ∈ leaves) :
    DistinctMessageIds active := by
  have ids : active.messages.zipIdx.Pairwise fun first second => first.1.id ≠ second.1.id := by
    have once := own.once active member
    rw [← List.zipIdx_map_fst 0 active.messages, List.map_map] at once
    exact List.pairwise_map.mp once
  apply ids.imp_of_mem
  intro first second firstMember secondMember different same
  obtain ⟨raw, named, nonempty⟩ :=
    own.identified active member first.1 (List.fst_mem_of_mem_zipIdx firstMember)
  obtain ⟨other, otherNamed, otherNonempty⟩ :=
    own.identified active member second.1 (List.fst_mem_of_mem_zipIdx secondMember)
  rw [messageId_of_named named nonempty, messageId_of_named otherNamed otherNonempty] at same
  exact different (by rw [named, otherNamed, same])

theorem place_of_messageId (once : DistinctMessageIds active) {first second : ℕ}
    (firstBound : first < active.messages.length) (secondBound : second < active.messages.length)
    (same : messageId active.messages[first] first = messageId active.messages[second] second) :
    first = second := by
  have different := List.pairwise_iff_getElem.mp once
  simp only [List.length_zipIdx, List.getElem_zipIdx, Nat.zero_add] at different
  rcases Nat.lt_trichotomy first second with before | equal | after
  · exact absurd same (different first second firstBound secondBound before)
  · exact equal
  · exact absurd same.symm (different second first secondBound firstBound after)

theorem nodes_leafTree {msg : BaseMessage Content} (shown : active.messages[idx]? = some msg) :
    (leafTree repr leaves active).nodes[idx]? =
      some ((leafReading repr leaves).nodeAt active leaves idx msg) := by
  simp [leafTree, Reading.buildTree, shown]

theorem siblingsAt_leafTree_eq_some_iff (once : DistinctMessageIds active)
    {siblings : List BranchSibling} :
    (leafTree repr leaves active).siblingsAt idx = some siblings ↔
      idx < active.messages.length ∧ 2 ≤ siblings.length ∧
        (leafReading repr leaves).siblings active leaves idx = siblings := by
  have keys : ((active.messages.zipIdx.filterMap
      ((leafReading repr leaves).branchesAt active leaves)).map Prod.fst).Nodup := by
    rw [List.Nodup, List.pairwise_map]
    apply once.filterMap
    intro first second different firstBranch firstEq secondBranch secondEq same
    simp only [Reading.branchesAt] at firstEq secondEq
    split at firstEq
    · split at secondEq
      · cases firstEq
        cases secondEq
        exact different same
      · exact absurd secondEq (by simp)
    · exact absurd firstEq (by simp)
  by_cases inRange : idx < active.messages.length
  · have shown := List.getElem?_eq_getElem inRange
    rw [MessageTree.siblingsAt, nodes_leafTree repr shown, Option.bind_some, leafTree,
      Reading.buildTree]
    simp only
    rw [OrderedDict.get?_ofEntries_eq_some_iff keys, List.mem_filterMap]
    constructor
    · rintro ⟨⟨msg, place⟩, entryMember, branch⟩
      have placed := List.mem_zipIdx_iff_getElem?.mp entryMember
      simp only [Reading.branchesAt] at branch
      split at branch
      · rename_i enough
        simp only [Option.some.injEq, Prod.mk.injEq] at branch
        obtain ⟨placeBound, msgEq⟩ := List.getElem?_eq_some_iff.mp placed
        have same : place = idx := by
          apply place_of_messageId once placeBound inRange
          rw [msgEq]
          exact branch.1
        rw [← branch.2, same]
        rw [same] at enough
        exact ⟨inRange, enough, rfl⟩
      · exact absurd branch (by simp)
    · rintro ⟨_, enough, rfl⟩
      refine ⟨(active.messages[idx], idx), ?_, ?_⟩
      · exact List.mem_zipIdx_iff_getElem?.mpr shown
      · simp only [Reading.branchesAt, if_pos enough]
        rfl
  · simp [MessageTree.siblingsAt, leafTree, Reading.buildTree, inRange]

theorem position_of_active (own : OwnIds leaves) (member : active ∈ leaves)
    (inRange : idx < active.messages.length) {number : ℕ} {sibling : BranchSibling}
    (listed : ((leafReading repr leaves).siblings active leaves idx)[number]? = some sibling)
    (shown : sibling.checkpointId = active.checkpointId) :
    (((leafReading repr leaves).siblings active leaves idx).findIdx? fun sibling =>
      sibling.checkpointId = active.checkpointId).getD 0 = number := by
  classical
  have ids : (((leafReading repr leaves).siblings active leaves idx).map
      BranchSibling.checkpointId).Nodup := by
    rw [siblings_leafReading repr own.distinct member inRange, List.map_map, List.map_reverse,
      List.nodup_reverse]
    exact own.distinct.sublist ((representing_sublist repr).map _)
  generalize (leafReading repr leaves).siblings active leaves idx = siblings at listed ids
  obtain ⟨bound, siblingEq⟩ := List.getElem?_eq_some_iff.mp listed
  have found : siblings.findIdx? (fun sibling => sibling.checkpointId = active.checkpointId) =
      some number := by
    rw [List.findIdx?_eq_some_iff_getElem]
    refine ⟨bound, by simp [siblingEq, shown], fun earlier before => ?_⟩
    have different : siblings[earlier].checkpointId ≠ siblings[number].checkpointId := by
      have pairwise := List.pairwise_iff_getElem.mp (List.pairwise_map.mp ids)
      exact pairwise earlier number (before.trans bound) bound before
    simpa [siblingEq, shown] using different
  rw [found, Option.getD_some]

theorem Reading.peers_eq {reading : Reading Content} {leaf : Checkpoint Content}
    (peer : leaf ∈ reading.peers active leaves idx) :
    reading.peers leaf leaves idx = reading.peers active leaves idx := by
  rw [Reading.peers, Reading.peers, (Reading.mem_peers.mp peer).2.2]

theorem keyAt_leafReading (leaf : Checkpoint Content) :
    (leafReading repr leaves).keyAt leaf idx =
      leaf.messages[idx]?.map fun msg => siblingKey repr msg idx :=
  rfl

theorem messageId_siblingOf {leaf other : Checkpoint Content}
    (same : (leafReading repr leaves).keyAt leaf idx = (leafReading repr leaves).keyAt other idx) :
    (siblingOf idx leaf).messageId = (siblingOf idx other).messageId := by
  rw [keyAt_leafReading, keyAt_leafReading] at same
  rw [siblingOf, siblingOf]
  cases first : leaf.messages[idx]? with
  | none =>
      cases second : other.messages[idx]? with
      | none => rfl
      | some _ => simp [first, second] at same
  | some msg =>
      cases second : other.messages[idx]? with
      | none => simp [first, second] at same
      | some otherMsg =>
          simp only [first, second, Option.map_some, Option.some.injEq, siblingKey,
            Prod.mk.injEq] at same
          exact same.1

def SettledKeys (leaves : List (Checkpoint Content)) (active : Checkpoint Content) (idx : ℕ) :
    Prop :=
  Settled (fun leaf => (leafReading repr leaves).keyAt leaf idx)
    ((leafReading repr leaves).peers active leaves idx) active

theorem exists_switched (own : OwnIds leaves) (member : active ∈ leaves)
    (inRange : idx < active.messages.length) (settled : SettledKeys repr leaves active idx)
    {number : ℕ} {sibling : BranchSibling}
    (listed : ((leafReading repr leaves).siblings active leaves idx)[number]? = some sibling) :
    ∃ leaf ∈ leaves, sibling = siblingOf idx leaf ∧ idx < leaf.messages.length ∧
      ((leafReading repr leaves).siblings leaf leaves idx)[number]? = some sibling ∧
      ((leafReading repr leaves).siblings leaf leaves idx).map BranchSibling.messageId =
        ((leafReading repr leaves).siblings active leaves idx).map BranchSibling.messageId ∧
      SettledKeys repr leaves leaf idx := by
  classical
  have nodup : ((leafReading repr leaves).peers active leaves idx).Nodup :=
    peers_nodup repr own.distinct
  have ordered := siblings_leafReading repr own.distinct member inRange
  rw [ordered, List.getElem?_map, Option.map_eq_some_iff] at listed
  obtain ⟨leaf, leafPlace, rfl⟩ := listed
  have represents := List.mem_reverse.mp (List.mem_of_getElem? leafPlace)
  obtain ⟨peer, choice⟩ := mem_representatives.mp represents
  have leafMember := (Reading.mem_peers.mp peer).1
  have leafRange := (Reading.mem_peers.mp peer).2.1
  refine ⟨leaf, leafMember, rfl, leafRange, ?_⟩
  rcases choice with rfl | ⟨first, different⟩
  · exact ⟨by rw [ordered, List.getElem?_map, leafPlace]; rfl, rfl, settled⟩
  · obtain ⟨newest, _, newestKey, inPlace⟩ := exists_first_in_place nodup
      (mem_peers_self repr member inRange) settled
    have switched : (leafReading repr leaves).siblings leaf leaves idx =
        ((representing repr active leaves idx).reverse.map fun item =>
          if item = active then newest else item).map (siblingOf idx) := by
      rw [siblings_leafReading repr own.distinct leafMember leafRange, representing,
        Reading.peers_eq peer, representatives_eq_distinctOn nodup first, inPlace,
        ← List.map_reverse]
      rfl
    have apart : leaf ≠ active := fun same => different (by rw [same])
    refine ⟨?_, ?_, ?_⟩
    · rw [switched, List.getElem?_map, List.getElem?_map, leafPlace, Option.map_some, if_neg apart]
      rfl
    · rw [switched, ordered, List.map_map, List.map_map, List.map_map]
      apply List.map_congr_left
      intro item _
      simp only [Function.comp_apply]
      split
      · rename_i same
        rw [same]
        exact messageId_siblingOf repr newestKey
      · rfl
    · rw [SettledKeys, Reading.peers_eq peer]
      exact settled_of_mem_distinctOn nodup first

theorem showsSibling_switched (own : OwnIds leaves) (member : active ∈ leaves)
    (settled : SettledKeys repr leaves active idx) {siblings : List BranchSibling}
    (branchable : (leafTree repr leaves active).siblingsAt idx = some siblings)
    {number : ℕ} {sibling : BranchSibling} (listed : siblings[number]? = some sibling) :
    ∃ leaf ∈ leaves, sibling.checkpointId = leaf.checkpointId ∧
      (leafTree repr leaves leaf).ShowsSibling leaves idx siblings number ∧
      SettledKeys repr leaves leaf idx := by
  obtain ⟨inRange, enough, rfl⟩ :=
    (siblingsAt_leafTree_eq_some_iff repr (messageIds_pairwise own member)).mp branchable
  obtain ⟨leaf, leafMember, rfl, leafRange, place, sameIds, again⟩ :=
    exists_switched repr own member inRange settled listed
  refine ⟨leaf, leafMember, rfl, ?_, again⟩
  have shown := List.getElem?_eq_getElem leafRange
  have lengths : ((leafReading repr leaves).siblings leaf leaves idx).length =
      ((leafReading repr leaves).siblings active leaves idx).length := by
    simpa using congrArg List.length sameIds
  have leafBranchable :=
    (siblingsAt_leafTree_eq_some_iff repr (messageIds_pairwise own leafMember)).mpr
    ⟨leafRange, lengths ▸ enough, rfl⟩
  refine ⟨siblingOf idx leaf, leaf, _, _, listed, leafMember, rfl, shown, ?_,
    nodes_leafTree repr shown, ?_, ?_, leafBranchable, sameIds⟩
  · rw [siblingOf, shown]
    rfl
  · simp only [Reading.nodeAt, lengths, if_pos enough, Option.some.injEq]
    exact position_of_active repr own leafMember leafRange place rfl
  · simp only [Reading.nodeAt, lengths, if_pos enough]

theorem messageIds_siblings_nodup (own : OwnIds leaves) (member : active ∈ leaves)
    (inRange : idx < active.messages.length) :
    (((leafReading repr leaves).siblings active leaves idx).map
      BranchSibling.messageId).Nodup := by
  classical
  rw [siblings_leafReading repr own.distinct member inRange, List.map_map, List.map_reverse,
    List.nodup_reverse]
  apply List.Nodup.map_on
  · intro first firstMember second secondMember same
    obtain ⟨firstPeer, firstChoice⟩ := mem_representatives.mp firstMember
    obtain ⟨secondPeer, secondChoice⟩ := mem_representatives.mp secondMember
    obtain ⟨firstLeaf, firstRange, _⟩ := Reading.mem_peers.mp firstPeer
    obtain ⟨secondLeaf, secondRange, _⟩ := Reading.mem_peers.mp secondPeer
    have firstMsg := List.getElem_mem firstRange
    have secondMsg := List.getElem_mem secondRange
    obtain ⟨raw, named, nonempty⟩ := own.identified first firstLeaf _ firstMsg
    obtain ⟨other, otherNamed, otherNonempty⟩ := own.identified second secondLeaf _ secondMsg
    have sameKey : (leafReading repr leaves).keyAt first idx =
        (leafReading repr leaves).keyAt second idx := by
      simp only [Function.comp_apply, siblingOf, List.getElem?_eq_getElem firstRange,
        List.getElem?_eq_getElem secondRange, Option.elim_some,
        messageId_of_named named nonempty, messageId_of_named otherNamed otherNonempty] at same
      have sameMsg := own.own first firstLeaf second secondLeaf _ firstMsg _ secondMsg
        (by rw [named, otherNamed, same])
      rw [keyAt_leafReading, keyAt_leafReading, List.getElem?_eq_getElem firstRange,
        List.getElem?_eq_getElem secondRange, sameMsg]
    rcases firstChoice with rfl | ⟨firstNewest, firstOther⟩
    · rcases secondChoice with rfl | ⟨_, secondOther⟩
      · rfl
      · exact absurd sameKey.symm secondOther
    · rcases secondChoice with rfl | ⟨secondNewest, _⟩
      · exact absurd sameKey firstOther
      · exact eq_of_mem_distinctOn firstNewest secondNewest sameKey
  · exact (leaves_nodup own.distinct).sublist (representing_sublist repr)

end Trees

section Picker

variable (repr : Rendering Content) (leaves : List (Checkpoint Content))
  (parents : String → Option String)

/-- Making any sibling active shows it under its number among the same siblings. -/
def StableNumbering (tree : MessageTree Content) (idx : ℕ) : Prop :=
  ∀ siblings, tree.siblingsAt idx = some siblings →
    ∀ number sibling, siblings[number]? = some sibling → ∀ fuel, ∃ rebuilt,
      buildTreeFromLeafCheckpoints repr fuel leaves parents (some sibling.checkpointId) =
          some rebuilt ∧
        rebuilt.ShowsSibling leaves idx siblings number

/-- The tree after `next`: the sibling behind the shown one, if there is one, is
made active. -/
def nextTree (fuel idx : ℕ) (tree : MessageTree Content) : Option (MessageTree Content) := do
  let node ← tree.nodes[idx]?
  let siblings ← tree.siblingsAt idx
  let shown ← node.branchIndex
  let sibling ← siblings[shown + 1]?
  buildTreeFromLeafCheckpoints repr fuel leaves parents (some sibling.checkpointId)

/-- The ids of the messages that an index shows while `next` is pressed. -/
def visited (fuel idx : ℕ) : ℕ → MessageTree Content → List String
  | 0, tree => tree.nodes[idx]?.toList.map fun node => messageId node.message idx
  | presses + 1, tree =>
      (tree.nodes[idx]?.toList.map fun node => messageId node.message idx) ++
        match nextTree repr leaves parents fuel idx tree with
        | none => []
        | some following => visited fuel idx presses following

/-- Pressing `next` from the first sibling to the end shows every sibling once. -/
def NextVisitsEach (tree : MessageTree Content) (idx : ℕ) : Prop :=
  ∀ siblings, tree.siblingsAt idx = some siblings →
    (siblings.map BranchSibling.messageId).Nodup ∧
      ∀ first, siblings[0]? = some first → ∀ fuel presses, siblings.length ≤ presses + 1 →
        ∃ start, buildTreeFromLeafCheckpoints repr fuel leaves parents
            (some first.checkpointId) = some start ∧
          visited repr leaves parents fuel idx presses start =
            siblings.map BranchSibling.messageId

end Picker

section Numbering

variable {repr : Rendering Content} {leaves : List (Checkpoint Content)}
  {parents : String → Option String} {active : Checkpoint Content} {idx : ℕ}

theorem stableNumbering_of_settled (own : OwnIds leaves) (member : active ∈ leaves)
    (settled : SettledKeys repr leaves active idx) :
    StableNumbering repr leaves parents (leafTree repr leaves active) idx := by
  intro siblings branchable number sibling listed fuel
  obtain ⟨leaf, leafMember, checkpoint, shows, _⟩ :=
    showsSibling_switched repr own member settled branchable listed
  exact ⟨leafTree repr leaves leaf,
    by rw [checkpoint]; exact build_leaf repr own leafMember fuel parents, shows⟩

theorem drop_messageIds {siblings : List BranchSibling} {number : ℕ} {sibling : BranchSibling}
    (place : siblings[number]? = some sibling) :
    (siblings.map BranchSibling.messageId).drop number =
      sibling.messageId :: (siblings.map BranchSibling.messageId).drop (number + 1) := by
  obtain ⟨bound, siblingEq⟩ := List.getElem?_eq_some_iff.mp place
  rw [List.drop_eq_getElem_cons (by simpa using bound), List.getElem_map, siblingEq]

theorem visited_eq_drop (own : OwnIds leaves) (fuel presses : ℕ) :
    ∀ (leaf : Checkpoint Content) (siblings : List BranchSibling) (number : ℕ), leaf ∈ leaves →
      SettledKeys repr leaves leaf idx →
      (leafTree repr leaves leaf).ShowsSibling leaves idx siblings number →
      siblings.length ≤ number + presses + 1 →
      visited repr leaves parents fuel idx presses (leafTree repr leaves leaf) =
        (siblings.map BranchSibling.messageId).drop number := by
  induction presses with
  | zero =>
      rintro leaf siblings number _ _ ⟨sibling, _, node, _, place, _, _, _, shownId, nodeEq, _⟩
        enough
      rw [visited, nodeEq, drop_messageIds place, List.drop_eq_nil_of_le (by simp; omega)]
      simp [shownId]
  | succ presses ih =>
      intro leaf siblings number leafMember settled shows enough
      obtain ⟨sibling, _, node, listed, place, _, _, _, shownId, nodeEq, shownIndex, _,
        branchable, sameIds⟩ := shows
      have lengths : listed.length = siblings.length := by
        simpa using congrArg List.length sameIds
      have behind : (match nextTree repr leaves parents fuel idx (leafTree repr leaves leaf) with
          | none => []
          | some following => visited repr leaves parents fuel idx presses following) =
            (siblings.map BranchSibling.messageId).drop (number + 1) := by
        by_cases last : number + 1 < listed.length
        · have nextListed := List.getElem?_eq_getElem last
          obtain ⟨following, followingMember, checkpoint, followingShows, followingSettled⟩ :=
            showsSibling_switched repr own leafMember settled branchable nextListed
          have pressed : nextTree repr leaves parents fuel idx (leafTree repr leaves leaf) =
              some (leafTree repr leaves following) := by
            simp only [nextTree, nodeEq, branchable, shownIndex, nextListed, checkpoint,
              Option.bind_eq_bind, Option.bind_some]
            exact build_leaf repr own followingMember fuel parents
          rw [pressed, ← sameIds]
          exact ih following listed (number + 1) followingMember followingSettled followingShows
            (by omega)
        · have ended : nextTree repr leaves parents fuel idx (leafTree repr leaves leaf) = none := by
            simp only [nextTree, nodeEq, branchable, shownIndex, Option.bind_eq_bind,
              Option.bind_some, List.getElem?_eq_none (Nat.le_of_not_lt last), Option.bind_none]
          rw [ended, List.drop_eq_nil_of_le (by rw [List.length_map]; omega)]
      rw [visited, nodeEq, behind, drop_messageIds place]
      simp [shownId]

theorem nextVisitsEach_of_settled (own : OwnIds leaves) (member : active ∈ leaves)
    (settled : SettledKeys repr leaves active idx) :
    NextVisitsEach repr leaves parents (leafTree repr leaves active) idx := by
  intro siblings branchable
  obtain ⟨inRange, _, siblingsEq⟩ :=
    (siblingsAt_leafTree_eq_some_iff repr (messageIds_pairwise own member)).mp branchable
  refine ⟨siblingsEq ▸ messageIds_siblings_nodup repr own member inRange, ?_⟩
  intro first place fuel presses enough
  obtain ⟨leaf, leafMember, checkpoint, shows, again⟩ :=
    showsSibling_switched repr own member settled branchable place
  refine ⟨leafTree repr leaves leaf, ?_, ?_⟩
  · rw [checkpoint]
    exact build_leaf repr own leafMember fuel parents
  · rw [visited_eq_drop own fuel presses leaf siblings 0 leafMember again shows (by omega),
      List.drop_zero]

/-- Where the representatives are not settled, the first of another group gets
another number in its own tree. -/
theorem settled_of_stableNumbering (own : OwnIds leaves) (member : active ∈ leaves)
    (inRange : idx < active.messages.length)
    (stable : StableNumbering repr leaves parents (leafTree repr leaves active) idx) :
    SettledKeys repr leaves active idx := by
  classical
  intro early other between same first
  by_contra different
  have nodup : ((leafReading repr leaves).peers active leaves idx).Nodup :=
    peers_nodup repr own.distinct
  obtain ⟨newer, older, newer', older', chosenList, firstList, less⟩ :=
    one_less_behind nodup between same first different
  have peer := mem_of_mem_distinctOn first
  obtain ⟨otherMember, otherRange, _⟩ := Reading.mem_peers.mp peer
  have activeSiblings : (leafReading repr leaves).siblings active leaves idx =
      (older.reverse ++ other :: newer.reverse).map (siblingOf idx) := by
    rw [siblings_leafReading repr own.distinct member inRange, representing, chosenList]
    simp
  have otherSiblings : (leafReading repr leaves).siblings other leaves idx =
      (older'.reverse ++ other :: newer'.reverse).map (siblingOf idx) := by
    rw [siblings_leafReading repr own.distinct otherMember otherRange, representing,
      Reading.peers_eq peer, representatives_eq_distinctOn nodup first, firstList]
    simp
  have branchable := (siblingsAt_leafTree_eq_some_iff repr (messageIds_pairwise own member)).mpr
    ⟨inRange, (by rw [activeSiblings]; simp; omega), rfl⟩
  have place : ((leafReading repr leaves).siblings active leaves idx)[older.length]? =
      some (siblingOf idx other) := by
    rw [activeSiblings]
    simp
  have otherPlace : ((leafReading repr leaves).siblings other leaves idx)[older'.length]? =
      some (siblingOf idx other) := by
    rw [otherSiblings]
    simp
  obtain ⟨rebuilt, built, _, _, node, _, _, _, _, _, _, nodeEq, shownIndex, _⟩ :=
    stable _ branchable older.length (siblingOf idx other) place 0
  have rebuiltEq := (build_leaf repr own otherMember 0 parents).symm.trans built
  rw [← Option.some.inj rebuiltEq, nodes_leafTree repr (List.getElem?_eq_getElem otherRange)]
    at nodeEq
  rw [← Option.some.inj nodeEq] at shownIndex
  simp only [Reading.nodeAt] at shownIndex
  split at shownIndex
  · have number := position_of_active repr own otherMember otherRange otherPlace rfl
    have equal : older'.length = older.length := number.symm.trans (Option.some.inj shownIndex)
    omega
  · exact absurd shownIndex (by simp)

end Numbering

section Condition

variable {leaves : List (Checkpoint Content)} {active : Checkpoint Content} {idx : ℕ}

def Follows (active : Checkpoint Content) (idx : ℕ) (leaf : Checkpoint Content) : Prop :=
  idx < leaf.messages.length ∧
    ∀ before, before + 1 = idx → leaf.messages[before]? = active.messages[before]?

/-- No leaf that is the newest with another sibling's message stands between a leaf
with the active leaf's message and the older active leaf. -/
def NumberingSettled (leaves : List (Checkpoint Content)) (active : Checkpoint Content)
    (idx : ℕ) : Prop :=
  ∀ early other, [early, other, active].Sublist leaves → Follows active idx early →
    Follows active idx other → early.messages[idx]? = active.messages[idx]? →
    (∀ newer, [newer, other].Sublist leaves → Follows active idx newer →
      newer.messages[idx]? ≠ other.messages[idx]?) →
    other.messages[idx]? = active.messages[idx]?

variable (repr : Rendering Content)

theorem keyAt_eq_iff (own : OwnIds leaves) {leaf other : Checkpoint Content}
    (leafMember : leaf ∈ leaves) (otherMember : other ∈ leaves) {place : ℕ} :
    (leafReading repr leaves).keyAt leaf place = (leafReading repr leaves).keyAt other place ↔
      leaf.messages[place]? = other.messages[place]? := by
  rw [keyAt_leafReading, keyAt_leafReading]
  constructor
  · intro same
    cases first : leaf.messages[place]? with
    | none =>
        cases second : other.messages[place]? with
        | none => rfl
        | some _ => simp [first, second] at same
    | some msg =>
        cases second : other.messages[place]? with
        | none => simp [first, second] at same
        | some otherMsg =>
            have msgMember := List.mem_of_getElem? first
            have otherMsgMember := List.mem_of_getElem? second
            obtain ⟨raw, named, nonempty⟩ := own.identified leaf leafMember msg msgMember
            obtain ⟨otherRaw, otherNamed, otherNonempty⟩ :=
              own.identified other otherMember otherMsg otherMsgMember
            simp only [first, second, Option.map_some, Option.some.injEq, siblingKey,
              Prod.mk.injEq, messageId_of_named named nonempty,
              messageId_of_named otherNamed otherNonempty] at same
            rw [own.own leaf leafMember other otherMember msg msgMember otherMsg otherMsgMember
              (by rw [named, otherNamed, same.1])]
  · exact fun same => by rw [same]

theorem mem_peers_iff (own : OwnIds leaves) (member : active ∈ leaves)
    {leaf : Checkpoint Content} :
    leaf ∈ (leafReading repr leaves).peers active leaves idx ↔
      leaf ∈ leaves ∧ Follows active idx leaf := by
  rw [Reading.mem_peers, Follows]
  apply and_congr_right
  intro leafMember
  apply and_congr_right
  intro _
  cases idx with
  | zero => simp [Reading.parentKeyAt]
  | succ before =>
      rw [Reading.parentKeyAt, Reading.parentKeyAt, keyAt_eq_iff repr own leafMember member]
      simp

theorem sublist_peers_iff (own : OwnIds leaves) (member : active ∈ leaves)
    {listed : List (Checkpoint Content)} :
    listed.Sublist ((leafReading repr leaves).peers active leaves idx) ↔
      listed.Sublist leaves ∧ ∀ leaf ∈ listed, Follows active idx leaf := by
  constructor
  · intro within
    refine ⟨within.trans List.filter_sublist, fun leaf leafMember => ?_⟩
    exact ((mem_peers_iff repr own member).mp (within.subset leafMember)).2
  · rintro ⟨within, follow⟩
    have kept := within.filter fun leaf => decide (idx < leaf.messages.length ∧
      (leafReading repr leaves).parentKeyAt leaf idx =
        (leafReading repr leaves).parentKeyAt active idx)
    rwa [List.filter_eq_self.mpr fun leaf leafMember => decide_eq_true (Reading.mem_peers.mp
      ((mem_peers_iff repr own member).mpr
        ⟨within.subset leafMember, follow leaf leafMember⟩)).2] at kept

theorem settledKeys_iff (own : OwnIds leaves) (member : active ∈ leaves)
    (inRange : idx < active.messages.length) :
    SettledKeys repr leaves active idx ↔ NumberingSettled leaves active idx := by
  have self : Follows active idx active := ⟨inRange, fun _ _ => rfl⟩
  constructor
  · intro settled early other between earlyFollows otherFollows same newest
    have earlyMember : early ∈ leaves := between.subset (by simp)
    have otherMember : other ∈ leaves := between.subset (by simp)
    have within := (sublist_peers_iff repr own member).mpr ⟨between, by
      simp only [List.forall_mem_cons]
      exact ⟨earlyFollows, otherFollows, self, by simp⟩⟩
    rw [← keyAt_eq_iff repr own otherMember member]
    apply settled early other within ((keyAt_eq_iff repr own earlyMember member).mpr same)
    obtain ⟨first, firstMember, firstKey, rfl | before⟩ :=
      exists_first (fun leaf => (leafReading repr leaves).keyAt leaf idx)
        (within.subset (by simp : other ∈ [early, other, active]))
    · exact firstMember
    · obtain ⟨beforeLeaves, follow⟩ := (sublist_peers_iff repr own member).mp before
      have firstLeaf : first ∈ leaves := beforeLeaves.subset (by simp)
      exact absurd ((keyAt_eq_iff repr own firstLeaf otherMember).mp firstKey)
        (newest first beforeLeaves (follow first (by simp)))
  · intro settled early other between same first
    obtain ⟨within, follow⟩ := (sublist_peers_iff repr own member).mp between
    have earlyMember : early ∈ leaves := within.subset (by simp)
    have otherMember : other ∈ leaves := within.subset (by simp)
    rw [keyAt_eq_iff repr own otherMember member]
    apply settled early other within (follow early (by simp)) (follow other (by simp))
      ((keyAt_eq_iff repr own earlyMember member).mp same)
    intro newer before newerFollows sameMessage
    have newerMember : newer ∈ leaves := before.subset (by simp)
    have beforePeers := (sublist_peers_iff repr own member).mpr ⟨before, by
      simp only [List.forall_mem_cons]
      exact ⟨newerFollows, follow other (by simp), by simp⟩⟩
    exact notMem_distinctOn_of_before (peers_nodup repr own.distinct) beforePeers
      ((keyAt_eq_iff repr own newerMember otherMember).mpr sameMessage) first

/-- The numbering at an index is stable, and `next` visits every sibling once, if
and only if it is settled for the active leaf. -/
theorem numbering_stable_iff (own : OwnIds leaves) (member : active ∈ leaves) {fuel : ℕ}
    {parents : String → Option String} {activeCheckpointId : Option String}
    {tree : MessageTree Content}
    (built : buildTreeFromLeafCheckpoints repr fuel leaves parents activeCheckpointId = some tree)
    (shown : tree.activeCheckpointId = some active.checkpointId) :
    (StableNumbering repr leaves parents tree idx ∧ NextVisitsEach repr leaves parents tree idx) ↔
      NumberingSettled leaves active idx := by
  obtain rfl := eq_leafTree repr own.distinct member built shown
  by_cases inRange : idx < active.messages.length
  · rw [← settledKeys_iff repr own member inRange]
    constructor
    · exact fun both => settled_of_stableNumbering own member inRange both.1
    · exact fun settled => ⟨stableNumbering_of_settled own member settled,
        nextVisitsEach_of_settled own member settled⟩
  · have notListed : ∀ siblings,
        (leafTree repr leaves active).siblingsAt idx ≠ some siblings := fun siblings listed =>
      inRange
        ((siblingsAt_leafTree_eq_some_iff repr (messageIds_pairwise own member)).mp listed).1
    constructor
    · intro _ early other _ earlyFollows _ same _
      rw [List.getElem?_eq_getElem earlyFollows.1,
        List.getElem?_eq_none (Nat.le_of_not_lt inRange)] at same
      exact absurd same (by simp)
    · intro _
      exact ⟨fun siblings listed => absurd listed (notListed siblings),
        fun siblings listed => absurd listed (notListed siblings)⟩

end Condition

def newerAnswer : Checkpoint String :=
  ⟨"3", none, [⟨some "q", "human", "Why?", none⟩, ⟨some "a", "ai", "Because.", none⟩]⟩

def otherQuestion : Checkpoint String :=
  ⟨"2", none, [⟨some "r", "human", "How?", none⟩]⟩

def olderAnswer : Checkpoint String :=
  ⟨"1", none, [⟨some "q", "human", "Why?", none⟩, ⟨some "b", "ai", "It depends.", none⟩]⟩

def askedBetween : List (Checkpoint String) :=
  [newerAnswer, otherQuestion, olderAnswer]

theorem askedBetween_ownIds : OwnIds askedBetween where
  distinct := by decide
  named := by decide
  identified := by simp [askedBetween, newerAnswer, otherQuestion, olderAnswer]
  own := by decide
  once := by decide

/-- The tree of the newer answer. -/
theorem numbering_stable_iff_newerAnswer :
    (StableNumbering quoted askedBetween (fun _ => none) (leafTree quoted askedBetween newerAnswer)
        0 ∧
      NextVisitsEach quoted askedBetween (fun _ => none)
        (leafTree quoted askedBetween newerAnswer) 0) ↔
      NumberingSettled askedBetween newerAnswer 0 :=
  numbering_stable_iff quoted askedBetween_ownIds (by decide)
    (build_leaf quoted askedBetween_ownIds (by decide) 0 fun _ => none) rfl

/-- The older answer's tree numbers its question first, the other question's tree
numbers it second. -/
theorem olderAnswer_unstable :
    OwnIds askedBetween ∧
      buildTreeFromLeafCheckpoints quoted 0 askedBetween (fun _ => none) (some "1") =
        some (leafTree quoted askedBetween olderAnswer) ∧
      ¬ StableNumbering quoted askedBetween (fun _ => none)
        (leafTree quoted askedBetween olderAnswer) 0 := by
  have member : olderAnswer ∈ askedBetween := by decide
  refine ⟨askedBetween_ownIds, build_leaf quoted askedBetween_ownIds member 0 _, ?_⟩
  intro stable
  have settled := (settledKeys_iff quoted askedBetween_ownIds member (by decide)).mp
    (settled_of_stableNumbering askedBetween_ownIds member (by decide) stable)
  have newest : ∀ newer, [newer, otherQuestion].Sublist askedBetween → Follows olderAnswer 0 newer →
      newer.messages[0]? ≠ otherQuestion.messages[0]? := by
    intro newer before _
    have apart : [newer, otherQuestion].Nodup :=
      (leaves_nodup askedBetween_ownIds.distinct).sublist before
    have listed : newer ∈ askedBetween := before.subset (by simp)
    simp only [askedBetween, List.mem_cons, List.not_mem_nil, or_false] at listed
    rcases listed with rfl | rfl | rfl
    · decide
    · simp at apart
    · decide
  have same := settled newerAnswer otherQuestion (List.Sublist.refl _)
    ⟨by decide, by simp⟩ ⟨by decide, by simp⟩ rfl newest
  exact absurd same (by decide)

end NaturalMold.ThreadBranches

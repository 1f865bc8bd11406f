import NaturalMold.BranchNumbering

/-! # The past of a sibling -/

namespace NaturalMold.ThreadBranches

open FirstOccurrences

variable {Content : Type}

def BaseMessage.held (msg : BaseMessage Content) : String × Content × Option String :=
  (msg.type, msg.content, msg.name)

/-- Two messages at a place have the same id, given or synthetic, and hold the same. -/
def SameMessage (idx : ℕ) (msg other : BaseMessage Content) : Prop :=
  messageId msg idx = messageId other idx ∧ msg.held = other.held

/-- Two leaves have the same message at a place. -/
def SameAt (idx : ℕ) (leaf other : Checkpoint Content) : Prop :=
  ∃ msg ∈ leaf.messages[idx]?, ∃ second ∈ other.messages[idx]?, SameMessage idx msg second

/-- Two leaves have the same messages before a place. -/
def SharesPast (idx : ℕ) (leaf other : Checkpoint Content) : Prop :=
  ∀ before < idx, SameAt before leaf other

/-- A leaf has a message at a place, right behind the same message as another leaf. -/
def FollowsSame (idx : ℕ) (leaf other : Checkpoint Content) : Prop :=
  idx < leaf.messages.length ∧ ∀ before, before + 1 = idx → SameAt before leaf other

/-- The texts by which messages are compared tell what the messages of the leaves hold. -/
def Rendering.Distinguishes (repr : Rendering Content) (leaves : List (Checkpoint Content)) :
    Prop :=
  ∀ msg ∈ leaves.flatMap Checkpoint.messages, ∀ second ∈ leaves.flatMap Checkpoint.messages,
    repr.fingerprint (messageFingerprint repr msg) =
        repr.fingerprint (messageFingerprint repr second) →
      msg.held = second.held

theorem sameAt_self {leaf : Checkpoint Content} {idx : ℕ} (inRange : idx < leaf.messages.length) :
    SameAt idx leaf leaf :=
  ⟨leaf.messages[idx], List.getElem?_eq_getElem inRange, leaf.messages[idx],
    List.getElem?_eq_getElem inRange, rfl, rfl⟩

theorem sharesPast_self {leaf : Checkpoint Content} {idx : ℕ}
    (inRange : idx < leaf.messages.length) : SharesPast idx leaf leaf := by
  intro before earlier
  exact sameAt_self (by omega)

structure SiblingsShareThePast (tree : MessageTree Content) (leaves : List (Checkpoint Content))
    (active : Checkpoint Content) : Prop where
  past : ∀ idx siblings, tree.siblingsAt idx = some siblings → ∀ sibling ∈ siblings,
    ∃ leaf ∈ leaves, leaf.checkpointId = sibling.checkpointId ∧
      (leaf.messages[idx]?.map fun msg => messageId msg idx) = some sibling.messageId ∧
      SharesPast idx leaf active
  represented : ∀ idx < active.messages.length, ∀ leaf ∈ leaves, idx < leaf.messages.length →
    SharesPast idx leaf active → ¬ SameAt idx leaf active →
    ∃ siblings, tree.siblingsAt idx = some siblings ∧ ∃ sibling ∈ siblings, ∃ other ∈ leaves,
      other.checkpointId = sibling.checkpointId ∧
      (other.messages[idx]?.map fun msg => messageId msg idx) = some sibling.messageId ∧
      SameAt idx other leaf

/-- A leaf that has another message than the active leaf behind the same message, and
that no newer such leaf shares, shares the whole past. -/
def PastsSettled (leaves : List (Checkpoint Content)) (active : Checkpoint Content) : Prop :=
  ∀ idx < active.messages.length, ∀ leaf ∈ leaves, FollowsSame idx leaf active →
    ¬ SameAt idx leaf active →
    (∀ newer, [newer, leaf].Sublist leaves → FollowsSame idx newer active →
      ¬ SameAt idx newer leaf) →
    SharesPast idx leaf active

section Keys

variable {repr : Rendering Content} {leaves : List (Checkpoint Content)}
  {active leaf other : Checkpoint Content} {idx : ℕ}

theorem siblingKey_eq_iff {msg second : BaseMessage Content}
    (faithful : repr.Distinguishes leaves) (msgMember : msg ∈ leaves.flatMap Checkpoint.messages)
    (secondMember : second ∈ leaves.flatMap Checkpoint.messages) :
    siblingKey repr msg idx = siblingKey repr second idx ↔ SameMessage idx msg second := by
  rw [siblingKey, siblingKey, Prod.mk.injEq, SameMessage]
  apply and_congr_right
  intro _
  constructor
  · exact faithful msg msgMember second secondMember
  · intro same
    simp only [BaseMessage.held, Prod.mk.injEq] at same
    rw [messageFingerprint, messageFingerprint, same.1, same.2.1, same.2.2]

theorem keyAt_eq_iff_sameAt (faithful : repr.Distinguishes leaves) (leafMember : leaf ∈ leaves)
    (otherMember : other ∈ leaves) (inRange : idx < leaf.messages.length) :
    (leafReading repr leaves).keyAt leaf idx = (leafReading repr leaves).keyAt other idx ↔
      SameAt idx leaf other := by
  rw [keyAt_leafReading, keyAt_leafReading, SameAt, List.getElem?_eq_getElem inRange]
  cases found : other.messages[idx]? with
  | none => simp
  | some second =>
      simp only [Option.map_some, Option.some.injEq, Option.mem_def, exists_eq_left']
      exact siblingKey_eq_iff faithful
        (List.mem_flatMap.mpr ⟨leaf, leafMember, List.getElem_mem inRange⟩)
        (List.mem_flatMap.mpr ⟨other, otherMember, List.mem_of_getElem? found⟩)

theorem parentKeyAt_eq_iff (faithful : repr.Distinguishes leaves) (leafMember : leaf ∈ leaves)
    (otherMember : other ∈ leaves) (inRange : idx < leaf.messages.length) :
    (leafReading repr leaves).parentKeyAt leaf idx =
        (leafReading repr leaves).parentKeyAt other idx ↔
      ∀ before, before + 1 = idx → SameAt before leaf other := by
  cases idx with
  | zero => simp [Reading.parentKeyAt]
  | succ before =>
      rw [Reading.parentKeyAt, Reading.parentKeyAt,
        keyAt_eq_iff_sameAt faithful leafMember otherMember (by omega)]
      simp

theorem mem_peers_iff_followsSame (faithful : repr.Distinguishes leaves)
    (member : active ∈ leaves) :
    leaf ∈ (leafReading repr leaves).peers active leaves idx ↔
      leaf ∈ leaves ∧ FollowsSame idx leaf active := by
  rw [Reading.mem_peers, FollowsSame]
  apply and_congr_right
  intro leafMember
  apply and_congr_right
  intro inRange
  exact parentKeyAt_eq_iff faithful leafMember member inRange

theorem FollowsSame.of_sharesPast (inRange : idx < leaf.messages.length)
    (shares : SharesPast idx leaf active) : FollowsSame idx leaf active :=
  ⟨inRange, fun before next => shares before (by omega)⟩

theorem sublist_peers {first second : Checkpoint Content} (faithful : repr.Distinguishes leaves)
    (member : active ∈ leaves) (within : [first, second].Sublist leaves)
    (firstFollows : FollowsSame idx first active)
    (secondFollows : FollowsSame idx second active) :
    [first, second].Sublist ((leafReading repr leaves).peers active leaves idx) := by
  have kept := within.filter fun leaf => decide (idx < leaf.messages.length ∧
    (leafReading repr leaves).parentKeyAt leaf idx =
      (leafReading repr leaves).parentKeyAt active idx)
  have firstPeer := (mem_peers_iff_followsSame faithful member).mpr
    ⟨within.subset (by simp), firstFollows⟩
  have secondPeer := (mem_peers_iff_followsSame faithful member).mpr
    ⟨within.subset (by simp), secondFollows⟩
  rwa [List.filter_eq_self.mpr (by
    simp only [List.forall_mem_cons, decide_eq_true_eq]
    exact ⟨(Reading.mem_peers.mp firstPeer).2, (Reading.mem_peers.mp secondPeer).2, by simp⟩)]
    at kept

end Keys

section Leaves

variable {repr : Rendering Content} {leaves : List (Checkpoint Content)}
  {active leaf : Checkpoint Content} {idx : ℕ}

theorem messageId_of_siblingOf (inRange : idx < leaf.messages.length) :
    (leaf.messages[idx]?.map fun msg => messageId msg idx) =
      some (siblingOf idx leaf).messageId := by
  rw [siblingOf, List.getElem?_eq_getElem inRange]
  rfl

/-- A newest leaf with another message stands for a sibling. -/
theorem mem_distinctOn_iff_newest (faithful : repr.Distinguishes leaves)
    (distinct : (leaves.map Checkpoint.checkpointId).Nodup) (member : active ∈ leaves) :
    leaf ∈ distinctOn (fun other => (leafReading repr leaves).keyAt other idx)
        ((leafReading repr leaves).peers active leaves idx) ↔
      (leaf ∈ leaves ∧ FollowsSame idx leaf active) ∧
        ∀ newer, [newer, leaf].Sublist leaves → FollowsSame idx newer active →
          ¬ SameAt idx newer leaf := by
  rw [← mem_peers_iff_followsSame faithful member]
  constructor
  · intro first
    have peer := mem_of_mem_distinctOn first
    have follows := (mem_peers_iff_followsSame faithful member).mp peer
    refine ⟨peer, fun newer before newerFollows same => ?_⟩
    have newerMember : newer ∈ leaves := before.subset (by simp)
    exact notMem_distinctOn_of_before (peers_nodup repr distinct)
      (sublist_peers faithful member before newerFollows follows.2)
      ((keyAt_eq_iff_sameAt faithful newerMember follows.1 newerFollows.1).mpr same) first
  · rintro ⟨peer, newest⟩
    obtain ⟨first, firstMember, keyEq, rfl | before⟩ :=
      exists_first (fun other => (leafReading repr leaves).keyAt other idx) peer
    · exact firstMember
    · have firstFollows := (mem_peers_iff_followsSame faithful member).mp
        (mem_of_mem_distinctOn firstMember)
      have leafMember := ((mem_peers_iff_followsSame faithful member).mp peer).1
      have same := (keyAt_eq_iff_sameAt faithful firstFollows.1 leafMember firstFollows.2.1).mp
        keyEq
      exact absurd same (newest first (before.trans List.filter_sublist) firstFollows.2)

theorem mem_siblings_leafReading (distinct : (leaves.map Checkpoint.checkpointId).Nodup)
    (member : active ∈ leaves) (inRange : idx < active.messages.length)
    {sibling : BranchSibling} :
    sibling ∈ (leafReading repr leaves).siblings active leaves idx ↔
      ∃ leaf ∈ (leafReading repr leaves).peers active leaves idx, siblingOf idx leaf = sibling ∧
        (leaf = active ∨
          (leaf ∈ distinctOn (fun other => (leafReading repr leaves).keyAt other idx)
              ((leafReading repr leaves).peers active leaves idx) ∧
            (leafReading repr leaves).keyAt leaf idx ≠
              (leafReading repr leaves).keyAt active idx)) := by
  classical
  rw [siblings_leafReading repr distinct member inRange, List.mem_map]
  simp only [List.mem_reverse, representing, mem_representatives]
  constructor
  · rintro ⟨leaf, ⟨peer, stands⟩, eq⟩
    exact ⟨leaf, peer, eq, stands⟩
  · rintro ⟨leaf, peer, eq, stands⟩
    exact ⟨leaf, ⟨peer, stands⟩, eq⟩

theorem two_le_siblings (distinct : (leaves.map Checkpoint.checkpointId).Nodup)
    (member : active ∈ leaves) (inRange : idx < active.messages.length) (leafMember : leaf ∈ leaves)
    (other : leaf ≠ active)
    (listed : siblingOf idx leaf ∈ (leafReading repr leaves).siblings active leaves idx) :
    2 ≤ ((leafReading repr leaves).siblings active leaves idx).length := by
  have own : siblingOf idx active ∈ (leafReading repr leaves).siblings active leaves idx :=
    (mem_siblings_leafReading distinct member inRange).mpr
      ⟨active, mem_peers_self repr member inRange, rfl, Or.inl rfl⟩
  have apart : siblingOf idx leaf ≠ siblingOf idx active := by
    intro same
    exact other (List.inj_on_of_nodup_map distinct leafMember member
      (congrArg BranchSibling.checkpointId same))
  have both : [siblingOf idx leaf, siblingOf idx active].Subperm
      ((leafReading repr leaves).siblings active leaves idx) := by
    apply List.subperm_of_subset (by simpa using apart)
    intro sibling siblingMember
    rcases List.mem_pair.mp siblingMember with rfl | rfl
    · exact listed
    · exact own
  exact both.length_le

end Leaves

section Condition

variable (repr : Rendering Content) {leaves : List (Checkpoint Content)}
  {active leaf : Checkpoint Content} {idx : ℕ}

theorem listed_of_first (faithful : repr.Distinguishes leaves)
    (distinct : (leaves.map Checkpoint.checkpointId).Nodup) (member : active ∈ leaves)
    (once : DistinctMessageIds active) (inRange : idx < active.messages.length)
    (first : leaf ∈ distinctOn (fun other => (leafReading repr leaves).keyAt other idx)
      ((leafReading repr leaves).peers active leaves idx))
    (different : ¬ SameAt idx leaf active) :
    ∃ siblings, (leafTree repr leaves active).siblingsAt idx = some siblings ∧
      siblingOf idx leaf ∈ siblings := by
  have peer := mem_of_mem_distinctOn first
  obtain ⟨leafMember, follows⟩ := (mem_peers_iff_followsSame faithful member).mp peer
  have otherKey : (leafReading repr leaves).keyAt leaf idx ≠
      (leafReading repr leaves).keyAt active idx :=
    fun same => different ((keyAt_eq_iff_sameAt faithful leafMember member follows.1).mp same)
  have listed : siblingOf idx leaf ∈ (leafReading repr leaves).siblings active leaves idx :=
    (mem_siblings_leafReading distinct member inRange).mpr
      ⟨leaf, peer, rfl, Or.inr ⟨first, otherKey⟩⟩
  have other : leaf ≠ active := by
    rintro rfl
    exact otherKey rfl
  refine ⟨_, (siblingsAt_leafTree_eq_some_iff repr once).mpr ⟨inRange, ?_, rfl⟩, listed⟩
  exact two_le_siblings distinct member inRange leafMember other listed

theorem pastsSettled_of_sharesThePast (faithful : repr.Distinguishes leaves)
    (distinct : (leaves.map Checkpoint.checkpointId).Nodup) (member : active ∈ leaves)
    (once : DistinctMessageIds active)
    (shares : SiblingsShareThePast (leafTree repr leaves active) leaves active) :
    PastsSettled leaves active := by
  intro idx inRange leaf leafMember follows different newest
  have first := (mem_distinctOn_iff_newest faithful distinct member).mpr
    ⟨⟨leafMember, follows⟩, newest⟩
  obtain ⟨siblings, branchable, listed⟩ :=
    listed_of_first repr faithful distinct member once inRange first different
  obtain ⟨source, sourceMember, sameId, _, past⟩ := shares.past idx siblings branchable _ listed
  rwa [List.inj_on_of_nodup_map distinct sourceMember leafMember sameId] at past

theorem sharesThePast_of_pastsSettled (faithful : repr.Distinguishes leaves)
    (distinct : (leaves.map Checkpoint.checkpointId).Nodup) (member : active ∈ leaves)
    (once : DistinctMessageIds active) (settled : PastsSettled leaves active) :
    SiblingsShareThePast (leafTree repr leaves active) leaves active where
  past := by
    intro idx siblings branchable sibling siblingMember
    obtain ⟨inRange, _, rfl⟩ := (siblingsAt_leafTree_eq_some_iff repr once).mp branchable
    obtain ⟨leaf, peer, rfl, stands⟩ :=
      (mem_siblings_leafReading distinct member inRange).mp siblingMember
    obtain ⟨leafMember, follows⟩ := (mem_peers_iff_followsSame faithful member).mp peer
    refine ⟨leaf, leafMember, rfl, messageId_of_siblingOf follows.1, ?_⟩
    rcases stands with rfl | ⟨first, otherKey⟩
    · exact sharesPast_self inRange
    · have newest := ((mem_distinctOn_iff_newest faithful distinct member).mp first).2
      apply settled idx inRange leaf leafMember follows _ newest
      exact fun same => otherKey
        ((keyAt_eq_iff_sameAt faithful leafMember member follows.1).mpr same)
  represented := by
    intro idx inRange leaf leafMember leafRange shares different
    have peer := (mem_peers_iff_followsSame faithful member).mpr
      ⟨leafMember, FollowsSame.of_sharesPast leafRange shares⟩
    obtain ⟨first, firstMember, keyEq, _⟩ :=
      exists_first (fun other => (leafReading repr leaves).keyAt other idx) peer
    obtain ⟨firstLeaf, firstFollows⟩ := (mem_peers_iff_followsSame faithful member).mp
      (mem_of_mem_distinctOn firstMember)
    have firstDifferent : ¬ SameAt idx first active := by
      intro same
      have keys := (keyAt_eq_iff_sameAt faithful firstLeaf member firstFollows.1).mpr same
      exact different
        ((keyAt_eq_iff_sameAt faithful leafMember member leafRange).mp (keyEq.symm.trans keys))
    obtain ⟨siblings, branchable, listed⟩ :=
      listed_of_first repr faithful distinct member once inRange firstMember firstDifferent
    exact ⟨siblings, branchable, siblingOf idx first, listed, first, firstLeaf, rfl,
      messageId_of_siblingOf firstFollows.1,
      (keyAt_eq_iff_sameAt faithful firstLeaf leafMember firstFollows.1).mp keyEq⟩

/-- The siblings share the past of the active leaf, and stand for every leaf with that
past, if and only if the pasts are settled. -/
theorem sharesThePast_iff (faithful : repr.Distinguishes leaves)
    (distinct : (leaves.map Checkpoint.checkpointId).Nodup) (member : active ∈ leaves)
    (once : DistinctMessageIds active) {fuel : ℕ} {parents : String → Option String}
    {activeCheckpointId : Option String} {tree : MessageTree Content}
    (built : buildTreeFromLeafCheckpoints repr fuel leaves parents activeCheckpointId = some tree)
    (shown : tree.activeCheckpointId = some active.checkpointId) :
    SiblingsShareThePast tree leaves active ↔ PastsSettled leaves active := by
  obtain rfl := eq_leafTree repr distinct member built shown
  constructor
  · exact pastsSettled_of_sharesThePast repr faithful distinct member once
  · exact sharesThePast_of_pastsSettled repr faithful distinct member once

end Condition

/-- A conversation with its first message edited: the answer to the same thanks, as
the message without an id is at the same place. -/
def editedGreeting : Checkpoint String :=
  ⟨"2", none, [⟨none, "human", "Good morning", none⟩, ⟨some "a", "ai", "Morning!", none⟩,
    ⟨none, "human", "Thanks", none⟩, ⟨some "b", "ai", "Sure.", none⟩]⟩

def firstGreeting : Checkpoint String :=
  ⟨"1", none, [⟨none, "human", "Hello", none⟩, ⟨some "c", "ai", "Hi!", none⟩,
    ⟨none, "human", "Thanks", none⟩, ⟨some "d", "ai", "You're welcome.", none⟩]⟩

def greetings : List (Checkpoint String) :=
  [editedGreeting, firstGreeting]

theorem greetings_built :
    buildTreeFromLeafCheckpoints quoted 0 greetings (fun _ => none) none =
      some (leafTree quoted greetings editedGreeting) :=
  rfl

theorem greetings_distinguished : quoted.Distinguishes greetings := by
  unfold Rendering.Distinguishes
  decide

theorem editedGreeting_distinctMessageIds : DistinctMessageIds editedGreeting := by
  unfold DistinctMessageIds
  decide

/-- The tree of the edited conversation. -/
theorem sharesThePast_iff_greetings :
    SiblingsShareThePast (leafTree quoted greetings editedGreeting) greetings editedGreeting ↔
      PastsSettled greetings editedGreeting :=
  sharesThePast_iff quoted greetings_distinguished (by decide) (by decide)
    editedGreeting_distinctMessageIds greetings_built rfl

/-- The other answer to the thanks is listed as a branch, though the conversations differ
from their first message on. -/
theorem greetings_not_sharesThePast :
    buildTreeFromLeafCheckpoints quoted 0 greetings (fun _ => none) none =
        some (leafTree quoted greetings editedGreeting) ∧
      ¬ SiblingsShareThePast (leafTree quoted greetings editedGreeting) greetings
        editedGreeting := by
  refine ⟨greetings_built, fun shares => ?_⟩
  have settled := pastsSettled_of_sharesThePast quoted greetings_distinguished (by decide)
    (by decide) editedGreeting_distinctMessageIds shares
  have follows : FollowsSame 3 firstGreeting editedGreeting := by
    refine ⟨by decide, fun before next => ?_⟩
    obtain rfl : before = 2 := by omega
    exact ⟨_, rfl, _, rfl, by decide, by decide⟩
  have different : ∀ idx, idx = 0 ∨ idx = 3 → ¬ SameAt idx firstGreeting editedGreeting := by
    rintro idx (rfl | rfl) ⟨msg, msgEq, second, secondEq, same⟩
    · cases msgEq
      cases secondEq
      exact absurd same.2 (by decide)
    · cases msgEq
      cases secondEq
      exact absurd same.1 (by decide)
  have past := settled 3 (by decide) firstGreeting (by decide) follows
    (different 3 (Or.inr rfl)) (by
      intro newer before _ same
      have apart : [newer, firstGreeting].Nodup :=
        (leaves_nodup (by decide)).sublist before
      have listed : newer ∈ greetings := before.subset (by simp)
      rcases List.mem_pair.mp listed with rfl | rfl
      · obtain ⟨msg, msgEq, second, secondEq, message⟩ := same
        cases msgEq
        cases secondEq
        exact absurd message.1 (by decide)
      · simp at apart)
  exact different 0 (Or.inl rfl) (past 0 (by decide))

end NaturalMold.ThreadBranches

import NaturalMold.OrderedDictionaries
import NaturalMold.ParentWalks
import Mathlib.Data.List.Sort
import Mathlib.Data.Prod.Lex
import Mathlib.Data.String.Basic

/-!
# The message tree of a thread

The checkpoints of a thread form a tree by their parents. How the messages of a checkpoint are
materialized is left out.
-/

namespace NaturalMold.ThreadBranches

open ParentWalks

section Messages

variable (Content : Type)

structure BaseMessage where
  id : Option String
  type : String
  content : Content
  name : Option String
  deriving DecidableEq

/-- `_CheckpointSlim`. -/
structure Checkpoint where
  checkpointId : String
  parentCheckpointId : Option String
  messages : List (BaseMessage Content)
  deriving DecidableEq

/-- `repr`, of a content and of a fingerprint. -/
structure Rendering where
  content : Content → String
  fingerprint : String × String × Option String → String

end Messages

structure BranchSibling where
  messageId : String
  checkpointId : String
  deriving DecidableEq

structure MessageTreeNode (Content : Type) where
  message : BaseMessage Content
  parentId : Option String
  introducedByCheckpointId : String
  branchIndex : Option ℕ
  branchTotal : Option ℕ

structure MessageTree (Content : Type) where
  nodes : List (MessageTreeNode Content)
  activeTipMessageId : Option String
  activeCheckpointId : Option String
  branchesByMessage : OrderedDict String (List BranchSibling)

variable {Content : Type}

def MessageTree.empty : MessageTree Content where
  nodes := []
  activeTipMessageId := none
  activeCheckpointId := none
  branchesByMessage := OrderedDict.empty

def messageId (msg : BaseMessage Content) (fallbackIdx : ℕ) : String :=
  match msg.id with
  | none => s!"synthetic-{fallbackIdx}"
  | some raw => if raw = "" then s!"synthetic-{fallbackIdx}" else raw

def isSyntheticId (mid : String) : Bool :=
  "synthetic-".toList.isPrefixOf mid.toList

def messageFingerprint (repr : Rendering Content) (msg : BaseMessage Content) :
    String × String × Option String :=
  (msg.type, repr.content msg.content, msg.name)

def byId (checkpoints : List (Checkpoint Content)) : OrderedDict String (Checkpoint Content) :=
  OrderedDict.ofEntries (checkpoints.map fun checkpoint => (checkpoint.checkpointId, checkpoint))

def parentOf (checkpoints : List (Checkpoint Content)) (checkpoint : Checkpoint Content) :
    Option (Checkpoint Content) :=
  checkpoint.parentCheckpointId.bind (byId checkpoints).get?

/-- `parent_by_id`; an id without a parent and an unknown id give `none`. -/
def parentById (checkpoints : List (Checkpoint Content)) (checkpointId : String) :
    Option String :=
  ((OrderedDict.ofEntries (checkpoints.map fun checkpoint =>
    (checkpoint.checkpointId, checkpoint.parentCheckpointId))).get? checkpointId).join

def parentIds (checkpoints : List (Checkpoint Content)) : List String :=
  checkpoints.filterMap fun checkpoint => checkpoint.parentCheckpointId.filter (· ≠ "")

def leavesOf : List (Checkpoint Content) → List (Checkpoint Content)
  | [] => []
  | newest :: older =>
      match (newest :: older).filter fun checkpoint =>
        checkpoint.checkpointId ∉ parentIds (newest :: older) with
      | [] => [newest]
      | leaves => leaves

def resolveLeaf (leafMeets : String → Checkpoint Content → Option Bool)
    (leaves : List (Checkpoint Content)) (newest : Checkpoint Content)
    (activeCheckpointId : Option String) : Option (Checkpoint Content) :=
  match activeCheckpointId.filter (· ≠ "") with
  | none => some newest
  | some wanted =>
      match leaves.find? fun leaf => leaf.checkpointId = wanted with
      | some leaf => some leaf
      | none => do
          let found ← leaves.findM? (leafMeets wanted)
          return found.getD newest

def resolveActiveLeaf (fuel : ℕ) (checkpoints : List (Checkpoint Content)) :
    List (Checkpoint Content) → Checkpoint Content → Option String →
      Option (Checkpoint Content) :=
  resolveLeaf fun wanted leaf =>
    meets (parentOf checkpoints) (fun checkpoint => checkpoint.checkpointId = wanted) fuel leaf

def resolveActiveLeafFromParentMap (fuel : ℕ) (parents : String → Option String) :
    List (Checkpoint Content) → Checkpoint Content → Option String →
      Option (Checkpoint Content) :=
  resolveLeaf fun wanted leaf =>
    meets parents (fun checkpointId => checkpointId = wanted) fuel leaf.checkpointId

/-- `_build_leaf_chain`, from the root to the leaf. -/
def buildLeafChain (fuel : ℕ) (checkpoints : List (Checkpoint Content))
    (leaf : Checkpoint Content) : Option (List (Checkpoint Content)) :=
  (walk (parentOf checkpoints) fuel leaf).map List.reverse

def checkpointForMessageInChain (chain : List (Checkpoint Content)) (targetMsgId : String)
    (targetIdx : ℕ) (leafId : String) : String :=
  let introduces := chain.find? fun checkpoint =>
    checkpoint.messages[targetIdx]?.any fun msg => messageId msg targetIdx = targetMsgId
  match introduces with
  | some checkpoint => checkpoint.checkpointId
  | none => leafId

/-- What a builder reads: the checkpoint that stands for a message of a leaf, the
key of a message with that checkpoint, and the ids that rank the siblings. -/
structure Reading (Content : Type) where
  checkpointFor : Checkpoint Content → String → ℕ → String
  branchKey : BaseMessage Content → ℕ → String → String × String
  rankedIds : List String

def unrankedSiblingRank : ℤ :=
  -1

namespace Reading

variable (reading : Reading Content)

def introducedBy (leaf : Checkpoint Content) (msg : BaseMessage Content) (idx : ℕ) : String :=
  reading.checkpointFor leaf (messageId msg idx) idx

def keyAt (leaf : Checkpoint Content) (idx : ℕ) : Option (String × String) :=
  leaf.messages[idx]?.map fun msg => reading.branchKey msg idx (reading.introducedBy leaf msg idx)

def parentKeyAt (leaf : Checkpoint Content) : ℕ → Option (String × String)
  | 0 => none
  | idx + 1 => reading.keyAt leaf idx

/-- A leaf stands for a sibling if it has the same message before, and a message
that none of the leaves found so far has. -/
def discover (active : Checkpoint Content) (idx : ℕ) (found : List (Checkpoint Content))
    (leaf : Checkpoint Content) : List (Checkpoint Content) :=
  if leaf.checkpointId = active.checkpointId ∨ leaf.messages.length ≤ idx then found
  else if reading.parentKeyAt leaf idx ≠ reading.parentKeyAt active idx then found
  else if reading.keyAt leaf idx ∈ found.map fun seen => reading.keyAt seen idx then found
  else found ++ [leaf]

def siblingLeaves (active : Checkpoint Content) (leaves : List (Checkpoint Content)) (idx : ℕ) :
    List (Checkpoint Content) :=
  leaves.foldl (reading.discover active idx) [active]

def siblingAt (idx : ℕ) (leaf : Checkpoint Content) : Option BranchSibling :=
  leaf.messages[idx]?.map fun msg => ⟨messageId msg idx, reading.introducedBy leaf msg idx⟩

/-- `checkpoint_rank_by_id.get(checkpoint_id, _UNRANKED_SIBLING_RANK)`. -/
def rank (checkpointId : String) : ℤ :=
  (((OrderedDict.ofEntries reading.rankedIds.zipIdx).get? checkpointId).map Int.ofNat).getD
    unrankedSiblingRank

def sortKey (sibling : BranchSibling) : ℤ ×ₗ String :=
  toLex (-reading.rank sibling.checkpointId, sibling.checkpointId)

/-- The siblings at an index, oldest first. -/
def siblings (active : Checkpoint Content) (leaves : List (Checkpoint Content)) (idx : ℕ) :
    List BranchSibling :=
  ((reading.siblingLeaves active leaves idx).filterMap (reading.siblingAt idx)).insertionSort
    fun first second => reading.sortKey first ≤ reading.sortKey second

def nodeAt (active : Checkpoint Content) (leaves : List (Checkpoint Content)) (idx : ℕ)
    (msg : BaseMessage Content) : MessageTreeNode Content :=
  let introduced := reading.introducedBy active msg idx
  let siblings := reading.siblings active leaves idx
  let activePos := (siblings.findIdx? fun sibling => sibling.checkpointId = introduced).getD 0
  { message := msg
    parentId :=
      match idx with
      | 0 => none
      | before + 1 => active.messages[before]?.map fun parent => messageId parent before
    introducedByCheckpointId := introduced
    branchIndex := if 2 ≤ siblings.length then some activePos else none
    branchTotal := if 2 ≤ siblings.length then some siblings.length else none }

/-- The entry of a message in `branches_by_message`, if it has siblings. -/
def branchesAt (active : Checkpoint Content) (leaves : List (Checkpoint Content))
    (entry : BaseMessage Content × ℕ) : Option (String × List BranchSibling) :=
  let siblings := reading.siblings active leaves entry.2
  if 2 ≤ siblings.length then some (messageId entry.1 entry.2, siblings) else none

def buildTree (active : Checkpoint Content) (leaves : List (Checkpoint Content)) :
    MessageTree Content where
  nodes := active.messages.mapIdx (reading.nodeAt active leaves)
  activeTipMessageId :=
    active.messages.getLast?.map fun msg => messageId msg (active.messages.length - 1)
  activeCheckpointId := some active.checkpointId
  branchesByMessage :=
    OrderedDict.ofEntries (active.messages.zipIdx.filterMap (reading.branchesAt active leaves))

end Reading

section Builders

variable (repr : Rendering Content)

def messageBranchKey (msg : BaseMessage Content) (idx : ℕ) (checkpointId : String) :
    String × String :=
  let mid := messageId msg idx
  if isSyntheticId mid then (mid, checkpointId)
  else (mid, repr.fingerprint (messageFingerprint repr msg))

/-- What `_build_tree_from_checkpoints` reads, by the chains of the leaves. -/
def fullReading (checkpoints : List (Checkpoint Content))
    (chainsByLeaf : OrderedDict String (List (Checkpoint Content))) : Reading Content where
  checkpointFor leaf targetMsgId targetIdx :=
    checkpointForMessageInChain ((chainsByLeaf.get? leaf.checkpointId).getD []) targetMsgId
      targetIdx leaf.checkpointId
  branchKey := messageBranchKey repr
  rankedIds := checkpoints.map Checkpoint.checkpointId

/-- `_build_tree_from_checkpoints`; `none` when a walk runs out of fuel. -/
def buildTreeFromCheckpoints (fuel : ℕ) (checkpoints : List (Checkpoint Content))
    (activeCheckpointId : Option String) : Option (MessageTree Content) :=
  match leavesOf checkpoints with
  | [] => some MessageTree.empty
  | newest :: older => do
      let active ←
        resolveActiveLeaf fuel checkpoints (newest :: older) newest activeCheckpointId
      let chains ← (newest :: older).mapM fun leaf =>
        (buildLeafChain fuel checkpoints leaf).map fun chain => (leaf.checkpointId, chain)
      return (fullReading repr checkpoints (OrderedDict.ofEntries chains)).buildTree active
        (newest :: older)

def siblingKey (msg : BaseMessage Content) (idx : ℕ) : String × String :=
  (messageId msg idx, repr.fingerprint (messageFingerprint repr msg))

/-- What `_build_tree_from_leaf_checkpoints` reads: a leaf stands for each of its
messages. -/
def leafReading (leaves : List (Checkpoint Content)) : Reading Content where
  checkpointFor leaf _ _ := leaf.checkpointId
  branchKey msg idx _ := siblingKey repr msg idx
  rankedIds := leaves.map Checkpoint.checkpointId

/-- `_build_tree_from_leaf_checkpoints`; `none` when a walk runs out of fuel. -/
def buildTreeFromLeafCheckpoints (fuel : ℕ) (leaves : List (Checkpoint Content))
    (parents : String → Option String) (activeCheckpointId : Option String) :
    Option (MessageTree Content) :=
  match leaves with
  | [] => some MessageTree.empty
  | newest :: older => do
      let active ← resolveActiveLeafFromParentMap fuel parents (newest :: older) newest
        activeCheckpointId
      return (leafReading repr (newest :: older)).buildTree active (newest :: older)

/-- `build_message_tree`, with the checkpoints of the thread newest first. -/
def buildMessageTree (fuel : ℕ) (checkpoints : List (Checkpoint Content))
    (activeCheckpointId : Option String) : Option (MessageTree Content) :=
  buildTreeFromLeafCheckpoints repr fuel (leavesOf checkpoints) (parentById checkpoints)
    activeCheckpointId

def buildMessageTreeFull (fuel : ℕ) (checkpoints : List (Checkpoint Content))
    (activeCheckpointId : Option String) : Option (MessageTree Content) :=
  buildTreeFromCheckpoints repr fuel checkpoints activeCheckpointId

end Builders

end NaturalMold.ThreadBranches

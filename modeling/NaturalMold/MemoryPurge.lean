import NaturalMold.MemoryConsolidation

/-!
# Deleting and writing memories

A delete removes a memory and the rows that copy it, and keeps a digest that refuses the same text
from an agent.
-/

namespace NaturalMold.MemoryPurge

open Conversations (Uuid)
open CronExpressions (Text)
open FirstOccurrences KeyedTables MemoryConsolidation StepRuns
open MemoryProfiles (MemoryProfileDoc dropSources)

structure MemoryRevision where
  recordId : Uuid
  beforeContent : Option Text
  afterContent : Option Text

structure MemoryEmbedding where
  recordId : Uuid
  textHash : Text

structure MemoryRecall where
  recordId : Uuid
  runId : Text

/-- The memory rows of one person. -/
structure Store where
  records : Table MemoryRecord.id := Table.empty
  proposals : Table MemoryProposal.id := Table.empty
  sources : List MemorySource := []
  revisions : List MemoryRevision := []
  embeddings : List MemoryEmbedding := []
  recalls : List MemoryRecall := []
  docs : Table MemoryProfileDoc.key := Table.empty
  erasures : List Text := []
  nextId : ℕ := 0

/-- `content_fingerprint`, and the keyed digest of a text that is normalized by it. -/
structure Environment extends MemoryConsolidation.Environment where
  contentFingerprint : Text → Text
  keyedDigest : Text → Text

def Environment.memoryDigest (env : Environment) (text : Text) : Text :=
  env.keyedDigest (env.contentFingerprint text)

structure MemoryDeletionReceipt where
  deleted : ℕ
  revisionsRemoved : ℕ
  proposalsCleared : ℕ
  derivedMarked : ℕ

section Purge

variable (env : Environment) (deleted : List Uuid) (digests : List Text)

def Clears (proposal : MemoryProposal) : Prop :=
  ((∃ id ∈ proposal.recordId, id ∈ deleted) ∨ ∃ id ∈ proposal.targetRecordId, id ∈ deleted) ∨
    (proposal.status = .pending ∧ digests.contains (env.memoryDigest proposal.content))

instance (proposal : MemoryProposal) : Decidable (Clears env deleted digests proposal) :=
  inferInstanceAs (Decidable (_ ∨ _))

def clearProposal (proposal : MemoryProposal) : MemoryProposal :=
  { proposal with
    content := []
    reason := none
    flags := {.erased}
    status := if proposal.status = .pending then .rejected else proposal.status }

def derivedIds (store : Store) : List Uuid :=
  ((store.sources.filter fun link => link.sourceRecordId ∈ deleted).map
    MemorySource.recordId).filter (· ∉ deleted)

/-- The records that are left, those that are derived with a mark. -/
def purgedRecords (store : Store) : Table MemoryRecord.id :=
  ((store.records.updateWhere (fun row => row.id ∈ derivedIds deleted store)
      (fun row => { row with flags := row.flags ∪ {.sourceDeleted} }) fun _ => rfl).updateWhere
        (fun row => ∃ id ∈ row.supersededById, id ∈ deleted)
        (fun row => { row with supersededById := none }) fun _ => rfl).filter
          fun row => row.id ∉ deleted

/-- `purge_records`, of the rows with some ids. -/
def purgeRecords (ids : List Uuid) (erase : Bool) (store : Store) :
    MemoryDeletionReceipt × Store :=
  let rows := store.records.rows.filter fun row => row.id ∈ ids
  let deleted := rows.map MemoryRecord.id
  if deleted = [] then (⟨0, 0, 0, 0⟩, store)
  else
    let digests := rows.map fun row => env.memoryDigest row.content
    ({ deleted := deleted.length
       revisionsRemoved := store.revisions.countP fun row => row.recordId ∈ deleted
       proposalsCleared := store.proposals.rows.countP fun row => Clears env deleted digests row
       derivedMarked := store.records.rows.countP fun row => row.id ∈ derivedIds deleted store },
      { records := purgedRecords deleted store
        proposals := store.proposals.updateWhere (fun row => Clears env deleted digests row)
          clearProposal fun _ => rfl
        sources := store.sources.filter fun link =>
          ¬ (link.recordId ∈ deleted ∨ link.sourceRecordId ∈ deleted)
        revisions := store.revisions.filter fun row => row.recordId ∉ deleted
        embeddings := store.embeddings.filter fun row => row.recordId ∉ deleted
        recalls := store.recalls.filter fun row => row.recordId ∉ deleted
        docs := dropSources deleted store.docs
        erasures := if erase then store.erasures ++ distinctOn id digests else store.erasures
        nextId := store.nextId })

end Purge

inductive RunPath
  | chat
  | trigger
  | other
  deriving DecidableEq

structure MemoryWrite where
  isAgentScope : Bool
  agentId : Option Uuid
  content : Text
  reason : Option Text
  kind : MemoryKind
  subject : MemorySubject
  topic : Option Text
  origin : MemoryOrigin
  sensitivity : MemorySensitivity
  flags : Finset Flag
  runPath : RunPath

/-- What a write reads of the settings, and whether the agent of the write is found. -/
structure WriteSettings where
  isAutoNotify : Bool
  recordsAxis : AxisValue
  contactsAllowed : Bool
  triggerWritesEnabled : Bool
  isAgentFound : Bool

inductive WriteDecision
  | save (reviewLater : Bool)
  | propose
  | reject

def decideRecordWrite (settings : WriteSettings) (runPath : RunPath) (origin : MemoryOrigin)
    (marks : Finset Flag) : WriteDecision :=
  if origin = .userStated then .save false
  else if runPath = .trigger then
    if settings.triggerWritesEnabled then .propose else .reject
  else if runPath ≠ .chat then .reject
  else if settings.recordsAxis = .off then .reject
  else if .instructionLike ∈ marks then .propose
  else if settings.recordsAxis = .approve then .propose
  else if ¬ ((marks ∩ reviewFlags).Nonempty ∨ origin.IsReview) then .save false
  else if settings.isAutoNotify then .save true
  else .propose

inductive WriteResult
  | saved (id : Uuid)
  | proposed (id : Uuid)
  | duplicate (id : Uuid)
  | rejected (reason : String)
  /-- A text that may never be kept. -/
  | invalid
  deriving DecidableEq

def MemoryWrite.withCheck (write : MemoryWrite) (result : MemoryCheck) : MemoryWrite :=
  { write with
    flags := write.flags ∪ result.flags
    subject := if .otherPerson ∈ result.flags then .other else write.subject
    sensitivity :=
      if write.sensitivity.index < result.sensitivity.index then result.sensitivity
      else write.sensitivity }

def writtenRecord (write : MemoryWrite) (reviewLater : Bool) (id : Uuid) : MemoryRecord where
  id := id
  isAgentScope := write.isAgentScope
  agentId := if write.isAgentScope then write.agentId else none
  content := write.content
  reason := write.reason
  status := .active
  kind := write.kind
  subject := write.subject
  topic := write.topic
  origin := write.origin
  sensitivity := write.sensitivity
  importance := 1
  validUntil := none
  supersededById := none
  approvalChannel := some (if write.origin = .userStated then .direct else .autoPolicy)
  flags := if reviewLater then write.flags ∪ {.reviewLater} else write.flags

def writtenProposal (write : MemoryWrite) (id : Uuid) : MemoryProposal where
  id := id
  isAgentScope := write.isAgentScope
  agentId := write.agentId
  content := write.content
  reason := write.reason
  status := .pending
  kind := write.kind
  subject := write.subject
  topic := write.topic
  origin := write.origin
  sensitivity := write.sensitivity
  flags := write.flags
  action := .create
  targetRecordId := none
  recordId := none
  sourceIds := []

section Write

variable (env : Environment)

/-- `_duplicate`. -/
def findDuplicate (write : MemoryWrite) (store : Store) : Option MemoryRecord :=
  store.records.rows.find? fun row =>
    row.isAgentScope = write.isAgentScope &&
      row.agentId = (if write.isAgentScope then write.agentId else none) &&
        row.status = .active &&
          env.contentFingerprint row.content = env.contentFingerprint write.content

/-- What a write stores once it is decided on; nothing without the agent of the write. -/
def storeWrite (settings : WriteSettings) (write : MemoryWrite) (store : Store) :
    Option (WriteResult × Store) :=
  match decideRecordWrite settings write.runPath write.origin write.flags with
  | .reject => some (.rejected "memory_write_disabled", store)
  | .propose =>
      if settings.isAgentFound then
        (store.proposals.insert? (writtenProposal write store.nextId)).map fun proposals =>
          (.proposed store.nextId, { store with proposals, nextId := store.nextId + 1 })
      else none
  | .save reviewLater =>
      if settings.isAgentFound then
        (store.records.insert? (writtenRecord write reviewLater store.nextId)).map fun records =>
          (.saved store.nextId,
            { store with
              records
              revisions := store.revisions ++ [⟨store.nextId, none, some write.content⟩]
              nextId := store.nextId + 1 })
      else none

/-- `write_memory`.  What is not stored is not committed either. -/
def writeMemory (settings : WriteSettings) (write : MemoryWrite) (store : Store) :
    WriteResult × Store :=
  match env.checkText write.content with
  | none => (.invalid, store)
  | some checked =>
      if .contact ∈ checked.flags ∧ ¬ settings.contactsAllowed then (.invalid, store)
      else
        let digest := env.memoryDigest write.content
        if write.origin ≠ .userStated ∧ store.erasures.contains digest then
          (.rejected "MEMORY_ERASED", store)
        else
          -- the person chose to keep it again
          let remembered :=
            if write.origin = .userStated then
              { store with erasures := store.erasures.filter fun erased => !(erased == digest) }
            else store
          match findDuplicate env write remembered with
          | some existing => (.duplicate existing.id, store)
          | none =>
              match storeWrite settings (write.withCheck checked) remembered with
              | some (.rejected reason, _) => (.rejected reason, store)
              | some stored => stored
              | none => (.rejected "agent_not_found", store)

end Write

end NaturalMold.MemoryPurge

import Mathlib.Data.Finset.Basic
import NaturalMold.MemoryProfiles

/-! # Memory consolidation -/

namespace NaturalMold.MemoryConsolidation

open Conversations (Uuid Time)
open CronExpressions (Text)
open Fallible FirstOccurrences KeyedTables StepRuns
open MemoryProfiles (cleaned)

inductive MemoryStatus
  | active
  | superseded
  | revoked
  | deleted
  deriving DecidableEq

inductive MemoryKind
  | fact
  | preference
  | commitment
  | experience
  | episode
  | procedure
  deriving DecidableEq

inductive MemorySubject
  | self
  | other
  deriving DecidableEq

/-- `MEMORY_ORIGINS`, the strictest last. -/
inductive MemoryOrigin
  | userStated
  | agentInferred
  | legacy
  | consolidation
  | toolDerived
  deriving DecidableEq

namespace MemoryOrigin

def index : MemoryOrigin → ℕ
  | userStated => 0
  | agentInferred => 1
  | legacy => 2
  | consolidation => 3
  | toolDerived => 4

/-- `REVIEW_ORIGINS`. -/
def IsReview (origin : MemoryOrigin) : Prop :=
  origin ∈ [toolDerived, legacy, consolidation]

instance (origin : MemoryOrigin) : Decidable origin.IsReview :=
  inferInstanceAs (Decidable (_ ∈ _))

end MemoryOrigin

/-- `MEMORY_SENSITIVITIES`. -/
inductive MemorySensitivity
  | normal
  | contact
  | sensitive
  deriving DecidableEq

def MemorySensitivity.index : MemorySensitivity → ℕ
  | normal => 0
  | contact => 1
  | sensitive => 2

inductive ApprovalChannel
  | direct
  | proposal
  | autoPolicy
  deriving DecidableEq

/-- The keys of `flags`; a flag that is there has a value that is true. -/
inductive Flag
  | sensitive
  | otherPerson
  | instructionLike
  | contact
  | legacyRejected
  | groundedAt
  | sourceDeleted
  | reviewLater
  | erased
  | consolidation
  | needsReview
  | replacesConfirmed
  | autoApplied
  deriving DecidableEq

def reviewFlags : Finset Flag :=
  {.sensitive, .otherPerson, .instructionLike}

structure MemoryRecord where
  id : Uuid
  isAgentScope : Bool
  agentId : Option Uuid
  content : Text
  reason : Option Text
  status : MemoryStatus
  kind : MemoryKind
  subject : MemorySubject
  topic : Option Text
  origin : MemoryOrigin
  sensitivity : MemorySensitivity
  importance : ℕ
  validUntil : Option Time
  supersededById : Option Uuid
  approvalChannel : Option ApprovalChannel
  flags : Finset Flag
  deriving DecidableEq

inductive ProposalAction
  | create
  | merge
  | supersede
  | expire
  | revoke
  | profile
  deriving DecidableEq

inductive ProposalStatus
  | pending
  | approved
  | rejected
  | expired
  deriving DecidableEq

structure MemoryProposal where
  id : Uuid
  isAgentScope : Bool
  agentId : Option Uuid
  content : Text
  reason : Option Text
  status : ProposalStatus
  kind : MemoryKind
  subject : MemorySubject
  topic : Option Text
  origin : MemoryOrigin
  sensitivity : MemorySensitivity
  flags : Finset Flag
  action : ProposalAction
  targetRecordId : Option Uuid
  recordId : Option Uuid
  sourceIds : List Uuid
  validUntil : Option Time := none
  deriving DecidableEq

structure MemorySource where
  recordId : Uuid
  sourceRecordId : Uuid
  deriving DecidableEq

/-- One person's memories and proposals.  The update of a text by the person is audited with
the id of the memory. -/
structure Database where
  records : Table MemoryRecord.id := Table.empty
  proposals : Table MemoryProposal.id := Table.empty
  sources : List MemorySource := []
  contentUpdates : List Uuid := []
  nextId : ℕ := 0

/-- The read-time origin labels. -/
inductive Provenance
  | fromOutside
  | confirmedByPerson
  | earlierUnconfirmed
  | writtenByAgent
  deriving DecidableEq

def provenance (record : MemoryRecord) : Provenance :=
  if record.origin = .toolDerived then .fromOutside
  else if record.origin = .userStated ∨ record.approvalChannel = some .proposal then
    .confirmedByPerson
  else if record.origin = .legacy then .earlierUnconfirmed
  else .writtenByAgent

def Human (record : MemoryRecord) : Prop :=
  provenance record = .confirmedByPerson

instance (record : MemoryRecord) : Decidable (Human record) :=
  inferInstanceAs (Decidable (_ = _))

/-- The condition of `_candidates` on the validity period. -/
def ValidAt (record : MemoryRecord) (time : Time) : Prop :=
  ∀ validUntil ∈ record.validUntil, time < validUntil

instance (record : MemoryRecord) (time : Time) : Decidable (ValidAt record time) :=
  inferInstanceAs (Decidable (∀ validUntil ∈ record.validUntil, _))

/-- The memories that a run is shown under short ids, and the short ids of those that are
shown with the message that they come from. -/
structure Inputs where
  records : List (Text × MemoryRecord)
  excerpts : List Text

def Inputs.find? (inputs : Inputs) (sid : Text) : Option MemoryRecord :=
  (inputs.records.find? fun entry => entry.1 = sid).map Prod.snd

structure Change where
  action : ProposalAction
  sources : List MemoryRecord
  target : Option MemoryRecord := none
  content : Text
  reason : Option Text
  review : Bool
  replacesConfirmed : Bool

/-- The answer of the model: the ids of each merge, the old and the new one of each
replacement, the memories to end and to revoke. -/
structure Reply where
  merge : List (List Text) := []
  supersede : List (Text × Text) := []
  expire : List Text := []
  revoke : List Text := []
  notes : Text → Option Text := fun _ => none

def maxMergedChars : ℕ :=
  2000

/-- What `check_text` finds in a text that it does not reject. -/
structure MemoryCheck where
  flags : Finset Flag
  sensitivity : MemorySensitivity

structure Environment where
  claimsDiverge : Text → Text → Bool
  checkText : Text → Option MemoryCheck

def strictest {Value : Type} (index : Value → ℕ) (default : Value) : List Value → Value
  | [] => default
  | value :: values =>
      values.foldl (fun best next => if index best < index next then next else best) value

/-- `_marks`. -/
def Marked (records : List MemoryRecord) : Prop :=
  ∃ record ∈ records,
    (record.flags ∩ reviewFlags).Nonempty ∨ record.origin.IsReview ∨ record.subject = .other

instance (records : List MemoryRecord) : Decidable (Marked records) :=
  inferInstanceAs (Decidable (∃ record ∈ records, _))

/-- What `check` has found so far. -/
structure Checked where
  touched : List Text := []
  changes : List Change := []
  dropped : ℕ := 0

namespace Checked

def drop (checked : Checked) : Checked :=
  { checked with dropped := checked.dropped + 1 }

def add (checked : Checked) (sids : List Text) (change : Change) : Checked :=
  { checked with
    touched := checked.touched ++ sids
    changes := checked.changes ++ [change] }

end Checked

section Check

variable (env : Environment) (inputs : Inputs) (reply : Reply)

def note (sid : Text) : Option Text :=
  (reply.notes sid).map (List.take 200)

def joined (rows : List MemoryRecord) : Text :=
  List.intercalate [' '] (rows.map fun row => cleaned row.content)

def checkMerge (checked : Checked) (sids : List Text) : Checked :=
  let rows := (distinctOn id sids).filterMap inputs.find?
  if rows.length < 2 ∨ rows.length ≠ (distinctOn id sids).length ∨
      sids.any checked.touched.contains then checked.drop
  else if (∃ first ∈ rows, ∃ second ∈ rows, ¬ (Human first ↔ Human second)) ∨
      ∃ first ∈ rows, ∃ second ∈ rows,
        (first.isAgentScope, first.agentId) ≠ (second.isAgentScope, second.agentId) then
    checked.drop
  else if ∃ first ∈ rows, ∃ second ∈ rows, first.id ≠ second.id ∧
      env.claimsDiverge first.content second.content then checked.drop
  else if maxMergedChars < (joined rows).length then checked.drop
  else checked.add sids
    { action := .merge
      sources := rows
      content := joined rows
      reason := sids.head?.bind (note reply)
      review := decide (Marked rows)
      replacesConfirmed := decide (∃ row ∈ rows, Human row) }

def checkSupersede (checked : Checked) (item : Text × Text) : Checked :=
  match inputs.find? item.1, inputs.find? item.2 with
  | some old, some new =>
      if old.id = new.id ∨ checked.touched.contains item.1 then checked.drop
      else checked.add [item.1]
        { action := .supersede
          sources := [old, new]
          target := some old
          content := new.content
          reason := note reply item.1
          review := true
          replacesConfirmed := decide (Human old) }
  | _, _ => checked.drop

def checkOne (isRevoke : Bool) (checked : Checked) (sid : Text) : Checked :=
  match inputs.find? sid with
  | none => checked.drop
  | some row =>
      if checked.touched.contains sid ∨ (isRevoke ∧ ¬ inputs.excerpts.contains sid) then
        checked.drop
      else checked.add [sid]
        { action := if isRevoke then .revoke else .expire
          sources := [row]
          target := some row
          content := row.content
          reason := note reply sid
          review := isRevoke || decide (Marked [row])
          replacesConfirmed := decide (Human row) }

/-- `check`, of the memories. -/
def check : Checked :=
  let merged := reply.merge.foldl (checkMerge env inputs reply) {}
  let superseded := reply.supersede.foldl (checkSupersede inputs reply) merged
  let expired := reply.expire.foldl (checkOne inputs reply false) superseded
  reply.revoke.foldl (checkOne inputs reply true) expired

end Check

def RejectedBefore (proposals : Table MemoryProposal.id) (change : Change) : Prop :=
  ∃ proposal ∈ proposals.rows, proposal.action = change.action ∧
    (proposal.status = .rejected ∨ proposal.status = .pending) ∧
      proposal.sourceIds.Perm (change.sources.map MemoryRecord.id)

instance (proposals : Table MemoryProposal.id) (change : Change) :
    Decidable (RejectedBefore proposals change) :=
  inferInstanceAs (Decidable (∃ proposal ∈ proposals.rows, _))

/-- `_proposal`, with the id of its row. -/
def proposalOf (agentId : Option Uuid) (change : Change) (id : Uuid) : MemoryProposal :=
  let first := change.target <|> change.sources.head?
  { id
    isAgentScope := agentId.isSome
    agentId
    content := change.content
    reason := change.reason
    status := .pending
    kind := first.elim .fact MemoryRecord.kind
    subject := if ∃ row ∈ change.sources, row.subject = .other then .other else .self
    topic := first.bind MemoryRecord.topic
    origin := strictest MemoryOrigin.index .consolidation (change.sources.map MemoryRecord.origin)
    sensitivity :=
      strictest MemorySensitivity.index .normal (change.sources.map MemoryRecord.sensitivity)
    flags := {.consolidation} ∪ reviewFlags.filter
        (fun flag => ∃ row ∈ change.sources, flag ∈ row.flags) ∪
      (if change.review then {.needsReview} else ∅) ∪
      (if change.replacesConfirmed then {.replacesConfirmed} else ∅)
    action := change.action
    targetRecordId := change.target.map MemoryRecord.id
    recordId := none
    sourceIds := change.sources.map MemoryRecord.id }

inductive AxisValue
  | auto
  | approve
  | off
  deriving DecidableEq

/-- `auto_applies`, of a change of memories. -/
def AutoApplies (change : Change) (axis : AxisValue) : Prop :=
  axis = .auto ∧ change.review = false ∧ change.replacesConfirmed = false ∧
    (change.action = .merge ∨ change.action = .expire)

instance (change : Change) (axis : AxisValue) : Decidable (AutoApplies change axis) :=
  inferInstanceAs (Decidable (_ ∧ _))

inductive ApplyError
  | staleProposal
  | notConsolidation
  deriving DecidableEq

/-- `_records`. -/
def activeRecords (ids : List Uuid) (records : Table MemoryRecord.id) : List MemoryRecord :=
  ids.filterMap fun id => (records.get? id).filter fun row => row.status = .active

/-- `_scope_filter`. -/
def InScope (agentId : Option Uuid) (record : MemoryRecord) : Prop :=
  match agentId with
  | none => record.isAgentScope = false
  | some agent => record.isAgentScope = true ∧ record.agentId = some agent

instance (agentId : Option Uuid) (record : MemoryRecord) : Decidable (InScope agentId record) :=
  match agentId with
  | none => inferInstanceAs (Decidable (_ = _))
  | some _ => inferInstanceAs (Decidable (_ ∧ _))

def mergedRecord (proposal : MemoryProposal) (sources : List MemoryRecord) (id : Uuid) :
    MemoryRecord where
  id := id
  isAgentScope := proposal.isAgentScope
  agentId := proposal.agentId
  content := proposal.content
  reason := proposal.reason
  status := .active
  kind := proposal.kind
  subject := proposal.subject
  topic := proposal.topic
  origin := proposal.origin
  sensitivity := proposal.sensitivity
  importance := (sources.map MemoryRecord.importance).foldl max 0
  validUntil := none
  supersededById := none
  approvalChannel := some .proposal
  flags := proposal.flags ∩ reviewFlags

/-- A memory whose text the person has written again, with its marks taken anew. -/
def MemoryRecord.withContent (row : MemoryRecord) (content : Text) (result : MemoryCheck) :
    MemoryRecord :=
  { row with
    content
    origin := .userStated
    subject := if .otherPerson ∈ result.flags then .other else row.subject
    sensitivity :=
      if row.sensitivity.index < result.sensitivity.index then result.sensitivity
      else row.sensitivity
    flags := result.flags }

namespace Database

variable (db : Database)

def updateRecords (ids : List Uuid) (change : MemoryRecord → MemoryRecord)
    (keeps : ∀ row, (change row).id = row.id) : Database :=
  { db with records := db.records.updateWhere (fun row => ids.contains row.id) change keeps }

/-- The end of `apply_proposal`. -/
def resolve (proposal : MemoryProposal) (recordId : Option Uuid) : Database :=
  { db with proposals := db.proposals.save { proposal with status := .approved, recordId } }

/-- The writes of `apply_proposal`, for the sources that it has read. -/
def carryOut (now : Time) (proposal : MemoryProposal) (sources : List MemoryRecord) :
    Except ApplyError Database :=
  match proposal.action, sources with
  | .merge, _ =>
      match db.records.insert? (mergedRecord proposal sources db.nextId) with
      | none => .error .staleProposal
      | some records =>
          let merged :=
            { db with
              records
              sources := db.sources ++ sources.map fun row : MemoryRecord =>
                MemorySource.mk db.nextId row.id
              nextId := db.nextId + 1 }
          .ok ((merged.updateRecords (sources.map MemoryRecord.id) (fun row =>
            { row with status := .superseded, supersededById := some db.nextId })
              fun _ => rfl).resolve proposal (some db.nextId))
  | .supersede, old :: new :: _ =>
      .ok ((db.updateRecords [old.id] (fun row =>
        { row with status := .superseded, supersededById := some new.id })
          fun _ => rfl).resolve proposal proposal.recordId)
  | .expire, row :: _ =>
      .ok ((db.updateRecords [row.id] (fun row => { row with validUntil := some now })
        fun _ => rfl).resolve proposal proposal.recordId)
  | .revoke, row :: _ =>
      .ok ((db.updateRecords [row.id] (fun row => { row with status := .revoked })
        fun _ => rfl).resolve proposal proposal.recordId)
  | .profile, _ => .ok (db.resolve proposal proposal.recordId)
  | _, _ => .error .notConsolidation

def applyProposal (now : Time) (proposal : MemoryProposal) : Except ApplyError Database :=
  let sources := activeRecords proposal.sourceIds db.records
  if sources.length ≠ proposal.sourceIds.length then .error .staleProposal
  else db.carryOut now proposal sources

/-- `gather`; which memories are shown, and in which order, is left open. -/
def gather (agentId : Option Uuid) (shown : List Uuid) (excerpts : List Text) : Inputs :=
  let rows := (activeRecords (distinctOn id shown) db.records).filter fun row =>
    InScope agentId row ∧ .legacyRejected ∉ row.flags
  { records := (rows.zipIdx 1).map fun row => ('m' :: Nat.toDigits 10 row.2, row.1)
    excerpts }

/-- One change of a run; the flag of a proposal that is applied at once is set with it. -/
def propose (agentId : Option Uuid) (axis : AxisValue) (now : Time) (change : Change) :
    Database :=
  if RejectedBefore db.proposals change then db
  else
    let proposal := proposalOf agentId change db.nextId
    match db.proposals.insert? proposal with
    | none => db
    | some proposals =>
        let added := { db with proposals, nextId := db.nextId + 1 }
        if AutoApplies change axis then
          match added.applyProposal now
              { proposal with flags := proposal.flags ∪ {.autoApplied} } with
          | .ok applied => applied
          | .error _ => { db with nextId := db.nextId + 1 }
        else added

/-- `run_consolidation`, for an answer of the model. -/
def consolidate (env : Environment) (agentId : Option Uuid) (inputs : Inputs) (reply : Reply)
    (axis : AxisValue) (now : Time) : Database :=
  let proposed := (check env inputs reply).changes.foldl
    (fun db change => db.propose agentId axis now change) db
  let grounded := inputs.excerpts.filterMap inputs.find?
  { proposed with
    records := proposed.records.updateWhere
      (fun row => (grounded.map MemoryRecord.id).contains row.id && row.status = .active)
      (fun row => { row with flags := row.flags ∪ {.groundedAt} }) fun _ => rfl }

/-- `_approve_consolidation`, or nothing where the proposal is not pending. -/
def approve (id : Uuid) (now : Time) : Database :=
  match db.proposals.get? id with
  | none => db
  | some proposal =>
      if proposal.status ≠ .pending ∨ proposal.action = .create then db
      else
        match db.applyProposal now proposal with
        | .ok applied => applied
        | .error .staleProposal =>
            { db with proposals := db.proposals.save { proposal with status := .expired } }
        | .error .notConsolidation => db

/-- `reject_memory_proposal`. -/
def reject (id : Uuid) : Database :=
  match db.proposals.get? id with
  | none => db
  | some proposal =>
      if proposal.status ≠ .pending then db
      else { db with proposals := db.proposals.save { proposal with status := .rejected } }

/-- `update_memory_record`, of the text. -/
def updateContent (env : Environment) (id : Uuid) (content : Text) : Database :=
  match db.records.get? id, env.checkText content with
  | some row, some result =>
      if row.status ≠ .active then db
      else
        { db with
          records := db.records.save (row.withContent content result)
          contentUpdates := db.contentUpdates ++ [id] }
  | _, _ => db

def saveRecord (row : MemoryRecord) : Database :=
  match db.records.insert?
      { row with id := db.nextId, status := .active, supersededById := none } with
  | none => db
  | some records => { db with records, nextId := db.nextId + 1 }

end Database

inductive Action
  | saveRecord (row : MemoryRecord)
  | updateContent (id : Uuid) (content : Text)
  | consolidate (agentId : Option Uuid) (shown : List Uuid) (excerpts : List Text)
      (reply : Reply) (axis : AxisValue) (now : Time)
  | approve (id : Uuid) (now : Time)
  | reject (id : Uuid)

def step (env : Environment) (db : Database) : Action → Database
  | .saveRecord row => db.saveRecord row
  | .updateContent id content => db.updateContent env id content
  | .consolidate agentId shown excerpts reply axis now =>
      db.consolidate env agentId (db.gather agentId shown excerpts) reply axis now
  | .approve id now => db.approve id now
  | .reject id => db.reject id

end NaturalMold.MemoryConsolidation

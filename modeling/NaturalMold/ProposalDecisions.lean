import NaturalMold.MemoryConsolidation
import NaturalMold.ParentWalks

/-!
# Decisions on memory proposals

The person approves and rejects proposals while runs carry out their own.
-/

namespace NaturalMold.MemoryConsolidation

open Conversations (Uuid Time)
open CronExpressions (Text)
open Fallible FirstOccurrences KeyedTables ParentWalks StepRuns

/-- What has been committed about a proposal. -/
inductive Outcome
  | carriedOut (proposalId : Uuid) (record : Option Uuid) (superseded : List (Uuid × Uuid))
  | rejected (proposalId : Uuid)
  deriving DecidableEq

namespace Outcome

def proposalId : Outcome → Uuid
  | carriedOut proposalId _ _ => proposalId
  | rejected proposalId => proposalId

def IsCarriedOut : Outcome → Prop
  | carriedOut .. => True
  | rejected _ => False

instance : (outcome : Outcome) → Decidable outcome.IsCarriedOut
  | carriedOut .. => inferInstanceAs (Decidable True)
  | rejected _ => inferInstanceAs (Decidable False)

def record : Outcome → Option Uuid
  | carriedOut _ record _ => record
  | rejected _ => none

def superseded : Outcome → List (Uuid × Uuid)
  | carriedOut _ _ superseded => superseded
  | rejected _ => []

end Outcome

/-- The committed rows and what was done about proposals, in the order of the commits. -/
structure Ledger where
  db : Database := {}
  log : List Outcome := []

/-- The writes of a transaction, with what it had read. -/
inductive Write
  | insertProposal (proposal : MemoryProposal)
  | carryOut (now : Time) (proposal : MemoryProposal) (sources : List MemoryRecord)
  | create (proposal : MemoryProposal) (edit : Option (Text × MemoryCheck))
  | reject (proposal : MemoryProposal)
  | expire (proposal : MemoryProposal)

def createdRecord (proposal : MemoryProposal) (edit : Option (Text × MemoryCheck)) (id : Uuid) :
    MemoryRecord where
  id := id
  isAgentScope := proposal.isAgentScope
  agentId := if proposal.isAgentScope then proposal.agentId else none
  content := edit.elim proposal.content Prod.fst
  reason := proposal.reason
  status := .active
  kind := proposal.kind
  subject :=
    if edit.any (fun edited => .otherPerson ∈ edited.2.flags) then .other else proposal.subject
  topic := proposal.topic
  origin := proposal.origin
  sensitivity := edit.elim proposal.sensitivity fun edited =>
    if proposal.sensitivity.index < edited.2.sensitivity.index then edited.2.sensitivity
    else proposal.sensitivity
  importance := 1
  validUntil := proposal.validUntil
  supersededById := none
  approvalChannel := some .proposal
  flags := proposal.flags ∪ edit.elim ∅ fun edited => edited.2.flags

def supersededBy (proposal : MemoryProposal) (sources : List MemoryRecord) (id : Uuid) :
    List (Uuid × Uuid) :=
  match proposal.action, sources with
  | .merge, _ => sources.map fun row => (row.id, id)
  | .supersede, old :: new :: _ => [(old.id, new.id)]
  | _, _ => []

def Database.setStatus (db : Database) (proposal : MemoryProposal) (status : ProposalStatus) :
    Database :=
  { db with proposals := db.proposals.save { proposal with status } }

def Write.apply (ledger : Ledger) : Write → Ledger
  | .insertProposal proposal =>
      match ledger.db.proposals.insert? proposal with
      | none => ledger
      | some proposals => { ledger with db := { ledger.db with proposals } }
  | .carryOut now proposal sources =>
      match ledger.db.carryOut now proposal sources with
      | .error _ => ledger
      | .ok db =>
          { db
            log := ledger.log ++ [.carriedOut proposal.id
              (if proposal.action = .merge then some ledger.db.nextId else none)
              (supersededBy proposal sources ledger.db.nextId)] }
  | .create proposal edit =>
      match ledger.db.records.insert? (createdRecord proposal edit ledger.db.nextId) with
      | none => ledger
      | some records =>
          { db :=
              { ledger.db with
                records
                proposals := ledger.db.proposals.save
                  { proposal with
                    content := edit.elim proposal.content Prod.fst
                    status := .approved
                    recordId := some ledger.db.nextId }
                nextId := ledger.db.nextId + 1 }
            log := ledger.log ++ [.carriedOut proposal.id (some ledger.db.nextId) []] }
  | .reject proposal =>
      match ledger.db.proposals.get? proposal.id with
      | none => ledger
      | some _ =>
          { db := ledger.db.setStatus proposal .rejected
            log := ledger.log ++ [.rejected proposal.id] }
  | .expire proposal => { ledger with db := ledger.db.setStatus proposal .expired }

/-- What a transaction has still to read. -/
inductive Todo
  | nothing
  | sources (proposal : MemoryProposal)
  | changes (agentId : Option Uuid) (axis : AxisValue) (rest : List Change)

structure Transaction where
  id : Uuid
  todo : Todo
  writes : List Write

inductive Request
  | approve (id : Uuid) (content : Option Text)
  | reject (id : Uuid)
  | consolidate (agentId : Option Uuid) (inputs : Inputs) (reply : Reply) (axis : AxisValue)

def pendingProposal (ledger : Ledger) (id : Uuid) : Option MemoryProposal :=
  (ledger.db.proposals.get? id).filter fun proposal => proposal.status = .pending

/-- The first reads of a request: `approve_memory_proposal`, `reject_memory_proposal` and a run
that has the answer of the model. -/
def Request.begin (env : Environment) (ledger : Ledger) : Request → Option (Todo × List Write)
  | .approve id content => do
      let proposal ← pendingProposal ledger id
      if proposal.action ≠ .create then
        if content.isSome then none else some (.sources proposal, [])
      else
        match content with
        | none => some (.nothing, [.create proposal none])
        | some edited => do
            let result ← env.checkText edited
            some (.nothing, [.create proposal (some (edited, result))])
  | .reject id => do
      let proposal ← pendingProposal ledger id
      some (.nothing, [.reject proposal])
  | .consolidate agentId inputs reply axis =>
      some (.changes agentId axis (check env inputs reply).changes, [])

/-- One change of a run that is not committed; `nextId` is the id of its proposal. -/
def proposeWithin (view : Ledger) (agentId : Option Uuid) (axis : AxisValue) (nextId : Uuid)
    (now : Time) (change : Change) : List Write :=
  if RejectedBefore view.db.proposals change then []
  else
    let proposal := proposalOf agentId change nextId
    if AutoApplies change axis then
      let sources := activeRecords proposal.sourceIds view.db.records
      if sources.length ≠ proposal.sourceIds.length then []
      else
        [.insertProposal proposal,
          .carryOut now { proposal with flags := proposal.flags ∪ {.autoApplied} } sources]
    else [.insertProposal proposal]

def Transaction.advance (transaction : Transaction) (ledger : Ledger) (nextId : Uuid)
    (now : Time) : Transaction :=
  let view := transaction.writes.foldl Write.apply ledger
  match transaction.todo with
  | .nothing => transaction
  | .sources proposal =>
      let sources := activeRecords proposal.sourceIds view.db.records
      if sources.length ≠ proposal.sourceIds.length then
        { transaction with todo := .nothing, writes := [.expire proposal] }
      else { transaction with todo := .nothing, writes := [.carryOut now proposal sources] }
  | .changes _ _ [] => { transaction with todo := .nothing }
  | .changes agentId axis (change :: rest) =>
      { transaction with
        todo := .changes agentId axis rest
        writes := transaction.writes ++ proposeWithin view agentId axis nextId now change }

structure System where
  ledger : Ledger := {}
  transactions : Table Transaction.id := Table.empty
  nextId : ℕ := 0

inductive Event
  | saveRecord (row : MemoryRecord)
  | propose (proposal : MemoryProposal)
  | begin (id : Uuid) (request : Request)
  | advance (id : Uuid) (now : Time)
  | commit (id : Uuid)
  | abort (id : Uuid)

namespace System

variable (system : System)

def close (id : Uuid) : System :=
  { system with transactions := system.transactions.filter fun other => other.id ≠ id }

/-- One step of any transaction, or a memory or a proposal that is written by others. -/
def step (env : Environment) (system : System) : Event → System
  | .saveRecord row =>
      { system with ledger := { system.ledger with db := system.ledger.db.saveRecord row } }
  | .propose proposal =>
      { system with
        ledger := Write.apply system.ledger
          (.insertProposal { proposal with id := system.nextId, status := .pending })
        nextId := system.nextId + 1 }
  | .begin id request =>
      match request.begin env system.ledger with
      | none => system
      | some (todo, writes) =>
          match system.transactions.insert? { id, todo, writes } with
          | none => system
          | some transactions => { system with transactions }
  | .advance id now =>
      match system.transactions.get? id with
      | none => system
      | some transaction =>
          { system with
            transactions := system.transactions.save
              (transaction.advance system.ledger system.nextId now)
            nextId := system.nextId + 1 }
  | .commit id =>
      match system.transactions.get? id with
      | none => system
      | some transaction =>
          match transaction.todo with
          | .nothing =>
              { system with ledger := transaction.writes.foldl Write.apply system.ledger }.close id
          | .sources _ | .changes .. => system
  | .abort id => system.close id

end System

end NaturalMold.MemoryConsolidation

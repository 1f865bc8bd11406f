import NaturalMold.ConversationTables

/-!
# Approval requests

An approval request belongs to one interrupt of one run.
-/

namespace NaturalMold.Approvals

open Conversations (Uuid Time)
open KeyedTables

inductive ApprovalStatus
  | pending
  | approved
  | edited
  | rejected
  | expired
  | canceled
  deriving DecidableEq

inductive ApprovalChannel
  | chat
  | inbox
  | expiry
  | emergencyStop
  deriving DecidableEq

/-- A row of `approval_requests`, without what only describes it to its decider. -/
structure ApprovalRequest where
  id : Uuid
  conversationId : Uuid
  runId : Uuid
  interruptId : String
  agentId : Option Uuid
  argsDigest : String
  attempt : ℕ
  expiresAt : Time
  status : ApprovalStatus
  channel : Option ApprovalChannel
  decidedBy : Option Uuid
  decidedAt : Option Time
  decisions : List String
  decisionNo : ℕ
  resumedRunId : Option Uuid
  editedArgsDigest : Option String
  reason : Option String
  deriving DecidableEq

abbrev RequestTable := Table ApprovalRequest.id

def statusFor (decisions : List String) : ApprovalStatus :=
  if decisions ≠ [] ∧ decisions.all (· = "reject") then .rejected
  else if decisions.any (· = "edit") then .edited
  else .approved

/-- One decision; `decisions` is a dictionary from interrupts to decision types. -/
structure Claim where
  runId : Uuid
  decisions : List (String × List String)
  channel : ApprovalChannel
  actorId : Option Uuid
  resumedRunId : Option Uuid := none
  editedDigests : List (String × String) := []
  reason : Option String := none
  deriving DecidableEq

namespace Claim

/-- `request.decisions[interrupt_id]`. -/
def decisionsOf (request : Claim) (interruptId : String) : List String :=
  (request.decisions.lookup interruptId).getD []

/-- The rows that `claim` selects. -/
def Selects (request : Claim) (row : ApprovalRequest) : Prop :=
  row.runId = request.runId ∧ row.interruptId ∈ request.decisions.map Prod.fst

instance (request : Claim) (row : ApprovalRequest) : Decidable (request.Selects row) :=
  inferInstanceAs (Decidable (_ ∧ _))

def statusOf (request : Claim) (row : ApprovalRequest) : ApprovalStatus :=
  match request.channel with
  | .expiry => .expired
  | .emergencyStop => .canceled
  | .chat | .inbox => statusFor (request.decisionsOf row.interruptId)

def ignoresExpiry (request : Claim) : Bool :=
  request.channel = .expiry || request.channel = .emergencyStop

/-- The condition of the update. -/
def Guard (request : Claim) (stamp : Time) (row : ApprovalRequest) : Prop :=
  row.status = .pending ∧ (¬ request.ignoresExpiry → stamp < row.expiresAt)

instance (request : Claim) (stamp : Time) (row : ApprovalRequest) :
    Decidable (request.Guard stamp row) :=
  inferInstanceAs (Decidable (_ ∧ _))

/-- `request.reason or _REASONS.get(request.channel)`. -/
def reasonText (request : Claim) : Option String :=
  match request.reason.filter (· ≠ "") with
  | some reason => some reason
  | none =>
      match request.channel with
      | .expiry => some "approval_expired"
      | .emergencyStop => some "emergency_stop"
      | .chat | .inbox => none

def decided (request : Claim) (stamp : Time) (row : ApprovalRequest) : ApprovalRequest :=
  { row with
    status := request.statusOf row
    channel := some request.channel
    decidedBy := request.actorId
    decidedAt := some stamp
    decisions := request.decisionsOf row.interruptId
    decisionNo := row.decisionNo + 1
    resumedRunId := request.resumedRunId
    editedArgsDigest := request.editedDigests.lookup row.interruptId
    reason := request.reasonText }

/-- The status that `ApprovalStale` reports of a row that was not updated. -/
def staleStatus (stamp : Time) (row : ApprovalRequest) : ApprovalStatus :=
  if row.status = .pending ∧ row.expiresAt ≤ stamp then .expired else row.status

end Claim

/-- `close`: the row after its update. -/
def closed (reason : String) (stamp : Time) (row : ApprovalRequest) : ApprovalRequest :=
  { row with status := .canceled, reason := some reason, decidedAt := some stamp }

/-- `_cancel_approvals`: a row after the update. -/
def stopped (stamp : Time) (row : ApprovalRequest) : ApprovalRequest :=
  { row with
    status := .canceled
    channel := some .emergencyStop
    reason := some "emergency_stop"
    decidedAt := some stamp
    decisionNo := row.decisionNo + 1 }

/-- The rows that `_cancel_approvals` updates. -/
def StopsRow (agentIds : List Uuid) (row : ApprovalRequest) : Prop :=
  (∃ agentId ∈ row.agentId, agentId ∈ agentIds) ∧ row.status = .pending

instance (agentIds : List Uuid) (row : ApprovalRequest) : Decidable (StopsRow agentIds row) :=
  inferInstanceAs (Decidable (_ ∧ _))

/-- A decision of a person: the statuses that a claim reaches on the channels of a chat
and the inbox. -/
def ApprovalStatus.IsDecision : ApprovalStatus → Prop
  | approved | edited | rejected => True
  | pending | expired | canceled => False

theorem statusFor_isDecision (decisions : List String) : (statusFor decisions).IsDecision := by
  rw [statusFor]
  split
  · trivial
  · split <;> trivial

theorem ne_pending_of_isDecision {status : ApprovalStatus} (isDecision : status.IsDecision) :
    status ≠ .pending := by
  rintro rfl
  exact isDecision

theorem Claim.statusOf_ne_pending (request : Claim) (row : ApprovalRequest) :
    request.statusOf row ≠ .pending := by
  unfold Claim.statusOf
  split
  · nofun
  · nofun
  all_goals exact ne_pending_of_isDecision (statusFor_isDecision _)

theorem Claim.stamp_lt_of_isDecision {request : Claim} {stamp : Time} {row : ApprovalRequest}
    (guarded : request.Guard stamp row)
    (isDecision : (request.decided stamp row).status.IsDecision) : stamp < row.expiresAt := by
  apply guarded.2
  intro ignores
  have status : request.statusOf row = .expired ∨ request.statusOf row = .canceled := by
    simp only [Claim.ignoresExpiry, Bool.or_eq_true, decide_eq_true_eq] at ignores
    unfold Claim.statusOf
    rcases ignores with channel | channel <;> rw [channel] <;> simp
  change (request.statusOf row).IsDecision at isDecision
  rcases status with same | same <;> rw [same] at isDecision <;> exact isDecision

end NaturalMold.Approvals

import NaturalMold.FallibleSteps
import NaturalMold.JsonValues
import NaturalMold.KeyedTables

/-! # Conversations, their runs and their queued inputs -/

namespace NaturalMold.Conversations

open KeyedTables

/-- A UUID, by its value. -/
abbrev Uuid := ℕ

/-- `str(id)`. -/
def uuidText (id : Uuid) : String :=
  let digits := (Nat.toDigits 16 id).leftpad 32 '0'
  String.intercalate "-"
    ([digits.take 8, (digits.drop 8).take 4, (digits.drop 12).take 4, (digits.drop 16).take 4,
      digits.drop 20].map String.ofList)

/-- A time stamp. -/
abbrev Time := ℕ

/-- What an operation raises; its transaction is then rolled back. -/
inductive Raised
  | httpException (statusCode : ℕ) (detail : String)
  | appError (code : String)
  | valueError (message : String)
  | runtimeError (message : String)
  | executionProofError (code : String)
  | multipleResultsFound
  | integrityError (constraint : String)
  deriving DecidableEq

inductive RunSource
  | chat
  | start
  | edit
  | regenerate
  | resume
  deriving DecidableEq

inductive RunStatus
  | queued
  | running
  | interrupted
  | canceling
  | canceled
  | completed
  | failed
  | stale
  deriving DecidableEq

def RunStatus.value : RunStatus → String
  | queued => "queued"
  | running => "running"
  | interrupted => "interrupted"
  | canceling => "canceling"
  | canceled => "canceled"
  | completed => "completed"
  | failed => "failed"
  | stale => "stale"

def runActiveStatuses : List RunStatus := [.queued, .running, .canceling]

def runTerminalStatuses : List RunStatus := [.completed, .failed, .interrupted, .canceled, .stale]

theorem active_or_terminal (status : RunStatus) :
    status ∈ runActiveStatuses ↔ status ∉ runTerminalStatuses := by
  cases status <;> decide

structure OrgContext where
  orgId : Uuid
  tenantId : Uuid
  userId : Uuid
  deriving DecidableEq

inductive AgentLifecycleState
  | active
  | archived
  | purged
  deriving DecidableEq

structure Conversation where
  id : Uuid
  agentId : Option Uuid
  agentLifecycleState : AgentLifecycleState := .active
  userId : Uuid
  orgId : Uuid
  tenantId : Uuid
  queuePaused : Bool := false
  queuePausedAt : Option Time := none
  deriving DecidableEq

structure ConversationRun where
  id : Uuid
  conversationId : Uuid
  agentId : Option Uuid
  userId : Uuid
  parentRunId : Option Uuid
  source : RunSource
  status : RunStatus
  isActive : Bool
  workerInstanceId : Option String := none
  interruptId : Option String := none
  inputPreview : Option String := none
  lastEventId : Option String := none
  errorCode : Option String := none
  errorMessage : Option String := none
  cancelRequestedAt : Option Time := none
  cancelReason : Option String := none
  cancellationAcknowledgedAt : Option Time := none
  startedAt : Option Time := none
  heartbeatAt : Option Time := none
  completedAt : Option Time := none
  createdAt : Time
  metadata : Option (List (String × Json)) := none
  runtimePolicyVersion : Option ℕ := none
  runtimePolicyHash : Option String := none
  runtimePolicySource : Option String := none

inductive QueueInputSource
  | chat
  deriving DecidableEq

inductive InputStatus
  | pending
  | claimed
  | canceled
  | failed
  deriving DecidableEq

structure ConversationRunInput where
  id : Uuid
  conversationId : Uuid
  agentId : Option Uuid
  userId : Uuid
  runId : Option Uuid := none
  clientRequestId : String
  source : QueueInputSource
  status : InputStatus := .pending
  priority : ℤ := 0
  position : ℕ
  revision : ℕ := 1
  inputPayload : List (String × Json)
  attachmentIds : List Uuid := []
  checkpointId : Option String := none
  claimedAt : Option Time := none
  createdAt : Time

structure Database where
  conversations : Table Conversation.id
  runs : Table ConversationRun.id
  inputs : Table ConversationRunInput.id

namespace Database

/-- Conversations that have neither runs nor inputs yet. -/
def ofConversations (conversations : Table Conversation.id) : Database where
  conversations := conversations
  runs := Table.empty
  inputs := Table.empty

def saveConversation (db : Database) (conversation : Conversation) : Database :=
  { db with conversations := db.conversations.save conversation }

def saveRun (db : Database) (run : ConversationRun) : Database :=
  { db with runs := db.runs.save run }

def saveInput (db : Database) (input : ConversationRunInput) : Database :=
  { db with inputs := db.inputs.save input }

end Database

/-- `private_scope_predicate`: the owner, organization and company match. -/
def PrivateScope (context : OrgContext) (conversation : Conversation) : Prop :=
  conversation.userId = context.userId ∧ conversation.orgId = context.orgId ∧
    conversation.tenantId = context.tenantId

instance (context : OrgContext) (conversation : Conversation) :
    Decidable (PrivateScope context conversation) :=
  inferInstanceAs (Decidable (_ ∧ _ ∧ _))

/-- `private_run_predicate`: the run belongs to its conversation's owner, and
the conversation is in scope. -/
def PrivateRun (db : Database) (context : OrgContext) (run : ConversationRun) : Prop :=
  ∃ conversation ∈ db.conversations.rows, conversation.id = run.conversationId ∧
    conversation.userId = run.userId ∧ PrivateScope context conversation

instance (db : Database) (context : OrgContext) (run : ConversationRun) :
    Decidable (PrivateRun db context run) :=
  inferInstanceAs (Decidable (∃ conversation ∈ db.conversations.rows, _ ∧ _ ∧ _))

/-- `owned_run_predicate`. -/
def OwnedRun (context : OrgContext) (run : ConversationRun) : Prop :=
  run.userId = context.userId

instance (context : OrgContext) (run : ConversationRun) : Decidable (OwnedRun context run) :=
  inferInstanceAs (Decidable (_ = _))

/-- `owned_input_predicate`. -/
def OwnedInput (context : OrgContext) (input : ConversationRunInput) : Prop :=
  input.userId = context.userId

instance (context : OrgContext) (input : ConversationRunInput) :
    Decidable (OwnedInput context input) :=
  inferInstanceAs (Decidable (_ = _))

/-- `resume_parent_predicate`. -/
def ResumeParent (child run : ConversationRun) : Prop :=
  child.parentRunId = some run.id ∧ child.conversationId = run.conversationId ∧
    child.userId = run.userId

instance (child run : ConversationRun) : Decidable (ResumeParent child run) :=
  inferInstanceAs (Decidable (_ ∧ _ ∧ _))

def AwaitsResume (db : Database) (run : ConversationRun) : Prop :=
  run.status = .interrupted ∧
    ¬ ∃ child ∈ db.runs.rows, ResumeParent child run ∧ child.source = .resume

instance (db : Database) (run : ConversationRun) : Decidable (AwaitsResume db run) :=
  inferInstanceAs (Decidable (_ ∧ ¬ ∃ child ∈ db.runs.rows, _ ∧ _))

def scalarOneOrNone {Row : Type*} : List Row → Except Raised (Option Row)
  | [] => .ok none
  | [row] => .ok (some row)
  | _ :: _ :: _ => .error .multipleResultsFound

theorem scalarOneOrNone_eq_ok {Row : Type*} {rows : List Row} {found : Option Row} :
    scalarOneOrNone rows = .ok found ↔ rows = found.toList := by
  rcases rows with _ | ⟨first, _ | ⟨second, rows⟩⟩ <;> cases found <;>
    simp [scalarOneOrNone]

end NaturalMold.Conversations

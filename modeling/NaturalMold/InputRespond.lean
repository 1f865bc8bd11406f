import NaturalMold.ApprovalTransactions
import NaturalMold.CommittedStages
import NaturalMold.ResumeAdmission
import NaturalMold.SessionConsents

/-! # The `input.respond` command -/

namespace NaturalMold.Approvals

open Conversations (Uuid Time OrgContext Database Conversation ConversationRun Raised RunRequest
  RuntimePolicy truthy)
open KeyedTables Fallible Stages

def ApprovalStatus.value : ApprovalStatus → String
  | pending => "pending"
  | approved => "approved"
  | edited => "edited"
  | rejected => "rejected"
  | expired => "expired"
  | canceled => "canceled"

/-- The update of one selected row; the error is the status that `ApprovalStale` carries. -/
def claimRow (request : Claim) (stamp : Time) (requests : RequestTable)
    (row : ApprovalRequest) : Except ApprovalStatus RequestTable :=
  if request.Guard stamp row then .ok (requests.save (request.decided stamp row))
  else .error (Claim.staleStatus stamp row)

/-- `claim`, in a transaction that nobody else interferes with. -/
def claim (request : Claim) (stamp : Time) (requests : RequestTable) :
    Except ApprovalStatus RequestTable :=
  (requests.rows.filter fun row => request.Selects row).foldlM (claimRow request stamp) requests

/-- The tables that a resume reads and writes, and the runtime policies of the
conversations. -/
structure Store where
  db : Database
  requests : RequestTable
  sessions : SessionTable
  policies : Uuid → Option RuntimePolicy

/-- How the parts of a resume come out that only read: the pending interrupts, their checks,
the restored input, the checks of the conversation and its agent before the policy, after it
and after the consents, and the policy of a conversation that has none. -/
structure ResumeEnvironment where
  pendingInterrupts : Except Raised (List ThreadInterrupt)
  decisionProblem : Json → Json → Option CommandError
  restoredInput : ResumePayload → List ThreadInterrupt → Except Raised (Option Json)
  admission : Except Raised Unit := .ok ()
  resolvedPolicy : Except Raised RuntimePolicy
  stillExecutable : Except Raised Unit := .ok ()
  consents : ConsentEnvironment
  agentContext : Except Raised Unit := .ok ()
  decisionMetadata : ResumePayload → List ThreadInterrupt → List (String × Json) := fun _ _ => []
  execution : Conversations.Environment
  text : Json → String
  stamp : Time

/-- The arguments of the handler. -/
structure ResumeRequest where
  commandId : Json := .null
  params : AgentCommandParams
  conversation : Conversation
  context : OrgContext
  channel : ApprovalChannel := .chat

/-- What a command is answered with when no run is accepted.  An application error is
answered under its code, by the handler or by the application. -/
inductive Refusal
  | commandError (error : CommandError)
  | raised (raised : Raised)

def Refusal.ofAcceptance : Raised → Refusal
  | .httpException 409 detail =>
      .commandError { code := "MULTITASK_REJECTED", message := detail }
  | other => .raised other

def Refusal.ofStale (status : ApprovalStatus) : Refusal :=
  .commandError
    { code := "STALE_INTERRUPT"
      message := "the approval request is already " ++ status.value
      statusCode := 409 }

structure CheckedResume where
  resume : ResumePayload
  parent : ConversationRun
  pending : List ThreadInterrupt

def checkResume (env : ResumeEnvironment) (request : ResumeRequest) (store : Store) :
    Except Refusal CheckedResume := do
  let resume := buildResumePayload request.params
  ensure (truthy resume.interruptId).isSome (.commandError
    { code := "INVALID_INPUT_RESPOND"
      message := "input.respond requires interrupt_id or responses[0].interrupt_id" })
  let found ← (Conversations.getLatestInterruptedRun env.execution store.db
    request.conversation.id request.context).mapError .raised
  match found with
  | none =>
      .error (.commandError
        { code := "RESUME_NOT_FOUND"
          message := "Resume run requires an interrupted parent run" })
  | some parent =>
      let pending ← env.pendingInterrupts.mapError .raised
      match validateResumePayload env.decisionProblem resume pending with
      | some problem => .error (.commandError problem)
      | none =>
          match ← (env.restoredInput resume pending).mapError .raised with
          | none =>
              .error (.commandError
                { code := "REDACTED_EDIT_REQUIRES_REPLACEMENT"
                  message := "Edited tool args still contain redacted placeholders that " ++
                    "cannot be restored" })
          | some _ => return { resume := resume, parent := parent, pending := pending }

def conversationPolicy (env : ResumeEnvironment) (conversationId : Uuid) (store : Store) :
    Except Raised RuntimePolicy :=
  match store.policies conversationId with
  | some policy => .ok policy
  | none => env.resolvedPolicy

def Store.withPolicy (conversationId : Uuid) (policy : RuntimePolicy) (store : Store) : Store :=
  { store with policies := Function.update store.policies conversationId (some policy) }

/-- Up to the first commit: the checks, and `prepare_resumed_conversation` until it has
written the policy. -/
def prepareResume (env : ResumeEnvironment) (request : ResumeRequest) (store : Store) :
    Except Refusal (CheckedResume × Store) := do
  let checked ← checkResume env request store
  env.admission.mapError .raised
  let policy ← (conversationPolicy env request.conversation.id store).mapError .raised
  return (checked, store.withPolicy request.conversation.id policy)

/-- Up to the second commit. -/
def recordConsents (env : ResumeEnvironment) (request : ResumeRequest) (checked : CheckedResume)
    (store : Store) : Except Refusal (List String × Store) := do
  env.stillExecutable.mapError .raised
  let recorded ← (applySessionConsentDecisions env.consents store.db request.context
    request.conversation.id checked.resume checked.pending store.sessions).mapError .raised
  return (recorded.1, { store with sessions := recorded.2 })

def resumeRunRequest (env : ResumeEnvironment) (request : ResumeRequest)
    (checked : CheckedResume) (agentId : Uuid) : RunRequest where
  conversationId := request.conversation.id
  agentId := agentId
  context := request.context
  source := .resume
  parentRunId := some checked.parent.id
  interruptId := resumeRunInterruptId checked.resume checked.parent.interruptId
  metadata := some
    ([("protocol", .str "langgraph_v3"), ("command_id", request.commandId),
        ("parent_run_id", .str (Conversations.uuidText checked.parent.id))] ++
      env.decisionMetadata checked.resume checked.pending)
  attributed := true

def resumeClaim (env : ResumeEnvironment) (request : ResumeRequest) (checked : CheckedResume)
    (resumedRunId : Uuid) : Claim :=
  claimResume checked.parent.id
    (OrderedDict.ofEntries (checked.resume.submitted.map fun item =>
      (item.interruptId, decisionTypes env.text item.response))).entries
    request.context.userId resumedRunId request.channel

def ResumeEnvironment.accepting (env : ResumeEnvironment) (conversationId : Uuid)
    (store : Store) : Conversations.Environment :=
  { env.execution with runtimePolicy := conversationPolicy env conversationId store }

/-- Up to the last commit: the run is accepted and its answers are claimed. -/
def acceptResume (env : ResumeEnvironment) (request : ResumeRequest) (checked : CheckedResume)
    (store : Store) : Except Refusal (Uuid × Store) := do
  env.agentContext.mapError .raised
  match request.conversation.agentId with
  | none => .error (.raised (.appError "AGENT_NOT_FOUND"))
  | some agentId =>
      let accepted ← (Conversations.acceptOwnedExecution
        (env.accepting request.conversation.id store)
        (resumeRunRequest env request checked agentId) store.db).mapError .ofAcceptance
      let requests ← (claim (resumeClaim env request checked accepted.2.id) env.stamp
        store.requests).mapError .ofStale
      return (accepted.2.id, { store with db := accepted.1, requests := requests })

/-- `_handle_input_respond_command`: the answer, and what is committed. -/
def handleInputRespondCommand (env : ResumeEnvironment) (request : ResumeRequest)
    (store : Store) : Reply Refusal Store Uuid :=
  commit store (prepareResume env request store) fun checked prepared =>
    commit prepared (recordConsents env request checked prepared) fun _ consented =>
      commit consented (acceptResume env request checked consented) fun runId accepted =>
        { answer := .ok runId, state := accepted }

end NaturalMold.Approvals

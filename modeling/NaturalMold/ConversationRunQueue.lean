import NaturalMold.ConversationRuns

/-!
# The queue of a conversation's inputs

Inputs wait in a queue and are claimed one at a time, each by a new run.
-/

namespace NaturalMold.Conversations

open KeyedTables Fallible

def maxQueueInputBytes : ℕ := 256 * 1024

def maxQueueInputDepth : ℕ := 20

def requireDepth (depth : ℕ) : Except Raised Unit :=
  ensure (depth ≤ maxQueueInputDepth)
    (.httpException 422 "Queued input exceeds maximum nesting depth")

mutual

def validateValue (depth : ℕ) : Json → Except Raised Unit
  | .null | .bool _ | .int _ | .float _ | .str _ => requireDepth depth
  | .arr items => do
      requireDepth depth
      validateItems (depth + 1) items
  | .obj fields => do
      requireDepth depth
      validateFields (depth + 1) fields

def validateItems (depth : ℕ) : List Json → Except Raised Unit
  | [] => .ok ()
  | item :: items => do
      validateValue depth item
      validateItems depth items

def validateFields (depth : ℕ) : List (String × Json) → Except Raised Unit
  | [] => .ok ()
  | (_, value) :: fields => do
      validateValue depth value
      validateFields depth fields

end

def validateQueueInputPayload (encodedSize : List (String × Json) → ℕ)
    (payload : List (String × Json)) : Except Raised Unit := do
  validateValue 1 (.obj payload)
  ensure (encodedSize payload ≤ maxQueueInputBytes)
    (.httpException 422 "Queued input exceeds maximum size")

def queueInputNotFound : Raised := .httpException 404 "Conversation input not found"

/-- Replace an application error, as `except AppError` does. -/
def rescueAppError {Value : Type*} (rescue : String → Raised) :
    Except Raised Value → Except Raised Value
  | .error (.appError code) => .error (rescue code)
  | outcome => outcome

def scopedConversation (db : Database) (conversationId : Uuid) (context : OrgContext) :
    Option Conversation :=
  db.conversations.rows.find? fun conversation =>
    conversation.id = conversationId ∧ PrivateScope context conversation

def requireExecutableConversation (env : Environment) (db : Database) (conversationId : Uuid)
    (context : OrgContext) : Except Raised Uuid := do
  rescueAppError (fun _ => .appError "CONVERSATION_NOT_FOUND") env.requirePrivateActor
  match scopedConversation db conversationId context with
  | none => .error (.appError "CONVERSATION_NOT_FOUND")
  | some conversation =>
      match conversation.agentId with
      | none => .error (.appError "AGENT_ARCHIVED")
      | some agentId => do
          ensure (conversation.agentLifecycleState ≠ .purged) (.appError "AGENT_ARCHIVED")
          env.acquirePrefix
          env.loadAgentTree
          return agentId

def requireQueueExecutable (env : Environment) (db : Database) (conversationId : Uuid)
    (context : OrgContext) : Except Raised Uuid :=
  rescueAppError
    (fun code => if code = "AGENT_ARCHIVED" then .appError code else queueInputNotFound)
    (requireExecutableConversation env db conversationId context)

def lockOwnedConversation (db : Database) (conversationId : Uuid) (context : OrgContext) :
    Except Raised Conversation :=
  match scopedConversation db conversationId context with
  | none => .error queueInputNotFound
  | some conversation => .ok conversation

def ownedInput (db : Database) (conversationId inputId : Uuid) (context : OrgContext) :
    Option ConversationRunInput :=
  db.inputs.rows.find? fun input =>
    input.id = inputId ∧ input.conversationId = conversationId ∧ OwnedInput context input

def pendingInputs (db : Database) (conversationId : Uuid) (context : OrgContext) :
    List ConversationRunInput :=
  db.inputs.rows.filter fun input =>
    input.conversationId = conversationId ∧ OwnedInput context input ∧ input.status = .pending

def maxPosition (db : Database) (conversationId : Uuid) : ℕ :=
  ((db.inputs.rows.filter fun input => input.conversationId = conversationId).map
    ConversationRunInput.position).foldl max 0

def inputOfRequest (db : Database) (conversationId : Uuid) (clientRequestId : String) :
    Option ConversationRunInput :=
  db.inputs.rows.find? fun input =>
    input.conversationId = conversationId ∧ input.clientRequestId = clientRequestId

def insertInput (db : Database) (input : ConversationRunInput) : Except Raised Database :=
  match db.inputs.insert? input with
  | none => .error (.integrityError "conversation_run_inputs_pkey")
  | some inputs => do
      ensure (∀ other ∈ db.inputs.rows, other.conversationId = input.conversationId →
          other.clientRequestId ≠ input.clientRequestId)
        (.integrityError "uq_conversation_run_inputs_request")
      ensure (∀ runId ∈ input.runId, ∀ other ∈ db.inputs.rows, other.runId ≠ some runId)
        (.integrityError "uq_conversation_run_inputs_run")
      return { db with inputs := inputs }

structure QueueInput where
  conversationId : Uuid
  context : OrgContext
  clientRequestId : String
  source : QueueInputSource := .chat
  inputPayload : List (String × Json)
  attachmentIds : List Uuid := []
  checkpointId : Option String := none
  priority : ℤ := 0

def SameRequest (existing : ConversationRunInput) (queued : QueueInput) : Prop :=
  Json.equal (.obj existing.inputPayload) (.obj queued.inputPayload) ∧
    existing.attachmentIds = queued.attachmentIds ∧
    existing.checkpointId = queued.checkpointId ∧ existing.source = queued.source

instance (existing : ConversationRunInput) (queued : QueueInput) :
    Decidable (SameRequest existing queued) :=
  inferInstanceAs (Decidable (_ ∧ _ ∧ _ ∧ _))

def enqueueInputWithResult (env : Environment) (encodedSize : List (String × Json) → ℕ)
    (queued : QueueInput) (db : Database) :
    Except Raised (Database × ConversationRunInput × Bool) := do
  validateQueueInputPayload encodedSize queued.inputPayload
  let agentId ← requireQueueExecutable env db queued.conversationId queued.context
  let conversation ← lockOwnedConversation db queued.conversationId queued.context
  let _ ← env.runtimePolicy
  match inputOfRequest db queued.conversationId queued.clientRequestId with
  | some existing => do
      ensure (SameRequest existing queued)
        (conflict "Client request id was already used for different input")
      return (db, existing, false)
  | none => do
      let input : ConversationRunInput :=
        { id := env.newId
          conversationId := conversation.id
          agentId := some agentId
          userId := queued.context.userId
          clientRequestId := queued.clientRequestId
          source := queued.source
          status := .pending
          priority := queued.priority
          position := maxPosition db queued.conversationId + 1
          revision := 1
          inputPayload := queued.inputPayload
          attachmentIds := queued.attachmentIds
          checkpointId := queued.checkpointId
          createdAt := env.now }
      let db ← insertInput db input
      return (db, input, true)

def persistDirectInput (env : Environment) (run : ConversationRun) (context : OrgContext)
    (clientRequestId : String) (inputPayload : List (String × Json)) (attachmentIds : List Uuid)
    (db : Database) : Except Raised (Database × ConversationRunInput) := do
  let conversation ← lockOwnedConversation db run.conversationId context
  ensure (run.userId = context.userId ∧ run.agentId = conversation.agentId) queueInputNotFound
  ensure (inputOfRequest db run.conversationId clientRequestId = none)
    (conflict "Client request id was already used for a conversation input")
  let input : ConversationRunInput :=
    { id := env.newId
      conversationId := run.conversationId
      agentId := run.agentId
      userId := run.userId
      runId := some run.id
      clientRequestId := clientRequestId
      source := .chat
      status := .claimed
      priority := 0
      position := maxPosition db run.conversationId + 1
      revision := 1
      inputPayload := inputPayload
      attachmentIds := attachmentIds
      checkpointId := none
      claimedAt := some env.now
      createdAt := env.now }
  let db ← insertInput db input
  return (db, input)

def pendingInputForUpdate (env : Environment) (db : Database) (conversationId inputId : Uuid)
    (context : OrgContext) (expectedRevision : ℕ) : Except Raised ConversationRunInput := do
  let _ ← requireQueueExecutable env db conversationId context
  let _ ← lockOwnedConversation db conversationId context
  match ownedInput db conversationId inputId context with
  | none => .error queueInputNotFound
  | some queued => do
      ensure (queued.status = .pending)
        (conflict "Only pending conversation inputs can be changed")
      ensure (queued.revision = expectedRevision) (conflict "Conversation input revision is stale")
      return queued

def editPendingInput (env : Environment) (encodedSize : List (String × Json) → ℕ)
    (conversationId inputId : Uuid) (context : OrgContext) (expectedRevision : ℕ)
    (inputPayload : List (String × Json)) (db : Database) : Except Raised Database := do
  validateQueueInputPayload encodedSize inputPayload
  ensure (inputPayload.lookup "attachments" |>.isNone)
    (conflict "Queued attachments cannot be changed through input edit")
  let queued ← pendingInputForUpdate env db conversationId inputId context expectedRevision
  return db.saveInput
    { queued with
      inputPayload := inputPayload
      revision := queued.revision + 1 }

def deletePendingInput (env : Environment) (conversationId inputId : Uuid) (context : OrgContext)
    (expectedRevision : ℕ) (db : Database) : Except Raised Database := do
  let queued ← pendingInputForUpdate env db conversationId inputId context expectedRevision
  return db.saveInput
    { queued with
      status := .canceled
      revision := queued.revision + 1 }

def reorderFrom (expectedRevisions : List (Uuid × ℕ)) :
    ℕ → List Uuid → Database → Except Raised Database
  | _, [], db => .ok db
  | position, inputId :: inputIds, db =>
      match db.inputs.get? inputId with
      | none => .error (.runtimeError "KeyError")
      | some item => do
          ensure (expectedRevisions.lookup inputId = some item.revision)
            (conflict "Conversation input revision is stale")
          reorderFrom expectedRevisions (position + 1) inputIds
            (db.saveInput
              { item with
                position := position
                revision := item.revision + 1 })

def reorderPendingInputs (env : Environment) (conversationId : Uuid) (context : OrgContext)
    (orderedInputIds : List Uuid) (expectedRevisions : List (Uuid × ℕ)) (db : Database) :
    Except Raised Database := do
  let _ ← requireQueueExecutable env db conversationId context
  let _ ← lockOwnedConversation db conversationId context
  let byId := (pendingInputs db conversationId context).map ConversationRunInput.id
  ensure (orderedInputIds.Nodup ∧ (∀ inputId ∈ orderedInputIds, inputId ∈ byId) ∧
      ∀ inputId ∈ byId, inputId ∈ orderedInputIds)
    (conflict "Reorder must include every pending conversation input exactly once")
  reorderFrom expectedRevisions 1 orderedInputIds db

def interruptPriority : ℤ := 100

def getRunForUser (env : Environment) (db : Database) (conversationId runId : Uuid)
    (context : OrgContext) : Except Raised (Option ConversationRun) := do
  env.requirePrivateActor
  scalarOneOrNone (db.runs.rows.filter fun run =>
    run.id = runId ∧ run.conversationId = conversationId ∧ PrivateRun db context run)

def lockActiveRun (env : Environment) (db : Database) (conversationId : Uuid)
    (context : OrgContext) : Except Raised (Option ConversationRun) := do
  let active ← getActiveRun env db conversationId context
  match active with
  | none => .ok none
  | some run => getRunForUser env db conversationId run.id context

def cancelPredecessor (now : Time) (active : Option ConversationRun) (db : Database) :
    Except Raised Database :=
  match active with
  | none => .ok db
  | some run => do
      let run ← requestCancelRun now run "steer"
      return db.saveRun run

/-- Move one pending input to the front and ask the active run to cancel. -/
def promotePendingInput (env : Environment) (conversationId inputId : Uuid) (context : OrgContext)
    (expectedRevision : ℕ) (db : Database) : Except Raised Database := do
  let _ ← requireQueueExecutable env db conversationId context
  let conversation ← lockOwnedConversation db conversationId context
  ensure (¬ conversation.queuePaused) (conflict "Resume the conversation queue before steering")
  let active ← lockActiveRun env db conversationId context
  match ownedInput db conversationId inputId context with
  | none => .error queueInputNotFound
  | some queued => do
      ensure (queued.status = .pending)
        (conflict "Only pending conversation inputs can be promoted")
      ensure (queued.revision = expectedRevision) (conflict "Conversation input revision is stale")
      ensure (queued.checkpointId = none)
        (conflict "Queued edit and regenerate requests cannot be promoted")
      ensure (queued.priority < interruptPriority)
        (conflict "Conversation input is already promoted")
      let interrupted ← getLatestInterruptedRun env db conversationId context
      ensure (interrupted = none) (conflict "Resolve the pending approval before steering")
      cancelPredecessor env.now active
        (db.saveInput
          { queued with
            priority := interruptPriority
            revision := queued.revision + 1 })

def pauseConversation (now : Time) (conversation : Conversation) : Conversation :=
  { conversation with
    queuePaused := true
    queuePausedAt := conversation.queuePausedAt.or (some now) }

def pauseQueue (env : Environment) (conversationId : Uuid) (context : OrgContext)
    (db : Database) : Except Raised Database := do
  let _ ← requireQueueExecutable env db conversationId context
  let conversation ← lockOwnedConversation db conversationId context
  return db.saveConversation (pauseConversation env.now conversation)

def resumeQueue (env : Environment) (conversationId : Uuid) (context : OrgContext)
    (db : Database) : Except Raised Database := do
  let _ ← requireQueueExecutable env db conversationId context
  let conversation ← lockOwnedConversation db conversationId context
  return db.saveConversation
    { conversation with
      queuePaused := false
      queuePausedAt := none }

inductive BlockReason
  | permissionRevoked
  | ownerLeft
  | orgArchived
  | tenantSuspended
  | agentArchived
  | delegationBroken
  | requiredUnavailable
  | authRequired
  | authzUnavailable
  | quotaExceeded
  deriving DecidableEq

def transientReasons : List BlockReason := [.authzUnavailable, .quotaExceeded]

/-- A definite denial pauses the queue; the inputs stay pending. -/
def pauseBlockedQueue (env : Environment) (conversationId : Uuid) (context : OrgContext)
    (reason : Option BlockReason) (db : Database) : Except Raised Database :=
  match reason with
  | none => .ok db
  | some reason =>
      if reason ∈ transientReasons then .ok db
      else do
        let conversation ← lockOwnedConversation db conversationId context
        return if conversation.queuePaused then db
          else
            db.saveConversation
              { conversation with
                queuePaused := true
                queuePausedAt := some env.now }

/-- A run of the caller was asked to cancel and nobody has acknowledged it. -/
def UnacknowledgedPredecessor (db : Database) (conversationId : Uuid) (context : OrgContext) :
    Prop :=
  ∃ run ∈ db.runs.rows, run.conversationId = conversationId ∧ OwnedRun context run ∧
    run.cancelRequestedAt.isSome ∧ run.cancellationAcknowledgedAt = none

instance (db : Database) (conversationId : Uuid) (context : OrgContext) :
    Decidable (UnacknowledgedPredecessor db conversationId context) :=
  inferInstanceAs (Decidable (∃ run ∈ db.runs.rows, _ ∧ _ ∧ _ ∧ _))

/-- By falling priority, then rising position and creation time. -/
def QueuedBefore (first second : ConversationRunInput) : Prop :=
  second.priority < first.priority ∨
    (first.priority = second.priority ∧ (first.position < second.position ∨
      (first.position = second.position ∧ first.createdAt ≤ second.createdAt)))

instance : DecidableRel QueuedBefore :=
  fun _ _ => inferInstanceAs (Decidable (_ ∨ _ ∧ (_ ∨ _ ∧ _)))

instance : Std.Total QueuedBefore where
  total first second := by
    unfold QueuedBefore
    grind

instance : IsTrans ConversationRunInput QueuedBefore where
  trans first second third := by
    unfold QueuedBefore
    grind

def nextPendingInput (db : Database) (conversationId : Uuid) (context : OrgContext) :
    Option ConversationRunInput :=
  firstInOrder QueuedBefore (pendingInputs db conversationId context)

structure ClaimedConversationInput where
  input : ConversationRunInput
  run : ConversationRun

def bindInput (env : Environment) (conversationId : Uuid) (context : OrgContext) (agentId : Uuid)
    (queued : ConversationRunInput) (db : Database) :
    Except Raised (Database × ClaimedConversationInput) := do
  let proof ← acquireExecutionProof env db context [conversationId]
  env.loadAgentTree
  let (db, run) ← createRunFromLockedProof env proof
    { conversationId := conversationId
      agentId := agentId
      context := context
      source := .chat
      metadata := some
        [("queue_input_id", .str (uuidText queued.id)),
          ("client_request_id", .str queued.clientRequestId),
          ("checkpoint_id", queued.checkpointId.elim .null .str)]
      attributed := true }
    db
  let input : ConversationRunInput :=
    { queued with
      runId := some run.id
      status := .claimed
      claimedAt := some env.now
      revision := queued.revision + 1 }
  return (db.saveInput input, { input := input, run := run })

def claimUnderLock (env : Environment) (conversationId : Uuid) (context : OrgContext)
    (agentId : Uuid) (db : Database) :
    Except Raised (Database × Option ClaimedConversationInput) :=
  match nextPendingInput db conversationId context with
  | none => .ok (db, none)
  | some queued => do
      ensure (queued.agentId = some agentId) queueInputNotFound
      let interrupted ← getLatestInterruptedRun env db conversationId context
      if interrupted.isSome then .ok (db, none)
      else do
        let (db, claimed) ← bindInput env conversationId context agentId queued db
        return (db, some claimed)

/-- Bind the next eligible input to a run.  The denial is what the dispatch
check came back with, by its reason to block. -/
def claimNextInput (env : Environment) (denial : Option (Option BlockReason))
    (conversationId : Uuid) (context : OrgContext) (db : Database) :
    Except Raised (Database × Option ClaimedConversationInput) := do
  let agentId ← requireQueueExecutable env db conversationId context
  match denial with
  | some reason => do
      let db ← pauseBlockedQueue env conversationId context reason db
      return (db, none)
  | none => do
      let conversation ← lockOwnedConversation db conversationId context
      if conversation.queuePaused then .ok (db, none)
      else do
        let active ← getActiveRun env db conversationId context
        if active.isSome then .ok (db, none)
        else if UnacknowledgedPredecessor db conversationId context then
          .ok (db.saveConversation (pauseConversation env.now conversation), none)
        else claimUnderLock env conversationId context agentId db

def workerlessCancellations (db : Database) (protectedRunIds : List Uuid) :
    List (Uuid × Uuid × Uuid) :=
  (db.runs.rows.filter fun run =>
    run.status = .canceling ∧ run.isActive ∧ run.workerInstanceId = none ∧
      run.id ∉ protectedRunIds).map fun run => (run.id, run.conversationId, run.userId)

def boundInput (db : Database) (run : ConversationRun) (conversation : Conversation) :
    Option ConversationRunInput :=
  (db.inputs.rows.find? fun input => input.runId = some run.id).filter fun input =>
    input.conversationId = conversation.id ∧ input.userId = conversation.userId

def unbindInput (bound : Option ConversationRunInput) (db : Database) : Database :=
  match bound with
  | none => db
  | some input =>
      db.saveInput
        { input with
          status := .canceled
          runId := none
          revision := input.revision + 1 }

/-- One candidate of `finalize_workerless_cancel_before_start`, in a transaction
of its own: acknowledge the cancellation once the locked row shows that no
worker owns the run. -/
def finalizeWorkerlessCancel (now : Time) (candidate : Uuid × Uuid × Uuid) (db : Database) :
    Except Raised Database :=
  let (runId, conversationId, userId) := candidate
  let conversation? := db.conversations.rows.find? fun conversation =>
    conversation.id = conversationId ∧ conversation.userId = userId
  match conversation?, db.runs.get? runId with
  | some conversation, some run =>
      if run.conversationId ≠ conversation.id ∨ run.userId ≠ conversation.userId ∨
          run.status ≠ .canceling ∨ ¬ run.isActive ∨ run.workerInstanceId.isSome then .ok db
      else do
        let bound := boundInput db run conversation
        let run ← transitionRun now run .canceled { allowWorkerlessCancellationAck := true }
        return unbindInput bound (db.saveRun run)
  | _, _ => .ok db

inductive QueueAction
  | run (action : RunAction)
  | enqueueInput (env : Environment) (encodedSize : List (String × Json) → ℕ)
      (queued : QueueInput)
  | persistDirectInput (env : Environment) (runId : Uuid) (context : OrgContext)
      (clientRequestId : String) (inputPayload : List (String × Json))
      (attachmentIds : List Uuid)
  | editPendingInput (env : Environment) (encodedSize : List (String × Json) → ℕ)
      (conversationId inputId : Uuid) (context : OrgContext) (expectedRevision : ℕ)
      (inputPayload : List (String × Json))
  | deletePendingInput (env : Environment) (conversationId inputId : Uuid)
      (context : OrgContext) (expectedRevision : ℕ)
  | reorderPendingInputs (env : Environment) (conversationId : Uuid) (context : OrgContext)
      (orderedInputIds : List Uuid) (expectedRevisions : List (Uuid × ℕ))
  | promotePendingInput (env : Environment) (conversationId inputId : Uuid)
      (context : OrgContext) (expectedRevision : ℕ)
  | pauseQueue (env : Environment) (conversationId : Uuid) (context : OrgContext)
  | resumeQueue (env : Environment) (conversationId : Uuid) (context : OrgContext)
  | claimNextInput (env : Environment) (denial : Option (Option BlockReason))
      (conversationId : Uuid) (context : OrgContext) (commitsUnclaimed : Bool)
  | finalizeWorkerlessCancel (now : Time) (candidate : Uuid × Uuid × Uuid)

/-- A caller of `claim_next_input` that gets no input may end its transaction
without a commit. -/
def commitClaim (db : Database) (commitsUnclaimed : Bool) :
    Database × Option ClaimedConversationInput → Database
  | (after, some _) => after
  | (after, none) => if commitsUnclaimed then after else db

def performQueue (db : Database) : QueueAction → Except Raised Database
  | .run action => performRun db action
  | .enqueueInput env encodedSize queued => do
      let enqueued ← enqueueInputWithResult env encodedSize queued db
      return enqueued.1
  | .persistDirectInput env runId context clientRequestId inputPayload attachmentIds =>
      match db.runs.get? runId with
      | none => .ok db
      | some run => do
          let persisted ←
            persistDirectInput env run context clientRequestId inputPayload attachmentIds db
          return persisted.1
  | .editPendingInput env encodedSize conversationId inputId context expectedRevision
      inputPayload =>
      editPendingInput env encodedSize conversationId inputId context expectedRevision
        inputPayload db
  | .deletePendingInput env conversationId inputId context expectedRevision =>
      deletePendingInput env conversationId inputId context expectedRevision db
  | .reorderPendingInputs env conversationId context orderedInputIds expectedRevisions =>
      reorderPendingInputs env conversationId context orderedInputIds expectedRevisions db
  | .promotePendingInput env conversationId inputId context expectedRevision =>
      promotePendingInput env conversationId inputId context expectedRevision db
  | .pauseQueue env conversationId context => pauseQueue env conversationId context db
  | .resumeQueue env conversationId context => resumeQueue env conversationId context db
  | .claimNextInput env denial conversationId context commitsUnclaimed => do
      let claimed ← claimNextInput env denial conversationId context db
      return commitClaim db commitsUnclaimed claimed
  | .finalizeWorkerlessCancel now candidate => finalizeWorkerlessCancel now candidate db

/-- An operation that raises is rolled back. -/
def stepQueue (db : Database) (action : QueueAction) : Database :=
  match performQueue db action with
  | .ok after => after
  | .error _ => db

/-- The recovery of all candidates, when nothing happens between their
transactions. -/
def finalizeWorkerlessCancelBeforeStart (now : Time) (protectedRunIds : List Uuid)
    (db : Database) : Database :=
  StepRuns.run stepQueue db
    ((workerlessCancellations db protectedRunIds).map (.finalizeWorkerlessCancel now))

end NaturalMold.Conversations

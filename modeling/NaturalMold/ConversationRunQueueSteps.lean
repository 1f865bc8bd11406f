import NaturalMold.ConversationRunQueueInvariants

/-! # One step of the queue -/

namespace NaturalMold.Conversations

open KeyedTables Fallible

section

variable {env : Environment} {db after : Database} {conversationId inputId : Uuid}
  {context : OrgContext} {expectedRevision : ℕ}

theorem scopedConversation_eq_some {conversation : Conversation}
    (found : scopedConversation db conversationId context = some conversation) :
    conversation ∈ db.conversations.rows ∧ conversation.id = conversationId ∧
      PrivateScope context conversation := by
  refine ⟨List.mem_of_find?_eq_some found, ?_⟩
  simpa using List.find?_some found

theorem lockOwnedConversation_eq_ok {conversation : Conversation}
    (locked : lockOwnedConversation db conversationId context = .ok conversation) :
    conversation ∈ db.conversations.rows ∧ conversation.id = conversationId ∧
      PrivateScope context conversation := by
  rw [lockOwnedConversation] at locked
  split at locked
  case h_1 => cases locked
  case h_2 found =>
      obtain rfl := Except.ok.inj locked
      exact scopedConversation_eq_some found

theorem ownedInput_eq_some {input : ConversationRunInput}
    (found : ownedInput db conversationId inputId context = some input) :
    input ∈ db.inputs.rows ∧ input.id = inputId ∧ input.conversationId = conversationId ∧
      OwnedInput context input := by
  refine ⟨List.mem_of_find?_eq_some found, ?_⟩
  simpa using List.find?_some found

theorem mem_pendingInputs {input : ConversationRunInput} :
    input ∈ pendingInputs db conversationId context ↔
      input ∈ db.inputs.rows ∧ input.conversationId = conversationId ∧
        OwnedInput context input ∧ input.status = .pending := by
  simp [pendingInputs]

theorem pendingInputForUpdate_eq_ok {queued : ConversationRunInput}
    (succeeded : pendingInputForUpdate env db conversationId inputId context expectedRevision =
      .ok queued) :
    queued ∈ db.inputs.rows ∧ queued.id = inputId ∧ queued.conversationId = conversationId ∧
      queued.status = .pending ∧ queued.revision = expectedRevision := by
  simp only [pendingInputForUpdate, bind_eq_ok] at succeeded
  obtain ⟨_, _, _, _, rest⟩ := succeeded
  split at rest
  case h_1 => cases rest
  case h_2 found =>
  simp only [bind_eq_ok, ensure_eq_ok] at rest
  obtain ⟨_, pending, _, current, returned⟩ := rest
  obtain rfl := Except.ok.inj returned
  obtain ⟨member, sameId, inConversation, _⟩ := ownedInput_eq_some found
  exact ⟨member, sameId, inConversation, pending, current⟩

theorem editPendingInput_eq_ok {encodedSize : List (String × Json) → ℕ}
    {inputPayload : List (String × Json)}
    (succeeded : editPendingInput env encodedSize conversationId inputId context expectedRevision
      inputPayload db = .ok after) :
    ∃ queued ∈ db.inputs.rows, queued.id = inputId ∧ queued.status = .pending ∧
      queued.revision = expectedRevision ∧
      after = db.saveInput
        { queued with
          inputPayload := inputPayload
          revision := queued.revision + 1 } := by
  simp only [editPendingInput, bind_eq_ok] at succeeded
  obtain ⟨_, _, _, _, queued, found, returned⟩ := succeeded
  obtain ⟨member, sameId, _, pending, current⟩ := pendingInputForUpdate_eq_ok found
  exact ⟨queued, member, sameId, pending, current, (Except.ok.inj returned).symm⟩

theorem deletePendingInput_eq_ok
    (succeeded : deletePendingInput env conversationId inputId context expectedRevision db =
      .ok after) :
    ∃ queued ∈ db.inputs.rows, queued.id = inputId ∧ queued.status = .pending ∧
      queued.revision = expectedRevision ∧
      after = db.saveInput
        { queued with
          status := .canceled
          revision := queued.revision + 1 } := by
  simp only [deletePendingInput, bind_eq_ok] at succeeded
  obtain ⟨queued, found, returned⟩ := succeeded
  obtain ⟨member, sameId, _, pending, current⟩ := pendingInputForUpdate_eq_ok found
  exact ⟨queued, member, sameId, pending, current, (Except.ok.inj returned).symm⟩

theorem insertInput_eq_ok {input : ConversationRunInput}
    (succeeded : insertInput db input = .ok after) :
    db.inputs.insert? input = some after.inputs ∧ after = { db with inputs := after.inputs } ∧
      ∀ runId ∈ input.runId, ∀ other ∈ db.inputs.rows, other.runId ≠ some runId := by
  rw [insertInput] at succeeded
  split at succeeded
  case h_1 => cases succeeded
  case h_2 inputs inserted =>
  simp only [bind_eq_ok, ensure_eq_ok] at succeeded
  obtain ⟨_, _, _, unbound, returned⟩ := succeeded
  obtain rfl := Except.ok.inj returned
  exact ⟨inserted, rfl, unbound⟩

theorem getRunForUser_eq_some {runId : Uuid} {run : ConversationRun}
    (succeeded : getRunForUser env db conversationId runId context = .ok (some run)) :
    run ∈ db.runs.rows ∧ run.id = runId := by
  simp only [getRunForUser, bind_eq_ok, scalarOneOrNone_eq_ok] at succeeded
  obtain ⟨_, _, rows⟩ := succeeded
  have found : run ∈ db.runs.rows.filter fun run =>
      run.id = runId ∧ run.conversationId = conversationId ∧ PrivateRun db context run := by
    rw [rows]
    exact List.mem_singleton_self run
  simp only [List.mem_filter, decide_eq_true_eq] at found
  exact ⟨found.1, found.2.1⟩

theorem lockActiveRun_eq_some {run : ConversationRun}
    (succeeded : lockActiveRun env db conversationId context = .ok (some run)) :
    run ∈ db.runs.rows := by
  simp only [lockActiveRun, bind_eq_ok] at succeeded
  obtain ⟨active, _, found⟩ := succeeded
  split at found
  case h_1 => cases found
  case h_2 => exact (getRunForUser_eq_some found).1

theorem cancelPredecessor_eq_ok {now : Time} {active : Option ConversationRun}
    (succeeded : cancelPredecessor now active db = .ok after)
    (members : ∀ run ∈ active, run ∈ db.runs.rows) :
    after.conversations = db.conversations ∧ after.inputs = db.inputs ∧
      RunWrites db.conversations db.runs after.runs := by
  cases active with
  | none =>
      obtain rfl := Except.ok.inj succeeded
      exact ⟨rfl, rfl, .refl⟩
  | some run =>
      simp only [cancelPredecessor, bind_eq_ok] at succeeded
      obtain ⟨moved, canceled, returned⟩ := succeeded
      obtain rfl := Except.ok.inj returned
      have move := requestCancelRun_move canceled
      exact ⟨rfl, rfl, .single (.save (members run rfl) move.id_eq move)⟩

theorem promotePendingInput_eq_ok
    (succeeded : promotePendingInput env conversationId inputId context expectedRevision db =
      .ok after) :
    ∃ queued ∈ db.inputs.rows, queued.id = inputId ∧ queued.status = .pending ∧
      queued.revision = expectedRevision ∧ after.conversations = db.conversations ∧
      RunWrites db.conversations db.runs after.runs ∧
      after.inputs = db.inputs.save
        { queued with
          priority := interruptPriority
          revision := queued.revision + 1 } := by
  simp only [promotePendingInput, bind_eq_ok] at succeeded
  obtain ⟨_, _, _, _, _, _, active, activeEq, rest⟩ := succeeded
  split at rest
  case h_1 => cases rest
  case h_2 queued found =>
  simp only [bind_eq_ok, ensure_eq_ok] at rest
  obtain ⟨_, pending, _, current, _, _, _, _, _, _, _, _, canceled⟩ := rest
  have members : ∀ run ∈ active, run ∈ db.runs.rows := by
    rintro run rfl
    exact lockActiveRun_eq_some activeEq
  obtain ⟨sameConversations, sameInputs, writes⟩ := cancelPredecessor_eq_ok canceled members
  obtain ⟨member, sameId, _⟩ := ownedInput_eq_some found
  exact ⟨queued, member, sameId, pending, current, sameConversations, writes, sameInputs⟩

end

variable {conversations : Table Conversation.id} {input : ConversationRunInput}

variable {leaves : Prop}

theorem InputWrites.exists_not_smaller_revision {runs : Table ConversationRun.id}
    {before after : Table ConversationRunInput.id}
    (writes : InputWrites leaves conversations runs before after) (member : input ∈ before.rows) :
    ∃ later ∈ after.rows, later.id = input.id ∧ input.revision ≤ later.revision :=
  Writes.exists_of_mem
    (fun first second : ConversationRunInput => first.revision ≤ second.revision)
    (fun _ => le_rfl) (fun _ _ _ => le_trans)
    (fun _ _ _ move => by
      rw [move.1.revision_eq]
      omega)
    writes member

variable {db after : Database}

theorem reorderFrom_eq_ok {expectedRevisions : List (Uuid × ℕ)} {position : ℕ}
    {inputIds : List Uuid} (positive : 1 ≤ position) (distinct : inputIds.Nodup)
    (pending : ∀ input ∈ db.inputs.rows, input.id ∈ inputIds → input.status = .pending)
    (succeeded : reorderFrom expectedRevisions position inputIds db = .ok after) :
    after.conversations = db.conversations ∧ after.runs = db.runs ∧
      InputWrites False conversations db.runs db.inputs after.inputs ∧
      ∀ inputId ∈ inputIds, ∃ input ∈ db.inputs.rows, input.id = inputId ∧
        expectedRevisions.lookup inputId = some input.revision ∧
        ∃ moved ∈ after.inputs.rows, moved.id = inputId ∧ input.revision < moved.revision := by
  induction inputIds generalizing position db with
  | nil =>
      obtain rfl := Except.ok.inj succeeded
      exact ⟨rfl, rfl, .refl, by simp⟩
  | cons first rest ih =>
      rw [reorderFrom] at succeeded
      split at succeeded
      case h_1 => cases succeeded
      case h_2 item found =>
      obtain ⟨member, rfl⟩ := Table.get?_eq_some_iff.mp found
      simp only [bind_eq_ok, ensure_eq_ok] at succeeded
      obtain ⟨_, current, remaining⟩ := succeeded
      obtain ⟨notLater, restDistinct⟩ := List.nodup_cons.mp distinct
      let moved : ConversationRunInput :=
        { item with
          position := position
          revision := item.revision + 1 }
      have itemPending := pending item member List.mem_cons_self
      have stillPending : ∀ input ∈ (db.saveInput moved).inputs.rows, input.id ∈ rest →
          input.status = .pending := by
        intro input inputMember later
        rcases Table.mem_save.mp inputMember with ⟨rfl, _⟩ | ⟨untouched, _⟩
        · exact itemPending
        · exact pending input untouched (List.mem_cons_of_mem _ later)
      obtain ⟨sameConversations, sameRuns, writes, found⟩ :=
        ih (by omega) restDistinct stillPending remaining
      refine ⟨sameConversations, sameRuns, .head ?_ writes, ?_⟩
      · exact .save member rfl
          ⟨.reorder item itemPending position positive, fun _ => Or.inl itemPending⟩
      · intro inputId inputMember
        rcases List.mem_cons.mp inputMember with rfl | later
        · obtain ⟨later, laterMember, sameId, notSmaller⟩ :=
            writes.exists_not_smaller_revision
              (Table.mem_save.mpr (Or.inl ⟨rfl, item, member, rfl⟩))
          exact ⟨item, member, rfl, current, later, laterMember, sameId, notSmaller⟩
        · obtain ⟨input, inputSaved, sameId, expected, result⟩ := found inputId later
          rcases Table.mem_save.mp inputSaved with ⟨rfl, _⟩ | ⟨untouched, _⟩
          · exact absurd (sameId ▸ later) notLater
          · exact ⟨input, untouched, sameId, expected, result⟩

variable {env : Environment}

theorem enqueueInputWithResult_eq_ok {encodedSize : List (String × Json) → ℕ} {queued : QueueInput}
    {created : Bool}
    (succeeded : enqueueInputWithResult env encodedSize queued db = .ok (after, input, created)) :
    after = db ∨ after = { db with inputs := after.inputs } ∧
      InputWrites False db.conversations db.runs db.inputs after.inputs := by
  simp only [enqueueInputWithResult, bind_eq_ok] at succeeded
  obtain ⟨_, _, agentId, _, conversation, locked, _, _, rest⟩ := succeeded
  obtain ⟨member, _, inScope⟩ := lockOwnedConversation_eq_ok locked
  split at rest
  case h_1 =>
      simp only [bind_eq_ok] at rest
      obtain ⟨_, _, returned⟩ := rest
      obtain ⟨rfl, _⟩ := Prod.mk.inj (Except.ok.inj returned)
      exact Or.inl rfl
  case h_2 =>
  simp only [bind_eq_ok] at rest
  obtain ⟨inserted, insertEq, returned⟩ := rest
  obtain ⟨rfl, _⟩ := Prod.mk.inj (Except.ok.inj returned)
  obtain ⟨insertion, unchanged, _⟩ := insertInput_eq_ok insertEq
  refine Or.inr ⟨unchanged, .single (.insert ?_ insertion)⟩
  exact ⟨⟨conversation, member, rfl, inScope.1⟩, rfl, Nat.le_add_left 1 _, Or.inl ⟨rfl, rfl⟩⟩

variable {context : OrgContext}

theorem persistDirectInput_eq_ok {run : ConversationRun} {clientRequestId : String}
    {inputPayload : List (String × Json)} {attachmentIds : List Uuid}
    (runMember : run ∈ db.runs.rows)
    (succeeded : persistDirectInput env run context clientRequestId inputPayload attachmentIds db =
      .ok (after, input)) :
    after = { db with inputs := after.inputs } ∧
      InputWrites False db.conversations db.runs db.inputs after.inputs := by
  simp only [persistDirectInput, bind_eq_ok, ensure_eq_ok] at succeeded
  obtain ⟨conversation, locked, _, owner, _, _, inserted, insertEq, returned⟩ := succeeded
  obtain ⟨rfl, _⟩ := Prod.mk.inj (Except.ok.inj returned)
  obtain ⟨member, sameId, inScope⟩ := lockOwnedConversation_eq_ok locked
  obtain ⟨insertion, unchanged, unbound⟩ := insertInput_eq_ok insertEq
  refine ⟨unchanged, .single (.insert ?_ insertion)⟩
  refine ⟨⟨conversation, member, sameId, inScope.1.trans owner.1.symm⟩, rfl, Nat.le_add_left 1 _,
    Or.inr ⟨run.id, rfl, rfl, ⟨run, runMember, rfl, rfl⟩, unbound run.id rfl⟩⟩

theorem conversationsKept_save {old new : Conversation} (member : old ∈ conversations.rows)
    (sameId : new.id = old.id) (sameUser : new.userId = old.userId) :
    ConversationsKept conversations (conversations.save new) := by
  rintro conversationId userId ⟨conversation, conversationMember, rfl, rfl⟩
  by_cases touched : conversation.id = new.id
  · obtain rfl := conversations.eq_of_key_eq conversationMember member (touched.trans sameId)
    exact ⟨new, Table.mem_save.mpr (Or.inl ⟨rfl, conversation, conversationMember, touched⟩),
      sameId, sameUser⟩
  · exact ⟨conversation, Table.mem_save.mpr (Or.inr ⟨conversationMember, touched⟩), rfl, rfl⟩

theorem queueWrites_saveConversation {old new : Conversation} (member : old ∈ db.conversations.rows)
    (sameId : new.id = old.id) (sameUser : new.userId = old.userId) :
    QueueWrites leaves db (db.saveConversation new) where
  conversations := conversationsKept_save member sameId sameUser
  runs := .refl
  inputs := .refl

theorem queueWrites_refl (leaves : Prop) (db : Database) : QueueWrites leaves db db where
  conversations _ _ owned := owned
  runs := .refl
  inputs := .refl

theorem queueWrites_inputs (conversations : after.conversations = db.conversations)
    (runs : after.runs = db.runs)
    (writes : InputWrites False db.conversations db.runs db.inputs after.inputs) :
    QueueWrites leaves db after where
  conversations := by
    rw [conversations]
    exact fun _ _ owned => owned
  runs := by rw [runs]
  inputs := by
    rw [runs]
    exact writes.mono (fun _ _ fresh => fresh)
      (fun _ _ _ move => ⟨move.1, fun pending => (move.2 pending).imp_right False.elim⟩)

section

variable {env : Environment} {db after : Database} {conversationId : Uuid} {context : OrgContext}

def SavesConversation (db after : Database) : Prop :=
  after = db ∨ ∃ old new : Conversation, old ∈ db.conversations.rows ∧ new.id = old.id ∧
    new.userId = old.userId ∧ after = db.saveConversation new

theorem SavesConversation.writes {leaves : Prop} (saves : SavesConversation db after) :
    QueueWrites leaves db after := by
  rcases saves with rfl | ⟨old, new, member, sameId, sameUser, rfl⟩
  · exact queueWrites_refl _ _
  · exact queueWrites_saveConversation member sameId sameUser

theorem SavesConversation.inputs (saves : SavesConversation db after) :
    after.inputs = db.inputs := by
  rcases saves with rfl | ⟨_, _, _, _, _, rfl⟩ <;> rfl

theorem savesConversation_locked {conversation new : Conversation}
    (locked : lockOwnedConversation db conversationId context = .ok conversation)
    (sameId : new.id = conversation.id) (sameUser : new.userId = conversation.userId) :
    SavesConversation db (db.saveConversation new) :=
  Or.inr ⟨conversation, new, (lockOwnedConversation_eq_ok locked).1, sameId, sameUser, rfl⟩

theorem pauseBlockedQueue_saves {reason : Option BlockReason}
    (succeeded : pauseBlockedQueue env conversationId context reason db = .ok after) :
    SavesConversation db after := by
  cases reason with
  | none => exact Or.inl (Except.ok.inj succeeded).symm
  | some reason =>
      simp only [pauseBlockedQueue] at succeeded
      split at succeeded
      case isTrue => exact Or.inl (Except.ok.inj succeeded).symm
      case isFalse =>
      simp only [bind_eq_ok] at succeeded
      obtain ⟨conversation, locked, returned⟩ := succeeded
      obtain rfl := Except.ok.inj returned
      split
      · exact Or.inl rfl
      · exact savesConversation_locked locked rfl rfl

variable {queued : ConversationRunInput}

theorem nextPendingInput_eq_some
    (found : nextPendingInput db conversationId context = some queued) :
    queued ∈ db.inputs.rows ∧ queued.conversationId = conversationId ∧
      OwnedInput context queued ∧ queued.status = .pending :=
  mem_pendingInputs.mp (mem_of_firstInOrder QueuedBefore found)

theorem createRunFromLockedProof_inserts {proof : ExecutionProof} {request : RunRequest}
    {run : ConversationRun}
    (succeeded : createRunFromLockedProof env proof request db = .ok (after, run))
    (notResume : request.source ≠ .resume) :
    after = { db with runs := after.runs } ∧ run ∈ after.runs.rows ∧
      run.conversationId = request.conversationId ∧ ∀ other ∈ db.runs.rows, other.id ≠ run.id := by
  obtain ⟨runtimePolicy, resumable, rfl, _, _, _, resumableEq, insertEq⟩ :=
    createRunFromLockedProof_eq_ok succeeded
  rw [requireResumable, if_neg notResume] at resumableEq
  obtain rfl := Except.ok.inj resumableEq
  obtain ⟨inserted, unchanged, _⟩ := insertRun_eq_ok insertEq
  obtain ⟨rows, fresh⟩ := Table.insert?_eq_some inserted
  refine ⟨unchanged, ?_, rfl, fresh⟩
  rw [rows]
  exact List.mem_append_right _ (List.mem_singleton_self _)

variable {claimed : ClaimedConversationInput}

theorem bindInput_eq_ok {agentId : Uuid}
    (succeeded : bindInput env conversationId context agentId queued db = .ok (after, claimed)) :
    ∃ runs, RunWrites db.conversations db.runs runs ∧ claimed.run ∈ runs.rows ∧
      claimed.run.conversationId = conversationId ∧
      (∀ other ∈ db.runs.rows, other.id ≠ claimed.run.id) ∧
      claimed.input =
        { queued with
          runId := some claimed.run.id
          status := .claimed
          claimedAt := some env.now
          revision := queued.revision + 1 } ∧
      after = { db with runs := runs }.saveInput claimed.input := by
  simp only [bindInput, bind_eq_ok] at succeeded
  obtain ⟨proof, acquired, _, _, ⟨created, run⟩, createdEq, returned⟩ := succeeded
  obtain ⟨rfl, rfl⟩ := Prod.mk.inj (Except.ok.inj returned)
  have writes := createRunFromLockedProof_writes (acquireExecutionProof_eq_ok acquired) createdEq
  obtain ⟨unchanged, member, inConversation, fresh⟩ :=
    createRunFromLockedProof_inserts createdEq (by simp)
  refine ⟨created.runs, writes, member, inConversation, fresh, rfl, ?_⟩
  rw [unchanged]

theorem bindInput_writes {agentId : Uuid} (orderly : OrderlyQueue db)
    (found : nextPendingInput db conversationId context = some queued)
    (succeeded : bindInput env conversationId context agentId queued db = .ok (after, claimed)) :
    QueueWrites True db after := by
  obtain ⟨member, inConversation, _, pending⟩ := nextPendingInput_eq_some found
  obtain ⟨runs, writes, runMember, runConversation, fresh, inputEq, rfl⟩ :=
    bindInput_eq_ok succeeded
  refine ⟨fun _ _ owned => owned, writes, .single ?_⟩
  rw [inputEq]
  refine .save member rfl ⟨.claim queued pending claimed.run.id env.now ?_ ?_, fun _ =>
    Or.inr trivial⟩
  · exact ⟨claimed.run, runMember, rfl, runConversation.trans inConversation.symm⟩
  · intro other otherMember bound
    obtain ⟨run, oldMember, sameId, _⟩ := orderly.bound other otherMember claimed.run.id bound
    exact fresh run oldMember sameId

variable {denial : Option (Option BlockReason)}

/-- Everything a claim has checked, and what it has bound. -/
theorem claimNextInput_eq_some (succeeded : claimNextInput env denial conversationId context db =
      .ok (after, some claimed)) :
    ∃ agentId conversation queued,
      lockOwnedConversation db conversationId context = .ok conversation ∧
      conversation.queuePaused = false ∧
      getActiveRun env db conversationId context = .ok none ∧
      ¬ UnacknowledgedPredecessor db conversationId context ∧
      latestInterruptedRun db conversationId context = none ∧
      nextPendingInput db conversationId context = some queued ∧
      bindInput env conversationId context agentId queued db = .ok (after, claimed) := by
  simp only [claimNextInput, bind_eq_ok] at succeeded
  obtain ⟨agentId, _, rest⟩ := succeeded
  split at rest
  case h_1 =>
      simp only [bind_eq_ok] at rest
      obtain ⟨_, _, returned⟩ := rest
      cases returned
  case h_2 =>
  simp only [bind_eq_ok] at rest
  obtain ⟨conversation, locked, rest⟩ := rest
  split at rest
  case isTrue => cases rest
  case isFalse notPaused =>
  simp only [bind_eq_ok] at rest
  obtain ⟨active, activeEq, rest⟩ := rest
  split at rest
  case isTrue => cases rest
  case isFalse notActive =>
  split at rest
  case isTrue => cases rest
  case isFalse acknowledged =>
  rw [claimUnderLock] at rest
  split at rest
  case h_1 => cases rest
  case h_2 queued found =>
  simp only [bind_eq_ok] at rest
  obtain ⟨_, _, interrupted, interruptedEq, rest⟩ := rest
  split at rest
  case isTrue => cases rest
  case isFalse notInterrupted =>
  simp only [bind_eq_ok] at rest
  obtain ⟨⟨bound, result⟩, boundEq, returned⟩ := rest
  obtain ⟨rfl, sameClaim⟩ := Prod.mk.inj (Except.ok.inj returned)
  obtain rfl := Option.some.inj sameClaim
  rw [Option.not_isSome_iff_eq_none] at notActive notInterrupted
  subst notActive notInterrupted
  simp only [getLatestInterruptedRun, bind_eq_ok] at interruptedEq
  obtain ⟨_, _, latest⟩ := interruptedEq
  exact ⟨agentId, conversation, queued, locked, by simpa using notPaused,
    activeEq, acknowledged, Except.ok.inj latest, found, boundEq⟩

/-- A claim that binds nothing writes at most the pause of its conversation. -/
theorem claimNextInput_saves
    (succeeded : claimNextInput env denial conversationId context db = .ok (after, none)) :
    SavesConversation db after := by
  simp only [claimNextInput, bind_eq_ok] at succeeded
  obtain ⟨agentId, _, rest⟩ := succeeded
  split at rest
  case h_1 =>
      simp only [bind_eq_ok] at rest
      obtain ⟨paused, pausedEq, returned⟩ := rest
      obtain ⟨rfl, _⟩ := Prod.mk.inj (Except.ok.inj returned)
      exact pauseBlockedQueue_saves pausedEq
  case h_2 =>
  simp only [bind_eq_ok] at rest
  obtain ⟨conversation, locked, rest⟩ := rest
  split at rest
  case isTrue => exact Or.inl (Prod.mk.inj (Except.ok.inj rest)).1.symm
  case isFalse =>
  simp only [bind_eq_ok] at rest
  obtain ⟨active, _, rest⟩ := rest
  split at rest
  case isTrue => exact Or.inl (Prod.mk.inj (Except.ok.inj rest)).1.symm
  case isFalse =>
  split at rest
  case isTrue =>
      obtain ⟨rfl, _⟩ := Prod.mk.inj (Except.ok.inj rest)
      exact savesConversation_locked locked rfl rfl
  case isFalse =>
  rw [claimUnderLock] at rest
  split at rest
  case h_1 => exact Or.inl (Prod.mk.inj (Except.ok.inj rest)).1.symm
  case h_2 =>
  simp only [bind_eq_ok] at rest
  obtain ⟨_, _, interrupted, _, rest⟩ := rest
  split at rest
  case isTrue => exact Or.inl (Prod.mk.inj (Except.ok.inj rest)).1.symm
  case isFalse =>
      simp only [bind_eq_ok] at rest
      obtain ⟨_, _, returned⟩ := rest
      cases returned

theorem claimNextInput_eq_none {leaves : Prop}
    (succeeded : claimNextInput env denial conversationId context db = .ok (after, none)) :
    QueueWrites leaves db after :=
  (claimNextInput_saves succeeded).writes

end

theorem boundInput_eq_some {run : ConversationRun} {conversation : Conversation}
    (found : boundInput db run conversation = some input) :
    input ∈ db.inputs.rows ∧ input.runId = some run.id := by
  rw [boundInput, Option.filter_eq_some_iff] at found
  refine ⟨List.mem_of_find?_eq_some found.1, ?_⟩
  simpa using List.find?_some found.1

/-- An input with a run is not pending, so releasing it takes nothing out of the
queue. -/
theorem unbindInput_writes {runs : Table ConversationRun.id} {run : ConversationRun}
    {bound : Option ConversationRunInput}
    (consistent : ∀ input ∈ db.inputs.rows, InputConsistent input)
    (members : ∀ input ∈ bound, input ∈ db.inputs.rows ∧ input.runId = some run.id) :
    InputWrites False conversations runs db.inputs (unbindInput bound db).inputs := by
  cases bound with
  | none => exact .refl
  | some input =>
      obtain ⟨member, boundTo⟩ := members input rfl
      have hasRun : input.runId.isSome := by rw [boundTo]; rfl
      refine .single (.save member rfl ⟨.unbind input hasRun, fun pending => ?_⟩)
      have claimed := (consistent input member).runId_iff.mp hasRun
      rw [pending] at claimed
      simp at claimed

theorem unbindInput_keeps (bound : Option ConversationRunInput) (db : Database) :
    (unbindInput bound db).conversations = db.conversations ∧
      (unbindInput bound db).runs = db.runs := by
  cases bound <;> exact ⟨rfl, rfl⟩

theorem finalizeWorkerlessCancel_writes {now : Time} {candidate : Uuid × Uuid × Uuid}
    (orderly : OrderlyQueue db)
    (succeeded : finalizeWorkerlessCancel now candidate db = .ok after) :
    QueueWrites leaves db after := by
  simp only [finalizeWorkerlessCancel] at succeeded
  split at succeeded
  case h_2 =>
      obtain rfl := Except.ok.inj succeeded
      exact queueWrites_refl _ _
  case h_1 conversation run conversationFound runFound =>
  split at succeeded
  case isTrue =>
      obtain rfl := Except.ok.inj succeeded
      exact queueWrites_refl _ _
  case isFalse =>
  simp only [bind_eq_ok] at succeeded
  obtain ⟨moved, transitionEq, returned⟩ := succeeded
  obtain rfl := Except.ok.inj returned
  have move := transitionRun_move transitionEq
  have member := (Table.get?_eq_some_iff.mp runFound).1
  obtain ⟨sameConversations, sameRuns⟩ :=
    unbindInput_keeps (boundInput db run conversation) (db.saveRun moved)
  have writes : InputWrites False db.conversations (db.saveRun moved).runs
      (db.saveRun moved).inputs
      (unbindInput (boundInput db run conversation) (db.saveRun moved)).inputs :=
    unbindInput_writes orderly.consistent fun input found => boundInput_eq_some found
  refine ⟨?_, ?_, ?_⟩
  · rw [sameConversations]
    exact fun _ _ owned => owned
  · rw [sameRuns]
    exact .single (.save member move.id_eq move)
  · rw [sameRuns]
    exact writes.mono (fun _ _ fresh => fresh)
      (fun _ _ _ move => ⟨move.1, fun pending => (move.2 pending).imp_right False.elim⟩)

def LeavesPending : QueueAction → Prop
  | .deletePendingInput .. | .claimNextInput .. => True
  | .run .. | .enqueueInput .. | .persistDirectInput .. | .editPendingInput ..
  | .reorderPendingInputs .. | .promotePendingInput .. | .pauseQueue .. | .resumeQueue ..
  | .finalizeWorkerlessCancel .. => False

theorem pauseQueue_writes {conversationId : Uuid}
    (succeeded : pauseQueue env conversationId context db = .ok after) :
    QueueWrites leaves db after := by
  simp only [pauseQueue, bind_eq_ok] at succeeded
  obtain ⟨_, _, conversation, locked, returned⟩ := succeeded
  obtain rfl := Except.ok.inj returned
  exact queueWrites_saveConversation (lockOwnedConversation_eq_ok locked).1 rfl rfl

theorem resumeQueue_writes {conversationId : Uuid}
    (succeeded : resumeQueue env conversationId context db = .ok after) :
    QueueWrites leaves db after := by
  simp only [resumeQueue, bind_eq_ok] at succeeded
  obtain ⟨_, _, conversation, locked, returned⟩ := succeeded
  obtain rfl := Except.ok.inj returned
  exact queueWrites_saveConversation (lockOwnedConversation_eq_ok locked).1 rfl rfl

theorem reorderPendingInputs_eq_ok {conversationId : Uuid} {orderedInputIds : List Uuid}
    {expectedRevisions : List (Uuid × ℕ)}
    (succeeded : reorderPendingInputs env conversationId context orderedInputIds expectedRevisions
      db = .ok after) :
    after.conversations = db.conversations ∧ after.runs = db.runs ∧
      InputWrites False db.conversations db.runs db.inputs after.inputs ∧
      ∀ inputId ∈ orderedInputIds, ∃ input ∈ db.inputs.rows, input.id = inputId ∧
        expectedRevisions.lookup inputId = some input.revision ∧
        ∃ moved ∈ after.inputs.rows, moved.id = inputId ∧ input.revision < moved.revision := by
  simp only [reorderPendingInputs, bind_eq_ok, ensure_eq_ok] at succeeded
  obtain ⟨_, _, _, _, _, ⟨distinct, known, _⟩, reordered⟩ := succeeded
  refine reorderFrom_eq_ok le_rfl distinct ?_ reordered
  intro input member listed
  obtain ⟨pending, pendingMember, sameId⟩ := List.mem_map.mp (known input.id listed)
  obtain ⟨inTable, _, _, isPending⟩ := mem_pendingInputs.mp pendingMember
  rw [← db.inputs.eq_of_key_eq inTable member sameId]
  exact isPending

theorem performQueue_writes {action : QueueAction} (orderly : OrderlyQueue db)
    (succeeded : performQueue db action = .ok after) :
    QueueWrites (LeavesPending action) db after := by
  cases action with
  | run action =>
      obtain ⟨sameConversations, sameInputs⟩ := performRun_keeps succeeded
      refine ⟨?_, performRun_writes succeeded, ?_⟩
      · rw [sameConversations]
        exact fun _ _ owned => owned
      · rw [sameInputs]
  | enqueueInput env encodedSize queued =>
      simp only [performQueue, bind_eq_ok] at succeeded
      obtain ⟨⟨enqueued, input, created⟩, enqueueEq, returned⟩ := succeeded
      obtain rfl := Except.ok.inj returned
      rcases enqueueInputWithResult_eq_ok enqueueEq with rfl | ⟨unchanged, writes⟩
      · exact queueWrites_refl _ _
      · exact queueWrites_inputs (by rw [unchanged]) (by rw [unchanged]) writes
  | persistDirectInput env runId context clientRequestId inputPayload attachmentIds =>
      simp only [performQueue] at succeeded
      split at succeeded
      case h_1 =>
          obtain rfl := Except.ok.inj succeeded
          exact queueWrites_refl _ _
      case h_2 run found =>
      simp only [bind_eq_ok] at succeeded
      obtain ⟨⟨persisted, input⟩, persistEq, returned⟩ := succeeded
      obtain rfl := Except.ok.inj returned
      obtain ⟨unchanged, writes⟩ :=
        persistDirectInput_eq_ok (Table.get?_eq_some_iff.mp found).1 persistEq
      exact queueWrites_inputs (by rw [unchanged]) (by rw [unchanged]) writes
  | editPendingInput env encodedSize conversationId inputId context expectedRevision
      inputPayload =>
      obtain ⟨queued, member, _, pending, _, rfl⟩ := editPendingInput_eq_ok succeeded
      exact queueWrites_inputs rfl rfl
        (.single (.save member rfl ⟨.edit queued pending inputPayload, fun _ => Or.inl pending⟩))
  | deletePendingInput env conversationId inputId context expectedRevision =>
      obtain ⟨queued, member, _, pending, _, rfl⟩ := deletePendingInput_eq_ok succeeded
      exact ⟨fun _ _ owned => owned, .refl,
        .single (.save member rfl ⟨.delete queued pending, fun _ => Or.inr trivial⟩)⟩
  | reorderPendingInputs env conversationId context orderedInputIds expectedRevisions =>
      obtain ⟨sameConversations, sameRuns, writes, _⟩ := reorderPendingInputs_eq_ok succeeded
      exact queueWrites_inputs sameConversations sameRuns writes
  | promotePendingInput env conversationId inputId context expectedRevision =>
      obtain ⟨queued, member, _, pending, _, sameConversations, writes, inputs⟩ :=
        promotePendingInput_eq_ok succeeded
      refine ⟨?_, writes, ?_⟩
      · rw [sameConversations]
        exact fun _ _ owned => owned
      · rw [inputs]
        exact .single (.save member rfl ⟨.promote queued pending, fun _ => Or.inl pending⟩)
  | pauseQueue env conversationId context => exact pauseQueue_writes succeeded
  | resumeQueue env conversationId context => exact resumeQueue_writes succeeded
  | claimNextInput env denial conversationId context commitsUnclaimed =>
      simp only [performQueue, bind_eq_ok] at succeeded
      obtain ⟨⟨claimedDb, claimed⟩, claimEq, returned⟩ := succeeded
      obtain rfl := Except.ok.inj returned
      cases claimed with
      | none =>
          rw [commitClaim]
          split
          · exact claimNextInput_eq_none claimEq
          · exact queueWrites_refl _ _
      | some claimed =>
          obtain ⟨_, _, queued, _, _, _, _, _, found, bound⟩ := claimNextInput_eq_some claimEq
          exact bindInput_writes orderly found bound
  | finalizeWorkerlessCancel now candidate =>
      exact finalizeWorkerlessCancel_writes orderly succeeded

theorem stepQueue_writes (orderly : OrderlyQueue db) (action : QueueAction) :
    QueueWrites (LeavesPending action) db (stepQueue db action) := by
  rw [stepQueue]
  split
  case h_1 after succeeded => exact performQueue_writes orderly succeeded
  case h_2 => exact queueWrites_refl _ _

/-- The state after a sequence of operations. -/
def queueAfter (conversations : Table Conversation.id) (actions : List QueueAction) : Database :=
  StepRuns.run stepQueue (Database.ofConversations conversations) actions

theorem queueAfter_orderly (conversations : Table Conversation.id) (actions : List QueueAction) :
    OrderlyQueue (queueAfter conversations actions) :=
  StepRuns.run_invariant OrderlyQueue
    (fun _ action orderly => (stepQueue_writes orderly action).orderly orderly)
    (orderlyQueue_ofConversations conversations) actions

end NaturalMold.Conversations

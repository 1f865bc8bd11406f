import NaturalMold.ConversationRunQueueSteps

/-! # What every sequence of queue operations guarantees -/

namespace NaturalMold.Conversations

open KeyedTables Fallible

/-- The claim an operation makes in a state. -/
def claimOf (db : Database) : QueueAction → Option ClaimedConversationInput
  | .claimNextInput env denial conversationId context _ =>
      match claimNextInput env denial conversationId context db with
      | .ok (_, claimed) => claimed
      | .error _ => none
  | _ => none

def ExpectsRevision (inputId : Uuid) (revision : ℕ) : QueueAction → Prop
  | .editPendingInput _ _ _ changedId _ expectedRevision _
  | .deletePendingInput _ _ changedId _ expectedRevision
  | .promotePendingInput _ _ changedId _ expectedRevision =>
      changedId = inputId ∧ expectedRevision = revision
  | .reorderPendingInputs _ _ _ orderedInputIds expectedRevisions =>
      inputId ∈ orderedInputIds ∧ expectedRevisions.lookup inputId = some revision
  | _ => False

def Accepts (db : Database) (action : QueueAction) (inputId : Uuid) (revision : ℕ) : Prop :=
  ExpectsRevision inputId revision action ∧ ∃ after, performQueue db action = .ok after

/-- Nothing holds back a claim in a conversation. -/
structure Claimable (db : Database) (conversation : Conversation) : Prop where
  notPaused : conversation.queuePaused = false
  noneActive : ∀ run ∈ db.runs.rows, run.conversationId = conversation.id → run.isActive = false
  noneInterrupted : ∀ run ∈ db.runs.rows, run.conversationId = conversation.id →
    ¬ AwaitsResume db run
  allAcknowledged : ∀ run ∈ db.runs.rows, run.conversationId = conversation.id →
    run.cancelRequestedAt.isSome → run.cancellationAcknowledgedAt.isSome

structure FirstPending (db : Database) (input : ConversationRunInput) : Prop where
  member : input ∈ db.inputs.rows
  pending : input.status = .pending
  first : ∀ other ∈ db.inputs.rows, other.conversationId = input.conversationId →
    other.status = .pending → other.priority < input.priority ∨
      (other.priority = input.priority ∧ input.position ≤ other.position)

/-- The guarantees of the queue after a sequence of operations. -/
structure QueueSafety (conversations : Table Conversation.id) (actions : List QueueAction) :
    Prop where
  boundRun : ∀ input ∈ (queueAfter conversations actions).inputs.rows, ∀ runId,
    input.runId = some runId → ∃ run ∈ (queueAfter conversations actions).runs.rows,
      run.id = runId ∧ run.conversationId = input.conversationId
  boundOnce : ∀ first ∈ (queueAfter conversations actions).inputs.rows,
    ∀ second ∈ (queueAfter conversations actions).inputs.rows, ∀ runId,
      first.runId = some runId → second.runId = some runId → first = second
  leavesPending : ∀ action, ∀ input ∈ (queueAfter conversations actions).inputs.rows,
    input.status = .pending →
      ∀ later ∈ (queueAfter conversations (actions ++ [action])).inputs.rows,
        later.id = input.id → later.status ≠ .pending →
          (∃ claimed, claimOf (queueAfter conversations actions) action = some claimed ∧
            claimed.input = later) ∨
          (∃ env conversationId context expectedRevision,
            action = .deletePendingInput env conversationId input.id context expectedRevision ∧
              later.status = .canceled)
  leftForGood : ∀ input ∈ (queueAfter conversations actions).inputs.rows,
    input.status ≠ .pending → ∀ further,
      ∀ later ∈ (queueAfter conversations (actions ++ further)).inputs.rows,
        later.id = input.id → later.status ≠ .pending
  claims : ∀ action claimed, claimOf (queueAfter conversations actions) action = some claimed →
    ∃ conversation ∈ (queueAfter conversations actions).conversations.rows,
      Claimable (queueAfter conversations actions) conversation ∧
      ∃ queued, FirstPending (queueAfter conversations actions) queued ∧
        queued.id = claimed.input.id ∧ queued.conversationId = conversation.id ∧
        claimed.input ∈ (queueAfter conversations (actions ++ [action])).inputs.rows ∧
        claimed.input.status = .claimed ∧ claimed.input.runId = some claimed.run.id ∧
        ∀ run ∈ (queueAfter conversations actions).runs.rows, run.id ≠ claimed.run.id
  revisionRises : ∀ action, ∀ input ∈ (queueAfter conversations actions).inputs.rows,
    ∀ later ∈ (queueAfter conversations (actions ++ [action])).inputs.rows,
      later.id = input.id → later = input ∨ input.revision < later.revision
  acceptedRises : ∀ action inputId revision,
    Accepts (queueAfter conversations actions) action inputId revision →
      ∃ later ∈ (queueAfter conversations (actions ++ [action])).inputs.rows,
        later.id = inputId ∧ revision < later.revision
  acceptedOnce : ∀ first between second inputId revision,
    Accepts (queueAfter conversations actions) first inputId revision →
      ¬ Accepts (queueAfter conversations (actions ++ first :: between)) second inputId revision

section

variable {db after : Database} {action : QueueAction}

variable {input : ConversationRunInput}

/-- What every move of an input respects holds between an input and what a
sequence of operations has made of it. -/
theorem run_exists_of_mem (related : ConversationRunInput → ConversationRunInput → Prop)
    (reflexive : ∀ input, related input input)
    (transitive : ∀ first second third, related first second → related second third →
      related first third)
    (moves : ∀ runs inputs old new, InputMove runs inputs old new → related old new)
    (orderly : OrderlyQueue db) (actions : List QueueAction) (member : input ∈ db.inputs.rows) :
    ∃ later ∈ (StepRuns.run stepQueue db actions).inputs.rows,
      later.id = input.id ∧ related input later := by
  induction actions generalizing db input with
  | nil => exact ⟨input, member, rfl, reflexive input⟩
  | cons action actions ih =>
      have writes := stepQueue_writes orderly action
      obtain ⟨middle, middleMember, middleId, toMiddle⟩ :=
        Writes.exists_of_mem related reflexive transitive
          (fun _ _ _ move => moves _ _ _ _ move.1) writes.inputs member
      obtain ⟨later, laterMember, laterId, toLater⟩ :=
        ih (writes.orderly orderly) middleMember
      exact ⟨later, laterMember, laterId.trans middleId,
        transitive input middle later toMiddle toLater⟩

theorem InputMove.not_pending {runs : Table ConversationRun.id}
    {inputs : Table ConversationRunInput.id} {old new : ConversationRunInput}
    (move : InputMove runs inputs old new) (left : old.status ≠ .pending) :
    new.status ≠ .pending := by
  cases move with
  | edit pending | reorder pending | promote pending => exact absurd pending left
  | delete | claim | unbind => simp

variable {later : ConversationRunInput}

theorem QueueWrites.pending_or_leaves {leaves : Prop} (writes : QueueWrites leaves db after)
    (member : input ∈ db.inputs.rows) (pending : input.status = .pending)
    (laterMember : later ∈ after.inputs.rows) (sameId : later.id = input.id) :
    later.status = .pending ∨ leaves := by
  obtain ⟨reached, reachedMember, reachedId, kept⟩ :=
    Writes.exists_of_mem
      (fun first second : ConversationRunInput =>
        first.status = .pending → second.status = .pending ∨ leaves)
      (fun _ => Or.inl)
      (fun _ _ _ toSecond toThird pending => (toSecond pending).elim toThird Or.inr)
      (fun _ _ _ move => move.2) writes.inputs member
  obtain rfl := after.inputs.eq_of_key_eq laterMember reachedMember (sameId.trans reachedId.symm)
  exact kept pending

/-- Of a row saved over another, nothing but the saved row is new. -/
theorem eq_saved_of_ne {saved : ConversationRunInput} (member : input ∈ db.inputs.rows)
    (laterMember : later ∈ (db.inputs.save saved).rows) (sameId : later.id = input.id)
    (changed : later ≠ input) : later = saved := by
  rcases Table.mem_save.mp laterMember with ⟨rfl, _⟩ | ⟨untouched, _⟩
  · rfl
  · exact absurd (db.inputs.eq_of_key_eq untouched member sameId) changed

theorem claimOf_eq_some {claimed : ClaimedConversationInput}
    (isClaim : claimOf db action = some claimed) :
    ∃ env denial conversationId context commitsUnclaimed,
      action = .claimNextInput env denial conversationId context commitsUnclaimed ∧
        claimNextInput env denial conversationId context db =
          .ok (stepQueue db action, some claimed) := by
  cases action with
  | claimNextInput env denial conversationId context commitsUnclaimed =>
      refine ⟨env, denial, conversationId, context, commitsUnclaimed, rfl, ?_⟩
      rw [claimOf] at isClaim
      split at isClaim
      case h_2 => cases isClaim
      case h_1 after result resultEq =>
          subst isClaim
          simp [stepQueue, performQueue, resultEq, commitClaim, bind, Except.bind, pure,
            Except.pure]
  | _ => cases isClaim

theorem stepQueue_leavesPending (orderly : OrderlyQueue db) (member : input ∈ db.inputs.rows)
    (pending : input.status = .pending) (laterMember : later ∈ (stepQueue db action).inputs.rows)
    (sameId : later.id = input.id) (left : later.status ≠ .pending) :
    (∃ claimed, claimOf db action = some claimed ∧ claimed.input = later) ∨
      (∃ env conversationId context expectedRevision,
        action = .deletePendingInput env conversationId input.id context expectedRevision ∧
          later.status = .canceled) := by
  have changed : later ≠ input := by
    rintro rfl
    exact left pending
  rcases (stepQueue_writes orderly action).pending_or_leaves member pending laterMember sameId
    with stillPending | leaves
  · exact absurd stillPending left
  · rw [stepQueue] at laterMember
    split at laterMember
    case h_2 =>
        exact absurd (db.inputs.eq_of_key_eq laterMember member sameId) changed
    case h_1 after succeeded =>
    cases action with
    | deletePendingInput env conversationId inputId context expectedRevision =>
        obtain ⟨queued, _, rfl, _, _, rfl⟩ := deletePendingInput_eq_ok succeeded
        obtain rfl := eq_saved_of_ne member laterMember sameId changed
        refine Or.inr ⟨env, conversationId, context, expectedRevision, ?_, rfl⟩
        rw [← sameId]
    | claimNextInput env denial conversationId context commitsUnclaimed =>
        simp only [performQueue, bind_eq_ok] at succeeded
        obtain ⟨⟨claimedDb, claimed⟩, claimEq, returned⟩ := succeeded
        obtain rfl := Except.ok.inj returned
        cases claimed with
        | none =>
            have unchanged : QueueWrites False db (commitClaim db commitsUnclaimed
                (claimedDb, none)) := by
              rw [commitClaim]
              split
              · exact claimNextInput_eq_none claimEq
              · exact queueWrites_refl _ _
            rcases unchanged.pending_or_leaves member pending laterMember sameId with
              stillPending | impossible
            · exact absurd stillPending left
            · exact impossible.elim
        | some claimed =>
            obtain ⟨_, _, queued, _, _, _, _, _, _, boundEq⟩ := claimNextInput_eq_some claimEq
            obtain ⟨runs, _, _, _, _, _, rfl⟩ := bindInput_eq_ok boundEq
            obtain rfl := eq_saved_of_ne member laterMember sameId changed
            exact Or.inl ⟨claimed, by simp [claimOf, claimEq], rfl⟩
    | _ => exact leaves.elim

variable {context : OrgContext} {conversation : Conversation}

theorem private_of_owned (member : conversation ∈ db.conversations.rows)
    (inScope : PrivateScope context conversation) {run : ConversationRun}
    (inConversation : run.conversationId = conversation.id)
    (owned : OwnedByConversation db.conversations run.conversationId run.userId) :
    PrivateRun db context run ∧ OwnedRun context run := by
  obtain ⟨owner, ownerMember, sameId, sameUser⟩ := owned
  obtain rfl := db.conversations.eq_of_key_eq ownerMember member (sameId.trans inConversation)
  exact ⟨⟨owner, member, sameId, sameUser, inScope⟩, sameUser.symm.trans inScope.1⟩

theorem getActiveRun_eq_none {env : Environment} {conversationId : Uuid}
    (notFound : getActiveRun env db conversationId context = .ok none) {run : ConversationRun}
    (member : run ∈ db.runs.rows) (inConversation : run.conversationId = conversationId)
    (isPrivate : PrivateRun db context run) : run.isActive = false := by
  simp only [getActiveRun, bind_eq_ok, scalarOneOrNone_eq_ok] at notFound
  obtain ⟨_, _, empty⟩ := notFound
  have absent := List.filter_eq_nil_iff.mp empty run member
  simpa [inConversation, isPrivate] using absent

theorem claimable_of_checks (orderly : OrderlyQueue db) {env : Environment} {conversationId : Uuid}
    (locked : lockOwnedConversation db conversationId context = .ok conversation)
    (notPaused : conversation.queuePaused = false)
    (noneActive : getActiveRun env db conversationId context = .ok none)
    (acknowledged : ¬ UnacknowledgedPredecessor db conversationId context)
    (noneInterrupted : latestInterruptedRun db conversationId context = none) :
    Claimable db conversation := by
  obtain ⟨member, rfl, inScope⟩ := lockOwnedConversation_eq_ok locked
  have scope : ∀ run ∈ db.runs.rows, run.conversationId = conversation.id →
      PrivateRun db context run ∧ OwnedRun context run := fun run runMember inConversation =>
    private_of_owned member inScope inConversation (orderly.runOwned run runMember)
  refine ⟨notPaused, ?_, ?_, ?_⟩
  · intro run runMember inConversation
    exact getActiveRun_eq_none noneActive runMember inConversation
      (scope run runMember inConversation).1
  · intro run runMember inConversation
    exact latestInterruptedRun_eq_none noneInterrupted runMember inConversation
      (scope run runMember inConversation).1
  · intro run runMember inConversation requested
    by_contra unacknowledged
    exact acknowledged ⟨run, runMember, inConversation, (scope run runMember inConversation).2,
      requested, Option.not_isSome_iff_eq_none.mp unacknowledged⟩

theorem firstPending_of_next (orderly : OrderlyQueue db) {conversationId : Uuid}
    (locked : lockOwnedConversation db conversationId context = .ok conversation)
    {queued : ConversationRunInput}
    (found : nextPendingInput db conversationId context = some queued) :
    FirstPending db queued := by
  obtain ⟨member, inConversation, _, pending⟩ := nextPendingInput_eq_some found
  refine ⟨member, pending, fun other otherMember otherConversation otherPending => ?_⟩
  obtain ⟨conversationMember, sameId, inScope⟩ := lockOwnedConversation_eq_ok locked
  obtain ⟨owner, ownerMember, ownerId, ownerUser⟩ := orderly.inputOwned other otherMember
  have sameConversation : other.conversationId = conversationId :=
    otherConversation.trans inConversation
  obtain rfl := db.conversations.eq_of_key_eq ownerMember conversationMember
    (ownerId.trans (sameConversation.trans sameId.symm))
  have listed : other ∈ pendingInputs db conversationId context :=
    mem_pendingInputs.mpr
      ⟨otherMember, sameConversation, ownerUser.symm.trans inScope.1, otherPending⟩
  have before : QueuedBefore queued other := before_of_firstInOrder QueuedBefore found listed
  unfold QueuedBefore at before
  omega

theorem claim_sound (orderly : OrderlyQueue db) {claimed : ClaimedConversationInput}
    (isClaim : claimOf db action = some claimed) :
    ∃ conversation ∈ db.conversations.rows, Claimable db conversation ∧
      ∃ queued, FirstPending db queued ∧ queued.id = claimed.input.id ∧
        queued.conversationId = conversation.id ∧
        claimed.input ∈ (stepQueue db action).inputs.rows ∧
        claimed.input.status = .claimed ∧ claimed.input.runId = some claimed.run.id ∧
        ∀ run ∈ db.runs.rows, run.id ≠ claimed.run.id := by
  obtain ⟨env, denial, conversationId, context, _, rfl, claimEq⟩ := claimOf_eq_some isClaim
  obtain ⟨agentId, conversation, queued, locked, notPaused, noneActive, acknowledged,
    noneInterrupted, found, boundEq⟩ := claimNextInput_eq_some claimEq
  obtain ⟨runs, _, _, _, fresh, inputEq, afterEq⟩ := bindInput_eq_ok boundEq
  obtain ⟨member, sameId, _⟩ := lockOwnedConversation_eq_ok locked
  obtain ⟨queuedMember, inConversation, _, _⟩ := nextPendingInput_eq_some found
  have inputId : queued.id = claimed.input.id := by rw [inputEq]
  refine ⟨conversation, member,
    claimable_of_checks orderly locked notPaused noneActive acknowledged noneInterrupted, queued,
    firstPending_of_next orderly locked found, inputId, inConversation.trans sameId.symm, ?_, ?_,
    ?_, fresh⟩
  · rw [afterEq]
    exact Table.mem_save.mpr (Or.inl ⟨rfl, queued, queuedMember, inputId⟩)
  · rw [inputEq]
  · rw [inputEq]

theorem stepQueue_of_ok {action : QueueAction}
    (succeeded : performQueue db action = .ok after) : stepQueue db action = after := by
  rw [stepQueue, succeeded]

theorem accepts_raises {inputId : Uuid} {revision : ℕ}
    (accepted : Accepts db action inputId revision) :
    (∃ input ∈ db.inputs.rows, input.id = inputId ∧ input.revision = revision) ∧
      ∃ later ∈ (stepQueue db action).inputs.rows, later.id = inputId ∧
        revision < later.revision := by
  obtain ⟨expects, after, succeeded⟩ := accepted
  rw [stepQueue_of_ok succeeded]
  cases action with
  | editPendingInput env encodedSize conversationId changedId context expectedRevision
      inputPayload =>
      obtain ⟨rfl, rfl⟩ := expects
      obtain ⟨queued, member, rfl, _, rfl, rfl⟩ := editPendingInput_eq_ok succeeded
      exact ⟨⟨queued, member, rfl, rfl⟩,
        ⟨_, Table.mem_save.mpr (Or.inl ⟨rfl, queued, member, rfl⟩), rfl, Nat.lt_succ_self _⟩⟩
  | deletePendingInput env conversationId changedId context expectedRevision =>
      obtain ⟨rfl, rfl⟩ := expects
      obtain ⟨queued, member, rfl, _, rfl, rfl⟩ := deletePendingInput_eq_ok succeeded
      exact ⟨⟨queued, member, rfl, rfl⟩,
        ⟨_, Table.mem_save.mpr (Or.inl ⟨rfl, queued, member, rfl⟩), rfl, Nat.lt_succ_self _⟩⟩
  | promotePendingInput env conversationId changedId context expectedRevision =>
      obtain ⟨rfl, rfl⟩ := expects
      obtain ⟨queued, member, rfl, _, rfl, _, _, inputs⟩ := promotePendingInput_eq_ok succeeded
      rw [inputs]
      exact ⟨⟨queued, member, rfl, rfl⟩,
        ⟨_, Table.mem_save.mpr (Or.inl ⟨rfl, queued, member, rfl⟩), rfl, Nat.lt_succ_self _⟩⟩
  | reorderPendingInputs env conversationId context orderedInputIds expectedRevisions =>
      obtain ⟨listed, expected⟩ := expects
      obtain ⟨_, _, _, found⟩ := reorderPendingInputs_eq_ok succeeded
      obtain ⟨input, member, sameId, current, later, laterMember, laterId, raised⟩ :=
        found inputId listed
      obtain rfl := Option.some.inj (expected.symm.trans current)
      exact ⟨⟨input, member, sameId, rfl⟩, ⟨later, laterMember, laterId, raised⟩⟩
  | _ => exact expects.elim

theorem InputMove.revision_rises {runs : Table ConversationRun.id}
    {inputs : Table ConversationRunInput.id} {old new : ConversationRunInput}
    (move : InputMove runs inputs old new) : new = old ∨ old.revision < new.revision := by
  right
  rw [move.revision_eq]
  omega

/-- A row that is not the row it was has a higher revision. -/
theorem rises_trans {first second third : ConversationRunInput}
    (toSecond : second = first ∨ first.revision < second.revision)
    (toThird : third = second ∨ second.revision < third.revision) :
    third = first ∨ first.revision < third.revision := by
  rcases toSecond with rfl | toSecond
  · exact toThird
  · rcases toThird with rfl | toThird
    · exact Or.inr toSecond
    · exact Or.inr (toSecond.trans toThird)

end

section

variable (conversations : Table Conversation.id) (actions : List QueueAction)

theorem queueAfter_append (further : List QueueAction) :
    queueAfter conversations (actions ++ further) =
      StepRuns.run stepQueue (queueAfter conversations actions) further :=
  StepRuns.run_append _ _ _ _

/-- However the operations interleave, and whichever of them raise, the queue
keeps its guarantees. -/
theorem queueSafety : QueueSafety conversations actions where
  boundRun input member := (queueAfter_orderly conversations actions).bound input member
  boundOnce first firstMember second secondMember runId firstBound secondBound :=
    (queueAfter_orderly conversations actions).oneInput first firstMember second secondMember
      (Option.isSome_iff_exists.mpr ⟨runId, firstBound⟩)
      (Option.isSome_iff_exists.mpr ⟨runId, secondBound⟩) (firstBound.trans secondBound.symm)
  leavesPending action input member pending later laterMember sameId left := by
    rw [queueAfter_append] at laterMember
    exact stepQueue_leavesPending (queueAfter_orderly conversations actions) member pending
      laterMember sameId left
  leftForGood input member left further later laterMember sameId := by
    rw [queueAfter_append] at laterMember
    obtain ⟨reached, reachedMember, reachedId, stays⟩ :=
      run_exists_of_mem (fun first second => first.status ≠ .pending → second.status ≠ .pending)
        (fun _ => id) (fun _ _ _ toSecond toThird => toThird ∘ toSecond)
        (fun _ _ _ _ move => move.not_pending) (queueAfter_orderly conversations actions) further
        member
    obtain rfl := Table.eq_of_key_eq _ laterMember reachedMember (sameId.trans reachedId.symm)
    exact stays left
  claims action claimed isClaim := by
    rw [queueAfter_append]
    exact claim_sound (queueAfter_orderly conversations actions) isClaim
  revisionRises action input member later laterMember sameId := by
    rw [queueAfter_append] at laterMember
    obtain ⟨reached, reachedMember, reachedId, rises⟩ :=
      run_exists_of_mem (fun first second => second = first ∨ first.revision < second.revision)
        (fun _ => Or.inl rfl) (fun _ _ _ => rises_trans)
        (fun _ _ _ _ move => move.revision_rises) (queueAfter_orderly conversations actions)
        [action] member
    obtain rfl := Table.eq_of_key_eq _ laterMember reachedMember (sameId.trans reachedId.symm)
    exact rises
  acceptedRises action inputId revision accepted := by
    rw [queueAfter_append]
    exact (accepts_raises accepted).2
  acceptedOnce first between second inputId revision firstAccepted secondAccepted := by
    obtain ⟨raised, raisedMember, raisedId, higher⟩ := (accepts_raises firstAccepted).2
    obtain ⟨current, currentMember, currentId, sameRevision⟩ := (accepts_raises secondAccepted).1
    rw [queueAfter_append, StepRuns.run_cons] at currentMember
    have orderly := (stepQueue_writes (queueAfter_orderly conversations actions) first).orderly
      (queueAfter_orderly conversations actions)
    obtain ⟨reached, reachedMember, reachedId, notLower⟩ :=
      run_exists_of_mem (fun first second => first.revision ≤ second.revision) (fun _ => le_rfl)
        (fun _ _ _ => le_trans)
        (fun _ _ _ _ move => by
          rw [move.revision_eq]
          omega)
        orderly between raisedMember
    obtain rfl := Table.eq_of_key_eq _ reachedMember currentMember
      (reachedId.trans (raisedId.trans currentId.symm))
    omega

end

end NaturalMold.Conversations

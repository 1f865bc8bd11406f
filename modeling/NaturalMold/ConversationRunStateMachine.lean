import NaturalMold.ConversationRunInvariants

/-! # What every sequence of run operations guarantees -/

namespace NaturalMold.Conversations

open KeyedTables Fallible

/-- The run rows after a sequence of operations. -/
def runsAfter (conversations : Table Conversation.id) (actions : List RunAction) :
    List ConversationRun :=
  (StepRuns.run stepRun (Database.ofConversations conversations) actions).runs.rows

/-- A transition that acknowledges the cancellation of a run: to a terminal
status, after the request, by the worker that owns the run or by a caller that
may do without one. -/
def Acknowledges (run : ConversationRun) (status : RunStatus) (transition : Transition) : Prop :=
  status ∈ runTerminalStatuses ∧ run.cancelRequestedAt.isSome ∧
    (OwnerAck run transition ∨ WorkerlessAck run transition)

structure RunStateMachine (conversations : Table Conversation.id) (actions : List RunAction) :
    Prop where
  isActive_iff : ∀ run ∈ runsAfter conversations actions,
    run.isActive = true ↔ run.status ∈ [.queued, .running, .canceling]
  completedAt_iff : ∀ run ∈ runsAfter conversations actions,
    run.completedAt.isSome ↔ run.status ∈ runTerminalStatuses
  terminal_frozen : ∀ run ∈ runsAfter conversations actions, run.status ∈ runTerminalStatuses →
    ∀ later, (∃ future ∈ runsAfter conversations (actions ++ later), future.id = run.id) ∧
      ∀ future ∈ runsAfter conversations (actions ++ later), future.id = run.id →
        future.status = run.status
  acknowledged : ∀ run ∈ runsAfter conversations actions, run.cancellationAcknowledgedAt.isSome →
    run.cancelRequestedAt.isSome ∧ run.status ∈ runTerminalStatuses
  acknowledged_by : ∀ action, ∀ run ∈ runsAfter conversations (actions ++ [action]),
    run.cancellationAcknowledgedAt.isSome →
      ∃ past ∈ runsAfter conversations actions, past.id = run.id ∧
        (past.cancellationAcknowledgedAt = run.cancellationAcknowledgedAt ∨
          ∃ now status transition, action = .transitionRun now past.id status transition ∧
            status ∈ runTerminalStatuses ∧ past.cancelRequestedAt.isSome ∧
            (OwnerAck past transition ∨ WorkerlessAck past transition ∧
              ∀ earlier, earlier <+: actions → ∀ before ∈ runsAfter conversations earlier,
                before.id = past.id → before.workerInstanceId = none))
  oneActive : ∀ first ∈ runsAfter conversations actions,
    ∀ second ∈ runsAfter conversations actions, first.isActive = true → second.isActive = true →
      first.conversationId = second.conversationId → first = second
  oneResume : ∀ parent ∈ runsAfter conversations actions,
    ∀ first ∈ runsAfter conversations actions, ∀ second ∈ runsAfter conversations actions,
      first.source = .resume → second.source = .resume →
        first.parentRunId = some parent.id → second.parentRunId = some parent.id → first = second

theorem RunMove.acknowledgedAt_eq {old new : ConversationRun} (move : RunMove old new)
    (terminal : old.status ∈ runTerminalStatuses) :
    new.cancellationAcknowledgedAt = old.cancellationAcknowledgedAt := by
  cases move with
  | transition now status transition allowed =>
      exact absurd terminal (not_terminal_of_allowed allowed)
  | requestCancel now reason allowed => exact absurd terminal (not_terminal_of_allowed allowed)
  | heartbeat | adoptPolicy | keep => rfl

theorem createRunFromLockedProof_acknowledged {env : Environment} {proof : ExecutionProof}
    {request : RunRequest} {db after : Database} {created : ConversationRun}
    (succeeded : createRunFromLockedProof env proof request db = .ok (after, created))
    {run : ConversationRun} (member : run ∈ after.runs.rows)
    (acknowledged : run.cancellationAcknowledgedAt.isSome) :
    ∃ past ∈ db.runs.rows, past.id = run.id ∧
      past.cancellationAcknowledgedAt = run.cancellationAcknowledgedAt := by
  obtain ⟨runtimePolicy, resumable, rfl, _, _, _, resumableEq, insertEq⟩ :=
    createRunFromLockedProof_eq_ok succeeded
  rw [(Table.insert?_eq_some (insertRun_eq_ok insertEq).1).1, List.mem_append,
    List.mem_singleton] at member
  rcases member with older | rfl
  · rw [requireResumable] at resumableEq
    split at resumableEq
    case isFalse =>
        obtain rfl := Except.ok.inj resumableEq
        exact ⟨run, older, rfl, rfl⟩
    case isTrue =>
    rcases requireInterruptedParent_eq_ok resumableEq with
      ⟨_, rfl⟩ | ⟨latest, parent, found, _, move, rfl⟩
    · exact ⟨run, older, rfl, rfl⟩
    · obtain ⟨latestMember, _, _, interrupted, _⟩ := latestInterruptedRun_eq_some found
      rcases Table.mem_save.mp older with ⟨rfl, _⟩ | ⟨untouched, _⟩
      · refine ⟨latest, latestMember, move.id_eq.symm, ?_⟩
        exact (move.acknowledgedAt_eq (by rw [interrupted]; decide)).symm
      · exact ⟨run, untouched, rfl, rfl⟩
  · simp [newRun] at acknowledged

theorem requestCancelRun_acknowledged {now : Time} {run moved : ConversationRun} {reason : String}
    (succeeded : requestCancelRun now run reason = .ok moved) :
    moved.cancellationAcknowledgedAt = run.cancellationAcknowledgedAt := by
  rw [requestCancelRun] at succeeded
  split at succeeded
  · obtain rfl := Except.ok.inj succeeded
    rfl
  · split at succeeded
    · cases succeeded
    · obtain ⟨_, rfl⟩ := transitionRun_eq_ok succeeded
      rfl

theorem mem_updateRun {runId : Uuid} {update : ConversationRun → Except Raised ConversationRun}
    {db after : Database} (sameId : ∀ run moved, update run = .ok moved → moved.id = run.id)
    (succeeded : updateRun runId update db = .ok after) {run : ConversationRun}
    (member : run ∈ after.runs.rows) :
    run ∈ db.runs.rows ∨
      ∃ past ∈ db.runs.rows, past.id = runId ∧ past.id = run.id ∧ update past = .ok run := by
  rw [updateRun] at succeeded
  split at succeeded
  case h_1 =>
      obtain rfl := Except.ok.inj succeeded
      exact Or.inl member
  case h_2 past found =>
  simp only [bind_eq_ok] at succeeded
  obtain ⟨moved, updated, returned⟩ := succeeded
  obtain rfl := Except.ok.inj returned
  rcases Table.mem_save.mp member with ⟨rfl, _⟩ | ⟨untouched, _⟩
  · obtain ⟨pastMember, pastId⟩ := Table.get?_eq_some_iff.mp found
    exact Or.inr ⟨past, pastMember, pastId, (sameId past run updated).symm, updated⟩
  · exact Or.inl untouched

theorem stepRun_acknowledged {db : Database} {action : RunAction} {run : ConversationRun}
    (member : run ∈ (stepRun db action).runs.rows)
    (acknowledged : run.cancellationAcknowledgedAt.isSome) :
    ∃ past ∈ db.runs.rows, past.id = run.id ∧
      (past.cancellationAcknowledgedAt = run.cancellationAcknowledgedAt ∨
        ∃ now status transition, action = .transitionRun now past.id status transition ∧
          Acknowledges past status transition) := by
  rw [stepRun] at member
  split at member
  case h_2 => exact ⟨run, member, rfl, Or.inl rfl⟩
  case h_1 after succeeded =>
  cases action with
  | createRun env live request =>
      simp only [performRun, bind_eq_ok] at succeeded
      obtain ⟨⟨created, newRow⟩, createdEq, returned⟩ := succeeded
      obtain rfl := Except.ok.inj returned
      obtain ⟨proof, lockedEq, _⟩ := createRun_eq_ok createdEq
      obtain ⟨past, pastMember, sameId, same⟩ :=
        createRunFromLockedProof_acknowledged lockedEq member acknowledged
      exact ⟨past, pastMember, sameId, Or.inl same⟩
  | transitionRun now runId status transition =>
      rcases mem_updateRun (fun _ _ moved => (transitionRun_move moved).id_eq) succeeded member
        with untouched | ⟨past, pastMember, rfl, sameId, moved⟩
      · exact ⟨run, untouched, rfl, Or.inl rfl⟩
      · obtain ⟨_, rfl⟩ := transitionRun_eq_ok moved
        refine ⟨past, pastMember, sameId, ?_⟩
        by_cases acknowledging : Acknowledges past status transition
        · exact Or.inr ⟨now, status, transition, rfl, acknowledging⟩
        · rw [transitioned_cancellationAcknowledgedAt]
          exact Or.inl (if_neg acknowledging).symm
  | requestCancelRun now runId reason =>
      rcases mem_updateRun (fun _ _ moved => (requestCancelRun_move moved).id_eq) succeeded
        member with untouched | ⟨past, pastMember, _, sameId, moved⟩
      · exact ⟨run, untouched, rfl, Or.inl rfl⟩
      · exact ⟨past, pastMember, sameId, Or.inl (requestCancelRun_acknowledged moved).symm⟩
  | heartbeatRun now runId =>
      obtain rfl := Except.ok.inj succeeded
      rw [heartbeatRun] at member
      split at member
      case h_1 => exact ⟨run, member, rfl, Or.inl rfl⟩
      case h_2 past found =>
      split at member
      · exact ⟨run, member, rfl, Or.inl rfl⟩
      · rcases Table.mem_save.mp member with ⟨rfl, _⟩ | ⟨untouched, _⟩
        · exact ⟨past, (Table.get?_eq_some_iff.mp found).1, rfl, Or.inl rfl⟩
        · exact ⟨run, untouched, rfl, Or.inl rfl⟩

section

variable (conversations : Table Conversation.id) (actions : List RunAction)

theorem runsAfter_orderly :
    OrderlyRuns (StepRuns.run stepRun (Database.ofConversations conversations) actions).runs :=
  (runWrites_run _ actions).2.orderly orderlyRuns_empty

theorem runWrites_append (later : List RunAction) :
    RunWrites conversations
      (StepRuns.run stepRun (Database.ofConversations conversations) actions).runs
      (StepRuns.run stepRun (Database.ofConversations conversations) (actions ++ later)).runs := by
  obtain ⟨sameConversations, _⟩ :=
    runWrites_run (Database.ofConversations conversations) actions
  have writes := (runWrites_run
    (StepRuns.run stepRun (Database.ofConversations conversations) actions) later).2
  rw [sameConversations] at writes
  rw [StepRuns.run_append]
  exact writes

theorem never_owned {run : ConversationRun} (member : run ∈ runsAfter conversations actions)
    (workerless : run.workerInstanceId = none) {earlier : List RunAction}
    (isPrefix : earlier <+: actions) {before : ConversationRun}
    (beforeMember : before ∈ runsAfter conversations earlier) (sameId : before.id = run.id) :
    before.workerInstanceId = none := by
  by_contra owned
  obtain ⟨later, rfl⟩ := isPrefix
  obtain ⟨reached, reachedMember, reachedId, reachedOwned⟩ :=
    (runWrites_append conversations earlier later).exists_owned beforeMember
      (Option.isSome_iff_ne_none.mpr owned)
  have equal : reached = run :=
    Table.eq_of_key_eq _ reachedMember member (reachedId.trans sameId)
  rw [equal, workerless] at reachedOwned
  cases reachedOwned

/-- Whatever operations are made in whatever order, and whichever of them
raise, the run table keeps the guarantees of the state machine. -/
theorem runStateMachine : RunStateMachine conversations actions where
  isActive_iff run member :=
    ((runsAfter_orderly conversations actions).consistent run member).isActive_iff
  completedAt_iff run member :=
    ((runsAfter_orderly conversations actions).consistent run member).completedAt_iff
  terminal_frozen run member terminal later := by
    obtain ⟨future, futureMember, sameId, sameStatus⟩ :=
      (runWrites_append conversations actions later).terminal_frozen member terminal
    refine ⟨⟨future, futureMember, sameId⟩, fun other otherMember otherId => ?_⟩
    have equal : other = future :=
      Table.eq_of_key_eq _ otherMember futureMember (otherId.trans sameId.symm)
    rw [equal, sameStatus]
  acknowledged run member :=
    ((runsAfter_orderly conversations actions).consistent run member).acknowledged
  acknowledged_by action run member acknowledged := by
    rw [runsAfter, StepRuns.run_append, StepRuns.run_cons, StepRuns.run_nil] at member
    obtain ⟨past, pastMember, sameId, kept | ⟨now, status, transition, rfl, terminal, requested,
      acknowledging⟩⟩ := stepRun_acknowledged member acknowledged
    · exact ⟨past, pastMember, sameId, Or.inl kept⟩
    · refine ⟨past, pastMember, sameId, Or.inr ⟨now, status, transition, rfl, terminal, requested,
        acknowledging.imp_right fun workerless => ⟨workerless, ?_⟩⟩⟩
      intro earlier isPrefix before beforeMember beforeId
      exact never_owned conversations actions pastMember workerless.2 isPrefix beforeMember beforeId
  oneActive := (runsAfter_orderly conversations actions).oneActive
  oneResume parent _ first firstMember second secondMember firstResume secondResume firstParent
      secondParent :=
    (runsAfter_orderly conversations actions).oneResume first firstMember second secondMember
      ⟨firstResume, by rw [firstParent]; rfl⟩ ⟨secondResume, by rw [secondParent]; rfl⟩
      (firstParent.trans secondParent.symm)

end

end NaturalMold.Conversations

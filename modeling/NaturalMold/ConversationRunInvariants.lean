import NaturalMold.ConversationRuns

/-! # The run state machine -/

namespace NaturalMold.Conversations

open KeyedTables Fallible

section

variable {run : ConversationRun} {status : RunStatus}

theorem ne_queued_of_allowed (allowed : status ∈ allowedTransitions run.status) :
    status ≠ .queued := by
  rintro rfl
  revert allowed
  cases run.status <;> decide

theorem not_terminal_of_allowed (allowed : status ∈ allowedTransitions run.status) :
    run.status ∉ runTerminalStatuses := by
  revert allowed
  cases run.status <;> simp [allowedTransitions, runTerminalStatuses]

variable (now : Time) (run status) (transition : Transition)

@[simp]
theorem transitioned_id : (transitioned now run status transition).id = run.id := by
  cases status <;> rfl

@[simp]
theorem transitioned_conversationId :
    (transitioned now run status transition).conversationId = run.conversationId := by
  cases status <;> rfl

@[simp]
theorem transitioned_userId : (transitioned now run status transition).userId = run.userId := by
  cases status <;> rfl

@[simp]
theorem transitioned_parentRunId :
    (transitioned now run status transition).parentRunId = run.parentRunId := by
  cases status <;> rfl

@[simp]
theorem transitioned_source : (transitioned now run status transition).source = run.source := by
  cases status <;> rfl

@[simp]
theorem transitioned_status : (transitioned now run status transition).status = status := by
  cases status <;> rfl

theorem transitioned_isActive (different : status ≠ .queued) :
    (transitioned now run status transition).isActive = true ↔ status ∈ runActiveStatuses := by
  cases status <;> simp_all [transitioned, runActiveStatuses]

theorem transitioned_completedAt :
    (transitioned now run status transition).completedAt =
      if status ∈ runTerminalStatuses then run.completedAt.or (some now) else run.completedAt := by
  cases status <;> rfl

theorem transitioned_workerInstanceId :
    (transitioned now run status transition).workerInstanceId =
      if status = .running then (truthy transition.workerInstanceId).or run.workerInstanceId
      else run.workerInstanceId := by
  cases status <;> rfl

theorem transitioned_cancelRequestedAt :
    (transitioned now run status transition).cancelRequestedAt =
      if status = .canceling then run.cancelRequestedAt.or (some now)
      else run.cancelRequestedAt := by
  cases status <;> rfl

theorem transitioned_cancellationAcknowledgedAt :
    (transitioned now run status transition).cancellationAcknowledgedAt =
      if status ∈ runTerminalStatuses ∧ run.cancelRequestedAt.isSome ∧
          (OwnerAck run transition ∨ WorkerlessAck run transition)
      then run.cancellationAcknowledgedAt.or (some now)
      else run.cancellationAcknowledgedAt := by
  cases status <;> simp [transitioned, runTerminalStatuses]

end

/-- What an operation can make of a row. -/
inductive RunMove : ConversationRun → ConversationRun → Prop
  | transition (run : ConversationRun) (now : Time) (status : RunStatus)
      (transition : Transition) (allowed : status ∈ allowedTransitions run.status) :
      RunMove run (transitioned now run status transition)
  | requestCancel (run : ConversationRun) (now : Time) (reason : String)
      (allowed : .canceling ∈ allowedTransitions run.status) :
      RunMove run (transitioned now { run with cancelReason := some reason } .canceling {})
  | heartbeat (run : ConversationRun) (now : Time) :
      RunMove run { run with heartbeatAt := some now }
  | adoptPolicy (run : ConversationRun) (version : ℕ) (policyHash source : String) :
      RunMove run
        { run with
          runtimePolicyVersion := some version
          runtimePolicyHash := some policyHash
          runtimePolicySource := some source }
  | keep (run : ConversationRun) : RunMove run run

variable {run : ConversationRun}

theorem transitionRun_eq_ok {now : Time} {moved : ConversationRun} {status : RunStatus}
    {transition : Transition} (succeeded : transitionRun now run status transition = .ok moved) :
    status ∈ allowedTransitions run.status ∧ moved = transitioned now run status transition := by
  simp only [transitionRun, bind_eq_ok, ensure_eq_ok] at succeeded
  obtain ⟨_, allowed, _, _, returned⟩ := succeeded
  exact ⟨allowed, (Except.ok.inj returned).symm⟩

theorem transitionRun_move {now : Time} {moved : ConversationRun} {status : RunStatus}
    {transition : Transition} (succeeded : transitionRun now run status transition = .ok moved) :
    RunMove run moved := by
  obtain ⟨allowed, rfl⟩ := transitionRun_eq_ok succeeded
  exact .transition run now status transition allowed

theorem requestCancelRun_move {now : Time} {moved : ConversationRun} {reason : String}
    (succeeded : requestCancelRun now run reason = .ok moved) : RunMove run moved := by
  rw [requestCancelRun] at succeeded
  split at succeeded
  · obtain rfl := Except.ok.inj succeeded
    exact .keep run
  · split at succeeded
    · cases succeeded
    · obtain ⟨allowed, rfl⟩ := transitionRun_eq_ok succeeded
      exact .requestCancel run now reason allowed

theorem requireParentSnapshotMatch_move {parent matched : ConversationRun}
    {resolved : RuntimePolicy}
    (succeeded : requireParentSnapshotMatch parent resolved = .ok matched) :
    RunMove parent matched := by
  simp only [requireParentSnapshotMatch] at succeeded
  split at succeeded
  · obtain rfl := Except.ok.inj succeeded
    exact .adoptPolicy ..
  · split at succeeded
    · cases succeeded
    · obtain rfl := Except.ok.inj succeeded
      exact .keep _

namespace RunMove

variable {old new : ConversationRun}

theorem id_eq (move : RunMove old new) : new.id = old.id := by
  cases move <;> simp

theorem conversationId_eq (move : RunMove old new) : new.conversationId = old.conversationId := by
  cases move <;> simp

theorem userId_eq (move : RunMove old new) : new.userId = old.userId := by
  cases move <;> simp

theorem parentRunId_eq (move : RunMove old new) : new.parentRunId = old.parentRunId := by
  cases move <;> simp

theorem source_eq (move : RunMove old new) : new.source = old.source := by
  cases move <;> simp

theorem status_eq (move : RunMove old new) (terminal : old.status ∈ runTerminalStatuses) :
    new.status = old.status := by
  cases move with
  | transition now status transition allowed =>
      exact absurd terminal (not_terminal_of_allowed allowed)
  | requestCancel now reason allowed => exact absurd terminal (not_terminal_of_allowed allowed)
  | heartbeat | adoptPolicy | keep => rfl

theorem worker_isSome (move : RunMove old new) (owned : old.workerInstanceId.isSome) :
    new.workerInstanceId.isSome := by
  cases move with
  | transition now status transition allowed =>
      rw [transitioned_workerInstanceId]
      split <;> simp [owned]
  | requestCancel now reason allowed =>
      rw [transitioned_workerInstanceId, if_neg (by decide)]
      exact owned
  | heartbeat | adoptPolicy | keep => exact owned

end RunMove

/-- The flags and time stamps of a row agree with its status. -/
structure RunConsistent (run : ConversationRun) : Prop where
  isActive_iff : run.isActive = true ↔ run.status ∈ runActiveStatuses
  completedAt_iff : run.completedAt.isSome ↔ run.status ∈ runTerminalStatuses
  acknowledged : run.cancellationAcknowledgedAt.isSome →
    run.cancelRequestedAt.isSome ∧ run.status ∈ runTerminalStatuses

theorem transitioned_consistent {status : RunStatus} (consistent : RunConsistent run)
    (allowed : status ∈ allowedTransitions run.status) (now : Time) (transition : Transition) :
    RunConsistent (transitioned now run status transition) where
  isActive_iff := by
    rw [transitioned_status]
    exact transitioned_isActive run status now transition (ne_queued_of_allowed allowed)
  completedAt_iff := by
    have unfinished : ¬ run.completedAt.isSome := fun finished =>
      not_terminal_of_allowed allowed (consistent.completedAt_iff.mp finished)
    rw [transitioned_status, transitioned_completedAt]
    split <;> simp_all
  acknowledged := by
    intro acknowledged
    rw [transitioned_cancellationAcknowledgedAt] at acknowledged
    have unfinished := not_terminal_of_allowed allowed
    split at acknowledged
    case isTrue acknowledging =>
        rw [transitioned_status, transitioned_cancelRequestedAt]
        refine ⟨?_, acknowledging.1⟩
        split <;> simp [acknowledging.2.1]
    case isFalse => exact absurd (consistent.acknowledged acknowledged).2 unfinished

theorem RunMove.consistent {old new : ConversationRun} (move : RunMove old new)
    (consistent : RunConsistent old) : RunConsistent new := by
  cases move with
  | transition now status transition allowed =>
      exact transitioned_consistent consistent allowed now transition
  | requestCancel now reason allowed =>
      refine transitioned_consistent ?_ ?_ now {}
      · exact ⟨consistent.isActive_iff, consistent.completedAt_iff, consistent.acknowledged⟩
      · exact allowed
  | heartbeat | adoptPolicy | keep =>
      exact ⟨consistent.isActive_iff, consistent.completedAt_iff, consistent.acknowledged⟩

def OwnedByConversation (conversations : Table Conversation.id) (conversationId userId : Uuid) :
    Prop :=
  ∃ conversation ∈ conversations.rows, conversation.id = conversationId ∧
    conversation.userId = userId

structure FreshRun (conversations : Table Conversation.id) (runs : Table ConversationRun.id)
    (run : ConversationRun) : Prop where
  owned : OwnedByConversation conversations run.conversationId run.userId
  queued : run.status = .queued
  active : run.isActive = true
  workerless : run.workerInstanceId = none
  unfinished : run.completedAt = none
  notRequested : run.cancelRequestedAt = none
  unacknowledged : run.cancellationAcknowledgedAt = none
  noneActive : ∀ other ∈ runs.rows, other.isActive → other.conversationId ≠ run.conversationId
  resumes : run.source = .resume → ∀ parentRunId, run.parentRunId = some parentRunId →
    ∃ parent ∈ runs.rows, parent.id = parentRunId ∧ ResumeParent run parent ∧
      parent.status = .interrupted ∧
      ∀ child ∈ runs.rows, child.source = .resume → ¬ ResumeParent child parent

theorem FreshRun.consistent {conversations : Table Conversation.id}
    {runs : Table ConversationRun.id} (fresh : FreshRun conversations runs run) :
    RunConsistent run where
  isActive_iff := by simp [fresh.active, fresh.queued, runActiveStatuses]
  completedAt_iff := by simp [fresh.unfinished, fresh.queued, runTerminalStatuses]
  acknowledged := by simp [fresh.unacknowledged]

/-- Any number of writes to the run table. -/
abbrev RunWrites (conversations : Table Conversation.id) :
    Table ConversationRun.id → Table ConversationRun.id → Prop :=
  Writes (FreshRun conversations) fun _ => RunMove

structure OrderlyRuns (runs : Table ConversationRun.id) : Prop where
  consistent : ∀ run ∈ runs.rows, RunConsistent run
  oneActive : UniqueIndex (fun run : ConversationRun => run.isActive = true)
    ConversationRun.conversationId runs
  resumed : ∀ child ∈ runs.rows, child.source = .resume → ∀ parentRunId,
    child.parentRunId = some parentRunId →
      ∃ parent ∈ runs.rows, parent.id = parentRunId ∧ ResumeParent child parent ∧
        parent.status = .interrupted
  oneResume : UniqueIndex
    (fun run : ConversationRun => run.source = .resume ∧ run.parentRunId.isSome)
    ConversationRun.parentRunId runs

theorem orderlyRuns_empty : OrderlyRuns Table.empty where
  consistent := by simp [Table.empty]
  oneActive := by simp [UniqueIndex, Table.empty]
  resumed := by simp [Table.empty]
  oneResume := by simp [UniqueIndex, Table.empty]

section

variable {conversations : Table Conversation.id} {before after : Table ConversationRun.id}

/-- Runs stay in the table, and an interrupted one stays interrupted. -/
theorem RunWrites.exists_interrupted (writes : RunWrites conversations before after)
    {parent : ConversationRun}
    (member : parent ∈ before.rows) (interrupted : parent.status = .interrupted) :
    ∃ later ∈ after.rows, later.id = parent.id ∧ later.conversationId = parent.conversationId ∧
      later.userId = parent.userId ∧ later.status = .interrupted := by
  let related (first second : ConversationRun) : Prop :=
    second.conversationId = first.conversationId ∧ second.userId = first.userId ∧
      (first.status = .interrupted → second.status = .interrupted)
  have moves : ∀ old new, RunMove old new → related old new := by
    intro old new move
    refine ⟨move.conversationId_eq, move.userId_eq, fun oldInterrupted => ?_⟩
    rw [move.status_eq (by rw [oldInterrupted]; decide), oldInterrupted]
  obtain ⟨later, laterMember, sameId, sameConversation, sameUser, stays⟩ :=
    Writes.exists_of_mem related (fun _ => ⟨rfl, rfl, id⟩)
      (fun _ _ _ first second => ⟨second.1.trans first.1, second.2.1.trans first.2.1,
        second.2.2 ∘ first.2.2⟩)
      (fun _ => moves) writes member
  exact ⟨later, laterMember, sameId, sameConversation, sameUser, stays interrupted⟩

theorem runWrite_resumed (write : Write (FreshRun conversations) (fun _ => RunMove) before after)
    (orderly : OrderlyRuns before) :
    ∀ child ∈ after.rows, child.source = .resume → ∀ parentRunId,
      child.parentRunId = some parentRunId →
        ∃ parent ∈ after.rows, parent.id = parentRunId ∧ ResumeParent child parent ∧
          parent.status = .interrupted := by
  -- a parent found before the write is still there, under the same owner
  have kept : ∀ child parentRunId, (∃ parent ∈ before.rows, parent.id = parentRunId ∧
      ResumeParent child parent ∧ parent.status = .interrupted) →
        ∃ parent ∈ after.rows, parent.id = parentRunId ∧ ResumeParent child parent ∧
          parent.status = .interrupted := by
    rintro child parentRunId ⟨parent, member, rfl, resume, interrupted⟩
    obtain ⟨later, laterMember, sameId, sameConversation, sameUser, stays⟩ :=
      RunWrites.exists_interrupted (.single write) member interrupted
    refine ⟨later, laterMember, sameId, ?_, stays⟩
    rw [ResumeParent, sameId, sameConversation, sameUser]
    exact resume
  intro child member isResume parentRunId hasParent
  cases write with
  | insert fresh inserted =>
      apply kept
      rw [(Table.insert?_eq_some inserted).1, List.mem_append, List.mem_singleton] at member
      rcases member with older | rfl
      · exact orderly.resumed child older isResume parentRunId hasParent
      · obtain ⟨parent, parentMember, sameId, resume, interrupted, _⟩ :=
          fresh.resumes isResume parentRunId hasParent
        exact ⟨parent, parentMember, sameId, resume, interrupted⟩
  | @save old new oldMember same move =>
      apply kept
      rcases Table.mem_save.mp member with ⟨rfl, _⟩ | ⟨untouched, _⟩
      · rw [move.source_eq] at isResume
        rw [move.parentRunId_eq] at hasParent
        obtain ⟨parent, parentMember, sameId, resume, interrupted⟩ :=
          orderly.resumed old oldMember isResume parentRunId hasParent
        refine ⟨parent, parentMember, sameId, ?_, interrupted⟩
        rw [ResumeParent, move.parentRunId_eq, move.conversationId_eq, move.userId_eq]
        exact resume
      · exact orderly.resumed child untouched isResume parentRunId hasParent

theorem freshRun_resume_unique (orderly : OrderlyRuns before) {run other : ConversationRun}
    (fresh : FreshRun conversations before run) (isResume : run.source = .resume)
    (hasParent : run.parentRunId.isSome) (otherMember : other ∈ before.rows)
    (otherResume : other.source = .resume) : other.parentRunId ≠ run.parentRunId := by
  intro same
  obtain ⟨parentRunId, parentEq⟩ := Option.isSome_iff_exists.mp hasParent
  obtain ⟨parent, parentMember, parentId, _, _, alone⟩ :=
    fresh.resumes isResume parentRunId parentEq
  obtain ⟨otherParent, otherParentMember, otherParentId, otherResumes, _⟩ :=
    orderly.resumed other otherMember otherResume parentRunId (same.trans parentEq)
  obtain rfl := before.eq_of_key_eq otherParentMember parentMember
    (otherParentId.trans parentId.symm)
  exact alone other otherMember otherResume otherResumes

theorem RunMove.was_active {old new : ConversationRun} (move : RunMove old new)
    (consistent : RunConsistent old) (active : new.isActive = true) : old.isActive = true := by
  have nonterminal : old.status ∉ runTerminalStatuses := by
    intro terminal
    have newTerminal : new.status ∈ runTerminalStatuses := by
      rw [move.status_eq terminal]
      exact terminal
    exact (active_or_terminal _).mp ((move.consistent consistent).isActive_iff.mp active)
      newTerminal
  exact consistent.isActive_iff.mpr ((active_or_terminal _).mpr nonterminal)

theorem runWrite_orderly (write : Write (FreshRun conversations) (fun _ => RunMove) before after)
    (orderly : OrderlyRuns before) : OrderlyRuns after where
  consistent :=
    Writes.forall_rows RunConsistent (fun _ _ fresh => fresh.consistent)
    (fun _ _ _ move => move.consistent)
      (.single write) orderly.consistent
  oneActive := by
    refine write.uniqueIndex ?_ ?_ orderly.oneActive
    · intro run fresh _ other member active
      exact fresh.noneActive other member active
    · intro old member new move active
      exact Or.inl ⟨move.was_active (orderly.consistent old member) active, move.conversationId_eq⟩
  resumed := runWrite_resumed write orderly
  oneResume := by
    refine write.uniqueIndex ?_ ?_ orderly.oneResume
    · intro run fresh indexed other member otherIndexed
      exact freshRun_resume_unique orderly fresh indexed.1 indexed.2 member otherIndexed.1
    · intro old member new move indexed
      rw [move.source_eq, move.parentRunId_eq] at indexed
      exact Or.inl ⟨indexed, move.parentRunId_eq⟩

theorem RunWrites.orderly (writes : RunWrites conversations before after)
    (orderly : OrderlyRuns before) :
    OrderlyRuns after := by
  induction writes with
  | refl => exact orderly
  | tail _ write ih => exact runWrite_orderly write ih

theorem RunWrites.terminal_frozen (writes : RunWrites conversations before after)
    {run : ConversationRun}
    (member : run ∈ before.rows) (terminal : run.status ∈ runTerminalStatuses) :
    ∃ later ∈ after.rows, later.id = run.id ∧ later.status = run.status := by
  let related (first second : ConversationRun) : Prop :=
    first.status ∈ runTerminalStatuses → second.status = first.status
  obtain ⟨later, laterMember, sameId, frozen⟩ :=
    Writes.exists_of_mem related (fun _ _ => rfl)
      (fun first second third toSecond toThird terminal => by
        have secondEq := toSecond terminal
        exact (toThird (secondEq ▸ terminal)).trans secondEq)
      (fun _ _ _ move terminal => move.status_eq terminal) writes member
  exact ⟨later, laterMember, sameId, frozen terminal⟩

theorem RunWrites.exists_owned (writes : RunWrites conversations before after)
    {run : ConversationRun}
    (member : run ∈ before.rows) (owned : run.workerInstanceId.isSome) :
    ∃ later ∈ after.rows, later.id = run.id ∧ later.workerInstanceId.isSome := by
  let related (first second : ConversationRun) : Prop :=
    first.workerInstanceId.isSome → second.workerInstanceId.isSome
  obtain ⟨later, laterMember, sameId, stays⟩ :=
    Writes.exists_of_mem related (fun _ => id)
      (fun _ _ _ toSecond toThird => toThird ∘ toSecond)
      (fun _ _ _ move => move.worker_isSome) writes member
  exact ⟨later, laterMember, sameId, stays owned⟩

end

section

variable {env : Environment} {db after : Database} {request : RunRequest}
  {conversationId : Uuid} {context : OrgContext}

theorem latestInterruptedRun_eq_some {latest : ConversationRun}
    (found : latestInterruptedRun db conversationId context = some latest) :
    latest ∈ db.runs.rows ∧ latest.conversationId = conversationId ∧
      PrivateRun db context latest ∧ AwaitsResume db latest := by
  have member := mem_of_firstInOrder CompletedLater found
  simpa using List.mem_filter.mp member

variable {run : ConversationRun}

theorem latestInterruptedRun_eq_none
    (notFound : latestInterruptedRun db conversationId context = none) (member : run ∈ db.runs.rows)
    (inConversation : run.conversationId = conversationId) (isPrivate : PrivateRun db context run) :
    ¬ AwaitsResume db run := by
  rw [latestInterruptedRun, firstInOrder_eq_none_iff, List.filter_eq_nil_iff] at notFound
  intro awaits
  exact notFound run member (by simp [inConversation, isPrivate, awaits])

theorem requireInterruptedParent_eq_ok {runtimePolicy : RuntimePolicy} {resumable : Database}
    (succeeded : requireInterruptedParent db request runtimePolicy = .ok resumable) :
    (request.parentRunId = none ∧ resumable = db) ∨
      ∃ latest parent,
        latestInterruptedRun db request.conversationId request.context = some latest ∧
          request.parentRunId = some latest.id ∧ RunMove latest parent ∧
          resumable = db.saveRun parent := by
  rw [requireInterruptedParent] at succeeded
  split at succeeded
  case h_1 noParent =>
      simp only [bind_eq_ok, ensure_eq_ok] at succeeded
      obtain ⟨_, _, _, _, returned⟩ := succeeded
      exact Or.inl ⟨noParent, (Except.ok.inj returned).symm⟩
  case h_2 parentRunId hasParent =>
  split at succeeded
  case h_1 => cases succeeded
  case h_2 latest found =>
  simp only [bind_eq_ok, ensure_eq_ok] at succeeded
  obtain ⟨_, sameId, _, _, parent, matched, returned⟩ := succeeded
  exact Or.inr ⟨latest, parent, found, by rw [hasParent, sameId],
    requireParentSnapshotMatch_move matched, (Except.ok.inj returned).symm⟩

theorem insertRun_eq_ok (succeeded : insertRun db run = .ok after) :
    db.runs.insert? run = some after.runs ∧ after = { db with runs := after.runs } ∧
      (run.isActive → ∀ other ∈ db.runs.rows, other.isActive →
        other.conversationId ≠ run.conversationId) := by
  rw [insertRun] at succeeded
  split at succeeded
  case h_1 => cases succeeded
  case h_2 runs inserted =>
  simp only [bind_eq_ok, ensure_eq_ok] at succeeded
  obtain ⟨_, _, _, unique, returned⟩ := succeeded
  obtain rfl := Except.ok.inj returned
  exact ⟨inserted, rfl, unique⟩

variable {proof : ExecutionProof}

/-- What is known when a run was created: the checks it passed and the two
writes it made. -/
theorem createRunFromLockedProof_eq_ok
    (succeeded : createRunFromLockedProof env proof request db = .ok (after, run)) :
    ∃ runtimePolicy resumable, run = newRun env request runtimePolicy ∧
      request.context = proof.scope ∧
      (∃ conversation ∈ proof.heldRow request.conversationId,
        conversation.agentId = some request.agentId) ∧
      getActiveRun env db request.conversationId request.context = .ok none ∧
      requireResumable db request runtimePolicy = .ok resumable ∧
      insertRun resumable run = .ok after := by
  simp only [createRunFromLockedProof, bind_eq_ok, ensure_eq_ok] at succeeded
  obtain ⟨_, scope, _, _, _, _, _, held, _, _, runtimePolicy, _, active, activeEq, _, noActive,
    resumable, resumableEq, _, _, _, insertEq, returned⟩ := succeeded
  obtain ⟨rfl, rfl⟩ := Prod.mk.inj (Except.ok.inj returned)
  subst noActive
  exact ⟨runtimePolicy, resumable, rfl, scope, held, activeEq, resumableEq, insertEq⟩

theorem newRun_resumes {runtimePolicy : RuntimePolicy} {latest parent : ConversationRun}
    (found : latestInterruptedRun db request.conversationId request.context = some latest)
    (hasParent : request.parentRunId = some latest.id) (move : RunMove latest parent)
    {parentRunId : Uuid} (parentEq : request.parentRunId = some parentRunId) :
    ∃ row ∈ (db.runs.save parent).rows, row.id = parentRunId ∧
      ResumeParent (newRun env request runtimePolicy) row ∧ row.status = .interrupted ∧
      ∀ child ∈ (db.runs.save parent).rows, child.source = .resume → ¬ ResumeParent child row := by
  obtain ⟨member, inConversation, ⟨conversation, _, _, ownsRun, inScope⟩, interrupted, alone⟩ :=
    latestInterruptedRun_eq_some found
  have sameId : latest.id = parentRunId := Option.some.inj (hasParent.symm.trans parentEq)
  refine ⟨parent, Table.mem_save.mpr (Or.inl ⟨rfl, latest, member, move.id_eq.symm⟩),
    move.id_eq.trans sameId, ⟨?_, ?_, ?_⟩, ?_, ?_⟩
  · rw [move.id_eq]
    exact hasParent
  · rw [move.conversationId_eq]
    exact inConversation.symm
  · rw [move.userId_eq, ← ownsRun, inScope.1]
    rfl
  · rw [move.status_eq (by rw [interrupted]; decide), interrupted]
  · intro child childMember isResume resumes
    rw [ResumeParent, move.id_eq, move.conversationId_eq, move.userId_eq] at resumes
    rcases Table.mem_save.mp childMember with ⟨rfl, _⟩ | ⟨untouched, _⟩
    · rw [move.parentRunId_eq, move.conversationId_eq, move.userId_eq] at resumes
      rw [move.source_eq] at isResume
      exact alone ⟨latest, member, resumes, isResume⟩
    · exact alone ⟨child, untouched, resumes, isResume⟩

variable {conversationIds : List Uuid}

theorem mem_lockConversations {conversation : Conversation}
    (locked : conversation ∈ lockConversations db context conversationIds) :
    conversation ∈ db.conversations.rows ∧ PrivateScope context conversation := by
  have found := List.mem_filter.mp locked
  simp only [decide_eq_true_eq] at found
  exact ⟨found.1, found.2.2⟩

def HoldsScoped (db : Database) (context : OrgContext) (proof : ExecutionProof) : Prop :=
  ∀ conversation ∈ proof.conversations, conversation ∈ db.conversations.rows ∧
    (context = proof.scope → PrivateScope context conversation)

theorem acquireExecutionProof_eq_ok
    (acquired : acquireExecutionProof env db context conversationIds = .ok proof) :
    HoldsScoped db context proof := by
  simp only [acquireExecutionProof, bind_eq_ok] at acquired
  obtain ⟨_, _, returned⟩ := acquired
  obtain rfl := Except.ok.inj returned
  intro conversation held
  obtain ⟨member, inScope⟩ := mem_lockConversations held
  exact ⟨member, fun _ => inScope⟩

theorem extendProofConversation_holdsScoped {scope : OrgContext} :
    HoldsScoped db context
      (extendProofConversation db
        { scope := scope, conversations := lockConversations db scope conversationIds } context
        conversationId) := by
  intro conversation held
  rw [extendProofConversation] at held ⊢
  split at held
  case isTrue covered =>
      rw [if_pos covered]
      obtain ⟨member, inScope⟩ := mem_lockConversations held
      exact ⟨member, fun same => same ▸ inScope⟩
  case isFalse notCovered =>
  rw [if_neg notCovered]
  rcases List.mem_append.mp held with older | added
  · obtain ⟨member, inScope⟩ := mem_lockConversations older
    exact ⟨member, fun same => same ▸ inScope⟩
  · obtain ⟨member, inScope⟩ := mem_lockConversations added
    exact ⟨member, fun _ => inScope⟩

theorem createRunFromLockedProof_scoped (holdsScoped : HoldsScoped db request.context proof)
    (succeeded : createRunFromLockedProof env proof request db = .ok (after, run)) :
    ∃ conversation ∈ db.conversations.rows, conversation.id = request.conversationId ∧
      PrivateScope request.context conversation := by
  obtain ⟨_, _, _, sameScope, ⟨conversation, held, _⟩, _⟩ :=
    createRunFromLockedProof_eq_ok succeeded
  obtain ⟨member, inScope⟩ := holdsScoped conversation (List.mem_of_find?_eq_some held)
  exact ⟨conversation, member, by simpa using List.find?_some held, inScope sameScope⟩

theorem createRunFromLockedProof_writes (holdsScoped : HoldsScoped db request.context proof)
    (succeeded : createRunFromLockedProof env proof request db = .ok (after, run)) :
    RunWrites db.conversations db.runs after.runs := by
  obtain ⟨conversation, conversationMember, sameConversation, inScope⟩ :=
    createRunFromLockedProof_scoped holdsScoped succeeded
  obtain ⟨runtimePolicy, resumable, rfl, _, _, _, resumableEq, insertEq⟩ :=
    createRunFromLockedProof_eq_ok succeeded
  obtain ⟨inserted, _, unique⟩ := insertRun_eq_ok insertEq
  have owned : OwnedByConversation db.conversations request.conversationId
      request.context.userId :=
    ⟨conversation, conversationMember, sameConversation, inScope.1⟩
  have insertion (resumes : request.source = .resume → ∀ parentRunId,
      request.parentRunId = some parentRunId → ∃ parent ∈ resumable.runs.rows,
        parent.id = parentRunId ∧ ResumeParent (newRun env request runtimePolicy) parent ∧
          parent.status = .interrupted ∧
          ∀ child ∈ resumable.runs.rows, child.source = .resume → ¬ ResumeParent child parent) :
      Write (FreshRun db.conversations) (fun _ => RunMove) resumable.runs after.runs :=
    .insert ⟨owned, rfl, rfl, rfl, rfl, rfl, rfl, unique rfl, resumes⟩ inserted
  rw [requireResumable] at resumableEq
  split at resumableEq
  case isFalse notResume =>
      obtain rfl := Except.ok.inj resumableEq
      exact .single (insertion fun isResume => absurd isResume notResume)
  case isTrue isResume =>
  rcases requireInterruptedParent_eq_ok resumableEq with
    ⟨noParent, rfl⟩ | ⟨latest, parent, found, hasParent, move, rfl⟩
  · apply Relation.ReflTransGen.single
    apply insertion
    intro _ parentRunId hasParent
    rw [noParent] at hasParent
    cases hasParent
  · have member := (latestInterruptedRun_eq_some found).1
    refine (Relation.ReflTransGen.single (.save member move.id_eq move)).tail ?_
    exact insertion fun _ parentRunId parentEq => newRun_resumes found hasParent move parentEq

theorem createRun_eq_ok {live : Option (OrgContext × List Uuid)}
    {created : Database × ConversationRun}
    (succeeded : createRun env live request db = .ok created) :
    ∃ proof, createRunFromLockedProof env proof request db = .ok created ∧
      HoldsScoped db request.context proof := by
  cases live with
  | some proof =>
      exact ⟨_, succeeded, extendProofConversation_holdsScoped⟩
  | none =>
      simp only [createRun] at succeeded
      split at succeeded
      case h_1 => cases succeeded
      case h_2 => cases succeeded
      case h_3 proof acquired => exact ⟨proof, succeeded, acquireExecutionProof_eq_ok acquired⟩

end

variable {db after : Database}

theorem updateRun_writes {runId : Uuid} {update : ConversationRun → Except Raised ConversationRun}
    (moves : ∀ run moved, update run = .ok moved → RunMove run moved)
    (succeeded : updateRun runId update db = .ok after) :
    RunWrites db.conversations db.runs after.runs := by
  rw [updateRun] at succeeded
  split at succeeded
  case h_1 =>
      obtain rfl := Except.ok.inj succeeded
      exact .refl
  case h_2 run found =>
  simp only [bind_eq_ok] at succeeded
  obtain ⟨moved, updated, returned⟩ := succeeded
  obtain rfl := Except.ok.inj returned
  have move := moves run moved updated
  exact .single (.save (Table.get?_eq_some_iff.mp found).1 move.id_eq move)

theorem heartbeatRun_writes (now : Time) (runId : Uuid) (db : Database) :
    RunWrites db.conversations db.runs (heartbeatRun now runId db).1.runs := by
  rw [heartbeatRun]
  split
  case h_1 => exact .refl
  case h_2 run found =>
      split
      · exact .refl
      · exact .single (.save (Table.get?_eq_some_iff.mp found).1 rfl (.heartbeat run now))

/-- Whatever an operation on runs does, it writes the run table in this way. -/
theorem performRun_writes {action : RunAction} (succeeded : performRun db action = .ok after) :
    RunWrites db.conversations db.runs after.runs := by
  cases action with
  | createRun env live request =>
      simp only [performRun, bind_eq_ok] at succeeded
      obtain ⟨⟨created, run⟩, createdEq, returned⟩ := succeeded
      obtain rfl := Except.ok.inj returned
      obtain ⟨proof, lockedEq, holdsScoped⟩ := createRun_eq_ok createdEq
      exact createRunFromLockedProof_writes holdsScoped lockedEq
  | transitionRun now runId status transition =>
      exact updateRun_writes (fun _ _ => transitionRun_move) succeeded
  | requestCancelRun now runId reason =>
      exact updateRun_writes (fun _ _ => requestCancelRun_move) succeeded
  | heartbeatRun now runId =>
      obtain rfl := Except.ok.inj succeeded
      exact heartbeatRun_writes now runId db

/-- A created run leaves the other tables as they were. -/
theorem createRunFromLockedProof_keeps {env : Environment} {proof : ExecutionProof}
    {request : RunRequest}
    (succeeded : createRunFromLockedProof env proof request db = .ok (after, run)) :
    after.conversations = db.conversations ∧ after.inputs = db.inputs := by
  obtain ⟨_, resumable, _, _, _, _, resumableEq, insertEq⟩ :=
    createRunFromLockedProof_eq_ok succeeded
  rw [(insertRun_eq_ok insertEq).2.1]
  rw [requireResumable] at resumableEq
  split at resumableEq
  case isFalse =>
      obtain rfl := Except.ok.inj resumableEq
      exact ⟨rfl, rfl⟩
  case isTrue =>
      rcases requireInterruptedParent_eq_ok resumableEq with
        ⟨_, rfl⟩ | ⟨_, _, _, _, _, rfl⟩ <;> exact ⟨rfl, rfl⟩

theorem updateRun_keeps {runId : Uuid} {update : ConversationRun → Except Raised ConversationRun}
    (succeeded : updateRun runId update db = .ok after) :
    after.conversations = db.conversations ∧ after.inputs = db.inputs := by
  rw [updateRun] at succeeded
  split at succeeded
  case h_1 =>
      obtain rfl := Except.ok.inj succeeded
      exact ⟨rfl, rfl⟩
  case h_2 =>
  simp only [bind_eq_ok] at succeeded
  obtain ⟨_, _, returned⟩ := succeeded
  obtain rfl := Except.ok.inj returned
  exact ⟨rfl, rfl⟩

/-- An operation on runs leaves the other tables as they were. -/
theorem performRun_keeps {action : RunAction} (succeeded : performRun db action = .ok after) :
    after.conversations = db.conversations ∧ after.inputs = db.inputs := by
  cases action with
  | createRun env live request =>
      simp only [performRun, bind_eq_ok] at succeeded
      obtain ⟨⟨created, run⟩, createdEq, returned⟩ := succeeded
      obtain rfl := Except.ok.inj returned
      obtain ⟨proof, lockedEq, _⟩ := createRun_eq_ok createdEq
      exact createRunFromLockedProof_keeps lockedEq
  | transitionRun now runId status transition => exact updateRun_keeps succeeded
  | requestCancelRun now runId reason => exact updateRun_keeps succeeded
  | heartbeatRun now runId =>
      obtain rfl := Except.ok.inj succeeded
      rw [heartbeatRun]
      split
      · exact ⟨rfl, rfl⟩
      · split <;> exact ⟨rfl, rfl⟩

theorem stepRun_writes (db : Database) (action : RunAction) :
    (stepRun db action).conversations = db.conversations ∧
      RunWrites db.conversations db.runs (stepRun db action).runs := by
  rw [stepRun]
  split
  case h_1 after succeeded => exact ⟨(performRun_keeps succeeded).1, performRun_writes succeeded⟩
  case h_2 => exact ⟨rfl, .refl⟩

theorem runWrites_run (db : Database) (actions : List RunAction) :
    (StepRuns.run stepRun db actions).conversations = db.conversations ∧
      RunWrites db.conversations db.runs (StepRuns.run stepRun db actions).runs := by
  apply StepRuns.run_invariant fun reached : Database =>
    reached.conversations = db.conversations ∧ RunWrites db.conversations db.runs reached.runs
  · rintro reached action ⟨sameConversations, writes⟩
    obtain ⟨kept, further⟩ := stepRun_writes reached action
    rw [sameConversations] at kept further
    exact ⟨kept, writes.trans further⟩
  · exact ⟨rfl, .refl⟩

end NaturalMold.Conversations

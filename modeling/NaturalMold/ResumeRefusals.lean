import NaturalMold.InputRespond

/-! # What a refused resume leaves behind -/

namespace NaturalMold.Approvals

open Conversations (Uuid Time Raised RuntimePolicy Conversation ConversationRun ResumeAdmitted
  acceptOwnedExecution_isOk_iff latestInterruptedRun getLatestInterruptedRun)
open KeyedTables Fallible Stages

section

variable {env : ResumeEnvironment} {request : ResumeRequest} {store : Store}
  {checked : CheckedResume}

section

variable {claimed : Claim} {stamp : Time}

theorem foldlM_claimRow_isOk_iff {rows : List ApprovalRequest} {requests : RequestTable} :
    (∃ after, rows.foldlM (claimRow claimed stamp) requests = .ok after) ↔
      ∀ row ∈ rows, claimed.Guard stamp row := by
  induction rows generalizing requests with
  | nil => exact iff_of_true ⟨requests, rfl⟩ fun _ member => absurd member List.not_mem_nil
  | cons row rows ih =>
      rw [List.forall_mem_cons]
      simp only [List.foldlM_cons, bind_eq_ok]
      constructor
      · rintro ⟨after, next, updated, later⟩
        rw [claimRow] at updated
        split at updated
        case isTrue guarded => exact ⟨guarded, ih.mp ⟨after, later⟩⟩
        case isFalse => cases updated
      · rintro ⟨guarded, rest⟩
        obtain ⟨after, later⟩ := ih.mpr rest
        exact ⟨after, _, if_pos guarded, later⟩

/-- A claim goes through when every row that it selects can still be decided. -/
theorem claim_isOk_iff {requests : RequestTable} :
    (∃ after, claim claimed stamp requests = .ok after) ↔
      ∀ row ∈ requests.rows, claimed.Selects row → claimed.Guard stamp row := by
  rw [claim, foldlM_claimRow_isOk_iff]
  simp only [List.mem_filter, decide_eq_true_eq, and_imp]

end

theorem prepareResume_eq_ok_iff {after : Store} :
    prepareResume env request store = .ok (checked, after) ↔
      checkResume env request store = .ok checked ∧ env.admission = .ok () ∧
        ∃ policy, conversationPolicy env request.conversation.id store = .ok policy ∧
          after = store.withPolicy request.conversation.id policy := by
  simp only [prepareResume, bind_eq_ok, mapError_eq_ok]
  constructor
  · rintro ⟨_, passed, _, admitted, policy, resolved, returned⟩
    obtain ⟨rfl, rfl⟩ := Prod.mk.inj (Except.ok.inj returned)
    exact ⟨passed, admitted, policy, resolved, rfl⟩
  · rintro ⟨passed, admitted, policy, resolved, rfl⟩
    exact ⟨checked, passed, (), admitted, policy, resolved, rfl⟩

theorem checkResume_parent (passed : checkResume env request store = .ok checked) :
    env.execution.requirePrivateActor = .ok () ∧
      latestInterruptedRun store.db request.conversation.id request.context =
        some checked.parent := by
  simp only [checkResume, bind_eq_ok, mapError_eq_ok, getLatestInterruptedRun] at passed
  obtain ⟨_, _, found, ⟨_, actor, latest⟩, passed⟩ := passed
  refine ⟨actor, ?_⟩
  cases found with
  | none => cases passed
  | some parent =>
      dsimp only at passed
      obtain ⟨pending, _, passed⟩ := bind_eq_ok.mp passed
      split at passed
      · cases passed
      · obtain ⟨restored, _, passed⟩ := bind_eq_ok.mp passed
        split at passed
        · cases passed
        · obtain rfl := Except.ok.inj passed
          exact Except.ok.inj latest

theorem recordConsents_eq_ok {names : List String} {after : Store}
    (recorded : recordConsents env request checked store = .ok (names, after)) :
    env.stillExecutable = .ok () ∧ ∃ sessions, after = { store with sessions := sessions } ∧
      applySessionConsentDecisions env.consents store.db request.context request.conversation.id
        checked.resume checked.pending store.sessions = .ok (names, sessions) := by
  simp only [recordConsents, bind_eq_ok, mapError_eq_ok] at recorded
  obtain ⟨_, executable, applied, appliedEq, returned⟩ := recorded
  obtain ⟨rfl, rfl⟩ := Prod.mk.inj (Except.ok.inj returned)
  exact ⟨executable, applied.2, rfl, appliedEq⟩

theorem recordConsents_isOk_iff :
    (∃ recorded, recordConsents env request checked store = .ok recorded) ↔
      env.stillExecutable = .ok () ∧
        (requestedTools checked.resume checked.pending ≠ [] →
          env.consents.resolvePrivateActor = .ok ()) := by
  rw [← @applySessionConsentDecisions_isOk_iff env.consents store.db request.context
    request.conversation.id checked.resume checked.pending store.sessions]
  constructor
  · rintro ⟨⟨names, after⟩, recorded⟩
    obtain ⟨executable, sessions, _, applied⟩ := recordConsents_eq_ok recorded
    exact ⟨executable, _, applied⟩
  · rintro ⟨executable, applied, appliedEq⟩
    refine ⟨(applied.1, { store with sessions := applied.2 }), ?_⟩
    simp only [recordConsents, bind_eq_ok, mapError_eq_ok]
    exact ⟨(), executable, applied, appliedEq, rfl⟩

/-- The rows that the answers select can still be decided. -/
def RowsUndecided (env : ResumeEnvironment) (request : ResumeRequest) (checked : CheckedResume)
    (requests : RequestTable) : Prop :=
  let claimed := resumeClaim env request checked env.execution.newId
  ∀ row ∈ requests.rows, claimed.Selects row → claimed.Guard env.stamp row

def ResumeAccepted (env : ResumeEnvironment) (request : ResumeRequest) (checked : CheckedResume)
    (policy : RuntimePolicy) (store : Store) : Prop :=
  env.agentContext = .ok () ∧
    (∃ agentId, request.conversation.agentId = some agentId ∧
      ResumeAdmitted env.execution store.db (resumeRunRequest env request checked agentId)
        checked.parent policy) ∧
    RowsUndecided env request checked store.requests

theorem resumeAdmitted_accepting_iff {agentId : Uuid} {policy : RuntimePolicy} :
    ResumeAdmitted (env.accepting request.conversation.id store) store.db
        (resumeRunRequest env request checked agentId) checked.parent policy ↔
      ResumeAdmitted env.execution store.db (resumeRunRequest env request checked agentId)
        checked.parent policy := by
  constructor
  all_goals
    intro admitted
    exact
      { locks := admitted.locks
        agentTree := admitted.agentTree
        conversation := admitted.conversation
        notStopped := admitted.notStopped
        idle := admitted.idle
        interrupt := admitted.interrupt
        snapshot := admitted.snapshot
        fresh := admitted.fresh }

theorem acceptResume_isOk_iff {policy : RuntimePolicy}
    (actor : env.execution.requirePrivateActor = .ok ())
    (latest : latestInterruptedRun store.db request.conversation.id request.context =
      some checked.parent)
    (resolved : conversationPolicy env request.conversation.id store = .ok policy) :
    (∃ accepted, acceptResume env request checked store = .ok accepted) ↔
      ResumeAccepted env request checked policy store := by
  have admitted (agentId : Uuid) :=
    (@acceptOwnedExecution_isOk_iff (env.accepting request.conversation.id store) store.db
      (resumeRunRequest env request checked agentId) checked.parent policy actor resolved rfl rfl
      latest).trans resumeAdmitted_accepting_iff
  simp only [acceptResume, bind_eq_ok, mapError_eq_ok]
  constructor
  · rintro ⟨accepted, _, agent, ok⟩
    cases hasAgent : request.conversation.agentId with
    | none =>
        rw [hasAgent] at ok
        cases ok
    | some agentId =>
        rw [hasAgent] at ok
        simp only [bind_eq_ok, mapError_eq_ok] at ok
        obtain ⟨run, runEq, requests, claimed, _⟩ := ok
        have undecided :=
          (@claim_isOk_iff (resumeClaim env request checked run.2.id) env.stamp
            store.requests).mp ⟨requests, claimed⟩
        exact ⟨agent, ⟨agentId, hasAgent, (admitted agentId).mp ⟨run, runEq⟩⟩, undecided⟩
  · rintro ⟨agent, ⟨agentId, hasAgent, admits⟩, undecided⟩
    obtain ⟨run, runEq⟩ := (admitted agentId).mpr admits
    obtain ⟨requests, claimed⟩ :=
      (@claim_isOk_iff (resumeClaim env request checked run.2.id) env.stamp
        store.requests).mpr undecided
    refine ⟨(run.2.id, { store with db := run.1, requests := requests }), (), agent, ?_⟩
    rw [hasAgent]
    simp only [bind_eq_ok, mapError_eq_ok]
    exact ⟨run, runEq, requests, claimed, rfl⟩

theorem withPolicy_eq_self_iff {policy : RuntimePolicy} {conversationId : Uuid}
    (resolved : conversationPolicy env conversationId store = .ok policy) :
    store.withPolicy conversationId policy = store ↔ (store.policies conversationId).isSome := by
  constructor
  · intro unchanged
    have policies := congrFun (congrArg Store.policies unchanged) conversationId
    rw [← policies]
    simp [Store.withPolicy]
  · intro has
    obtain ⟨stored, storedEq⟩ := Option.isSome_iff_exists.mp has
    rw [conversationPolicy, storedEq] at resolved
    obtain rfl := Except.ok.inj resolved
    rw [Store.withPolicy, ← storedEq, Function.update_eq_self]

/-- Nothing is written before a refusal: the resume is accepted, or its conversation had a
policy and the consents that are recorded were there. -/
def RefusalsHarmless (env : ResumeEnvironment) (request : ResumeRequest) (store : Store) : Prop :=
  ∀ checked policy, checkResume env request store = .ok checked → env.admission = .ok () →
    conversationPolicy env request.conversation.id store = .ok policy →
    (env.stillExecutable = .ok () ∧
        (requestedTools checked.resume checked.pending ≠ [] →
          env.consents.resolvePrivateActor = .ok ()) ∧
        ResumeAccepted env request checked policy store) ∨
      ((store.policies request.conversation.id).isSome ∧
        (env.stillExecutable = .ok () →
          KeepsConsents env.consents store.db request.context request.conversation.id
            checked.resume checked.pending store.sessions))

theorem conversationPolicy_withPolicy {conversationId : Uuid} {policy : RuntimePolicy} :
    conversationPolicy env conversationId (store.withPolicy conversationId policy) =
      .ok policy := by
  simp [conversationPolicy, Store.withPolicy]

/-- The state after the second commit is the one before the first when neither the policy nor
the consents are new. -/
theorem consented_eq_start_iff {policy : RuntimePolicy} {conversationId : Uuid}
    {sessions : SessionTable}
    (resolved : conversationPolicy env conversationId store = .ok policy) :
    { store.withPolicy conversationId policy with sessions := sessions } = store ↔
      (store.policies conversationId).isSome ∧ sessions = store.sessions := by
  rw [← withPolicy_eq_self_iff resolved]
  constructor
  · intro unchanged
    have samePolicies : Function.update store.policies conversationId (some policy) =
        store.policies := congrArg Store.policies unchanged
    refine ⟨?_, congrArg Store.sessions unchanged⟩
    rw [Store.withPolicy, samePolicies]
  · rintro ⟨unchanged, rfl⟩
    exact unchanged

theorem traceless_prepared_iff {policy : RuntimePolicy}
    (passed : checkResume env request store = .ok checked)
    (resolved : conversationPolicy env request.conversation.id store = .ok policy) :
    Traceless store
        (commit (store.withPolicy request.conversation.id policy)
          (recordConsents env request checked (store.withPolicy request.conversation.id policy))
          fun _ consented =>
            commit consented (acceptResume env request checked consented) fun runId accepted =>
              ({ answer := .ok runId, state := accepted } : Reply Refusal Store Uuid)) ↔
      (env.stillExecutable = .ok () ∧
          (requestedTools checked.resume checked.pending ≠ [] →
            env.consents.resolvePrivateActor = .ok ()) ∧
          ResumeAccepted env request checked policy store) ∨
        ((store.policies request.conversation.id).isSome ∧
          (env.stillExecutable = .ok () →
            KeepsConsents env.consents store.db request.context request.conversation.id
              checked.resume checked.pending store.sessions)) := by
  obtain ⟨actor, latest⟩ := checkResume_parent passed
  -- after the consents, the run is accepted as it would be before them
  have accepts (sessions : SessionTable) :
      (∃ accepted, acceptResume env request checked
        { store.withPolicy request.conversation.id policy with sessions := sessions } =
          .ok accepted) ↔ ResumeAccepted env request checked policy store :=
    @acceptResume_isOk_iff env request
      { store.withPolicy request.conversation.id policy with sessions := sessions } checked policy
      actor latest conversationPolicy_withPolicy
  simp only [traceless_commit_iff, recordConsents_isOk_iff]
  constructor
  · rintro ⟨failed, later⟩
    by_cases records : env.stillExecutable = .ok () ∧
        (requestedTools checked.resume checked.pending ≠ [] →
          env.consents.resolvePrivateActor = .ok ())
    · obtain ⟨⟨names, consented⟩, recorded⟩ := recordConsents_isOk_iff.mpr records
      have refused := (later names consented recorded).1
      obtain ⟨_, sessions, rfl, applied⟩ := recordConsents_eq_ok recorded
      rw [accepts sessions, consented_eq_start_iff resolved] at refused
      by_cases accepted : ResumeAccepted env request checked policy store
      · exact Or.inl ⟨records.1, records.2, accepted⟩
      · obtain ⟨hasPolicy, unchanged⟩ := refused accepted
        exact Or.inr ⟨hasPolicy, fun _ =>
          (applySessionConsentDecisions_keeps_iff applied).mp unchanged⟩
    · refine Or.inr ⟨(withPolicy_eq_self_iff resolved).mp (failed records), ?_⟩
      intro executable asked session loaded
      have actorFails : ¬ env.consents.resolvePrivateActor = .ok () := fun ok =>
        records ⟨executable, fun _ => ok⟩
      exact absurd (loadConversationSession_eq_some loaded).1 actorFails
  · rintro (⟨executable, actorOk, accepted⟩ | ⟨hasPolicy, keeps⟩)
    · refine ⟨fun failed => absurd ⟨executable, actorOk⟩ failed, ?_⟩
      intro names consented recorded
      obtain ⟨_, sessions, rfl, _⟩ := recordConsents_eq_ok recorded
      exact ⟨fun failed => absurd ((accepts sessions).mpr accepted) failed,
        fun runId _ _ => traceless_of_ok runId⟩
    · refine ⟨fun _ => (withPolicy_eq_self_iff resolved).mpr hasPolicy, ?_⟩
      intro names consented recorded
      obtain ⟨executable, sessions, rfl, applied⟩ := recordConsents_eq_ok recorded
      have unchanged :=
        (applySessionConsentDecisions_keeps_iff applied).mpr (keeps executable)
      exact ⟨fun _ => (consented_eq_start_iff resolved).mpr ⟨hasPolicy, unchanged⟩,
        fun runId _ _ => traceless_of_ok runId⟩

/-- A refused resume leaves no trace exactly when what it writes before it is accepted was
there already, or it is accepted. -/
theorem refusedResume_traceless_iff (env : ResumeEnvironment) (request : ResumeRequest)
    (store : Store) :
    Traceless store (handleInputRespondCommand env request store) ↔
      RefusalsHarmless env request store := by
  unfold handleInputRespondCommand RefusalsHarmless
  rw [traceless_commit_iff]
  simp only [prepareResume_eq_ok_iff]
  constructor
  · rintro ⟨_, later⟩ checked policy passed admitted resolved
    exact (traceless_prepared_iff passed resolved).mp
      (later checked _ ⟨passed, admitted, policy, resolved, rfl⟩)
  · intro harmless
    refine ⟨fun _ => trivial, ?_⟩
    rintro checked after ⟨passed, admitted, policy, resolved, rfl⟩
    exact (traceless_prepared_iff passed resolved).mpr
      (harmless checked policy passed admitted resolved)

end

namespace ExpiredAnswer

def conversation : Conversation where
  id := 1
  agentId := some 2
  userId := 3
  orgId := 4
  tenantId := 5

/-- The run waits for the approval of one call. -/
def interruptedRun : ConversationRun where
  id := 6
  conversationId := 1
  agentId := some 2
  userId := 3
  parentRunId := none
  source := .chat
  status := .interrupted
  isActive := false
  interruptId := some "call"
  createdAt := 0
  runtimePolicyVersion := some 1
  runtimePolicyHash := some "hash"
  runtimePolicySource := some "server_owned"

def approval : ApprovalRequest where
  id := 7
  conversationId := 1
  runId := 6
  interruptId := "call"
  agentId := some 2
  argsDigest := "digest"
  attempt := 1
  expiresAt := 10
  status := .pending
  channel := none
  decidedBy := none
  decidedAt := none
  decisions := []
  decisionNo := 0
  resumedRunId := none
  editedArgsDigest := none
  reason := none

def session : SkillBuilderSession where
  id := 8
  userId := 3
  orgId := 4
  tenantId := 5
  conversationId := some 1
  createdAt := 0
  updatedAt := 0

def policy : RuntimePolicy where
  version := 1
  policyHash := "hash"
  source := "server_owned"

def store : Store where
  db :=
    { conversations := { rows := [conversation], distinct := by decide }
      runs := { rows := [interruptedRun], distinct := by decide }
      inputs := Table.empty }
  requests := { rows := [approval], distinct := by decide }
  sessions := { rows := [session], distinct := by decide }
  policies := fun _ => some policy

def interrupt : ThreadInterrupt where
  id := "call"
  value := .obj
    [("action_requests", .arr [.obj [("name", .str "test_skill_draft"), ("args", .obj [])]]),
      ("review_configs", .arr [.obj
        [("action_name", .str "test_skill_draft"),
          ("allowed_decisions", .arr [.str "approve", .str "reject"])]])]
  ns := []

def env : ResumeEnvironment where
  pendingInterrupts := .ok [interrupt]
  decisionProblem := fun _ _ => none
  restoredInput := fun resume _ => .ok (some resume.inputPayload)
  resolvedPolicy := .ok policy
  consents :=
    { privateAgents := [2]
      draftRequiresNetwork := fun _ => false
      grantedAt := "2026-01-01T00:00:00+00:00"
      updatedAt := 20 }
  execution := { now := 20, newId := 9, runtimePolicy := .ok policy }
  text := fun _ => ""
  stamp := 20

/-- The call is approved, and its tool for the session. -/
def request : ResumeRequest where
  params :=
    { interruptId := some "call"
      response := .obj
        [("decisions", .arr [.obj [("type", .str "approve"), ("scope", .str "session")]])] }
  conversation := conversation
  context := { orgId := 4, tenantId := 5, userId := 3 }

end ExpiredAnswer

/-- The answer to an expired approval is refused, and its consent is recorded. -/
theorem expiredAnswer_keepsConsent :
    ¬ Traceless ExpiredAnswer.store
      (handleInputRespondCommand ExpiredAnswer.env ExpiredAnswer.request ExpiredAnswer.store) := by
  intro traceless
  have unchanged := traceless (Refusal.ofStale .expired) rfl
  have consents := congrArg
    (fun store => store.sessions.rows.map fun session => session.toolConsents.isSome) unchanged
  exact absurd consents (by decide)

end NaturalMold.Approvals

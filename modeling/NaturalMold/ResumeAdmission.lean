import NaturalMold.ConversationRunInvariants

/-!
# Accepting a run that resumes another

A resume is accepted under the lifecycle locks of its conversation.
-/

namespace NaturalMold.Conversations

open KeyedTables Fallible

/-- `accept_owned_execution`: the run, without the rows of its participants. -/
def acceptOwnedExecution (env : Environment) (request : RunRequest) (db : Database) :
    Except Raised (Database × ConversationRun) := do
  let proof ← acquireExecutionProof env db request.context [request.conversationId]
  env.loadAgentTree
  createRunFromLockedProof env proof request db

section

variable {env : Environment} {db : Database} {request : RunRequest} {parent : ConversationRun}
  {policy : RuntimePolicy}

def SnapshotMatches (parent : ConversationRun) (policy : RuntimePolicy) : Prop :=
  let parentTuple :=
    (parent.runtimePolicyVersion, parent.runtimePolicyHash, parent.runtimePolicySource)
  (parentTuple = (none, none, none) ∧ policy.source ∈ ["legacy_compat", "server_owned"]) ∨
    parentTuple = (some policy.version, some policy.policyHash, some policy.source)

theorem requireParentSnapshotMatch_isOk_iff :
    (∃ matched, requireParentSnapshotMatch parent policy = .ok matched) ↔
      SnapshotMatches parent policy := by
  unfold requireParentSnapshotMatch SnapshotMatches
  dsimp only
  split
  case isTrue legacy => exact iff_of_true ⟨_, rfl⟩ (Or.inl legacy)
  case isFalse notLegacy =>
  split
  case isTrue differs =>
      refine iff_of_false ?_ ?_
      · rintro ⟨matched, ok⟩
        cases ok
      · rintro (legacy | same)
        · exact notLegacy legacy
        · exact differs same
  case isFalse same => exact iff_of_true ⟨_, rfl⟩ (Or.inr (not_not.mp same))

/-- Adopting a policy changes nothing else of a parent. -/
theorem requireParentSnapshotMatch_keeps {matched : ConversationRun}
    (ok : requireParentSnapshotMatch parent policy = .ok matched) :
    matched.id = parent.id ∧ matched.isActive = parent.isActive ∧
      matched.conversationId = parent.conversationId := by
  unfold requireParentSnapshotMatch at ok
  dsimp only at ok
  split at ok
  · obtain rfl := Except.ok.inj ok
    exact ⟨rfl, rfl, rfl⟩
  · split at ok
    · cases ok
    · obtain rfl := Except.ok.inj ok
      exact ⟨rfl, rfl, rfl⟩

structure ResumeAdmitted (env : Environment) (db : Database) (request : RunRequest)
    (parent : ConversationRun) (policy : RuntimePolicy) : Prop where
  locks : env.acquirePrefix = .ok ()
  agentTree : env.loadAgentTree = .ok ()
  conversation : ∃ row ∈ db.conversations.rows, row.id = request.conversationId ∧
    PrivateScope request.context row ∧ row.agentId = some request.agentId
  notStopped : env.refuseRun = .ok ()
  idle : ∀ run ∈ db.runs.rows, run.isActive → run.conversationId ≠ request.conversationId
  interrupt : (truthy parent.interruptId).isSome → parent.interruptId = request.interruptId
  snapshot : SnapshotMatches parent policy
  fresh : ∀ run ∈ db.runs.rows, run.id ≠ env.newId

theorem insertRun_isOk {run : ConversationRun}
    (fresh : ∀ other ∈ db.runs.rows, other.id ≠ run.id)
    (parents : ∀ parentRunId ∈ run.parentRunId, ∃ other ∈ db.runs.rows, other.id = parentRunId)
    (idle : ∀ other ∈ db.runs.rows, other.isActive →
      other.conversationId ≠ run.conversationId) :
    ∃ after, insertRun db run = .ok after := by
  unfold insertRun
  cases inserted : db.runs.insert? run with
  | none =>
      obtain ⟨old, member, same⟩ := Table.insert?_eq_none_iff.mp inserted
      exact absurd same (fresh old member)
  | some runs =>
      have rows := (Table.insert?_eq_some inserted).1
      have found : ∀ parentRunId ∈ run.parentRunId, (runs.get? parentRunId).isSome := by
        intro parentRunId isParent
        obtain ⟨other, member, sameId⟩ := parents parentRunId isParent
        have listed : other ∈ runs.rows := by
          rw [rows]
          exact List.mem_append_left _ member
        rw [Table.get?_eq_some_iff.mpr ⟨listed, sameId⟩]
        rfl
      refine ⟨{ db with runs := runs }, ?_⟩
      simp only [bind_eq_ok, ensure_eq_ok]
      exact ⟨(), found, (), fun _ => idle, rfl⟩

theorem exists_heldRow_iff {conversationId agentId : Uuid} {context : OrgContext} :
    (∃ row ∈ (ExecutionProof.mk context (lockConversations db context [conversationId])).heldRow
        conversationId, row.agentId = some agentId) ↔
      ∃ row ∈ db.conversations.rows, row.id = conversationId ∧ PrivateScope context row ∧
        row.agentId = some agentId := by
  constructor
  · rintro ⟨row, held, agent⟩
    obtain ⟨member, inScope⟩ := mem_lockConversations (List.mem_of_find?_eq_some held)
    exact ⟨row, member, by simpa using List.find?_some held, inScope, agent⟩
  · rintro ⟨row, member, sameId, inScope, agent⟩
    have locked : row ∈ lockConversations db context [conversationId] := by
      simp only [lockConversations, List.mem_filter, List.mem_singleton, decide_eq_true_eq]
      exact ⟨member, sameId, inScope⟩
    refine ⟨row, ?_, agent⟩
    unfold ExecutionProof.heldRow
    cases found : (lockConversations db context [conversationId]).find? fun conversation =>
        conversation.id = conversationId with
    | none =>
        rw [List.find?_eq_none] at found
        exact absurd (decide_eq_true sameId) (found row locked)
    | some other =>
        have otherId : other.id = conversationId := by simpa using List.find?_some found
        have otherMember := (mem_lockConversations (List.mem_of_find?_eq_some found)).1
        rw [db.conversations.eq_of_key_eq otherMember member (otherId.trans sameId.symm)]
        rfl

theorem getActiveRun_idle {conversationId : Uuid} {context : OrgContext}
    (actor : env.requirePrivateActor = .ok ())
    (idle : ∀ run ∈ db.runs.rows, run.isActive → run.conversationId ≠ conversationId) :
    getActiveRun env db conversationId context = .ok none := by
  have noRows : (db.runs.rows.filter fun run =>
      run.conversationId = conversationId ∧ PrivateRun db context run ∧ run.isActive) = [] := by
    rw [List.filter_eq_nil_iff]
    intro run member
    rw [decide_eq_true_eq]
    rintro ⟨inConversation, _, isActive⟩
    exact idle run member isActive inConversation
  rw [getActiveRun, actor, noRows]
  rfl

theorem requireResumable_eq_ok_iff {resumable : Database}
    (resumes : request.source = .resume) (hasParent : request.parentRunId = some parent.id)
    (found : latestInterruptedRun db request.conversationId request.context = some parent) :
    requireResumable db request policy = .ok resumable ↔
      ((truthy parent.interruptId).isSome → parent.interruptId = request.interruptId) ∧
        ∃ matched, requireParentSnapshotMatch parent policy = .ok matched ∧
          resumable = db.saveRun matched := by
  simp only [requireResumable, if_pos resumes, requireInterruptedParent, hasParent, found,
    bind_eq_ok, ensure_eq_ok]
  constructor
  · rintro ⟨_, _, _, interrupt, matched, ok, returned⟩
    exact ⟨interrupt, matched, ok, (Except.ok.inj returned).symm⟩
  · rintro ⟨interrupt, matched, ok, rfl⟩
    exact ⟨(), trivial, (), interrupt, matched, ok, rfl⟩

theorem forall_mem_saveRun_iff {matched : ConversationRun} (member : parent ∈ db.runs.rows)
    (ok : requireParentSnapshotMatch parent policy = .ok matched)
    (holds : Uuid → Bool → Uuid → Prop) :
    (∀ run ∈ (db.saveRun matched).runs.rows, holds run.id run.isActive run.conversationId) ↔
      ∀ run ∈ db.runs.rows, holds run.id run.isActive run.conversationId := by
  obtain ⟨sameId, sameActive, sameConversation⟩ := requireParentSnapshotMatch_keeps ok
  constructor
  · intro all run runMember
    by_cases isParent : run.id = matched.id
    · have same := db.runs.eq_of_key_eq runMember member (isParent.trans sameId)
      have saved := all matched (Table.mem_save.mpr (Or.inl ⟨rfl, run, runMember, isParent⟩))
      rwa [sameId, sameActive, sameConversation, ← same] at saved
    · exact all run (Table.mem_save.mpr (Or.inr ⟨runMember, isParent⟩))
  · intro all run runMember
    rcases Table.mem_save.mp runMember with ⟨rfl, _⟩ | ⟨untouched, _⟩
    · rw [sameId, sameActive, sameConversation]
      exact all parent member
    · exact all run untouched

theorem acceptOwnedExecution_isOk_iff (actor : env.requirePrivateActor = .ok ())
    (hasPolicy : env.runtimePolicy = .ok policy) (resumes : request.source = .resume)
    (hasParent : request.parentRunId = some parent.id)
    (found : latestInterruptedRun db request.conversationId request.context = some parent) :
    (∃ accepted, acceptOwnedExecution env request db = .ok accepted) ↔
      ResumeAdmitted env db request parent policy := by
  have parentMember := (latestInterruptedRun_eq_some found).1
  constructor
  · rintro ⟨⟨after, run⟩, ok⟩
    simp only [acceptOwnedExecution, acquireExecutionProof, bind_eq_ok] at ok
    obtain ⟨proof, ⟨_, locks, acquired⟩, _, agentTree, created⟩ := ok
    obtain rfl := Except.ok.inj acquired
    simp only [createRunFromLockedProof, bind_eq_ok, ensure_eq_ok] at created
    obtain ⟨_, _, _, _, _, _, _, held, _, notStopped, runtimePolicy, resolved, _, _, _, _,
      resumable, resumableEq, _, _, _, insertEq, _⟩ := created
    obtain rfl := Except.ok.inj (hasPolicy.symm.trans resolved)
    obtain ⟨interrupt, matched, ok, rfl⟩ :=
      (requireResumable_eq_ok_iff resumes hasParent found).mp resumableEq
    obtain ⟨inserted, _, idle⟩ := insertRun_eq_ok insertEq
    have fresh := (Table.insert?_eq_some inserted).2
    exact
      { locks := locks
        agentTree := agentTree
        conversation := exists_heldRow_iff.mp held
        notStopped := notStopped
        idle := (forall_mem_saveRun_iff parentMember ok fun _ isActive conversationId =>
          isActive → conversationId ≠ request.conversationId).mp (idle rfl)
        interrupt := interrupt
        snapshot := requireParentSnapshotMatch_isOk_iff.mp ⟨matched, ok⟩
        fresh := (forall_mem_saveRun_iff parentMember ok fun id _ _ => id ≠ env.newId).mp fresh }
  · rintro ⟨locks, agentTree, conversation, notStopped, idle, interrupt, snapshot, fresh⟩
    obtain ⟨matched, ok⟩ := requireParentSnapshotMatch_isOk_iff.mpr snapshot
    have resumable := (requireResumable_eq_ok_iff resumes hasParent found).mpr
      ⟨interrupt, matched, ok, rfl⟩
    have held := exists_heldRow_iff.mpr conversation
    have covers : (ExecutionProof.mk request.context
        (lockConversations db request.context [request.conversationId])).Covers
          request.conversationId := by
      obtain ⟨row, isHeld, _⟩ := held
      exact ⟨row, List.mem_of_find?_eq_some isHeld, by simpa using List.find?_some isHeld⟩
    have sameId := (requireParentSnapshotMatch_keeps ok).1
    obtain ⟨after, inserted⟩ : ∃ after,
        insertRun (db.saveRun matched) (newRun env request policy) = .ok after := by
      apply insertRun_isOk
      · exact (forall_mem_saveRun_iff parentMember ok fun id _ _ => id ≠ env.newId).mpr fresh
      · intro parentRunId isParent
        have same : request.parentRunId = some parentRunId := isParent
        rw [hasParent] at same
        refine ⟨matched, Table.mem_save.mpr
          (Or.inl ⟨rfl, parent, parentMember, sameId.symm⟩), ?_⟩
        rw [sameId]
        exact Option.some.inj same
      · exact (forall_mem_saveRun_iff parentMember ok fun _ isActive conversationId =>
          isActive → conversationId ≠ request.conversationId).mpr idle
    have admitted : admitRun env request = .ok () := by
      rw [admitRun, if_neg fun limited => limited.2 resumes]
    refine ⟨(after, newRun env request policy), ?_⟩
    simp only [acceptOwnedExecution, acquireExecutionProof, createRunFromLockedProof,
      bind_eq_ok, ensure_eq_ok]
    exact ⟨_, ⟨(), locks, rfl⟩, (), agentTree, (), rfl, (), Or.inl covers, (), covers, (), held,
      (), notStopped, policy, hasPolicy, none, getActiveRun_idle actor idle, (), rfl, _,
      resumable, (), admitted, after, inserted, rfl⟩

end

end NaturalMold.Conversations

import NaturalMold.CarriedWaits

/-! # Requests and the runs that wait on them -/

namespace NaturalMold.ApprovalWaiters

open Approvals (ApprovalRequest PendingInterrupt RecordEnvironment)
open Conversations (Uuid Time RunStatus runActiveStatuses)
open KeyedTables PendingCalls StepRuns

/-- The links between runs, requests and the runs that wait. -/
structure Linked (db : Database) : Prop where
  owned : ∀ waiter ∈ db.waiters.rows, ∃ run ∈ db.runs.rows,
    run.id = waiter.conversationRunId ∧ run.parentRunId = none
  single : ∀ first ∈ db.waiters.rows, ∀ second ∈ db.waiters.rows,
    first.conversationRunId = second.conversationRunId → first.key = second.key
  stopped : ∀ row ∈ db.requests.rows, ∃ run ∈ db.runs.rows,
    run.id = row.request.runId ∧ run.status = .interrupted
  resumes : ∀ row ∈ db.requests.rows, ∀ id, row.request.resumedRunId = some id →
    ∃ run ∈ db.runs.rows, run.id = id ∧ run.parentRunId = some row.request.runId
  first : ∀ row ∈ db.requests.rows, ∀ run ∈ db.runs.rows, run.id = row.request.runId →
    run.parentRunId = none → ∃ waiter ∈ db.waiters.rows, waiter.conversationRunId = run.id ∧
      ∀ kind, row.waiterId kind = originId (some waiter.key) kind
  later : ∀ row ∈ db.requests.rows, ∀ run ∈ db.runs.rows, run.id = row.request.runId →
    run.parentRunId ≠ none →
      (∀ parent ∈ db.requests.rows, parent.request.resumedRunId = some run.id →
        ∀ kind, row.waiterId kind = parent.waiterId kind) ∧
      ((∀ parent ∈ db.requests.rows, parent.request.resumedRunId ≠ some run.id) →
        ∀ kind, row.waiterId kind = none)

/-- The recordings under way have the origin that their run has. -/
def OriginsKnown (db : Database) (executions : List (List Call)) : Prop :=
  ∀ env runId origin interrupts, UnderWay executions (.record env runId origin interrupts) →
    (∀ key, origin = some key → ∃ waiter ∈ db.waiters.rows,
      waiter.key = key ∧ waiter.conversationRunId = runId) ∧
    (origin = none → ∃ run ∈ db.runs.rows, run.id = runId ∧ run.parentRunId ≠ none)

/-- Each run stays, with the run that it continues, and stays interrupted. -/
def RunsKept (before after : Database) : Prop :=
  ∀ run ∈ before.runs.rows, ∃ later ∈ after.runs.rows, later.id = run.id ∧
    later.parentRunId = run.parentRunId ∧ (run.status = .interrupted → later.status = .interrupted)

theorem runsKept_of_eq {before after : Database} (same : after.runs = before.runs) :
    RunsKept before after :=
  fun run member => ⟨run, same ▸ member, rfl, rfl, id⟩

def WaitersKept (before after : Database) : Prop :=
  (∀ waiter ∈ before.waiters.rows, ∃ later ∈ after.waiters.rows, later.key = waiter.key ∧
    later.conversationRunId = waiter.conversationRunId) ∧
  ∀ later ∈ after.waiters.rows, ∃ waiter ∈ before.waiters.rows, waiter.key = later.key ∧
    waiter.conversationRunId = later.conversationRunId

theorem waitersKept_of_eq {before after : Database} (same : after.waiters = before.waiters) :
    WaitersKept before after := by
  unfold WaitersKept
  rw [same]
  exact ⟨fun waiter member => ⟨waiter, member, rfl, rfl⟩,
    fun waiter member => ⟨waiter, member, rfl, rfl⟩⟩

theorem waitersKept_updateWhere {before after : Database} {test : Waiter → Bool}
    {status : WaiterStatus}
    (keeps : ∀ waiter : Waiter, ({ waiter with status } : Waiter).key = waiter.key)
    (waiters : after.waiters =
      before.waiters.updateWhere test (fun waiter => { waiter with status }) keeps) :
    WaitersKept before after := by
  unfold WaitersKept
  rw [waiters]
  constructor
  · intro waiter member
    by_cases tested : test waiter
    · exact ⟨{ waiter with status },
        Table.mem_updateWhere.mpr (Or.inl ⟨waiter, member, tested, rfl⟩), rfl, rfl⟩
    · exact ⟨waiter, Table.mem_updateWhere.mpr (Or.inr ⟨member, tested⟩), rfl, rfl⟩
  · intro later member
    rcases Table.mem_updateWhere.mp member with ⟨waiter, old, _, rfl⟩ | ⟨old, _⟩
    · exact ⟨waiter, old, rfl, rfl⟩
    · exact ⟨later, old, rfl, rfl⟩

theorem mem_setRun {db : Database} {id : Uuid} {status : RunStatus} {run : ConversationRun} :
    run ∈ (db.setRun id status).runs.rows ↔
      (∃ old ∈ db.runs.rows, old.id = id ∧ run = { old with status }) ∨
        (run ∈ db.runs.rows ∧ run.id ≠ id) := by
  unfold Database.setRun
  rw [Table.mem_updateWhere]
  simp only [decide_eq_true_eq, ne_eq]

theorem mem_setStatus {db : Database} {key : WaiterKey} {status : WaiterStatus}
    {waiter : Waiter} :
    waiter ∈ (db.setStatus key status).waiters.rows ↔
      (∃ old ∈ db.waiters.rows, old.key = key ∧ waiter = { old with status }) ∨
        (waiter ∈ db.waiters.rows ∧ waiter.key ≠ key) := by
  unfold Database.setStatus
  rw [Table.mem_updateWhere]
  simp only [decide_eq_true_eq, ne_eq]

theorem runsKept_setRun {db after : Database} {id : Uuid} {status : RunStatus}
    (runs : after.runs = (db.setRun id status).runs)
    (active : ∀ run ∈ db.runs.rows, run.id = id → run.status ≠ .interrupted) :
    RunsKept db after := by
  intro run member
  rw [runs]
  by_cases same : run.id = id
  · exact ⟨{ run with status }, mem_setRun.mpr (Or.inl ⟨run, member, same, rfl⟩), rfl, rfl,
      fun interrupted => absurd interrupted (active run member same)⟩
  · exact ⟨run, mem_setRun.mpr (Or.inr ⟨member, same⟩), rfl, rfl,
      fun interrupted => interrupted⟩

namespace Linked

variable {db : Database}

theorem alike (linked : Linked db) {first second : WaiterRequest}
    (firstMember : first ∈ db.requests.rows) (secondMember : second ∈ db.requests.rows)
    (same : first.request.runId = second.request.runId) (kind : WaiterKind) :
    first.waiterId kind = second.waiterId kind := by
  obtain ⟨run, runMember, runId, _⟩ := linked.stopped first firstMember
  by_cases root : run.parentRunId = none
  · obtain ⟨waiter, member, owns, waits⟩ := linked.first first firstMember run runMember runId root
    obtain ⟨other, otherMember, otherOwns, otherWaits⟩ :=
      linked.first second secondMember run runMember (runId.trans same) root
    rw [waits, otherWaits,
      linked.single waiter member other otherMember (owns.trans otherOwns.symm)]
  · obtain ⟨firstLike, firstNone⟩ := linked.later first firstMember run runMember runId root
    obtain ⟨secondLike, secondNone⟩ :=
      linked.later second secondMember run runMember (runId.trans same) root
    by_cases parents : ∃ parent ∈ db.requests.rows, parent.request.resumedRunId = some run.id
    · obtain ⟨parent, member, resumes⟩ := parents
      rw [firstLike parent member resumes, secondLike parent member resumes]
    · have none : ∀ parent ∈ db.requests.rows, parent.request.resumedRunId ≠ some run.id :=
        fun parent member resumes => parents ⟨parent, member, resumes⟩
      rw [firstNone none, secondNone none]

theorem alike_of_resumed (linked : Linked db) {first second : WaiterRequest}
    (firstMember : first ∈ db.requests.rows) (secondMember : second ∈ db.requests.rows) {id : Uuid}
    (firstResumed : first.request.resumedRunId = some id)
    (secondResumed : second.request.resumedRunId = some id) (kind : WaiterKind) :
    first.waiterId kind = second.waiterId kind := by
  obtain ⟨run, runMember, runId, firstParent⟩ := linked.resumes first firstMember id firstResumed
  obtain ⟨other, otherMember, otherId, secondParent⟩ :=
    linked.resumes second secondMember id secondResumed
  obtain rfl := db.runs.eq_of_key_eq runMember otherMember (runId.trans otherId.symm)
  exact linked.alike firstMember secondMember
    (Option.some.inj (firstParent.symm.trans secondParent)) kind

theorem congr (linked : Linked db) {after : Database} (requests : after.requests = db.requests)
    (runs : RunsKept db after) (waiters : WaitersKept db after)
    (runsBack : ∀ run ∈ after.runs.rows, (∃ old ∈ db.runs.rows, old.id = run.id ∧
      old.parentRunId = run.parentRunId) ∨ ∀ old ∈ db.runs.rows, old.id ≠ run.id) :
    Linked after := by
  -- a run that a request belongs to was there before
  have back : ∀ row ∈ db.requests.rows, ∀ run ∈ after.runs.rows, run.id = row.request.runId →
      ∃ old ∈ db.runs.rows, old.id = run.id ∧ old.parentRunId = run.parentRunId := by
    intro row member run runMember runId
    obtain ⟨stopped, stoppedMember, stoppedId, _⟩ := linked.stopped row member
    rcases runsBack run runMember with old | fresh
    · exact old
    · exact absurd (stoppedId.trans runId.symm) (fresh stopped stoppedMember)
  constructor
  case owned =>
      intro waiter member
      obtain ⟨old, oldMember, _, owns⟩ := waiters.2 waiter member
      obtain ⟨run, runMember, runId, root⟩ := linked.owned old oldMember
      obtain ⟨later, laterMember, laterId, laterParent, _⟩ := runs run runMember
      exact ⟨later, laterMember, laterId.trans (runId.trans owns), laterParent.trans root⟩
  case single =>
      intro first firstMember second secondMember same
      obtain ⟨oldFirst, oldFirstMember, firstKey, firstOwns⟩ := waiters.2 first firstMember
      obtain ⟨oldSecond, oldSecondMember, secondKey, secondOwns⟩ := waiters.2 second secondMember
      rw [← firstKey, ← secondKey]
      exact linked.single oldFirst oldFirstMember oldSecond oldSecondMember
        (firstOwns.trans (same.trans secondOwns.symm))
  case stopped =>
      intro row member
      rw [requests] at member
      obtain ⟨run, runMember, runId, stopped⟩ := linked.stopped row member
      obtain ⟨later, laterMember, laterId, _, stays⟩ := runs run runMember
      exact ⟨later, laterMember, laterId.trans runId, stays stopped⟩
  case resumes =>
      intro row member id resumed
      rw [requests] at member
      obtain ⟨run, runMember, runId, parent⟩ := linked.resumes row member id resumed
      obtain ⟨later, laterMember, laterId, laterParent, _⟩ := runs run runMember
      exact ⟨later, laterMember, laterId.trans runId, laterParent.trans parent⟩
  case first =>
      intro row member run runMember runId root
      rw [requests] at member
      obtain ⟨old, oldMember, oldId, oldParent⟩ := back row member run runMember runId
      obtain ⟨waiter, waiterMember, owns, waits⟩ :=
        linked.first row member old oldMember (oldId.trans runId) (oldParent.trans root)
      obtain ⟨later, laterMember, laterKey, laterOwns⟩ := waiters.1 waiter waiterMember
      exact ⟨later, laterMember, laterOwns.trans (owns.trans oldId), laterKey ▸ waits⟩
  case later =>
  intro row member run runMember runId root
  rw [requests] at member
  obtain ⟨old, oldMember, oldId, oldParent⟩ := back row member run runMember runId
  have waits := linked.later row member old oldMember (oldId.trans runId) (oldParent ▸ root)
  rw [oldId] at waits
  rw [requests]
  exact waits

end Linked

theorem OriginsKnown.congr {before after : Database} {executions calls : List (List Call)}
    (origins : OriginsKnown before executions) (waiters : ∀ waiter ∈ before.waiters.rows,
      ∃ later ∈ after.waiters.rows, later.key = waiter.key ∧
        later.conversationRunId = waiter.conversationRunId) (runs : RunsKept before after)
    (fewer : ∀ env runId origin interrupts,
      UnderWay calls (.record env runId origin interrupts) →
        UnderWay executions (.record env runId origin interrupts)) :
    OriginsKnown after calls := by
  intro env runId origin interrupts underWay
  obtain ⟨known, unknown⟩ :=
    origins env runId origin interrupts (fewer env runId origin interrupts underWay)
  constructor
  · intro key same
    obtain ⟨waiter, member, sameKey, owns⟩ := known key same
    obtain ⟨later, laterMember, laterKey, laterOwns⟩ := waiters waiter member
    exact ⟨later, laterMember, laterKey.trans sameKey, laterOwns.trans owns⟩
  · intro same
    obtain ⟨run, member, runId, resumed⟩ := unknown same
    obtain ⟨later, laterMember, laterId, laterParent, _⟩ := runs run member
    exact ⟨later, laterMember, laterId.trans runId, laterParent ▸ resumed⟩

theorem waiterId_change (change : ApprovalRequest → ApprovalRequest) (row : WaiterRequest)
    (kind : WaiterKind) : (row.change change).waiterId kind = row.waiterId kind := by
  cases kind with
  | triggerRun => rfl
  | apiRun => rfl

theorem waits_change {change : ApprovalRequest → ApprovalRequest} {row : WaiterRequest}
    {key : WaiterKey} : (row.change change).Waits key ↔ row.Waits key := by
  unfold WaiterRequest.Waits
  rw [waiterId_change]

namespace Linked

variable {db : Database}

theorem updateWhere (linked : Linked db) {after : Database} {test : WaiterRequest → Bool}
    {change : ApprovalRequest → ApprovalRequest}
    {keeps : ∀ row : WaiterRequest, (row.change change).id = row.id}
    (rows : after.requests = db.requests.updateWhere test (WaiterRequest.change change) keeps)
    (runs : after.runs = db.runs) (waiters : after.waiters = db.waiters)
    (same : ∀ row ∈ db.requests.rows, test row → (change row.request).runId = row.request.runId ∧
      (change row.request).resumedRunId = row.request.resumedRunId) : Linked after := by
  have back : ∀ later ∈ after.requests.rows, ∃ row ∈ db.requests.rows,
      row.request.runId = later.request.runId ∧
        row.request.resumedRunId = later.request.resumedRunId ∧
          ∀ kind, row.waiterId kind = later.waiterId kind := by
    intro later member
    rw [rows] at member
    rcases Table.mem_updateWhere.mp member with ⟨row, old, tested, rfl⟩ | ⟨old, _⟩
    · obtain ⟨run, resumed⟩ := same row old tested
      exact ⟨row, old, run.symm, resumed.symm, fun kind => (waiterId_change change row kind).symm⟩
    · exact ⟨later, old, rfl, rfl, fun _ => rfl⟩
  have forth : ∀ row ∈ db.requests.rows, ∃ later ∈ after.requests.rows,
      later.request.resumedRunId = row.request.resumedRunId ∧
        ∀ kind, later.waiterId kind = row.waiterId kind := by
    intro row member
    rw [rows]
    by_cases tested : test row
    · exact ⟨row.change change, Table.mem_updateWhere.mpr (Or.inl ⟨row, member, tested, rfl⟩),
        (same row member tested).2, waiterId_change change row⟩
    · exact ⟨row, Table.mem_updateWhere.mpr (Or.inr ⟨member, tested⟩), rfl, fun _ => rfl⟩
  constructor
  case owned =>
      rw [runs, waiters]
      exact linked.owned
  case single =>
      rw [waiters]
      exact linked.single
  case stopped =>
      intro later member
      obtain ⟨row, old, sameRun, _, _⟩ := back later member
      rw [runs, ← sameRun]
      exact linked.stopped row old
  case resumes =>
      intro later member id resumed
      obtain ⟨row, old, sameRun, sameResumed, _⟩ := back later member
      rw [runs, ← sameRun]
      exact linked.resumes row old id (sameResumed.trans resumed)
  case first =>
      intro later member run runMember runId root
      obtain ⟨row, old, sameRun, _, sameWaiters⟩ := back later member
      rw [runs] at runMember
      rw [waiters]
      obtain ⟨waiter, waiterMember, owns, waits⟩ :=
        linked.first row old run runMember (runId.trans sameRun.symm) root
      exact ⟨waiter, waiterMember, owns, fun kind => (sameWaiters kind).symm.trans (waits kind)⟩
  case later =>
  intro later member run runMember runId root
  obtain ⟨row, old, sameRun, _, sameWaiters⟩ := back later member
  rw [runs] at runMember
  obtain ⟨like, none⟩ := linked.later row old run runMember (runId.trans sameRun.symm) root
  constructor
  · intro parent parentMember resumes kind
    obtain ⟨oldParent, oldMember, _, sameResumed, parentWaiters⟩ := back parent parentMember
    rw [← sameWaiters, ← parentWaiters]
    exact like oldParent oldMember (sameResumed.trans resumes) kind
  · intro unresumed kind
    rw [← sameWaiters]
    apply none
    intro parent parentMember resumes
    obtain ⟨new, newMember, newResumed, _⟩ := forth parent parentMember
    exact unresumed new newMember (newResumed.trans resumes)

theorem resume (linked : Linked db) {after : Database} {test : WaiterRequest → Bool}
    {change : ApprovalRequest → ApprovalRequest}
    {keeps : ∀ row : WaiterRequest, (row.change change).id = row.id} {run : ConversationRun}
    (rows : after.requests = db.requests.updateWhere test (WaiterRequest.change change) keeps)
    (inserted : db.runs.insert? run = some after.runs) (waiters : after.waiters = db.waiters)
    (changed : ∀ row ∈ db.requests.rows, test row → (change row.request).runId =
      row.request.runId ∧ (change row.request).resumedRunId = some run.id ∧
        run.parentRunId = some row.request.runId ∧ row.request.resumedRunId = none) :
    Linked after := by
  obtain ⟨runRows, fresh⟩ := Table.insert?_eq_some inserted
  have runs : ∀ old ∈ db.runs.rows, old ∈ after.runs.rows := by
    intro old member
    rw [runRows]
    exact List.mem_append_left _ member
  -- a request that is resumed from by an old run was not changed
  have back : ∀ later ∈ after.requests.rows, ∃ row ∈ db.requests.rows,
      row.request.runId = later.request.runId ∧
        (later.request.resumedRunId = row.request.resumedRunId ∨
          later.request.resumedRunId = some run.id ∧ run.parentRunId = some row.request.runId) ∧
          ∀ kind, row.waiterId kind = later.waiterId kind := by
    intro later member
    rw [rows] at member
    rcases Table.mem_updateWhere.mp member with ⟨row, old, tested, rfl⟩ | ⟨old, _⟩
    · obtain ⟨sameRun, resumed, parent, _⟩ := changed row old tested
      exact ⟨row, old, sameRun.symm, Or.inr ⟨resumed, parent⟩,
        fun kind => (waiterId_change change row kind).symm⟩
    · exact ⟨later, old, rfl, Or.inl rfl, fun _ => rfl⟩
  have forth : ∀ row ∈ db.requests.rows, ∀ id, row.request.resumedRunId = some id →
      row ∈ after.requests.rows := by
    intro row member id resumed
    rw [rows]
    refine Table.mem_updateWhere.mpr (Or.inr ⟨member, fun tested => ?_⟩)
    obtain ⟨_, _, _, unresumed⟩ := changed row member tested
    rw [unresumed] at resumed
    cases resumed
  -- the run of a request is an old one
  have oldRun : ∀ row ∈ db.requests.rows, ∀ other ∈ after.runs.rows,
      other.id = row.request.runId → other ∈ db.runs.rows := by
    intro row member other otherMember sameId
    obtain ⟨stopped, stoppedMember, stoppedId, _⟩ := linked.stopped row member
    rw [runRows, List.mem_append, List.mem_singleton] at otherMember
    rcases otherMember with old | rfl
    · exact old
    · exact absurd (stoppedId.trans sameId.symm) (fresh stopped stoppedMember)
  constructor
  case owned =>
      intro waiter member
      rw [waiters] at member
      obtain ⟨old, oldMember, owns⟩ := linked.owned waiter member
      exact ⟨old, runs old oldMember, owns⟩
  case single =>
      rw [waiters]
      exact linked.single
  case stopped =>
      intro later member
      obtain ⟨row, old, sameRun, _, _⟩ := back later member
      obtain ⟨stopped, stoppedMember, isStopped⟩ := linked.stopped row old
      rw [← sameRun]
      exact ⟨stopped, runs stopped stoppedMember, isStopped⟩
  case resumes =>
      intro later member id resumed
      obtain ⟨row, old, sameRun, unchanged | ⟨new, parent⟩, _⟩ := back later member
      · obtain ⟨other, otherMember, isResumed⟩ :=
          linked.resumes row old id (unchanged.symm.trans resumed)
        rw [← sameRun]
        exact ⟨other, runs other otherMember, isResumed⟩
      · refine ⟨run, ?_, Option.some.inj (new.symm.trans resumed), sameRun ▸ parent⟩
        rw [runRows]
        exact List.mem_append_right _ (List.mem_singleton_self run)
  case first =>
      intro later member other otherMember sameId root
      obtain ⟨row, old, sameRun, _, sameWaiters⟩ := back later member
      have otherOld := oldRun row old other otherMember (sameId.trans sameRun.symm)
      obtain ⟨waiter, waiterMember, owns, waits⟩ :=
        linked.first row old other otherOld (sameId.trans sameRun.symm) root
      rw [waiters]
      exact ⟨waiter, waiterMember, owns, fun kind => (sameWaiters kind).symm.trans (waits kind)⟩
  case later =>
  intro later member other otherMember sameId root
  obtain ⟨row, old, sameRun, _, sameWaiters⟩ := back later member
  have otherOld := oldRun row old other otherMember (sameId.trans sameRun.symm)
  obtain ⟨like, none⟩ := linked.later row old other otherOld (sameId.trans sameRun.symm) root
  constructor
  · intro parent parentMember resumes kind
    obtain ⟨oldParent, oldMember, _, unchanged | ⟨new, _⟩, parentWaiters⟩ :=
      back parent parentMember
    · rw [← sameWaiters, ← parentWaiters]
      exact like oldParent oldMember (unchanged.symm.trans resumes) kind
    · exact absurd (Option.some.inj (new.symm.trans resumes)).symm (fresh other otherOld)
  · intro unresumed kind
    rw [← sameWaiters]
    apply none
    intro parent parentMember resumes
    exact unresumed parent (forth parent parentMember other.id resumes) resumes

end Linked

end NaturalMold.ApprovalWaiters

import NaturalMold.WaiterSteps

/-! # Runs that start to wait and requests that are closed -/

namespace NaturalMold.ApprovalWaiters

open Approvals (ApprovalRequest Claim PendingInterrupt RecordEnvironment closed stopped StopsRow)
open Conversations (Uuid Time RunStatus runActiveStatuses)
open KeyedTables PendingCalls StepRuns

theorem claim_eq_some {claimed : Claim} {stamp : Time} {requests after : Table WaiterRequest.id}
    (succeeded : claim claimed stamp requests = some after) :
    (∀ row ∈ requests.rows, claimed.Selects row.request → claimed.Guard stamp row.request) ∧
      after = requests.updateWhere (fun row => claimed.Selects row.request)
        (WaiterRequest.change (claimed.decided stamp)) fun _ => rfl := by
  unfold claim at succeeded
  split at succeeded
  case isFalse => cases succeeded
  case isTrue guarded => exact ⟨guarded, (Option.some.inj succeeded).symm⟩

namespace Sound

variable {state : State}

theorem begin (sound : Sound state) {key : WaiterKey} {run : ConversationRun}
    {runs : Table ConversationRun.id} {waiters : Table Waiter.key}
    (root : run.parentRunId = none) (runInserted : state.db.runs.insert? run = some runs)
    (waiterInserted : state.db.waiters.insert? { key, conversationRunId := run.id } =
      some waiters) : Sound { state with db := { state.db with runs, waiters } } := by
  obtain ⟨runRows, freshRun⟩ := Table.insert?_eq_some runInserted
  obtain ⟨waiterRows, freshKey⟩ := Table.insert?_eq_some waiterInserted
  have oldRun : ∀ old ∈ state.db.runs.rows, old ∈ runs.rows := by
    intro old member
    rw [runRows]
    exact List.mem_append_left _ member
  have oldWaiter : ∀ old ∈ state.db.waiters.rows, old ∈ waiters.rows := by
    intro old member
    rw [waiterRows]
    exact List.mem_append_left _ member
  have runCases : ∀ other ∈ runs.rows, other ∈ state.db.runs.rows ∨ other = run := by
    intro other member
    rw [runRows, List.mem_append, List.mem_singleton] at member
    exact member
  have waiterCases : ∀ waiter ∈ waiters.rows, waiter ∈ state.db.waiters.rows ∨
      waiter = { key, conversationRunId := run.id } := by
    intro waiter member
    rw [waiterRows, List.mem_append, List.mem_singleton] at member
    exact member
  -- the new run is not the run of a request or of a run that waits
  have notOwned : ∀ waiter ∈ state.db.waiters.rows, waiter.conversationRunId ≠ run.id := by
    intro waiter member same
    obtain ⟨old, oldMember, oldId, _⟩ := sound.linked.owned waiter member
    exact freshRun old oldMember (oldId.trans same)
  have notAsked : ∀ row ∈ state.db.requests.rows, row.request.runId ≠ run.id := by
    intro row member same
    obtain ⟨old, oldMember, oldId, _⟩ := sound.linked.stopped row member
    exact freshRun old oldMember (oldId.trans same)
  have linked : Linked { state.db with runs, waiters } := by
    constructor
    case owned =>
        intro waiter member
        rcases waiterCases waiter member with old | rfl
        · obtain ⟨owned, ownedMember, owns⟩ := sound.linked.owned waiter old
          exact ⟨owned, oldRun owned ownedMember, owns⟩
        · refine ⟨run, ?_, rfl, root⟩
          dsimp only
          rw [runRows]
          exact List.mem_append_right _ (List.mem_singleton_self run)
    case single =>
        intro first firstMember second secondMember same
        rcases waiterCases first firstMember with firstOld | rfl
        · rcases waiterCases second secondMember with secondOld | rfl
          · exact sound.linked.single first firstOld second secondOld same
          · exact absurd same (notOwned first firstOld)
        · rcases waiterCases second secondMember with secondOld | rfl
          · exact absurd same.symm (notOwned second secondOld)
          · rfl
    case stopped =>
        intro row member
        obtain ⟨old, oldMember, isStopped⟩ := sound.linked.stopped row member
        exact ⟨old, oldRun old oldMember, isStopped⟩
    case resumes =>
        intro row member id resumed
        obtain ⟨old, oldMember, isResumed⟩ := sound.linked.resumes row member id resumed
        exact ⟨old, oldRun old oldMember, isResumed⟩
    case first =>
        intro row member other otherMember sameId otherRoot
        rcases runCases other otherMember with old | rfl
        · obtain ⟨waiter, waiterMember, waits⟩ :=
            sound.linked.first row member other old sameId otherRoot
          exact ⟨waiter, oldWaiter waiter waiterMember, waits⟩
        · exact absurd sameId.symm (notAsked row member)
    case later =>
    intro row member other otherMember sameId resumed
    rcases runCases other otherMember with old | rfl
    · exact sound.linked.later row member other old sameId resumed
    · exact absurd sameId.symm (notAsked row member)
  constructor
  case linked => exact linked
  case origins =>
      exact sound.origins.congr (fun waiter member => ⟨waiter, oldWaiter waiter member, rfl, rfl⟩)
        (fun old member => ⟨old, oldRun old member, rfl, rfl, id⟩) fun _ _ _ _ => id
  case started =>
      intro waiter member other otherMember owns running
      rcases waiterCases waiter member with old | rfl
      · rcases runCases other otherMember with otherOld | rfl
        · exact sound.started waiter old other otherOld owns running
        · exact absurd owns.symm (notOwned waiter old)
      · rfl
  case asked =>
      intro row member asking waits
      obtain ⟨waiter, waiterMember, moved⟩ := sound.asked row member asking waits
      exact ⟨waiter, oldWaiter waiter waiterMember, moved⟩
  case recording =>
      intro env runId origin interrupts underWay
      obtain ⟨waiter, waiterMember, moved⟩ := sound.recording env runId origin interrupts underWay
      exact ⟨waiter, oldWaiter waiter waiterMember, moved⟩
  case unresumed => exact sound.unresumed
  case counted =>
      intro waiter member
      rcases waiterCases waiter member with old | rfl
      · exact sound.counted waiter old
      · refine List.count_eq_zero.mpr fun listed => ?_
        obtain ⟨waiter, waiterMember, same⟩ := sound.known key listed
        exact freshKey waiter waiterMember same
  case known =>
      intro ended listed
      obtain ⟨waiter, waiterMember, same⟩ := sound.known ended listed
      exact ⟨waiter, oldWaiter waiter waiterMember, same⟩
  case carried =>
  intro waiter member waiting waits
  rcases waiterCases waiter member with old | rfl
  · apply (sound.carried waiter old waiting waits).kept
      (requestsKept_of_mem fun _ rowMember => rowMember)
    case asked =>
        exact fun row rowMember waits pending kept =>
          Or.inl ⟨row, rowMember, waits, pending, kept⟩
    case resumed =>
        exact fun other otherMember kept continues row rowMember resumes waits =>
          Or.inr (Or.inl ⟨row, rowMember, waits, other, oldRun other otherMember, resumes,
            kept, continues⟩)
    case ending =>
        exact fun call underWay ends => Or.inr (Or.inr ⟨call, underWay,
          ends.kept (requestsKept_of_mem fun _ rowMember => rowMember)⟩)
  · cases waiting

/-- A run that stops is recorded with the run that owns it as origin. -/
theorem pauseRun (sound : Sound state) {waiter : Waiter} {run : ConversationRun}
    {after : State} {calls : List Call} (member : waiter ∈ state.db.waiters.rows)
    (runMember : run ∈ state.db.runs.rows) (runId : run.id = waiter.conversationRunId)
    (running : run.status = .running)
    (db : after.db = { state.db.setRun run.id .interrupted with
      waiters := state.db.waiters.updateWhere (fun waiter => waiter.conversationRunId = run.id)
        (fun waiter => { waiter with status := .waiting }) fun _ => rfl })
    (executions : after.executions = state.executions ++ [calls])
    (recorded : ∀ call ∈ calls,
      (∃ env interrupts, call = .record env run.id (some waiter.key) interrupts) ∨
        ∀ env runId origin interrupts, call ≠ .record env runId origin interrupts) :
    Sound after := by
  have started := sound.started waiter member run runMember runId running
  have runs : RunsKept state.db after.db := by
    apply runsKept_setRun
    case runs =>
        rw [db]
    case active =>
        intro other otherMember same
        rw [state.db.runs.eq_of_key_eq otherMember runMember same, running]
        exact RunStatus.noConfusion
  have waiters : WaitersKept state.db after.db := by
    rw [db]
    exact waitersKept_updateWhere (fun _ => rfl) rfl
  have requests : after.db.requests = state.db.requests := by
    rw [db]
    rfl
  have ends : after.db.ends = state.db.ends := by
    rw [db]
    rfl
  have runCases : ∀ other ∈ after.db.runs.rows,
      (∃ old ∈ state.db.runs.rows, old.id = run.id ∧ other = { old with status := .interrupted }) ∨
        (other ∈ state.db.runs.rows ∧ other.id ≠ run.id) := by
    rw [db]
    exact fun other otherMember => mem_setRun.mp otherMember
  have mem_waiters : ∀ other, other ∈ after.db.waiters.rows ↔
      (∃ old ∈ state.db.waiters.rows, old.conversationRunId = run.id ∧
        other = { old with status := .waiting }) ∨
          (other ∈ state.db.waiters.rows ∧ other.conversationRunId ≠ run.id) := by
    intro other
    rw [db, Table.mem_updateWhere]
    simp only [decide_eq_true_eq, ne_eq]
  -- only the run that owns the stopped one waits from now on
  have waiterCases : ∀ other ∈ after.db.waiters.rows,
      other = { waiter with status := .waiting } ∨
        (other ∈ state.db.waiters.rows ∧ other.conversationRunId ≠ run.id) := by
    intro other otherMember
    rcases (mem_waiters other).mp otherMember with ⟨old, oldMember, owns, rfl⟩ | apart
    · have sameKey := sound.linked.single old oldMember waiter member (owns.trans runId)
      rw [state.db.waiters.eq_of_key_eq oldMember member sameKey]
      exact Or.inl rfl
    · exact Or.inr apart
  have waits : { waiter with status := .waiting } ∈ after.db.waiters.rows :=
    (mem_waiters _).mpr (Or.inl ⟨waiter, member, runId.symm, rfl⟩)
  have moved : ∀ key, (∃ old ∈ state.db.waiters.rows, old.key = key ∧ old.status ≠ .running) →
      ∃ later ∈ after.db.waiters.rows, later.key = key ∧ later.status ≠ .running := by
    rintro key ⟨old, oldMember, rfl, oldMoved⟩
    refine ⟨old, (mem_waiters old).mpr (Or.inr ⟨oldMember, fun owns => ?_⟩), rfl, oldMoved⟩
    have sameKey := sound.linked.single old oldMember waiter member (owns.trans runId)
    rw [state.db.waiters.eq_of_key_eq oldMember member sameKey] at oldMoved
    exact oldMoved started
  have underWay : ∀ call, UnderWay after.executions call →
      UnderWay state.executions call ∨ call ∈ calls := by
    rw [executions]
    exact fun call => underWay_concat.mp
  constructor
  case linked =>
      apply sound.linked.congr requests runs waiters
      intro other otherMember
      rcases runCases other otherMember with ⟨old, oldMember, _, rfl⟩ | ⟨old, _⟩
      · exact Or.inl ⟨old, oldMember, rfl, rfl⟩
      · exact Or.inl ⟨other, old, rfl, rfl⟩
  case origins =>
      intro env other origin interrupts started
      rcases underWay _ started with before | added
      · exact sound.origins.congr waiters.1 runs (fun _ _ _ _ => id) env other origin interrupts
          before
      · rcases recorded _ added with ⟨otherEnv, otherInterrupts, same⟩ | apart
        · obtain ⟨rfl, rfl, rfl, rfl⟩ := Call.record.inj same
          constructor
          · rintro key same
            obtain rfl := Option.some.inj same
            exact ⟨_, waits, rfl, runId.symm⟩
          · intro none
            cases none
        · exact absurd rfl (apart env other origin interrupts)
  case started =>
      intro other otherMember first firstMember owns stillRunning
      rcases runCases first firstMember with ⟨old, _, _, rfl⟩ | ⟨old, apart⟩
      · cases stillRunning
      · rcases waiterCases other otherMember with rfl | ⟨otherOld, _⟩
        · exact absurd (owns.trans runId.symm) apart
        · exact sound.started other otherOld first old owns stillRunning
  case asked =>
      intro row rowMember key rowWaits
      rw [requests] at rowMember
      exact moved key (sound.asked row rowMember key rowWaits)
  case recording =>
      intro env other key interrupts recording
      rcases underWay _ recording with before | added
      · exact moved key (sound.recording env other key interrupts before)
      · rcases recorded _ added with ⟨otherEnv, otherInterrupts, same⟩ | apart
        · obtain ⟨_, _, sameKey, _⟩ := Call.record.inj same
          obtain rfl := Option.some.inj sameKey
          exact ⟨_, waits, rfl, WaiterStatus.noConfusion⟩
        · exact absurd rfl (apart env other (some key) interrupts)
  case unresumed =>
      rw [requests]
      exact sound.unresumed
  case counted =>
      intro other otherMember
      rw [ends]
      rcases waiterCases other otherMember with rfl | ⟨old, _⟩
      · have counted := sound.counted waiter member
        rw [started] at counted
        exact counted
      · exact sound.counted other old
  case known =>
      intro key listed
      rw [ends] at listed
      obtain ⟨old, oldMember, rfl⟩ := sound.known key listed
      obtain ⟨later, laterMember, laterKey, _⟩ := waiters.1 old oldMember
      exact ⟨later, laterMember, laterKey⟩
  case carried =>
  rintro other otherMember waiting ⟨row, rowMember, rowWaits⟩
  rw [requests] at rowMember
  have stays : RequestsKept state.db after.db := by
    apply requestsKept_of_mem
    rw [requests]
    exact fun _ => id
  rcases waiterCases other otherMember with rfl | ⟨old, _⟩
  · obtain ⟨same, sameMember, sameKey, sameMoved⟩ :=
      sound.asked row rowMember waiter.key rowWaits
    rw [state.db.waiters.eq_of_key_eq sameMember member sameKey] at sameMoved
    exact absurd started sameMoved
  · apply (sound.carried other old waiting ⟨row, rowMember, rowWaits⟩).kept stays
    case asked =>
        intro first firstMember firstWaits pending kept
        exact Or.inl ⟨first, requests ▸ firstMember, firstWaits, pending, kept⟩
    case resumed =>
        intro resumed resumedMember kept continues first firstMember resumes firstWaits
        -- a resumed run continues another, and is not the one that stops
        have apart : resumed.id ≠ run.id := by
          intro same
          rw [requests] at firstMember
          obtain ⟨child, childMember, childId, parent⟩ :=
            sound.linked.resumes first firstMember resumed.id resumes
          obtain ⟨owned, ownedMember, ownedId, root⟩ := sound.linked.owned waiter member
          rw [state.db.runs.eq_of_key_eq childMember ownedMember
            (childId.trans (same.trans (runId.trans ownedId.symm))), root] at parent
          cases parent
        have after : resumed ∈ after.db.runs.rows := by
          rw [db]
          exact mem_setRun.mpr (Or.inr ⟨resumedMember, apart⟩)
        refine Or.inr
          (Or.inl ⟨first, firstMember, firstWaits, resumed, after, resumes, kept, ?_⟩)
        unfold Continues
        rw [requests]
        exact continues
    case ending =>
    intro call calling callEnds
    refine Or.inr (Or.inr ⟨call, ?_, callEnds.kept stays⟩)
    rw [executions]
    exact underWay_concat.mpr (Or.inl calling)

/-- A run of the conversation that stops stores the run that owns it as waiting. -/
theorem pause (sound : Sound state) (key : WaiterKey) (env : RecordEnvironment)
    (interrupts : List PendingInterrupt) : Sound (state.pause key env interrupts) := by
  unfold State.pause
  split
  case h_1 => exact sound
  case h_2 waiter found =>
  obtain ⟨member, rfl⟩ := Table.get?_eq_some_iff.mp found
  split
  case h_1 => exact sound
  case h_2 run foundRun =>
  obtain ⟨runMember, runId⟩ := Table.get?_eq_some_iff.mp foundRun
  split
  case isTrue => exact sound
  case isFalse running =>
  rw [not_not] at running
  exact sound.pauseRun member runMember runId running rfl rfl (by
    intro call listed
    rcases List.mem_cons.mp listed with first | later
    · exact Or.inl ⟨env, interrupts, first⟩
    · right
      split at later
      case h_1 =>
          rw [List.mem_singleton.mp later]
          rintro _ _ _ _ ⟨⟩
      case h_2 => cases later)

theorem changeRequests (sound : Sound state) {after : State} {test : WaiterRequest → Bool}
    {change : ApprovalRequest → ApprovalRequest}
    {keeps : ∀ row : WaiterRequest, (row.change change).id = row.id} (linked : Linked after.db)
    (requests : after.db.requests =
      state.db.requests.updateWhere test (WaiterRequest.change change) keeps)
    (waiters : after.db.waiters = state.db.waiters) (ends : after.db.ends = state.db.ends)
    (runs : ∀ run ∈ state.db.runs.rows, run ∈ after.db.runs.rows)
    (roots : ∀ run ∈ after.db.runs.rows, run.parentRunId = none → run ∈ state.db.runs.rows)
    (calls : ∀ call, UnderWay state.executions call → UnderWay after.executions call)
    (fewer : ∀ env runId origin interrupts,
      UnderWay after.executions (.record env runId origin interrupts) →
        UnderWay state.executions (.record env runId origin interrupts))
    (tested : ∀ row ∈ state.db.requests.rows, test row → row.request.status = .pending)
    (changed : ∀ row ∈ state.db.requests.rows, test row →
      (change row.request).runId = row.request.runId ∧
        (change row.request).status ≠ .pending)
    (handedOn : ∀ waiter ∈ state.db.waiters.rows, waiter.status = .waiting →
      (∃ row ∈ state.db.requests.rows, row.Waits waiter.key) →
        ∃ skip, Carried state skip (fun _ => False) waiter.key ∧
          ∀ row ∈ state.db.requests.rows, test row → row.Waits waiter.key → ¬ skip row →
            StillCarried after waiter.key) : Sound after := by
  have kept : RequestsKept state.db after.db :=
    requestsKept_updateWhere requests tested sound.unresumed
  have back : ∀ later ∈ after.db.requests.rows,
      (∃ row ∈ state.db.requests.rows, test row ∧ later = row.change change) ∨
        (later ∈ state.db.requests.rows ∧ ¬ test later) := by
    rw [requests]
    exact fun later member => Table.mem_updateWhere.mp member
  have waited : ∀ later ∈ after.db.requests.rows, ∀ key, later.Waits key →
      ∃ row ∈ state.db.requests.rows, row.Waits key := by
    intro later member key waits
    rcases back later member with ⟨row, old, _, rfl⟩ | ⟨old, _⟩
    · exact ⟨row, old, waits_change.mp waits⟩
    · exact ⟨later, old, waits⟩
  apply sound.frame
  case linked => exact linked
  case origins =>
      exact sound.origins.congr (waitersKept_of_eq waiters).1
        (fun run member => ⟨run, runs run member, rfl, rfl, id⟩) fewer
  case waiters => exact waiters
  case ends => exact ends
  case runs => exact roots
  case asked => exact fun row member key waits => Or.inl (waited row member key waits)
  case recording => exact fun env runId key interrupts => fewer env runId (some key) interrupts
  case unresumed =>
      intro later member pending
      rcases back later member with ⟨row, old, passes, rfl⟩ | ⟨old, _⟩
      · exact absurd pending (changed row old passes).2
      · exact sound.unresumed later old pending
  case carried =>
  rintro waiter member waiting ⟨later, laterMember, waits⟩
  obtain ⟨skip, carried, handed⟩ :=
    handedOn waiter member waiting (waited later laterMember waiter.key waits)
  apply carried.kept kept
  case asked =>
      intro row rowMember rowWaits pending unskipped
      by_cases passes : test row
      · exact handed row rowMember passes rowWaits unskipped
      · refine Or.inl ⟨row, ?_, rowWaits, pending, id⟩
        rw [requests]
        exact Table.mem_updateWhere.mpr (Or.inr ⟨rowMember, passes⟩)
  case resumed =>
      intro run runMember unskipped continues row rowMember resumes rowWaits
      refine Or.inr (Or.inl ⟨row, rowMember, rowWaits, run, runs run runMember, resumes,
        unskipped, ?_⟩)
      rcases continues with active | ⟨stopped, unrecorded⟩
      · exact Or.inl active
      · refine Or.inr ⟨stopped, fun later laterMember => ?_⟩
        rcases back later laterMember with ⟨old, oldMember, passes, rfl⟩ | ⟨old, _⟩
        · exact fun same =>
            unrecorded old oldMember ((changed old oldMember passes).1.symm.trans same)
        · exact unrecorded later old
  case ending =>
      exact fun call underWay callEnds =>
        Or.inr (Or.inr ⟨call, calls call underWay, callEnds.kept kept⟩)

theorem cancel (sound : Sound state) {after : State} {test : WaiterRequest → Bool}
    {change : ApprovalRequest → ApprovalRequest}
    {keeps : ∀ row : WaiterRequest, (row.change change).id = row.id} {requestIds : List Uuid}
    (db : after.db = { state.db with
      requests := state.db.requests.updateWhere test (WaiterRequest.change change) keeps })
    (executions : after.executions = state.executions ++ [abandonBestEffort requestIds])
    (tested : ∀ row ∈ state.db.requests.rows, test row →
      row.request.status = .pending ∧ row.id ∈ requestIds)
    (changed : ∀ request : ApprovalRequest, (change request).runId = request.runId ∧
      (change request).resumedRunId = request.resumedRunId ∧
        (change request).status = .canceled) : Sound after := by
  have requests : after.db.requests =
      state.db.requests.updateWhere test (WaiterRequest.change change) keeps := by
    rw [db]
  have underWay : ∀ call, UnderWay after.executions call ↔
      UnderWay state.executions call ∨ call ∈ abandonBestEffort requestIds := by
    rw [executions]
    exact fun call => underWay_concat
  apply sound.changeRequests
  case linked =>
      apply sound.linked.updateWhere requests
      case runs => rw [db]
      case waiters => rw [db]
      case same => exact fun row _ _ => ⟨(changed row.request).1, (changed row.request).2.1⟩
  case requests => exact requests
  case waiters => rw [db]
  case ends => rw [db]
  case runs =>
      rw [db]
      exact fun _ => id
  case roots =>
      rw [db]
      exact fun _ member _ => member
  case calls => exact fun call before => (underWay call).mpr (Or.inl before)
  case fewer =>
      intro env runId origin interrupts recording
      rcases (underWay _).mp recording with before | added
      · exact before
      · unfold abandonBestEffort at added
        split at added
        case isTrue => cases added
        case isFalse => simp at added
  case tested => exact fun row member passes => (tested row member passes).1
  case changed =>
      intro row _ _
      rw [(changed row.request).1, (changed row.request).2.2]
      exact ⟨rfl, by simp⟩
  case handedOn =>
  intro waiter member waiting waits
  refine ⟨_, sound.carried waiter member waiting waits, ?_⟩
  intro row rowMember passes rowWaits _
  have listed := (tested row rowMember passes).2
  have canceled : row.change change ∈ after.db.requests.rows := by
    rw [requests]
    exact Table.mem_updateWhere.mpr (Or.inl ⟨row, rowMember, passes, rfl⟩)
  refine Or.inr (Or.inr ⟨.abandon waiter.key.kind requestIds, ?_, rfl,
    row.change change, canceled, ?_, (changed row.request).2.2, waits_change.mpr rowWaits⟩)
  · refine (underWay _).mpr (Or.inr ?_)
    unfold abandonBestEffort
    rw [if_neg (List.ne_nil_of_mem listed)]
    cases waiter.key.kind with
    | triggerRun => exact List.mem_cons_self
    | apiRun => exact List.mem_cons_of_mem _ (List.mem_singleton_self _)
  · rw [keeps]
    exact listed

theorem close (sound : Sound state) (requestId : Uuid) (reason : String) (stamp : Time) :
    Sound (state.close requestId reason stamp) := by
  apply sound.cancel
  case db => rfl
  case executions => rfl
  case tested =>
      intro row _ passes
      rw [Bool.and_eq_true, decide_eq_true_eq, decide_eq_true_eq] at passes
      exact ⟨passes.2, List.mem_singleton.mpr passes.1⟩
  case changed => exact fun _ => ⟨rfl, rfl, rfl⟩

theorem stop (sound : Sound state) (agentIds : List Uuid) (stamp : Time) :
    Sound (state.stop agentIds stamp) := by
  apply sound.cancel
  case db => rfl
  case executions => rfl
  case tested =>
      intro row member passes
      refine ⟨(of_decide_eq_true passes).2, ?_⟩
      exact List.mem_map_of_mem (List.mem_filter.mpr ⟨member, passes⟩)
  case changed => exact fun _ => ⟨rfl, rfl, rfl⟩

/-- An expiry that resumes nothing leaves what its condition names. -/
theorem expire (sound : Sound state) {requestId : Uuid} {actions : ℕ} {stamp : Time}
    (keeps : KeepsCarried state (.expire requestId actions stamp)) :
    Sound (state.expire requestId actions stamp) := by
  unfold State.expire
  split
  case h_1 => exact sound
  case h_2 row found =>
  obtain ⟨member, rowId⟩ := Table.get?_eq_some_iff.mp found
  split
  case isTrue => exact sound
  case isFalse pending =>
  rw [not_not] at pending
  split
  case h_1 => exact sound
  case h_2 requests claimed =>
  obtain ⟨guarded, changed⟩ := claim_eq_some claimed
  apply sound.changeRequests
  case requests => exact changed
  case linked =>
      apply sound.linked.updateWhere changed
      case runs => rfl
      case waiters => rfl
      case same =>
      intro other otherMember selects
      have selected := of_decide_eq_true selects
      refine ⟨rfl, ?_⟩
      exact (sound.unresumed other otherMember
        (guarded other otherMember selected).1).symm
  case waiters => rfl
  case ends => rfl
  case runs => exact fun _ => id
  case roots => exact fun _ runMember _ => runMember
  case calls => exact fun _ => id
  case fewer => exact fun _ _ _ _ => id
  case tested =>
      exact fun other otherMember selects =>
        (guarded other otherMember (of_decide_eq_true selects)).1
  case changed =>
      exact fun other _ _ => ⟨rfl,
        (expiryClaim row.request actions).statusOf_ne_pending other.request⟩
  case handedOn =>
  intro waiter waiterMember waiting waits
  refine ⟨fun other =>
    (expiryClaim row.request actions).Selects other.request, ?_, ?_⟩
  · by_cases selected : ∃ other ∈ state.db.requests.rows,
        (expiryClaim row.request actions).Selects other.request ∧
          other.Waits waiter.key
    · exact keeps row member rowId pending waiter waiterMember waiting selected
    · rcases sound.carried waiter waiterMember waiting waits with
        ⟨other, otherMember, otherWaits, otherPending, _⟩ | others
      · exact Or.inl ⟨other, otherMember, otherWaits, otherPending,
          fun selects => selected ⟨other, otherMember, selects, otherWaits⟩⟩
      · exact Or.inr others
  · exact fun other _ selects _ unskipped =>
      absurd (of_decide_eq_true selects) unskipped

end Sound

end NaturalMold.ApprovalWaiters

import NaturalMold.WaiterEvents

/-! # Runs of the system of waiting runs -/

namespace NaturalMold.ApprovalWaiters

open Approvals (ApprovalRequest Claim PendingInterrupt RecordEnvironment)
open Conversations (Uuid Time RunStatus runActiveStatuses)
open KeyedTables PendingCalls StepRuns

namespace Sound

variable {state : State}

/-- Requests that are decided are carried on by the run that they resume. -/
theorem resume (sound : Sound state) (claimed : Claim) (stamp : Time) (run : ConversationRun) :
    Sound (state.resume claimed stamp run) := by
  unfold State.resume
  split
  case h_1 => exact sound
  case h_2 requests succeeded =>
  obtain ⟨guarded, changed⟩ := claim_eq_some succeeded
  split
  case h_1 => exact sound
  case h_2 runs inserted =>
  obtain ⟨runRows, _⟩ := Table.insert?_eq_some inserted
  have old : ∀ other ∈ state.db.runs.rows, other ∈ runs.rows := by
    intro other member
    rw [runRows]
    exact List.mem_append_left _ member
  have new : { run with parentRunId := some claimed.runId, status := .queued } ∈
      runs.rows := by
    rw [runRows]
    exact List.mem_append_right _ (List.mem_singleton_self _)
  apply sound.changeRequests
  case requests => exact changed
  case linked =>
      apply sound.linked.resume changed
      case inserted => exact inserted
      case waiters => rfl
      case changed =>
      intro row member selects
      have selected := of_decide_eq_true selects
      exact ⟨rfl, rfl, congrArg some selected.1.symm,
        sound.unresumed row member (guarded row member selected).1⟩
  case waiters => rfl
  case ends => rfl
  case runs => exact old
  case roots =>
      intro other member root
      dsimp only at member
      rw [runRows, List.mem_append, List.mem_singleton] at member
      rcases member with before | rfl
      · exact before
      · cases root
  case calls => exact fun _ => id
  case fewer => exact fun _ _ _ _ => id
  case tested =>
      exact fun row member selects =>
        (guarded row member (of_decide_eq_true selects)).1
  case changed =>
      exact fun row _ _ => ⟨rfl, Claim.statusOf_ne_pending
        { claimed with resumedRunId := some run.id } row.request⟩
  case handedOn =>
  intro waiter member waiting waits
  refine ⟨_, sound.carried waiter member waiting waits, ?_⟩
  intro row rowMember selects rowWaits _
  have continued : row.change (Claim.decided
      { claimed with resumedRunId := some run.id } stamp) ∈ requests.rows := by
    rw [changed]
    exact Table.mem_updateWhere.mpr (Or.inl ⟨row, rowMember, selects, rfl⟩)
  exact Or.inr (Or.inl ⟨_, continued, waits_change.mpr rowWaits, _, new, rfl, id,
    Or.inl rfl⟩)

theorem changeRun (sound : Sound state) {after : State} {run : ConversationRun}
    {status : RunStatus} (member : run ∈ state.db.runs.rows) (resumed : run.parentRunId ≠ none)
    (active : runActiveStatuses.contains run.status)
    (db : after.db = state.db.setRun run.id status)
    (calls : ∀ call, UnderWay state.executions call → UnderWay after.executions call)
    (recorded : ∀ env runId origin interrupts,
      UnderWay after.executions (.record env runId origin interrupts) →
        UnderWay state.executions (.record env runId origin interrupts) ∨
          (runId = run.id ∧ origin = none))
    (handedOn : ∀ waiter ∈ state.db.waiters.rows, waiter.status = .waiting →
      (∃ row ∈ state.db.requests.rows, row.Waits waiter.key) →
        ∃ skip, Carried state (fun _ => False) skip waiter.key ∧
          ∀ row ∈ state.db.requests.rows, row.request.resumedRunId = some run.id →
            row.Waits waiter.key → ¬ skip run.id → StillCarried after waiter.key) :
    Sound after := by
  have requests : after.db.requests = state.db.requests := by
    rw [db]
    rfl
  have notStopped : ∀ other ∈ state.db.runs.rows, other.id = run.id →
      other.status ≠ .interrupted := by
    intro other otherMember same stopped
    rw [state.db.runs.eq_of_key_eq otherMember member same] at stopped
    rw [stopped] at active
    cases active
  have runs : RunsKept state.db after.db := runsKept_setRun (by rw [db]) notStopped
  have runCases : ∀ other ∈ after.db.runs.rows,
      (∃ old ∈ state.db.runs.rows, old.id = run.id ∧ other = { old with status }) ∨
        (other ∈ state.db.runs.rows ∧ other.id ≠ run.id) := by
    rw [db]
    exact fun other otherMember => mem_setRun.mp otherMember
  have waiters : after.db.waiters = state.db.waiters := by
    rw [db]
    rfl
  have stays : RequestsKept state.db after.db := by
    apply requestsKept_of_mem
    rw [requests]
    exact fun _ => id
  apply sound.frame
  case linked =>
      apply sound.linked.congr requests runs (waitersKept_of_eq waiters)
      intro other otherMember
      rcases runCases other otherMember with ⟨old, oldMember, _, rfl⟩ | ⟨old, _⟩
      · exact Or.inl ⟨old, oldMember, rfl, rfl⟩
      · exact Or.inl ⟨other, old, rfl, rfl⟩
  case origins =>
      intro env runId origin interrupts recording
      rcases recorded env runId origin interrupts recording with before | ⟨rfl, rfl⟩
      · exact sound.origins.congr (waitersKept_of_eq waiters).1 runs (fun _ _ _ _ => id) env runId
          origin interrupts before
      · constructor
        · intro key none
          cases none
        · intro _
          obtain ⟨later, laterMember, laterId, laterParent, _⟩ := runs run member
          exact ⟨later, laterMember, laterId, laterParent ▸ resumed⟩
  case waiters => exact waiters
  case ends =>
      rw [db]
      rfl
  case runs =>
      intro other otherMember root
      rcases runCases other otherMember with ⟨old, oldMember, same, rfl⟩ | ⟨old, _⟩
      · rw [state.db.runs.eq_of_key_eq oldMember member same] at root
        exact absurd root resumed
      · exact old
  case asked =>
      intro row rowMember key waits
      exact Or.inl ⟨row, requests ▸ rowMember, waits⟩
  case recording =>
      intro env runId key interrupts recording
      rcases recorded env runId (some key) interrupts recording with before | ⟨_, none⟩
      · exact before
      · cases none
  case unresumed =>
      rw [requests]
      exact sound.unresumed
  case carried =>
  rintro waiter waiterMember waiting ⟨first, firstMember, firstWaits⟩
  obtain ⟨skip, carried, handed⟩ :=
    handedOn waiter waiterMember waiting ⟨first, requests ▸ firstMember, firstWaits⟩
  apply carried.kept stays
  case asked =>
      exact fun row rowMember rowWaits pending unskipped =>
        Or.inl ⟨row, requests ▸ rowMember, rowWaits, pending, unskipped⟩
  case resumed =>
      intro other otherMember unskipped continues row rowMember resumes rowWaits
      by_cases same : other.id = run.id
      · rw [same] at resumes unskipped
        exact handed row (requests ▸ rowMember) resumes rowWaits unskipped
      · have after : other ∈ after.db.runs.rows := by
          rw [db]
          exact mem_setRun.mpr (Or.inr ⟨otherMember, same⟩)
        refine Or.inr (Or.inl ⟨row, rowMember, rowWaits, other, after, resumes, id, ?_⟩)
        unfold Continues
        rw [requests]
        exact continues
  case ending =>
      exact fun call underWay callEnds =>
        Or.inr (Or.inr ⟨call, calls call underWay, callEnds.kept stays⟩)

theorem settles {db : Database} {executions : List (List Call)} {runId : Uuid}
    {status : RunStatus} {key : WaiterKey} {row : WaiterRequest} {calls : List Call}
    (member : row ∈ db.requests.rows) (resumes : row.request.resumedRunId = some runId)
    (waits : row.Waits key) (ended : status ≠ .interrupted)
    (listed : ∀ call ∈ settleBestEffort runId status, call ∈ calls) :
    StillCarried { db, executions := executions ++ [calls] } key := by
  refine Or.inr (Or.inr ⟨.settle key.kind runId status, underWay_concat.mpr (Or.inr ?_), rfl,
    ended, row, member, resumes, waits⟩)
  apply listed
  unfold settleBestEffort
  cases key.kind with
  | triggerRun => exact List.mem_cons_self
  | apiRun => exact List.mem_cons_of_mem _ (List.mem_singleton_self _)

theorem not_record_settleBestEffort {runId other : Uuid} {status : RunStatus}
    {env : RecordEnvironment} {origin : Option WaiterKey} {interrupts : List PendingInterrupt} :
    Call.record env other origin interrupts ∉ settleBestEffort runId status := by
  simp [settleBestEffort]

/-- A resumed run that its worker ends is settled, or stops again. -/
theorem finish (sound : Sound state) (runId : Uuid) (status : RunStatus)
    (env : RecordEnvironment) (interrupts : List PendingInterrupt) :
    Sound (state.finish runId status env interrupts) := by
  unfold State.finish
  split
  case h_1 => exact sound
  case h_2 run found =>
  obtain ⟨member, rfl⟩ := Table.get?_eq_some_iff.mp found
  split
  case isTrue => exact sound
  case isFalse resumed =>
  have started : ∀ (db : Database) (calls : List Call) call,
      UnderWay state.executions call → UnderWay (state.start db calls).executions call :=
    fun db calls call before => underWay_concat.mpr (Or.inl before)
  -- the requests that an active run is to record are not there yet
  have unrecorded : runActiveStatuses.contains run.status →
      ∀ row ∈ state.db.requests.rows, row.request.runId ≠ run.id := by
    intro active row rowMember same
    obtain ⟨other, otherMember, otherId, stopped⟩ := sound.linked.stopped row rowMember
    rw [state.db.runs.eq_of_key_eq otherMember member (otherId.trans same)] at stopped
    rw [stopped] at active
    cases active
  have kept : ∀ status, { run with status } ∈ (state.db.setRun run.id status).runs.rows :=
    fun status => mem_setRun.mpr (Or.inl ⟨run, member, rfl, rfl⟩)
  split
  case isTrue active =>
      split
      case isTrue stillActive =>
          apply sound.changeRun member resumed active
          case db => rfl
          case calls => exact started _ _
          case recorded =>
              intro _ _ _ _ recording
              rcases underWay_concat.mp recording with before | added
              · exact Or.inl before
              · cases added
          case handedOn =>
          intro waiter waiterMember waiting waits
          refine ⟨_, sound.carried waiter waiterMember waiting waits, ?_⟩
          exact fun row rowMember resumes rowWaits unskipped =>
            Or.inr (Or.inl ⟨row, rowMember, rowWaits, _, kept status, resumes,
              unskipped, Or.inl stillActive⟩)
      case isFalse =>
      split
      case isTrue stopped =>
          apply sound.changeRun member resumed active
          case db => rfl
          case calls => exact started _ _
          case recorded =>
              intro _ _ _ _ recording
              rcases underWay_concat.mp recording with before | added
              · exact Or.inl before
              · rcases List.mem_cons.mp added with first | settling
                · obtain ⟨_, sameRun, sameOrigin, _⟩ := Call.record.inj first
                  exact Or.inr ⟨sameRun, sameOrigin⟩
                · exact absurd settling not_record_settleBestEffort
          case handedOn =>
          intro waiter waiterMember waiting waits
          refine ⟨_, sound.carried waiter waiterMember waiting waits, ?_⟩
          exact fun row rowMember resumes rowWaits unskipped =>
            Or.inr (Or.inl ⟨row, rowMember, rowWaits, _, kept status, resumes,
              unskipped, Or.inr ⟨stopped, unrecorded active⟩⟩)
      case isFalse ended =>
      apply sound.changeRun member resumed active
      case db => rfl
      case calls => exact started _ _
      case recorded =>
          intro _ _ _ _ recording
          rcases underWay_concat.mp recording with before | added
          · exact Or.inl before
          · exact absurd added not_record_settleBestEffort
      case handedOn =>
      intro waiter waiterMember waiting waits
      refine ⟨_, sound.carried waiter waiterMember waiting waits, ?_⟩
      exact fun row rowMember resumes rowWaits _ =>
        settles rowMember resumes rowWaits ended fun _ => id
  case isFalse =>
  -- the worker of a run that has been ended only settles it
  apply sound.changeCalls
  case fewer =>
      intro other runId origin interrupts recording
      rcases underWay_concat.mp recording with before | added
      · exact before
      · exact absurd added not_record_settleBestEffort
  case handedOn =>
      exact fun waiter _ _ call underWay ends =>
        Or.inr (Or.inr ⟨call, started _ _ call underWay, ends⟩)

/-- A resumed run that is ended without its worker leaves what the condition names. -/
theorem sweep (sound : Sound state) {runId : Uuid} {status : RunStatus}
    (keeps : KeepsCarried state (.sweep runId status)) : Sound (state.sweep runId status) := by
  unfold State.sweep
  split
  case h_1 => exact sound
  case h_2 run found =>
  obtain ⟨member, rfl⟩ := Table.get?_eq_some_iff.mp found
  split
  case isTrue => exact sound
  case isFalse sweeps =>
  rw [not_or, not_or, Bool.not_eq_false] at sweeps
  obtain ⟨resumed, active, _⟩ := sweeps
  apply sound.changeRun member resumed active
  case db => rfl
  case calls => exact fun _ => id
  case recorded => exact fun _ _ _ _ => Or.inl
  case handedOn =>
  intro waiter waiterMember waiting waits
  refine ⟨fun id => id = run.id, ?_, fun _ _ _ _ unskipped => absurd rfl unskipped⟩
  by_cases swept : ∃ row ∈ state.db.requests.rows,
      row.request.resumedRunId = some run.id ∧ row.Waits waiter.key
  · exact keeps run member rfl active waiter waiterMember waiting swept
  · rcases sound.carried waiter waiterMember waiting waits with
      asked |
        ⟨row, rowMember, rowWaits, other, otherMember, resumes, _, continues⟩ | ends
    · exact Or.inl asked
    · refine Or.inr (Or.inl ⟨row, rowMember, rowWaits, other, otherMember, resumes, ?_,
        continues⟩)
      intro same
      rw [same] at resumes
      exact swept ⟨row, rowMember, resumes, rowWaits⟩
    · exact Or.inr (Or.inr ends)

theorem step (sound : Sound state) (event : Event) (keeps : KeepsCarried state event) :
    Sound (state.step event) := by
  cases event with
  | begin key run =>
      simp only [State.step]
      split
      case h_1 runs waiters runInserted waiterInserted =>
          exact sound.begin rfl runInserted waiterInserted
      case h_2 => exact sound
  | pause key env interrupts => exact sound.pause key env interrupts
  | advance index => exact sound.advance keeps
  | resume claimed stamp run => exact sound.resume claimed stamp run
  | finish runId status env interrupts => exact sound.finish runId status env interrupts
  | sweep runId status => exact sound.sweep keeps
  | expire requestId actions stamp => exact sound.expire keeps
  | close requestId reason stamp => exact sound.close requestId reason stamp
  | stop agentIds stamp => exact sound.stop agentIds stamp

end Sound

/-- In a run that keeps something to end each run that waits, none waits forever. -/
theorem run_leavesWaiting {events : List Event}
    (every : EveryStep State.step KeepsCarried {} events) :
    LeavesWaiting (run State.step {} events) :=
  (run_allowed_invariant Sound (fun _ event keeps sound => sound.step event keeps) sound_initial
    every).leavesWaiting

def recordEnvironment : RecordEnvironment where
  argsDigest := fun _ => "digest"
  newId := fun _ => 7
  expiresAt := 100

def sendInterrupt : PendingInterrupt where
  interruptId := "send"
  payload := .obj [("action_requests", .arr [.obj [("name", .str "send_mail")]])]

def apiKey : WaiterKey where
  kind := .apiRun
  id := 3

def chatRun (id : Uuid) : ConversationRun where
  id := id
  parentRunId := none
  tenantId := some 1
  agentId := some 2
  conversationId := 4
  status := .queued

def waitingApiRun : List Event :=
  [.begin apiKey (chatRun 5), .pause apiKey recordEnvironment [sendInterrupt], .advance 0]

def approvedApiRun : List Event :=
  waitingApiRun ++
    [.resume
      { runId := 5
        decisions := [("send", ["approve"])]
        channel := .inbox
        actorId := some 1 } 50 (chatRun 6),
      .finish 6 .running recordEnvironment [], .finish 6 .completed recordEnvironment [],
      .advance 2, .advance 2, .advance 2]

theorem run_leavesWaiting_approved : LeavesWaiting (run State.step {} approvedApiRun) := by
  apply run_leavesWaiting
  refine ⟨trivial, trivial, ?_, trivial, trivial, trivial, ?_, ?_, ?_, trivial⟩
  all_goals
    intro key rest next
    cases next

/-- An expiry that resumes nothing leaves the API run waiting. -/
theorem expiredRun_waits : ¬ ∀ events, LeavesWaiting (run State.step {} events) := by
  intro always
  have idle : ∀ execution ∈ (run State.step {}
      (waitingApiRun ++ [.expire 7 1 101])).executions, execution.isEmpty := by decide
  obtain ⟨⟨outcome, ended⟩, _⟩ := always (waitingApiRun ++ [.expire 7 1 101])
    { key := apiKey, conversationRunId := 5, status := .waiting } (by decide) (by decide)
    (by unfold Asked; decide) (by unfold Resumed; decide) (by
      rintro call ⟨execution, member, listed⟩
      rw [List.isEmpty_iff.mp (idle execution member)] at listed
      cases listed)
  cases ended

end NaturalMold.ApprovalWaiters

import NaturalMold.SettledWaits

/-! # Steps of waiting runs -/

namespace NaturalMold.ApprovalWaiters

open Approvals (ApprovalRequest Claim PendingInterrupt RecordEnvironment closed stopped StopsRow)
open Conversations (Uuid Time RunStatus runActiveStatuses)
open KeyedTables PendingCalls StepRuns

namespace Sound

variable {state : State}

theorem record (sound : Sound state) {index : ℕ} {env : RecordEnvironment} {runId : Uuid}
    {origin : Option WaiterKey} {interrupts : List PendingInterrupt} {rest : List Call}
    (next : next? state.executions index = some (.record env runId origin interrupts, rest)) :
    Sound
      { db := state.db.record env runId origin interrupts
        executions := state.executions.set index ([] ++ rest) } := by
  obtain ⟨owner, unowned⟩ := sound.origins env runId origin interrupts (underWay_of_next next)
  have recorded : Recorded state.db (state.db.record env runId origin interrupts) runId origin := by
    apply recorded_record sound.linked
    rintro run member rfl
    refine ⟨owner, fun none => ?_⟩
    obtain ⟨other, otherMember, sameId, resumed⟩ := unowned none
    rwa [state.db.runs.eq_of_key_eq otherMember member sameId] at resumed
  apply sound.frame
  case linked => exact recorded.linked
  case origins =>
      exact sound.origins.congr (waitersKept_of_eq recorded.waiters).1
        (runsKept_of_eq recorded.runs) fun _ _ _ _ => underWay_of_done next
  case waiters => exact recorded.waiters
  case ends => exact recorded.ends
  case runs =>
      rw [recorded.runs]
      exact fun _ member _ => member
  case asked =>
      intro row member key waits
      rcases recorded.new row member with old | new
      · exact Or.inl ⟨row, old, waits⟩
      · rcases new.waits key waits with same | ⟨parent, parentMember, _, parentWaits⟩
        · subst same
          exact Or.inr ⟨env, runId, interrupts, underWay_of_next next⟩
        · exact Or.inl ⟨parent, parentMember, parentWaits⟩
  case recording => exact fun _ _ _ _ => underWay_of_done next
  case unresumed =>
      intro row member pending
      rcases recorded.new row member with old | new
      · exact sound.unresumed row old pending
      · exact new.unresumed
  case carried =>
  rintro waiter member waiting ⟨row, rowMember, waits⟩
  -- a request that is new is pending
  have asks : ∀ row ∈ (state.db.record env runId origin interrupts).requests.rows,
      row ∉ state.db.requests.rows → row.Waits waiter.key → StillCarried
        { db := state.db.record env runId origin interrupts
          executions := state.executions.set index ([] ++ rest) } waiter.key := by
    intro row rowMember unknown waits
    rcases recorded.new row rowMember with old | new
    · exact absurd old unknown
    · exact Or.inl ⟨row, rowMember, waits, new.pending, id⟩
  by_cases known : row ∈ state.db.requests.rows
  · apply (sound.carried waiter member waiting ⟨row, known, waits⟩).kept
      (requestsKept_of_mem recorded.old)
    case asked =>
        intro row old waits pending kept
        exact Or.inl ⟨row, recorded.old row old, waits, pending, kept⟩
    case resumed =>
        intro run runMember kept continues row rowMember resumes waits
        have after : run ∈ (state.db.record env runId origin interrupts).runs.rows := by
          rw [recorded.runs]
          exact runMember
        rcases continues with active | ⟨stopped, unrecorded⟩
        · exact Or.inr (Or.inl ⟨row, rowMember, waits, run, after, resumes, kept,
            Or.inl active⟩)
        · by_cases own : ∃ new ∈ (state.db.record env runId origin interrupts).requests.rows,
              new.request.runId = run.id
          · obtain ⟨new, newMember, newRun⟩ := own
            have unknown : new ∉ state.db.requests.rows :=
              fun old => unrecorded new old newRun
            obtain ⟨parentRun, parentMember, parentId, parent⟩ :=
              recorded.linked.resumes row rowMember run.id resumes
            obtain rfl := Table.eq_of_key_eq _ parentMember after parentId
            have continued : parentRun.parentRunId ≠ none := by
              rw [parent]
              exact Option.some_ne_none _
            have like := (recorded.linked.later new newMember parentRun after newRun.symm
              continued).1 row rowMember resumes waiter.key.kind
            exact asks new newMember unknown (like.trans waits)
          · exact Or.inr (Or.inl ⟨row, rowMember, waits, run, after, resumes, kept,
              Or.inr ⟨stopped, fun new newMember same => own ⟨new, newMember, same⟩⟩⟩)
    case ending =>
    intro call underWay ends
    rcases underWay_set next [] underWay with rfl | left
    · exact ends.elim
    · exact Or.inr (Or.inr ⟨call, left, ends.kept (requestsKept_of_mem recorded.old)⟩)
  · exact asks row rowMember known waits

/-- A schedule run that waits is stored as waiting again. -/
theorem deliverWaiting (sound : Sound state) {index : ℕ} {key : WaiterKey} {rest : List Call}
    (next : next? state.executions index = some (.deliverWaiting key, rest))
    (waits : ∀ waiter ∈ state.db.waiters.rows, waiter.key = key → waiter.status = .waiting) :
    Sound
      { db := state.db.setStatus key .waiting
        executions := state.executions.set index ([] ++ rest) } := by
  have same : state.db.setStatus key .waiting = state.db := by
    unfold Database.setStatus
    rw [Table.updateWhere_eq_self]
    intro waiter member isKey
    rw [← waits waiter member (of_decide_eq_true isKey)]
  rw [same]
  apply sound.replaceCall next
  · intro other member
    cases member
  · intro waiter _ ends
    exact ends.elim

/-- A waiting run is ended once. -/
theorem endWaiter (sound : Sound state) {index : ℕ} {key : WaiterKey} {outcome : Outcome}
    {rest : List Call}
    (next : next? state.executions index = some (.endWaiter key outcome, rest)) :
    Sound
      { db := state.db.endWaiter key outcome
        executions := state.executions.set index ([] ++ rest) } := by
  -- the call ends no run that waits, or this one
  have unchanged : (∀ waiter ∈ state.db.waiters.rows, waiter.key = key →
      waiter.status ≠ .waiting) →
      Sound { state with executions := state.executions.set index ([] ++ rest) } := by
    intro ended
    apply sound.changeCalls
    case fewer => exact fun _ _ _ _ => underWay_of_done next
    case handedOn =>
    intro waiter member waiting call underWay ends
    rcases underWay_set next [] underWay with rfl | left
    · exact absurd waiting (ended waiter member ends.symm)
    · exact Or.inr (Or.inr ⟨call, left, ends⟩)
  unfold Database.endWaiter
  split
  case h_1 absent =>
      apply unchanged
      intro waiter member same
      exact absurd same (Table.get?_eq_none_iff.mp absent waiter member)
  case h_2 waiter found =>
  obtain ⟨member, rfl⟩ := Table.get?_eq_some_iff.mp found
  split
  case isTrue ended =>
      apply unchanged
      intro other otherMember same
      rw [state.db.waiters.eq_of_key_eq otherMember member same]
      exact ended
  case isFalse waiting =>
  rw [not_not] at waiting
  have waiters : WaitersKept state.db
      { state.db.setStatus waiter.key (.ended outcome) with
        ends := state.db.ends ++ [waiter.key] } :=
    waitersKept_updateWhere (fun _ => rfl) rfl
  have moved : ∀ key, (∃ old ∈ state.db.waiters.rows, old.key = key ∧
      old.status ≠ .running) → ∃ later ∈ (state.db.setStatus waiter.key
        (.ended outcome)).waiters.rows, later.key = key ∧ later.status ≠ .running := by
    rintro key ⟨old, oldMember, rfl, oldMoved⟩
    by_cases same : old.key = waiter.key
    · exact ⟨{ old with status := .ended outcome },
        mem_setStatus.mpr (Or.inl ⟨old, oldMember, same, rfl⟩), rfl,
        WaiterStatus.noConfusion⟩
    · exact ⟨old, mem_setStatus.mpr (Or.inr ⟨oldMember, same⟩), rfl, oldMoved⟩
  have uncounted : state.db.ends.count waiter.key = 0 := by
    rw [sound.counted waiter member, waiting]
    rfl
  constructor
  case linked =>
      exact sound.linked.congr rfl (runsKept_of_eq rfl) waiters
        fun run runMember => Or.inl ⟨run, runMember, rfl, rfl⟩
  case origins =>
      exact sound.origins.congr waiters.1 (runsKept_of_eq rfl)
        fun _ _ _ _ => underWay_of_done next
  case started =>
      intro other otherMember run runMember owns running
      rcases mem_setStatus.mp otherMember with ⟨old, oldMember, same, rfl⟩ | ⟨old, _⟩
      · have stillRunning := sound.started old oldMember run runMember owns running
        rw [state.db.waiters.eq_of_key_eq oldMember member same, waiting] at stillRunning
        cases stillRunning
      · exact sound.started other old run runMember owns running
  case asked =>
      exact fun row rowMember key waits => moved key (sound.asked row rowMember key waits)
  case recording =>
      exact fun env runId key interrupts underWay =>
        moved key (sound.recording env runId key interrupts
          (underWay_of_done next underWay))
  case unresumed => exact sound.unresumed
  case counted =>
      intro other otherMember
      dsimp only
      rw [List.count_append]
      rcases mem_setStatus.mp otherMember with ⟨old, _, same, rfl⟩ | ⟨old, different⟩
      · rw [show old.key = waiter.key from same, uncounted]
        simp [WaiterStatus.IsEnded]
      · rw [List.count_singleton, beq_false_of_ne (Ne.symm different)]
        exact sound.counted other old
  case known =>
      intro key listed
      dsimp only at listed
      rw [List.mem_append, List.mem_singleton] at listed
      have knownBefore : ∃ old ∈ state.db.waiters.rows, old.key = key := by
        rcases listed with before | rfl
        · exact sound.known key before
        · exact ⟨waiter, member, rfl⟩
      obtain ⟨old, oldMember, rfl⟩ := knownBefore
      obtain ⟨later, laterMember, laterKey, _⟩ := waiters.1 old oldMember
      exact ⟨later, laterMember, laterKey⟩
  case carried =>
  intro other otherMember stillWaiting waits
  rcases mem_setStatus.mp otherMember with ⟨old, _, _, rfl⟩ | ⟨old, different⟩
  · cases stillWaiting
  · apply (sound.carried other old stillWaiting waits).kept
      (requestsKept_of_mem fun _ rowMember => rowMember)
    case asked =>
        exact fun row rowMember waits pending kept =>
          Or.inl ⟨row, rowMember, waits, pending, kept⟩
    case resumed =>
        exact fun run runMember kept continues row rowMember resumes waits =>
          Or.inr (Or.inl ⟨row, rowMember, waits, run, runMember, resumes, kept,
            continues⟩)
    case ending =>
    intro call underWay ends
    rcases underWay_set next [] underWay with rfl | left
    · exact absurd ends.symm different
    · exact Or.inr (Or.inr ⟨call, left,
        ends.kept (requestsKept_of_mem fun _ rowMember => rowMember)⟩)

theorem advance (sound : Sound state) {index : ℕ}
    (keeps : KeepsCarried state (.advance index)) : Sound (state.advance index) := by
  unfold State.advance
  split
  case h_1 => exact sound
  case h_2 call rest next =>
  cases call with
  | record env runId origin interrupts => exact sound.record next
  | deliverWaiting key => exact sound.deliverWaiting next (keeps key rest next)
  | settle kind runId status => exact sound.settle next
  | abandon kind requestIds => exact sound.abandon next
  | endWaiter key outcome => exact sound.endWaiter next
  | abandonEach kind retired =>
      cases retired with
      | nil => exact sound.abandonEach_nil next
      | cons entry retired =>
          obtain ⟨id, reason⟩ := entry
          unfold Database.perform
          dsimp only
          by_cases pending : state.db.StillPending ⟨kind, id⟩
          · rw [if_pos pending]
            exact sound.abandonEach_pending next pending
          · rw [if_neg pending]
            exact sound.abandonEach_retired next

end Sound

end NaturalMold.ApprovalWaiters

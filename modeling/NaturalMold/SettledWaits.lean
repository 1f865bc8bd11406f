import NaturalMold.RecordedWaits

/-! # What ends a waiting run -/

namespace NaturalMold.ApprovalWaiters

open Approvals (ApprovalRequest Claim PendingInterrupt RecordEnvironment)
open Conversations (Uuid Time RunStatus runActiveStatuses)
open FirstOccurrences KeyedTables PendingCalls StepRuns

def WaiterStatus.IsEnded : WaiterStatus → Prop
  | .running => False
  | .waiting => False
  | .ended _ => True

instance (status : WaiterStatus) : Decidable status.IsEnded :=
  match status with
  | .running => inferInstanceAs (Decidable False)
  | .waiting => inferInstanceAs (Decidable False)
  | .ended _ => inferInstanceAs (Decidable True)

/-- Something is left to end the run. -/
abbrev StillCarried (state : State) (key : WaiterKey) : Prop :=
  Carried state (fun _ => False) (fun _ => False) key

/-- Something is left to end each run that waits, and each has ended at most once. -/
structure Sound (state : State) : Prop where
  linked : Linked state.db
  origins : OriginsKnown state.db state.executions
  started : ∀ waiter ∈ state.db.waiters.rows, ∀ run ∈ state.db.runs.rows,
    run.id = waiter.conversationRunId → run.status = .running → waiter.status = .running
  asked : ∀ row ∈ state.db.requests.rows, ∀ key, row.Waits key →
    ∃ waiter ∈ state.db.waiters.rows, waiter.key = key ∧ waiter.status ≠ .running
  recording : ∀ env runId key interrupts,
    UnderWay state.executions (.record env runId (some key) interrupts) →
      ∃ waiter ∈ state.db.waiters.rows, waiter.key = key ∧ waiter.status ≠ .running
  unresumed : ∀ row ∈ state.db.requests.rows, row.request.status = .pending →
    row.request.resumedRunId = none
  counted : ∀ waiter ∈ state.db.waiters.rows,
    state.db.ends.count waiter.key = if waiter.status.IsEnded then 1 else 0
  known : ∀ key ∈ state.db.ends, ∃ waiter ∈ state.db.waiters.rows, waiter.key = key
  carried : ∀ waiter ∈ state.db.waiters.rows, waiter.status = .waiting →
    (∃ row ∈ state.db.requests.rows, row.Waits waiter.key) → StillCarried state waiter.key

theorem Sound.leavesWaiting {state : State} (sound : Sound state) : LeavesWaiting state := by
  rintro waiter member ⟨row, rowMember, waits⟩ unasked unresumed returned
  have counted := sound.counted waiter member
  cases status : waiter.status with
  | running =>
      obtain ⟨other, otherMember, sameKey, moved⟩ := sound.asked row rowMember waiter.key waits
      rw [state.db.waiters.eq_of_key_eq otherMember member sameKey] at moved
      exact absurd status moved
  | waiting =>
      rcases sound.carried waiter member status ⟨row, rowMember, waits⟩ with
        asked | resumed | ⟨call, underWay, ends⟩
      · exact absurd asked unasked
      · exact absurd resumed unresumed
      · exact absurd ends.isEnding (returned call underWay)
  | ended outcome =>
      rw [status] at counted
      exact ⟨⟨outcome, rfl⟩, counted⟩

theorem sound_initial : Sound {} := by
  constructor
  case linked => constructor <;> simp [Table.empty]
  case origins =>
      rintro _ _ _ _ ⟨_, none, _⟩
      cases none
  case recording =>
      rintro _ _ _ _ ⟨_, none, _⟩
      cases none
  all_goals simp [Table.empty]

/-- What a step keeps that leaves the waiting runs as they are. -/
theorem Sound.frame {before after : State} (sound : Sound before) (linked : Linked after.db)
    (origins : OriginsKnown after.db after.executions)
    (waiters : after.db.waiters = before.db.waiters) (ends : after.db.ends = before.db.ends)
    (runs : ∀ run ∈ after.db.runs.rows, run.parentRunId = none → run ∈ before.db.runs.rows)
    (asked : ∀ row ∈ after.db.requests.rows, ∀ key, row.Waits key →
      (∃ old ∈ before.db.requests.rows, old.Waits key) ∨ ∃ env runId interrupts,
        UnderWay before.executions (.record env runId (some key) interrupts))
    (recording : ∀ env runId key interrupts,
      UnderWay after.executions (.record env runId (some key) interrupts) →
        UnderWay before.executions (.record env runId (some key) interrupts))
    (unresumed : ∀ row ∈ after.db.requests.rows, row.request.status = .pending →
      row.request.resumedRunId = none)
    (carried : ∀ waiter ∈ before.db.waiters.rows, waiter.status = .waiting →
      (∃ row ∈ after.db.requests.rows, row.Waits waiter.key) → StillCarried after waiter.key) :
    Sound after := by
  constructor
  case linked => exact linked
  case origins => exact origins
  case started =>
      intro waiter member run runMember owns running
      obtain ⟨owned, ownedMember, ownedId, root⟩ := linked.owned waiter member
      obtain rfl := after.db.runs.eq_of_key_eq ownedMember runMember (ownedId.trans owns.symm)
      rw [waiters] at member
      exact sound.started waiter member owned (runs owned runMember root) owns running
  case asked =>
      intro row member key waits
      rw [waiters]
      rcases asked row member key waits with
        ⟨old, oldMember, oldWaits⟩ | ⟨env, runId, interrupts, underWay⟩
      · exact sound.asked old oldMember key oldWaits
      · exact sound.recording env runId key interrupts underWay
  case recording =>
      intro env runId key interrupts underWay
      rw [waiters]
      exact sound.recording env runId key interrupts
        (recording env runId key interrupts underWay)
  case unresumed => exact unresumed
  case counted =>
      rw [waiters, ends]
      exact sound.counted
  case known =>
      rw [waiters, ends]
      exact sound.known
  case carried =>
      rw [waiters]
      exact carried

/-- Where the database stays, what is left to end a run needs the calls only. -/
theorem StillCarried.of_calls {before after : State} {key : WaiterKey}
    (carried : StillCarried before key) (same : after.db = before.db)
    (ending : ∀ call, UnderWay before.executions call → call.Ends before.db key →
      StillCarried after key) : StillCarried after key := by
  rcases carried with asked | resumed | ⟨call, underWay, ends⟩
  · left
    unfold Asked
    rw [same]
    exact asked
  · right
    left
    unfold Resumed
    rw [same]
    exact resumed
  · exact ending call underWay ends

namespace Sound

variable {state : State}

variable {rest : List Call}

/-- Where only the calls change, what is left to end a run needs the calls. -/
theorem changeCalls (sound : Sound state) {executions : List (List Call)}
    (fewer : ∀ env runId origin interrupts,
      UnderWay executions (.record env runId origin interrupts) →
        UnderWay state.executions (.record env runId origin interrupts))
    (handedOn : ∀ waiter ∈ state.db.waiters.rows, waiter.status = .waiting →
      ∀ call, UnderWay state.executions call → call.Ends state.db waiter.key →
        StillCarried { state with executions } waiter.key) : Sound { state with executions } := by
  apply sound.frame
  case linked => exact sound.linked
  case origins =>
      exact sound.origins.congr (waitersKept_of_eq rfl).1 (runsKept_of_eq rfl) fewer
  case waiters => rfl
  case ends => rfl
  case runs => exact fun _ member _ => member
  case asked => exact fun row member key waits => Or.inl ⟨row, member, waits⟩
  case recording => exact fun env runId key interrupts => fewer env runId (some key) interrupts
  case unresumed => exact sound.unresumed
  case carried =>
      intro waiter member waiting waits
      exact StillCarried.of_calls (sound.carried waiter member waiting waits) rfl
        (handedOn waiter member waiting)

theorem underWay_of_done {executions : List (List Call)} {index : ℕ} {call other : Call}
    (next : next? executions index = some (call, rest))
    (underWay : UnderWay (executions.set index ([] ++ rest)) other) :
    UnderWay executions other := by
  rcases underWay_of_set next underWay with before | added
  · exact before
  · cases added

theorem replaceCall (sound : Sound state) {index : ℕ} {call : Call} {more : List Call}
    (next : next? state.executions index = some (call, rest))
    (unrecorded : ∀ other ∈ more, other.IsEnding)
    (handedOn : ∀ waiter ∈ state.db.waiters.rows, call.Ends state.db waiter.key →
      state.db.StillPending waiter.key ∨ ∃ other ∈ more, other.Ends state.db waiter.key) :
    Sound { state with executions := state.executions.set index (more ++ rest) } := by
  apply sound.changeCalls
  case fewer =>
      intro env runId origin interrupts underWay
      rcases underWay_of_set next underWay with before | added
      · exact before
      · exact (unrecorded _ added).elim
  case handedOn =>
  intro waiter member _ other underWay ends
  rcases underWay_set next more underWay with rfl | left
  · rcases handedOn waiter member ends with ⟨row, rowMember, rowWaits, pending⟩ | handed
    · exact Or.inl ⟨row, rowMember, rowWaits, pending, id⟩
    · obtain ⟨new, newMember, newEnds⟩ := handed
      exact Or.inr (Or.inr ⟨new, underWay_set_of_mem next newMember, newEnds⟩)
  · exact Or.inr (Or.inr ⟨other, left, ends⟩)

variable {kind : WaiterKind}

/-- `settle` finds the run that waits on what was resumed. -/
theorem exists_settle (sound : Sound state) {runId : Uuid} {status : RunStatus} {key : WaiterKey}
    (ends : (Call.settle kind runId status).Ends state.db key) :
    ∃ other ∈ state.db.settle kind runId status, other.Ends state.db key := by
  obtain ⟨rfl, stopped, row, member, resumed, waits⟩ := ends
  unfold Database.settle
  rw [if_neg stopped]
  split
  case h_1 unfound =>
      unfold Database.resumedRow at unfound
      rw [List.find?_eq_none] at unfound
      have isSome : (row.waiterId key.kind).isSome := by
        rw [waits]
        rfl
      exact absurd (by simp [resumed, isSome]) (unfound row member)
  case h_2 found foundRow =>
  unfold Database.resumedRow at foundRow
  have passes := List.find?_some foundRow
  rw [Bool.and_eq_true, decide_eq_true_eq] at passes
  have same := sound.linked.alike_of_resumed (List.mem_of_find?_eq_some foundRow) member
    passes.1 resumed key.kind
  rw [same.trans waits]
  exact ⟨_, List.mem_singleton_self _, rfl⟩

/-- `abandon` reads the run that waits on a retired request. -/
theorem mem_retired {db : Database} {requestIds : List Uuid} {key : WaiterKey}
    (ends : (Call.abandon kind requestIds).Ends db key) :
    kind = key.kind ∧ key.id ∈ (db.retired kind requestIds).map Prod.fst := by
  obtain ⟨rfl, row, member, listed, canceled, waits⟩ := ends
  refine ⟨rfl, ?_⟩
  have retired : row ∈ db.retiredRows key.kind requestIds := by
    have isSome : (row.waiterId key.kind).isSome := by
      rw [waits]
      rfl
    unfold Database.retiredRows
    rw [List.mem_filter]
    exact ⟨member, by simp [listed, canceled, isSome]⟩
  have read : key.id ∈ (db.retiredRows key.kind requestIds).filterMap fun row =>
      row.waiterId key.kind :=
    List.mem_filterMap.mpr ⟨row, retired, waits⟩
  unfold Database.retired
  dsimp only
  rw [List.map_map]
  change key.id ∈ List.map id _
  rw [mem_map_distinctOn, List.map_id]
  exact read

theorem settle (sound : Sound state) {index : ℕ} {runId : Uuid} {status : RunStatus}
    (next : next? state.executions index = some (.settle kind runId status, rest)) :
    Sound { state with
      executions := state.executions.set index (state.db.settle kind runId status ++ rest) } := by
  apply sound.replaceCall next
  · intro other member
    unfold Database.settle at member
    split at member
    case isTrue => cases member
    case isFalse =>
    split at member
    case h_1 => cases member
    case h_2 row _ =>
        rw [Option.mem_toList, Option.map_eq_some_iff] at member
        obtain ⟨id, _, rfl⟩ := member
        trivial
  · exact fun waiter _ ends => Or.inr (sound.exists_settle ends)

theorem abandon (sound : Sound state) {index : ℕ} {requestIds : List Uuid}
    (next : next? state.executions index = some (.abandon kind requestIds, rest)) :
    Sound { state with
      executions := state.executions.set index
        ([.abandonEach kind (state.db.retired kind requestIds)] ++ rest) } := by
  apply sound.replaceCall next
  · intro other member
    rw [List.mem_singleton.mp member]
    trivial
  · intro waiter _ ends
    exact Or.inr ⟨_, List.mem_singleton_self _, mem_retired ends⟩

theorem abandonEach_nil (sound : Sound state) {index : ℕ}
    (next : next? state.executions index = some (.abandonEach kind [], rest)) :
    Sound { state with executions := state.executions.set index ([] ++ rest) } := by
  apply sound.replaceCall next
  · intro other member
    cases member
  · intro waiter _ ends
    cases ends.2

theorem abandonEach_pending (sound : Sound state) {index : ℕ} {id : Uuid} {reason : Option String}
    {retired : List (Uuid × Option String)} (next : next? state.executions index =
      some (.abandonEach kind ((id, reason) :: retired), rest))
    (pending : state.db.StillPending ⟨kind, id⟩) :
    Sound { state with
      executions := state.executions.set index ([.abandonEach kind retired] ++ rest) } := by
  apply sound.replaceCall next
  · intro other member
    rw [List.mem_singleton.mp member]
    trivial
  · rintro waiter _ ⟨sameKind, listed⟩
    rw [List.map_cons, List.mem_cons] at listed
    rcases listed with same | left
    · left
      obtain ⟨⟨waiterKind, waiterId⟩, _, _⟩ := waiter
      dsimp only at same sameKind
      rw [same, ← sameKind]
      exact pending
    · exact Or.inr ⟨_, List.mem_singleton_self _, sameKind, left⟩

theorem abandonEach_retired (sound : Sound state) {index : ℕ} {id : Uuid} {reason : Option String}
    {retired : List (Uuid × Option String)} (next : next? state.executions index =
      some (.abandonEach kind ((id, reason) :: retired), rest)) :
    Sound { state with
      executions := state.executions.set index
        ([.endWaiter ⟨kind, id⟩ (abandonedOutcome reason kind), .abandonEach kind retired] ++
          rest) } := by
  apply sound.replaceCall next
  · intro other member
    rw [List.mem_cons, List.mem_singleton] at member
    rcases member with rfl | rfl
    · trivial
    · trivial
  · rintro waiter _ ⟨sameKind, listed⟩
    right
    rw [List.map_cons, List.mem_cons] at listed
    rcases listed with same | left
    · refine ⟨_, List.mem_cons_self, ?_⟩
      obtain ⟨⟨waiterKind, waiterId⟩, _, _⟩ := waiter
      dsimp only at same sameKind
      rw [same, sameKind]
      rfl
    · exact ⟨_, List.mem_cons_of_mem _ (List.mem_singleton_self _), sameKind, left⟩

end Sound

end NaturalMold.ApprovalWaiters

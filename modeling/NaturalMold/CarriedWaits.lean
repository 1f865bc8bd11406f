import NaturalMold.ApprovalWaiters

/-! # What is left to end a waiting run -/

namespace NaturalMold.ApprovalWaiters

open Approvals (ApprovalRequest Claim)
open Conversations (Uuid Time RunStatus runActiveStatuses)
open KeyedTables PendingCalls StepRuns

def Call.Ends (db : Database) (key : WaiterKey) : Call → Prop
  | .settle kind runId status =>
      kind = key.kind ∧ status ≠ .interrupted ∧
        ∃ row ∈ db.requests.rows, row.request.resumedRunId = some runId ∧ row.Waits key
  | .abandon kind requestIds =>
      kind = key.kind ∧ ∃ row ∈ db.requests.rows,
        row.id ∈ requestIds ∧ row.request.status = .canceled ∧ row.Waits key
  | .abandonEach kind retired => kind = key.kind ∧ key.id ∈ retired.map Prod.fst
  | .endWaiter other _ => other = key
  | .record .. => False
  | .deliverWaiting _ => False

/-- The call belongs to `settle` or to `abandon`. -/
def Call.IsEnding : Call → Prop
  | .settle .. => True
  | .abandon .. => True
  | .abandonEach .. => True
  | .endWaiter .. => True
  | .record .. => False
  | .deliverWaiting _ => False

theorem Call.Ends.isEnding {db : Database} {key : WaiterKey} {call : Call}
    (ends : call.Ends db key) : call.IsEnding := by
  cases call with
  | record => exact ends.elim
  | deliverWaiting => exact ends.elim
  | settle => trivial
  | abandon => trivial
  | abandonEach => trivial
  | endWaiter => trivial

/-- The resumed run is active, or it has stopped again and its requests are not recorded. -/
def Continues (db : Database) (run : ConversationRun) : Prop :=
  runActiveStatuses.contains run.status ∨
    (run.status = .interrupted ∧ ∀ row ∈ db.requests.rows, row.request.runId ≠ run.id)

instance (db : Database) (run : ConversationRun) : Decidable (Continues db run) :=
  inferInstanceAs (Decidable (_ ∨ _))

section Carried

variable (state : State) (skipRow : WaiterRequest → Prop) (skipRun : Uuid → Prop)
  (key : WaiterKey)

/-- A request that the run waits on is pending. -/
def Asked : Prop :=
  ∃ row ∈ state.db.requests.rows,
    row.Waits key ∧ row.request.status = .pending ∧ ¬ skipRow row

/-- A request that the run waits on has resumed a run that goes on. -/
def Resumed : Prop :=
  ∃ row ∈ state.db.requests.rows, row.Waits key ∧ ∃ run ∈ state.db.runs.rows,
    row.request.resumedRunId = some run.id ∧ ¬ skipRun run.id ∧ Continues state.db run

/-- Something is left to end the run, apart from some requests and some resumed runs. -/
def Carried : Prop :=
  Asked state skipRow key ∨ Resumed state skipRun key ∨
    ∃ call, UnderWay state.executions call ∧ call.Ends state.db key

end Carried

/-- All calls of `settle` and `abandon` have returned. -/
def Returned (state : State) : Prop :=
  ∀ call, UnderWay state.executions call → ¬ call.IsEnding

/-- A run that has waited for approvals has ended once, when its requests are closed, no run
that they have resumed goes on and the calls that end it have returned. -/
def LeavesWaiting (state : State) : Prop :=
  ∀ waiter ∈ state.db.waiters.rows,
    (∃ row ∈ state.db.requests.rows, row.Waits waiter.key) →
      ¬ Asked state (fun _ => False) waiter.key → ¬ Resumed state (fun _ => False) waiter.key →
        Returned state →
          (∃ outcome, waiter.status = .ended outcome) ∧ state.db.ends.count waiter.key = 1

/-- An expiry that resumes nothing, or the end of a resumed run without its worker, leaves
something to end each run that waits; and a schedule run is stored as waiting again only
while it waits. -/
def KeepsCarried (state : State) : Event → Prop
  | .expire requestId actions _ =>
      ∀ row ∈ state.db.requests.rows, row.id = requestId → row.request.status = .pending →
        ∀ waiter ∈ state.db.waiters.rows, waiter.status = .waiting →
          (∃ other ∈ state.db.requests.rows,
            (expiryClaim row.request actions).Selects other.request ∧ other.Waits waiter.key) →
          Carried state (fun other => (expiryClaim row.request actions).Selects other.request)
            (fun _ => False) waiter.key
  | .sweep runId _ =>
      ∀ run ∈ state.db.runs.rows, run.id = runId → runActiveStatuses.contains run.status →
        ∀ waiter ∈ state.db.waiters.rows, waiter.status = .waiting →
          (∃ row ∈ state.db.requests.rows,
            row.request.resumedRunId = some runId ∧ row.Waits waiter.key) →
          Carried state (fun _ => False) (fun id => id = runId) waiter.key
  | .advance index =>
      ∀ key rest, next? state.executions index = some (.deliverWaiting key, rest) →
        ∀ waiter ∈ state.db.waiters.rows, waiter.key = key → waiter.status = .waiting
  | _ => True

/-- Each request stays, with the run that waits on it, and stays canceled or resumed. -/
def RequestsKept (before after : Database) : Prop :=
  ∀ row ∈ before.requests.rows, ∃ later ∈ after.requests.rows, later.id = row.id ∧
    (∀ kind, later.waiterId kind = row.waiterId kind) ∧
      (row.request.status = .canceled → later.request.status = .canceled) ∧
        ∀ id, row.request.resumedRunId = some id → later.request.resumedRunId = some id

theorem requestsKept_of_mem {before after : Database}
    (stays : ∀ row ∈ before.requests.rows, row ∈ after.requests.rows) :
    RequestsKept before after :=
  fun row member => ⟨row, stays row member, rfl, fun _ => rfl, id, fun _ => id⟩

theorem Call.Ends.kept {before after : Database} {key : WaiterKey} {call : Call}
    (kept : RequestsKept before after) (ends : call.Ends before key) : call.Ends after key := by
  cases call with
  | record => exact ends
  | deliverWaiting => exact ends
  | abandonEach => exact ends
  | endWaiter => exact ends
  | settle kind runId status =>
      obtain ⟨sameKind, stopped, row, member, resumed, waits⟩ := ends
      obtain ⟨later, laterMember, _, waiters, _, resumes⟩ := kept row member
      exact ⟨sameKind, stopped, later, laterMember, resumes runId resumed,
        (waiters key.kind).trans waits⟩
  | abandon kind requestIds =>
      obtain ⟨sameKind, row, member, listed, canceled, waits⟩ := ends
      obtain ⟨later, laterMember, sameId, waiters, stays, _⟩ := kept row member
      exact ⟨sameKind, later, laterMember, sameId ▸ listed, stays canceled,
        (waiters key.kind).trans waits⟩

/-- What is left to end a run is left after a step, where each part of it stays or is replaced
by another. -/
theorem Carried.kept {before : State} {after : Database} {skipRow : WaiterRequest → Prop}
    {skipRun : Uuid → Prop} {key : WaiterKey} {target : Prop}
    (carried : Carried before skipRow skipRun key)
    (requests : RequestsKept before.db after)
    (asked : ∀ row ∈ before.db.requests.rows, row.Waits key → row.request.status = .pending →
      ¬ skipRow row → target)
    (resumed : ∀ run ∈ before.db.runs.rows, ¬ skipRun run.id → Continues before.db run →
      ∀ row ∈ after.requests.rows, row.request.resumedRunId = some run.id → row.Waits key →
        target)
    (ending : ∀ call, UnderWay before.executions call → call.Ends before.db key → target) :
    target := by
  rcases carried with ⟨row, member, waits, pending, kept⟩ |
    ⟨row, member, waits, run, runMember, resumes, kept, continues⟩ | ⟨call, underWay, ends⟩
  · exact asked row member waits pending kept
  · obtain ⟨later, laterMember, _, waiters, _, stays⟩ := requests row member
    exact resumed run runMember kept continues later laterMember (stays run.id resumes)
      ((waiters key.kind).trans waits)
  · exact ending call underWay ends

theorem requestsKept_updateWhere {db after : Database} {test : WaiterRequest → Bool}
    {change : ApprovalRequest → ApprovalRequest}
    {keeps : ∀ row : WaiterRequest, (row.change change).id = row.id}
    (rows : after.requests = db.requests.updateWhere test (WaiterRequest.change change) keeps)
    (pending : ∀ row ∈ db.requests.rows, test row → row.request.status = .pending)
    (unresumed : ∀ row ∈ db.requests.rows, row.request.status = .pending →
      row.request.resumedRunId = none) : RequestsKept db after := by
  intro row member
  rw [rows]
  by_cases tested : test row
  · refine ⟨row.change change, Table.mem_updateWhere.mpr (Or.inl ⟨row, member, tested, rfl⟩),
      keeps row, ?_, ?_, ?_⟩
    · intro kind
      cases kind with
      | triggerRun => rfl
      | apiRun => rfl
    · intro canceled
      rw [pending row member tested] at canceled
      cases canceled
    · intro id resumed
      rw [unresumed row member (pending row member tested)] at resumed
      cases resumed
  · exact ⟨row, Table.mem_updateWhere.mpr (Or.inr ⟨member, tested⟩), rfl, fun _ => rfl,
      fun canceled => canceled, fun _ resumed => resumed⟩

end NaturalMold.ApprovalWaiters

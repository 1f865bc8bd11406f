import NaturalMold.InputRespond

/-! # Recording approval requests -/

namespace NaturalMold.Approvals

open Conversations (Uuid Time RunStatus)
open KeyedTables Fallible

structure PendingInterrupt where
  interruptId : String
  payload : Json
  ns : List String := []

def notApprovals : List String := ["ask_user"]

/-- `approval_actions`: the actions of a payload that asks for an approval. -/
def approvalActions : Json → Option (List (List (String × Json)))
  | .obj payload =>
      match Json.getField "action_requests" .null payload with
      | .arr requests =>
          let actions := requests.filterMap fun item =>
            match item with
            | .obj action => some action
            | _ => none
          if requests.isEmpty ∨ actions.length ≠ requests.length then none
          else if actions.all fun action =>
              ((Json.getField "name" .null action).str?).any (notApprovals.contains ·) then none
          else some actions
      | _ => none
  | _ => none

/-- A run of a conversation, as far as its requests need it. -/
structure Run where
  id : Uuid
  parentRunId : Option Uuid := none
  tenantId : Option Uuid
  agentId : Option Uuid := none
  status : RunStatus

/-- The digest of a payload's actions, the ids of the new rows and their expiry. -/
structure RecordEnvironment where
  argsDigest : Json → String
  newId : String → Uuid
  expiresAt : Time

def requestOf (env : RecordEnvironment) (conversationId : Uuid) (run : Run)
    (requests : RequestTable) (interrupt : PendingInterrupt) : ApprovalRequest where
  id := env.newId interrupt.interruptId
  conversationId := conversationId
  runId := run.id
  interruptId := interrupt.interruptId
  agentId := run.agentId
  argsDigest := env.argsDigest interrupt.payload
  attempt := requests.rows.countP (fun row =>
    row.conversationId = conversationId && row.argsDigest = env.argsDigest interrupt.payload) + 1
  expiresAt := env.expiresAt
  status := .pending
  channel := none
  decidedBy := none
  decidedAt := none
  decisions := []
  decisionNo := 0
  resumedRunId := none
  editedArgsDigest := none
  reason := none

def recordInterrupt (env : RecordEnvironment) (conversationId : Uuid) (run : Run)
    (requests : RequestTable) (interrupt : PendingInterrupt) : Option RequestTable :=
  if (approvalActions interrupt.payload).isNone then some requests
  else if requests.rows.any fun row =>
      row.runId = run.id && row.interruptId = interrupt.interruptId then some requests
  else requests.insert? (requestOf env conversationId run requests interrupt)

/-- `record_pending`: the table with one pending row for each approval interrupt. -/
def recordPending (env : RecordEnvironment) (conversationId : Uuid) (run : Run)
    (interrupts : List PendingInterrupt) (requests : RequestTable) : Option RequestTable :=
  if run.tenantId.isNone then some requests
  else interrupts.foldlM (recordInterrupt env conversationId run) requests

section

variable {env : RecordEnvironment} {conversationId : Uuid} {run : Run}
  {requests after : RequestTable}

theorem recordInterrupt_eq_some {interrupt : PendingInterrupt}
    (recorded : recordInterrupt env conversationId run requests interrupt = some after) :
    after = requests ∨
      ((∀ row ∈ requests.rows, row.runId = run.id → row.interruptId ≠ interrupt.interruptId) ∧
        after.rows = requests.rows ++ [requestOf env conversationId run requests interrupt]) := by
  unfold recordInterrupt at recorded
  split at recorded
  · exact Or.inl (Option.some.inj recorded).symm
  · split at recorded
    · exact Or.inl (Option.some.inj recorded).symm
    · rename_i absent
      refine Or.inr ⟨?_, (Table.insert?_eq_some recorded).1⟩
      intro row member sameRun sameInterrupt
      apply absent
      exact List.any_eq_true.mpr ⟨row, member, by simp [sameRun, sameInterrupt]⟩

/-- No two pending rows are for one interrupt of one run. -/
def SinglePending (requests : RequestTable) : Prop :=
  ∀ first ∈ requests.rows, ∀ second ∈ requests.rows, first.status = .pending →
    second.status = .pending → first.runId = second.runId →
      first.interruptId = second.interruptId → first = second

theorem SinglePending.recordInterrupt {interrupt : PendingInterrupt}
    (single : SinglePending requests)
    (recorded : recordInterrupt env conversationId run requests interrupt = some after) :
    SinglePending after := by
  rcases recordInterrupt_eq_some recorded with rfl | ⟨absent, rows⟩
  · exact single
  intro first firstMember second secondMember firstPending secondPending sameRun sameInterrupt
  rw [rows, List.mem_append, List.mem_singleton] at firstMember secondMember
  rcases firstMember with firstOld | rfl <;> rcases secondMember with secondOld | rfl
  · exact single first firstOld second secondOld firstPending secondPending sameRun sameInterrupt
  · exact absurd sameInterrupt (absent first firstOld sameRun)
  · exact absurd sameInterrupt.symm (absent second secondOld sameRun.symm)
  · rfl

theorem mem_recordPending {interrupts : List PendingInterrupt}
    (recorded : recordPending env conversationId run interrupts requests = some after)
    {row : ApprovalRequest} (member : row ∈ after.rows) :
    row ∈ requests.rows ∨ (row.runId = run.id ∧
      row.interruptId ∈ interrupts.map PendingInterrupt.interruptId) := by
  unfold recordPending at recorded
  split at recorded
  · obtain rfl := Option.some.inj recorded
    exact Or.inl member
  · induction interrupts generalizing requests with
    | nil =>
        obtain rfl := Option.some.inj recorded
        exact Or.inl member
    | cons interrupt interrupts ih =>
        rw [List.foldlM_cons, Option.bind_eq_bind, Option.bind_eq_some_iff] at recorded
        obtain ⟨next, first, rest⟩ := recorded
        rw [List.map_cons, List.mem_cons]
        rcases ih rest with old | ⟨sameRun, later⟩
        · rcases recordInterrupt_eq_some first with rfl | ⟨_, rows⟩
          · exact Or.inl old
          · rw [rows, List.mem_append, List.mem_singleton] at old
            rcases old with old | rfl
            · exact Or.inl old
            · exact Or.inr ⟨rfl, Or.inl rfl⟩
        · exact Or.inr ⟨sameRun, Or.inr later⟩

theorem SinglePending.recordPending {interrupts : List PendingInterrupt}
    (single : SinglePending requests)
    (recorded : recordPending env conversationId run interrupts requests = some after) :
    SinglePending after := by
  unfold Approvals.recordPending at recorded
  split at recorded
  · obtain rfl := Option.some.inj recorded
    exact single
  · induction interrupts generalizing requests with
    | nil =>
        obtain rfl := Option.some.inj recorded
        exact single
    | cons interrupt interrupts ih =>
        rw [List.foldlM_cons, Option.bind_eq_bind, Option.bind_eq_some_iff] at recorded
        obtain ⟨next, first, rest⟩ := recorded
        exact ih (single.recordInterrupt first) rest

end

section

variable {claimed : Claim} {stamp : Time} {requests after : RequestTable}

theorem mem_foldlM_claimRow {rows : List ApprovalRequest}
    (ok : rows.foldlM (claimRow claimed stamp) requests = .ok after) {row : ApprovalRequest}
    (member : row ∈ after.rows) (pending : row.status = .pending) :
    row ∈ requests.rows ∧ ∀ other ∈ rows, row.id ≠ other.id := by
  induction rows generalizing requests with
  | nil =>
      obtain rfl := Except.ok.inj ok
      exact ⟨member, fun _ none => absurd none List.not_mem_nil⟩
  | cons first rows ih =>
      rw [List.foldlM_cons, bind_eq_ok] at ok
      obtain ⟨next, updated, rest⟩ := ok
      obtain ⟨old, others⟩ := ih rest
      rw [claimRow] at updated
      split at updated
      case isFalse => cases updated
      case isTrue =>
      obtain rfl := Except.ok.inj updated
      rcases Table.mem_save.mp old with ⟨rfl, _⟩ | ⟨untouched, different⟩
      · exact absurd pending (claimed.statusOf_ne_pending first)
      · exact ⟨untouched, List.forall_mem_cons.mpr ⟨different, others⟩⟩

theorem mem_claim (ok : claim claimed stamp requests = .ok after) {row : ApprovalRequest}
    (member : row ∈ after.rows) (pending : row.status = .pending) :
    row ∈ requests.rows ∧ ¬ claimed.Selects row := by
  obtain ⟨old, others⟩ := mem_foldlM_claimRow ok member pending
  refine ⟨old, fun selects => ?_⟩
  have selected : row ∈ requests.rows.filter fun row => claimed.Selects row :=
    List.mem_filter.mpr ⟨old, decide_eq_true selects⟩
  exact others row selected rfl

end

end NaturalMold.Approvals

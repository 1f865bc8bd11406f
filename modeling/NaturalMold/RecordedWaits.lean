import NaturalMold.WaiterLinks

/-! # Recording for a run that waits -/

namespace NaturalMold.ApprovalWaiters

open Approvals (ApprovalRequest PendingInterrupt RecordEnvironment)
open Conversations (Uuid Time RunStatus)
open KeyedTables PendingCalls StepRuns

theorem waiterId_recordedRow {env : RecordEnvironment} {run : ConversationRun}
    {origin : Option WaiterKey} {parent : Option WaiterRequest}
    {requests : Table WaiterRequest.id} {interrupt : PendingInterrupt} (kind : WaiterKind) :
    (recordedRow env run origin parent requests interrupt).waiterId kind =
      (originId origin kind <|> parent.bind fun row => row.waiterId kind) := by
  cases kind with
  | triggerRun => rfl
  | apiRun => rfl

theorem originId_some (key : WaiterKey) (kind : WaiterKind) :
    originId (some key) kind = if key.kind = kind then some key.id else none := by
  unfold originId
  rw [Option.filter_some]
  by_cases same : key.kind = kind
  · simp [same]
  · simp [same]

structure Inherits (run : ConversationRun) (parent : Option WaiterRequest)
    (rows : List WaiterRequest) : Prop where
  root : run.parentRunId = none → parent = none
  found : ∀ row, parent = some row → row ∈ rows ∧ row.request.resumedRunId = some run.id
  unfound : run.parentRunId ≠ none → parent = none →
    ∀ row ∈ rows, row.request.resumedRunId ≠ some run.id

theorem inherits (run : ConversationRun) (requests : Table WaiterRequest.id) :
    Inherits run (inherited run requests) requests.rows := by
  unfold inherited
  constructor
  case root =>
      intro root
      rw [root]
      rfl
  case found =>
      intro row found
      split at found
      case isFalse => cases found
      case isTrue =>
          have resumed := List.find?_some found
          exact ⟨List.mem_of_find?_eq_some found, of_decide_eq_true resumed⟩
  case unfound =>
      intro resumed unfound row member same
      rw [if_pos (Option.isSome_iff_ne_none.mpr resumed), List.find?_eq_none] at unfound
      exact unfound row member (decide_eq_true same)

structure IsNew (db : Database) (runId : Uuid) (origin : Option WaiterKey)
    (row : WaiterRequest) : Prop where
  ofRun : row.request.runId = runId
  pending : row.request.status = .pending
  unresumed : row.request.resumedRunId = none
  waits : ∀ key, row.Waits key → origin = some key ∨
    ∃ parent ∈ db.requests.rows, parent.request.resumedRunId = some runId ∧ parent.Waits key

structure Recorded (db after : Database) (runId : Uuid) (origin : Option WaiterKey) : Prop where
  runs : after.runs = db.runs
  waiters : after.waiters = db.waiters
  ends : after.ends = db.ends
  old : ∀ row ∈ db.requests.rows, row ∈ after.requests.rows
  new : ∀ row ∈ after.requests.rows, row ∈ db.requests.rows ∨ IsNew db runId origin row
  linked : Linked after

section

variable {db : Database} {env : RecordEnvironment} {run : ConversationRun}
  {origin : Option WaiterKey} {parent : Option WaiterRequest}

structure OriginKnown (db : Database) (run : ConversationRun) (origin : Option WaiterKey) :
    Prop where
  owner : ∀ key, origin = some key → ∃ waiter ∈ db.waiters.rows,
    waiter.key = key ∧ waiter.conversationRunId = run.id
  unowned : origin = none → run.parentRunId ≠ none

/-- The origin of a run that continues another is the run that waits on the other. -/
theorem OriginKnown.eq_none (known : OriginKnown db run origin) (linked : Linked db)
    (member : run ∈ db.runs.rows) (resumed : run.parentRunId ≠ none) : origin = none := by
  cases origin with
  | none => rfl
  | some key =>
      obtain ⟨waiter, waiterMember, _, owns⟩ := known.owner key rfl
      obtain ⟨other, otherMember, otherId, root⟩ := linked.owned waiter waiterMember
      obtain rfl := db.runs.eq_of_key_eq otherMember member (otherId.trans owns)
      exact absurd root resumed

theorem Linked.insertRecorded (linked : Linked db) (member : run ∈ db.runs.rows)
    (stopped : run.status = .interrupted) (known : OriginKnown db run origin)
    (inherits : Inherits run parent db.requests.rows) {requests : Table WaiterRequest.id}
    {interrupt : PendingInterrupt} (inserted : db.requests.insert?
      (recordedRow env run origin parent db.requests interrupt) = some requests) :
    Linked { db with requests } := by
  obtain ⟨rows, _⟩ := Table.insert?_eq_some inserted
  have cases : ∀ row ∈ requests.rows, row ∈ db.requests.rows ∨
      row = recordedRow env run origin parent db.requests interrupt := by
    intro row rowMember
    rw [rows, List.mem_append, List.mem_singleton] at rowMember
    exact rowMember
  have old : ∀ row ∈ db.requests.rows, row ∈ requests.rows := by
    intro row rowMember
    rw [rows]
    exact List.mem_append_left _ rowMember
  have resumedOld : ∀ row ∈ requests.rows, ∀ id, row.request.resumedRunId = some id →
      row ∈ db.requests.rows := by
    intro row rowMember id resumed
    rcases cases row rowMember with before | rfl
    · exact before
    · cases resumed
  constructor
  case owned => exact linked.owned
  case single => exact linked.single
  case stopped =>
      intro row rowMember
      rcases cases row rowMember with before | rfl
      · exact linked.stopped row before
      · exact ⟨run, member, rfl, stopped⟩
  case resumes =>
      intro row rowMember id resumed
      exact linked.resumes row (resumedOld row rowMember id resumed) id resumed
  case first =>
      intro row rowMember other otherMember otherId root
      rcases cases row rowMember with before | rfl
      · exact linked.first row before other otherMember otherId root
      · obtain rfl : other = run := db.runs.eq_of_key_eq otherMember member otherId
        cases origin with
        | none => exact absurd root (known.unowned rfl)
        | some key =>
            obtain ⟨waiter, waiterMember, rfl, owns⟩ := known.owner key rfl
            refine ⟨waiter, waiterMember, owns, fun kind => ?_⟩
            rw [waiterId_recordedRow, inherits.root root, Option.bind_none]
            simp
  case later =>
  intro row rowMember other otherMember otherId resumed
  rcases cases row rowMember with before | rfl
  · obtain ⟨like, none⟩ := linked.later row before other otherMember otherId resumed
    constructor
    · intro first firstMember resumes
      exact like first (resumedOld first firstMember other.id resumes) resumes
    · intro unresumed
      exact none fun first firstMember => unresumed first (old first firstMember)
  · obtain rfl : other = run := db.runs.eq_of_key_eq otherMember member otherId
    have noOrigin := known.eq_none linked otherMember resumed
    subst noOrigin
    constructor
    · intro first firstMember resumes kind
      have before := resumedOld first firstMember other.id resumes
      rw [waiterId_recordedRow]
      cases parent with
      | none => exact absurd resumes (inherits.unfound resumed rfl first before)
      | some row =>
          obtain ⟨rowMember, rowResumed⟩ := inherits.found row rfl
          exact linked.alike_of_resumed rowMember before rowResumed resumes kind
    · intro unresumed kind
      rw [waiterId_recordedRow]
      cases parent with
      | none => rfl
      | some row =>
          obtain ⟨rowMember, rowResumed⟩ := inherits.found row rfl
          exact absurd rowResumed (unresumed row (old row rowMember))

theorem recorded_recordInterrupt (linked : Linked db) (member : run ∈ db.runs.rows)
    (stopped : run.status = .interrupted) (known : OriginKnown db run origin)
    (inherits : Inherits run parent db.requests.rows) {requests : Table WaiterRequest.id}
    {interrupt : PendingInterrupt}
    (recorded : recordInterrupt env run origin parent db.requests interrupt = some requests) :
    Recorded db { db with requests } run.id origin ∧ Inherits run parent requests.rows := by
  have unchanged : requests = db.requests →
      Recorded db { db with requests } run.id origin ∧ Inherits run parent requests.rows := by
    rintro rfl
    exact ⟨⟨rfl, rfl, rfl, fun _ => id, fun _ => Or.inl, linked⟩, inherits⟩
  unfold recordInterrupt at recorded
  split at recorded
  · exact unchanged (Option.some.inj recorded).symm
  · split at recorded
    · exact unchanged (Option.some.inj recorded).symm
    · obtain ⟨rows, _⟩ := Table.insert?_eq_some recorded
      constructor
      · constructor
        case runs => rfl
        case waiters => rfl
        case ends => rfl
        case old =>
            intro row rowMember
            dsimp only
            rw [rows]
            exact List.mem_append_left _ rowMember
        case new =>
            intro row rowMember
            dsimp only at rowMember
            rw [rows, List.mem_append, List.mem_singleton] at rowMember
            rcases rowMember with before | rfl
            · exact Or.inl before
            · refine Or.inr ⟨rfl, rfl, rfl, fun key waits => ?_⟩
              unfold WaiterRequest.Waits at waits
              rw [waiterId_recordedRow] at waits
              cases origin with
              | some other =>
                  left
                  by_cases sameKind : other.kind = key.kind
                  · rw [originId_some, if_pos sameKind] at waits
                    obtain ⟨kind, id⟩ := key
                    obtain ⟨otherKind, otherId⟩ := other
                    have sameId : otherId = id := Option.some.inj waits
                    dsimp only at sameKind
                    rw [sameKind, sameId]
                  · have resumed : run.parentRunId ≠ none := by
                      intro root
                      rw [originId_some, if_neg sameKind, inherits.root root] at waits
                      cases waits
                    exact absurd (known.eq_none linked member resumed) (by simp)
              | none =>
                  right
                  cases parent with
                  | none => cases waits
                  | some first =>
                      obtain ⟨firstMember, resumed⟩ := inherits.found first rfl
                      exact ⟨first, firstMember, resumed, waits⟩
        case linked => exact linked.insertRecorded member stopped known inherits recorded
      · constructor
        case root => exact inherits.root
        case found =>
            intro row same
            obtain ⟨rowMember, resumed⟩ := inherits.found row same
            rw [rows]
            exact ⟨List.mem_append_left _ rowMember, resumed⟩
        case unfound =>
        intro resumed none row rowMember same
        rw [rows, List.mem_append, List.mem_singleton] at rowMember
        rcases rowMember with before | rfl
        · exact inherits.unfound resumed none row before same
        · cases same

theorem Recorded.trans {middle after : Database} {runId : Uuid}
    (first : Recorded db middle runId origin) (second : Recorded middle after runId origin) :
    Recorded db after runId origin := by
  constructor
  case runs => exact second.runs.trans first.runs
  case waiters => exact second.waiters.trans first.waiters
  case ends => exact second.ends.trans first.ends
  case old => exact fun row member => second.old row (first.old row member)
  case new =>
      intro row member
      rcases second.new row member with before | new
      · exact first.new row before
      · refine Or.inr ⟨new.ofRun, new.pending, new.unresumed, fun key waits => ?_⟩
        rcases new.waits key waits with origin | ⟨parent, parentMember, resumed, parentWaits⟩
        · exact Or.inl origin
        · rcases first.new parent parentMember with old | added
          · exact Or.inr ⟨parent, old, resumed, parentWaits⟩
          · rw [added.unresumed] at resumed
            cases resumed
  case linked => exact second.linked

theorem recorded_foldlM {interrupts : List PendingInterrupt} (linked : Linked db)
    (member : run ∈ db.runs.rows) (stopped : run.status = .interrupted)
    (known : OriginKnown db run origin) (inherits : Inherits run parent db.requests.rows)
    {requests : Table WaiterRequest.id}
    (recorded : interrupts.foldlM (recordInterrupt env run origin parent) db.requests =
      some requests) : Recorded db { db with requests } run.id origin := by
  induction interrupts generalizing db with
  | nil =>
      obtain rfl := Option.some.inj recorded
      exact ⟨rfl, rfl, rfl, fun _ => id, fun _ => Or.inl, linked⟩
  | cons interrupt interrupts ih =>
      rw [List.foldlM_cons, Option.bind_eq_bind, Option.bind_eq_some_iff] at recorded
      obtain ⟨next, first, rest⟩ := recorded
      obtain ⟨added, stillInherits⟩ :=
        recorded_recordInterrupt linked member stopped known inherits first
      exact added.trans (@ih { db with requests := next } added.linked member
        ⟨known.owner, known.unowned⟩ stillInherits rest)

theorem recorded_record {runId : Uuid} {interrupts : List PendingInterrupt} (linked : Linked db)
    (known : ∀ run ∈ db.runs.rows, run.id = runId → OriginKnown db run origin) :
    Recorded db (db.record env runId origin interrupts) runId origin := by
  have unchanged : Recorded db db runId origin :=
    ⟨rfl, rfl, rfl, fun _ => id, fun _ => Or.inl, linked⟩
  unfold Database.record
  split
  case h_1 => exact unchanged
  case h_2 run found =>
  obtain ⟨member, rfl⟩ := Table.get?_eq_some_iff.mp found
  split
  case isTrue => exact unchanged
  case isFalse stopped =>
  split
  case h_1 => exact unchanged
  case h_2 requests recorded =>
  unfold recordPending at recorded
  split at recorded
  · obtain rfl := Option.some.inj recorded
    exact unchanged
  · exact recorded_foldlM linked member (not_not.mp stopped)
      (known run member rfl) (inherits run db.requests) recorded

end

end NaturalMold.ApprovalWaiters

import NaturalMold.ApprovalTransactions

/-! # What transactions keep of the approval requests -/

namespace NaturalMold.Approvals

open Conversations (Uuid Time)
open KeyedTables RowVersions

/-- The row has left `pending`. -/
def Settled (row : ApprovalRequest) : Prop :=
  row.status ≠ .pending

/-- The columns that no update changes. -/
def ApprovalRequest.identity (row : ApprovalRequest) : Uuid × Uuid × String :=
  (row.id, row.runId, row.interruptId)

namespace Update

variable {change : Update} {row : ApprovalRequest}

theorem pending_of_guard (guarded : change.guard row) : row.status = .pending := by
  cases change with
  | claim request stamp => exact (of_decide_eq_true guarded).1
  | close reason stamp => exact of_decide_eq_true guarded
  | stop agentIds stamp => exact (of_decide_eq_true guarded).2

theorem settled_apply (change : Update) (row : ApprovalRequest) : Settled (change.apply row) := by
  cases change with
  | claim request stamp => exact request.statusOf_ne_pending row
  | close reason stamp => nofun
  | stop agentIds stamp => nofun

@[simp]
theorem identity_apply (change : Update) (row : ApprovalRequest) :
    (change.apply row).identity = row.identity := by
  cases change <;> rfl

@[simp]
theorem id_apply (change : Update) (row : ApprovalRequest) : (change.apply row).id = row.id := by
  cases change <;> rfl

end Update

def Work.Performs (work : Work) : Update → Prop
  | .claim request _ => work.claim = some request
  | .close reason _ => ∃ rowId, work = .close rowId reason
  | .stop agentIds _ => work = .stop agentIds

def Update.Targets (change : Update) (row : ApprovalRequest) : Prop :=
  ∀ request stamp, change = .claim request stamp → request.Selects row

def Statement.BelongsTo (initial : RequestTable) (work : Work) : Statement → Prop
  | .acceptRun run => work.run = some run
  | .selectRequests request => work.claim = some request
  | .closeRequest rowId reason => work = .close rowId reason
  | .cancelApprovals agentIds => work = .stop agentIds
  | .update change rowId => work.Performs change ∧
      ∀ row, row.identity ∈ initial.rows.map ApprovalRequest.identity → row.id = rowId →
        change.Targets row

/-- What a transaction has done so far is what its channel does. -/
structure Transaction.Sound (initial : RequestTable) (transaction : Transaction) : Prop where
  belongs : ∀ statement ∈ transaction.remaining, statement.BelongsTo initial transaction.work
  wrote : ∀ row ∈ transaction.writer.written, ∃ change old, transaction.work.Performs change ∧
    change.Targets old ∧ change.guard old ∧ row = change.apply old
  identities : ∀ row ∈ transaction.writer.written,
    row.identity ∈ initial.rows.map ApprovalRequest.identity
  accepted : ∀ run, transaction.work.run = some run →
    .acceptRun run ∈ transaction.remaining ∨ transaction.created = some run
  created : ∀ run, transaction.created = some run → transaction.work.run = some run
  covered : ∀ request, transaction.work.claim = some request →
    .selectRequests request ∈ transaction.remaining ∨
      ∀ old ∈ initial.rows, request.Selects old →
        (∃ stamp, .update (.claim request stamp) old.id ∈ transaction.remaining) ∨
          ∃ row ∈ transaction.writer.written, row.id = old.id

/-- What holds after every step. -/
structure System.Kept (initial : RequestTable) (initialRuns : RunTable) (system : System) :
    Prop where
  consistent : Consistent Settled initial system.rows system.writers
  identities : system.rows.rows.map ApprovalRequest.identity =
    initial.rows.map ApprovalRequest.identity
  sound : ∀ transaction ∈ system.transactions, transaction.Sound initial
  finished : ∀ transaction ∈ system.transactions, transaction.writer.phase = .committed →
    transaction.remaining = [] ∧
      ∀ run, transaction.created = some run → run ∈ system.runs.rows
  runs : ∀ run ∈ system.runs.rows, run ∈ initialRuns.rows ∨
    ∃ transaction ∈ system.transactions, transaction.writer.phase = .committed ∧
      transaction.created = some run

section Transactions

variable {initial : RequestTable} {transaction : Transaction}

theorem belongs_statements (initial : RequestTable) (work : Work) :
    ∀ statement ∈ work.statements, statement.BelongsTo initial work := by
  cases work with
  | respond parentRunId responses actorId resumedRunId channel =>
      exact List.forall_mem_cons.mpr ⟨rfl, List.forall_mem_singleton.mpr rfl⟩
  | expire runId interruptId actions => exact List.forall_mem_singleton.mpr rfl
  | close rowId reason => exact List.forall_mem_singleton.mpr rfl
  | stop agentIds => exact List.forall_mem_singleton.mpr rfl

theorem acceptRun_mem_statements {work : Work} {run : ResumedRun} (isRun : work.run = some run) :
    .acceptRun run ∈ work.statements := by
  cases work with
  | respond parentRunId responses actorId resumedRunId channel =>
      rw [← Option.some.inj isRun]
      exact List.mem_cons_self
  | _ => cases isRun

theorem selectRequests_mem_statements {work : Work} {request : Claim}
    (isClaim : work.claim = some request) : .selectRequests request ∈ work.statements := by
  cases work with
  | respond parentRunId responses actorId resumedRunId channel =>
      rw [← Option.some.inj isClaim]
      exact List.mem_cons_of_mem _ List.mem_cons_self
  | expire runId interruptId actions =>
      rw [← Option.some.inj isClaim]
      exact List.mem_cons_self
  | _ => cases isClaim

theorem sound_begin (initial : RequestTable) (work : Work) :
    (Transaction.begin work).Sound initial where
  belongs := belongs_statements initial work
  wrote := fun _ member => absurd member List.not_mem_nil
  identities := fun _ member => absurd member List.not_mem_nil
  accepted := fun _ isRun => Or.inl (acceptRun_mem_statements isRun)
  created := fun _ isCreated => absurd isCreated (Option.some_ne_none _).symm
  covered := fun _ isClaim => Or.inl (selectRequests_mem_statements isClaim)

theorem Transaction.Sound.endWith (sound : transaction.Sound initial)
    (stale : Option ApprovalStatus) (phase : Phase) :
    ({ transaction with stale, writer := { transaction.writer with phase := phase } } :
      Transaction).Sound initial :=
  ⟨sound.belongs, sound.wrote, sound.identities, sound.accepted, sound.created, sound.covered⟩

section Statements

variable {statement : Statement} {rest : List Statement}

/-- The transaction goes on to statements of its channel; nothing is lost but what the
first statement has done. -/
theorem Transaction.Sound.advance (sound : transaction.Sound initial)
    (remaining : transaction.remaining = statement :: rest) (added : List Statement)
    (belongs : ∀ other ∈ added, other.BelongsTo initial transaction.work)
    (accepted : ∀ run, statement ≠ .acceptRun run)
    (selected : ∀ request, statement = .selectRequests request →
      ∀ old ∈ initial.rows, request.Selects old →
        ∃ stamp, .update (.claim request stamp) old.id ∈ added)
    (updated : ∀ change rowId, statement = .update change rowId → change.required = false) :
    ({ transaction with remaining := added ++ rest } : Transaction).Sound initial where
  belongs := by
    intro other member
    rcases List.mem_append.mp member with new | old
    · exact belongs other new
    · apply sound.belongs
      rw [remaining]
      exact List.mem_cons_of_mem _ old
  wrote := sound.wrote
  identities := sound.identities
  accepted := by
    intro run isRun
    apply (sound.accepted run isRun).imp_left
    intro member
    rw [remaining] at member
    rcases List.mem_cons.mp member with first | later
    · exact absurd first.symm (accepted run)
    · exact List.mem_append_right _ later
  created := sound.created
  covered := by
    intro request isClaim
    rcases sound.covered request isClaim with select | covered
    · rw [remaining] at select
      rcases List.mem_cons.mp select with first | later
      · right
        intro old member selects
        obtain ⟨stamp, listed⟩ := selected request first.symm old member selects
        exact Or.inl ⟨stamp, List.mem_append_left _ listed⟩
      · exact Or.inl (List.mem_append_right _ later)
    · right
      intro old member selects
      apply (covered old member selects).imp_left
      rintro ⟨stamp, listed⟩
      rw [remaining] at listed
      rcases List.mem_cons.mp listed with first | later
      · exact absurd (updated _ _ first.symm) (by simp [Update.required])
      · exact ⟨stamp, List.mem_append_right _ later⟩

theorem Transaction.Sound.accept (sound : transaction.Sound initial) {run : ResumedRun}
    (remaining : transaction.remaining = .acceptRun run :: rest) :
    ({ transaction with remaining := rest, created := some run } : Transaction).Sound initial where
  belongs := by
    intro other member
    apply sound.belongs
    rw [remaining]
    exact List.mem_cons_of_mem _ member
  wrote := sound.wrote
  identities := sound.identities
  accepted := by
    intro other isRun
    have belongs : transaction.work.run = some run :=
      sound.belongs (.acceptRun run) (by rw [remaining]; exact List.mem_cons_self)
    right
    exact belongs.symm.trans isRun
  created := by
    rintro other isCreated
    rw [← Option.some.inj isCreated]
    exact sound.belongs (.acceptRun run) (by rw [remaining]; exact List.mem_cons_self)
  covered := by
    intro request isClaim
    rcases sound.covered request isClaim with select | covered
    · left
      rw [remaining] at select
      rcases List.mem_cons.mp select with first | later
      · cases first
      · exact later
    · right
      intro old member selects
      apply (covered old member selects).imp_left
      rintro ⟨stamp, listed⟩
      rw [remaining] at listed
      rcases List.mem_cons.mp listed with first | later
      · cases first
      · exact ⟨stamp, later⟩

theorem Transaction.Sound.wroteRow (sound : transaction.Sound initial) {change : Update}
    {row : ApprovalRequest} (remaining : transaction.remaining = .update change row.id :: rest)
    (guarded : change.guard row)
    (identity : row.identity ∈ initial.rows.map ApprovalRequest.identity) :
    ({ transaction with
      remaining := rest
      writer := { transaction.writer with
        written := transaction.writer.written ++ [change.apply row] } } :
      Transaction).Sound initial where
  belongs := by
    intro other member
    apply sound.belongs
    rw [remaining]
    exact List.mem_cons_of_mem _ member
  wrote := by
    intro other member
    rcases List.mem_append.mp member with old | new
    · exact sound.wrote other old
    · obtain ⟨performs, targets⟩ : transaction.work.Performs change ∧ _ :=
        sound.belongs (.update change row.id) (by rw [remaining]; exact List.mem_cons_self)
      exact ⟨change, row, performs, targets row identity rfl, guarded, List.mem_singleton.mp new⟩
  identities := by
    intro other member
    rcases List.mem_append.mp member with old | new
    · exact sound.identities other old
    · rw [List.mem_singleton.mp new, Update.identity_apply]
      exact identity
  accepted := by
    intro run isRun
    apply (sound.accepted run isRun).imp_left
    intro member
    rw [remaining] at member
    rcases List.mem_cons.mp member with first | later
    · cases first
    · exact later
  created := sound.created
  covered := by
    intro request isClaim
    rcases sound.covered request isClaim with select | covered
    · left
      rw [remaining] at select
      rcases List.mem_cons.mp select with first | later
      · cases first
      · exact later
    · right
      intro old member selects
      rcases covered old member selects with ⟨stamp, listed⟩ | ⟨other, written, same⟩
      · rw [remaining] at listed
        rcases List.mem_cons.mp listed with first | later
        · right
          injection first with _ sameId
          refine ⟨change.apply row, List.mem_append_right _ List.mem_cons_self, ?_⟩
          rw [Update.id_apply, sameId]
        · exact Or.inl ⟨stamp, later⟩
      · exact Or.inr ⟨other, List.mem_append_left _ written, same⟩

end Statements

end Transactions

section Steps

variable {initial : RequestTable} {initialRuns : RunTable} {system : System} {index : ℕ}
  {transaction : Transaction}

theorem writers_put (system : System) (index : ℕ) (transaction : Transaction) :
    (system.put index transaction).writers = system.writers.set index transaction.writer :=
  List.map_set

theorem getElem?_writers (found : system.transactions[index]? = some transaction) :
    system.writers[index]? = some transaction.writer := by
  rw [System.writers, List.getElem?_map, found]
  rfl

theorem set_writer_self (found : system.transactions[index]? = some transaction) :
    system.writers.set index transaction.writer = system.writers := by
  obtain ⟨bound, same⟩ := List.getElem?_eq_some_iff.mp (getElem?_writers found)
  rw [← same]
  exact List.set_getElem_self bound

theorem kept_initial (initial : RequestTable) (initialRuns : RunTable) :
    (System.initial initial initialRuns).Kept initial initialRuns where
  consistent := Consistent.start Settled initial
  identities := rfl
  sound := fun _ member => absurd member List.not_mem_nil
  finished := fun _ member => absurd member List.not_mem_nil
  runs := fun _ member => Or.inl member

theorem System.Kept.begin (kept : system.Kept initial initialRuns) (work : Work) :
    ({ system with transactions := system.transactions ++ [.begin work] } : System).Kept initial
      initialRuns where
  consistent := by
    have begun := kept.consistent.begin
    rw [System.writers, List.map_append]
    exact begun
  identities := kept.identities
  sound := by
    intro other member
    rcases List.mem_append.mp member with old | new
    · exact kept.sound other old
    · rw [List.mem_singleton.mp new]
      exact sound_begin initial work
  finished := by
    intro other member committed
    rcases List.mem_append.mp member with old | new
    · exact kept.finished other old committed
    · rw [List.mem_singleton.mp new] at committed
      cases committed
  runs := by
    intro run member
    apply (kept.runs run member).imp_right
    rintro ⟨other, old, committed⟩
    exact ⟨other, List.mem_append_left _ old, committed⟩

theorem System.mem_put_of_committed (found : system.transactions[index]? = some transaction)
    (active : transaction.writer.phase = .active) {changed other : Transaction}
    (member : other ∈ system.transactions) (committed : other.writer.phase = .committed) :
    other ∈ (system.put index changed).transactions := by
  obtain ⟨position, atPosition⟩ := List.mem_iff_getElem?.mp member
  have differs : index ≠ position := by
    rintro rfl
    rw [found] at atPosition
    cases atPosition
    exact absurd (active.symm.trans committed) nofun
  refine List.mem_iff_getElem?.mpr ⟨position, ?_⟩
  rw [System.put, List.getElem?_set_ne differs, atPosition]

theorem System.Kept.put (kept : system.Kept initial initialRuns)
    (found : system.transactions[index]? = some transaction)
    (active : transaction.writer.phase = .active) {changed : Transaction}
    (consistent : Consistent Settled initial system.rows
      (system.writers.set index changed.writer))
    (uncommitted : changed.writer.phase ≠ .committed) (sound : changed.Sound initial) :
    (system.put index changed).Kept initial initialRuns where
  consistent := by
    rw [writers_put]
    exact consistent
  identities := kept.identities
  sound := by
    intro other member
    rcases List.mem_or_eq_of_mem_set member with old | rfl
    · exact kept.sound other old
    · exact sound
  finished := by
    intro other member committed
    rcases List.mem_or_eq_of_mem_set member with old | rfl
    · exact kept.finished other old committed
    · exact absurd committed uncommitted
  runs := by
    intro run member
    apply (kept.runs run member).imp_right
    rintro ⟨other, old, committed, created⟩
    exact ⟨other, System.mem_put_of_committed found active old committed, committed, created⟩

theorem System.Kept.abort (kept : system.Kept initial initialRuns)
    (found : system.transactions[index]? = some transaction)
    (active : transaction.writer.phase = .active) (stale : Option ApprovalStatus) :
    (system.abort index transaction stale).Kept initial initialRuns := by
  apply kept.put found active
  · exact kept.consistent.rollback (getElem?_writers found) active
  · nofun
  · exact (kept.sound transaction (List.mem_of_getElem? found)).endWith stale .rolledBack

/-- A transaction goes on and writes nothing. -/
theorem System.Kept.goOn (kept : system.Kept initial initialRuns)
    (found : system.transactions[index]? = some transaction)
    (active : transaction.writer.phase = .active) {changed : Transaction}
    (sameWriter : changed.writer = transaction.writer) (sound : changed.Sound initial) :
    (system.put index changed).Kept initial initialRuns := by
  apply kept.put found active _ _ sound
  · rw [sameWriter, set_writer_self found]
    exact kept.consistent
  · rw [sameWriter, active]
    nofun

theorem identities_install (kept : system.Kept initial initialRuns)
    (sound : transaction.Sound initial) :
    (install system.rows transaction.writer.written).rows.map ApprovalRequest.identity =
      initial.rows.map ApprovalRequest.identity := by
  rw [← kept.identities, install, List.map_map]
  apply List.map_congr_left
  intro old member
  rw [Function.comp_apply]
  cases found : transaction.writer.written.find? fun row => row.id = old.id with
  | none => rfl
  | some row =>
      have same : row.id = old.id := by simpa using List.find?_some found
      have known := sound.identities row (List.mem_of_find?_eq_some found)
      rw [← kept.identities] at known
      obtain ⟨other, otherMember, identity⟩ := List.mem_map.mp known
      have otherId : other.id = row.id := congrArg Prod.fst identity
      have equal := system.rows.eq_of_key_eq otherMember member (otherId.trans same)
      rw [Option.getD_some, ← identity, equal]

theorem kept_commit (kept : system.Kept initial initialRuns)
    (found : system.transactions[index]? = some transaction)
    (active : transaction.writer.phase = .active) (done : transaction.remaining = []) :
    (system.commit index transaction).Kept initial initialRuns := by
  have member := List.mem_of_getElem? found
  have sound := kept.sound transaction member
  obtain ⟨bound, _⟩ := List.getElem?_eq_some_iff.mp found
  let changed : Transaction :=
    { transaction with writer := { transaction.writer with phase := .committed } }
  have installed : ∀ runs : RunTable,
      (∀ run, transaction.created = some run → run ∈ runs.rows) →
      (∀ run ∈ system.runs.rows, run ∈ runs.rows) →
      (∀ run ∈ runs.rows, run ∈ system.runs.rows ∨ transaction.created = some run) →
      ({ system.put index changed with
        rows := install system.rows transaction.writer.written
        runs := runs } : System).Kept initial initialRuns := by
    intro runs createdRuns oldRuns newRuns
    constructor
    · have committed := kept.consistent.commit (getElem?_writers found) active
      rw [← writers_put system index changed] at committed
      exact committed
    · exact identities_install kept sound
    · intro other listed
      rcases List.mem_or_eq_of_mem_set listed with old | rfl
      · exact kept.sound other old
      · exact sound.endWith transaction.stale .committed
    · intro other listed committed
      rcases List.mem_or_eq_of_mem_set listed with old | rfl
      · obtain ⟨none, stored⟩ := kept.finished other old committed
        exact ⟨none, fun run created => oldRuns run (stored run created)⟩
      · exact ⟨done, createdRuns⟩
    · intro run stored
      rcases newRuns run stored with old | created
      · apply (kept.runs run old).imp_right
        rintro ⟨other, listed, committed, created⟩
        exact ⟨other, System.mem_put_of_committed found active listed committed, committed, created⟩
      · exact Or.inr ⟨changed, List.mem_set bound _, rfl, created⟩
  rw [System.commit]
  dsimp only
  split
  · rename_i none
    apply installed system.runs _ (fun _ => id) fun _ => Or.inl
    intro run created
    rw [none] at created
    cases created
  · rename_i run created
    split
    · rename_i runs inserted
      obtain ⟨rows, _⟩ := Table.insert?_eq_some inserted
      apply installed runs
      · intro other isCreated
        rw [rows, Option.some.inj (created.symm.trans isCreated)]
        exact List.mem_append_right _ List.mem_cons_self
      · intro other stored
        rw [rows]
        exact List.mem_append_left _ stored
      · intro other stored
        rw [rows] at stored
        apply (List.mem_append.mp stored).imp_right
        intro new
        rw [List.mem_singleton.mp new]
        exact created
    · exact kept.abort found active none

theorem kept_updateRow (kept : system.Kept initial initialRuns)
    (found : system.transactions[index]? = some transaction)
    (active : transaction.writer.phase = .active) {change : Update} {rowId : Uuid}
    {rest : List Statement} (remaining : transaction.remaining = .update change rowId :: rest) :
    (system.updateRow index transaction rest change rowId).Kept initial initialRuns := by
  have member := List.mem_of_getElem? found
  have sound := kept.sound transaction member
  rw [System.updateRow]
  split
  · exact kept
  · rename_i unlocked
    rw [Bool.not_eq_true] at unlocked
    split
    · exact kept.abort found active none
    · rename_i row seen
      obtain ⟨sameId, source⟩ := view_eq_some seen
      subst sameId
      split
      · rename_i guarded
        have identity : row.identity ∈ initial.rows.map ApprovalRequest.identity := by
          rcases source with own | ⟨stored, _⟩
          · exact sound.identities row own
          · rw [← kept.identities]
            exact List.mem_map_of_mem stored
        have wrote := sound.wroteRow remaining guarded identity
        apply kept.put found active _ _ wrote
        · have unsettled : ¬ Settled row := not_not.mpr (Update.pending_of_guard guarded)
          exact kept.consistent.write (getElem?_writers found) active (change.id_apply row) seen
            unsettled (change.settled_apply row) unlocked
        · rw [active]
          nofun
      · split
        · exact kept.abort found active _
        · rename_i optional
          refine kept.goOn found active ?_ (sound.advance remaining [] ?_ ?_ ?_ ?_)
          · rfl
          · exact fun _ listed => absurd listed List.not_mem_nil
          · nofun
          · nofun
          · intro other otherId same
            injection same with sameChange
            rw [← sameChange]
            exact Bool.eq_false_iff.mpr optional

theorem selects_of_identity {request : Claim} {row other : ApprovalRequest}
    (same : row.identity = other.identity) (selects : request.Selects row) :
    request.Selects other := by
  injection same with _ sameRest
  injection sameRest with sameRun sameInterrupt
  rw [Claim.Selects, ← sameRun, ← sameInterrupt]
  exact selects

theorem selects_of_id (kept : system.Kept initial initialRuns) {request : Claim}
    {row other : ApprovalRequest}
    (selected : row ∈ system.rows.rows.filter fun row => request.Selects row)
    (known : other.identity ∈ initial.rows.map ApprovalRequest.identity)
    (sameId : other.id = row.id) : request.Selects other := by
  obtain ⟨stored, selects⟩ := List.mem_filter.mp selected
  rw [← kept.identities] at known
  obtain ⟨another, anotherStored, identity⟩ := List.mem_map.mp known
  have anotherId : another.id = other.id := congrArg Prod.fst identity
  have equal := system.rows.eq_of_key_eq anotherStored stored (anotherId.trans sameId)
  rw [equal] at identity
  exact selects_of_identity identity (of_decide_eq_true selects)

theorem kept_execute (kept : system.Kept initial initialRuns) (index : ℕ) (now : Time) :
    (system.execute index now).Kept initial initialRuns := by
  rw [System.execute]
  split
  · exact kept
  · rename_i transaction found
    have sound := kept.sound transaction (List.mem_of_getElem? found)
    split
    · exact kept
    · rename_i phase
      have active : transaction.writer.phase = .active := not_not.mp phase
      split
      · rename_i done
        exact kept_commit kept found active done
      · rename_i run rest remaining
        split
        · exact kept.abort found active none
        · refine kept.goOn found active ?_ (sound.accept remaining)
          rfl
      · rename_i request rest remaining
        dsimp only
        have isClaim : transaction.work.claim = some request :=
          sound.belongs (.selectRequests request) (by rw [remaining]; exact List.mem_cons_self)
        refine kept.goOn found active ?_ (sound.advance remaining _ ?_ ?_ ?_ ?_)
        · rfl
        · intro other listed
          obtain ⟨row, selected, rfl⟩ := List.mem_map.mp listed
          refine ⟨isClaim, fun other known sameId => ?_⟩
          intro claimed stamp same
          injection same with sameRequest
          rw [← sameRequest]
          exact selects_of_id kept selected known sameId
        · nofun
        · intro other same old member selects
          injection same with sameRequest
          subst sameRequest
          have known : old.identity ∈ system.rows.rows.map ApprovalRequest.identity := by
            rw [kept.identities]
            exact List.mem_map_of_mem member
          obtain ⟨row, stored, identity⟩ := List.mem_map.mp known
          have selectsRow := selects_of_identity identity.symm selects
          have sameId : row.id = old.id := congrArg Prod.fst identity
          refine ⟨now, List.mem_map.mpr ⟨row, ?_, by rw [sameId]⟩⟩
          exact List.mem_filter.mpr ⟨stored, decide_eq_true selectsRow⟩
        · nofun
      · rename_i rowId reason rest remaining
        have isClose : transaction.work = .close rowId reason :=
          sound.belongs (.closeRequest rowId reason) (by rw [remaining]; exact List.mem_cons_self)
        refine kept.goOn found active ?_
          (sound.advance remaining [.update (.close reason now) rowId] ?_ ?_ ?_ ?_)
        · rfl
        · exact List.forall_mem_singleton.mpr ⟨⟨rowId, isClose⟩, fun _ _ _ => nofun⟩
        · nofun
        · nofun
        · nofun
      · rename_i agentIds rest remaining
        dsimp only
        have isStop : transaction.work = .stop agentIds :=
          sound.belongs (.cancelApprovals agentIds) (by rw [remaining]; exact List.mem_cons_self)
        refine kept.goOn found active ?_ (sound.advance remaining _ ?_ ?_ ?_ ?_)
        · rfl
        · intro other listed
          obtain ⟨row, _, rfl⟩ := List.mem_map.mp listed
          exact ⟨isStop, fun _ _ _ => nofun⟩
        · nofun
        · nofun
        · nofun
      · rename_i change rowId rest remaining
        exact kept_updateRow kept found active remaining

theorem kept_step (kept : system.Kept initial initialRuns) (action : Action) :
    (system.step action).Kept initial initialRuns := by
  cases action with
  | begin work => exact kept.begin work
  | execute index now => exact kept_execute kept index now
  | rollback index =>
      rw [System.step]
      split
      · exact kept
      · rename_i transaction found
        split
        · rename_i active
          exact kept.abort found active none
        · exact kept

end Steps

end NaturalMold.Approvals

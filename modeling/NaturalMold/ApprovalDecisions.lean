import NaturalMold.ApprovalInvariants

/-! # Approval requests are decided once -/

namespace NaturalMold.Approvals

open Conversations (Uuid Time)
open KeyedTables RowVersions

section Steps

variable {initial : RequestTable} {initialRuns : RunTable} {system : System}

theorem rows_commit (system : System) (index : ℕ) (transaction : Transaction) :
    (system.commit index transaction).rows = system.rows ∨
      (system.commit index transaction).rows = install system.rows transaction.writer.written := by
  rw [System.commit]
  dsimp only
  split
  · exact Or.inr rfl
  · split
    · exact Or.inr rfl
    · exact Or.inl rfl

theorem rows_updateRow (system : System) (index : ℕ) (transaction : Transaction)
    (rest : List Statement) (change : Update) (rowId : Uuid) :
    (system.updateRow index transaction rest change rowId).rows = system.rows := by
  rw [System.updateRow]
  split
  · rfl
  · split
    · rfl
    · split
      · rfl
      · split <;> rfl

theorem rows_step (system : System) (action : Action) :
    (system.step action).rows = system.rows ∨ ∃ transaction ∈ system.transactions,
      transaction.writer.phase = .active ∧
        (system.step action).rows = install system.rows transaction.writer.written := by
  cases action with
  | begin work => exact Or.inl rfl
  | rollback index =>
      rw [System.step]
      split
      · exact Or.inl rfl
      · split <;> exact Or.inl rfl
  | execute index now =>
      rw [System.step, System.execute]
      split
      · exact Or.inl rfl
      · rename_i transaction found
        split
        · exact Or.inl rfl
        · rename_i phase
          split
          · apply (rows_commit system index transaction).imp_right
            intro installed
            exact ⟨transaction, List.mem_of_getElem? found, not_not.mp phase, installed⟩
          · split <;> exact Or.inl rfl
          · exact Or.inl rfl
          · exact Or.inl rfl
          · exact Or.inl rfl
          · exact Or.inl (rows_updateRow _ _ _ _ _ _)

/-- A row that has left `pending` stays as it is. -/
theorem System.Kept.mem_step (kept : system.Kept initial initialRuns) (action : Action)
    {row : ApprovalRequest} (stored : row ∈ system.rows.rows) (settled : Settled row) :
    row ∈ (system.step action).rows.rows := by
  rcases rows_step system action with same | ⟨transaction, member, active, installed⟩
  · rw [same]
    exact stored
  · rw [installed]
    exact kept.consistent.mem_install_of_settled (List.mem_map_of_mem member) active stored settled

end Steps

/-- What the committed state says of the requests and the resumed runs: a row that has
changed was written by one committed transaction, a person's decision is in time and names
the run that was created with it, a committed resume has moved all rows that it answers,
and a resumed run is there only with its committed resume. -/
structure DecidedOnce (initial : RequestTable) (initialRuns : RunTable) (system : System) :
    Prop where
  changed : ∀ row ∈ system.rows.rows, row ∉ initial.rows →
    ∃ transaction ∈ system.transactions, transaction.writer.phase = .committed ∧
      row ∈ transaction.writer.written
  once : ∀ (first second : ℕ) (one other : Transaction),
    system.transactions[first]? = some one → system.transactions[second]? = some other →
    one.writer.phase = .committed → other.writer.phase = .committed →
      ∀ row ∈ one.writer.written, ∀ another ∈ other.writer.written, row.id = another.id →
        first = second
  decision : ∀ transaction ∈ system.transactions, transaction.writer.phase = .committed →
    ∀ row ∈ transaction.writer.written, row.status.IsDecision →
      (∃ stamp, row.decidedAt = some stamp ∧ stamp < row.expiresAt) ∧
        ∃ run ∈ system.runs.rows, transaction.created = some run ∧
          row.resumedRunId = some run.id ∧ row.runId = run.parentRunId
  moved : ∀ transaction ∈ system.transactions, transaction.writer.phase = .committed →
    ∀ run, transaction.created = some run → run ∈ system.runs.rows ∧
      ∀ request, transaction.work.claim = some request →
        ∀ row ∈ system.rows.rows, request.Selects row →
          row ∈ transaction.writer.written ∧ row.resumedRunId = some run.id
  resumed : ∀ run ∈ system.runs.rows, run ∈ initialRuns.rows ∨
    ∃ transaction ∈ system.transactions, transaction.writer.phase = .committed ∧
      transaction.created = some run

section Decisions

variable {initial : RequestTable} {initialRuns : RunTable} {system : System}
  {transaction : Transaction}

theorem resumedRunId_of_claim {work : Work} {request : Claim} {run : ResumedRun}
    (isClaim : work.claim = some request) (isRun : work.run = some run) :
    request.resumedRunId = some run.id ∧ request.runId = run.parentRunId := by
  cases work with
  | respond parentRunId responses actorId resumedRunId channel =>
      rw [← Option.some.inj isClaim, ← Option.some.inj isRun]
      exact ⟨rfl, rfl⟩
  | _ => cases isRun

/-- A person's decision is made by a claim of a resume. -/
theorem run_of_isDecision {work : Work} {change : Update} {old : ApprovalRequest}
    (performs : work.Performs change) (isDecision : (change.apply old).status.IsDecision) :
    ∃ request stamp run, change = .claim request stamp ∧ work.claim = some request ∧
      work.run = some run := by
  cases change with
  | close reason stamp => exact isDecision.elim
  | stop agentIds stamp => exact isDecision.elim
  | claim request stamp =>
      cases work with
      | respond parentRunId responses actorId resumedRunId channel =>
          exact ⟨request, stamp, _, rfl, performs, rfl⟩
      | expire runId interruptId actions =>
          rw [← Option.some.inj performs] at isDecision
          exact isDecision.elim
      | close rowId reason => cases performs
      | stop agentIds => cases performs

theorem System.Kept.created_of_run (kept : system.Kept initial initialRuns)
    (member : transaction ∈ system.transactions)
    (committed : transaction.writer.phase = .committed) {run : ResumedRun}
    (isRun : transaction.work.run = some run) : transaction.created = some run := by
  rcases (kept.sound transaction member).accepted run isRun with open_ | created
  · rw [(kept.finished transaction member committed).1] at open_
    exact absurd open_ List.not_mem_nil
  · exact created

theorem System.Kept.decision (kept : system.Kept initial initialRuns)
    (member : transaction ∈ system.transactions)
    (committed : transaction.writer.phase = .committed) {row : ApprovalRequest}
    (written : row ∈ transaction.writer.written) (isDecision : row.status.IsDecision) :
    (∃ stamp, row.decidedAt = some stamp ∧ stamp < row.expiresAt) ∧
      ∃ run ∈ system.runs.rows, transaction.created = some run ∧
        row.resumedRunId = some run.id ∧ row.runId = run.parentRunId := by
  obtain ⟨change, old, performs, targets, guarded, rfl⟩ :=
    (kept.sound transaction member).wrote row written
  obtain ⟨request, stamp, run, rfl, isClaim, isRun⟩ := run_of_isDecision performs isDecision
  obtain ⟨namesRun, namesParent⟩ := resumedRunId_of_claim isClaim isRun
  have created := kept.created_of_run member committed isRun
  have stored := (kept.finished transaction member committed).2 run created
  have inTime := Claim.stamp_lt_of_isDecision (of_decide_eq_true guarded) isDecision
  have selected := targets request stamp rfl
  exact ⟨⟨stamp, rfl, inTime⟩, run, stored, created, namesRun, selected.1.trans namesParent⟩

theorem System.Kept.moved (kept : system.Kept initial initialRuns)
    (member : transaction ∈ system.transactions)
    (committed : transaction.writer.phase = .committed) {run : ResumedRun}
    (created : transaction.created = some run) {request : Claim}
    (isClaim : transaction.work.claim = some request) {row : ApprovalRequest}
    (stored : row ∈ system.rows.rows) (selects : request.Selects row) :
    row ∈ transaction.writer.written ∧ row.resumedRunId = some run.id := by
  have sound := kept.sound transaction member
  have done := (kept.finished transaction member committed).1
  have known : row.identity ∈ initial.rows.map ApprovalRequest.identity := by
    rw [← kept.identities]
    exact List.mem_map_of_mem stored
  obtain ⟨old, oldMember, identity⟩ := List.mem_map.mp known
  have oldSelects := selects_of_identity identity.symm selects
  have oldId : old.id = row.id := congrArg Prod.fst identity
  rcases sound.covered request isClaim with open_ | covered
  · rw [done] at open_
    exact absurd open_ List.not_mem_nil
  · rcases covered old oldMember oldSelects with ⟨_, open_⟩ | ⟨written, writtenMember, sameId⟩
    · rw [done] at open_
      exact absurd open_ List.not_mem_nil
    · have installed := kept.consistent.installed transaction.writer (List.mem_map_of_mem member)
        committed written writtenMember
      have equal := system.rows.eq_of_key_eq installed stored (sameId.trans oldId)
      subst equal
      refine ⟨writtenMember, ?_⟩
      obtain ⟨change, before, performs, _, _, rfl⟩ := sound.wrote written writtenMember
      cases change with
      | claim other stamp =>
          have same : other = request := Option.some.inj (performs.symm.trans isClaim)
          rw [same]
          exact (resumedRunId_of_claim isClaim (sound.created run created)).1
      | close reason stamp =>
          obtain ⟨rowId, isClose⟩ := performs
          rw [isClose] at isClaim
          cases isClaim
      | stop agentIds stamp =>
          rw [performs] at isClaim
          cases isClaim

theorem System.Kept.decidedOnce (kept : system.Kept initial initialRuns) :
    DecidedOnce initial initialRuns system where
  changed := by
    intro row stored new
    rcases kept.consistent.origin row stored with old | ⟨writer, member, committed, written⟩
    · exact absurd old new
    · obtain ⟨transaction, listed, rfl⟩ := List.mem_map.mp member
      exact ⟨transaction, listed, committed, written⟩
  once := by
    intro first second one other foundOne foundOther oneCommitted otherCommitted row written
      another alsoWritten same
    exact kept.consistent.eq_of_committed (getElem?_writers foundOne)
      (getElem?_writers foundOther) oneCommitted otherCommitted written alsoWritten same
  decision := fun _ member committed _ written isDecision =>
    kept.decision member committed written isDecision
  moved := fun transaction member committed run created =>
    ⟨(kept.finished transaction member committed).2 run created,
      fun _ isClaim _ stored selects => kept.moved member committed created isClaim stored selects⟩
  resumed := kept.runs

end Decisions

section Runs

variable (initial : RequestTable) (initialRuns : RunTable)

theorem kept_systemAfter (actions : List Action) :
    (systemAfter initial initialRuns actions).Kept initial initialRuns :=
  StepRuns.run_invariant (System.Kept initial initialRuns)
    (fun _ action kept => kept_step kept action) (kept_initial initial initialRuns) actions

/-- In every order of statements, commits and rollbacks, a row that has left `pending`
stays as it is, and the committed decisions, resumed runs and rows agree. -/
theorem approval_decided_once (first second : List Action) :
    (∀ row ∈ (systemAfter initial initialRuns first).rows.rows, row.status ≠ .pending →
      row ∈ (systemAfter initial initialRuns (first ++ second)).rows.rows) ∧
      DecidedOnce initial initialRuns (systemAfter initial initialRuns (first ++ second)) := by
  refine ⟨fun row stored settled => ?_, (kept_systemAfter initial initialRuns _).decidedOnce⟩
  rw [systemAfter, StepRuns.run_append]
  have kept : System.Kept initial initialRuns (StepRuns.run System.step
      (System.initial initial initialRuns) first) := kept_systemAfter initial initialRuns first
  have both := StepRuns.run_invariant
    (fun system : System => system.Kept initial initialRuns ∧ row ∈ system.rows.rows)
    (fun _ action both => ⟨kept_step both.1 action, both.1.mem_step action both.2 settled⟩)
    ⟨kept, stored⟩ second
  exact both.2

end Runs

end NaturalMold.Approvals

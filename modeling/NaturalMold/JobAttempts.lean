import NaturalMold.Jobs
import Mathlib.Data.List.Induction

/-! # Exclusive attempts -/

namespace NaturalMold.Jobs

open Conversations (Time)

variable {Result : Type} [DecidableEq Result]

/-- The bounds of the attempts, and the columns that only a running job has. -/
structure Job.Consistent (job : Job Result) : Prop where
  attempts_le : job.attempts ≤ job.maxAttempts
  queued_lt : job.state = .queued → job.attempts < job.maxAttempts
  locked_iff : job.lockedBy.isSome ↔ job.state = .running
  lease_iff : job.leaseUntil.isSome ↔ job.state = .running

structure Job.SelectedRunning (selected : Job Result) (attempt : ℕ) (maxAttempts : ℤ) : Prop where
  running : selected.state = .running
  attempts_eq : selected.attempts = attempt
  maxAttempts_eq : selected.maxAttempts = maxAttempts
  locked : selected.lockedBy.isSome
  leased : selected.leaseUntil.isSome

section Writes

variable {selected current : Job Result} {now : Time}

omit [DecidableEq Result] in
theorem written_none {Value : Type} [DecidableEq Value] {selected current : Option Value}
    (cleared : selected = none → current = none) : written selected none current = none := by
  rw [written]
  split
  · rename_i same
    exact cleared same.symm
  · rfl

theorem write_finish {state : JobState} (ended : isFinished state)
    (live : isFinished selected.state = false)
    (unlocked : selected.lockedBy = none → current.lockedBy = none)
    (unleased : selected.leaseUntil = none → current.leaseUntil = none)
    (bounded : current.attempts ≤ current.maxAttempts)
    (result : Option Result) (code message : Option String) :
    (Job.write selected (selected.finish state now result code message) current).Consistent ∧
      isFinished
        (Job.write selected (selected.finish state now result code message) current).state := by
  have stateEq :
      (Job.write selected (selected.finish state now result code message) current).state = state := by
    apply written_of_ne
    intro same
    rw [← same] at live
    exact absurd live (by simpa [Job.finish] using ended)
  have lockedEq : (Job.write selected (selected.finish state now result code message)
      current).lockedBy = none := written_none unlocked
  have leaseEq : (Job.write selected (selected.finish state now result code message)
      current).leaseUntil = none := written_none unleased
  have notQueued : state ≠ .queued := by
    rintro rfl
    exact absurd ended (by decide)
  have notRunning : state ≠ .running := by
    rintro rfl
    exact absurd ended (by decide)
  refine ⟨⟨?_, ?_, ?_, ?_⟩, by rw [stateEq]; exact ended⟩
  · simpa [Job.write, Job.finish] using bounded
  · intro queued
    exact absurd (stateEq.symm.trans queued) notQueued
  · rw [lockedEq, stateEq]
    simp [notRunning]
  · rw [leaseEq, stateEq]
    simp [notRunning]

variable {attempt : ℕ}

/-- The attempts of the row do not change, and a row that stays running keeps who
holds it. -/
theorem write_call (call : HolderCall Result)
    (chosen : selected.SelectedRunning attempt current.maxAttempts)
    (consistent : current.Consistent) (running : current.state = .running)
    (same : current.attempts = attempt) :
    (Job.write selected (call.change now selected) current).Consistent ∧
      (Job.write selected (call.change now selected) current).attempts = current.attempts ∧
      (Job.write selected (call.change now selected) current).maxAttempts = current.maxAttempts ∧
      ((Job.write selected (call.change now selected) current).state = .running →
        (Job.write selected (call.change now selected) current).lockedBy = current.lockedBy) := by
  have live : isFinished selected.state = false := by rw [chosen.running]; rfl
  have unlocked : selected.lockedBy = none → current.lockedBy = none := fun missing =>
    absurd chosen.locked (by simp [missing])
  have unleased : selected.leaseUntil = none → current.leaseUntil = none := fun missing =>
    absurd chosen.leased (by simp [missing])
  have finished : ∀ state result code message, isFinished state →
      (Job.write selected (selected.finish state now result code message) current).Consistent ∧
        (Job.write selected (selected.finish state now result code message) current).attempts =
          current.attempts ∧
        (Job.write selected (selected.finish state now result code message)
          current).maxAttempts = current.maxAttempts ∧
        ((Job.write selected (selected.finish state now result code message) current).state =
            .running →
          (Job.write selected (selected.finish state now result code message)
            current).lockedBy = current.lockedBy) := by
    intro state result code message ended
    obtain ⟨after, stopped⟩ := write_finish ended live unlocked unleased
      consistent.attempts_le result code message
    refine ⟨after, by simp [Job.write, Job.finish], by simp [Job.write, Job.finish], ?_⟩
    intro still
    rw [still] at stopped
    exact absurd stopped (by decide)
  cases call with
  | heartbeat leaseSeconds progress note =>
      refine ⟨⟨?_, ?_, ?_, ?_⟩, ?_, ?_, ?_⟩
      · simpa [Job.write, HolderCall.change] using consistent.attempts_le
      · simpa [Job.write, HolderCall.change] using consistent.queued_lt
      · simpa [Job.write, HolderCall.change] using consistent.locked_iff
      · have leased := consistent.lease_iff.mpr running
        simp only [Job.write, HolderCall.change, written_self, running, iff_true]
        rw [written]
        split
        · exact leased
        · rfl
      · simp [Job.write, HolderCall.change]
      · simp [Job.write, HolderCall.change]
      · simp [Job.write, HolderCall.change]
  | succeed result => exact finished .succeeded result none none rfl
  | canceled => exact finished .canceled none none none rfl
  | fail code message retry =>
      rw [HolderCall.change]
      split
      · rename_i again
        have stateEq : written selected.state .queued current.state = .queued :=
          written_of_ne _ (by rw [chosen.running]; decide)
        have fewer : (current.attempts : ℤ) < current.maxAttempts := by
          rw [same, ← chosen.attempts_eq, ← chosen.maxAttempts_eq]
          exact again.2.1
        refine ⟨⟨?_, ?_, ?_, ?_⟩, ?_, ?_, ?_⟩
        · simpa [Job.write] using consistent.attempts_le
        · intro _
          simpa [Job.write] using fewer
        · simp [Job.write, stateEq, written_none unlocked]
        · simp [Job.write, stateEq, written_none unleased]
        · simp [Job.write]
        · simp [Job.write]
        · simp [Job.write, stateEq]
      · exact finished .failed none (some code) (some message) rfl

omit [DecidableEq Result] in
theorem requestCancel_of_not_queued {job : Job Result} (busy : job.state ≠ .queued) (now : Time) :
    ∃ requested, job.requestCancel now = { job with cancelRequested := requested } := by
  rw [Job.requestCancel]
  split
  · exact ⟨job.cancelRequested, rfl⟩
  · exact ⟨true, rfl⟩

/-- Its write changes no other column, whatever the row has become. -/
theorem write_requestCancel_of_not_queued (busy : selected.state ≠ .queued) :
    ∃ requested, Job.write selected (selected.requestCancel now) current =
      { current with cancelRequested := requested } := by
  obtain ⟨requested, changed⟩ := requestCancel_of_not_queued busy now
  refine ⟨written selected.cancelRequested requested current.cancelRequested, ?_⟩
  rw [changed]
  simp [Job.write]

end Writes

section Claims

variable {job : Job Result} {workerId : String} {leaseSeconds : ℕ} {moment now : Time}

omit [DecidableEq Result] in
theorem live_of_due (due : job.due moment) : job.state = .queued ∨ job.state = .running := by
  simp only [Job.due, Bool.decide_or, Bool.decide_and, Bool.or_eq_true, Bool.and_eq_true,
    decide_eq_true_eq] at due
  exact due.imp And.left And.left

omit [DecidableEq Result] in
theorem finish_consistent {state : JobState} (ended : isFinished state)
    (bounded : job.attempts ≤ job.maxAttempts) (result : Option Result)
    (code message : Option String) : (job.finish state now result code message).Consistent where
  attempts_le := bounded
  queued_lt := by
    rintro rfl
    exact absurd ended (by decide)
  locked_iff := by
    constructor
    · exact fun held => absurd held (by simp [Job.finish])
    · rintro rfl
      exact absurd ended (by decide)
  lease_iff := by
    constructor
    · exact fun held => absurd held (by simp [Job.finish])
    · rintro rfl
      exact absurd ended (by decide)

omit [DecidableEq Result] in
theorem claim_cases (due : job.due moment) (consistent : job.Consistent) :
    (job.claim workerId leaseSeconds moment now).1.Consistent ∧
      (job.claim workerId leaseSeconds moment now).1.maxAttempts = job.maxAttempts ∧
      ((job.claim workerId leaseSeconds moment now).2 = none ∧
          (job.claim workerId leaseSeconds moment now).1.attempts = job.attempts ∧
          isFinished (job.claim workerId leaseSeconds moment now).1.state ∨
        (job.claim workerId leaseSeconds moment now).2 =
            some ⟨workerId, job.attempts + 1⟩ ∧
          (job.claim workerId leaseSeconds moment now).1.attempts = job.attempts + 1 ∧
          (job.claim workerId leaseSeconds moment now).1.lockedBy = some workerId) := by
  rw [Job.claim]
  split
  · exact ⟨finish_consistent rfl consistent.attempts_le _ _ _, rfl, Or.inl ⟨rfl, rfl, rfl⟩⟩
  · rename_i retained
    split
    · exact ⟨finish_consistent rfl consistent.attempts_le _ _ _, rfl, Or.inl ⟨rfl, rfl, rfl⟩⟩
    · have fewer : (job.attempts : ℤ) < job.maxAttempts := by
        rcases live_of_due due with queued | running
        · exact consistent.queued_lt queued
        · exact lt_of_not_ge fun used => retained ⟨running, used⟩
      refine ⟨⟨?_, ?_, ?_, ?_⟩, rfl, Or.inr ⟨rfl, rfl, rfl⟩⟩
      · push_cast
        omega
      · intro queued
        exact absurd queued (by simp)
      · simp
      · simp

end Claims

/-- No other transaction disturbs one between its select and its write: an attempt
selects the row under its own number, and a write finds the state, and for an
attempt the number, that it selected.  A cancel request that found the job running
sets nothing that another transaction writes. -/
def Undisturbed (system : System Result) : Action Result → Prop
  | .enqueue _ maxAttempts _ => system.row = none → 1 ≤ maxAttempts
  | .selectHeld claim _ => ∀ job, system.row = some job → claim ∈ system.claims →
      job.heldBy claim.workerId → job.attempts = claim.attempt
  | .commit transaction _ => ∀ job, system.row = some job → system.lock.isNone →
      transaction ∈ system.transactions →
        match transaction with
        | .held _ _ selected => job.state = selected.state ∧ job.attempts = selected.attempts
        | .cancel selected => selected.state = .queued → job.state = .queued
  | _ => True

/-- What holds between undisturbed steps. -/
structure System.Orderly (system : System Result) : Prop where
  consistent : ∀ job, system.row = some job → job.Consistent
  started : ∀ claim ∈ system.claims, ∃ job, system.row = some job ∧ claim.attempt ≤ job.attempts
  current : ∀ job, system.row = some job → job.state = .running → ∀ claim ∈ system.claims,
    claim.attempt = job.attempts → job.lockedBy = some claim.workerId
  held : ∀ claim call selected, Transaction.held claim call selected ∈ system.transactions →
    claim ∈ system.claims ∧ ∀ job, system.row = some job →
      selected.SelectedRunning claim.attempt job.maxAttempts
  cancel : ∀ selected, Transaction.cancel selected ∈ system.transactions → selected.Consistent
  locked : ∀ lock, system.lock = some lock → ∃ job, system.row = some job ∧ job.due lock.moment

omit [DecidableEq Result] in
theorem orderly_initial : (System.initial : System Result).Orderly where
  consistent := by simp [System.initial]
  started := by simp [System.initial]
  current := by simp [System.initial]
  held := by simp [System.initial]
  cancel := by simp [System.initial]
  locked := by simp [System.initial]

section Steps

variable {system : System Result}

omit [DecidableEq Result] in
theorem System.Orderly.withTransactions (orderly : system.Orderly)
    {transactions : List (Transaction Result)} (within : transactions ⊆ system.transactions) :
    ({ system with transactions := transactions } : System Result).Orderly where
  consistent := orderly.consistent
  started := orderly.started
  current := orderly.current
  held := fun claim call selected member => orderly.held claim call selected (within member)
  cancel := fun selected member => orderly.cancel selected (within member)
  locked := orderly.locked

omit [DecidableEq Result] in
theorem System.Orderly.withRow (orderly : system.Orderly) {job after : Job Result}
    (rowEq : system.row = some job) (unlocked : system.lock.isNone) (consistent : after.Consistent)
    (attempts_eq : after.attempts = job.attempts) (max_eq : after.maxAttempts = job.maxAttempts)
    (running : after.state = .running → job.state = .running ∧ after.lockedBy = job.lockedBy)
    {transactions : List (Transaction Result)} (within : transactions ⊆ system.transactions) :
    ({ system with row := some after, transactions := transactions } : System Result).Orderly where
  consistent := by
    rintro _ ⟨⟩
    exact consistent
  started := by
    intro claim member
    obtain ⟨before, beforeEq, bound⟩ := orderly.started claim member
    obtain rfl := Option.some.inj (beforeEq.symm.trans rowEq)
    exact ⟨after, rfl, attempts_eq ▸ bound⟩
  current := by
    rintro _ ⟨⟩ still claim member same
    obtain ⟨before, holder⟩ := running still
    rw [holder]
    exact orderly.current job rowEq before claim member (same.trans attempts_eq)
  held := by
    intro claim call selected member
    obtain ⟨known, chosen⟩ := orderly.held claim call selected (within member)
    refine ⟨known, ?_⟩
    rintro _ ⟨⟩
    rw [max_eq]
    exact chosen job rowEq
  cancel := fun selected member => orderly.cancel selected (within member)
  locked := by
    intro lock lockEq
    have absent : system.lock = none := Option.isNone_iff_eq_none.mp unlocked
    exact absurd (absent.symm.trans lockEq) (by simp)

theorem orderly_commit (orderly : system.Orderly) {job : Job Result}
    (rowEq : system.row = some job) (unlocked : system.lock.isNone)
    {transaction : Transaction Result} (member : transaction ∈ system.transactions) {now : Time}
    (undisturbed : Undisturbed system (.commit transaction now)) :
    ({ system with
        row := some (Job.write transaction.selected (transaction.change now) job)
        transactions := system.transactions.erase transaction } : System Result).Orderly := by
  have kept := undisturbed job rowEq unlocked member
  have within : system.transactions.erase transaction ⊆ system.transactions :=
    List.erase_subset
  cases transaction with
  | held claim call selected =>
      have chosen := (orderly.held claim call selected member).2 job rowEq
      have running : job.state = .running := kept.1.trans chosen.running
      obtain ⟨consistent, attempts_eq, max_eq, holder⟩ := @write_call _ _ selected job now _ call
        chosen (orderly.consistent job rowEq) running (kept.2.trans chosen.attempts_eq)
      exact orderly.withRow rowEq unlocked consistent attempts_eq max_eq
        (fun still => ⟨running, holder still⟩) within
  | cancel selected =>
      by_cases queued : selected.state = .queued
      · have waiting := kept queued
        have consistent := orderly.consistent job rowEq
        have free : job.lockedBy = none ∧ job.leaseUntil = none := by
          have locked := consistent.locked_iff
          have leased := consistent.lease_iff
          simp only [waiting, reduceCtorEq, iff_false, Option.not_isSome_iff_eq_none] at locked leased
          exact ⟨locked, leased⟩
        have cancels : selected.requestCancel now = selected.finish .canceled now none none none := by
          simp [Job.requestCancel, queued, isFinished]
        obtain ⟨after, stopped⟩ := @write_finish _ _ selected job now .canceled rfl
          (by rw [queued]; rfl) (fun _ => free.1) (fun _ => free.2) consistent.attempts_le
          none none none
        simp only [Transaction.selected, Transaction.change, cancels]
        apply orderly.withRow rowEq unlocked after _ _ _ within
        · simp [Job.write, Job.finish]
        · simp [Job.write, Job.finish]
        · intro still
          rw [still] at stopped
          exact absurd stopped (by decide)
      · obtain ⟨requested, unchanged⟩ :=
          @write_requestCancel_of_not_queued _ _ selected job now queued
        simp only [Transaction.selected, Transaction.change, unchanged]
        have consistent := orderly.consistent job rowEq
        have same : ({ job with cancelRequested := requested } : Job Result).Consistent :=
          ⟨consistent.attempts_le, consistent.queued_lt, consistent.locked_iff,
            consistent.lease_iff⟩
        exact orderly.withRow rowEq unlocked same rfl rfl (fun still => ⟨still, rfl⟩) within

omit [DecidableEq Result] in
theorem orderly_commitClaim (orderly : system.Orderly) {job : Job Result}
    (rowEq : system.row = some job) {lock : RowLock} (lockEq : system.lock = some lock)
    (leaseSeconds : ℕ) (now : Time) :
    ({ system with
        row := some (job.claim lock.workerId leaseSeconds lock.moment now).1
        lock := none
        claims := system.claims ++
          (job.claim lock.workerId leaseSeconds lock.moment now).2.toList } :
      System Result).Orderly := by
  obtain ⟨locked, lockedEq, due⟩ := orderly.locked lock lockEq
  obtain rfl := Option.some.inj (rowEq.symm.trans lockedEq)
  obtain ⟨consistent, max_eq, outcome⟩ := @claim_cases _ job lock.workerId leaseSeconds
    lock.moment now due (orderly.consistent job rowEq)
  have started : ∀ claim ∈ system.claims, claim.attempt ≤ job.attempts := by
    intro claim member
    obtain ⟨before, beforeEq, bound⟩ := orderly.started claim member
    obtain rfl := Option.some.inj (beforeEq.symm.trans rowEq)
    exact bound
  generalize job.claim lock.workerId leaseSeconds lock.moment now = claimed at *
  refine ⟨?_, ?_, ?_, ?_, ?_, ?_⟩
  · rintro _ ⟨⟩
    exact consistent
  · intro claim member
    refine ⟨claimed.1, rfl, ?_⟩
    rcases List.mem_append.mp member with old | new
    · have bound := started claim old
      rcases outcome with ⟨_, same, _⟩ | ⟨_, next, _⟩ <;> omega
    · rcases outcome with ⟨none, _, _⟩ | ⟨some, next, _⟩
      · simp [none] at new
      · simp only [some, Option.toList_some, List.mem_singleton] at new
        rw [new, next]
  · rintro _ ⟨⟩ running claim member same
    rcases outcome with ⟨_, _, stopped⟩ | ⟨some, next, holder⟩
    · rw [running] at stopped
      exact absurd stopped (by decide)
    · rcases List.mem_append.mp member with old | new
      · have bound := started claim old
        omega
      · simp only [some, Option.toList_some, List.mem_singleton] at new
        rw [holder, new]
  · intro claim call selected member
    obtain ⟨known, chosen⟩ := orderly.held claim call selected member
    refine ⟨List.mem_append_left _ known, ?_⟩
    rintro _ ⟨⟩
    rw [max_eq]
    exact chosen job rowEq
  · exact orderly.cancel
  · exact fun _ absent => absurd absent (by simp)

theorem orderly_step (orderly : system.Orderly) {action : Action Result}
    (undisturbed : Undisturbed system action) : (system.step action).Orderly := by
  obtain ⟨row, lock, claims, transactions⟩ := system
  cases row with
  | none =>
      cases action with
      | enqueue type maxAttempts runAfter =>
          have positive : 1 ≤ maxAttempts := undisturbed rfl
          refine ⟨?_, ?_, ?_, ?_, orderly.cancel, ?_⟩
          · rintro _ ⟨⟩
            exact ⟨by simp [newJob]; omega, fun _ => by simp [newJob]; omega, by simp [newJob],
              by simp [newJob]⟩
          · intro claim member
            obtain ⟨job, absent, _⟩ := orderly.started claim member
            exact absurd absent (by simp)
          · rintro _ ⟨⟩ running
            exact absurd running (by simp [newJob])
          · intro claim call selected member
            obtain ⟨job, absent, _⟩ :=
              orderly.started claim (orderly.held claim call selected member).1
            exact absurd absent (by simp)
          · intro lock lockEq
            obtain ⟨job, absent, _⟩ := orderly.locked lock lockEq
            exact absurd absent (by simp)
      | abandon transaction => exact orderly.withTransactions List.erase_subset
      | lockDue => exact orderly
      | commitClaim => exact orderly
      | selectHeld => exact orderly
      | loadToCancel => exact orderly
      | commit => exact orderly
  | some job =>
      cases action with
      | enqueue type maxAttempts runAfter => exact orderly
      | lockDue workerId moment =>
          simp only [System.step]
          split
          · rename_i free
            refine ⟨orderly.consistent, orderly.started, orderly.current, orderly.held,
              orderly.cancel, ?_⟩
            rintro _ ⟨⟩
            exact ⟨job, rfl, free.2⟩
          · exact orderly
      | commitClaim leaseSeconds now =>
          cases lock with
          | none => exact orderly
          | some lock => exact orderly_commitClaim orderly rfl rfl leaseSeconds now
      | selectHeld claim call =>
          simp only [System.step]
          split
          · rename_i found
            have number : job.attempts = claim.attempt := undisturbed job rfl found.1 found.2
            have held := found.2
            simp only [Job.heldBy, decide_eq_true_eq] at held
            have consistent := orderly.consistent job rfl
            refine ⟨orderly.consistent, orderly.started, orderly.current, ?_, ?_, orderly.locked⟩
            · intro other otherCall selected member
              rcases List.mem_append.mp member with old | new
              · exact orderly.held other otherCall selected old
              · simp only [List.mem_singleton, Transaction.held.injEq] at new
                obtain ⟨rfl, rfl, rfl⟩ := new
                refine ⟨found.1, ?_⟩
                rintro _ ⟨⟩
                exact ⟨held.2, number, rfl, by simp [held.1], consistent.lease_iff.mpr held.2⟩
            · intro selected member
              rcases List.mem_append.mp member with old | new
              · exact orderly.cancel selected old
              · exact absurd new (by simp)
          · exact orderly
      | loadToCancel =>
          refine ⟨orderly.consistent, orderly.started, orderly.current, ?_, ?_, orderly.locked⟩
          · intro claim call selected member
            rcases List.mem_append.mp member with old | new
            · exact orderly.held claim call selected old
            · exact absurd new (by simp)
          · intro selected member
            rcases List.mem_append.mp member with old | new
            · exact orderly.cancel selected old
            · simp only [List.mem_singleton, Transaction.cancel.injEq] at new
              exact new ▸ orderly.consistent job rfl
      | commit transaction now =>
          simp only [System.step]
          split
          · rename_i possible
            exact orderly_commit orderly rfl possible.1 possible.2 undisturbed
          · exact orderly
      | abandon transaction => exact orderly.withTransactions List.erase_subset

theorem finished_step (orderly : system.Orderly) {action : Action Result}
    (undisturbed : Undisturbed system action) {job : Job Result} (rowEq : system.row = some job)
    (finished : isFinished job.state) :
    ∃ requested, (system.step action).row = some { job with cancelRequested := requested } := by
  have unchanged : ∃ requested, system.row = some { job with cancelRequested := requested } :=
    ⟨job.cancelRequested, rowEq⟩
  obtain ⟨row, lock, claims, transactions⟩ := system
  obtain rfl : row = some job := rowEq
  cases action with
  | enqueue type maxAttempts runAfter => exact unchanged
  | lockDue workerId moment =>
      simp only [System.step]
      split
      · exact unchanged
      · exact unchanged
  | commitClaim leaseSeconds now =>
      cases lock with
      | none => exact unchanged
      | some lock =>
          obtain ⟨_, ⟨⟩, due⟩ := orderly.locked lock rfl
          rcases live_of_due due with live | live <;> exact absurd finished (by simp [live, isFinished])
  | selectHeld claim call =>
      simp only [System.step]
      split
      · exact unchanged
      · exact unchanged
  | loadToCancel => exact unchanged
  | commit transaction now =>
      simp only [System.step]
      split
      · rename_i possible
        have kept := undisturbed job rfl possible.1 possible.2
        cases transaction with
        | held claim call selected =>
            have chosen := (orderly.held claim call selected possible.2).2 job rfl
            exact absurd finished (by simp [kept.1, chosen.running, isFinished])
        | cancel selected =>
            have busy : selected.state ≠ .queued := fun queued =>
              absurd finished (by simp [kept queued, isFinished])
            obtain ⟨requested, written⟩ :=
              @write_requestCancel_of_not_queued _ _ selected job now busy
            exact ⟨requested, congrArg some written⟩
      · exact unchanged
  | abandon transaction => exact unchanged

theorem current_of_write (orderly : system.Orderly) {claim : Claim} {call : HolderCall Result}
    {selected : Job Result} {now : Time}
    (undisturbed : Undisturbed system (.commit (.held claim call selected) now))
    (changed : (system.step (.commit (.held claim call selected) now)).row ≠ system.row) :
    ∃ job, system.row = some job ∧ job.state = .running ∧ job.attempts = claim.attempt ∧
      job.lockedBy = some claim.workerId := by
  obtain ⟨row, lock, claims, transactions⟩ := system
  cases row with
  | none => exact absurd rfl changed
  | some job =>
      simp only [System.step] at changed
      split at changed
      · rename_i possible
        have kept := undisturbed job rfl possible.1 possible.2
        obtain ⟨known, chosen⟩ := orderly.held claim call selected possible.2
        have running := kept.1.trans (chosen job rfl).running
        have number := kept.2.trans (chosen job rfl).attempts_eq
        exact ⟨job, rfl, running, number, orderly.current job rfl running claim known number.symm⟩
      · exact absurd rfl changed

end Steps

/-- What exclusive attempts mean for a run: the row's columns fit together, a
finished job stays as it is but for its cancel request, and a call of an attempt
changes the row only while that attempt is the current one. -/
structure ExclusiveAttempts (actions : List (Action Result)) : Prop where
  consistent : ∀ before, before <+: actions → ∀ job, (systemAfter before).row = some job →
    job.attempts ≤ job.maxAttempts ∧ (job.lockedBy.isSome ↔ job.state = .running) ∧
      (job.leaseUntil.isSome ↔ job.state = .running)
  finished : ∀ before later, before ++ later <+: actions →
    ∀ job, (systemAfter before).row = some job → isFinished job.state →
      ∃ requested,
        (systemAfter (before ++ later)).row = some { job with cancelRequested := requested }
  current : ∀ before claim call selected now,
    before ++ [.commit (.held claim call selected) now] <+: actions →
      (systemAfter (before ++ [.commit (.held claim call selected) now])).row ≠
          (systemAfter before).row →
        ∃ job, (systemAfter before).row = some job ∧ job.state = .running ∧
          job.attempts = claim.attempt ∧ job.lockedBy = some claim.workerId

theorem systemAfter_append (before later : List (Action Result)) :
    systemAfter (before ++ later) = StepRuns.run System.step (systemAfter before) later :=
  StepRuns.run_append _ _ _ _

/-- In a run that no transaction disturbs, the attempts exclude each other. -/
theorem attempts_exclusive {actions : List (Action Result)}
    (every : StepRuns.EveryStep System.step Undisturbed System.initial actions) :
    ExclusiveAttempts actions := by
  have orderly : ∀ before, before <+: actions → (systemAfter before).Orderly := by
    rintro before ⟨rest, rfl⟩
    exact StepRuns.run_allowed_invariant System.Orderly
      (fun _ _ allowed kept => orderly_step kept allowed) orderly_initial
      ((StepRuns.everyStep_append _ _ _ _ _).mp every).1
  have undisturbed : ∀ before action, before ++ [action] <+: actions →
      Undisturbed (systemAfter before) action := by
    rintro before action ⟨rest, rfl⟩
    have first := ((StepRuns.everyStep_append _ _ _ _ _).mp every).1
    exact ((StepRuns.everyStep_append _ _ _ _ _).mp first).2.1
  refine ⟨?_, ?_, ?_⟩
  · intro before within job rowEq
    have consistent := (orderly before within).consistent job rowEq
    exact ⟨consistent.attempts_le, consistent.locked_iff, consistent.lease_iff⟩
  · intro before later within job rowEq finished
    induction later using List.reverseRecOn with
    | nil =>
        rw [List.append_nil]
        exact ⟨job.cancelRequested, rowEq⟩
    | append_singleton later action ih =>
        rw [← List.append_assoc] at within
        have earlier : before ++ later <+: actions := (List.prefix_append _ _).trans within
        obtain ⟨requested, kept⟩ := ih earlier
        obtain ⟨again, after⟩ := finished_step (orderly _ earlier) (undisturbed _ _ within) kept
          finished
        rw [← List.append_assoc, systemAfter_append]
        exact ⟨again, after⟩
  · intro before claim call selected now within changed
    have earlier : before <+: actions := (List.prefix_append _ _).trans within
    rw [systemAfter_append] at changed
    exact current_of_write (orderly before earlier) (undisturbed _ _ within) changed

def firstAttempt : Job ℕ :=
  ((newJob "index" 3 0).claim "w" 60 0 0).1

/-- The row after the same worker has claimed it again. -/
def secondAttempt : Job ℕ :=
  (firstAttempt.claim "w" 60 61 61).1

def firstClaimed : List (Action ℕ) :=
  [.enqueue "index" 3 0, .lockDue "w" 0, .commitClaim 60 0]

theorem attempts_exclusive_finished : ExclusiveAttempts (firstClaimed ++
    [.selectHeld ⟨"w", 1⟩ (.succeed (some 7)),
      .commit (.held ⟨"w", 1⟩ (.succeed (some 7)) firstAttempt) 30]) :=
  attempts_exclusive (by
    refine ⟨fun _ => by decide, trivial, trivial, ?_, ?_, trivial⟩
    · rintro job ⟨⟩ _ _
      rfl
    · rintro job ⟨⟩ _ _
      exact ⟨rfl, rfl⟩)

def reclaimed : List (Action ℕ) :=
  firstClaimed ++ [.lockDue "w" 61, .commitClaim 60 61,
    .selectHeld ⟨"w", 1⟩ (.succeed (some 7))]

/-- The first attempt finishes the second one. -/
theorem stale_attempt_finishes : ¬ ExclusiveAttempts (reclaimed ++
    [.commit (.held ⟨"w", 1⟩ (.succeed (some 7)) secondAttempt) 62]) := by
  intro exclusive
  have before : (systemAfter reclaimed).row = some secondAttempt := by decide
  obtain ⟨job, rowEq, _, number, _⟩ := exclusive.current reclaimed _ _ _ _ (List.prefix_refl _)
    (by rw [before]; decide)
  rw [before] at rowEq
  rw [← Option.some.inj rowEq] at number
  exact absurd number (by decide)

end NaturalMold.Jobs

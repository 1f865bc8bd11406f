import NaturalMold.DecisionCoordinator

/-! # Runs of a decision coordinator -/

namespace NaturalMold.DecisionCoordinator

open CronExpressions (Text)
open StepRuns (run EveryStep)

variable {Decision Reason : Type*}

namespace State

variable {config : Config} {state : State Decision Reason}

theorem registerDecision_cases (config : Config) (state : State Decision Reason)
    (actionIndex : ℤ) (decision : Decision) (displayText : Option Text) :
    (state.registerDecision config actionIndex decision displayText).1 = state ∨
    (state.resumed = false ∧ state.cancellation = none ∧
      0 ≤ actionIndex ∧ actionIndex < config.totalActions ∧
      ((∃ number, state.pendingBatch = some number ∧ state.isStarted number = false ∧
        (state.registerDecision config actionIndex decision displayText).1 =
          state.enter actionIndex.toNat decision displayText number) ∨
      (state.pendingBatch = none ∧
        (state.registerDecision config actionIndex decision displayText).1 =
          ({ state with batches := state.batches ++ [({} : Batch Decision Reason)] }).enter
            actionIndex.toNat decision displayText state.batches.length))) := by
  unfold registerDecision
  by_cases resumed : state.resumed = true
  · exact .inl (by rw [if_pos resumed])
  · rw [if_neg resumed]
    cases cancellation : state.cancellation with
    | some reason => exact .inl rfl
    | none =>
        dsimp only
        by_cases outside : actionIndex < 0 ∨ config.totalActions ≤ actionIndex
        · exact .inl (by rw [if_pos outside])
        · rw [if_neg outside]
          cases pending : state.pendingBatch with
          | none => exact .inr ⟨by simpa using resumed, rfl, by omega, by omega, .inr ⟨rfl, rfl⟩⟩
          | some number =>
              dsimp only
              by_cases started : state.isStarted number = true
              · exact .inl (by rw [if_pos started])
              · rw [if_neg started]
                by_cases entered : (state.decisions[actionIndex.toNat]?.join).isSome = true
                · exact .inl (by rw [if_pos entered])
                · rw [if_neg entered]
                  exact .inr ⟨by simpa using resumed, rfl, by omega, by omega,
                    .inl ⟨number, rfl, by simpa using started, rfl⟩⟩

theorem cancel_cases (state : State Decision Reason) (reason : Reason) :
    state.cancel reason = state ∨
    (state.resumed = false ∧ state.resumeInFlight = none ∧ state.cancellation = none ∧
      state.cancel reason =
        match state.pendingBatch with
        | none => { state.clear with cancellation := some reason, pendingBatch := none }
        | some number =>
            ({ state.clear with cancellation := some reason, pendingBatch := none }).settleBatch
              number (.rejected reason)) := by
  unfold cancel
  by_cases late : state.resumed ∨ state.resumeInFlight ≠ none ∨ state.cancellation ≠ none
  · exact .inl (by rw [if_pos late])
  · rw [if_neg late]
    simp only [not_or, not_not] at late
    exact .inr ⟨by simpa using late.1, late.2.1, late.2.2, rfl⟩

theorem callResume_cases (config : Config) (state : State Decision Reason) (number : ℕ) :
    state.callResume config number = state ∨
    ∃ decisions displayText,
      state.batches[number]?.bind Batch.attempt = some ⟨decisions, displayText, .scheduled⟩ ∧
      state.callResume config number =
        { state.setStage number .calling with
          calls := state.calls ++ [{
            decisions
            displayText
            interruptId := config.interruptId
            registered := state.registered
            succeeded := state.succeeded
            cancelled := state.cancellation.isSome }] } := by
  unfold callResume
  split
  · next decisions displayText found => exact .inr ⟨decisions, displayText, found, rfl⟩
  · exact .inl rfl

theorem settle_cases (state : State Decision Reason) (number : ℕ) (outcome : Outcome Reason) :
    state.settle number outcome = state ∨
    (state.stage? number = some .calling ∧
      ∃ registered, state.settle number outcome =
        { state.setStage number (.settled outcome) with registered }) := by
  unfold settle
  split
  · next found =>
      refine .inr ⟨found, ?_⟩
      cases outcome with
      | fulfilled => exact ⟨state.registered, rfl⟩
      | rejected reason => exact ⟨[], rfl⟩
  · exact .inl rfl

theorem track_cases (state : State Decision Reason) (number : ℕ) :
    state.track number = state ∨
    (state.stage? number = some (.settled .fulfilled) ∧
      state.track number = { state.setStage number .tracked with resumed := true }) := by
  unfold track
  split
  · next found => exact .inr ⟨found, rfl⟩
  · exact .inl rfl

theorem cleanup_cases (state : State Decision Reason) (number : ℕ) :
    state.cleanup number = state ∨
    ∃ outcome, ((outcome = .fulfilled ∧ state.stage? number = some .tracked) ∨
        ∃ reason, outcome = .rejected reason ∧
          state.stage? number = some (.settled (.rejected reason))) ∧
      state.cleanup number =
        { state.setStage number (.cleaned outcome) with
          resumeInFlight :=
            if state.resumeInFlight = some number then none else state.resumeInFlight } := by
  unfold cleanup
  dsimp only
  split
  · next found => exact .inr ⟨.fulfilled, .inl ⟨rfl, found⟩, rfl⟩
  · next reason found => exact .inr ⟨.rejected reason, .inr ⟨reason, rfl, found⟩, rfl⟩
  · exact .inl rfl

theorem finish_cases (state : State Decision Reason) (number : ℕ) :
    state.finish number = state ∨
    ∃ batch outcome, state.batches[number]? = some batch ∧ batch.ran = false ∧
      ((batch.follows = some none ∧ outcome = .fulfilled) ∨
        ∃ other, batch.follows = some (some other) ∧
          state.stage? other = some (.cleaned outcome)) ∧
      state.finish number = state.finishWith number outcome := by
  unfold finish
  split
  · next started attempt promise found =>
      exact .inr ⟨_, .fulfilled, found, rfl, .inl ⟨rfl, rfl⟩, rfl⟩
  · next started attempt other promise found =>
      split
      · next outcome cleaned => exact .inr ⟨_, outcome, found, rfl, .inr ⟨other, rfl, cleaned⟩, rfl⟩
      · exact .inl rfl
  · exact .inl rfl

theorem resumeOnce_idle (resumed : state.resumed = false) (inFlight : state.resumeInFlight = none)
    {number : ℕ} {decisions : List Decision} {displayText : Option Text} :
    state.resumeOnce number decisions displayText =
      { state.updateBatch number fun batch =>
          { batch with
            attempt := some { decisions, displayText, stage := .scheduled }
            follows := some (some number) } with
        resumeInFlight := some number } := by
  unfold resumeOnce
  rw [if_neg (by rw [resumed]; nofun), inFlight]

theorem length_finishWith (state : State Decision Reason) (number : ℕ)
    (outcome : Outcome Reason) :
    (state.finishWith number outcome).decisions.length = state.decisions.length := by
  cases outcome with
  | fulfilled => rfl
  | rejected reason => exact List.length_map ..

theorem modify_length_append {Item : Type*} (items : List Item) (item : Item)
    (update : Item → Item) :
    (items ++ [item]).modify items.length update = items ++ [update item] := by
  induction items with
  | nil => rfl
  | cons first items ih =>
      rw [List.cons_append, List.length_cons, List.modify_succ_cons, ih, List.cons_append]

end State

structure Entered (config : Config) (registered : List (ℤ × Decision))
    (decisions : List Decision) : Prop where
  length : decisions.length = config.totalActions
  among : ∀ (slot : ℕ) decision, decisions[slot]? = some decision →
    ((slot : ℤ), decision) ∈ registered

/-- A call of `resume` as it should be. -/
structure GoodCall (config : Config) (call : Call Decision) : Prop where
  entered : Entered config call.registered call.decisions
  unfinished : call.succeeded = false
  active : call.cancelled = false

structure FailedBatch (number : ℕ) (batch : Batch Decision Reason) : Prop where
  follows : batch.follows = some (some number)
  ran : batch.ran = true
  failed : ∃ attempt reason, batch.attempt = some attempt ∧
    attempt.stage = .cleaned (.rejected reason) ∧ batch.promise = some (.rejected reason)

def dispatchedBatch (number : ℕ) (attempt : Attempt Decision Reason) :
    Batch Decision Reason where
  started := true
  attempt := some attempt
  follows := some (some number)

/-- The fields that tell what the calls of the coordinator do. -/
structure Flags (state : State Decision Reason) (pending inFlight : Option ℕ) (resumed : Bool)
    (cancellation : Option Reason) : Prop where
  pending : state.pendingBatch = pending
  inFlight : state.resumeInFlight = inFlight
  resumed : state.resumed = resumed
  cancellation : state.cancellation = cancellation

/-- Where the last batch of a run stands, behind `number` batches that have failed; in a
faithful run a cancel after the failure has its reason. -/
inductive Phase (config : Config) (faithful : Prop) (state : State Decision Reason) (number : ℕ) :
    List (Batch Decision Reason) → Prop where
  | idle {cancellation : Option Reason} (flags : Flags state none none false cancellation)
      (empty : ∀ entry ∈ state.decisions, entry = none) : Phase config faithful state number []
  | collecting (flags : Flags state (some number) none false none)
      (among : ∀ (slot : ℕ) decision, state.decisions[slot]? = some (some decision) →
        ((slot : ℤ), decision) ∈ state.registered) : Phase config faithful state number [{}]
  | dropped (reason : Reason) (flags : Flags state none none false (some reason)) :
      Phase config faithful state number [{ promise := some (.rejected reason) }]
  | dispatched (attempt : Attempt Decision Reason)
      (flags : Flags state (some number) (some number) false none)
      (stage : attempt.stage = .scheduled ∧ Entered config state.registered attempt.decisions ∨
        attempt.stage = .calling ∨ ∃ outcome, attempt.stage = .settled outcome) :
      Phase config faithful state number [dispatchedBatch number attempt]
  | tracked (attempt : Attempt Decision Reason)
      (flags : Flags state (some number) (some number) true none)
      (stage : attempt.stage = .tracked) :
      Phase config faithful state number [dispatchedBatch number attempt]
  | cleaned (attempt : Attempt Decision Reason) (outcome : Outcome Reason) (resumed : Bool)
      (flags : Flags state (some number) none resumed none)
      (stage : attempt.stage = .cleaned outcome)
      (agrees : outcome = .fulfilled ↔ resumed = true) :
      Phase config faithful state number [dispatchedBatch number attempt]
  | cancelled (attempt : Attempt Decision Reason) (failure reason : Reason) (ran : Bool)
      (flags : Flags state none none false (some reason))
      (stage : attempt.stage = .cleaned (.rejected failure))
      (agrees : faithful → reason = failure) :
      Phase config faithful state number
        [{ dispatchedBatch number attempt with ran, promise := some (.rejected reason) }]
  | succeeded (attempt : Attempt Decision Reason) (flags : Flags state none none true none)
      (stage : attempt.stage = .cleaned .fulfilled) :
      Phase config faithful state number
        [{ dispatchedBatch number attempt with ran := true, promise := some .fulfilled }]

theorem Phase.rest {config : Config} {faithful : Prop} {state : State Decision Reason} {number : ℕ}
    {rest : List (Batch Decision Reason)} (phase : Phase config faithful state number rest) :
    rest = [] ∨ ∃ batch, rest = [batch] := by
  cases phase with
  | idle => exact .inl rfl
  | _ => exact .inr ⟨_, rfl⟩

structure Shape (config : Config) (faithful : Prop) (state : State Decision Reason)
    (earlier rest : List (Batch Decision Reason)) : Prop where
  batches : state.batches = earlier ++ rest
  failed : ∀ number batch, earlier[number]? = some batch → FailedBatch number batch
  length : state.decisions.length = config.totalActions
  calls : ∀ call ∈ state.calls, GoodCall config call
  phase : Phase config faithful state earlier.length rest

def Reached (config : Config) (faithful : Prop) (state : State Decision Reason) : Prop :=
  ∃ earlier rest, Shape config faithful state earlier rest

theorem reached_start (config : Config) (faithful : Prop) :
    Reached config faithful (State.start config : State Decision Reason) := by
  refine ⟨[], [], rfl, nofun, List.length_replicate, nofun, .idle ⟨rfl, rfl, rfl, rfl⟩ ?_⟩
  exact fun entry member => List.eq_of_mem_replicate member

/-- A cancel that comes between the failure of a resume and the callbacks of its batch has
the reason of the failure. -/
def CancelsInTime (state : State Decision Reason) : Action Decision Reason → Prop
  | .cancel reason => ∀ number failure, state.pendingBatch = some number →
      state.stage? number = some (.cleaned (.rejected failure)) → reason = failure
  | _ => True

namespace Shape

variable {config : Config} {faithful : Prop} {state : State Decision Reason}
  {earlier rest : List (Batch Decision Reason)}

theorem note (shape : Shape config faithful state earlier rest) (more : List (ℤ × Decision)) :
    Shape config faithful { state with registered := state.registered ++ more } earlier rest := by
  obtain ⟨batches, failed, length, calls, phase⟩ := shape
  refine ⟨batches, failed, length, calls, ?_⟩
  cases phase with
  | idle flags empty => exact .idle ⟨flags.1, flags.2, flags.3, flags.4⟩ empty
  | collecting flags among =>
      exact .collecting ⟨flags.1, flags.2, flags.3, flags.4⟩ fun slot decision entered =>
        List.mem_append_left _ (among slot decision entered)
  | dropped reason flags => exact .dropped reason ⟨flags.1, flags.2, flags.3, flags.4⟩
  | dispatched attempt flags stage =>
      refine .dispatched attempt ⟨flags.1, flags.2, flags.3, flags.4⟩ ?_
      refine stage.imp_left fun scheduled => ⟨scheduled.1, scheduled.2.length, ?_⟩
      exact fun slot decision entered =>
        List.mem_append_left _ (scheduled.2.among slot decision entered)
  | tracked attempt flags stage => exact .tracked attempt ⟨flags.1, flags.2, flags.3, flags.4⟩ stage
  | cleaned attempt outcome resumed flags stage agrees =>
      exact .cleaned attempt outcome resumed ⟨flags.1, flags.2, flags.3, flags.4⟩ stage agrees
  | cancelled attempt failure reason ran flags stage agrees =>
      exact .cancelled attempt failure reason ran ⟨flags.1, flags.2, flags.3, flags.4⟩ stage agrees
  | succeeded attempt flags stage =>
      exact .succeeded attempt ⟨flags.1, flags.2, flags.3, flags.4⟩ stage

variable {batch : Batch Decision Reason}

theorem only (shape : Shape config faithful state earlier rest) {number : ℕ}
    (found : state.batches[number]? = some batch) (unfailed : ¬ FailedBatch number batch) :
    number = earlier.length ∧ rest = [batch] := by
  rw [shape.batches] at found
  obtain before | behind := Nat.lt_or_ge number earlier.length
  · rw [List.getElem?_append_left before] at found
    exact absurd (shape.failed number batch found) unfailed
  · rw [List.getElem?_append_right behind] at found
    rcases shape.phase.rest with rfl | ⟨last, rfl⟩
    · cases found
    · have first : number - earlier.length = 0 := by
        by_contra later
        rw [List.getElem?_eq_none (by simp; omega)] at found
        cases found
      rw [first] at found
      exact ⟨by omega, congrArg (fun last => [last]) (Option.some.inj found)⟩

variable {attempt : Attempt Decision Reason}

theorem attempt_last (shape : Shape config faithful state earlier rest) {number : ℕ}
    (found : state.batches[number]?.bind Batch.attempt = some attempt) :
    (∃ reason, attempt.stage = .cleaned (.rejected reason)) ∨
      number = earlier.length ∧ ∃ batch, rest = [batch] ∧ batch.attempt = some attempt := by
  obtain ⟨batch, at_number, attempted⟩ := Option.bind_eq_some_iff.mp found
  by_cases failed : FailedBatch number batch
  · obtain ⟨failedAttempt, reason, attempted', stage, -⟩ := failed.failed
    obtain rfl : failedAttempt = attempt := Option.some.inj (attempted'.symm.trans attempted)
    exact .inl ⟨reason, stage⟩
  · obtain ⟨last, only⟩ := shape.only at_number failed
    exact .inr ⟨last, batch, only, attempted⟩

/-- An attempt whose `finally` has not run is that of the batch that is pending. -/
theorem running (shape : Shape config faithful state earlier rest) {number : ℕ}
    (found : state.batches[number]?.bind Batch.attempt = some attempt)
    (uncleaned : ∀ outcome, attempt.stage ≠ .cleaned outcome) :
    number = earlier.length ∧ rest = [dispatchedBatch number attempt] ∧
      ∃ resumed, Flags state (some number) (some number) resumed none ∧
        (resumed = true ↔ attempt.stage = .tracked) ∧
        (attempt.stage = .scheduled → Entered config state.registered attempt.decisions) := by
  rcases shape.attempt_last found with ⟨reason, failed⟩ | ⟨rfl, batch, rfl, attempted⟩
  · exact absurd failed (uncleaned _)
  · refine ⟨rfl, ?_⟩
    obtain ⟨-, -, -, -, phase⟩ := shape
    cases phase with
    | collecting => cases attempted
    | dropped => cases attempted
    | dispatched _ flags stage =>
        cases attempted
        refine ⟨rfl, false, flags, ?_, ?_⟩
        · rcases stage with ⟨scheduled, -⟩ | calling | ⟨outcome, settled⟩
          · simp [scheduled]
          · simp [calling]
          · simp [settled]
        · intro scheduled
          rcases stage with ⟨-, entered⟩ | calling | ⟨outcome, settled⟩
          · exact entered
          · rw [scheduled] at calling
            cases calling
          · rw [scheduled] at settled
            cases settled
    | tracked _ flags stage =>
        cases attempted
        exact ⟨rfl, true, flags, by simp [stage], by simp [stage]⟩
    | cleaned _ outcome later flags stage =>
        cases attempted
        exact absurd stage (uncleaned _)
    | cancelled _ failure reason ran flags stage =>
        cases attempted
        exact absurd stage (uncleaned _)
    | succeeded _ flags stage =>
        cases attempted
        exact absurd stage (uncleaned _)

theorem stage_running (shape : Shape config faithful state earlier rest) {number : ℕ}
    {stage : Stage Reason} (found : state.stage? number = some stage)
    (uncleaned : ∀ outcome, stage ≠ .cleaned outcome) :
    number = earlier.length ∧ ∃ attempt, attempt.stage = stage ∧
      rest = [dispatchedBatch number attempt] ∧
      ∃ resumed, Flags state (some number) (some number) resumed none ∧
        (resumed = true ↔ stage = .tracked) := by
  obtain ⟨attempt, attempted, rfl⟩ := Option.map_eq_some_iff.mp found
  obtain ⟨last, only, resumed, flags, tracked, -⟩ := shape.running attempted uncleaned
  exact ⟨last, attempt, rfl, only, resumed, flags, tracked⟩

theorem updateLast (shape : Shape config faithful state earlier [batch])
    (update : Batch Decision Reason → Batch Decision Reason) :
    (state.updateBatch earlier.length update).batches = earlier ++ [update batch] := by
  change state.batches.modify earlier.length update = _
  rw [shape.batches, State.modify_length_append]

/-- No resume promise was fulfilled while the last one is not. -/
theorem not_succeeded (shape : Shape config faithful state earlier rest)
    (last : ∀ batch ∈ rest, ∀ attempt, batch.attempt = some attempt →
      attempt.stage.outcome? ≠ some .fulfilled) : state.succeeded = false := by
  refine List.any_eq_false.mpr fun batch member => ?_
  have unfulfilled : ∀ attempt, batch.attempt = some attempt →
      attempt.stage.outcome? ≠ some .fulfilled := by
    rw [shape.batches] at member
    rcases List.mem_append.mp member with failed | newest
    · obtain ⟨number, at_number⟩ := List.getElem?_of_mem failed
      obtain ⟨failedAttempt, reason, attempted, stage, -⟩ :=
        (shape.failed number batch at_number).failed
      intro attempt found
      have same : failedAttempt = attempt := Option.some.inj (attempted.symm.trans found)
      rw [← same, stage]
      nofun
    · exact last batch newest
  cases attempted : batch.attempt with
  | none => simp
  | some attempt =>
      have unfulfilled := unfulfilled attempt attempted
      cases outcome : attempt.stage.outcome? with
      | none => simp [outcome]
      | some outcome' =>
          cases outcome' with
          | fulfilled => exact absurd outcome unfulfilled
          | rejected reason => simp [outcome]

/-- A batch is dispatched when the last missing decision is entered. -/
theorem entered_of_complete {decisions : List (Option Decision)}
    {registered : List (ℤ × Decision)} (length : decisions.length = config.totalActions)
    (among : ∀ (slot : ℕ) decision, decisions[slot]? = some (some decision) →
      ((slot : ℤ), decision) ∈ registered)
    (complete : decisions.any Option.isNone = false) :
    Entered config registered (decisions.filterMap id) := by
  have present : decisions = (decisions.filterMap id).map some := by
    clear length among
    induction decisions with
    | nil => rfl
    | cons entry decisions ih =>
        rw [List.any_cons, Bool.or_eq_false_iff] at complete
        cases entry with
        | none => cases complete.1
        | some decision => exact congrArg (some decision :: ·) (ih complete.2)
  constructor
  · rw [← length, present, List.length_map, ← present]
  · intro slot decision at_slot
    apply among
    rw [present, List.getElem?_map, at_slot]
    rfl

theorem enter {slot : ℕ} {decision : Decision} (displayText : Option Text)
    (batches : state.batches = earlier ++ [({} : Batch Decision Reason)])
    (failed : ∀ number batch, earlier[number]? = some batch → FailedBatch number batch)
    (length : state.decisions.length = config.totalActions)
    (calls : ∀ call ∈ state.calls, GoodCall config call)
    (among : ∀ (slot : ℕ) decision, state.decisions[slot]? = some (some decision) →
      ((slot : ℤ), decision) ∈ state.registered)
    (resumed : state.resumed = false) (inFlight : state.resumeInFlight = none)
    (cancellation : state.cancellation = none)
    (noted : ((slot : ℤ), decision) ∈ state.registered) :
    Reached config faithful (state.enter slot decision displayText earlier.length) := by
  have entered : ∀ (other : ℕ) decision',
      (state.decisions.set slot (some decision))[other]? = some (some decision') →
      ((other : ℤ), decision') ∈ state.registered := by
    intro other decision' at_other
    rw [List.getElem?_set] at at_other
    by_cases same : slot = other
    · rw [if_pos same] at at_other
      split at at_other
      · obtain rfl : decision = decision' := by simpa using at_other
        exact same ▸ noted
      · cases at_other
    · rw [if_neg same] at at_other
      exact among other decision' at_other
  have length' : (state.decisions.set slot (some decision)).length = config.totalActions := by
    rw [List.length_set, length]
  unfold State.enter
  dsimp only
  by_cases missing : (state.decisions.set slot (some decision)).any Option.isNone = true
  · rw [if_pos missing]
    exact ⟨earlier, [{}], batches, failed, length', calls,
      .collecting ⟨rfl, inFlight, resumed, cancellation⟩ entered⟩
  · rw [if_neg missing]
    have whole := entered_of_complete length' entered (Bool.eq_false_iff.mpr missing)
    rw [State.resumeOnce_idle (by exact resumed) (by exact inFlight)]
    refine ⟨earlier, [dispatchedBatch earlier.length ⟨_,
      State.combinedDisplayText (state.displayTexts.set slot displayText), .scheduled⟩], ?_, failed,
      length', calls, .dispatched _ ⟨rfl, rfl, resumed, cancellation⟩ (.inl ⟨rfl, whole⟩)⟩
    change (state.batches.modify _ _).modify _ _ = _
    rw [batches, State.modify_length_append, State.modify_length_append]
    rfl

theorem at_last (shape : Shape config faithful state earlier [batch]) :
    state.batches[earlier.length]? = some batch := by
  rw [shape.batches, List.getElem?_append_right le_rfl, Nat.sub_self]
  rfl

theorem registerDecision (shape : Shape config faithful state earlier rest) {actionIndex : ℤ}
    {decision : Decision} {displayText : Option Text}
    (noted : (actionIndex, decision) ∈ state.registered) :
    Reached config faithful (state.registerDecision config actionIndex decision displayText).1 := by
  obtain unchanged | ⟨resumed, active, nonneg, -, entering⟩ :=
    State.registerDecision_cases config state actionIndex decision displayText
  · rw [unchanged]
    exact ⟨earlier, rest, shape⟩
  · have noted : ((actionIndex.toNat : ℤ), decision) ∈ state.registered := by
      rwa [Int.toNat_of_nonneg nonneg]
    have whole := shape
    obtain ⟨batches, failed, length, calls, phase⟩ := shape
    rcases entering with ⟨number, pending, unstarted, next⟩ | ⟨unpending, next⟩
    · rw [next]
      cases phase with
      | collecting flags among =>
          obtain rfl : earlier.length = number := Option.some.inj (flags.pending.symm.trans pending)
          exact enter displayText batches failed length calls among resumed flags.inFlight active
            noted
      | idle flags => rw [flags.pending] at pending; cases pending
      | dropped reason flags => rw [flags.pending] at pending; cases pending
      | cancelled attempt failure reason ran flags => rw [flags.pending] at pending; cases pending
      | succeeded attempt flags => rw [flags.pending] at pending; cases pending
      | dispatched attempt flags | tracked attempt flags | cleaned attempt outcome later flags =>
          obtain rfl : earlier.length = number := Option.some.inj (flags.pending.symm.trans pending)
          rw [State.isStarted, whole.at_last] at unstarted
          cases unstarted
    · rw [next]
      cases phase with
      | idle flags empty =>
          rw [List.append_nil] at batches
          rw [batches]
          refine enter displayText rfl failed length calls ?_ resumed flags.inFlight active noted
          intro slot entered at_slot
          exact absurd (empty _ (List.mem_of_getElem? at_slot)) (Option.some_ne_none entered)
      | collecting flags => rw [flags.pending] at unpending; cases unpending
      | dispatched attempt flags => rw [flags.pending] at unpending; cases unpending
      | tracked attempt flags => rw [flags.pending] at unpending; cases unpending
      | cleaned attempt outcome later flags => rw [flags.pending] at unpending; cases unpending
      | dropped reason flags => rw [flags.cancellation] at active; cases active
      | cancelled attempt failure reason ran flags =>
          rw [flags.cancellation] at active
          cases active
      | succeeded attempt flags => rw [flags.resumed] at resumed; cases resumed

theorem clear_empty (state : State Decision Reason) :
    ∀ entry ∈ state.clear.decisions, entry = none := by
  intro entry member
  obtain ⟨-, -, rfl⟩ := List.mem_map.mp member
  rfl

theorem cancel (shape : Shape config faithful state earlier rest) {reason : Reason}
    (inTime : faithful → CancelsInTime state (.cancel reason)) :
    Reached config faithful (state.cancel reason) := by
  obtain unchanged | ⟨resumed, free, active, next⟩ := State.cancel_cases state reason
  · rw [unchanged]
    exact ⟨earlier, rest, shape⟩
  · rw [next]
    have whole := shape
    obtain ⟨batches, failed, length, calls, phase⟩ := shape
    have length : state.clear.decisions.length = config.totalActions := by
      rw [State.clear, List.length_map, length]
    cases phase with
    | idle flags empty =>
        rw [flags.pending]
        exact ⟨earlier, [], batches, failed, length, calls,
          .idle ⟨rfl, flags.inFlight, flags.resumed, rfl⟩ (clear_empty state)⟩
    | collecting flags among =>
        rw [flags.pending]
        exact ⟨earlier, _, whole.updateLast _, failed, length, calls,
          .dropped reason ⟨rfl, flags.inFlight, flags.resumed, rfl⟩⟩
    | cleaned attempt outcome later flags stage agrees =>
        rw [flags.pending]
        cases outcome with
        | fulfilled =>
            rw [flags.resumed, agrees.mp rfl] at resumed
            cases resumed
        | rejected failure =>
            refine ⟨earlier, _, whole.updateLast _, failed, length, calls,
              .cancelled attempt failure reason false ⟨rfl, flags.inFlight, resumed, rfl⟩ stage ?_⟩
            intro strict
            apply inTime strict earlier.length failure flags.pending
            rw [State.stage?, whole.at_last]
            exact congrArg some stage
    | dispatched attempt flags => rw [flags.inFlight] at free; cases free
    | tracked attempt flags => rw [flags.inFlight] at free; cases free
    | dropped reason flags => rw [flags.cancellation] at active; cases active
    | cancelled attempt failure reason ran flags => rw [flags.cancellation] at active; cases active
    | succeeded attempt flags => rw [flags.resumed] at resumed; cases resumed

theorem callResume (shape : Shape config faithful state earlier rest) (number : ℕ) :
    Reached config faithful (state.callResume config number) := by
  obtain unchanged | ⟨decisions, displayText, found, next⟩ :=
    State.callResume_cases config state number
  · rw [unchanged]
    exact ⟨earlier, rest, shape⟩
  · rw [next]
    obtain ⟨rfl, rfl, resumed, flags, tracked, entered⟩ := shape.running found nofun
    have unresumed : resumed = false := by simpa using tracked
    refine ⟨earlier, [dispatchedBatch earlier.length ⟨decisions, displayText, .calling⟩],
      shape.updateLast _, shape.failed, shape.length, ?_, .dispatched _
        ⟨flags.pending, flags.inFlight, flags.resumed.trans unresumed, flags.cancellation⟩
        (.inr (.inl rfl))⟩
    intro call member
    rcases List.mem_append.mp member with made | new
    · exact shape.calls call made
    · obtain rfl := List.mem_singleton.mp new
      refine ⟨entered rfl, shape.not_succeeded ?_, ?_⟩
      · intro batch last attempt attempted
        obtain rfl := List.mem_singleton.mp last
        obtain rfl := Option.some.inj attempted
        nofun
      · change state.cancellation.isSome = false
        rw [flags.cancellation]
        rfl

theorem settle (shape : Shape config faithful state earlier rest) (number : ℕ)
    (outcome : Outcome Reason) : Reached config faithful (state.settle number outcome) := by
  obtain unchanged | ⟨calling, registered, next⟩ := State.settle_cases state number outcome
  · rw [unchanged]
    exact ⟨earlier, rest, shape⟩
  · rw [next]
    obtain ⟨rfl, attempt, -, rfl, resumed, flags, tracked⟩ := shape.stage_running calling nofun
    have unresumed : resumed = false := by simpa using tracked
    exact ⟨earlier, [dispatchedBatch earlier.length { attempt with stage := .settled outcome }],
      shape.updateLast _, shape.failed, shape.length, shape.calls, .dispatched _
        ⟨flags.pending, flags.inFlight, flags.resumed.trans unresumed, flags.cancellation⟩
        (.inr (.inr ⟨outcome, rfl⟩))⟩

theorem track (shape : Shape config faithful state earlier rest) (number : ℕ) :
    Reached config faithful (state.track number) := by
  obtain unchanged | ⟨settled, next⟩ := State.track_cases state number
  · rw [unchanged]
    exact ⟨earlier, rest, shape⟩
  · rw [next]
    obtain ⟨rfl, attempt, -, rfl, resumed, flags, -⟩ := shape.stage_running settled nofun
    exact ⟨earlier, [dispatchedBatch earlier.length { attempt with stage := .tracked }],
      shape.updateLast _, shape.failed, shape.length, shape.calls, .tracked _
        ⟨flags.pending, flags.inFlight, rfl, flags.cancellation⟩ rfl⟩

theorem cleanup (shape : Shape config faithful state earlier rest) (number : ℕ) :
    Reached config faithful (state.cleanup number) := by
  obtain unchanged | ⟨outcome, before, next⟩ := State.cleanup_cases state number
  · rw [unchanged]
    exact ⟨earlier, rest, shape⟩
  · rw [next]
    rcases before with ⟨rfl, found⟩ | ⟨reason, rfl, found⟩
    · obtain ⟨rfl, attempt, -, rfl, resumed, flags, tracked⟩ := shape.stage_running found nofun
      rw [flags.inFlight, if_pos rfl]
      exact ⟨earlier,
        [dispatchedBatch earlier.length { attempt with stage := .cleaned .fulfilled }],
        shape.updateLast _, shape.failed, shape.length, shape.calls, .cleaned _ .fulfilled resumed
          ⟨flags.pending, rfl, flags.resumed, flags.cancellation⟩ rfl (by simpa using tracked)⟩
    · obtain ⟨rfl, attempt, -, rfl, resumed, flags, tracked⟩ := shape.stage_running found nofun
      rw [flags.inFlight, if_pos rfl]
      exact ⟨earlier,
        [dispatchedBatch earlier.length { attempt with stage := .cleaned (.rejected reason) }],
        shape.updateLast _, shape.failed, shape.length, shape.calls,
        .cleaned _ (.rejected reason) resumed
          ⟨flags.pending, rfl, flags.resumed, flags.cancellation⟩ rfl (by simpa using tracked)⟩

/-- What a batch of the last phase waits for. -/
theorem awaited (shape : Shape config faithful state earlier [batch]) {outcome : Outcome Reason}
    (before : (batch.follows = some none ∧ outcome = .fulfilled) ∨
      ∃ other, batch.follows = some (some other) ∧ state.stage? other = some (.cleaned outcome)) :
    ∃ attempt, batch.attempt = some attempt ∧ attempt.stage = .cleaned outcome := by
  have own : batch.attempt = none ∧ batch.follows = none ∨
      batch.follows = some (some earlier.length) := by
    cases shape.phase with
    | collecting => exact .inl ⟨rfl, rfl⟩
    | dropped => exact .inl ⟨rfl, rfl⟩
    | _ => exact .inr rfl
  rcases own with ⟨-, unfollowed⟩ | own
  · rcases before with ⟨follows, -⟩ | ⟨other, follows, -⟩
    · rw [unfollowed] at follows
      cases follows
    · rw [unfollowed] at follows
      cases follows
  · rcases before with ⟨follows, -⟩ | ⟨other, follows, cleaned⟩
    · rw [own] at follows
      cases follows
    · obtain rfl : earlier.length = other :=
        Option.some.inj (Option.some.inj (own.symm.trans follows))
      rw [State.stage?, shape.at_last, Option.bind_some] at cleaned
      exact Option.map_eq_some_iff.mp cleaned

/-- A failed resume makes way for the next batch. -/
theorem failedBatch
    (failed : ∀ number batch, earlier[number]? = some batch → FailedBatch number batch)
    {reason : Reason} (stage : attempt.stage = .cleaned (.rejected reason)) :
    ∀ number batch, (earlier ++ [{ dispatchedBatch earlier.length attempt with
        ran := true, promise := some (.rejected reason) }])[number]? = some batch →
      FailedBatch number batch := by
  intro number batch found
  obtain before | behind := Nat.lt_or_ge number earlier.length
  · rw [List.getElem?_append_left before] at found
    exact failed number batch found
  · rw [List.getElem?_append_right behind] at found
    have first : number - earlier.length = 0 := by
      by_contra later
      rw [List.getElem?_eq_none (by simp; omega)] at found
      cases found
    obtain rfl : number = earlier.length := by omega
    rw [first] at found
    obtain rfl := Option.some.inj found
    exact ⟨rfl, rfl, attempt, reason, rfl, stage, rfl⟩

theorem finish (shape : Shape config faithful state earlier rest) (number : ℕ) :
    Reached config faithful (state.finish number) := by
  obtain unchanged | ⟨batch, outcome, found, waiting, before, next⟩ :=
    State.finish_cases state number
  · rw [unchanged]
    exact ⟨earlier, rest, shape⟩
  · rw [next]
    obtain ⟨rfl, rfl⟩ := shape.only found fun failed =>
      absurd (waiting.symm.trans failed.ran) Bool.false_ne_true
    obtain ⟨attempt, attempted, stage⟩ := shape.awaited before
    have finished : (state.finishWith earlier.length outcome).batches =
        earlier ++ [{ batch with ran := true, promise := batch.promise.or (some outcome) }] := by
      have ran := shape.updateLast fun batch => { batch with ran := true }
      change state.batches.modify _ _ = _ at ran
      cases outcome with
      | fulfilled =>
          change (state.batches.modify _ _).modify _ _ = _
          rw [ran, State.modify_length_append]
      | rejected reason =>
          change (state.batches.modify _ _).modify _ _ = _
          rw [ran, State.modify_length_append]
    have pending : state.pendingBatch = some earlier.length ∨ state.pendingBatch = none := by
      cases shape.phase with
      | cancelled _ failure reason ran flags => exact .inr flags.pending
      | succeeded _ flags => exact .inr flags.pending
      | dropped reason flags => exact .inr flags.pending
      | collecting flags => exact .inl flags.pending
      | dispatched _ flags => exact .inl flags.pending
      | tracked _ flags => exact .inl flags.pending
      | cleaned _ outcome later flags => exact .inl flags.pending
    have unpending : (state.finishWith earlier.length outcome).pendingBatch = none := by
      rcases pending with pending | pending
      · change (if state.pendingBatch = _ then none else state.pendingBatch) = none
        rw [pending, if_pos rfl]
      · change (if state.pendingBatch = _ then none else state.pendingBatch) = none
        rw [pending]
        rfl
    obtain ⟨batches, failed, length, calls, phase⟩ := shape
    cases phase with
    | collecting => cases attempted
    | dropped => cases attempted
    | dispatched attempt' flags early =>
        cases attempted
        rcases early with ⟨scheduled, -⟩ | calling | ⟨settled, early⟩
        · rw [stage] at scheduled; cases scheduled
        · rw [stage] at calling; cases calling
        · rw [stage] at early; cases early
    | tracked attempt' flags early =>
        cases attempted
        rw [stage] at early
        cases early
    | succeeded attempt' flags cleaned => cases waiting
    | cleaned attempt' outcome' resumed flags cleaned agrees =>
        cases attempted
        obtain rfl : outcome = outcome' := by simpa [cleaned] using stage.symm
        cases outcome with
        | fulfilled =>
            exact ⟨earlier, _, finished, failed, length, calls, .succeeded attempt
              ⟨unpending, flags.inFlight, flags.resumed.trans (agrees.mp rfl), flags.cancellation⟩
              stage⟩
        | rejected reason =>
            have unresumed : resumed = false := by simpa using agrees
            refine ⟨_, [], finished.trans (List.append_nil _).symm, failedBatch failed stage,
              (State.length_finishWith ..).trans length, calls, .idle ⟨unpending, flags.inFlight,
                flags.resumed.trans unresumed, flags.cancellation⟩ (clear_empty _)⟩
    | cancelled attempt' failure reason ran flags cleaned agrees =>
        cases attempted
        obtain rfl : outcome = .rejected failure := by simpa [cleaned] using stage.symm
        exact ⟨earlier, _, finished, failed, (State.length_finishWith ..).trans length, calls,
          .cancelled attempt failure reason true ⟨unpending, flags.inFlight, flags.resumed,
            flags.cancellation⟩ stage agrees⟩

end Shape

theorem Reached.step {config : Config} {faithful : Prop} {state : State Decision Reason}
    (reached : Reached config faithful state) (action : Action Decision Reason)
    (inTime : faithful → CancelsInTime state action) :
    Reached config faithful (step config state action) := by
  obtain ⟨earlier, rest, shape⟩ := reached
  cases action with
  | registerDecision actionIndex decision displayText =>
      exact (shape.note [(actionIndex, decision)]).registerDecision
        (List.mem_append_right _ (List.mem_singleton_self _))
  | cancel reason => exact shape.cancel inTime
  | callResume number => exact shape.callResume number
  | settle number outcome => exact shape.settle number outcome
  | track number => exact shape.track number
  | cleanup number => exact shape.cleanup number
  | finish number => exact shape.finish number

/-- A started batch waits for its own attempt, has settled once its callbacks have run, and
has settled with nothing but the outcome of its attempt. -/
structure BatchSettles (number : ℕ) (batch : Batch Decision Reason)
    (attempt : Attempt Decision Reason) : Prop where
  attempted : batch.attempt = some attempt
  follows : batch.follows = some (some number)
  settles : batch.ran = true → batch.promise ≠ none
  outcome : ∀ outcome, batch.promise = some outcome → attempt.stage.outcome? = some outcome

/-- Every call of `resume` was made with a decision for each action, in the order of the
actions and registered since the last failure, and neither after a success nor after a
cancel; at most one attempt is in flight; and a started batch settles as its attempt does. -/
structure SentOnceAndWhole (config : Config) (state : State Decision Reason) : Prop where
  calls : ∀ call ∈ state.calls, GoodCall config call
  single : ∀ number other stage stage', state.stage? number = some stage →
    state.stage? other = some stage' → stage.outcome? = none → stage'.outcome? = none →
    number = other
  batches : ∀ number batch, state.batches[number]? = some batch → batch.started = true →
    ∃ attempt, BatchSettles number batch attempt

variable {state : State Decision Reason}

theorem Shape.sentOnceAndWhole {config : Config} {earlier rest : List (Batch Decision Reason)}
    (shape : Shape config True state earlier rest) : SentOnceAndWhole config state := by
  constructor
  · exact shape.calls
  · intro number other stage stage' found found' unsettled unsettled'
    have uncleaned : ∀ outcome, stage ≠ .cleaned outcome := by
      rintro outcome rfl
      cases unsettled
    have uncleaned' : ∀ outcome, stage' ≠ .cleaned outcome := by
      rintro outcome rfl
      cases unsettled'
    rw [(shape.stage_running found uncleaned).1, (shape.stage_running found' uncleaned').1]
  · intro number batch found started
    by_cases failed : FailedBatch number batch
    · obtain ⟨attempt, reason, attempted, stage, promise⟩ := failed.failed
      refine ⟨attempt, attempted, failed.follows, fun _ => by rw [promise]; nofun, ?_⟩
      intro outcome settled
      rw [stage, ← settled, promise]
      rfl
    · obtain ⟨rfl, rfl⟩ := shape.only found failed
      cases shape.phase with
      | collecting => cases started
      | dropped => cases started
      | dispatched attempt => exact ⟨attempt, rfl, rfl, nofun, nofun⟩
      | tracked attempt => exact ⟨attempt, rfl, rfl, nofun, nofun⟩
      | cleaned attempt => exact ⟨attempt, rfl, rfl, nofun, nofun⟩
      | cancelled attempt failure reason ran flags stage agrees =>
          refine ⟨attempt, rfl, rfl, nofun, ?_⟩
          intro outcome settled
          rw [stage, ← Option.some.inj settled, agrees trivial]
          rfl
      | succeeded attempt flags stage =>
          refine ⟨attempt, rfl, rfl, nofun, ?_⟩
          intro outcome settled
          rw [stage, ← Option.some.inj settled]
          rfl

/-- A state of any run in which batches settle as their attempts is one of a faithful run. -/
theorem Reached.faithful {config : Config} (reached : Reached config False state)
    (sent : SentOnceAndWhole config state) : Reached config True state := by
  obtain ⟨earlier, rest, shape⟩ := reached
  have whole := shape
  obtain ⟨batches, failed, length, calls, phase⟩ := shape
  refine ⟨earlier, rest, batches, failed, length, calls, ?_⟩
  cases phase with
  | idle flags empty => exact .idle flags empty
  | collecting flags among => exact .collecting flags among
  | dropped reason flags => exact .dropped reason flags
  | dispatched attempt flags stage => exact .dispatched attempt flags stage
  | tracked attempt flags stage => exact .tracked attempt flags stage
  | cleaned attempt outcome resumed flags stage agrees =>
      exact .cleaned attempt outcome resumed flags stage agrees
  | succeeded attempt flags stage => exact .succeeded attempt flags stage
  | cancelled attempt failure reason ran flags stage =>
      refine .cancelled attempt failure reason ran flags stage fun _ => ?_
      obtain ⟨attempt', settles⟩ := sent.batches _ _ whole.at_last rfl
      obtain rfl : attempt = attempt' := Option.some.inj settles.attempted
      have outcome := settles.outcome _ rfl
      rw [stage] at outcome
      cases outcome
      rfl

theorem Shape.cancelsInTime {config : Config} {earlier rest : List (Batch Decision Reason)}
    (shape : Shape config True state earlier rest) {reason : Reason}
    (sent : SentOnceAndWhole config (state.cancel reason)) :
    CancelsInTime state (.cancel reason) := by
  intro number failure pending found
  obtain ⟨attempt, attempted, stage⟩ := Option.map_eq_some_iff.mp found
  have whole := shape
  obtain ⟨batches, failed, length, calls, phase⟩ := shape
  cases phase with
  | idle flags => rw [flags.pending] at pending; cases pending
  | dropped reason flags => rw [flags.pending] at pending; cases pending
  | cancelled _ failure reason ran flags => rw [flags.pending] at pending; cases pending
  | succeeded _ flags => rw [flags.pending] at pending; cases pending
  | collecting flags =>
      obtain rfl := Option.some.inj (flags.pending.symm.trans pending)
      rw [whole.at_last] at attempted
      cases attempted
  | dispatched _ flags early =>
      obtain rfl := Option.some.inj (flags.pending.symm.trans pending)
      rw [whole.at_last] at attempted
      cases attempted
      rcases early with ⟨scheduled, -⟩ | calling | ⟨outcome, settled⟩
      · rw [stage] at scheduled; cases scheduled
      · rw [stage] at calling; cases calling
      · rw [stage] at settled; cases settled
  | tracked _ flags early =>
      obtain rfl := Option.some.inj (flags.pending.symm.trans pending)
      rw [whole.at_last] at attempted
      cases attempted
      rw [stage] at early
      cases early
  | cleaned _ outcome resumed flags cleaned agrees =>
      obtain rfl := Option.some.inj (flags.pending.symm.trans pending)
      rw [whole.at_last] at attempted
      cases attempted
      obtain rfl : outcome = .rejected failure := by simpa [cleaned] using stage
      have unresumed : resumed = false := by simpa using agrees
      have next : (state.cancel reason).batches[earlier.length]? =
          some { dispatchedBatch earlier.length attempt with
            promise := some (.rejected reason) } := by
        rw [State.cancel, if_neg (by simp [flags.resumed, unresumed, flags.inFlight,
          flags.cancellation]), flags.pending]
        have rejected := whole.updateLast fun batch =>
          { batch with promise := batch.promise.or (some (.rejected reason)) }
        change state.batches.modify _ _ = _ at rejected
        change (state.batches.modify _ _)[_]? = _
        rw [rejected, List.getElem?_append_right le_rfl, Nat.sub_self]
        rfl
      obtain ⟨attempt', settles⟩ := sent.batches _ _ next rfl
      obtain rfl : attempt = attempt' := Option.some.inj settles.attempted
      have outcome := settles.outcome _ rfl
      rw [stage] at outcome
      cases outcome
      rfl

/-- Every state of a run sends its decisions once and whole exactly when no cancel comes
between the failure of a resume and the callbacks of its batch. -/
theorem sentOnceAndWhole_iff (config : Config) (actions : List (Action Decision Reason)) :
    (∀ front, front <+: actions →
        SentOnceAndWhole config (run (step config) (State.start config) front)) ↔
      EveryStep (step config) CancelsInTime (State.start config) actions := by
  apply StepRuns.forall_prefix_iff_everyStep (Reached config False) (SentOnceAndWhole config)
  · exact fun state action reached => reached.step action nofun
  · intro state action reached sent
    have reached := reached.faithful sent
    constructor
    · intro next
      obtain ⟨earlier, rest, shape⟩ := reached
      cases action with
      | cancel reason => exact shape.cancelsInTime next
      | _ => trivial
    · intro inTime
      obtain ⟨earlier, rest, shape⟩ := reached.step action fun _ => inTime
      exact shape.sentOnceAndWhole
  · exact reached_start config False
  · obtain ⟨earlier, rest, shape⟩ : Reached config True (State.start config) :=
      reached_start config True
    exact shape.sentOnceAndWhole

/-- The resume fails with 1, and the coordinator is cancelled with 2 before the callbacks of
the batch have run. -/
def cancelledAfterFailure : List (Action ℕ ℕ) :=
  [.registerDecision 0 7 none, .callResume 0, .settle 0 (.rejected 1), .cleanup 0, .cancel 2]

theorem cancelledAfterFailure_not_sentOnceAndWhole :
    ¬ ∀ front, front <+: cancelledAfterFailure →
      SentOnceAndWhole ⟨1, none⟩ (run (step ⟨1, none⟩) (State.start ⟨1, none⟩) front) := by
  intro all
  obtain ⟨attempt, settles⟩ := (all _ List.prefix_rfl).batches 0
    { started := true
      attempt := some ⟨[7], none, .cleaned (.rejected 1)⟩
      follows := some (some 0)
      ran := false
      promise := some (.rejected 2) } rfl rfl
  obtain rfl := Option.some.inj settles.attempted
  have outcome := settles.outcome (.rejected 2) rfl
  cases outcome

end NaturalMold.DecisionCoordinator

import Mathlib.Data.List.Basic

/-! # Runs of a step function -/

namespace NaturalMold.StepRuns

variable {State Action Output : Type*}

def run (step : State → Action → State) (state : State) (actions : List Action) : State :=
  actions.foldl step state

@[simp]
theorem run_nil (step : State → Action → State) (state : State) : run step state [] = state :=
  rfl

@[simp]
theorem run_cons (step : State → Action → State) (state : State) (action : Action)
    (actions : List Action) :
    run step state (action :: actions) = run step (step state action) actions :=
  rfl

theorem run_append (step : State → Action → State) (state : State)
    (first second : List Action) :
    run step state (first ++ second) = run step (run step state first) second :=
  List.foldl_append

/-- What the steps of a run emit, in order. -/
def outputs (step : State → Action → State) (output : State → Action → List Output) :
    State → List Action → List Output
  | _, [] => []
  | state, action :: actions =>
      output state action ++ outputs step output (step state action) actions

theorem outputs_append (step : State → Action → State)
    (output : State → Action → List Output) (state : State) (first second : List Action) :
    outputs step output state (first ++ second) =
      outputs step output state first ++ outputs step output (run step state first) second := by
  induction first generalizing state with
  | nil => rfl
  | cons action first ih =>
      rw [List.cons_append, outputs, outputs, ih, List.append_assoc]
      rfl

def EveryStep (step : State → Action → State) (allowed : State → Action → Prop) :
    State → List Action → Prop
  | _, [] => True
  | state, action :: actions =>
      allowed state action ∧ EveryStep step allowed (step state action) actions

theorem everyStep_append (step : State → Action → State) (allowed : State → Action → Prop)
    (state : State) (first second : List Action) :
    EveryStep step allowed state (first ++ second) ↔
      EveryStep step allowed state first ∧ EveryStep step allowed (run step state first) second := by
  induction first generalizing state with
  | nil => simp [EveryStep]
  | cons action first ih =>
      rw [List.cons_append, EveryStep, EveryStep, ih, and_assoc]
      rfl

variable {step : State → Action → State} {allowed : State → Action → Prop} {state : State}

theorem EveryStep.mono {weaker : State → Action → Prop}
    (weaken : ∀ state action, allowed state action → weaker state action) {actions : List Action}
    (every : EveryStep step allowed state actions) : EveryStep step weaker state actions := by
  induction actions generalizing state with
  | nil => trivial
  | cons action actions ih => exact ⟨weaken _ _ every.1, ih every.2⟩

theorem everyStep_of_forall (always : ∀ state action, allowed state action) (state : State)
    (actions : List Action) : EveryStep step allowed state actions := by
  induction actions generalizing state with
  | nil => trivial
  | cons action actions ih => exact ⟨always _ _, ih _⟩

instance decidableEveryStep (step : State → Action → State)
    (allowed : State → Action → Prop) [∀ state action, Decidable (allowed state action)] :
    ∀ state actions, Decidable (EveryStep step allowed state actions)
  | _, [] => inferInstanceAs (Decidable True)
  | state, action :: actions =>
      have := decidableEveryStep step allowed (step state action) actions
      inferInstanceAs (Decidable (_ ∧ _))

variable (invariant : State → Prop)

theorem run_invariant (preserved : ∀ state action, invariant state → invariant (step state action))
    (initial : invariant state) (actions : List Action) : invariant (run step state actions) := by
  induction actions generalizing state with
  | nil => exact initial
  | cons action actions ih => exact ih (preserved state action initial)

theorem run_allowed_invariant (preserved : ∀ state action, allowed state action → invariant state →
      invariant (step state action)) (initial : invariant state) {actions : List Action}
    (every : EveryStep step allowed state actions) : invariant (run step state actions) := by
  induction actions generalizing state with
  | nil => exact initial
  | cons action actions ih => exact ih (preserved state action every.1 initial) every.2

theorem everyStep_of_invariant {claimed : State → Action → Prop}
    (preserved : ∀ state action, allowed state action → invariant state →
      invariant (step state action))
    (implied : ∀ state action, allowed state action → invariant state → claimed state action)
    (initial : invariant state) {actions : List Action}
    (every : EveryStep step allowed state actions) : EveryStep step claimed state actions := by
  induction actions generalizing state with
  | nil => trivial
  | cons action actions ih =>
      exact ⟨implied state action every.1 initial,
        ih (preserved state action every.1 initial) every.2⟩

/-- Two conditions that agree where an invariant holds are met by the same runs. -/
theorem everyStep_iff_of_invariant {first second : State → Action → Prop}
    (preserved : ∀ state action, invariant state → invariant (step state action))
    (agree : ∀ state action, invariant state → (first state action ↔ second state action))
    (initial : invariant state) (actions : List Action) :
    EveryStep step first state actions ↔ EveryStep step second state actions := by
  induction actions generalizing state with
  | nil => exact Iff.rfl
  | cons action actions ih =>
      rw [EveryStep, EveryStep, agree state action initial, ih (preserved state action initial)]

/-- Where a condition on a step says exactly whether a claim about the states survives
it, the claim holds all along a run exactly when every step meets the condition. -/
theorem forall_prefix_iff_everyStep (claimed : State → Prop)
    (preserved : ∀ state action, invariant state → invariant (step state action))
    (survives : ∀ state action, invariant state → claimed state →
      (claimed (step state action) ↔ allowed state action)) (initial : invariant state)
    (holds : claimed state) (actions : List Action) :
    (∀ front, front <+: actions → claimed (run step state front)) ↔
      EveryStep step allowed state actions := by
  induction actions generalizing state with
  | nil =>
      refine iff_of_true (fun front isFront => ?_) trivial
      rw [List.prefix_nil] at isFront
      rwa [isFront]
  | cons action actions ih =>
      have next := preserved state action initial
      constructor
      · intro all
        have kept : claimed (step state action) :=
          all [action] (List.prefix_append [action] actions)
        refine ⟨(survives state action initial holds).mp kept, (ih next kept).mp ?_⟩
        intro front isFront
        exact all (action :: front) (List.prefix_cons_inj action |>.mpr isFront)
      · rintro ⟨allow, rest⟩ front isFront
        have kept := (survives state action initial holds).mpr allow
        cases front with
        | nil => exact holds
        | cons first front =>
            obtain ⟨rfl, later⟩ := List.cons_prefix_cons.mp isFront
            exact (ih next kept).mpr rest front later

theorem run_output_invariant (output : State → Action → List Output)
    (invariant : List Output → State → Prop)
    (preserved : ∀ emitted state action, allowed state action → invariant emitted state →
      invariant (emitted ++ output state action) (step state action)) {emitted : List Output}
    (initial : invariant emitted state) {actions : List Action}
    (every : EveryStep step allowed state actions) :
    invariant (emitted ++ outputs step output state actions) (run step state actions) := by
  induction actions generalizing emitted state with
  | nil =>
      rw [outputs, List.append_nil]
      exact initial
  | cons action actions ih =>
      rw [outputs, ← List.append_assoc]
      exact ih (preserved emitted state action every.1 initial) every.2

end NaturalMold.StepRuns

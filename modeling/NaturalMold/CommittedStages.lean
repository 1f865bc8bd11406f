import Mathlib.Logic.Basic

/-! # Transactions in a row -/

namespace NaturalMold.Stages

variable {Refusal State Value Result : Type*}

/-- The answer to a request and the state it leaves committed. -/
structure Reply (Refusal State Value : Type*) where
  answer : Except Refusal Value
  state : State

def commit (state : State) (stage : Except Refusal (Value × State))
    (next : Value → State → Reply Refusal State Result) : Reply Refusal State Result :=
  match stage with
  | .error refusal => { answer := .error refusal, state := state }
  | .ok (value, after) => next value after

def Traceless (start : State) (reply : Reply Refusal State Value) : Prop :=
  ∀ refusal, reply.answer = .error refusal → reply.state = start

theorem traceless_of_ok {start state : State} (value : Value) :
    Traceless start ({ answer := .ok value, state := state } : Reply Refusal State Value) := by
  intro refusal refused
  cases refused

/-- A transaction that fails leaves what was committed before it; one that does not fail
leaves the question to what follows. -/
theorem traceless_commit_iff {start state : State} {stage : Except Refusal (Value × State)}
    {next : Value → State → Reply Refusal State Result} :
    Traceless start (commit state stage next) ↔
      ((¬ ∃ result, stage = .ok result) → state = start) ∧
        ∀ value after, stage = .ok (value, after) → Traceless start (next value after) := by
  unfold commit
  cases stage with
  | error refusal =>
      constructor
      · intro traceless
        exact ⟨fun _ => traceless refusal rfl, fun _ _ ok => nomatch ok⟩
      · rintro ⟨unchanged, _⟩ _ _
        apply unchanged
        rintro ⟨result, ok⟩
        cases ok
  | ok result =>
      constructor
      · intro traceless
        refine ⟨fun failed => absurd ⟨result, rfl⟩ failed, ?_⟩
        intro value after ok
        obtain rfl := Except.ok.inj ok
        exact traceless
      · rintro ⟨_, later⟩
        exact later result.1 result.2 rfl

end NaturalMold.Stages

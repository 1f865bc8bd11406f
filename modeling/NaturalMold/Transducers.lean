import Mathlib.Data.List.Basic

/-! # Transducers -/

namespace NaturalMold.Transducers

variable {State Input Output : Type*}

/-- The last state and everything emitted on the way. -/
def feed (step : State → Input → State × List Output) : State → List Input → State × List Output
  | state, [] => (state, [])
  | state, input :: inputs =>
      let first := step state input
      let rest := feed step first.1 inputs
      (rest.1, first.2 ++ rest.2)

variable (step : State → Input → State × List Output)

@[simp]
theorem feed_nil (state : State) : feed step state [] = (state, []) :=
  rfl

theorem feed_cons (state : State) (input : Input) (inputs : List Input) :
    feed step state (input :: inputs) =
      ((feed step (step state input).1 inputs).1,
        (step state input).2 ++ (feed step (step state input).1 inputs).2) :=
  rfl

theorem feed_append (state : State) (first second : List Input) :
    feed step state (first ++ second) =
      ((feed step (feed step state first).1 second).1,
        (feed step state first).2 ++ (feed step (feed step state first).1 second).2) := by
  induction first generalizing state with
  | nil => rfl
  | cons input first ih =>
      rw [List.cons_append, feed_cons, ih, feed_cons, List.append_assoc]

/-- Pieces that each end in the state they started in can be read one by one. -/
theorem feed_flatMap_of_returns {Piece : Type*} {state : State} {pieceOf : Piece → List Input}
    {emitted : Piece → List Output}
    (returns : ∀ piece, feed step state (pieceOf piece) = (state, emitted piece))
    (pieces : List Piece) :
    feed step state (pieces.flatMap pieceOf) = (state, pieces.flatMap emitted) := by
  induction pieces with
  | nil => rfl
  | cons piece pieces ih =>
      rw [List.flatMap_cons, feed_append, returns, ih, List.flatMap_cons]

end NaturalMold.Transducers

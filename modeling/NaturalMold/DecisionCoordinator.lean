import NaturalMold.CronExpressions
import NaturalMold.StepRuns

/-!
# Collecting the decisions of an interrupt

An interrupt asks about several actions. A coordinator collects one decision for each of them and
then resumes the run once with all of them; everyone who registered a decision holds the promise of
the same batch.
-/

namespace NaturalMold.DecisionCoordinator

open CronExpressions (Text)

variable {Decision Reason : Type*}

inductive Outcome (Reason : Type*) where
  | fulfilled
  | rejected (reason : Reason)
  deriving DecidableEq

/-- How far the promise chain of `resumeOnce` has got: the call is scheduled, made, its
promise has settled, `resumed` is set, and the callback of `finally` has run. -/
inductive Stage (Reason : Type*) where
  | scheduled
  | calling
  | settled (outcome : Outcome Reason)
  | tracked
  | cleaned (outcome : Outcome Reason)
  deriving DecidableEq

def Stage.outcome? : Stage Reason → Option (Outcome Reason)
  | scheduled => none
  | calling => none
  | settled outcome => some outcome
  | tracked => some .fulfilled
  | cleaned outcome => some outcome

structure Attempt (Decision Reason : Type*) where
  decisions : List Decision
  displayText : Option Text
  stage : Stage Reason
  deriving DecidableEq

/-- A pending batch with the attempt that was made for it; `follows` is the batch whose
attempt its callbacks wait for, or none for a promise that is resolved already. -/
structure Batch (Decision Reason : Type*) where
  started : Bool := false
  attempt : Option (Attempt Decision Reason) := none
  follows : Option (Option ℕ) := none
  ran : Bool := false
  promise : Option (Outcome Reason) := none
  deriving DecidableEq

/-- A call of `resume`, with what had been registered since the last failure and whether a
resume had succeeded or the coordinator was cancelled before. -/
structure Call (Decision : Type*) where
  decisions : List Decision
  displayText : Option Text
  interruptId : Option Text
  registered : List (ℤ × Decision)
  succeeded : Bool
  cancelled : Bool
  deriving DecidableEq

structure Config where
  totalActions : ℕ
  interruptId : Option Text

structure State (Decision Reason : Type*) where
  decisions : List (Option Decision)
  displayTexts : List (Option Text)
  resumed : Bool := false
  resumeInFlight : Option ℕ := none
  pendingBatch : Option ℕ := none
  cancellation : Option Reason := none
  batches : List (Batch Decision Reason) := []
  calls : List (Call Decision) := []
  registered : List (ℤ × Decision) := []
  deriving DecidableEq

/-- What `registerDecision` gives its caller. -/
inductive Returned (Reason : Type*) where
  | nothing
  | thrown (reason : Reason)
  | rangeError
  | batch (number : ℕ)
  deriving DecidableEq

namespace State

def start (config : Config) : State Decision Reason where
  decisions := List.replicate config.totalActions none
  displayTexts := List.replicate config.totalActions none

def updateBatch (state : State Decision Reason) (number : ℕ)
    (update : Batch Decision Reason → Batch Decision Reason) : State Decision Reason :=
  { state with batches := state.batches.modify number update }

def isStarted (state : State Decision Reason) (number : ℕ) : Bool :=
  (state.batches[number]?.map Batch.started).getD false

/-- The stage of the attempt that was made for a batch. -/
def stage? (state : State Decision Reason) (number : ℕ) : Option (Stage Reason) :=
  (state.batches[number]?.bind Batch.attempt).map Attempt.stage

def setStage (state : State Decision Reason) (number : ℕ) (stage : Stage Reason) :
    State Decision Reason :=
  state.updateBatch number fun batch =>
    { batch with attempt := batch.attempt.map fun attempt => { attempt with stage } }

def combinedDisplayText (texts : List (Option Text)) : Option Text :=
  match (texts.filterMap id).filter (· ≠ []) with
  | [] => none
  | shown => some (" | ".toList.intercalate shown)

/-- `resumeOnce` for a batch, whose callbacks then wait for what it returns. -/
def resumeOnce (state : State Decision Reason) (number : ℕ) (decisions : List Decision)
    (displayText : Option Text) : State Decision Reason :=
  if state.resumed then state.updateBatch number fun batch => { batch with follows := some none }
  else
    match state.resumeInFlight with
    | some other =>
        state.updateBatch number fun batch => { batch with follows := some (some other) }
    | none =>
        { state.updateBatch number fun batch =>
            { batch with
              attempt := some { decisions, displayText, stage := .scheduled }
              follows := some (some number) } with
          resumeInFlight := some number }

def enter (state : State Decision Reason) (slot : ℕ) (decision : Decision)
    (displayText : Option Text) (number : ℕ) : State Decision Reason :=
  let entered := { state with
    decisions := state.decisions.set slot (some decision)
    displayTexts := state.displayTexts.set slot displayText
    pendingBatch := some number }
  if entered.decisions.any Option.isNone then entered
  else
    (entered.updateBatch number fun batch => { batch with started := true }).resumeOnce number
      (entered.decisions.filterMap id) (combinedDisplayText entered.displayTexts)

def registerDecision (config : Config) (state : State Decision Reason) (actionIndex : ℤ)
    (decision : Decision) (displayText : Option Text) :
    State Decision Reason × Returned Reason :=
  if state.resumed then (state, .nothing)
  else
    match state.cancellation with
    | some reason => (state, .thrown reason)
    | none =>
        if actionIndex < 0 ∨ config.totalActions ≤ actionIndex then (state, .rangeError)
        else
          match state.pendingBatch with
          | some number =>
              if state.isStarted number then (state, .batch number)
              else if (state.decisions[actionIndex.toNat]?.join).isSome then (state, .batch number)
              else (state.enter actionIndex.toNat decision displayText number, .batch number)
          | none =>
              let created :=
                { state with batches := state.batches ++ [({} : Batch Decision Reason)] }
              (created.enter actionIndex.toNat decision displayText state.batches.length,
                .batch state.batches.length)

/-- `decisions.fill(undefined)` and `displayTexts.fill(undefined)`. -/
def clear (state : State Decision Reason) : State Decision Reason :=
  { state with
    decisions := state.decisions.map fun _ => none
    displayTexts := state.displayTexts.map fun _ => none }

def settleBatch (state : State Decision Reason) (number : ℕ) (outcome : Outcome Reason) :
    State Decision Reason :=
  state.updateBatch number fun batch => { batch with promise := batch.promise.or (some outcome) }

def cancel (state : State Decision Reason) (reason : Reason) : State Decision Reason :=
  if state.resumed ∨ state.resumeInFlight ≠ none ∨ state.cancellation ≠ none then state
  else
    let cancelled := { state.clear with cancellation := some reason, pendingBatch := none }
    match state.pendingBatch with
    | none => cancelled
    | some number => cancelled.settleBatch number (.rejected reason)

/-- Whether some resume promise was fulfilled. -/
def succeeded (state : State Decision Reason) : Bool :=
  state.batches.any fun batch =>
    match batch.attempt.bind fun attempt => attempt.stage.outcome? with
    | some .fulfilled => true
    | _ => false

/-- The microtask that calls `resume`. -/
def callResume (config : Config) (state : State Decision Reason) (number : ℕ) :
    State Decision Reason :=
  match state.batches[number]?.bind Batch.attempt with
  | some { decisions, displayText, stage := .scheduled } =>
      { state.setStage number .calling with
        calls := state.calls ++ [{
          decisions
          displayText
          interruptId := config.interruptId
          registered := state.registered
          succeeded := state.succeeded
          cancelled := state.cancellation.isSome }] }
  | _ => state

/-- The promise of `resume` settles. -/
def settle (state : State Decision Reason) (number : ℕ) (outcome : Outcome Reason) :
    State Decision Reason :=
  match state.stage? number with
  | some .calling =>
      let settled := state.setStage number (.settled outcome)
      match outcome with
      | .fulfilled => settled
      | .rejected _ => { settled with registered := [] }
  | _ => state

def track (state : State Decision Reason) (number : ℕ) : State Decision Reason :=
  match state.stage? number with
  | some (.settled .fulfilled) => { state.setStage number .tracked with resumed := true }
  | _ => state

/-- The callback of `finally`. -/
def cleanup (state : State Decision Reason) (number : ℕ) : State Decision Reason :=
  let clean (outcome : Outcome Reason) :=
    { state.setStage number (.cleaned outcome) with
      resumeInFlight :=
        if state.resumeInFlight = some number then none else state.resumeInFlight }
  match state.stage? number with
  | some .tracked => clean .fulfilled
  | some (.settled (.rejected reason)) => clean (.rejected reason)
  | _ => state

/-- The callbacks of a batch on the outcome that it waits for. -/
def finishWith (state : State Decision Reason) (number : ℕ) (outcome : Outcome Reason) :
    State Decision Reason :=
  let ran := state.updateBatch number fun batch => { batch with ran := true }
  let cleared :=
    match outcome with
    | .fulfilled => ran
    | .rejected _ => ran.clear
  ({ cleared with
    pendingBatch := if state.pendingBatch = some number then none else state.pendingBatch
    }).settleBatch number outcome

def finish (state : State Decision Reason) (number : ℕ) : State Decision Reason :=
  match state.batches[number]? with
  | some { ran := false, follows := some none, .. } => state.finishWith number .fulfilled
  | some { ran := false, follows := some (some other), .. } =>
      match state.stage? other with
      | some (.cleaned outcome) => state.finishWith number outcome
      | _ => state
  | _ => state

end State

inductive Action (Decision Reason : Type*) where
  | registerDecision (actionIndex : ℤ) (decision : Decision) (displayText : Option Text)
  | cancel (reason : Reason)
  | callResume (number : ℕ)
  | settle (number : ℕ) (outcome : Outcome Reason)
  | track (number : ℕ)
  | cleanup (number : ℕ)
  | finish (number : ℕ)

def step (config : Config) (state : State Decision Reason) :
    Action Decision Reason → State Decision Reason
  | .registerDecision actionIndex decision displayText =>
      let noted := { state with registered := state.registered ++ [(actionIndex, decision)] }
      (noted.registerDecision config actionIndex decision displayText).1
  | .cancel reason => state.cancel reason
  | .callResume number => state.callResume config number
  | .settle number outcome => state.settle number outcome
  | .track number => state.track number
  | .cleanup number => state.cleanup number
  | .finish number => state.finish number

end NaturalMold.DecisionCoordinator

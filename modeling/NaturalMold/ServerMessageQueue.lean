import Mathlib.Data.Int.Notation
import NaturalMold.StepRuns
import NaturalMold.VersionOrders

/-!
# The message queue that a conversation shows

The queue of a conversation's inputs is kept by the server. A controller shows a copy of it and
asks the server to change it.
-/

namespace NaturalMold.ServerMessageQueue

variable {Id Payload : Type*} [DecidableEq Id] [DecidableEq Payload]

inductive Status
  | pending
  | claimed
  | canceled
  | failed
  deriving DecidableEq

/-- An input of the queue; the payload stands for its other fields. -/
structure RunInput (Id Payload : Type*) where
  id : Id
  status : Status
  priority : ℤ
  position : ℕ
  revision : ℕ
  inputPayload : Payload
  deriving DecidableEq

def isPending (input : RunInput Id Payload) : Bool :=
  input.status = .pending

def replaceInput (inputs : List (RunInput Id Payload)) (replacement : RunInput Id Payload) :
    List (RunInput Id Payload) :=
  if inputs.any fun input => input.id = replacement.id then
    inputs.map fun input => if input.id = replacement.id then replacement else input
  else inputs ++ [replacement]

inductive Lane
  | queue
  | steer
  deriving DecidableEq

/-- Where an input is inserted: the field is missing, null, or the id of another input. -/
inductive Anchor (Id : Type*)
  | undefined
  | null
  | input (id : Id)
  deriving DecidableEq

structure Placement (Id : Type*) where
  lane : Lane
  insertAfter : Anchor Id := .undefined
  insertBefore : Anchor Id := .undefined

/-- The new order of the inputs, or none where the code throws. -/
def reorderedInputs (inputs : List (RunInput Id Payload)) (inputId : Id)
    (placement : Placement Id) : Option (List (RunInput Id Payload)) :=
  match inputs.find? fun input => input.id = inputId with
  | none => none
  | some moving =>
      let remaining := inputs.filter fun input => input.id ≠ inputId
      let anchorId : Anchor Id :=
        match placement.insertAfter with
        | .input id => .input id
        | _ => placement.insertBefore
      match anchorId with
      | .null =>
          some (if placement.insertAfter = .null then moving :: remaining
            else remaining ++ [moving])
      | .undefined => some inputs
      | .input anchor =>
          match remaining.findIdx? fun input => input.id = anchor with
          | none => none
          | some anchorIndex =>
              let insertionIndex :=
                if placement.insertAfter ≠ .undefined then anchorIndex + 1 else anchorIndex
              some (remaining.take insertionIndex ++ moving :: remaining.drop insertionIndex)

inductive Mutation
  | edit
  | promote
  | remove
  deriving DecidableEq

inductive Request (Id : Type*)
  | list
  | resume
  | mutate (mutation : Mutation) (inputId : Id) (expectedRevision : ℕ)
  | reorder (items : List (Id × ℕ))
  deriving DecidableEq

def Request.listsAll : Request Id → Bool
  | list => true
  | resume => true
  | mutate .. => false
  | reorder _ => false

/-- A request has been sent, answered by the server, or is over, with its answer applied or
with an error. -/
inductive Stage (Id Payload : Type*)
  | sent
  | answered (time : ℕ) (inputs : List (RunInput Id Payload))
  | finished
  deriving DecidableEq

structure Exchange (Id Payload : Type*) where
  request : Request Id
  captured : List (RunInput Id Payload)
  stage : Stage Id Payload := .sent
  deriving DecidableEq

/-- The server's queue and the controller; `time` counts the answers of the server, and
`applied` is the time of the latest answer that was applied. -/
structure State (Id Payload : Type*) where
  server : List (RunInput Id Payload)
  serverInputs : List (RunInput Id Payload) := []
  exchanges : List (Exchange Id Payload) := []
  time : ℕ := 0
  applied : ℕ := 0
  failed : Bool := false
  deriving DecidableEq

inductive Operation (Id : Type*)
  | refresh
  | resume
  | edit (inputId : Id)
  | move (inputId : Id) (placement : Placement Id)
  | remove (inputId : Id)

namespace State

variable (state : State Id Payload)

def send (request : Request Id) : State Id Payload :=
  { state with exchanges := state.exchanges ++ [{ request, captured := state.serverInputs }] }

def mutate (mutation : Mutation) (inputId : Id) : State Id Payload :=
  match state.serverInputs.find? fun input => input.id = inputId && isPending input with
  | none => state
  | some input => state.send (.mutate mutation inputId input.revision)

def call : Operation Id → State Id Payload
  | .refresh => state.send .list
  | .resume => state.send .resume
  | .edit inputId => state.mutate .edit inputId
  | .remove inputId => state.mutate .remove inputId
  | .move inputId placement =>
      match placement.lane with
      | .steer => state.mutate .promote inputId
      | .queue =>
          match reorderedInputs (state.serverInputs.filter isPending) inputId placement with
          | none => state
          | some reordered =>
              state.send (.reorder (reordered.map fun item => (item.id, item.revision)))

end State

/-- A version of an input that is no older: each change raises the revision, and an input that
is not pending does not become so again. -/
def Supersedes (input later : RunInput Id Payload) : Prop :=
  later = input ∨
    (later.id = input.id ∧ input.revision < later.revision ∧
      (later.status = .pending → input.status = .pending))

instance (input later : RunInput Id Payload) : Decidable (Supersedes input later) :=
  inferInstanceAs (Decidable (_ ∨ _))

def MayBecome (server queue : List (RunInput Id Payload)) : Prop :=
  (queue.map RunInput.id).Nodup ∧ ∀ input ∈ server, ∃ later ∈ queue, Supersedes input later

instance (server queue : List (RunInput Id Payload)) : Decidable (MayBecome server queue) :=
  inferInstanceAs (Decidable (_ ∧ ∀ input ∈ server, ∃ later ∈ queue, _))

def MayAnswer (server : List (RunInput Id Payload)) (answer : List (RunInput Id Payload)) :
    Request Id → Prop
  | .list => answer = server
  | .resume => answer = server
  | .mutate _ inputId expectedRevision =>
      ∃ input ∈ server, input.id = inputId ∧ isPending input = true ∧
        input.revision = expectedRevision ∧
        ∃ changed ∈ answer, answer = [changed] ∧ changed.id = inputId ∧
          input.revision < changed.revision
  | .reorder items =>
      (items.map Prod.fst).Nodup ∧
      (∀ input ∈ server, isPending input = true → input.id ∈ items.map Prod.fst) ∧
      answer.map RunInput.id = items.map Prod.fst ∧
      ∀ changed ∈ answer, isPending changed = true ∧
        ∃ input ∈ server, isPending input = true ∧ (input.id, input.revision) ∈ items ∧
          input.id = changed.id ∧ input.revision < changed.revision

instance (server answer : List (RunInput Id Payload)) :
    ∀ request, Decidable (MayAnswer server answer request)
  | .list => inferInstanceAs (Decidable (_ = _))
  | .resume => inferInstanceAs (Decidable (_ = _))
  | .mutate .. => inferInstanceAs (Decidable (∃ input ∈ server, _))
  | .reorder _ => inferInstanceAs (Decidable (_ ∧ _ ∧ _ ∧ ∀ changed ∈ answer, _ ∧ ∃ _ ∈ server, _))

def install (server changed : List (RunInput Id Payload)) : List (RunInput Id Payload) :=
  server.map fun input => (changed.find? fun later => later.id = input.id).getD input

def display (captured : List (RunInput Id Payload)) (answer : List (RunInput Id Payload)) :
    Request Id → List (RunInput Id Payload)
  | .list => answer
  | .resume => answer
  | .mutate .. => answer.foldl replaceInput captured
  | .reorder _ => (captured.filter fun input => !isPending input) ++ answer

inductive Action (Id Payload : Type*)
  | change (queue : List (RunInput Id Payload))
  | call (operation : Operation Id)
  | answer (number : ℕ) (inputs : List (RunInput Id Payload))
  | fail (number : ℕ)
  | apply (number : ℕ)

namespace State

variable (state : State Id Payload)

def setStage (number : ℕ) (exchange : Exchange Id Payload) (stage : Stage Id Payload) :
    State Id Payload :=
  { state with exchanges := state.exchanges.set number { exchange with stage } }

def change (queue : List (RunInput Id Payload)) : State Id Payload :=
  if MayBecome state.server queue then { state with server := queue } else state

/-- The server carries out a request and answers it. -/
def answer (number : ℕ) (inputs : List (RunInput Id Payload)) : State Id Payload :=
  match state.exchanges[number]? with
  | some { request, captured, stage := .sent } =>
      if MayAnswer state.server inputs request then
        { state.setStage number { request, captured } (.answered state.time inputs) with
          server := if request.listsAll then state.server else install state.server inputs
          time := state.time + 1 }
      else state
  | _ => state

/-- A request comes back with an error. -/
def fail (number : ℕ) : State Id Payload :=
  match state.exchanges[number]? with
  | some exchange =>
      if exchange.stage = .finished then state
      else { state.setStage number exchange .finished with failed := true }
  | none => state

/-- The answer to a request comes back. -/
def apply (number : ℕ) : State Id Payload :=
  match state.exchanges[number]? with
  | some { request, captured, stage := .answered time inputs } =>
      { state.setStage number { request, captured } .finished with
        serverInputs := display captured inputs request
        applied := max state.applied time }
  | _ => state

end State

def step (state : State Id Payload) : Action Id Payload → State Id Payload
  | .change queue => state.change queue
  | .call operation => state.call operation
  | .answer number inputs => state.answer number inputs
  | .fail number => state.fail number
  | .apply number => state.apply number

/-- A controller whose first refresh is on its way. -/
def start (server : List (RunInput Id Payload)) : State Id Payload :=
  State.send { server } .list

end NaturalMold.ServerMessageQueue

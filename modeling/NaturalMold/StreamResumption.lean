import Mathlib.Algebra.Order.Group.Nat
import Mathlib.Tactic.Linarith
import NaturalMold.CronExpressions
import NaturalMold.Transducers

/-!
# Streams that resume on their own

A stream of events is read until it ends or throws.
-/

namespace NaturalMold.StreamResumption

open CronExpressions (Text)

inductive StreamError where
  | streamApi (status : ℤ) (code : Text)
  | streamHttp (status : ℤ)
  | abort
  | other (message : Text)
  deriving DecidableEq

/-- What the caller's signal says at a failure, and during the wait that follows it. -/
structure Signal where
  aborted : Bool
  abortedAsleep : Bool
  deriving DecidableEq

def isRetryableError (error : StreamError) (signal : Signal) : Bool :=
  if signal.aborted then false
  else
    match error with
    | .abort => false
    | .streamApi status code =>
        if 400 ≤ status ∧ status < 500 then
          status == 409 && code == "RUN_ATTACH_RETRY".toList
        else true
    | .streamHttp status => !(400 ≤ status && status < 500)
    | .other _ => true

def backoffFor (attempt : ℕ) (schedule : List ℤ) : ℤ :=
  (schedule[min (attempt - 1) (schedule.length - 1)]?).getD (schedule.getLast?.getD 0)

def sleepWithAbort (ms : ℤ) (signal : Signal) : Except StreamError Unit :=
  if ms ≤ 0 then .ok ()
  else if signal.abortedAsleep then .error .abort
  else .ok ()

structure Options where
  maxAttempts : ℕ := 3
  backoffMs : List ℤ := [500, 1500, 4000]

variable {Data : Type*}

structure Event (Data : Type*) where
  id : Option Text
  data : Data
  deriving DecidableEq

/-- A stream: what it delivers, and what it throws after that. -/
structure Stream (Data : Type*) where
  events : List (Event Data)
  failure : Option StreamError

inductive Effect (Data : Type*) where
  | yielded (event : Event Data)
  | onReconnecting (attempt : ℕ)
  | resumed (lastEventId : Option Text) (attempt : ℕ)
  | onReconnected
  | onFailed (error : StreamError)
  deriving DecidableEq

namespace Effect

def event? : Effect Data → Option (Event Data)
  | yielded event => some event
  | _ => none

def isResumed : Effect Data → Bool
  | resumed _ _ => true
  | _ => false

end Effect

inductive Outcome where
  | returned
  | thrown (error : StreamError)
  deriving DecidableEq

/-- The log of a run; without an outcome the run still goes on. -/
structure Result (Data : Type*) where
  effects : List (Effect Data)
  outcome : Option Outcome

namespace Result

def yields (result : Result Data) : List (Event Data) :=
  result.effects.filterMap Effect.event?

end Result

structure State where
  lastEventId : Option Text := none
  attempt : ℕ := 0
  isResumed : Bool := false

def State.resuming (state : State) (attempt : ℕ) : State :=
  { state with attempt, isResumed := true }

/-- The body of the loop over one stream's events. -/
def receive (state : State) (event : Event Data) : State × List (Effect Data) :=
  let lastEventId :=
    match event.id with
    | some (first :: rest) => some (first :: rest)
    | _ => state.lastEventId
  if state.isResumed then
    ({ lastEventId, attempt := 0, isResumed := false }, [.onReconnected, .yielded event])
  else ({ state with lastEventId }, [.yielded event])

def drain (state : State) (events : List (Event Data)) : State × List (Effect Data) :=
  Transducers.feed receive state events

/-- What follows an error: the end of the run, or another stream. -/
inductive Turn (Data : Type*) where
  | failed (effects : List (Effect Data)) (error : StreamError)
  | resume (attempt : ℕ)

def turn (options : Options) (signal : Signal) (error : StreamError) (state : State) :
    Turn Data :=
  if !isRetryableError error signal then .failed [.onFailed error] error
  else
    let attempt := state.attempt + 1
    if options.maxAttempts < attempt then .failed [.onFailed error] error
    else
      match sleepWithAbort (backoffFor attempt options.backoffMs) signal with
      | .error aborted => .failed [.onReconnecting attempt, .onFailed error] aborted
      | .ok () => .resume attempt

/-- The loop over the streams; `resumeFactory` and `signals` also see how many streams were
attached before.  Each stream takes one unit of fuel. -/
def withAutoResume (options : Options) (signals : ℕ → Signal)
    (resumeFactory : ℕ → Option Text → ℕ → Option (Stream Data)) :
    ℕ → ℕ → State → Stream Data → Result Data
  | 0, _, _, _ => ⟨[], none⟩
  | fuel + 1, attached, state, stream =>
      let drained := drain state stream.events
      match stream.failure with
      | none => ⟨drained.2, some .returned⟩
      | some error =>
          match turn options (signals attached) error drained.1 with
          | .failed effects thrown => ⟨drained.2 ++ effects, some (.thrown thrown)⟩
          | .resume attempt =>
              let resumed := Effect.resumed drained.1.lastEventId attempt
              match resumeFactory attached drained.1.lastEventId attempt with
              | none =>
                  ⟨drained.2 ++ [.onReconnecting attempt, resumed, .onFailed error],
                    some (.thrown error)⟩
              | some next =>
                  let rest := withAutoResume options signals resumeFactory fuel (attached + 1)
                    (drained.1.resuming attempt) next
                  ⟨drained.2 ++ .onReconnecting attempt :: resumed :: rest.effects,
                    rest.outcome⟩

theorem drain_cons (state : State) (event : Event Data) (events : List (Event Data)) :
    drain state (event :: events) =
      ((drain (receive state event).1 events).1,
        (receive state event).2 ++ (drain (receive state event).1 events).2) :=
  rfl

/-- Attempts are counted only from the first resumed stream on. -/
def State.Counted (state : State) : Prop :=
  state.isResumed = false → state.attempt = 0

theorem State.Counted.receive {state : State} (counted : state.Counted) (event : Event Data) :
    (receive state event).1.attempt = 0 ∧ (receive state event).1.isResumed = false := by
  by_cases resumed : state.isResumed = true
  · simp [StreamResumption.receive, resumed]
  · rw [Bool.not_eq_true] at resumed
    simp [StreamResumption.receive, resumed, counted resumed]

/-- An event starts the attempts over, and a stream without events leaves them. -/
theorem State.Counted.drain {state : State} (counted : state.Counted)
    (events : List (Event Data)) :
    (drain state events).1.attempt = if events = [] then state.attempt else 0 := by
  induction events generalizing state with
  | nil => rfl
  | cons event events ih =>
      obtain ⟨fresh, plain⟩ := counted.receive event
      rw [drain_cons, if_neg (List.cons_ne_nil _ _)]
      rw [ih fun _ => fresh, fresh, ite_self]

variable {effects : List (Effect Data)}

/-- The streams attached in a row, `count` of them so far, stay within a limit. -/
def WithinLimit (limit : ℕ) : ℕ → List (Effect Data) → Prop
  | _, [] => True
  | _, .yielded _ :: effects => WithinLimit limit 0 effects
  | count, .resumed _ _ :: effects => count + 1 ≤ limit ∧ WithinLimit limit (count + 1) effects
  | count, _ :: effects => WithinLimit limit count effects

variable {limit : ℕ}

/-- The log of a failure that ends the run. -/
inductive LastEffects (limit attempt : ℕ) (aborted : Prop) : List (Effect Data) → Prop where
  | unannounced (error : StreamError) : LastEffects limit attempt aborted [.onFailed error]
  | asleep (error : StreamError) : aborted →
      LastEffects limit attempt aborted [.onReconnecting attempt, .onFailed error]
  | refused (lastEventId : Option Text) (error : StreamError) : attempt ≤ limit →
      LastEffects limit attempt aborted
        [.onReconnecting attempt, .resumed lastEventId attempt, .onFailed error]

theorem LastEffects.yields {attempt : ℕ} {aborted : Prop}
    (last : LastEffects limit attempt aborted effects) : effects.filterMap Effect.event? = [] := by
  cases last <;> rfl

section Runs

variable (options : Options) (signals : ℕ → Signal)
  (resumeFactory : ℕ → Option Text → ℕ → Option (Stream Data))

end Runs

/-- A server's events, and where the connection attached after so many others breaks. -/
structure Server (Data : Type*) where
  events : List (Event Data)
  failures : ℕ → Option (ℕ × StreamError)

namespace Server

/-- The events strictly behind an id, all of them without one. -/
def replayAfter : Option Text → List (Event Data) → List (Event Data)
  | none, events => events
  | some _, [] => []
  | some lastEventId, event :: events =>
      if event.id = some lastEventId then events else replayAfter (some lastEventId) events

/-- The connection delivers what is left, up to where it breaks. -/
def connect (server : Server Data) (connection : ℕ) (pending : List (Event Data)) :
    Stream Data :=
  match server.failures connection with
  | none => ⟨pending, none⟩
  | some (delivered, error) =>
      if delivered ≤ pending.length then ⟨pending.take delivered, some error⟩ else ⟨pending, none⟩

def resumeFactory (server : Server Data) (attached : ℕ) (lastEventId : Option Text)
    (_attempt : ℕ) : Option (Stream Data) :=
  some (server.connect (attached + 1) (replayAfter lastEventId server.events))

def run (server : Server Data) (options : Options) (signals : ℕ → Signal) (fuel : ℕ) :
    Result Data :=
  withAutoResume options signals server.resumeFactory fuel 0 {} (server.connect 0 server.events)

/-- Every event has an id of its own that is not empty. -/
def Identified (server : Server Data) : Prop :=
  (∀ event ∈ server.events, ∃ first rest, event.id = some (first :: rest)) ∧
    (server.events.map Event.id).Nodup

theorem replayAfter_append {seen pending : List (Event Data)} {event : Event Data} {id : Text}
    (last : event.id = some id) (fresh : ∀ earlier ∈ seen, earlier.id ≠ some id) :
    replayAfter (some id) (seen ++ event :: pending) = pending := by
  induction seen with
  | nil => simp [replayAfter, last]
  | cons earlier seen ih =>
      rw [List.cons_append, replayAfter, if_neg (fresh earlier List.mem_cons_self)]
      exact ih fun other member => fresh other (List.mem_cons_of_mem _ member)

end Server

/-- The reader has seen a part of the events and would be sent the others. -/
structure Cursor (server : Server Data) (state : State) (seen pending : List (Event Data)) :
    Prop where
  split : server.events = seen ++ pending
  replay : Server.replayAfter state.lastEventId server.events = pending

namespace Cursor

variable {server : Server Data} {state : State} {seen pending : List (Event Data)}

theorem receive (identified : server.Identified) {event : Event Data}
    (cursor : Cursor server state seen (event :: pending)) :
    Cursor server (receive state event).1 (seen ++ [event]) pending := by
  have split : server.events = seen ++ [event] ++ pending := by
    rw [cursor.split, List.append_assoc]
    rfl
  have member : event ∈ server.events := by simp [split]
  obtain ⟨first, rest, named⟩ := identified.1 event member
  have noted : (StreamResumption.receive state event).1.lastEventId = some (first :: rest) := by
    by_cases resumed : state.isResumed = true
    · simp [StreamResumption.receive, resumed, named]
    · simp [StreamResumption.receive, resumed, named]
  refine ⟨split, ?_⟩
  rw [noted, cursor.split]
  refine Server.replayAfter_append named fun earlier before same => ?_
  have distinct := identified.2
  rw [cursor.split, List.map_append, List.nodup_append] at distinct
  refine distinct.2.2 earlier.id (List.mem_map_of_mem before) event.id ?_ (same.trans named.symm)
  exact List.mem_cons_self

theorem drain (identified : server.Identified) {events : List (Event Data)}
    (cursor : Cursor server state seen (events ++ pending)) :
    Cursor server (drain state events).1 (seen ++ events) pending := by
  induction events generalizing state seen with
  | nil => simpa [StreamResumption.drain] using cursor
  | cons event events ih =>
      have later := ih (cursor.receive identified)
      rwa [List.append_assoc] at later

/-- A connection delivers a first part of what is left, all of it unless it breaks. -/
theorem connect (connection : ℕ) (server : Server Data) (pending : List (Event Data)) :
    ∃ rest, pending = (server.connect connection pending).events ++ rest ∧
      ((server.connect connection pending).failure = none → rest = []) := by
  unfold Server.connect
  cases server.failures connection with
  | none => exact ⟨[], (List.append_nil _).symm, fun _ => rfl⟩
  | some failure =>
      obtain ⟨delivered, error⟩ := failure
      dsimp only
      by_cases early : delivered ≤ pending.length
      · refine ⟨pending.drop delivered, ?_, ?_⟩
        · rw [if_pos early]
          exact (List.take_append_drop _ _).symm
        · rw [if_pos early]
          nofun
      · refine ⟨[], ?_, fun _ => rfl⟩
        rw [if_neg early]
        exact (List.append_nil _).symm

end Cursor

section Server

variable (options : Options) (signals : ℕ → Signal) {server : Server Data}

end Server

end NaturalMold.StreamResumption

import NaturalMold.StepRuns
import Mathlib.Data.List.DropRight
import Mathlib.Data.List.Infix
import Mathlib.Data.List.ReduceOption

/-!
# The per-run event broker

A broker keeps the last events of a run in a ring buffer and fans each new one out to the queues of
its listeners.
-/

namespace NaturalMold.Broker

structure BrokeredEvent (Data : Type*) where
  id : String
  event : String
  data : Data
  deriving DecidableEq

variable {Data : Type*}

/-- The events strictly after the first one with a given id; all of them
without an id, none when no event has it. -/
def sliceEventsAfter : Option String → List (BrokeredEvent Data) → List (BrokeredEvent Data)
  | none, events => events
  | some _, [] => []
  | some afterId, evt :: events =>
      if evt.id = afterId then events else sliceEventsAfter (some afterId) events

theorem sliceEventsAfter_suffix (afterId : Option String) (events : List (BrokeredEvent Data)) :
    sliceEventsAfter afterId events <:+ events := by
  cases afterId with
  | none => simp [sliceEventsAfter]
  | some afterId =>
      induction events with
      | nil => exact List.suffix_refl _
      | cons evt events ih =>
          rw [sliceEventsAfter]
          split
          · exact List.suffix_cons _ _
          · exact ih.trans (List.suffix_cons _ _)

/-- With different ids, the slice after a present event is what follows it. -/
theorem sliceEventsAfter_append {older newer : List (BrokeredEvent Data)}
    {evt : BrokeredEvent Data} (fresh : ∀ other ∈ older, other.id ≠ evt.id) :
    sliceEventsAfter (some evt.id) (older ++ evt :: newer) = newer := by
  induction older with
  | nil => simp [sliceEventsAfter]
  | cons first older ih =>
      rw [List.cons_append, sliceEventsAfter, if_neg (fresh first List.mem_cons_self)]
      exact ih fun other member => fresh other (List.mem_cons_of_mem _ member)

/-- A subscriber's iterator runs, has returned, or was closed by its client. -/
inductive Phase
  | running
  | ended
  | left
  deriving DecidableEq

/-- A subscriber: its queue (`none` is the sentinel that ends it), whether the
broker still lists it, what is left of its buffer snapshot, and what it has
yielded. -/
structure Subscription (Data : Type*) where
  queue : List (Option (BrokeredEvent Data))
  registered : Bool
  replay : List (BrokeredEvent Data)
  alreadyClosed : Bool
  yieldedIds : List String := []
  yielded : List (BrokeredEvent Data) := []
  phase : Phase := .running
  deriving DecidableEq

/-- A queue without a positive size limit is never full. -/
def QueueFull {Item : Type*} (maxsize : Nat) (queue : List Item) : Prop :=
  0 < maxsize ∧ maxsize ≤ queue.length

instance {Item : Type*} (maxsize : Nat) (queue : List Item) :
    Decidable (QueueFull maxsize queue) :=
  inferInstanceAs (Decidable (_ ∧ _))

def putNowait {Item : Type*} (maxsize : Nat) (queue : List Item) (item : Item) :
    Option (List Item) :=
  if QueueFull maxsize queue then none else some (queue ++ [item])

def replaceOldest {Item : Type*} (maxsize : Nat) (queue : List (Option Item)) :
    List (Option Item) :=
  (putNowait maxsize queue.tail none).getD queue.tail

theorem replaceOldest_of_full {Item : Type*} {maxsize : Nat} {queue : List (Option Item)}
    (full : QueueFull maxsize queue) (bounded : queue.length ≤ maxsize) :
    replaceOldest maxsize queue = queue.tail ++ [none] := by
  have room : ¬ QueueFull maxsize queue.tail := by
    unfold QueueFull at full ⊢
    rw [List.length_tail]
    omega
  rw [replaceOldest, putNowait, if_neg room]
  rfl

namespace Subscription

/-- Register with a snapshot of the buffer, under one synchronous execution. -/
def start (maxsize : Nat) (closed : Bool) (buffer : List (BrokeredEvent Data))
    (afterId : Option String) : Subscription Data where
  queue := if closed then (putNowait maxsize [] none).getD [] else []
  registered := !closed
  replay := sliceEventsAfter afterId buffer
  alreadyClosed := closed

/-- Offer an event to a listener; one whose queue is full is disconnected. -/
def deliver (maxsize : Nat) (evt : BrokeredEvent Data) (subscription : Subscription Data) :
    Subscription Data :=
  if subscription.registered then
    match putNowait maxsize subscription.queue (some evt) with
    | some queue => { subscription with queue := queue }
    | none =>
        { subscription with
          registered := false
          queue := replaceOldest maxsize subscription.queue }
  else subscription

/-- Tell a listener that the broker closes. -/
def signalClose (maxsize : Nat) (subscription : Subscription Data) : Subscription Data :=
  if subscription.registered then
    { subscription with
      registered := false
      queue := (putNowait maxsize subscription.queue none).getD
        (replaceOldest maxsize subscription.queue) }
  else subscription

def finish (subscription : Subscription Data) : Subscription Data :=
  { subscription with
    registered := false
    phase := .ended }

/-- Advance the iterator by one item: first the snapshot, then the queue.  On
an empty queue it waits. -/
def consume (subscription : Subscription Data) : Subscription Data :=
  match subscription.phase, subscription.replay with
  | .running, evt :: replay =>
      { subscription with
        replay := replay
        yieldedIds := subscription.yieldedIds ++ [evt.id]
        yielded := subscription.yielded ++ [evt] }
  | .running, [] =>
      if subscription.alreadyClosed then subscription.finish
      else
        match subscription.queue with
        | [] => subscription
        | none :: queue => { subscription.finish with queue := queue }
        | some evt :: queue =>
            if evt.id ∈ subscription.yieldedIds then { subscription with queue := queue }
            else
              { subscription with
                queue := queue
                yielded := subscription.yielded ++ [evt] }
  | .ended, _ => subscription
  | .left, _ => subscription

/-- The client closes the iterator. -/
def leave (subscription : Subscription Data) : Subscription Data :=
  match subscription.phase with
  | .running =>
      { subscription with
        registered := false
        phase := .left }
  | .ended => subscription
  | .left => subscription

/-- What the subscriber will yield from what it holds now. -/
def pending (subscription : Subscription Data) : List (BrokeredEvent Data) :=
  subscription.replay ++ subscription.queue.reduceOption

end Subscription

/-- A broker with every subscription it ever had. -/
structure EventBroker (Data : Type*) where
  bufferSize : Nat
  listenerQueueMaxsize : Nat
  buffer : List (BrokeredEvent Data) := []
  closed : Bool := false
  lastEventId : Option String := none
  subscriptions : List (Subscription Data) := []

inductive Action (Data : Type*)
  | publish (evt : BrokeredEvent Data)
  | close
  | subscribe (afterId : Option String)
  | consume (index : Nat)
  | leave (index : Nat)

namespace EventBroker

/-- Append to the ring buffer and fan out; a closed broker drops the event. -/
def publishNowait (broker : EventBroker Data) (evt : BrokeredEvent Data) : EventBroker Data :=
  if broker.closed then broker
  else
    { broker with
      buffer := (broker.buffer ++ [evt]).rtake broker.bufferSize
      lastEventId := if evt.id = "" then broker.lastEventId else some evt.id
      subscriptions :=
        broker.subscriptions.map (Subscription.deliver broker.listenerQueueMaxsize evt) }

def close (broker : EventBroker Data) : EventBroker Data :=
  if broker.closed then broker
  else
    { broker with
      closed := true
      subscriptions :=
        broker.subscriptions.map (Subscription.signalClose broker.listenerQueueMaxsize) }

def subscribe (broker : EventBroker Data) (afterId : Option String) : EventBroker Data :=
  { broker with
    subscriptions := broker.subscriptions ++
      [Subscription.start broker.listenerQueueMaxsize broker.closed broker.buffer afterId] }

def hasEventId (broker : EventBroker Data) (eventId : Option String) : Bool :=
  match eventId with
  | none => false
  | some id => id ≠ "" && broker.buffer.any fun evt => evt.id = id

def step (broker : EventBroker Data) : Action Data → EventBroker Data
  | .publish evt => broker.publishNowait evt
  | .close => broker.close
  | .subscribe afterId => broker.subscribe afterId
  | .consume index =>
      { broker with subscriptions := broker.subscriptions.modify index Subscription.consume }
  | .leave index =>
      { broker with subscriptions := broker.subscriptions.modify index Subscription.leave }

def published (broker : EventBroker Data) : Action Data → List (BrokeredEvent Data)
  | .publish evt => if broker.closed then [] else [evt]
  | .close | .subscribe _ | .consume _ | .leave _ => []

def run (broker : EventBroker Data) (actions : List (Action Data)) : EventBroker Data :=
  StepRuns.run step broker actions

def publishedBy (broker : EventBroker Data) (actions : List (Action Data)) :
    List (BrokeredEvent Data) :=
  StepRuns.outputs step published broker actions

def create (bufferSize listenerQueueMaxsize : Nat) : EventBroker Data where
  bufferSize := bufferSize
  listenerQueueMaxsize := listenerQueueMaxsize

def react (broker : EventBroker Data) (index : Nat) (subscription : Subscription Data) :
    Action Data → Subscription Data
  | .publish evt =>
      if broker.closed then subscription
      else subscription.deliver broker.listenerQueueMaxsize evt
  | .close =>
      if broker.closed then subscription
      else subscription.signalClose broker.listenerQueueMaxsize
  | .subscribe _ => subscription
  | .consume other => if other = index then subscription.consume else subscription
  | .leave other => if other = index then subscription.leave else subscription

theorem getElem?_step {broker : EventBroker Data} {index : Nat}
    {subscription : Subscription Data} (found : broker.subscriptions[index]? = some subscription)
    (action : Action Data) :
    (broker.step action).subscriptions[index]? =
      some (broker.react index subscription action) := by
  cases action with
  | publish evt =>
      by_cases closed : broker.closed
      · simp [step, publishNowait, react, closed, found]
      · simp [step, publishNowait, react, closed, found]
  | close =>
      by_cases closed : broker.closed
      · simp [step, close, react, closed, found]
      · simp [step, close, react, closed, found]
  | subscribe afterId =>
      have inside := (List.getElem?_eq_some_iff.mp found).1
      simp [step, subscribe, react, List.getElem?_append_left inside, found]
  | consume other =>
      by_cases same : other = index
      · simp [step, react, same, found]
      · simp [step, react, same, found]
  | leave other =>
      by_cases same : other = index
      · simp [step, react, same, found]
      · simp [step, react, same, found]

theorem step_cases {broker : EventBroker Data} {index : Nat} {action : Action Data}
    {after : Subscription Data}
    (found : (broker.step action).subscriptions[index]? = some after) :
    (∃ subscription, broker.subscriptions[index]? = some subscription ∧
        after = broker.react index subscription action) ∨
      ∃ afterId, action = .subscribe afterId ∧ broker.subscriptions.length = index ∧
        after = Subscription.start broker.listenerQueueMaxsize broker.closed broker.buffer
          afterId := by
  cases before : broker.subscriptions[index]? with
  | some subscription =>
      refine Or.inl ⟨subscription, rfl, ?_⟩
      rw [getElem?_step before] at found
      exact (Option.some.inj found).symm
  | none =>
      have outside := List.getElem?_eq_none_iff.mp before
      right
      cases action with
      | publish evt =>
          by_cases closed : broker.closed <;>
            simp [step, publishNowait, closed, before] at found
      | close =>
          by_cases closed : broker.closed <;> simp [step, close, closed, before] at found
      | subscribe afterId =>
          have last := (List.getElem?_eq_some_iff.mp found).1
          simp only [step, subscribe, List.length_append, List.length_singleton] at last
          obtain rfl : broker.subscriptions.length = index := by omega
          refine ⟨afterId, rfl, rfl, ?_⟩
          simpa [step, subscribe, eq_comm] using found
      | consume other => simp [step, List.getElem?_modify, before] at found
      | leave other => simp [step, List.getElem?_modify, before] at found

@[simp]
theorem listenerQueueMaxsize_step (broker : EventBroker Data) (action : Action Data) :
    (broker.step action).listenerQueueMaxsize = broker.listenerQueueMaxsize := by
  cases action with
  | publish evt => simp only [step, publishNowait]; split <;> rfl
  | close => simp only [step, close]; split <;> rfl
  | subscribe afterId => rfl
  | consume index => rfl
  | leave index => rfl

theorem closed_step (broker : EventBroker Data) (action : Action Data) :
    (broker.step action).closed =
      (broker.closed || match action with | .close => true | _ => false) := by
  cases action with
  | publish evt =>
      cases closed : broker.closed <;> simp [step, publishNowait, closed]
  | close => cases closed : broker.closed <;> simp [step, close, closed]
  | subscribe afterId => simp [step, subscribe]
  | consume index => simp [step]
  | leave index => simp [step]

theorem buffer_step {broker : EventBroker Data} {past : List (BrokeredEvent Data)}
    (suffix : broker.buffer <:+ past) (action : Action Data) :
    (broker.step action).buffer <:+ past ++ broker.published action := by
  cases action with
  | publish evt =>
      by_cases closed : broker.closed
      · simpa [step, publishNowait, published, closed] using suffix
      · simp only [step, publishNowait, published, closed]
        exact (List.drop_suffix _ _).trans (List.suffix_append_inj_of_length_eq
          (by simp) |>.mpr ⟨suffix, rfl⟩)
  | close =>
      by_cases closed : broker.closed <;> simpa [step, close, published, closed] using suffix
  | subscribe afterId => simpa [step, subscribe, published] using suffix
  | consume index => simpa [step, published] using suffix
  | leave index => simpa [step, published] using suffix

theorem buffer_run (broker : EventBroker Data) (empty : broker.buffer = [])
    (actions : List (Action Data)) :
    (broker.run actions).buffer <:+ publishedBy broker actions := by
  have initial : broker.buffer <:+ [] := by simp [empty]
  have preserved := StepRuns.run_output_invariant published
    (fun past (broker : EventBroker Data) => broker.buffer <:+ past)
    (fun _ _ action (_ : True) suffix => buffer_step suffix action) initial
    (StepRuns.everyStep_of_forall (fun _ _ => trivial) broker actions)
  exact preserved

end EventBroker

end NaturalMold.Broker

import NaturalMold.EventBrokerDelivery

/-! # Exactly-once delivery without overflow -/

namespace NaturalMold.Broker

variable {Data : Type*}

theorem map_some_reduceOption {Item : Type*} {queue : List (Option Item)}
    (items : none ∉ queue) : queue.reduceOption.map some = queue := by
  induction queue with
  | nil => rfl
  | cons item queue ih =>
      rw [List.mem_cons, not_or] at items
      cases item with
      | none => exact absurd rfl items.1
      | some item => rw [List.reduceOption_cons_of_some, List.map_cons, ih items.2]

namespace EventBroker

/-- No put of a step meets the full queue of the subscription at an index. -/
def RoomAt (index : Nat) (broker : EventBroker Data) (action : Action Data) : Prop :=
  ∀ subscription, broker.subscriptions[index]? = some subscription →
    ¬ broker.Overflows subscription action

instance (index : Nat) (broker : EventBroker Data) (action : Action Data) :
    Decidable (RoomAt index broker action) :=
  match found : broker.subscriptions[index]? with
  | none => isTrue fun _ impossible => absurd (found.symm.trans impossible) (by simp)
  | some subscription =>
      decidable_of_iff (¬ broker.Overflows subscription action)
        ⟨fun holds _ other => Option.some.inj (found.symm.trans other) ▸ holds,
          fun room => room subscription found⟩

structure Complete (closed : Bool) (due : List (BrokeredEvent Data))
    (subscription : Subscription Data) : Prop where
  yielded : subscription.yielded <+: due
  coming : subscription.phase ≠ .left → subscription.coming = due
  registered : subscription.registered = true ↔
    subscription.phase = .running ∧ closed = false
  listening : subscription.phase = .running → closed = false →
    subscription.alreadyClosed = false ∧ none ∉ subscription.queue
  closing : subscription.phase = .running → closed = true →
    subscription.alreadyClosed = true ∧ subscription.queue.reduceOption = [] ∨
      subscription.alreadyClosed = false ∧
        ∃ events : List (BrokeredEvent Data), subscription.queue = events.map some ++ [none]
  ended : subscription.phase = .ended → closed = true ∧ subscription.pending = []
  known : subscription.KnownIds

namespace Complete

variable {closed : Bool} {due : List (BrokeredEvent Data)} {subscription : Subscription Data}

theorem start (maxsize : Nat) (closed : Bool) (buffer : List (BrokeredEvent Data))
    (afterId : Option String) :
    Complete closed (sliceEventsAfter afterId buffer)
      (Subscription.start maxsize closed buffer afterId) where
  yielded := List.nil_prefix
  coming _ := Subscription.coming_start maxsize closed buffer afterId
  registered := by cases closed <;> simp [Subscription.start]
  listening _ opened := by
    subst opened
    simp [Subscription.start]
  closing _ shut := by
    subst shut
    exact Or.inl ⟨rfl, Subscription.reduceOption_queue_start maxsize true buffer afterId⟩
  ended impossible := by simp [Subscription.start] at impossible
  known id member := by simp [Subscription.start] at member

theorem distinct (complete : Complete closed due subscription)
    (nodup : (due.map BrokeredEvent.id).Nodup) (staying : subscription.phase ≠ .left) :
    (subscription.coming.map BrokeredEvent.id).Nodup := by
  rw [complete.coming staying]
  exact nodup

/-- Advancing an iterator keeps it complete. -/
theorem consume (complete : Complete closed due subscription)
    (nodup : (due.map BrokeredEvent.id).Nodup) :
    Complete closed due subscription.consume := by
  by_cases running : subscription.phase = .running
  · have staying : subscription.phase ≠ .left := by simp [running]
    have same := Subscription.coming_consume complete.known (complete.distinct nodup staying)
    rw [complete.coming staying] at same
    have known := Subscription.knownIds_consume complete.known
    have yielded : subscription.consume.yielded <+: due := ⟨_, same⟩
    have advance := Subscription.advance_consume subscription
    generalize subscription.consume = after at advance same known yielded
    cases advance with
    | idle halted => exact absurd running halted
    | replays _ rest =>
        exact ⟨yielded, fun _ => same, complete.registered, complete.listening,
          complete.closing, fun halted => absurd (running.symm.trans halted) (by simp), known⟩
    | returns _ replayed already =>
        have shut : closed = true := by
          by_contra opened
          have listening := complete.listening running (by simpa using opened)
          simp [listening.1] at already
        have empty : subscription.queue.reduceOption = [] := by
          rcases complete.closing running shut with ⟨-, empty⟩ | ⟨opened, -⟩
          · exact empty
          · simp [already] at opened
        refine ⟨yielded, fun _ => same, by simp [Subscription.finish],
          by simp [Subscription.finish], by simp [Subscription.finish], fun _ => ⟨shut, ?_⟩,
          known⟩
        simpa [Subscription.pending, Subscription.finish, replayed] using empty
    | waits _ replayed opened empty => exact complete
    | ends _ replayed opened sentinel =>
        have shut : closed = true := by
          by_contra opened
          have listening := complete.listening running (by simpa using opened)
          simp [sentinel] at listening
        refine ⟨yielded, fun _ => same, by simp [Subscription.finish],
          by simp [Subscription.finish], by simp [Subscription.finish], fun _ => ⟨shut, ?_⟩,
          known⟩
        rcases complete.closing running shut with ⟨already, -⟩ | ⟨-, events, queueEq⟩
        · simp [already] at opened
        · cases events with
          | nil =>
              rw [sentinel] at queueEq
              simp only [List.map_nil, List.nil_append, List.cons.injEq, true_and] at queueEq
              simp [Subscription.pending, Subscription.finish, replayed, queueEq]
          | cons evt events => simp [sentinel] at queueEq
    | skips _ replayed opened next seen =>
        exact absurd seen (Subscription.notMem_yieldedIds complete.known
          (complete.distinct nodup staying) (by simp [Subscription.pending, next]))
    | yields _ replayed opened next unseen =>
        refine ⟨yielded, fun _ => same, complete.registered, fun _ stillOpen => ?_,
          fun _ shut => ?_, fun halted => absurd (running.symm.trans halted) (by simp), known⟩
        · have listening := complete.listening running stillOpen
          rw [next, List.mem_cons, not_or] at listening
          exact ⟨opened, listening.2.2⟩
        · rcases complete.closing running shut with ⟨already, -⟩ | ⟨-, events, queueEq⟩
          · simp [already] at opened
          · cases events with
            | nil => simp [next] at queueEq
            | cons evt events =>
                rw [next, List.map_cons, List.cons_append, List.cons.injEq] at queueEq
                exact Or.inr ⟨opened, events, queueEq.2⟩
  · have idle : subscription.consume = subscription := by
      unfold Subscription.consume
      cases phase : subscription.phase <;> simp_all
    rw [idle]
    exact complete

theorem leave (complete : Complete closed due subscription) :
    Complete closed due subscription.leave := by
  unfold Subscription.leave
  split
  · exact ⟨complete.yielded, by simp, by simp, by simp, by simp, by simp, complete.known⟩
  · exact complete
  · exact complete

theorem publish (complete : Complete false due subscription) {maxsize : Nat}
    (room : subscription.registered = true → ¬ QueueFull maxsize subscription.queue)
    (evt : BrokeredEvent Data) :
    Complete false (due ++ [evt]) (subscription.deliver maxsize evt) := by
  by_cases registered : subscription.registered = true
  · rw [Subscription.deliver_of_room registered (room registered)]
    have running := (complete.registered.mp registered).1
    have listening := complete.listening running rfl
    refine ⟨complete.yielded.trans (List.prefix_append _ _), fun staying => ?_,
      complete.registered, fun _ _ => ⟨listening.1, ?_⟩, by simp,
      fun halted => absurd (running.symm.trans halted) (by simp), complete.known⟩
    · rw [← complete.coming staying]
      simp [Subscription.coming, Subscription.pending, List.reduceOption_append]
    · simpa using listening.2
  · have same : subscription.deliver maxsize evt = subscription := by
      simp [Subscription.deliver, registered]
    have gone : subscription.phase = .left := by
      cases phase : subscription.phase with
      | running => exact absurd (complete.registered.mpr ⟨phase, rfl⟩) registered
      | ended => simpa using (complete.ended phase).1
      | left => rfl
    rw [same]
    exact ⟨complete.yielded.trans (List.prefix_append _ _), by simp [gone],
      complete.registered, complete.listening, by simp, by simp [gone], complete.known⟩

theorem signalClose (complete : Complete false due subscription) {maxsize : Nat}
    (room : subscription.registered = true → ¬ QueueFull maxsize subscription.queue) :
    Complete true due (subscription.signalClose maxsize) := by
  by_cases registered : subscription.registered = true
  · rw [Subscription.signalClose_of_room registered (room registered)]
    have running := (complete.registered.mp registered).1
    have listening := complete.listening running rfl
    refine ⟨complete.yielded, fun staying => ?_, by simp, by simp,
      fun _ _ => Or.inr ⟨listening.1, subscription.queue.reduceOption, ?_⟩,
      fun halted => absurd (running.symm.trans halted) (by simp), complete.known⟩
    · rw [← complete.coming staying]
      simp [Subscription.coming, Subscription.pending, List.reduceOption_append]
    · rw [map_some_reduceOption listening.2]
  · have same : subscription.signalClose maxsize = subscription := by
      simp [Subscription.signalClose, registered]
    have gone : subscription.phase = .left := by
      cases phase : subscription.phase with
      | running => exact absurd (complete.registered.mpr ⟨phase, rfl⟩) registered
      | ended => simpa using (complete.ended phase).1
      | left => rfl
    rw [same]
    exact ⟨complete.yielded, complete.coming, by simp [registered, gone], by simp [gone],
      by simp [gone], by simp [gone], complete.known⟩

/-- Advancing an iterator of a closed broker ends it or brings it one event
closer to its end. -/
theorem progress (complete : Complete true due subscription)
    (running : subscription.phase = .running) :
    subscription.consume.phase = .ended ∨
      subscription.consume.phase = .running ∧
        subscription.consume.pending.length + 1 = subscription.pending.length := by
  have advance := Subscription.advance_consume subscription
  generalize subscription.consume = after at advance
  cases advance with
  | idle halted => exact absurd running halted
  | replays _ rest => exact Or.inr ⟨running, by simp [Subscription.pending, rest]⟩
  | returns => exact Or.inl rfl
  | waits _ replayed opened empty =>
      rcases complete.closing running rfl with ⟨already, -⟩ | ⟨-, events, queueEq⟩
      · simp [already] at opened
      · simp [empty] at queueEq
  | ends => exact Or.inl rfl
  | skips _ replayed opened next =>
      exact Or.inr ⟨running, by simp [Subscription.pending, replayed, next]⟩
  | yields _ replayed opened next =>
      exact Or.inr ⟨running, by simp [Subscription.pending, replayed, next]⟩

end Complete

variable {broker : EventBroker Data} {due : List (BrokeredEvent Data)}

theorem complete_react {index : Nat} {action : Action Data} {subscription : Subscription Data}
    (complete : Complete broker.closed due subscription)
    (distinct : (due.map BrokeredEvent.id).Nodup) (room : ¬ broker.Overflows subscription action) :
    Complete (broker.step action).closed (due ++ broker.published action)
      (broker.react index subscription action) := by
  have still : ∀ closed other, Complete closed due other →
      Complete closed (due ++ []) other := by
    simp
  cases action with
  | publish evt =>
      cases closed : broker.closed with
      | true => simpa [closed_step, published, react, closed] using closed ▸ complete
      | false =>
          rw [closed] at complete
          simpa [closed_step, published, react, closed] using
            complete.publish (fun registered full => room ⟨closed, registered, full⟩) evt
  | close =>
      refine still _ _ ?_
      cases closed : broker.closed with
      | true => simpa [closed_step, react, closed] using closed ▸ complete
      | false =>
          rw [closed] at complete
          simpa [closed_step, react, closed] using
            complete.signalClose fun registered full => room ⟨closed, registered, full⟩
  | subscribe afterId => exact still _ _ complete
  | consume other =>
      refine still _ _ ?_
      by_cases same : other = index
      · simpa [react, same, step] using complete.consume distinct
      · simpa [react, same, step] using complete
  | leave other =>
      refine still _ _ ?_
      by_cases same : other = index
      · simpa [react, same, step] using complete.leave
      · simpa [react, same, step] using complete

def CompleteAt (index : Nat) (due : List (BrokeredEvent Data)) (broker : EventBroker Data) :
    Prop :=
  ∃ subscription, broker.subscriptions[index]? = some subscription ∧
    Complete broker.closed due subscription

theorem CompleteAt.step {index : Nat} (completeAt : CompleteAt index due broker)
    (distinct : (due.map BrokeredEvent.id).Nodup) {action : Action Data}
    (room : RoomAt index broker action) :
    CompleteAt index (due ++ broker.published action) (broker.step action) := by
  obtain ⟨subscription, found, complete⟩ := completeAt
  exact ⟨_, getElem?_step found action, complete_react complete distinct (room _ found)⟩

theorem CompleteAt.run {index : Nat} (completeAt : CompleteAt index due broker)
    {actions : List (Action Data)}
    (distinct : ((due ++ publishedBy broker actions).map BrokeredEvent.id).Nodup)
    (room : StepRuns.EveryStep EventBroker.step (RoomAt index) broker actions) :
    CompleteAt index (due ++ publishedBy broker actions) (broker.run actions) := by
  have preserved := StepRuns.run_output_invariant published
    (fun due broker => (due.map BrokeredEvent.id).Nodup → CompleteAt index due broker)
    (fun due broker action allowed completeAt nodup =>
      have earlier := nodup.sublist ((List.sublist_append_left due _).map _)
      (completeAt earlier).step earlier allowed)
    (fun _ => completeAt) room
  exact preserved distinct

def advances (index : Nat) : Action Data → Bool
  | .consume other => other = index
  | .publish _ | .close | .subscribe _ | .leave _ => false

theorem closed_quiet (closed : broker.closed = true) (action : Action Data) :
    broker.published action = [] ∧ (broker.step action).closed = true ∧
      ∀ subscription, ¬ broker.Overflows subscription action := by
  refine ⟨?_, by simp [closed_step, closed], fun subscription => ?_⟩
  · cases action <;> simp [published, closed]
  · cases action <;> simp [Overflows, closed]

theorem publishedBy_of_closed (closed : broker.closed = true) (actions : List (Action Data)) :
    publishedBy broker actions = [] := by
  induction actions generalizing broker with
  | nil => rfl
  | cons action actions ih =>
      have quiet := closed_quiet closed action
      change broker.published action ++ publishedBy (broker.step action) actions = []
      rw [quiet.1, ih quiet.2.1, List.append_nil]

/-- An iterator of a closed broker ends once it is advanced more often than it
has events left, whatever else happens in between. -/
theorem ended_of_advances {index : Nat} (distinct : (due.map BrokeredEvent.id).Nodup)
    {actions : List (Action Data)} (closed : broker.closed = true)
    {subscription : Subscription Data} (found : broker.subscriptions[index]? = some subscription)
    (complete : Complete true due subscription) (staying : .leave index ∉ actions)
    (pending : subscription.phase = .ended ∨ subscription.phase = .running ∧
      subscription.pending.length < actions.countP (advances index)) :
    ∃ last, (broker.run actions).subscriptions[index]? = some last ∧ last.phase = .ended ∧
      last.yielded = due := by
  induction actions generalizing broker subscription with
  | nil =>
      rcases pending with halted | ⟨-, impossible⟩
      · refine ⟨subscription, found, halted, ?_⟩
        rw [← complete.coming (by simp [halted]), Subscription.coming,
          (complete.ended halted).2, List.append_nil]
      · simp at impossible
  | cons action actions ih =>
      rw [List.mem_cons, not_or] at staying
      have quiet := closed_quiet closed action
      have next : Complete (broker.step action).closed (due ++ broker.published action)
          (broker.react index subscription action) :=
        complete_react (closed.symm ▸ complete) distinct (quiet.2.2 subscription)
      rw [quiet.1, quiet.2.1, List.append_nil] at next
      refine ih quiet.2.1 (getElem?_step found action) next staying.2 ?_
      by_cases advanced : advances index action = true
      · have reacted : broker.react index subscription action = subscription.consume := by
          cases action with
          | consume other => exact if_pos (by simpa [advances] using advanced)
          | publish _ => simp [advances] at advanced
          | close => simp [advances] at advanced
          | subscribe _ => simp [advances] at advanced
          | leave _ => simp [advances] at advanced
        rw [reacted]
        rw [List.countP_cons_of_pos advanced] at pending
        rcases pending with halted | ⟨running, enough⟩
        · left
          unfold Subscription.consume
          simp [halted]
        · rcases complete.progress running with halted | ⟨still, fewer⟩
          · exact Or.inl halted
          · exact Or.inr ⟨still, by omega⟩
      · have reacted : broker.react index subscription action = subscription := by
          cases action with
          | consume other => exact if_neg (by simpa [advances] using advanced)
          | publish _ => simp [react, closed]
          | close => simp [react, closed]
          | subscribe _ => rfl
          | leave other =>
              have differs : ¬ other = index := fun same => staying.1 (by rw [same])
              simp [react, differs]
        rw [reacted]
        rwa [List.countP_cons_of_neg advanced] at pending

/-- Without overflow a subscriber yields, up to the end of its iterator, exactly
the buffered events after its id and then every event published until close,
each once and in publication order; once the broker is closed the iterator does
end, and a subscriber of a closed broker is due the buffered events alone. -/
theorem delivered_exactly {bufferSize maxsize : Nat} (before after : List (Action Data))
    (afterId : Option String) (newer : List (BrokeredEvent Data))
    (position : afterId = none ∧ newer = (run (create bufferSize maxsize) before).buffer ∨
      ∃ older evt, afterId = some evt.id ∧
        (run (create bufferSize maxsize) before).buffer = older ++ evt :: newer)
    (distinct : ((publishedBy (create bufferSize maxsize)
      (before ++ .subscribe afterId :: after)).map BrokeredEvent.id).Nodup)
    (room : StepRuns.EveryStep step
      (RoomAt (run (create bufferSize maxsize) before).subscriptions.length)
      ((run (create bufferSize maxsize) before).subscribe afterId) after) :
    let broker := run (create bufferSize maxsize) before
    let index := broker.subscriptions.length
    let later := publishedBy (broker.subscribe afterId) after
    let final := run (broker.subscribe afterId) after
    (newer ++ later <:+ publishedBy (create bufferSize maxsize)
        (before ++ .subscribe afterId :: after)) ∧
      (broker.closed = true → later = []) ∧
      ∃ subscription, final.subscriptions[index]? = some subscription ∧
        subscription.yielded <+: newer ++ later ∧
        (subscription.phase = .ended → subscription.yielded = newer ++ later) ∧
        (final.closed = true → subscription.phase ≠ .left → ∀ more,
          .leave index ∉ more →
          subscription.pending.length < more.countP (advances index) →
          ∃ last, (run final more).subscriptions[index]? = some last ∧
            last.phase = .ended ∧ last.yielded = newer ++ later) := by
  intro broker index later final
  have published : publishedBy (create bufferSize maxsize)
      (before ++ .subscribe afterId :: after) =
        publishedBy (create bufferSize maxsize) before ++ later :=
    StepRuns.outputs_append _ _ _ _ _
  rw [published] at distinct ⊢
  have buffer := buffer_run (create bufferSize maxsize) rfl before
  have slice : sliceEventsAfter afterId broker.buffer = newer := by
    rcases position with ⟨rfl, rfl⟩ | ⟨older, evt, rfl, bufferEq⟩
    · simp [sliceEventsAfter, broker]
    · rw [show broker.buffer = older ++ evt :: newer from bufferEq]
      refine sliceEventsAfter_append fun other member equal => ?_
      have nodup := distinct.sublist (((bufferEq ▸ buffer).sublist.trans
        (List.sublist_append_left _ _)).map BrokeredEvent.id)
      rw [List.map_append, List.nodup_append] at nodup
      exact nodup.2.2 _ (List.mem_map_of_mem member) _
        (List.mem_map_of_mem List.mem_cons_self) equal
  have suffix : newer ++ later <:+ publishedBy (create bufferSize maxsize) before ++ later :=
    (List.suffix_append_inj_of_length_eq rfl).mpr
      ⟨slice ▸ (sliceEventsAfter_suffix _ _).trans buffer, rfl⟩
  have nodup := distinct.sublist (suffix.sublist.map BrokeredEvent.id)
  have started : CompleteAt index newer (broker.subscribe afterId) :=
    ⟨_, by simp [subscribe, index],
      slice ▸ Complete.start broker.listenerQueueMaxsize broker.closed broker.buffer afterId⟩
  obtain ⟨subscription, found, complete⟩ := started.run nodup room
  refine ⟨suffix,
    fun (closed : (broker.subscribe afterId).closed = true) =>
      publishedBy_of_closed closed after,
    subscription, found, complete.yielded, fun halted => ?_, fun closed staying more stays enough => ?_⟩
  · have coming := complete.coming (by simp [halted])
    rwa [Subscription.coming, (complete.ended halted).2, List.append_nil] at coming
  · refine ended_of_advances nodup closed found (closed ▸ complete) stays ?_
    cases phase : subscription.phase with
    | running => exact Or.inr ⟨rfl, enough⟩
    | ended => exact Or.inl rfl
    | left => exact absurd phase staying

def resumedRun : List (Action Unit) :=
  [.publish (tokenEvent "r-3"), .consume 0, .close, .consume 0, .consume 0]

/-- Resuming after the first of two buffered events. -/
theorem delivered_exactly_resumedRun :
    ∃ subscription,
      (run ((run (create 2 8) [.publish (tokenEvent "r-1"),
          .publish (tokenEvent "r-2")]).subscribe (some "r-1")) resumedRun).subscriptions[0]? =
        some subscription ∧
      subscription.phase = .ended ∧
      subscription.yielded = [tokenEvent "r-2", tokenEvent "r-3"] := by
  obtain ⟨-, -, subscription, found, -, ended, -⟩ :=
    @delivered_exactly Unit 2 8
      [.publish (tokenEvent "r-1"), .publish (tokenEvent "r-2")] resumedRun (some "r-1")
      [tokenEvent "r-2"]
      (Or.inr ⟨[], tokenEvent "r-1", rfl, rfl⟩) (by decide) (by decide)
  have phase : subscription.phase = .ended := by
    have last := congrArg (Option.map Subscription.phase) found
    exact (Option.some.inj last).symm
  exact ⟨subscription, found, phase, ended phase⟩

end EventBroker

end NaturalMold.Broker

import NaturalMold.EventBroker
import Mathlib.Data.List.Nodup

/-! # What a broker's subscribers receive -/

namespace NaturalMold.Broker

variable {Data : Type*}

namespace Subscription

/-- Everything the subscriber has yielded or will yield from what it holds. -/
def coming (subscription : Subscription Data) : List (BrokeredEvent Data) :=
  subscription.yielded ++ subscription.pending

theorem reduceOption_queue_start (maxsize : Nat) (closed : Bool)
    (buffer : List (BrokeredEvent Data)) (afterId : Option String) :
    (start maxsize closed buffer afterId).queue.reduceOption = [] := by
  cases closed with
  | true =>
      by_cases full : QueueFull maxsize ([] : List (Option (BrokeredEvent Data))) <;>
        simp [start, putNowait, full]
  | false => rfl

theorem coming_start (maxsize : Nat) (closed : Bool) (buffer : List (BrokeredEvent Data))
    (afterId : Option String) :
    (start maxsize closed buffer afterId).coming = sliceEventsAfter afterId buffer := by
  rw [coming, pending, reduceOption_queue_start, List.append_nil]
  rfl

/-- The ids remembered for deduplication are ids of yielded events. -/
def KnownIds (subscription : Subscription Data) : Prop :=
  ∀ id ∈ subscription.yieldedIds, ∃ evt ∈ subscription.yielded, evt.id = id

variable {subscription : Subscription Data}

theorem deliver_of_room {maxsize : Nat} {evt : BrokeredEvent Data}
    (registered : subscription.registered) (room : ¬ QueueFull maxsize subscription.queue) :
    subscription.deliver maxsize evt =
      { subscription with queue := subscription.queue ++ [some evt] } := by
  rw [deliver, if_pos registered, putNowait, if_neg room]

theorem deliver_of_full {maxsize : Nat} {evt : BrokeredEvent Data}
    (registered : subscription.registered) (full : QueueFull maxsize subscription.queue)
    (bounded : subscription.queue.length ≤ maxsize) :
    subscription.deliver maxsize evt =
      { subscription with
        registered := false
        queue := subscription.queue.tail ++ [none] } := by
  rw [deliver, if_pos registered, putNowait, if_pos full, replaceOldest_of_full full bounded]

theorem signalClose_of_room {maxsize : Nat} (registered : subscription.registered)
    (room : ¬ QueueFull maxsize subscription.queue) :
    subscription.signalClose maxsize =
      { subscription with
        registered := false
        queue := subscription.queue ++ [none] } := by
  rw [signalClose, if_pos registered, putNowait, if_neg room, Option.getD_some]

theorem signalClose_of_full {maxsize : Nat} (registered : subscription.registered)
    (full : QueueFull maxsize subscription.queue) (bounded : subscription.queue.length ≤ maxsize) :
    subscription.signalClose maxsize =
      { subscription with
        registered := false
        queue := subscription.queue.tail ++ [none] } := by
  rw [signalClose, if_pos registered, putNowait, if_pos full, Option.getD_none,
    replaceOldest_of_full full bounded]

inductive Advance (before : Subscription Data) : Subscription Data → Prop
  | idle (halted : before.phase ≠ .running) : Advance before before
  | replays {evt : BrokeredEvent Data} {replay : List (BrokeredEvent Data)}
      (running : before.phase = .running) (rest : before.replay = evt :: replay) :
      Advance before
        { before with
          replay := replay
          yieldedIds := before.yieldedIds ++ [evt.id]
          yielded := before.yielded ++ [evt] }
  | returns (running : before.phase = .running) (replayed : before.replay = [])
      (closed : before.alreadyClosed = true) : Advance before before.finish
  | waits (running : before.phase = .running) (replayed : before.replay = [])
      (opened : before.alreadyClosed = false) (empty : before.queue = []) :
      Advance before before
  | ends {queue : List (Option (BrokeredEvent Data))} (running : before.phase = .running)
      (replayed : before.replay = []) (opened : before.alreadyClosed = false)
      (sentinel : before.queue = none :: queue) :
      Advance before { before.finish with queue := queue }
  | skips {evt : BrokeredEvent Data} {queue : List (Option (BrokeredEvent Data))}
      (running : before.phase = .running) (replayed : before.replay = [])
      (opened : before.alreadyClosed = false) (next : before.queue = some evt :: queue)
      (seen : evt.id ∈ before.yieldedIds) : Advance before { before with queue := queue }
  | yields {evt : BrokeredEvent Data} {queue : List (Option (BrokeredEvent Data))}
      (running : before.phase = .running) (replayed : before.replay = [])
      (opened : before.alreadyClosed = false) (next : before.queue = some evt :: queue)
      (unseen : evt.id ∉ before.yieldedIds) :
      Advance before
        { before with
          queue := queue
          yielded := before.yielded ++ [evt] }

theorem advance_consume (subscription : Subscription Data) :
    Advance subscription subscription.consume := by
  obtain ⟨queue, registered, replay, alreadyClosed, yieldedIds, yielded, phase⟩ := subscription
  cases phase with
  | ended => exact .idle (by simp)
  | left => exact .idle (by simp)
  | running =>
      cases replay with
      | cons evt replay => exact .replays rfl rfl
      | nil =>
          cases alreadyClosed with
          | true => exact .returns rfl rfl rfl
          | false =>
              cases queue with
              | nil => exact .waits rfl rfl rfl rfl
              | cons item queue =>
                  cases item with
                  | none => exact .ends rfl rfl rfl rfl
                  | some evt =>
                      simp only [consume, Bool.false_eq_true, if_false]
                      split
                      · rename_i seen
                        exact .skips rfl rfl rfl rfl seen
                      · rename_i unseen
                        exact .yields rfl rfl rfl rfl unseen

/-- With different ids, nothing that is coming is a repetition. -/
theorem notMem_yieldedIds (known : subscription.KnownIds)
    (distinct : (subscription.coming.map BrokeredEvent.id).Nodup) {evt : BrokeredEvent Data}
    (member : evt ∈ subscription.pending) : evt.id ∉ subscription.yieldedIds := by
  intro seen
  obtain ⟨old, oldMember, oldId⟩ := known _ seen
  rw [coming, List.map_append, List.nodup_append] at distinct
  exact distinct.2.2 _ (List.mem_map_of_mem oldMember) _ (List.mem_map_of_mem member) oldId

theorem coming_consume (known : subscription.KnownIds)
    (distinct : (subscription.coming.map BrokeredEvent.id).Nodup) :
    subscription.consume.coming = subscription.coming := by
  have advance := advance_consume subscription
  generalize subscription.consume = after at advance
  cases advance with
  | idle => rfl
  | replays running rest => simp [coming, pending, rest]
  | returns => rfl
  | waits => rfl
  | ends running replayed opened sentinel => simp [coming, pending, finish, sentinel]
  | skips running replayed opened next seen =>
      exact absurd seen (notMem_yieldedIds known distinct (by simp [pending, next]))
  | yields running replayed opened next unseen => simp [coming, pending, replayed, next]

theorem knownIds_consume (known : subscription.KnownIds) : subscription.consume.KnownIds := by
  have advance := advance_consume subscription
  generalize subscription.consume = after at advance
  cases advance with
  | idle => exact known
  | replays running rest =>
      intro id member
      rcases List.mem_append.mp member with old | new
      · obtain ⟨evt, evtMember, evtId⟩ := known id old
        exact ⟨evt, List.mem_append_left _ evtMember, evtId⟩
      · exact ⟨_, List.mem_append_right _ (List.mem_singleton_self _),
          (List.mem_singleton.mp new).symm⟩
  | returns => exact known
  | waits => exact known
  | ends => exact known
  | skips => exact known
  | yields running replayed opened next unseen =>
      intro id member
      obtain ⟨evt, evtMember, evtId⟩ := known id member
      exact ⟨evt, List.mem_append_left _ evtMember, evtId⟩

theorem queue_consume (subscription : Subscription Data) :
    subscription.consume.queue <:+ subscription.queue ∧
      (subscription.consume.registered = true → subscription.registered = true) := by
  have advance := advance_consume subscription
  generalize subscription.consume = after at advance
  cases advance with
  | idle => exact ⟨List.suffix_refl _, id⟩
  | replays => exact ⟨List.suffix_refl _, id⟩
  | returns => exact ⟨List.suffix_refl _, by simp [finish]⟩
  | waits => exact ⟨List.suffix_refl _, id⟩
  | ends running replayed opened sentinel =>
      exact ⟨by simp [sentinel], by simp [finish]⟩
  | skips running replayed opened next => exact ⟨by simp [next], id⟩
  | yields running replayed opened next => exact ⟨by simp [next], id⟩

end Subscription

namespace EventBroker

def Overflows (broker : EventBroker Data) (subscription : Subscription Data) :
    Action Data → Prop
  | .publish _ | .close =>
      broker.closed = false ∧ subscription.registered = true ∧
        QueueFull broker.listenerQueueMaxsize subscription.queue
  | .subscribe _ | .consume _ | .leave _ => False

/-- A step overflows the subscription at an index only if the queue holds a
single item or nothing has been or will be yielded before the dropped one. -/
def HarmlessAt (index : Nat) (broker : EventBroker Data) (action : Action Data) : Prop :=
  ∀ subscription, broker.subscriptions[index]? = some subscription →
    broker.Overflows subscription action →
      broker.listenerQueueMaxsize = 1 ∨
        subscription.yielded = [] ∧ subscription.replay = []

/-- What a subscription yields is a contiguous part of what was published; while
it is registered, the end of it. -/
structure Gapless (maxsize : Nat) (past : List (BrokeredEvent Data))
    (subscription : Subscription Data) : Prop where
  contiguous : subscription.coming <:+: past
  current : subscription.registered = true → subscription.coming <:+ past
  bounded : subscription.registered = true → 0 < maxsize →
    subscription.queue.length ≤ maxsize
  known : subscription.KnownIds

namespace Gapless

variable {maxsize : Nat} {past : List (BrokeredEvent Data)} {subscription : Subscription Data}

theorem start (closed : Bool) {buffer : List (BrokeredEvent Data)} (suffix : buffer <:+ past)
    (afterId : Option String) :
    Gapless maxsize past (Subscription.start maxsize closed buffer afterId) where
  contiguous := by
    rw [Subscription.coming_start]
    exact ((sliceEventsAfter_suffix afterId buffer).trans suffix).isInfix
  current _ := by
    rw [Subscription.coming_start]
    exact (sliceEventsAfter_suffix afterId buffer).trans suffix
  bounded registered _ := by
    cases closed with
    | true => simp [Subscription.start] at registered
    | false => exact Nat.zero_le _
  known id member := by simp [Subscription.start] at member

theorem extend (gapless : Gapless maxsize past subscription)
    (unregistered : subscription.registered = false) (more : List (BrokeredEvent Data)) :
    Gapless maxsize (past ++ more) subscription where
  contiguous := gapless.contiguous.trans (List.prefix_append _ _).isInfix
  current registered := by simp [unregistered] at registered
  bounded registered := by simp [unregistered] at registered
  known := gapless.known

theorem consume (gapless : Gapless maxsize past subscription)
    (distinct : (past.map BrokeredEvent.id).Nodup) :
    Gapless maxsize past subscription.consume := by
  have coming := Subscription.coming_consume gapless.known
    (distinct.sublist (gapless.contiguous.sublist.map _))
  have queue := Subscription.queue_consume subscription
  exact
    { contiguous := coming ▸ gapless.contiguous
      current := fun registered => coming ▸ gapless.current (queue.2 registered)
      bounded := fun registered limited =>
        (queue.1.length_le).trans (gapless.bounded (queue.2 registered) limited)
      known := Subscription.knownIds_consume gapless.known }

theorem leave (gapless : Gapless maxsize past subscription) :
    Gapless maxsize past subscription.leave := by
  unfold Subscription.leave
  split
  · exact
      { contiguous := gapless.contiguous
        current := fun registered => by simp at registered
        bounded := fun registered => by simp at registered
        known := gapless.known }
  · exact gapless
  · exact gapless

/-- A disconnected or closed listener: what its queue held is kept except for
the oldest item, which makes room for the sentinel. -/
theorem disconnect (gapless : Gapless maxsize past subscription)
    (registered : subscription.registered = true) {queue : List (Option (BrokeredEvent Data))}
    (kept : queue.reduceOption = subscription.queue.reduceOption ∨
      queue.reduceOption <:+ subscription.queue.reduceOption ∧
        subscription.yielded = [] ∧ subscription.replay = [] ∨
      queue.reduceOption = []) :
    Gapless maxsize past
      { subscription with
        registered := false
        queue := queue } where
  contiguous := by
    rcases kept with same | ⟨shorter, yielded, replay⟩ | emptied
    · simpa [Subscription.coming, Subscription.pending, same] using gapless.contiguous
    · have suffix := gapless.current registered
      simp only [Subscription.coming, Subscription.pending, yielded, replay,
        List.nil_append] at suffix ⊢
      exact (shorter.trans suffix).isInfix
    · refine List.IsInfix.trans (List.IsPrefix.isInfix ?_) gapless.contiguous
      simp only [Subscription.coming, Subscription.pending, emptied, List.append_nil]
      exact List.prefix_append_right_inj _ |>.mpr (List.prefix_append _ _)
  current impossible := by simp at impossible
  bounded impossible := by simp at impossible
  known := gapless.known

theorem deliver (gapless : Gapless maxsize past subscription)
    (registered : subscription.registered = true)
    (room : ¬ QueueFull maxsize subscription.queue) (evt : BrokeredEvent Data) :
    Gapless maxsize (past ++ [evt])
      { subscription with queue := subscription.queue ++ [some evt] } := by
  have coming : Subscription.coming
      { subscription with queue := subscription.queue ++ [some evt] } =
        subscription.coming ++ [evt] := by
    simp [Subscription.coming, Subscription.pending, List.reduceOption_append]
  have suffix : subscription.coming ++ [evt] <:+ past ++ [evt] :=
    (List.suffix_append_inj_of_length_eq rfl).mpr ⟨gapless.current registered, rfl⟩
  exact
    { contiguous := coming ▸ suffix.isInfix
      current := fun _ => coming ▸ suffix
      bounded := fun _ limited => by
        have short := Nat.lt_of_not_le fun long => room ⟨limited, long⟩
        rw [List.length_append, List.length_singleton]
        exact short
      known := gapless.known }

/-- A put, of an event or of the sentinel, that meets a full queue harmlessly. -/
theorem overflow (gapless : Gapless maxsize past subscription)
    (registered : subscription.registered = true)
    (full : QueueFull maxsize subscription.queue)
    (harmless : maxsize = 1 ∨ subscription.yielded = [] ∧ subscription.replay = []) :
    Gapless maxsize past
      { subscription with
        registered := false
        queue := subscription.queue.tail ++ [none] } := by
  refine gapless.disconnect registered ?_
  have kept : (subscription.queue.tail ++ [none]).reduceOption =
      subscription.queue.tail.reduceOption := by
    simp [List.reduceOption_append]
  rw [kept]
  rcases harmless with single | ⟨yielded, replay⟩
  · have short := gapless.bounded registered full.1
    have tail : subscription.queue.tail = [] := by
      rw [← List.length_eq_zero_iff, List.length_tail]
      omega
    simp [tail]
  · refine Or.inr (Or.inl ⟨?_, yielded, replay⟩)
    cases subscription.queue with
    | nil => exact List.suffix_refl _
    | cons item queue =>
        cases item with
        | none => simp
        | some evt => simp

end Gapless

theorem gapless_react {broker : EventBroker Data} {index : Nat} {action : Action Data}
    {past : List (BrokeredEvent Data)} {subscription : Subscription Data}
    (gapless : Gapless broker.listenerQueueMaxsize past subscription)
    (distinct : (past.map BrokeredEvent.id).Nodup)
    (harmless : broker.Overflows subscription action →
      broker.listenerQueueMaxsize = 1 ∨
        subscription.yielded = [] ∧ subscription.replay = []) :
    Gapless broker.listenerQueueMaxsize (past ++ broker.published action)
      (broker.react index subscription action) := by
  have still : ∀ other, Gapless broker.listenerQueueMaxsize past other →
      Gapless broker.listenerQueueMaxsize (past ++ []) other := by
    simp
  cases action with
  | publish evt =>
      cases closed : broker.closed with
      | true => simpa [react, published, closed] using gapless
      | false =>
          cases registered : subscription.registered with
          | false =>
              simpa [react, published, closed, Subscription.deliver, registered] using
                gapless.extend registered [evt]
          | true =>
              by_cases full : QueueFull broker.listenerQueueMaxsize subscription.queue
              · have short := gapless.bounded registered full.1
                simp only [react, published, closed, Bool.false_eq_true, if_false,
                  Subscription.deliver_of_full registered full short]
                exact (gapless.overflow registered full
                  (harmless ⟨closed, registered, full⟩)).extend rfl [evt]
              · simp only [react, published, closed, Bool.false_eq_true, if_false,
                  Subscription.deliver_of_room registered full]
                exact gapless.deliver registered full evt
  | close =>
      refine still _ ?_
      cases closed : broker.closed with
      | true => simpa [react, closed] using gapless
      | false =>
          cases registered : subscription.registered with
          | false =>
              simpa [react, closed, Subscription.signalClose, registered] using gapless
          | true =>
              by_cases full : QueueFull broker.listenerQueueMaxsize subscription.queue
              · have short := gapless.bounded registered full.1
                simp only [react, closed, Bool.false_eq_true, if_false,
                  Subscription.signalClose_of_full registered full short]
                exact gapless.overflow registered full (harmless ⟨closed, registered, full⟩)
              · simp only [react, closed, Bool.false_eq_true, if_false,
                  Subscription.signalClose_of_room registered full]
                exact gapless.disconnect registered
                  (Or.inl (by simp [List.reduceOption_append]))
  | subscribe afterId => exact still _ gapless
  | consume other =>
      refine still _ ?_
      by_cases same : other = index
      · simpa [react, same] using gapless.consume distinct
      · simpa [react, same] using gapless
  | leave other =>
      refine still _ ?_
      by_cases same : other = index
      · simpa [react, same] using gapless.leave
      · simpa [react, same] using gapless

structure GaplessAt (index : Nat) (past : List (BrokeredEvent Data))
    (broker : EventBroker Data) : Prop where
  buffer : broker.buffer <:+ past
  gapless : ∀ subscription, broker.subscriptions[index]? = some subscription →
    Gapless broker.listenerQueueMaxsize past subscription

theorem GaplessAt.step {index : Nat} {past : List (BrokeredEvent Data)}
    {broker : EventBroker Data} (gaplessAt : GaplessAt index past broker)
    (distinct : (past.map BrokeredEvent.id).Nodup) {action : Action Data}
    (harmless : HarmlessAt index broker action) :
    GaplessAt index (past ++ broker.published action) (broker.step action) where
  buffer := buffer_step gaplessAt.buffer action
  gapless after found := by
    rw [listenerQueueMaxsize_step]
    rcases step_cases found with ⟨subscription, before, rfl⟩ | ⟨afterId, rfl, -, rfl⟩
    · exact gapless_react (gaplessAt.gapless _ before) distinct (harmless _ before)
    · simpa [published] using Gapless.start broker.closed gaplessAt.buffer afterId

theorem gaplessAt_run {bufferSize maxsize index : Nat} {actions : List (Action Data)}
    (harmless : StepRuns.EveryStep step (HarmlessAt index) (create bufferSize maxsize) actions)
    (distinct : ((publishedBy (create bufferSize maxsize) actions).map
      BrokeredEvent.id).Nodup) :
    GaplessAt index (publishedBy (create bufferSize maxsize) actions)
      (run (create bufferSize maxsize) actions) := by
  have initial : GaplessAt index ([] : List (BrokeredEvent Data))
      (create bufferSize maxsize) :=
    ⟨List.suffix_refl _, by simp [create]⟩
  have preserved := StepRuns.run_output_invariant published
    (fun past broker => (past.map BrokeredEvent.id).Nodup → GaplessAt index past broker)
    (fun past broker action allowed gaplessAt nodup =>
      have earlier := nodup.sublist ((List.sublist_append_left past _).map _)
      (gaplessAt earlier).step earlier allowed)
    (fun _ => initial) harmless
  exact preserved distinct

/-- In every run in which no put drops an event between what a subscriber has
coming, the subscriber yields a contiguous segment of the published events,
and the buffer after the last yielded one holds exactly what follows it. -/
theorem yielded_contiguous {bufferSize maxsize index : Nat} {actions : List (Action Data)}
    (distinct : ((publishedBy (create bufferSize maxsize) actions).map
      BrokeredEvent.id).Nodup)
    (harmless : StepRuns.EveryStep step (HarmlessAt index) (create bufferSize maxsize) actions)
    {subscription : Subscription Data}
    (found : (run (create bufferSize maxsize) actions).subscriptions[index]? =
      some subscription) :
    ∃ older newer, publishedBy (create bufferSize maxsize) actions =
        older ++ subscription.yielded ++ newer ∧
      ∀ last, subscription.yielded.getLast? = some last →
        last ∈ (run (create bufferSize maxsize) actions).buffer →
          sliceEventsAfter (some last.id) (run (create bufferSize maxsize) actions).buffer =
            newer := by
  have gaplessAt := gaplessAt_run harmless distinct
  have contiguous := (gaplessAt.gapless _ found).contiguous
  obtain ⟨older, newer, split⟩ := (List.prefix_append subscription.yielded _).isInfix.trans
    contiguous
  refine ⟨older, newer, split.symm, fun last lastEq buffered => ?_⟩
  obtain ⟨yielded, yieldedEq⟩ := List.getLast?_eq_some_iff.mp lastEq
  obtain ⟨front, back, bufferEq⟩ := List.append_of_mem buffered
  obtain ⟨evicted, publishedEq⟩ := gaplessAt.buffer
  rw [bufferEq] at publishedEq ⊢
  rw [yieldedEq] at split
  have nodup : ((evicted ++ front) ++ last :: back).Nodup := by
    rw [List.append_assoc, publishedEq]
    exact List.Nodup.of_map _ distinct
  have apart := List.nodup_append.mp nodup
  have positions : (evicted ++ front) ++ last :: back = (older ++ yielded) ++ last :: newer := by
    rw [List.append_assoc, publishedEq, ← split]
    simp
  obtain ⟨-, -, same⟩ := (List.append_cons_inj_of_notMem
    (fun member => apart.2.2 last member last List.mem_cons_self rfl)
    (List.nodup_cons.mp apart.2.1).1).mp positions
  rw [sliceEventsAfter_append, same]
  intro other member equal
  rw [← publishedEq, List.map_append, List.map_append, List.nodup_append,
    List.nodup_append] at distinct
  exact distinct.2.1.2.2 _ (List.mem_map_of_mem member) _
    (List.mem_map_of_mem List.mem_cons_self) equal

instance (broker : EventBroker Data) (subscription : Subscription Data)
    (action : Action Data) : Decidable (broker.Overflows subscription action) :=
  match action with
  | .publish _ => inferInstanceAs (Decidable (_ ∧ _ ∧ _))
  | .close => inferInstanceAs (Decidable (_ ∧ _ ∧ _))
  | .subscribe _ => inferInstanceAs (Decidable False)
  | .consume _ => inferInstanceAs (Decidable False)
  | .leave _ => inferInstanceAs (Decidable False)

instance (index : Nat) (broker : EventBroker Data) (action : Action Data) :
    Decidable (HarmlessAt index broker action) :=
  match found : broker.subscriptions[index]? with
  | none => isTrue fun _ impossible => absurd (found.symm.trans impossible) (by simp)
  | some subscription =>
      decidable_of_iff
        (broker.Overflows subscription action →
          broker.listenerQueueMaxsize = 1 ∨
            subscription.yielded = [] ∧ subscription.replay = [])
        ⟨fun holds _ other => Option.some.inj (found.symm.trans other) ▸ holds,
          fun harmless => harmless subscription found⟩

def tokenEvent (id : String) : BrokeredEvent Unit :=
  ⟨id, "token", ()⟩

def orderlyRun : List (Action Unit) :=
  [.publish (tokenEvent "r-1"), .subscribe none, .consume 0, .publish (tokenEvent "r-2"),
    .consume 0]

theorem yielded_contiguous_orderlyRun :
    ∃ older newer,
      publishedBy (create 2 2) orderlyRun =
        older ++ [tokenEvent "r-1", tokenEvent "r-2"] ++ newer ∧
      ∀ last, [tokenEvent "r-1", tokenEvent "r-2"].getLast? = some last →
        last ∈ (run (create 2 2) orderlyRun).buffer →
          sliceEventsAfter (some last.id) (run (create 2 2) orderlyRun).buffer = newer :=
  have found : (run (create 2 2) orderlyRun).subscriptions[0]? =
      some ⟨[], true, [], false, ["r-1"], [tokenEvent "r-1", tokenEvent "r-2"], .running⟩ := by
    decide
  yielded_contiguous (by decide) (by decide) found

/-- Three events arrive behind one that was yielded; the queue holds two. -/
def overflowingRun : List (Action Unit) :=
  [.subscribe none, .publish (tokenEvent "r-1"), .consume 0, .publish (tokenEvent "r-2"),
    .publish (tokenEvent "r-3"), .publish (tokenEvent "r-4"), .consume 0]

/-- The older queued event is dropped for the sentinel, the newer one is still
delivered. -/
theorem not_contiguous_overflowingRun :
    ∃ subscription : Subscription Unit,
      (run (create 8 2) overflowingRun).subscriptions[0]? = some subscription ∧
        ((publishedBy (create 8 2) overflowingRun).map BrokeredEvent.id).Nodup ∧
        (∀ evt ∈ publishedBy (create 8 2) overflowingRun, evt.id ≠ "") ∧
        ¬ ∃ older newer, publishedBy (create 8 2) overflowingRun =
          older ++ subscription.yielded ++ newer := by
  refine ⟨⟨[none], false, [], false, [], [tokenEvent "r-1", tokenEvent "r-3"], .running⟩,
    by decide, by decide, by decide, ?_⟩
  rintro ⟨older, newer, split⟩
  have contiguous : [tokenEvent "r-1", tokenEvent "r-3"] <:+:
      publishedBy (create 8 2) overflowingRun := ⟨older, newer, split.symm⟩
  revert contiguous
  decide

end EventBroker

end NaturalMold.Broker

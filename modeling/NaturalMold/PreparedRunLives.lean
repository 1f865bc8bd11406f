import NaturalMold.PreparedRuns

/-! # The life of one prepared run -/

namespace NaturalMold.PreparedRuns

open Conversations (Uuid)
open RivalEvents (Apart)

def history (world : World) (runId : Uuid) : List Event :=
  world.events.filter fun event => event.runId = runId

theorem mem_history {world : World} {runId : Uuid} {event : Event} :
    event ∈ history world runId ↔ event ∈ world.events ∧ event.runId = runId := by
  rw [history, List.mem_filter, decide_eq_true_eq]

/-- Whether more follows from an event than that it has happened. -/
def Event.counts : Event → Bool
  | .staged _ => false
  | .handedOut _ => false
  | .forgotten _ => false
  | .returned _ _ outcome => outcome ≠ .alreadyRemoved
  | _ => true

structure EntrySound (runId : Uuid) (history : List Event) (entry : Entry) : Prop where
  binding : entry.binding.runId = runId
  lease : ∀ lease, entry.lease = some lease → lease.binding = entry.binding ∧
    lease.token = entry.token.text ∧ entry.digest = some lease.digest
  attached : ∀ lease, entry.lease = some lease → .attached lease ∈ history
  unclosed : ∀ lease, entry.lease = some lease → .closeCalled lease ∈ history →
    entry.cleanup = some .closing
  fresh : entry.state = .reserved → entry.lease = none
  ending : .terminalizing runId ∈ history ↔ entry.state = .terminalizing
  cleanup : entry.cleanup = none ↔ entry.state ≠ .terminalizing
  dispatched : .dispatched runId ∈ history →
    entry.state = .dispatching ∨ entry.state = .terminalizing

structure RunSound (runId : Uuid) (entry : Option Entry) (retired : Prop)
    (history : List Event) : Prop where
  apart : Apart Event.rivals history
  opened : entry ≠ none → .reserved runId ∈ history
  begun : .dispatched runId ∈ history ∨ .terminalizing runId ∈ history ∨
    (∃ lease, .attached lease ∈ history) → .reserved runId ∈ history
  kept : .reserved runId ∈ history → entry ≠ none ∨ retired ∨ .forgotten runId ∈ history
  sound : ∀ stored, entry = some stored → EntrySound runId history stored
  staged : ∀ lease, .attached lease ∈ history ∨ .refused lease ∈ history → .staged lease ∈ history
  closes : ∀ lease, .closeCalled lease ∈ history →
    .staged lease ∈ history ∧ lease.hasClose = true
  refused : ∀ lease, .refused lease ∈ history → lease.hasClose = true →
    .closeCalled lease ∈ history
  closed : ∀ lease, .attached lease ∈ history → lease.hasClose = true →
    .closeCalled lease ∈ history ∨
      ∃ stored, entry = some stored ∧ stored.lease = some lease ∧ stored.cleanup ≠ some .closing
  returned : ∀ caller outcome, .returned caller runId outcome ∈ history →
    outcome ≠ .alreadyRemoved → .reserved runId ∈ history ∧ entry = none

variable {runId : Uuid} {entry : Option Entry} {retired : Prop} {history : List Event}

theorem runSound_empty (runId : Uuid) (retired : Prop) : RunSound runId none retired [] where
  apart := RivalEvents.apart_nil
  opened := fun open_ => absurd rfl open_
  begun := by simp
  kept := by simp
  sound := by simp
  staged := by simp
  closes := by simp
  refused := by simp
  closed := by simp
  returned := by simp

namespace RunSound

theorem reserve (sound : RunSound runId none retired history) (fresh : .reserved runId ∉ history)
    {binding : PreparedRunBinding} (same : binding.runId = runId) (token : Token) :
    RunSound runId (some ⟨binding, token, .reserved, none, none, none⟩) retired
      (history ++ [.reserved runId]) := by
  have idle := mt sound.begun fresh
  push Not at idle
  refine ⟨sound.apart.concat _ (by simpa [Event.rivals] using fresh), ?_, ?_, ?_, ?_, ?_,
    ?_, ?_, ?_, ?_⟩
  · simp
  · simp
  · simp
  · rintro stored ⟨⟩
    exact ⟨same, by simp, by simp, by simp, by simp, by simp [idle], by simp, by simp [idle]⟩
  · simpa using sound.staged
  · simpa using sound.closes
  · simpa using sound.refused
  · intro lease attached hasClose
    simp only [List.mem_append, List.mem_singleton, reduceCtorEq, or_false] at attached
    exact absurd attached (idle.2.2 lease)
  · intro caller outcome back real
    simp only [List.mem_append, List.mem_singleton, reduceCtorEq, or_false] at back
    exact absurd (sound.returned caller outcome back real).1 fresh

theorem attach {stored : Entry} (sound : RunSound runId (some stored) retired history)
    (reserved : stored.state = .reserved) {lease : PreparedRunLease}
    (binding : lease.binding = stored.binding) (token : lease.token = stored.token.text)
    (unstaged : lease.hasClose = true → .staged lease ∉ history) :
    RunSound runId
      (some { stored with
        lease := some lease, digest := some lease.digest, state := .pendingCommit }) retired
      (history ++ [.staged lease, .attached lease]) := by
  have here := sound.sound stored rfl
  have unclosed : .closeCalled lease ∉ history := fun closed =>
    unstaged (sound.closes lease closed).2 (sound.closes lease closed).1
  have opened := sound.opened (Option.some_ne_none stored)
  refine ⟨?_, ?_, ?_, ?_, ?_, ?_, ?_, ?_, ?_, ?_⟩
  · exact sound.apart.append_of_free (by simp [Event.rivals])
  · simp [opened]
  · simp [opened]
  · simp
  · rintro _ ⟨⟩
    refine ⟨here.binding, ?_, ?_, ?_, ?_, ?_, ?_, ?_⟩
    · rintro _ ⟨⟩
      exact ⟨binding, token, rfl⟩
    · rintro _ ⟨⟩
      simp
    · rintro _ ⟨⟩ closed
      exact absurd (by simpa using closed) unclosed
    · simp
    · simpa [reserved] using here.ending
    · simpa [reserved] using here.cleanup
    · simpa [reserved] using here.dispatched
  · intro other
    simp only [List.mem_append, List.mem_cons, List.not_mem_nil, reduceCtorEq, or_false, false_or,
      Event.attached.injEq, Event.staged.injEq]
    rintro ((old | rfl) | refused)
    · exact Or.inl (sound.staged other (Or.inl old))
    · exact Or.inr rfl
    · exact Or.inl (sound.staged other (Or.inr refused))
  · intro other closed
    simp only [List.mem_append, List.mem_cons, List.not_mem_nil, reduceCtorEq, or_false]
      at closed ⊢
    exact ⟨Or.inl (sound.closes other closed).1, (sound.closes other closed).2⟩
  · simpa using sound.refused
  · intro other
    simp only [List.mem_append, List.mem_cons, List.not_mem_nil, reduceCtorEq, or_false, false_or,
      Event.attached.injEq]
    rintro (old | rfl) hasClose
    · rcases sound.closed other old hasClose with closed | ⟨_, ⟨⟩, held, -⟩
      · exact Or.inl closed
      · rw [here.fresh reserved] at held
        cases held
    · refine Or.inr ⟨_, rfl, rfl, ?_⟩
      simp [here.cleanup.mpr (by simp [reserved])]
  · intro caller outcome back real
    simp only [List.mem_append, List.mem_cons, List.not_mem_nil, reduceCtorEq, or_false] at back
    cases (sound.returned caller outcome back real).2

/-- Events that change nothing for the run happen, and its id may leave the retired ones. -/
theorem grow (sound : RunSound runId entry retired history) {retired' : Prop}
    {later : List Event} (apart : Apart Event.rivals later)
    (kept : ∀ event ∈ history, event ∈ later)
    (old : ∀ event ∈ later, event.counts = true → event ∈ history)
    (forgets : retired → retired' ∨ .forgotten runId ∈ later) :
    RunSound runId entry retired' later where
  apart := apart
  opened := fun open_ => kept _ (sound.opened open_)
  begun := by
    rintro (dispatched | ending | ⟨lease, attached⟩)
    · exact kept _ (sound.begun (Or.inl (old _ dispatched rfl)))
    · exact kept _ (sound.begun (Or.inr (Or.inl (old _ ending rfl))))
    · exact kept _ (sound.begun (Or.inr (Or.inr ⟨lease, old _ attached rfl⟩)))
  kept := by
    intro reserved
    rcases sound.kept (old _ reserved rfl) with open_ | known | forgotten
    · exact Or.inl open_
    · exact Or.inr (forgets known)
    · exact Or.inr (Or.inr (kept _ forgotten))
  sound := by
    intro stored same
    have here := sound.sound stored same
    exact ⟨here.binding, here.lease, fun lease held => kept _ (here.attached lease held),
      fun lease held closed => here.unclosed lease held (old _ closed rfl), here.fresh,
      ⟨fun ending => here.ending.mp (old _ ending rfl), fun ending =>
        kept _ (here.ending.mpr ending)⟩,
      here.cleanup, fun dispatched => here.dispatched (old _ dispatched rfl)⟩
  staged := by
    rintro lease (attached | refused)
    · exact kept _ (sound.staged lease (Or.inl (old _ attached rfl)))
    · exact kept _ (sound.staged lease (Or.inr (old _ refused rfl)))
  closes := fun lease closed => (sound.closes lease (old _ closed rfl)).imp_left (kept _)
  refused := fun lease refused hasClose => kept _ (sound.refused lease (old _ refused rfl) hasClose)
  closed := fun lease attached hasClose =>
    (sound.closed lease (old _ attached rfl) hasClose).imp_left (kept _)
  returned := fun caller outcome back real =>
    (sound.returned caller outcome (old _ back (decide_eq_true real)) real).imp_left (kept _)

theorem emit (sound : RunSound runId entry retired history) (event : Event)
    (idle : event.counts = false) (free : ∀ rival ∈ event.rivals, rival ∉ history) :
    RunSound runId entry retired (history ++ [event]) := by
  refine sound.grow (sound.apart.concat _ free) (fun _ => List.mem_append_left _) ?_ Or.inl
  intro other member counts
  rcases List.mem_append.mp member with old | new
  · exact old
  · rw [List.mem_singleton.mp new, idle] at counts
    cases counts

theorem close (sound : RunSound runId entry retired history) {lease : PreparedRunLease}
    (staged : .staged lease ∈ history) (hasClose : lease.hasClose = true)
    (unclosed : .closeCalled lease ∉ history)
    (unheld : ∀ stored, entry = some stored → stored.lease ≠ some lease) :
    RunSound runId entry retired (history ++ [.closeCalled lease]) where
  apart := sound.apart.concat _ (by simpa [Event.rivals] using unclosed)
  opened := fun open_ => List.mem_append_left _ (sound.opened open_)
  begun := by simpa using sound.begun
  kept := by simpa using sound.kept
  sound := by
    intro stored same
    have here := sound.sound stored same
    refine ⟨here.binding, here.lease, by simpa using here.attached, ?_, here.fresh,
      by simpa using here.ending, here.cleanup, by simpa using here.dispatched⟩
    intro other held closed
    simp only [List.mem_append, List.mem_singleton, Event.closeCalled.injEq] at closed
    rcases closed with old | rfl
    · exact here.unclosed other held old
    · exact absurd held (unheld stored same)
  staged := by simpa using sound.staged
  closes := by
    intro other closed
    simp only [List.mem_append, List.mem_singleton, Event.closeCalled.injEq, reduceCtorEq,
      or_false] at closed ⊢
    rcases closed with old | rfl
    · exact sound.closes other old
    · exact ⟨staged, hasClose⟩
  refused := fun other refused owns =>
    List.mem_append_left _ (sound.refused other (by simpa using refused) owns)
  closed := fun other attached owns =>
    (sound.closed other (by simpa using attached) owns).imp_left (List.mem_append_left _)
  returned := by simpa using sound.returned

theorem refuse (sound : RunSound runId entry retired history) (lease : PreparedRunLease)
    (staged : .staged lease ∈ history)
    (closed : lease.hasClose = true → .closeCalled lease ∈ history) :
    RunSound runId entry retired (history ++ [.refused lease]) where
  apart := sound.apart.concat _ (by simp [Event.rivals])
  opened := fun open_ => List.mem_append_left _ (sound.opened open_)
  begun := by simpa using sound.begun
  kept := by simpa using sound.kept
  sound := by
    intro stored same
    have here := sound.sound stored same
    exact ⟨here.binding, here.lease, by simpa using here.attached, by simpa using here.unclosed,
      here.fresh, by simpa using here.ending, here.cleanup, by simpa using here.dispatched⟩
  staged := by
    intro other
    simp only [List.mem_append, List.mem_singleton, Event.refused.injEq, reduceCtorEq, or_false]
    rintro (attached | old | rfl)
    · exact sound.staged other (Or.inl attached)
    · exact sound.staged other (Or.inr old)
    · exact staged
  closes := by simpa using sound.closes
  refused := by
    intro other
    simp only [List.mem_append, List.mem_singleton, Event.refused.injEq, reduceCtorEq, or_false]
    rintro (old | rfl) hasClose
    · exact sound.refused other old hasClose
    · exact closed hasClose
  closed := by simpa using sound.closed
  returned := by simpa using sound.returned

theorem restate {stored : Entry} (sound : RunSound runId (some stored) retired history)
    (state : LeaseState) (open_ : stored.state ≠ .terminalizing) (running : state ≠ .terminalizing)
    (fresh : state = .reserved → stored.state = .reserved)
    (dispatched : stored.state = .dispatching → state = .dispatching) :
    RunSound runId (some { stored with state := state }) retired history := by
  have here := sound.sound stored rfl
  refine ⟨sound.apart, fun _ => sound.opened (Option.some_ne_none stored), sound.begun, ?_, ?_,
    sound.staged, sound.closes, sound.refused, ?_, ?_⟩
  · simp
  · rintro _ ⟨⟩
    refine ⟨here.binding, here.lease, here.attached, here.unclosed, fun new =>
      here.fresh (fresh new), ?_, ?_, ?_⟩
    · rw [here.ending]
      exact iff_of_false open_ running
    · exact iff_of_true (here.cleanup.mpr open_) running
    · intro before
      exact Or.inl (dispatched ((here.dispatched before).resolve_right open_))
  · intro lease attached hasClose
    rcases sound.closed lease attached hasClose with closed | ⟨_, ⟨⟩, held, cleanup⟩
    · exact Or.inl closed
    · exact Or.inr ⟨_, rfl, held, cleanup⟩
  · intro caller outcome back real
    cases (sound.returned caller outcome back real).2

/-- The runner takes an active lease. -/
theorem dispatch {stored : Entry} (sound : RunSound runId (some stored) retired history)
    (active : stored.state = .active) :
    RunSound runId (some { stored with state := .dispatching }) retired
      (history ++ [.dispatched runId]) := by
  have here := sound.sound stored rfl
  have opened := sound.opened (Option.some_ne_none stored)
  have undispatched : .dispatched runId ∉ history := fun dispatched => by
    have begun := here.dispatched dispatched
    simp [active] at begun
  have running : .terminalizing runId ∉ history := by simp [here.ending, active]
  refine ⟨sound.apart.concat _ (by simp [Event.rivals, undispatched, running]), ?_, ?_, ?_,
    ?_, ?_, ?_, ?_, ?_, ?_⟩
  · simp [opened]
  · simp [opened]
  · simp
  · rintro _ ⟨⟩
    refine ⟨here.binding, here.lease, by simpa using here.attached, by simpa using here.unclosed,
      by simp, by simpa using running, ?_, by simp⟩
    exact iff_of_true (here.cleanup.mpr (by simp [active])) (by simp)
  · simpa using sound.staged
  · simpa using sound.closes
  · simpa using sound.refused
  · intro lease attached hasClose
    rcases sound.closed lease (by simpa using attached) hasClose with closed | ⟨_, ⟨⟩, held, idle⟩
    · exact Or.inl (List.mem_append_left _ closed)
    · exact Or.inr ⟨_, rfl, held, idle⟩
  · intro caller outcome back real
    cases (sound.returned caller outcome (by simpa using back) real).2

/-- The end of a run begins. -/
theorem terminalize {stored : Entry} (sound : RunSound runId (some stored) retired history)
    (idle : stored.cleanup = none) :
    RunSound runId
      (some { stored with state := .terminalizing, cleanup := some .scheduled }) retired
      (history ++ [.terminalizing runId]) := by
  have here := sound.sound stored rfl
  have opened := sound.opened (Option.some_ne_none stored)
  refine ⟨sound.apart.concat _ (by simp [Event.rivals]), ?_, ?_, ?_, ?_, ?_, ?_, ?_, ?_,
    ?_⟩
  · simp [opened]
  · simp [opened]
  · simp
  · rintro _ ⟨⟩
    refine ⟨here.binding, here.lease, by simpa using here.attached, ?_, by simp, by simp, by simp,
      by simp⟩
    intro lease held closed
    have closing := here.unclosed lease held (by simpa using closed)
    rw [idle] at closing
    cases closing
  · simpa using sound.staged
  · simpa using sound.closes
  · simpa using sound.refused
  · intro lease attached hasClose
    rcases sound.closed lease (by simpa using attached) hasClose with closed | ⟨_, ⟨⟩, held, -⟩
    · exact Or.inl (List.mem_append_left _ closed)
    · exact Or.inr ⟨_, rfl, held, by simp⟩
  · intro caller outcome back real
    cases (sound.returned caller outcome (by simpa using back) real).2

theorem startClose {stored : Entry} (sound : RunSound runId (some stored) retired history)
    (due : stored.cleanup = some .scheduled) {lease : PreparedRunLease}
    (held : stored.lease = some lease) (hasClose : lease.hasClose = true) :
    RunSound runId (some { stored with cleanup := some .closing }) retired
      (history ++ [.closeCalled lease]) := by
  have here := sound.sound stored rfl
  have opened := sound.opened (Option.some_ne_none stored)
  have unclosed : .closeCalled lease ∉ history := fun closed => by
    have closing := here.unclosed lease held closed
    rw [due] at closing
    cases closing
  have ending : stored.state = .terminalizing := by
    by_contra running
    have none := here.cleanup.mpr running
    rw [due] at none
    cases none
  refine ⟨sound.apart.concat _ (by simpa [Event.rivals] using unclosed), ?_, ?_, ?_, ?_,
    ?_, ?_, ?_, ?_, ?_⟩
  · simp [opened]
  · simp [opened]
  · simp
  · rintro _ ⟨⟩
    refine ⟨here.binding, here.lease, by simpa using here.attached, fun _ _ _ => rfl, here.fresh,
      by simpa using here.ending, by simp [ending], fun _ => Or.inr ending⟩
  · simpa using sound.staged
  · intro other closed
    simp only [List.mem_append, List.mem_singleton, Event.closeCalled.injEq, reduceCtorEq,
      or_false] at closed ⊢
    rcases closed with old | rfl
    · exact sound.closes other old
    · exact ⟨sound.staged other (Or.inl (here.attached other held)), hasClose⟩
  · intro other refused owns
    exact List.mem_append_left _ (sound.refused other (by simpa using refused) owns)
  · intro other attached owns
    refine Or.inl ?_
    rcases sound.closed other (by simpa using attached) owns with closed | ⟨_, ⟨⟩, same, -⟩
    · exact List.mem_append_left _ closed
    · rw [held] at same
      cases same
      simp
  · intro caller outcome back real
    cases (sound.returned caller outcome (by simpa using back) real).2

theorem remove {stored : Entry} (sound : RunSound runId (some stored) retired history)
    (ending : stored.state = .terminalizing)
    (closed : ∀ lease, stored.lease = some lease → lease.hasClose = true →
      stored.cleanup = some .closing)
    (callers : List ℕ) (outcome : CleanupOutcome) :
    RunSound runId none True
      (history ++ callers.map fun caller => .returned caller runId outcome) := by
  have here := sound.sound stored rfl
  have opened := sound.opened (Option.some_ne_none stored)
  refine ⟨?_, ?_, ?_, ?_, ?_, ?_, ?_, ?_, ?_, ?_⟩
  · refine sound.apart.append_of_free fun event back => ?_
    obtain ⟨caller, -, rfl⟩ := List.mem_map.mp back
    rfl
  · simp
  · simp [opened]
  · simp
  · simp
  · simpa using sound.staged
  · simpa using sound.closes
  · simpa using sound.refused
  · intro lease attached hasClose
    refine Or.inl ?_
    rcases sound.closed lease (by simpa using attached) hasClose with old | ⟨_, ⟨⟩, held, idle⟩
    · exact List.mem_append_left _ old
    · exact absurd (closed lease held hasClose) idle
  · intro _ _ _ _
    exact ⟨List.mem_append_left _ opened, rfl⟩

theorem forget (sound : RunSound runId entry retired history) {retired' : Prop}
    (ids : List Uuid) (forgets : retired → retired' ∨ runId ∈ ids) :
    RunSound runId entry retired'
      (history ++ (ids.map Event.forgotten).filter fun event => event.runId = runId) := by
  have only : ∀ event ∈ (ids.map Event.forgotten).filter fun event => event.runId = runId,
      ∃ other, event = .forgotten other := by
    intro event member
    obtain ⟨other, -, rfl⟩ := List.mem_map.mp (List.mem_of_mem_filter member)
    exact ⟨other, rfl⟩
  refine sound.grow ?_ (fun _ => List.mem_append_left _) ?_ ?_
  · refine sound.apart.append_of_free fun event new => ?_
    obtain ⟨other, rfl⟩ := only event new
    rfl
  · intro event member counts
    rcases List.mem_append.mp member with old | new
    · exact old
    · obtain ⟨other, rfl⟩ := only event new
      cases counts
  · intro known
    refine (forgets known).imp_right fun listed => List.mem_append_right _ ?_
    exact List.mem_filter.mpr ⟨List.mem_map.mpr ⟨runId, listed, rfl⟩, decide_eq_true rfl⟩

end RunSound

end NaturalMold.PreparedRuns

import NaturalMold.FallibleSteps
import NaturalMold.PreparedRunLives
import NaturalMold.StepRuns

/-! # Prepared run leases are single use -/

namespace NaturalMold.PreparedRuns

open Conversations (Uuid)
open CronExpressions (Text)
open RecentKeys (remember)
open StepRuns (run EveryStep)

variable {runId : Uuid} {world : World}

def Sound (world : World) : Prop :=
  ∀ runId, RunSound runId (world.registry.entries runId) (runId ∈ world.registry.retired)
    (PreparedRuns.history world runId)

theorem sound_initial : Sound World.initial := fun runId => runSound_empty runId _

variable {registry : PreparedRunRegistry}

theorem history_append_same {new : List Event} (about : ∀ event ∈ new, event.runId = runId) :
    PreparedRuns.history ⟨registry, world.events ++ new⟩ runId =
      PreparedRuns.history world runId ++ new := by
  rw [PreparedRuns.history, List.filter_append, PreparedRuns.history,
    List.filter_eq_self.mpr fun event member => decide_eq_true (about event member)]

theorem history_append_other {new : List Event} {other : Uuid}
    (about : ∀ event ∈ new, event.runId ≠ other) :
    PreparedRuns.history ⟨registry, world.events ++ new⟩ other =
      PreparedRuns.history world other := by
  have none : (new.filter fun event => event.runId = other) = [] :=
    List.filter_eq_nil_iff.mpr fun event member => by simpa using about event member
  rw [PreparedRuns.history, List.filter_append, none, List.append_nil]
  rfl

/-- A step that concerns one run leaves the others sound. -/
theorem Sound.frame (sound : Sound world) (runId : Uuid) {new : List Event}
    (entries : ∀ other, other ≠ runId → registry.entries other = world.registry.entries other)
    (retired : registry.retired = world.registry.retired)
    (about : ∀ event ∈ new, event.runId = runId)
    (here : RunSound runId (registry.entries runId) (runId ∈ world.registry.retired)
      (PreparedRuns.history world runId ++ new)) : Sound ⟨registry, world.events ++ new⟩ := by
  intro other
  change RunSound other (registry.entries other) (other ∈ registry.retired) _
  rw [retired]
  by_cases same : other = runId
  · subst same
    rw [history_append_same about]
    exact here
  · rw [history_append_other fun event member equal => same (equal.symm.trans (about event member)),
      entries other same]
    exact sound other

/-- A step that leaves the entries alone. -/
theorem Sound.emit (sound : Sound world) (runId : Uuid) {new : List Event}
    (about : ∀ event ∈ new, event.runId = runId)
    (here : RunSound runId (world.registry.entries runId) (runId ∈ world.registry.retired)
      (PreparedRuns.history world runId ++ new)) :
    Sound ⟨world.registry, world.events ++ new⟩ :=
  sound.frame runId (fun _ _ => rfl) rfl about here

theorem Sound.put (sound : Sound world) (runId : Uuid) {entry : Option Entry} {new : List Event}
    (about : ∀ event ∈ new, event.runId = runId)
    (here : RunSound runId entry (runId ∈ world.registry.retired)
      (PreparedRuns.history world runId ++ new)) :
    Sound ⟨world.registry.put runId entry, world.events ++ new⟩ := by
  refine sound.frame runId (fun other different => Function.update_of_ne different _ _) rfl about ?_
  change RunSound runId (Function.update world.registry.entries runId entry runId) _ _
  rwa [Function.update_self]

variable {stored : Entry}

theorem Sound.endCleanup (sound : Sound world) (found : world.registry.entries runId = some stored)
    (ending : stored.state = .terminalizing)
    (closed : ∀ lease, stored.lease = some lease → lease.hasClose = true →
      stored.cleanup = some .closing) (outcome : CleanupOutcome) :
    Sound (world.endCleanup runId outcome) := by
  intro other
  have entries : (world.endCleanup runId outcome).registry.entries =
      Function.update world.registry.entries runId none := rfl
  have retired : (world.endCleanup runId outcome).registry.retired =
      (remember world.registry.retired runId).rtake retiredLimit := by
    simp only [World.endCleanup, PreparedRunRegistry.remove, PreparedRunRegistry.retire,
      PreparedRunRegistry.put]
  have events : PreparedRuns.history (world.endCleanup runId outcome) other =
      PreparedRuns.history world other ++
        ((((world.registry.waiters.filter fun waiter => waiter.2 = runId).map (·.1)).map
          fun caller => Event.returned caller runId outcome).filter fun event =>
            event.runId = other) ++
        (((remember world.registry.retired runId).rdrop retiredLimit).map
          Event.forgotten).filter fun event => event.runId = other := by
    rw [PreparedRuns.history, World.endCleanup, List.filter_append, List.filter_append,
      List.map_map]
    rfl
  have leaves : other ∈ remember world.registry.retired runId →
      other ∈ (world.endCleanup runId outcome).registry.retired ∨
        other ∈ (remember world.registry.retired runId).rdrop retiredLimit := by
    intro member
    rw [retired]
    exact (RecentKeys.mem_rdrop_or_mem_rtake _ member).symm
  rw [events, entries]
  by_cases same : other = runId
  · subst same
    have here := sound other
    rw [found] at here
    rw [Function.update_self, List.filter_eq_self.mpr ?_]
    · exact (here.remove ending closed _ outcome).forget _
        fun _ => leaves (RecentKeys.mem_remember_self _ _)
    · intro event member
      obtain ⟨caller, -, rfl⟩ := List.mem_map.mp member
      exact decide_eq_true rfl
  · rw [Function.update_of_ne same, List.filter_eq_nil_iff.mpr ?_, List.append_nil]
    · exact (sound other).forget _ fun known => leaves (RecentKeys.mem_remember_of_mem known)
    · intro event member
      obtain ⟨caller, -, rfl⟩ := List.mem_map.mp member
      simp [Event.runId, Ne.symm same]

theorem compareDigest_eq_ok_true {left right : Text}
    (same : compareDigest left right = .ok true) : left = right := by
  rw [compareDigest] at same
  split at same
  · rw [Except.ok.injEq, beq_iff_eq] at same
    exact same
  · cases same

theorem entry_eq_ok {states : LeaseState → Bool}
    (found : registry.entry runId states = .ok stored) :
    registry.entries runId = some stored ∧ states stored.state = true := by
  rw [PreparedRunRegistry.entry] at found
  split at found
  · rename_i same
    split at found
    · rename_i holds
      cases found
      exact ⟨same, holds⟩
    · cases found
  · cases found

variable {token digest : Text} {lease : PreparedRunLease}

theorem requireExact_eq_ok
    (exact_ : PreparedRunRegistry.requireExact stored token digest = .ok lease) :
    stored.lease = some lease ∧ stored.token.text = token ∧ stored.digest = some digest := by
  rw [PreparedRunRegistry.requireExact] at exact_
  split at exact_
  · rename_i held kept
    rw [Fallible.bind_eq_ok] at exact_
    obtain ⟨sameToken, tokens, rest⟩ := exact_
    split at rest
    · rename_i yes
      rw [Fallible.bind_eq_ok] at rest
      obtain ⟨sameDigest, digests, rest⟩ := rest
      split at rest
      · rename_i also
        cases rest
        rw [yes] at tokens
        rw [also] at digests
        exact ⟨held, compareDigest_eq_ok_true tokens, compareDigest_eq_ok_true digests ▸ kept⟩
      · cases rest
    · cases rest
  · cases exact_

theorem activate_eq_ok {after : PreparedRunRegistry}
    (active : registry.activate runId token digest = .ok after) :
    ∃ stored, registry.entries runId = some stored ∧ stored.state = .pendingCommit ∧
      after = registry.put runId (some { stored with state := .active }) := by
  rw [PreparedRunRegistry.activate, Fallible.bind_eq_ok] at active
  obtain ⟨stored, found, rest⟩ := active
  rw [Fallible.bind_eq_ok] at rest
  obtain ⟨lease, -, same⟩ := rest
  obtain ⟨known, pending⟩ := entry_eq_ok found
  exact ⟨stored, known, of_decide_eq_true pending, (Except.ok.inj same).symm⟩

variable {binding : PreparedRunBinding}

theorem acquire_eq_ok (acquired : registry.acquire binding token digest = .ok lease) :
    ∃ stored, registry.entries binding.runId = some stored ∧ stored.state.live = true ∧
      stored.binding = binding ∧ stored.lease = some lease ∧ stored.token.text = token ∧
      stored.digest = some digest := by
  rw [PreparedRunRegistry.acquire, Fallible.bind_eq_ok] at acquired
  obtain ⟨stored, found, rest⟩ := acquired
  obtain ⟨known, live⟩ := entry_eq_ok found
  split at rest
  · cases rest
  · rename_i same
    exact ⟨stored, known, live, not_not.mp same, requireExact_eq_ok rest⟩

theorem claimDispatch_eq_ok {after : PreparedRunRegistry}
    (claimed : registry.claimDispatch binding token digest = .ok (lease, after)) :
    ∃ stored, registry.entries binding.runId = some stored ∧ stored.state = .active ∧
      stored.binding = binding ∧ stored.lease = some lease ∧ stored.token.text = token ∧
      stored.digest = some digest ∧
      after = registry.put binding.runId (some { stored with state := .dispatching }) := by
  rw [PreparedRunRegistry.claimDispatch, Fallible.bind_eq_ok] at claimed
  obtain ⟨stored, found, rest⟩ := claimed
  obtain ⟨known, active⟩ := entry_eq_ok found
  split at rest
  · cases rest
  · rename_i same
    rw [Fallible.bind_eq_ok] at rest
    obtain ⟨held, exact_, equal⟩ := rest
    cases equal
    obtain ⟨leased, tokens, digests⟩ := requireExact_eq_ok exact_
    exact ⟨stored, known, of_decide_eq_true active, not_not.mp same, leased, tokens, digests, rfl⟩

theorem stageCode_eq_ok_none (code : registry.stageCode lease = .ok none) :
    ∃ stored, registry.entries lease.runId = some stored ∧ stored.state = .reserved ∧
      lease.binding = stored.binding ∧ lease.token = stored.token.text := by
  rw [PreparedRunRegistry.stageCode] at code
  split at code
  · cases code
  · rename_i stored found
    split at code
    · cases code
    · rename_i fits
      rw [Bool.or_eq_true, not_or, decide_eq_true_eq, decide_eq_true_eq, not_not, not_not] at fits
      split at code
      · rename_i same compared
        cases same with
        | true =>
            exact ⟨stored, found, fits.1, fits.2.symm, (compareDigest_eq_ok_true compared).symm⟩
        | false => cases code
      · cases code

/-- Only the comparison of the tokens fails. -/
theorem stageCode_eq_error {error : LeaseError} (code : registry.stageCode lease = .error error) :
    ∃ stored, registry.entries lease.runId = some stored ∧ stored.state = .reserved ∧
      stored.binding = lease.binding ∧ isAscii lease.token ≠ true := by
  rw [PreparedRunRegistry.stageCode] at code
  split at code
  · cases code
  · rename_i stored found
    split at code
    · cases code
    · rename_i fits
      rw [Bool.or_eq_true, not_or, decide_eq_true_eq, decide_eq_true_eq, not_not, not_not] at fits
      split at code
      · cases code
      · rename_i compared
        refine ⟨stored, found, fits.1, fits.2, fun ascii => ?_⟩
        rw [compareDigest, stored.token.ascii, ascii] at compared
        cases compared

theorem Sound.reserve (sound : Sound world) (kept : .forgotten binding.runId ∉ world.events)
    {token : Token} (reserved : world.registry.reserve binding token = .ok registry) :
    Sound ⟨registry, world.events ++ [.reserved binding.runId]⟩ := by
  rw [PreparedRunRegistry.reserve] at reserved
  split at reserved
  · cases reserved
  · rename_i free
    cases reserved
    rw [Bool.or_eq_true, not_or, Bool.not_eq_true, Option.isSome_eq_false_iff,
      Option.isNone_iff_eq_none, List.contains_iff_mem] at free
    have here := sound binding.runId
    rw [free.1] at here
    refine sound.put binding.runId (by simp [Event.runId])
      (here.reserve (fun known => ?_) rfl token)
    rcases here.kept known with open_ | retired | forgotten
    · exact open_ rfl
    · exact free.2 retired
    · exact kept (mem_history.mp forgotten).1

theorem Sound.attach (sound : Sound world)
    (unstaged : lease.hasClose = true → .staged lease ∉ world.events)
    (code : world.registry.stageCode lease = .ok none) :
    Sound ⟨world.registry.attach lease, world.events ++ [.staged lease, .attached lease]⟩ := by
  obtain ⟨stored, found, reserved, binding, token⟩ := stageCode_eq_ok_none code
  have here := sound lease.runId
  rw [found] at here
  rw [PreparedRunRegistry.attach, found]
  exact sound.put lease.runId (by simp [Event.runId])
    (here.attach reserved binding token fun hasClose staged =>
      unstaged hasClose (mem_history.mp staged).1)

theorem Sound.refuse (sound : Sound world) (lease : PreparedRunLease)
    (unstaged : lease.hasClose = true → .staged lease ∉ world.events) :
    Sound ⟨world.registry,
      world.events ++ [.staged lease] ++ World.closeCalls lease ++ [.refused lease]⟩ := by
  have here := (sound lease.runId).emit (.staged lease) rfl (by simp [Event.rivals])
  have staged : .staged lease ∈ PreparedRuns.history world lease.runId ++ [.staged lease] := by simp
  by_cases hasClose : lease.hasClose = true
  · have new : .staged lease ∉ PreparedRuns.history world lease.runId := fun known =>
      unstaged hasClose (mem_history.mp known).1
    have unclosed : .closeCalled lease ∉
        PreparedRuns.history world lease.runId ++ [.staged lease] := fun closed =>
      new ((sound lease.runId).closes lease (by simpa using closed)).1
    have unheld : ∀ stored, world.registry.entries lease.runId = some stored →
        stored.lease ≠ some lease := fun stored found held =>
      new ((sound lease.runId).staged lease
        (Or.inl (((sound lease.runId).sound stored found).attached lease held)))
    have closed := (here.close staged hasClose unclosed unheld).refuse lease (by simp) (by simp)
    rw [World.closeCalls, if_pos hasClose, List.append_assoc, List.append_assoc]
    rw [List.append_assoc, List.append_assoc] at closed
    exact sound.emit lease.runId (by simp [Event.runId]) closed
  · have refused := here.refuse lease staged fun has => absurd has hasClose
    rw [World.closeCalls, if_neg hasClose, List.append_nil, List.append_assoc]
    rw [List.append_assoc] at refused
    exact sound.emit lease.runId (by simp [Event.runId]) refused

theorem Sound.handsOut (sound : Sound world)
    (found : world.registry.entries binding.runId = some stored) (live : stored.state.live = true)
    (same : stored.binding = binding) (held : stored.lease = some lease)
    (tokens : stored.token.text = token) (digests : stored.digest = some digest) :
    HandsOut world binding token digest lease := by
  have here := (sound binding.runId).sound stored found
  obtain ⟨sameBinding, sameToken, sameDigest⟩ := here.lease lease held
  have running : stored.state ≠ .terminalizing := by
    intro ending
    rw [ending] at live
    cases live
  have ofLease : lease.runId = binding.runId := by
    rw [PreparedRunLease.runId, sameBinding, same]
  refine ⟨sameBinding.trans same, sameToken.trans tokens, ?_, ⟨stored, found, live, held⟩, ?_,
    ?_, ?_⟩
  · rw [sameDigest, Option.some.injEq] at digests
    exact digests
  · exact (mem_history.mp (here.attached lease held)).1
  · intro ending
    exact running (here.ending.mp (mem_history.mpr ⟨ending, rfl⟩))
  · intro closed
    have closing := here.unclosed lease held (mem_history.mpr ⟨closed, ofLease⟩)
    rw [here.cleanup.mpr running] at closing
    cases closing

theorem Sound.acquire (sound : Sound world) (handed : HandsOut world binding token digest lease) :
    Sound ⟨world.registry, world.events ++ [.handedOut lease]⟩ := by
  have runId : lease.runId = binding.runId := by rw [PreparedRunLease.runId, handed.binding_eq]
  refine sound.emit lease.runId (by simp [Event.runId]) ((sound lease.runId).emit _ rfl ?_)
  simp only [Event.rivals, List.mem_cons, List.not_mem_nil, or_false, forall_eq_or_imp, forall_eq]
  refine ⟨fun ending => handed.notTerminalizing ?_, fun closed => handed.notClosed ?_⟩
  · rw [← runId]
    exact (mem_history.mp ending).1
  · exact (mem_history.mp closed).1

theorem Sound.claimDispatch (sound : Sound world)
    (claimed : world.registry.claimDispatch binding token digest = .ok (lease, registry)) :
    HandsOut world binding token digest lease ∧ .dispatched binding.runId ∉ world.events ∧
      Sound ⟨registry, world.events ++ [.handedOut lease, .dispatched binding.runId]⟩ := by
  obtain ⟨stored, found, active, same, held, tokens, digests, rfl⟩ := claimDispatch_eq_ok claimed
  have live : stored.state.live = true := by
    rw [active]
    rfl
  have handed := sound.handsOut found live same held tokens digests
  have here := (sound.acquire handed) binding.runId
  have runId : lease.runId = binding.runId := by rw [PreparedRunLease.runId, handed.binding_eq]
  rw [history_append_same (by simp [Event.runId, runId])] at here
  change RunSound _ (world.registry.entries binding.runId) (_ ∈ world.registry.retired) _ at here
  rw [found] at here
  have after := here.dispatch active
  rw [List.append_assoc] at after
  have stands := sound.put binding.runId (by simp [Event.runId, runId]) after
  refine ⟨handed, fun dispatched => ?_, stands⟩
  have begun := ((sound binding.runId).sound stored found).dispatched
    (mem_history.mpr ⟨dispatched, rfl⟩)
  simp [active] at begun

theorem Sound.terminalize (sound : Sound world) (found : world.registry.entries runId = some stored)
    (idle : stored.cleanup = none) :
    Sound ⟨world.registry.put runId
      (some { stored with state := .terminalizing, cleanup := some .scheduled }),
        world.events ++ [.terminalizing runId]⟩ := by
  have here := sound runId
  rw [found] at here
  exact sound.put runId (by simp [Event.runId]) (here.terminalize idle)

/-- Callers that wait say nothing about a run. -/
theorem Sound.wait (sound : Sound world) (waiters : List (ℕ × Uuid)) :
    Sound ⟨{ world.registry with waiters := waiters }, world.events⟩ :=
  sound

theorem Sound.startCleanup (sound : Sound world)
    (found : world.registry.entries runId = some stored) (due : stored.cleanup = some .scheduled) :
    Sound (world.step (.startCleanup runId)) := by
  have here := sound runId
  rw [found] at here
  have ending : stored.state = .terminalizing := by
    by_contra running
    have none := (here.sound stored rfl).cleanup.mpr running
    rw [due] at none
    cases none
  simp only [World.step, found, due, if_true]
  split
  · rename_i unheld
    refine sound.endCleanup found ending (fun lease same => ?_) _
    rw [unheld] at same
    cases same
  · rename_i lease held
    split
    · rename_i hasClose
      have ofRun : lease.runId = runId := by
        rw [PreparedRunLease.runId, ((here.sound stored rfl).lease lease held).1]
        exact (here.sound stored rfl).binding
      exact sound.put runId (by simp [Event.runId, ofRun]) (here.startClose due held hasClose)
    · rename_i noClose
      refine sound.endCleanup found ending (fun other same has => ?_) _
      rw [held, Option.some.injEq] at same
      exact absurd (same ▸ has) noClose

theorem Sound.step (sound : Sound world) {action : Action} (careful : Careful world action) :
    Sound (world.step action) := by
  cases action with
  | reserve binding token =>
      simp only [World.step]
      split
      · rename_i registry reserved
        exact sound.reserve careful reserved
      · exact sound
  | stage lease =>
      simp only [World.step]
      split
      · rename_i code
        exact sound.attach (fun hasClose => (careful hasClose).1) code
      · exact sound.refuse lease fun hasClose => (careful hasClose).1
      · rename_i error code
        -- the comparison fails only where the lease has no `close`
        obtain ⟨stored, found, reserved, same, bad⟩ := stageCode_eq_error code
        have noClose : lease.hasClose ≠ true := fun hasClose =>
          bad ((careful hasClose).2 stored found reserved same)
        have refused := sound.refuse lease fun hasClose => absurd hasClose noClose
        rwa [World.closeCalls, if_neg noClose, List.append_nil, List.append_assoc] at refused
  | activate runId token digest =>
      simp only [World.step]
      split
      · rename_i registry active
        obtain ⟨stored, found, pending, rfl⟩ := activate_eq_ok active
        have here := sound runId
        rw [found] at here
        have active := here.restate .active (by simp [pending]) (by simp) (by simp)
          (by simp [pending])
        rw [← List.append_nil (PreparedRuns.history world runId)] at active
        have after := sound.put runId (by simp) active
        rwa [List.append_nil] at after
      · exact sound
  | acquire binding token digest =>
      simp only [World.step]
      split
      · rename_i lease acquired
        obtain ⟨stored, found, live, same, held, tokens, digests⟩ := acquire_eq_ok acquired
        exact sound.acquire (sound.handsOut found live same held tokens digests)
      · exact sound
  | claimDispatch binding token digest =>
      simp only [World.step]
      split
      · rename_i lease registry claimed
        exact (sound.claimDispatch claimed).2.2
      · exact sound
  | terminalize caller runId =>
      simp only [World.step]
      split
      · exact sound.emit runId (by simp [Event.runId])
          ((sound runId).emit _ rfl (by simp [Event.rivals]))
      · rename_i stored found
        split
        · exact sound.wait _
        · rename_i idle
          rw [Bool.not_eq_true, Option.isSome_eq_false_iff, Option.isNone_iff_eq_none] at idle
          exact (sound.wait _).terminalize found idle
  | cancel caller => exact sound.wait _
  | startCleanup runId =>
      cases found : world.registry.entries runId with
      | none =>
          simp only [World.step, found]
          exact sound
      | some stored =>
          by_cases due : stored.cleanup = some .scheduled
          · exact sound.startCleanup found due
          · simp only [World.step, found, due]
            exact sound
  | endClose runId outcome =>
      simp only [World.step]
      split
      · rename_i stored found
        split
        · rename_i closing
          have here := (sound runId).sound stored found
          have ending : stored.state = .terminalizing := by
            by_contra running
            have none := here.cleanup.mpr running
            rw [closing] at none
            cases none
          exact sound.endCleanup found ending (fun _ _ _ => closing) outcome
        · exact sound
      · exact sound

theorem runId_of_mem_rivals {event rival : Event} (member : rival ∈ event.rivals) :
    rival.runId = event.runId := by
  cases event <;> simp only [Event.rivals, List.mem_cons, List.not_mem_nil, or_false] at member
  case handedOut => rcases member with rfl | rfl <;> rfl
  case dispatched => rcases member with rfl | rfl <;> rfl
  all_goals rw [member]

theorem Sound.apart (sound : Sound world) : RivalEvents.Apart Event.rivals world.events :=
  RivalEvents.apart_of_owners (fun _ _ => runId_of_mem_rivals) fun runId => (sound runId).apart

theorem Sound.singleUse (sound : Sound world) : SingleUse world where
  apart := sound.apart
  acquire := by
    intro binding token digest lease acquired
    obtain ⟨stored, found, live, same, held, tokens, digests⟩ := acquire_eq_ok acquired
    exact sound.handsOut found live same held tokens digests
  claimDispatch := by
    intro binding token digest lease registry claimed
    obtain ⟨handed, undispatched, -⟩ := sound.claimDispatch claimed
    exact ⟨handed, undispatched⟩
  refused := by
    intro lease refused hasClose
    exact (mem_history.mp ((sound lease.runId).refused lease
      (mem_history.mpr ⟨refused, rfl⟩) hasClose)).1
  terminalized := by
    intro lease attached hasClose ending
    have here := sound lease.runId
    rcases here.closed lease (mem_history.mpr ⟨attached, rfl⟩) hasClose with
      closed | ⟨stored, found, held, idle⟩
    · exact Or.inr (mem_history.mp closed).1
    · refine Or.inl ⟨stored, found, ?_⟩
      have entry := here.sound stored found
      have state := entry.ending.mp (mem_history.mpr ⟨ending, rfl⟩)
      cases due : stored.cleanup with
      | none => exact absurd state (entry.cleanup.mp due)
      | some cleanup =>
          cases cleanup with
          | scheduled => rfl
          | closing => exact absurd due idle
  returned := by
    intro caller outcome lease back real attached hasClose
    have here := sound lease.runId
    have gone := (here.returned caller outcome (mem_history.mpr ⟨back, rfl⟩) real).2
    rcases here.closed lease (mem_history.mpr ⟨attached, rfl⟩) hasClose with
      closed | ⟨stored, found, -⟩
    · exact (mem_history.mp closed).1
    · rw [gone] at found
      cases found

/-- In every run that stages a lease once and reserves no id the registry has forgotten, the
leases are single use. -/
theorem run_singleUse (actions : List Action)
    (careful : EveryStep World.step Careful World.initial actions) :
    SingleUse (run World.step World.initial actions) :=
  (StepRuns.run_allowed_invariant Sound (fun _ _ careful sound => sound.step careful)
    sound_initial careful).singleUse

def chatBinding : PreparedRunBinding :=
  ⟨1, 2, 3, 4, 5, 6, "thread".toList, []⟩

def chatToken : Token :=
  ⟨"token".toList, by decide⟩

def chatLease : PreparedRunLease :=
  ⟨0, chatBinding, "token".toList, "digest".toList, true⟩

/-- A lease is staged, activated, claimed once by two runners, and closed at the end of its
run, although one of the two callers is cancelled. -/
def chatRun : List Action :=
  [.reserve chatBinding chatToken, .stage chatLease, .activate 6 "token".toList "digest".toList,
    .acquire chatBinding "token".toList "digest".toList,
    .claimDispatch chatBinding "token".toList "digest".toList,
    .claimDispatch chatBinding "token".toList "digest".toList,
    .terminalize 1 6, .terminalize 2 6, .cancel 1, .startCleanup 6, .endClose 6 .closeFailed]

theorem run_singleUse_chatRun : SingleUse (run World.step World.initial chatRun) :=
  run_singleUse chatRun ⟨List.not_mem_nil, fun _ => ⟨by decide, fun _ _ _ _ => by decide⟩, trivial,
    trivial, trivial, trivial, trivial, trivial, trivial, trivial, trivial, trivial⟩

/-- The lease of a reserved run is staged again and closed while the run has it. -/
def stagedTwice : List Action :=
  [.reserve chatBinding chatToken, .stage chatLease, .stage chatLease, .terminalize 1 6,
    .startCleanup 6]

theorem stagedTwice_not_singleUse :
    ¬ SingleUse (run World.step World.initial stagedTwice) := by
  intro single
  have twice : [Event.closeCalled chatLease, .closeCalled chatLease].Sublist
      (run World.step World.initial stagedTwice).events := by decide
  exact single.apart.notMem_rivals twice (List.mem_singleton_self _)

end NaturalMold.PreparedRuns

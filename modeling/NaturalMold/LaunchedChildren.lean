import NaturalMold.ChildLaunches
import NaturalMold.StepRuns

/-! # Children are launched once and end with their lease -/

namespace NaturalMold.ChildLaunches

open Conversations (Uuid)
open CronExpressions (Text)
open KeyedTables (Table)
open RivalEvents (Apart)
open StepRuns (run EveryStep)

def pathPart (invocationId : Text) : Text :=
  '/' :: Nat.toDigits 10 invocationId.length ++ ':' :: invocationId

/-- A part tells its invocation and where it ends. -/
theorem pathPart_append_injective {first second before after : Text}
    (same : pathPart first ++ before = pathPart second ++ after) :
    first = second ∧ before = after := by
  have noColon : ∀ length, ':' ∉ Nat.toDigits 10 length := by
    intro length member
    have digit := Nat.isDigit_of_mem_toDigits (by decide) (by decide) member
    revert digit
    decide
  rw [pathPart, pathPart, List.cons_append, List.cons_append, List.cons_append, List.cons_append,
    List.cons.injEq, List.append_assoc, List.append_assoc, List.cons_append, List.cons_append]
    at same
  obtain ⟨digits, rest⟩ := PythonText.append_cons_cancel (noColon _) (noColon _) same.2
  exact List.append_inj rest (CronExpressions.toDigits_injective digits)

theorem foldl_childTaskPath (root : Text) (chain : List Text) :
    chain.foldl childTaskPath root = root ++ (chain.map pathPart).flatten := by
  induction chain generalizing root with
  | nil => simp
  | cons first chain ih =>
      rw [List.foldl_cons, ih, List.map_cons, List.flatten_cons, childTaskPath, pathPart,
        List.append_assoc]
      simp

theorem foldl_childTaskPath_injective (root : Text) :
    Function.Injective fun chain : List Text => chain.foldl childTaskPath root := by
  intro first second same
  dsimp only at same
  rw [foldl_childTaskPath, foldl_childTaskPath, List.append_cancel_left_eq] at same
  induction first generalizing second with
  | nil =>
      cases second with
      | nil => rfl
      | cons head second =>
          rw [List.map_cons, List.flatten_cons, pathPart] at same
          cases same
  | cons head first ih =>
      cases second with
      | nil =>
          rw [List.map_cons, List.flatten_cons, pathPart] at same
          cases same
      | cons other second =>
          rw [List.map_cons, List.flatten_cons, List.map_cons, List.flatten_cons] at same
          obtain ⟨heads, rest⟩ := pathPart_append_injective same
          rw [heads, ih rest]

theorem chainKey_injective {leaseId otherLease : Uuid} {root childId otherChild : Text}
    {earlier otherEarlier : List Text} {last otherLast : Text}
    (same : chainKey leaseId root childId earlier last =
      chainKey otherLease root otherChild otherEarlier otherLast) :
    earlier = otherEarlier ∧ last = otherLast := by
  rw [chainKey, chainKey, ChildLaunchKey.mk.injEq] at same
  exact ⟨foldl_childTaskPath_injective root same.2.1, same.2.2.2⟩

/-- The slots, the tasks and the events fit together. -/
structure Sound (world : World) : Prop where
  apart : Apart Event.rivals world.events
  open_ : ∀ slot ∈ world.ledger.slots.rows, .terminalized slot.key.leaseId ∉ world.events
  launched : ∀ key, .launched key ∈ world.events → .terminalized key.leaseId ∈ world.events ∨
    ∃ slot ∈ world.ledger.slots.rows, slot.key = key ∧ slot.state ≠ .reserved
  idle : ∀ slot ∈ world.ledger.slots.rows, slot.state = .reserved → slot.task = none
  owner : ∀ slot ∈ world.ledger.slots.rows, ∀ task, slot.task = some task →
    world.tasks[task]? = some slot.key
  held : ∀ task key, world.tasks[task]? = some key → task ∈ world.done ∨ task ∈ world.cancelled ∨
    ∃ slot ∈ world.ledger.slots.rows, slot.key = key ∧ slot.task = some task
  ended : ∀ task, .cancelled task ∈ world.events → task < world.tasks.length ∧
    ∀ slot ∈ world.ledger.slots.rows, slot.task ≠ some task

variable {world : World} {key : ChildLaunchKey}

theorem sound_initial (closedCap : ℕ) : Sound (World.initial closedCap) where
  apart := RivalEvents.apart_nil
  open_ := fun _ member => absurd member List.not_mem_nil
  launched := fun _ happened => absurd happened List.not_mem_nil
  idle := fun _ member => absurd member List.not_mem_nil
  owner := fun _ member => absurd member List.not_mem_nil
  held := fun _ _ started => by cases started
  ended := fun _ happened => absurd happened List.not_mem_nil

theorem Sound.launchedOnce (sound : Sound world) : LaunchedOnce world where
  apart := sound.apart
  slots := sound.open_
  tasks := by
    intro task key started ended
    rcases sound.held task key started with done | cancelled | ⟨slot, member, rfl, -⟩
    · exact Or.inl done
    · exact Or.inr cancelled
    · exact absurd ended (sound.open_ slot member)

/-- Calls and reservations say nothing about the slots. -/
theorem Sound.setCall (sound : Sound world) (caller : ℕ)
    (call : Option (ChildLaunchKey × Stage)) : Sound (world.setCall caller call) :=
  ⟨sound.apart, sound.open_, sound.launched, sound.idle, sound.owner, sound.held, sound.ended⟩

theorem Sound.reserve (sound : Sound world) (reservations : List ChildLaunchKey) :
    Sound { world with reservations := reservations } :=
  ⟨sound.apart, sound.open_, sound.launched, sound.idle, sound.owner, sound.held, sound.ended⟩

theorem Sound.delete (sound : Sound world) {slot : Slot}
    (found : world.ledger.slots.get? key = some slot) (reserved : slot.state = .reserved) :
    Sound { world with ledger := world.ledger.delete key } := by
  obtain ⟨listed, rfl⟩ := Table.get?_eq_some_iff.mp found
  have kept : ∀ other, other ∈ (world.ledger.delete slot.key).slots.rows ↔
      other ∈ world.ledger.slots.rows ∧ other.key ≠ slot.key := by
    intro other
    rw [ChildLaunchLedger.delete, Table.filter, List.mem_filter, decide_eq_true_eq]
  have stays : ∀ other ∈ world.ledger.slots.rows, other.state ≠ .reserved →
      other ∈ (world.ledger.delete slot.key).slots.rows := by
    intro other member running
    refine (kept other).mpr ⟨member, fun same => running ?_⟩
    rw [world.ledger.slots.eq_of_key_eq member listed same, reserved]
  refine ⟨sound.apart, ?_, ?_, ?_, ?_, ?_, ?_⟩
  · exact fun other member => sound.open_ other ((kept other).mp member).1
  · intro launchedKey happened
    refine (sound.launched launchedKey happened).imp_right ?_
    rintro ⟨other, member, same, running⟩
    exact ⟨other, stays other member running, same, running⟩
  · exact fun other member => sound.idle other ((kept other).mp member).1
  · exact fun other member => sound.owner other ((kept other).mp member).1
  · intro task taskKey started
    refine (sound.held task taskKey started).imp_right (Or.imp_right ?_)
    rintro ⟨other, member, same, holds⟩
    refine ⟨other, stays other member fun waiting => ?_, same, holds⟩
    rw [sound.idle other member waiting] at holds
    cases holds
  · intro task happened
    obtain ⟨known, unheld⟩ := sound.ended task happened
    exact ⟨known, fun other member => unheld other ((kept other).mp member).1⟩

theorem Sound.release (sound : Sound world) (key : ChildLaunchKey) :
    Sound { world with ledger := world.ledger.release key } := by
  rw [ChildLaunchLedger.release]
  split
  · rename_i slot found
    split
    · rename_i reserved
      exact sound.delete found reserved
    · exact sound
  · exact sound

theorem Sound.insert (sound : Sound world) {slots : Table Slot.key}
    (inserted : world.ledger.slots.insert? ⟨key, .reserved, none⟩ = some slots)
    (running : .terminalized key.leaseId ∉ world.events) :
    Sound { world with ledger := { world.ledger with slots := slots } } := by
  obtain ⟨rows, -⟩ := Table.insert?_eq_some inserted
  have member : ∀ slot, slot ∈ slots.rows ↔
      slot ∈ world.ledger.slots.rows ∨ slot = ⟨key, .reserved, none⟩ := by
    intro slot
    rw [rows, List.mem_append, List.mem_singleton]
  refine ⟨sound.apart, ?_, ?_, ?_, ?_, ?_, ?_⟩
  · intro slot listed
    rcases (member slot).mp listed with old | rfl
    · exact sound.open_ slot old
    · exact running
  · intro launchedKey happened
    refine (sound.launched launchedKey happened).imp_right ?_
    rintro ⟨slot, old, same⟩
    exact ⟨slot, (member slot).mpr (Or.inl old), same⟩
  · intro slot listed waiting
    rcases (member slot).mp listed with old | rfl
    · exact sound.idle slot old waiting
    · rfl
  · intro slot listed task holds
    rcases (member slot).mp listed with old | rfl
    · exact sound.owner slot old task holds
    · cases holds
  · intro task taskKey started
    refine (sound.held task taskKey started).imp_right (Or.imp_right ?_)
    rintro ⟨slot, old, same⟩
    exact ⟨slot, (member slot).mpr (Or.inl old), same⟩
  · intro task happened
    refine ⟨(sound.ended task happened).1, fun slot listed holds => ?_⟩
    rcases (member slot).mp listed with old | rfl
    · exact (sound.ended task happened).2 slot old holds
    · cases holds

theorem Sound.claim (sound : Sound world) (caller : ℕ)
    (known : .terminalized key.leaseId ∈ world.events → key.leaseId ∈ world.ledger.closed) :
    Sound (world.claim caller key) := by
  rw [World.claim]
  split
  · rename_i ledger claimed
    rw [ChildLaunchLedger.claim, ChildLaunchLedger.ensureOpen, Fallible.bind_eq_ok] at claimed
    obtain ⟨passed, isOpen, equal⟩ := claimed
    rw [Fallible.ensure_eq_ok, Bool.not_eq_true', ← Bool.not_eq_true, List.contains_iff_mem]
      at isOpen
    rw [Except.ok.injEq, Option.map_eq_some_iff] at equal
    obtain ⟨slots, inserted, rfl⟩ := equal
    exact (sound.insert inserted fun ended => isOpen (known ended)).setCall caller _
  · exact sound.setCall caller none

/-- The tasks after a launch: `start` makes the next one, or raises. -/
theorem getElem?_started {tasks : List ChildLaunchKey} {starts : Bool} {task : ℕ}
    {owner : ChildLaunchKey} :
    (if starts then tasks ++ [key] else tasks)[task]? = some owner ↔
      tasks[task]? = some owner ∨ (starts = true ∧ task = tasks.length ∧ owner = key) := by
  cases starts with
  | false => simp
  | true =>
      simp only [if_true, true_and]
      rcases Nat.lt_trichotomy task tasks.length with old | rfl | late
      · rw [List.getElem?_append_left old]
        exact ⟨Or.inl, fun known => known.resolve_right fun new => absurd new.1 old.ne⟩
      · simp [eq_comm]
      · rw [List.getElem?_eq_none (by simp; omega), List.getElem?_eq_none late.le]
        simp [late.ne']

/-- A reserved slot is launched with the next task, or with none. -/
theorem Sound.start (sound : Sound world) {slot : Slot}
    (found : world.ledger.slots.get? key = some slot) (waits : slot.state = .reserved)
    (starts : Bool) :
    Sound { world with
      ledger := { world.ledger with
        slots := world.ledger.slots.save
          ⟨key, .launched, if starts then some world.tasks.length else none⟩ }
      tasks := if starts then world.tasks ++ [key] else world.tasks
      events := world.events ++ [.launched key] } := by
  obtain ⟨listed, rfl⟩ := Table.get?_eq_some_iff.mp found
  have running := sound.open_ slot listed
  have unlaunched : .launched slot.key ∉ world.events := by
    intro happened
    rcases sound.launched slot.key happened with ended | ⟨other, member, same, runs⟩
    · exact running ended
    · rw [world.ledger.slots.eq_of_key_eq member listed same] at runs
      exact runs waits
  have member : ∀ other, other ∈ (world.ledger.slots.save
      ⟨slot.key, .launched, if starts then some world.tasks.length else none⟩).rows ↔
      other = ⟨slot.key, .launched, if starts then some world.tasks.length else none⟩ ∨
        (other ∈ world.ledger.slots.rows ∧ other.key ≠ slot.key) := by
    intro other
    rw [Table.mem_save]
    exact or_congr_left (and_iff_left ⟨slot, listed, rfl⟩)
  refine ⟨?_, ?_, ?_, ?_, ?_, ?_, ?_⟩
  · exact sound.apart.concat _ (by simp [Event.rivals, unlaunched, running])
  · intro other known
    simp only [List.mem_append, List.mem_singleton, reduceCtorEq, or_false]
    rcases (member other).mp known with rfl | ⟨old, -⟩
    · exact running
    · exact sound.open_ other old
  · intro launchedKey happened
    simp only [List.mem_append, List.mem_singleton, reduceCtorEq, or_false,
      Event.launched.injEq] at happened ⊢
    by_cases same : launchedKey = slot.key
    · exact Or.inr ⟨_, (member _).mpr (Or.inl rfl), same.symm, by simp⟩
    · refine (sound.launched launchedKey (happened.resolve_right same)).imp_right ?_
      rintro ⟨other, old, rfl, runs⟩
      exact ⟨other, (member other).mpr (Or.inr ⟨old, same⟩), rfl, runs⟩
  · intro other known waiting
    rcases (member other).mp known with rfl | ⟨old, -⟩
    · cases waiting
    · exact sound.idle other old waiting
  · intro other known task holds
    refine getElem?_started.mpr ?_
    rcases (member other).mp known with rfl | ⟨old, -⟩
    · cases starts with
      | false => cases holds
      | true => exact Or.inr ⟨rfl, (Option.some.inj holds).symm, rfl⟩
    · exact Or.inl (sound.owner other old task holds)
  · intro task owner started
    rcases getElem?_started.mp started with old | ⟨rfl, rfl, rfl⟩
    · refine (sound.held task owner old).imp_right (Or.imp_right ?_)
      rintro ⟨other, known, rfl, holds⟩
      refine ⟨other, (member other).mpr (Or.inr ⟨known, fun same => ?_⟩), rfl, holds⟩
      rw [world.ledger.slots.eq_of_key_eq known listed same, sound.idle slot listed waits] at holds
      cases holds
    · exact Or.inr (Or.inr ⟨_, (member _).mpr (Or.inl rfl), rfl, rfl⟩)
  · intro task happened
    simp only [List.mem_append, List.mem_singleton, reduceCtorEq, or_false] at happened
    obtain ⟨known, unheld⟩ := sound.ended task happened
    refine ⟨?_, fun other listedOther holds => ?_⟩
    · dsimp only
      split
      · rw [List.length_append]
        omega
      · exact known
    · rcases (member other).mp listedOther with rfl | ⟨old, -⟩
      · cases starts with
        | false => cases holds
        | true =>
            have next := Option.some.inj holds
            omega
      · exact unheld other old holds

theorem Sound.launch (sound : Sound world) (key : ChildLaunchKey) (starts : Bool) :
    Sound (world.launch key starts) := by
  rw [World.launch, ChildLaunchLedger.launch]
  cases found : world.ledger.slots.get? key with
  | none => exact sound
  | some slot =>
      dsimp only
      by_cases waits : slot.state = .reserved
      · by_cases closed : world.ledger.closed.contains key.leaseId = true
        · rw [if_neg (not_not.mpr waits), if_pos closed]
          exact sound.delete found waits
        · rw [if_neg (not_not.mpr waits), if_neg closed]
          cases starts with
          | false => exact sound.start found waits false
          | true => exact sound.start found waits true
      · rw [if_pos waits]
        exact sound

theorem Sound.save (sound : Sound world) {slot : Slot}
    (found : world.ledger.slots.get? key = some slot) (launched : slot.state = .launched)
    (finished : ∀ task, slot.task = some task → task ∈ world.done ∨ task ∈ world.cancelled) :
    Sound { world with
      ledger := { world.ledger with
        slots := world.ledger.slots.save ⟨key, .finished, none⟩ } } := by
  obtain ⟨listed, rfl⟩ := Table.get?_eq_some_iff.mp found
  have member : ∀ other,
      other ∈ (world.ledger.slots.save ⟨slot.key, .finished, none⟩).rows ↔
        other = ⟨slot.key, .finished, none⟩ ∨
          (other ∈ world.ledger.slots.rows ∧ other.key ≠ slot.key) := by
    intro other
    rw [Table.mem_save]
    exact or_congr_left (and_iff_left ⟨slot, listed, rfl⟩)
  refine ⟨sound.apart, ?_, ?_, ?_, ?_, ?_, ?_⟩
  · intro other known
    rcases (member other).mp known with rfl | ⟨old, -⟩
    · exact sound.open_ slot listed
    · exact sound.open_ other old
  · intro launchedKey happened
    refine (sound.launched launchedKey happened).imp_right ?_
    rintro ⟨other, old, rfl, runs⟩
    by_cases same : other.key = slot.key
    · exact ⟨_, (member _).mpr (Or.inl rfl), same.symm, by simp⟩
    · exact ⟨other, (member other).mpr (Or.inr ⟨old, same⟩), rfl, runs⟩
  · intro other known waiting
    rcases (member other).mp known with rfl | ⟨old, -⟩
    · cases waiting
    · exact sound.idle other old waiting
  · intro other known task holds
    rcases (member other).mp known with rfl | ⟨old, -⟩
    · cases holds
    · exact sound.owner other old task holds
  · intro task owner started
    rcases sound.held task owner started with done | cancelled | ⟨other, old, rfl, holds⟩
    · exact Or.inl done
    · exact Or.inr (Or.inl cancelled)
    · by_cases same : other.key = slot.key
      · rw [world.ledger.slots.eq_of_key_eq old listed same] at holds
        exact (finished task holds).imp_right Or.inl
      · exact Or.inr (Or.inr ⟨other, (member other).mpr (Or.inr ⟨old, same⟩), rfl, holds⟩)
  · intro task happened
    refine ⟨(sound.ended task happened).1, fun other known holds => ?_⟩
    rcases (member other).mp known with rfl | ⟨old, -⟩
    · cases holds
    · exact (sound.ended task happened).2 other old holds

theorem Sound.finish (sound : Sound world)
    (finished : ∀ slot task, world.ledger.slots.get? key = some slot → slot.state = .launched →
      slot.task = some task → task ∈ world.done ∨ task ∈ world.cancelled) :
    Sound { world with ledger := (world.ledger.finish key).2 } := by
  rw [ChildLaunchLedger.finish]
  cases found : world.ledger.slots.get? key with
  | none => exact sound
  | some slot =>
      dsimp only
      split
      · exact sound
      · rename_i reserved
        exact sound.delete found reserved
      · rename_i launched
        exact sound.save found launched fun task holds => finished slot task found launched holds

theorem mem_cancels {ledger : ChildLaunchLedger} {leaseId : Uuid} {done : List ℕ} {task : ℕ} :
    task ∈ ledger.cancels leaseId done ↔
      (∃ slot ∈ ledger.slots.rows, slot.key.leaseId = leaseId ∧ slot.task = some task) ∧
        task ∉ done := by
  simp only [ChildLaunchLedger.cancels, List.mem_filter, List.mem_filterMap, decide_eq_true_eq,
    Bool.not_eq_true', ← Bool.not_eq_true, List.contains_iff_mem, and_assoc]

/-- No two slots have one task. -/
theorem Sound.nodup_cancels (sound : Sound world) (leaseId : Uuid) (done : List ℕ) :
    (world.ledger.cancels leaseId done).Nodup := by
  have rows : world.ledger.slots.rows.Nodup :=
    List.Nodup.of_map Slot.key world.ledger.slots.distinct
  refine List.Nodup.filter _ (List.pairwise_filterMap.mpr ?_)
  refine (rows.filter _).imp_of_mem ?_
  intro first second firstMember secondMember different task holds other holdsToo same
  have firstOwner := sound.owner first (List.mem_of_mem_filter firstMember) task holds
  have secondOwner := sound.owner second (List.mem_of_mem_filter secondMember) other holdsToo
  rw [← same, firstOwner, Option.some.injEq] at secondOwner
  exact different (world.ledger.slots.eq_of_key_eq (List.mem_of_mem_filter firstMember)
    (List.mem_of_mem_filter secondMember) secondOwner)

theorem Sound.terminalize (sound : Sound world) (leaseId : Uuid) :
    Sound (world.terminalize leaseId) := by
  have kept : ∀ slot, slot ∈ (world.terminalize leaseId).ledger.slots.rows ↔
      slot ∈ world.ledger.slots.rows ∧ slot.key.leaseId ≠ leaseId := by
    intro slot
    rw [World.terminalize, ChildLaunchLedger.terminalize, Table.filter, List.mem_filter,
      decide_eq_true_eq]
  have events : (world.terminalize leaseId).events = world.events ++
      (world.ledger.cancels leaseId world.done).map .cancelled ++ [.terminalized leaseId] := rfl
  have ending : ∀ other, .terminalized other ∈ (world.terminalize leaseId).events ↔
      .terminalized other ∈ world.events ∨ other = leaseId := by
    intro other
    rw [events]
    simp
  refine ⟨?_, ?_, ?_, ?_, ?_, ?_, ?_⟩
  · rw [events]
    refine (sound.apart.append ?_ ?_).append_of_free (by simp [Event.rivals])
    · refine List.pairwise_map.mpr ((sound.nodup_cancels leaseId world.done).imp ?_)
      intro first second different
      simpa [Event.rivals] using different
    · intro event cancel rival isRival happened
      obtain ⟨task, cancels, rfl⟩ := List.mem_map.mp cancel
      rw [Event.rivals, List.mem_singleton] at isRival
      rw [isRival] at happened
      obtain ⟨⟨slot, member, -, holds⟩, -⟩ := mem_cancels.mp cancels
      exact (sound.ended task happened).2 slot member holds
  · intro slot member ended
    obtain ⟨old, different⟩ := (kept slot).mp member
    rcases (ending _).mp ended with before | now
    · exact sound.open_ slot old before
    · exact different now
  · intro key happened
    have old : .launched key ∈ world.events := by
      rw [events] at happened
      simpa using happened
    rcases sound.launched key old with ended | ⟨slot, member, rfl, runs⟩
    · exact Or.inl ((ending _).mpr (Or.inl ended))
    · by_cases now : slot.key.leaseId = leaseId
      · exact Or.inl ((ending _).mpr (Or.inr now))
      · exact Or.inr ⟨slot, (kept slot).mpr ⟨member, now⟩, rfl, runs⟩
  · exact fun slot member => sound.idle slot ((kept slot).mp member).1
  · exact fun slot member => sound.owner slot ((kept slot).mp member).1
  · intro task key started
    change task ∈ world.done ∨ task ∈ world.cancelled ++ world.ledger.cancels leaseId world.done ∨ _
    rw [List.mem_append]
    rcases sound.held task key started with done | cancelled | ⟨slot, member, same, holds⟩
    · exact Or.inl done
    · exact Or.inr (Or.inl (Or.inl cancelled))
    · by_cases now : slot.key.leaseId = leaseId
      · by_cases done : task ∈ world.done
        · exact Or.inl done
        · exact Or.inr (Or.inl (Or.inr (mem_cancels.mpr ⟨⟨slot, member, now, holds⟩, done⟩)))
      · exact Or.inr (Or.inr ⟨slot, (kept slot).mpr ⟨member, now⟩, same, holds⟩)
  · intro task happened
    rw [events] at happened
    simp only [List.mem_append, List.mem_map, Event.cancelled.injEq, exists_eq_right,
      List.mem_singleton, reduceCtorEq, or_false] at happened
    rcases happened with before | cancels
    · obtain ⟨known, unheld⟩ := sound.ended task before
      exact ⟨known, fun slot member => unheld slot ((kept slot).mp member).1⟩
    · -- the slot of a cancelled task goes with it
      obtain ⟨⟨slot, member, ofLease, holds⟩, -⟩ := mem_cancels.mp cancels
      have owned := sound.owner slot member task holds
      refine ⟨(List.getElem?_eq_some_iff.mp owned).1, fun other otherMember otherHolds => ?_⟩
      obtain ⟨old, different⟩ := (kept other).mp otherMember
      have otherOwned := sound.owner other old task otherHolds
      rw [owned, Option.some.injEq] at otherOwned
      exact different (otherOwned ▸ ofLease)

theorem Sound.step (sound : Sound world) {action : Action} (careful : Careful world action) :
    Sound (world.step action) := by
  cases action with
  | reserve caller admission parentTaskId parentPath childId childToken invocationId =>
      simp only [World.step]
      split
      · split
        · exact sound.setCall caller _
        · exact sound
      · exact sound
  | openPermit caller =>
      simp only [World.step]
      split
      · split
        · exact sound
        · exact sound.setCall caller _
      · exact sound
  | refusePermit caller =>
      simp only [World.step]
      split
      · exact sound.setCall caller none
      · exact sound
  | claim caller =>
      simp only [World.step]
      split
      · rename_i key admitted
        exact sound.claim caller (careful key admitted)
      · exact sound
  | closePermit caller =>
      simp only [World.step]
      split
      · exact (sound.reserve _).setCall caller none
      · exact sound
  | failPermit caller =>
      simp only [World.step]
      split
      · exact (sound.release _).setCall caller none
      · exact sound
  | launch key starts =>
      simp only [World.step]
      split
      · exact sound.launch key starts
      · exact sound
  | finish key =>
      simp only [World.step]
      split
      · rename_i won
        exact sound.finish (careful (List.contains_iff_mem.mp won))
      · exact sound
  | release key =>
      simp only [World.step]
      split
      · exact sound.release key
      · exact sound
  | terminalize leaseId => exact sound.terminalize leaseId
  | endTask task =>
      simp only [World.step]
      split
      · refine ⟨sound.apart, sound.open_, sound.launched, sound.idle, sound.owner, ?_, sound.ended⟩
        intro other key started
        exact (sound.held other key started).imp_left (List.mem_append_left _)
      · exact sound
  | cancelTask task =>
      simp only [World.step]
      split
      · refine ⟨sound.apart, sound.open_, sound.launched, sound.idle, sound.owner, ?_, sound.ended⟩
        intro other key started
        exact (sound.held other key started).imp_right (Or.imp_left (List.mem_append_left _))
      · exact sound

/-- In every run whose finishes and late claims are careful, the children are launched once and
end with their lease; and whatever runs, two chains below one root task have two keys. -/
theorem run_launchedOnce (closedCap : ℕ) :
    (∀ actions, EveryStep World.step Careful (World.initial closedCap) actions →
        LaunchedOnce (run World.step (World.initial closedCap) actions)) ∧
      ∀ leaseId otherLease root childId otherChild earlier otherEarlier last otherLast,
        chainKey leaseId root childId earlier last =
            chainKey otherLease root otherChild otherEarlier otherLast →
          earlier = otherEarlier ∧ last = otherLast := by
  constructor
  · intro actions careful
    exact (StepRuns.run_allowed_invariant Sound (fun _ _ careful sound => sound.step careful)
      (sound_initial closedCap) careful).launchedOnce
  · intro leaseId otherLease root childId otherChild earlier otherEarlier last otherLast
    exact chainKey_injective

def writerAdmission : ChildLaunchAdmission :=
  ⟨7, [("writer".toList, ⟨"root".toList, "token".toList⟩)], "digest".toList, "digest".toList⟩

def writerKey : ChildLaunchKey :=
  ⟨7, "root".toList, "writer".toList, "call".toList⟩

def reservation (caller : ℕ) : List Action :=
  [.reserve caller writerAdmission "root".toList "root".toList "writer".toList "token".toList
      "call".toList,
    .openPermit caller, .claim caller, .closePermit caller]

/-- A child is released, reserved again, launched, and cancelled with its lease. -/
def writerRun : List Action :=
  reservation 1 ++ [.release writerKey] ++ reservation 2 ++
    [.launch writerKey true, .terminalize 7, .finish writerKey]

theorem run_launchedOnce_writerRun :
    LaunchedOnce (run World.step (World.initial 4096) writerRun) ∧
      ["a".toList] = ["a".toList] ∧ "b".toList = "b".toList :=
  ⟨(run_launchedOnce 4096).1 writerRun
      ⟨trivial, trivial, fun _ _ ended => absurd ended List.not_mem_nil, trivial, trivial, trivial,
        trivial, fun _ _ ended => absurd ended List.not_mem_nil, trivial, trivial, trivial,
        fun _ _ _ found => absurd found (Option.some_ne_none _).symm, trivial⟩,
    (run_launchedOnce 4096).2 7 7 "root".toList "writer".toList "writer".toList ["a".toList]
      ["a".toList] "b".toList "b".toList rfl⟩

/-- The reservation that was released finishes the child that the second one runs. -/
def staleFinish : List Action :=
  reservation 1 ++ [.release writerKey] ++ reservation 2 ++
    [.launch writerKey true, .finish writerKey, .terminalize 7]

theorem staleFinish_not_launchedOnce :
    ¬ LaunchedOnce (run World.step (World.initial 4096) staleFinish) := by
  intro once
  have finished := once.tasks 0 writerKey (by decide) (by decide)
  revert finished
  decide

end NaturalMold.ChildLaunches

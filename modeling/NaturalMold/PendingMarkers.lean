import NaturalMold.ConversationTables
import NaturalMold.StepRuns
import Mathlib.Logic.Function.Basic

/-!
# The hint of pending revocation markers

A process keeps the number of pending markers that it read last, and counts a marker of its own as
pending for a full `ttl`.
-/

namespace NaturalMold.Authz

open Conversations (Time)

/-- `PendingMarkers`, without its clock and its `ttl`. -/
structure PendingMarkers where
  count : Option ℕ
  readAt : Time

namespace PendingMarkers

def empty : PendingMarkers where
  count := none
  readAt := 0

def fresh (hint : PendingMarkers) (ttl now : Time) : Bool :=
  hint.count.isSome ∧ now - hint.readAt < ttl

def noteRecorded (hint : PendingMarkers) (now : Time) : PendingMarkers where
  count := some (max (hint.count.getD 0) 1)
  readAt := now

/-- `bool(self._count)`. -/
def pending (hint : PendingMarkers) : Bool :=
  hint.count.getD 0 ≠ 0

theorem pending_of_ne_zero {hint : PendingMarkers} (known : hint.count ≠ none)
    (positive : hint.count ≠ some 0) : hint.pending = true := by
  rw [pending, decide_eq_true_eq]
  cases countEq : hint.count with
  | none => exact absurd countEq known
  | some count =>
      rintro (rfl : count = 0)
      exact positive countEq

theorem count_eq_zero_of_not_pending {hint : PendingMarkers} {ttl now : Time}
    (fresh : hint.fresh ttl now) (clear : hint.pending = false) :
    hint.count = some 0 ∧ now - hint.readAt < ttl := by
  simp only [PendingMarkers.fresh, decide_eq_true_eq] at fresh
  simp only [pending, ne_eq, decide_eq_false_iff_not, not_not] at clear
  refine ⟨?_, fresh.2⟩
  cases countEq : hint.count with
  | none => simp [countEq] at fresh
  | some count => rw [countEq, Option.getD_some] at clear; rw [clear]

end PendingMarkers

/-- An awaited read of the number of pending markers, and what it saw. -/
structure CountRead where
  began : Time
  seen : Option ℕ

/-- What happened, for the statements only. -/
inductive HintEvent
  | noted (time : Time)
  | called (call : ℕ) (time : Time)
  | saw (call count : ℕ) (time : Time)
  | answered (call : ℕ) (value : Bool) (time : Time)
  deriving DecidableEq

/-- The hint of a process, the clock, the committed pending markers of all
processes, the reads in flight, the number of calls so far, and the events, newest
first. -/
structure HintSystem where
  hint : PendingMarkers
  now : Time
  committed : ℕ
  reads : ℕ → Option CountRead
  calls : ℕ
  log : List HintEvent

def HintSystem.initial : HintSystem where
  hint := PendingMarkers.empty
  now := 0
  committed := 0
  reads := fun _ => none
  calls := 0
  log := []

inductive HintAction
  | advance (duration : Time)
  | noteRecorded
  | setCommitted (count : ℕ)
  | anyPending
  | runCount (call : ℕ)
  | finishRead (call : ℕ)
  | failRead (call : ℕ)

/-- `any_pending` up to its answer or its `await`. -/
def HintSystem.anyPending (ttl : Time) (system : HintSystem) : HintSystem :=
  if system.hint.fresh ttl system.now then
    { system with
      calls := system.calls + 1
      log := .answered system.calls system.hint.pending system.now ::
        .called system.calls system.now :: system.log }
  else
    { system with
      reads := Function.update system.reads system.calls (some ⟨system.now, none⟩)
      calls := system.calls + 1
      log := .called system.calls system.now :: system.log }

/-- One step; a step that is not possible changes nothing. -/
def HintSystem.step (ttl : Time) (system : HintSystem) : HintAction → HintSystem
  | .advance duration => { system with now := system.now + duration }
  | .noteRecorded =>
      { system with
        hint := system.hint.noteRecorded system.now
        log := .noted system.now :: system.log }
  | .setCommitted count => { system with committed := count }
  | .anyPending => system.anyPending ttl
  | .runCount call =>
      match system.reads call with
      | some ⟨began, none⟩ =>
          { system with
            reads := Function.update system.reads call (some ⟨began, some system.committed⟩)
            log := .saw call system.committed system.now :: system.log }
      | _ => system
  | .finishRead call =>
      match system.reads call with
      | some ⟨_, some count⟩ =>
          { system with
            hint := ⟨some count, system.now⟩
            reads := Function.update system.reads call none
            log := .answered call (count ≠ 0) system.now :: system.log }
      | _ => system
  -- The error propagates to the caller.
  | .failRead call => { system with reads := Function.update system.reads call none }

def hintAfter (ttl : Time) (actions : List HintAction) : HintSystem :=
  StepRuns.run (HintSystem.step ttl) HintSystem.initial actions

/-- A read that saw no committed pending marker was stored before the recent events,
and no marker has been noted in this process since it began. -/
def ZeroRead (log recent : List HintEvent) (stored : Time) : Prop :=
  ∃ during early before reader began ran,
    log = recent ++ .answered reader false stored ::
        (during ++ .saw reader 0 ran :: (early ++ .called reader began :: before)) ∧
      ∀ noted, HintEvent.noted noted ∉ recent ++ (during ++ early)

/-- An answer is justified by the events before it: it is true if the call started
within `ttl` after a note, and if it is false, it is the answer of a zero read or one
was stored less than `ttl` ago, so that it began less than `ttl` and its duration ago. -/
def Justified (ttl : Time) (older : List HintEvent) : HintEvent → Prop
  | .answered call value time =>
      (∀ since before started noted, older = since ++ .called call started :: before →
        .noted noted ∈ before → started < noted + ttl → value = true) ∧
      (value = false → ∃ recent stored, ZeroRead (.answered call value time :: older) recent stored ∧
        (recent = [] ∨ time < stored + ttl))
  | _ => True

def AllJustified (ttl : Time) : List HintEvent → Prop
  | [] => True
  | event :: older => Justified ttl older event ∧ AllJustified ttl older

theorem justified_of_all {ttl : Time} {newer older : List HintEvent} {event : HintEvent}
    (all : AllJustified ttl (newer ++ event :: older)) : Justified ttl older event := by
  induction newer with
  | nil => exact all.1
  | cons head newer ih => exact ih all.2

def NotedSince (log : List HintEvent) (call : ℕ) : Prop :=
  ∃ since before started noted,
    log = since ++ .called call started :: before ∧ HintEvent.noted noted ∈ since

/-- No marker was noted while a read that answers zero was in flight. -/
def NotOvertaken (system : HintSystem) : HintAction → Prop
  | .finishRead call => ∀ began, system.reads call = some ⟨began, some 0⟩ →
      ¬ NotedSince system.log call
  | _ => True

structure ReadPlaced (ttl : Time) (log : List HintEvent) (call : ℕ) (read : CountRead) : Prop where
  place : ∃ since before, log = since ++ .called call read.began :: before ∧
    ∀ count, read.seen = some count → ∃ during early ran, since = during ++ .saw call count ran :: early
  expired : ∀ since before started noted, log = since ++ .called call started :: before →
    .noted noted ∈ before → noted + ttl ≤ started

structure HintSystem.Faithful (ttl : Time) (system : HintSystem) : Prop where
  readAt_le : system.hint.readAt ≤ system.now
  noted : ∀ noted, .noted noted ∈ system.log → system.hint.count ≠ none ∧
    noted ≤ system.hint.readAt ∧ (system.now < noted + ttl → system.hint.count ≠ some 0)
  called : ∀ call started, .called call started ∈ system.log →
    call < system.calls ∧ started ≤ system.now
  reads : ∀ call read, system.reads call = some read → ReadPlaced ttl system.log call read
  zero : system.hint.count = some 0 → ∃ recent, ZeroRead system.log recent system.hint.readAt
  justified : AllJustified ttl system.log

theorem faithful_initial (ttl : Time) : HintSystem.initial.Faithful ttl where
  readAt_le := Nat.le_refl 0
  noted := by simp [HintSystem.initial]
  called := by simp [HintSystem.initial]
  reads := by simp [HintSystem.initial]
  zero := by simp [HintSystem.initial, PendingMarkers.empty]
  justified := trivial

theorem ReadPlaced.cons {ttl : Time} {log : List HintEvent} {call : ℕ} {read : CountRead}
    (placed : ReadPlaced ttl log call read) {event : HintEvent}
    (other : ∀ started, event ≠ .called call started) :
    ReadPlaced ttl (event :: log) call read where
  place := by
    obtain ⟨since, before, logEq, ran⟩ := placed.place
    refine ⟨event :: since, before, by rw [logEq]; rfl, fun count seen => ?_⟩
    obtain ⟨during, early, time, sinceEq⟩ := ran count seen
    exact ⟨event :: during, early, time, by rw [sinceEq]; rfl⟩
  expired := by
    intro since before started noted logEq member
    cases since with
    | nil =>
        rw [List.nil_append, List.cons.injEq] at logEq
        exact absurd logEq.1 (other started)
    | cons head since =>
        rw [List.cons_append, List.cons.injEq] at logEq
        exact placed.expired since before started noted logEq.2 member

theorem ZeroRead.cons {log recent : List HintEvent} {stored : Time}
    (zero : ZeroRead log recent stored) {event : HintEvent}
    (silent : ∀ noted, event ≠ .noted noted) :
    ZeroRead (event :: log) (event :: recent) stored := by
  obtain ⟨during, early, before, reader, began, ran, logEq, quiet⟩ := zero
  refine ⟨during, early, before, reader, began, ran, by rw [logEq]; rfl, ?_⟩
  intro noted member
  rcases List.mem_cons.mp member with same | member
  · exact silent noted same.symm
  · exact quiet noted member

section Steps

variable {ttl : Time} {system : HintSystem}

theorem HintSystem.Faithful.read_lt (faithful : system.Faithful ttl) {call : ℕ} {read : CountRead}
    (inFlight : system.reads call = some read) : call < system.calls := by
  obtain ⟨since, before, logEq, _⟩ := (faithful.reads call read inFlight).place
  exact (faithful.called call read.began (by rw [logEq]; simp)).1

theorem HintSystem.Faithful.split_call (faithful : system.Faithful ttl) {started : Time}
    {since before : List HintEvent}
    (logEq : .called system.calls system.now :: system.log =
      since ++ .called system.calls started :: before) :
    started = system.now ∧ before = system.log := by
  cases since with
  | nil =>
      simp only [List.nil_append, List.cons.injEq, HintEvent.called.injEq, true_and] at logEq
      exact ⟨logEq.1.symm, logEq.2.symm⟩
  | cons head since =>
      rw [List.cons_append, List.cons.injEq] at logEq
      have member : HintEvent.called system.calls started ∈ system.log := by
        rw [logEq.2]
        simp
      exact absurd (faithful.called _ _ member).1 (Nat.lt_irrefl _)

theorem faithful_advance (faithful : system.Faithful ttl) (duration : Time) :
    (system.step ttl (.advance duration)).Faithful ttl where
  readAt_le := Nat.le_add_right_of_le faithful.readAt_le
  noted := by
    intro noted member
    obtain ⟨known, before, positive⟩ := faithful.noted noted member
    exact ⟨known, before, fun recent => positive (Nat.lt_of_le_of_lt (Nat.le_add_right _ _) recent)⟩
  called := fun call started member =>
    (faithful.called call started member).imp_right (Nat.le_add_right_of_le)
  reads := faithful.reads
  zero := faithful.zero
  justified := faithful.justified

theorem faithful_noteRecorded (faithful : system.Faithful ttl) :
    (system.step ttl .noteRecorded).Faithful ttl where
  readAt_le := Nat.le_refl system.now
  noted := by
    intro noted member
    refine ⟨by simp [HintSystem.step, PendingMarkers.noteRecorded], ?_, ?_⟩
    · rcases List.mem_cons.mp member with same | older
      · rw [HintEvent.noted.injEq] at same
        exact Nat.le_of_eq same
      · exact ((faithful.noted noted older).2.1).trans faithful.readAt_le
    · intro _ zero
      simp only [HintSystem.step, PendingMarkers.noteRecorded, Option.some.injEq] at zero
      omega
  called := by
    intro call started member
    rcases List.mem_cons.mp member with same | older
    · exact absurd same (by simp)
    · exact faithful.called call started older
  reads := fun call read inFlight => (faithful.reads call read inFlight).cons (by simp)
  zero := by
    intro zero
    simp only [HintSystem.step, PendingMarkers.noteRecorded, Option.some.injEq] at zero
    omega
  justified := ⟨trivial, faithful.justified⟩

theorem faithful_anyPending (faithful : system.Faithful ttl) :
    (system.step ttl .anyPending).Faithful ttl := by
  have isNew : ∀ call read, system.reads call = some read →
      ∀ started, HintEvent.called system.calls system.now ≠ .called call started := by
    intro call read inFlight started same
    rw [HintEvent.called.injEq] at same
    exact absurd (faithful.read_lt inFlight) (by rw [← same.1]; exact Nat.lt_irrefl _)
  rw [HintSystem.step, HintSystem.anyPending]
  by_cases fresh : system.hint.fresh ttl system.now
  · rw [if_pos fresh]
    refine ⟨faithful.readAt_le, ?_, ?_, ?_, ?_, ?_, trivial, faithful.justified⟩
    · intro noted member
      exact faithful.noted noted (by simpa using member)
    · intro call started member
      simp only [List.mem_cons, reduceCtorEq, HintEvent.called.injEq, false_or] at member
      rcases member with ⟨rfl, rfl⟩ | older
      · exact ⟨Nat.lt_succ_self _, Nat.le_refl _⟩
      · exact (faithful.called call started older).imp_left Nat.lt_succ_of_lt
    · intro call read inFlight
      exact ((faithful.reads call read inFlight).cons (isNew call read inFlight)).cons (by simp)
    · intro zero
      obtain ⟨recent, stored⟩ := faithful.zero zero
      exact ⟨_, (stored.cons (by simp)).cons (by simp)⟩
    · refine ⟨?_, ?_⟩
      · intro since before started noted logEq member recent
        obtain ⟨rfl, rfl⟩ := faithful.split_call logEq
        obtain ⟨known, _, positive⟩ := faithful.noted noted member
        exact PendingMarkers.pending_of_ne_zero known (positive recent)
      · intro clear
        obtain ⟨zero, age⟩ := PendingMarkers.count_eq_zero_of_not_pending fresh clear
        obtain ⟨recent, stored⟩ := faithful.zero zero
        exact ⟨_, system.hint.readAt, (stored.cons (by simp)).cons (by simp),
          Or.inr ((Nat.sub_lt_iff_lt_add' faithful.readAt_le).mp age)⟩
  · rw [if_neg fresh]
    refine ⟨faithful.readAt_le, ?_, ?_, ?_, ?_, trivial, faithful.justified⟩
    · intro noted member
      exact faithful.noted noted (by simpa using member)
    · intro call started member
      simp only [List.mem_cons, HintEvent.called.injEq] at member
      rcases member with ⟨rfl, rfl⟩ | older
      · exact ⟨Nat.lt_succ_self _, Nat.le_refl _⟩
      · exact (faithful.called call started older).imp_left Nat.lt_succ_of_lt
    · intro call read inFlight
      by_cases same : call = system.calls
      · subst same
        simp only [Function.update_self, Option.some.injEq] at inFlight
        subst inFlight
        refine ⟨⟨[], system.log, rfl, by simp⟩, ?_⟩
        intro since before started noted logEq member
        obtain ⟨rfl, rfl⟩ := faithful.split_call logEq
        obtain ⟨known, before, _⟩ := faithful.noted noted member
        simp only [PendingMarkers.fresh, decide_eq_true_eq, not_and, Nat.not_lt] at fresh
        have age := fresh (Option.isSome_iff_ne_none.mpr known)
        calc noted + ttl ≤ system.hint.readAt + ttl := Nat.add_le_add_right before ttl
          _ ≤ system.now := Nat.add_le_of_le_sub' faithful.readAt_le age
      · simp only [Function.update_of_ne same] at inFlight
        exact (faithful.reads call read inFlight).cons (isNew call read inFlight)
    · intro zero
      obtain ⟨recent, stored⟩ := faithful.zero zero
      exact ⟨_, stored.cons (by simp)⟩

theorem faithful_runCount (faithful : system.Faithful ttl) (call : ℕ) :
    (system.step ttl (.runCount call)).Faithful ttl := by
  rw [HintSystem.step]
  split
  · rename_i began inFlight
    refine ⟨faithful.readAt_le, ?_, ?_, ?_, ?_, trivial, faithful.justified⟩
    · intro noted member
      exact faithful.noted noted (by simpa using member)
    · intro other started member
      exact faithful.called other started (by simpa using member)
    · intro other read otherInFlight
      by_cases same : other = call
      · subst same
        simp only [Function.update_self, Option.some.injEq] at otherInFlight
        subst otherInFlight
        have placed := faithful.reads other ⟨began, none⟩ inFlight
        obtain ⟨since, before, logEq, _⟩ := placed.place
        refine ⟨⟨.saw other system.committed system.now :: since, before, by rw [logEq]; rfl, ?_⟩,
          (placed.cons (by simp)).expired⟩
        rintro count ⟨⟩
        exact ⟨[], since, system.now, rfl⟩
      · simp only [Function.update_of_ne same] at otherInFlight
        exact (faithful.reads other read otherInFlight).cons (by simp)
    · intro zero
      obtain ⟨recent, stored⟩ := faithful.zero zero
      exact ⟨_, stored.cons (by simp)⟩
  · exact faithful

theorem faithful_failRead (faithful : system.Faithful ttl) (call : ℕ) :
    (system.step ttl (.failRead call)).Faithful ttl where
  readAt_le := faithful.readAt_le
  noted := faithful.noted
  called := faithful.called
  reads := by
    intro other read inFlight
    by_cases same : other = call
    · simp [HintSystem.step, same] at inFlight
    · simp only [HintSystem.step, Function.update_of_ne same] at inFlight
      exact faithful.reads other read inFlight
  zero := faithful.zero
  justified := faithful.justified

theorem faithful_finishRead (faithful : system.Faithful ttl) {call : ℕ}
    (notOvertaken : NotOvertaken system (.finishRead call)) :
    (system.step ttl (.finishRead call)).Faithful ttl := by
  rw [HintSystem.step]
  split
  · rename_i began count inFlight
    have placed := faithful.reads call ⟨began, some count⟩ inFlight
    obtain ⟨since, before, logEq, ran⟩ := placed.place
    have quiet : count = 0 → ∀ noted, HintEvent.noted noted ∉ since := by
      rintro rfl noted member
      exact notOvertaken began inFlight ⟨since, before, began, noted, logEq, member⟩
    have zero : count = 0 →
        ZeroRead (.answered call false system.now :: system.log) [] system.now := by
      rintro rfl
      obtain ⟨during, early, time, sinceEq⟩ := ran 0 rfl
      refine ⟨during, early, before, call, began, time, ?_, ?_⟩
      · rw [logEq, sinceEq]
        simp
      · intro noted member
        apply quiet rfl noted
        rw [sinceEq]
        rw [List.nil_append] at member
        rcases List.mem_append.mp member with later | earlier
        · exact List.mem_append_left _ later
        · exact List.mem_append_right _ (List.mem_cons_of_mem _ earlier)
    refine ⟨Nat.le_refl system.now, ?_, ?_, ?_, ?_, ⟨?_, ?_⟩, faithful.justified⟩
    · intro noted member
      replace member : HintEvent.noted noted ∈ system.log := by simpa using member
      refine ⟨by simp, (faithful.noted noted member).2.1.trans faithful.readAt_le, ?_⟩
      intro recent countEq
      rw [Option.some.injEq] at countEq
      have older : HintEvent.noted noted ∈ before := by
        rw [logEq] at member
        simpa [quiet countEq noted] using member
      have expired := placed.expired since before began noted logEq older
      have startedBefore := (faithful.called call began (by rw [logEq]; simp)).2
      exact absurd recent (Nat.not_lt.mpr (expired.trans startedBefore))
    · intro other started member
      exact faithful.called other started (by simpa using member)
    · intro other read otherInFlight
      by_cases same : other = call
      · simp [same] at otherInFlight
      · simp only [Function.update_of_ne same] at otherInFlight
        exact (faithful.reads other read otherInFlight).cons (by simp)
    · intro countEq
      rw [Option.some.injEq] at countEq
      refine ⟨[], ?_⟩
      simpa [countEq] using zero countEq
    · intro since before started noted logEq member recent
      exact absurd recent (Nat.not_lt.mpr (placed.expired since before started noted logEq member))
    · intro clear
      have countEq : count = 0 := by simpa using clear
      refine ⟨[], system.now, ?_, Or.inl rfl⟩
      simpa [countEq] using zero countEq
  · exact faithful

theorem faithful_step (faithful : system.Faithful ttl) {action : HintAction}
    (notOvertaken : NotOvertaken system action) : (system.step ttl action).Faithful ttl := by
  cases action with
  | advance duration => exact faithful_advance faithful duration
  | noteRecorded => exact faithful_noteRecorded faithful
  | setCommitted count =>
      exact ⟨faithful.readAt_le, faithful.noted, faithful.called, faithful.reads, faithful.zero,
        faithful.justified⟩
  | anyPending => exact faithful_anyPending faithful
  | runCount call => exact faithful_runCount faithful call
  | finishRead call => exact faithful_finishRead faithful notOvertaken
  | failRead call => exact faithful_failRead faithful call

end Steps

/-- In a run in which no read that answers zero is overtaken by a note, every answer
is justified. -/
theorem hint_never_hides {ttl : Time} {actions : List HintAction}
    (every : StepRuns.EveryStep (HintSystem.step ttl) NotOvertaken HintSystem.initial actions)
    {newer older : List HintEvent} {call : ℕ} {value : Bool} {time : Time}
    (logged : (hintAfter ttl actions).log = newer ++ .answered call value time :: older) :
    Justified ttl older (.answered call value time) := by
  have faithful := StepRuns.run_allowed_invariant (HintSystem.Faithful ttl)
    (fun _ _ allowed kept => faithful_step kept allowed) (faithful_initial ttl) every
  have all := faithful.justified
  rw [show (StepRuns.run (HintSystem.step ttl) HintSystem.initial actions).log =
    newer ++ .answered call value time :: older from logged] at all
  exact justified_of_all all

/-- A note during another call's read keeps the answers true for `ttl`. -/
theorem hint_never_hides_noted :
    Justified 5 [.called 0 1, .noted 1] (.answered 0 true 1) :=
  @hint_never_hides 5 [.advance 1, .noteRecorded, .anyPending]
    ⟨trivial, trivial, trivial, trivial⟩ [] [.called 0 1, .noted 1] 0 true 1 rfl

/-- A read begins, a marker is noted, and the read stores the zero that it saw. -/
def overtaken : List HintAction :=
  [.anyPending, .runCount 0, .advance 1, .noteRecorded, .finishRead 0, .advance 1, .anyPending]

/-- The call after it is answered false within `ttl` after the note. -/
theorem overtaken_hides : ∃ newer older call time,
    (hintAfter 5 overtaken).log = newer ++ .answered call false time :: older ∧
      ¬ Justified 5 older (.answered call false time) := by
  refine ⟨[], [.called 1 2, .answered 0 false 1, .noted 1, .saw 0 0 0, .called 0 0], 1, 2,
    by decide, ?_⟩
  intro justified
  exact absurd (justified.1 [] _ 2 1 rfl (by decide) (by decide)) (by decide)

end NaturalMold.Authz

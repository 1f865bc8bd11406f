import NaturalMold.SpendFlush
import NaturalMold.StepRuns

/-! # The spend queue and its background loop -/

namespace NaturalMold.Spend

open Conversations (Uuid)
open GroupedTotals

/-- The companies' slices that a flush has not ended yet; the first one's transaction
may be open. -/
abbrev Slices := List (Uuid × List SpendEntry)

def Slices.entries (slices : Slices) : List SpendEntry :=
  slices.flatMap Prod.snd

@[simp]
theorem Slices.entries_nil : Slices.entries [] = [] :=
  rfl

@[simp]
theorem Slices.entries_cons (slice : Uuid × List SpendEntry) (slices : Slices) :
    Slices.entries (slice :: slices) = slice.2 ++ Slices.entries slices :=
  rfl

/-- Where the background task is. -/
inductive Loop
  | notStarted
  | waiting
  | flushing (slices : Slices)
  | ended
  deriving DecidableEq

/-- Where `stop()` is; `before` are the entries accepted before it began. -/
inductive Stop
  | idle
  | flushing (before : List SpendEntry) (slices : Slices)
  | returned (before : List SpendEntry)
  deriving DecidableEq

structure Settings where
  batchSize : ℕ
  maxQueueSize : ℕ

/-- The queue with the entries that have left it, the tasks, the tables, and the slices
that were booked, that failed and that were cut off by a cancellation. -/
structure System where
  queue : List SpendEntry
  taken : List SpendEntry
  stopping : Bool
  loop : Loop
  stop : Stop
  tables : Axis → List Row
  booked : Slices
  failed : Slices
  cut : Slices

def System.initial (tables : Axis → List Row) : System where
  queue := []
  taken := []
  stopping := false
  loop := .notStarted
  stop := .idle
  tables := tables
  booked := []
  failed := []
  cut := []

/-- The entries that `add()` has put into the queue. -/
def System.accepted (system : System) : List SpendEntry :=
  system.taken ++ system.queue

def Loop.slices : Loop → Slices
  | .flushing slices => slices
  | _ => []

def Stop.slices : Stop → Slices
  | .flushing _ slices => slices
  | _ => []

/-- The flushes of the two tasks go through the same steps. -/
inductive Outcome
  | committed
  | raised
  deriving DecidableEq

inductive Action
  | add (entry : SpendEntry)
  | start
  | take
  | timeout
  | loopFlush (outcome : Outcome)
  | loopDone
  | cancelLoop (committed : Bool)
  | stop (committed : Bool)
  | stopFlush (outcome : Outcome)
  | stopDone (committed : Bool)

/-- A company's transaction ends. -/
def System.settle (system : System) (slice : Uuid × List SpendEntry) : Outcome → System
  | .committed =>
      { system with
        tables := flushTenant system.tables slice.2
        booked := system.booked ++ [slice] }
  | .raised => { system with failed := system.failed ++ [slice] }

/-- `add`: a full queue drops the entry. -/
def System.add (settings : Settings) (system : System) (entry : SpendEntry) : System :=
  if settings.maxQueueSize = 0 ∨ system.queue.length < settings.maxQueueSize then
    { system with queue := system.queue ++ [entry] }
  else system

/-- The loop goes on, or ends once `stop` is requested. -/
def System.afterRound (system : System) : System :=
  { system with loop := if system.stopping then .ended else .waiting }

/-- The loop takes the first entry, and more up to the batch size. -/
def System.take (settings : Settings) (system : System) : System :=
  if system.loop = .waiting ∧ system.queue ≠ [] then
    let size := max 1 settings.batchSize
    { system with
      queue := system.queue.drop size
      taken := system.taken ++ system.queue.take size
      loop := .flushing (groupByTenant (system.queue.take size)) }
  else system

/-- What a cancelled flush does not book; the commit of its first slice may go through. -/
def Loop.dropped : Loop → Bool → Slices
  | .flushing slices, true => slices.drop 1
  | .flushing slices, false => slices
  | _, _ => []

/-- The task is cancelled, and `CancelledError` ends it. -/
def System.cancelLoop (system : System) (committed : Bool) : System :=
  match system.loop with
  | .notStarted => system
  | .flushing (slice :: slices) =>
      if committed then { system.settle slice .committed with loop := .ended, cut := system.cut ++ slices }
      else { system with loop := .ended, cut := system.cut ++ slice :: slices }
  | _ => { system with loop := .ended }

/-- `stop()` from its flush on. -/
def System.stopDone (system : System) (before : List SpendEntry) (committed : Bool) : System :=
  { system.cancelLoop committed with stop := .returned before }

/-- `stop()`: the queue is drained without an `await`. -/
def System.beginStop (system : System) (committed : Bool) : System :=
  match system.stop with
  | .flushing _ _ => system
  | _ =>
      let drained : System :=
        { system with stopping := true, queue := [], taken := system.taken ++ system.queue }
      if system.queue = [] then drained.stopDone system.accepted committed
      else { drained with stop := .flushing system.accepted (groupByTenant system.queue) }

/-- One step; a step that is not possible changes nothing. -/
def System.step (settings : Settings) (system : System) : Action → System
  | .add entry => system.add settings entry
  | .start =>
      if system.loop = .notStarted ∨ system.loop = .ended then
        { system with stopping := false, loop := .waiting }
      else system
  | .take => system.take settings
  | .timeout => if system.loop = .waiting then system.afterRound else system
  | .loopFlush outcome =>
      match system.loop with
      | .flushing (slice :: slices) => { system.settle slice outcome with loop := .flushing slices }
      | _ => system
  | .loopDone => if system.loop = .flushing [] then system.afterRound else system
  | .cancelLoop committed => system.cancelLoop committed
  | .stop committed => system.beginStop committed
  | .stopFlush outcome =>
      match system.stop with
      | .flushing before (slice :: slices) =>
          { system.settle slice outcome with stop := .flushing before slices }
      | _ => system
  | .stopDone committed =>
      match system.stop with
      | .flushing before [] => system.stopDone before committed
      | _ => system

def systemAfter (settings : Settings) (tables : Axis → List Row) (actions : List Action) : System :=
  StepRuns.run (System.step settings) (System.initial tables) actions

/-- When `stop()` has returned: every entry accepted before it began is in exactly one
booked slice, or failed with its company, and so are some of the later ones; the tables
have grown by what is booked; and a failed slice is of one company. -/
def BookedOnce (tables : Axis → List Row) (system : System) : Prop :=
  ∀ before, system.stop = .returned before → system.loop = .notStarted ∨ system.loop = .ended →
    (∃ later, (before ++ later).Perm (system.booked.entries ++ system.failed.entries)) ∧
      (∀ axis date orgId targetId, stored (system.tables axis) date orgId targetId =
        stored (tables axis) date orgId targetId +
          spent axis system.booked.entries date orgId targetId) ∧
      ∀ slice ∈ system.booked ++ system.failed, ∀ entry ∈ slice.2, entry.tenantId = slice.1

def Unhurried (system : System) : Action → Prop
  | .add entry => Representable entry.costUsd
  | .cancelLoop committed => system.loop.dropped committed = []
  | .stop committed => system.queue = [] → system.loop.dropped committed = []
  | .stopDone committed => ∀ before, system.stop = .flushing before [] →
      system.loop.dropped committed = []
  | _ => True

/-- Every entry that has left the queue is in one place. -/
structure System.Conserved (system : System) : Prop where
  conserved : ∀ entry, system.taken.count entry =
    system.booked.entries.count entry + system.failed.entries.count entry +
      system.cut.entries.count entry + system.loop.slices.entries.count entry +
      system.stop.slices.entries.count entry
  before : ∀ before, (∃ slices, system.stop = .flushing before slices) ∨
    system.stop = .returned before → before <+: system.taken
  companies : ∀ slice ∈ system.booked ++ system.failed ++ system.loop.slices ++ system.stop.slices,
    ∀ entry ∈ slice.2, entry.tenantId = slice.1

theorem count_groupByTenant (entries : List SpendEntry) (entry : SpendEntry) :
    (Slices.entries (groupByTenant entries)).count entry = entries.count entry :=
  (flatMap_groups_perm SpendEntry.tenantId entries).count_eq entry

theorem companies_groupByTenant (entries : List SpendEntry) :
    ∀ slice ∈ groupByTenant entries, ∀ entry ∈ slice.2, entry.tenantId = slice.1 :=
  keyOf_mem_groups SpendEntry.tenantId entries

@[simp]
theorem Slices.entries_append (first second : Slices) :
    Slices.entries (first ++ second) = first.entries ++ second.entries :=
  List.flatMap_append

section Steps

variable {system : System}

/-- A step that only moves the loop between places where it holds no slices. -/
theorem System.Conserved.moveLoop (conserved : system.Conserved) (empty : system.loop.slices = [])
    {stopping : Bool} {loop : Loop} (stillEmpty : loop.slices = []) :
    ({ system with stopping := stopping, loop := loop } : System).Conserved where
  conserved := by
    rw [stillEmpty, ← empty]
    exact conserved.conserved
  before := conserved.before
  companies := by
    rw [stillEmpty, ← empty]
    exact conserved.companies

theorem System.Conserved.afterRound (conserved : system.Conserved)
    (empty : system.loop.slices = []) : system.afterRound.Conserved := by
  apply conserved.moveLoop empty
  split <;> rfl

theorem conserved_take (settings : Settings) (conserved : system.Conserved) :
    (system.take settings).Conserved := by
  rw [System.take]
  split
  · rename_i possible
    have empty : system.loop.slices = [] := by rw [possible.1]; rfl
    refine ⟨fun entry => ?_, fun before stopped => ?_, fun slice member => ?_⟩
    · have old := conserved.conserved entry
      rw [empty, Slices.entries_nil, List.count_nil] at old
      simp only [Loop.slices, List.count_append, count_groupByTenant]
      omega
    · exact (conserved.before before stopped).trans (List.prefix_append _ _)
    · have old := conserved.companies slice
      rw [empty, List.append_nil] at old
      simp only [Loop.slices, List.mem_append] at member old
      rcases member with (settled | new) | stopped
      · exact old (Or.inl settled)
      · exact companies_groupByTenant _ slice new
      · exact old (Or.inr stopped)
  · exact conserved

theorem conserved_loopFlush (conserved : system.Conserved) {slice : Uuid × List SpendEntry}
    {slices : Slices} (flushing : system.loop = .flushing (slice :: slices)) (outcome : Outcome) :
    ({ system.settle slice outcome with loop := .flushing slices } : System).Conserved := by
  refine ⟨fun entry => ?_, ?_, fun other member => ?_⟩
  · have old := conserved.conserved entry
    rw [flushing] at old
    cases outcome <;>
      simp only [System.settle, Loop.slices, Slices.entries_append, Slices.entries_cons,
        Slices.entries_nil, List.append_nil, List.count_append] at old ⊢ <;>
      omega
  · cases outcome <;> exact conserved.before
  · apply conserved.companies other
    rw [flushing]
    cases outcome <;>
      simp only [System.settle, Loop.slices, List.mem_append, List.mem_cons, List.not_mem_nil,
        or_false] at member ⊢ <;>
      tauto

theorem conserved_stopFlush (conserved : system.Conserved) {before : List SpendEntry}
    {slice : Uuid × List SpendEntry} {slices : Slices}
    (flushing : system.stop = .flushing before (slice :: slices)) (outcome : Outcome) :
    ({ system.settle slice outcome with stop := .flushing before slices } : System).Conserved := by
  refine ⟨fun entry => ?_, ?_, fun other member => ?_⟩
  · have old := conserved.conserved entry
    rw [flushing] at old
    cases outcome <;>
      simp only [System.settle, Stop.slices, Slices.entries_append, Slices.entries_cons,
        Slices.entries_nil, List.append_nil, List.count_append] at old ⊢ <;>
      omega
  · have old := conserved.before before (Or.inl ⟨_, flushing⟩)
    rintro other (⟨_, stopped⟩ | stopped)
    · cases stopped
      cases outcome <;> exact old
    · cases stopped
  · apply conserved.companies other
    rw [flushing]
    cases outcome <;>
      simp only [System.settle, Stop.slices, List.mem_append, List.mem_cons, List.not_mem_nil,
        or_false] at member ⊢ <;>
      tauto

theorem conserved_cancelLoop (conserved : system.Conserved) (committed : Bool) :
    (system.cancelLoop committed).Conserved := by
  rw [System.cancelLoop]
  split
  · exact conserved
  · rename_i slice slices flushing
    have settled := conserved_loopFlush conserved flushing .committed
    split
    · refine ⟨fun entry => ?_, settled.before, fun other member => ?_⟩
      · have old := settled.conserved entry
        simp only [System.settle, Loop.slices, Slices.entries_append, Slices.entries_nil,
          List.count_append, List.count_nil] at old ⊢
        omega
      · apply settled.companies other
        simp only [System.settle, Loop.slices, List.mem_append, List.not_mem_nil, or_false]
          at member ⊢
        tauto
    · refine ⟨fun entry => ?_, conserved.before, fun other member => ?_⟩
      · have old := conserved.conserved entry
        rw [flushing] at old
        simp only [Loop.slices, Slices.entries_append, Slices.entries_nil, List.count_append,
          List.count_nil] at old ⊢
        omega
      · apply conserved.companies other
        rw [flushing]
        simp only [Loop.slices, List.mem_append, List.not_mem_nil, or_false] at member ⊢
        tauto
  · apply conserved.moveLoop _ rfl
    rename_i notStarted notFlushing
    cases loopEq : system.loop with
    | flushing slices =>
        cases slices with
        | nil => rfl
        | cons slice slices => exact absurd loopEq (notFlushing slice slices)
    | _ => rfl

theorem cancelLoop_stop (system : System) (committed : Bool) :
    (system.cancelLoop committed).stop = system.stop := by
  rw [System.cancelLoop]
  split
  · rfl
  · split <;> rfl
  · rfl

theorem cancelLoop_taken (system : System) (committed : Bool) :
    (system.cancelLoop committed).taken = system.taken := by
  rw [System.cancelLoop]
  split
  · rfl
  · split <;> rfl
  · rfl

theorem conserved_stopDone (conserved : system.Conserved) {before : List SpendEntry}
    (empty : system.stop.slices = []) (taken : before <+: system.taken) (committed : Bool) :
    (system.stopDone before committed).Conserved := by
  have cancelled := conserved_cancelLoop conserved committed
  refine ⟨fun entry => ?_, ?_, fun slice member => ?_⟩
  · have old := cancelled.conserved entry
    rw [cancelLoop_stop, empty] at old
    exact old
  · rintro other (⟨_, stopped⟩ | stopped)
    · cases stopped
    · cases stopped
      rw [System.stopDone, cancelLoop_taken]
      exact taken
  · apply cancelled.companies slice
    rw [cancelLoop_stop, empty]
    exact member

theorem conserved_beginStop (conserved : system.Conserved) (committed : Bool) :
    (system.beginStop committed).Conserved := by
  rw [System.beginStop]
  split
  · exact conserved
  · rename_i notFlushing
    have empty : system.stop.slices = [] := by
      cases stopEq : system.stop with
      | flushing before slices => exact absurd stopEq (notFlushing before slices)
      | _ => rfl
    dsimp only
    split
    · rename_i drained
      have same : ({ system with
          stopping := true, queue := [], taken := system.taken ++ system.queue } :
          System).Conserved := by
        rw [drained, List.append_nil]
        exact ⟨conserved.conserved, conserved.before, conserved.companies⟩
      exact conserved_stopDone same empty (List.prefix_refl _) committed
    · refine ⟨fun entry => ?_, ?_, fun slice member => ?_⟩
      · have old := conserved.conserved entry
        rw [empty] at old
        simp only [Stop.slices, Slices.entries_nil, List.count_nil, List.count_append,
          count_groupByTenant] at old ⊢
        omega
      · rintro before (⟨_, stopped⟩ | stopped)
        · cases stopped
          exact List.prefix_refl _
        · cases stopped
      · rcases List.mem_append.mp member with old | new
        · exact conserved.companies slice (List.mem_append_left _ old)
        · exact companies_groupByTenant _ slice new

/-- No step loses track of an entry or books it twice. -/
theorem conserved_step (settings : Settings) (conserved : system.Conserved) (action : Action) :
    (system.step settings action).Conserved := by
  cases action with
  | add entry =>
      rw [System.step, System.add]
      split
      · exact ⟨conserved.conserved, conserved.before, conserved.companies⟩
      · exact conserved
  | start =>
      rw [System.step]
      split
      · rename_i idle
        apply conserved.moveLoop _ rfl
        rcases idle with idle | idle <;> rw [idle] <;> rfl
      · exact conserved
  | take => exact conserved_take settings conserved
  | timeout =>
      rw [System.step]
      split
      · rename_i waiting
        exact conserved.afterRound (by rw [waiting]; rfl)
      · exact conserved
  | loopFlush outcome =>
      rw [System.step]
      split
      · rename_i slice slices flushing
        exact conserved_loopFlush conserved flushing outcome
      · exact conserved
  | loopDone =>
      rw [System.step]
      split
      · rename_i done
        exact conserved.afterRound (by rw [done]; rfl)
      · exact conserved
  | cancelLoop committed => exact conserved_cancelLoop conserved committed
  | stop committed => exact conserved_beginStop conserved committed
  | stopFlush outcome =>
      rw [System.step]
      split
      · rename_i before slice slices flushing
        exact conserved_stopFlush conserved flushing outcome
      · exact conserved
  | stopDone committed =>
      rw [System.step]
      split
      · rename_i before flushing
        apply conserved_stopDone conserved (by rw [flushing]; rfl)
        exact conserved.before before (Or.inl ⟨_, flushing⟩)
      · exact conserved

end Steps

/-- The tables have grown by what is booked, and no slice was cut off. -/
structure System.Exact (tables : Axis → List Row) (system : System) : Prop extends
    system.Conserved where
  representable : ∀ entry ∈ system.accepted, Representable entry.costUsd
  tables_eq : ∀ axis date orgId targetId, stored (system.tables axis) date orgId targetId =
    stored (tables axis) date orgId targetId +
      spent axis system.booked.entries date orgId targetId
  whole : system.cut = []

section Exact

variable {tables : Axis → List Row} {system : System}

/-- A slice in a flush is made of accepted entries. -/
theorem System.Exact.representable_slice (exactly : system.Exact tables)
    {slice : Uuid × List SpendEntry}
    (member : slice ∈ system.loop.slices ∨ slice ∈ system.stop.slices) :
    ∀ entry ∈ slice.2, Representable entry.costUsd := by
  intro entry entryMem
  apply exactly.representable entry
  refine List.mem_append_left _ (List.count_pos_iff.mp ?_)
  have counted := exactly.conserved entry
  rcases member with inLoop | inStop
  · have present : 0 < system.loop.slices.entries.count entry :=
      List.count_pos_iff.mpr (List.mem_flatMap.mpr ⟨slice, inLoop, entryMem⟩)
    omega
  · have present : 0 < system.stop.slices.entries.count entry :=
      List.count_pos_iff.mpr (List.mem_flatMap.mpr ⟨slice, inStop, entryMem⟩)
    omega

theorem System.Exact.settle_tables (exactly : system.Exact tables)
    {slice : Uuid × List SpendEntry}
    (member : slice ∈ system.loop.slices ∨ slice ∈ system.stop.slices) (outcome : Outcome)
    (axis : Axis) (date : ℕ) (orgId : Option Uuid) (targetId : Uuid) :
    stored ((system.settle slice outcome).tables axis) date orgId targetId =
      stored (tables axis) date orgId targetId +
        spent axis (system.settle slice outcome).booked.entries date orgId targetId := by
  cases outcome with
  | raised => exact exactly.tables_eq axis date orgId targetId
  | committed =>
      rw [System.settle, stored_flushTenant _ (exactly.representable_slice member),
        exactly.tables_eq, Slices.entries_append, spent_append, add_assoc, Slices.entries_cons,
        Slices.entries_nil, List.append_nil]

theorem settle_accepted (system : System) (slice : Uuid × List SpendEntry) (outcome : Outcome) :
    (system.settle slice outcome).accepted = system.accepted := by
  cases outcome <;> rfl

theorem settle_cut (system : System) (slice : Uuid × List SpendEntry) (outcome : Outcome) :
    (system.settle slice outcome).cut = system.cut := by
  cases outcome <;> rfl

theorem exact_cancelLoop (exactly : system.Exact tables) {committed : Bool}
    (unhurried : system.loop.dropped committed = []) :
    (system.cancelLoop committed).Exact tables where
  toConserved := conserved_cancelLoop exactly.toConserved committed
  representable := by
    rw [System.cancelLoop]
    split
    · exact exactly.representable
    · split <;> exact exactly.representable
    · exact exactly.representable
  tables_eq := by
    intro axis date orgId targetId
    rw [System.cancelLoop]
    split
    · exact exactly.tables_eq axis date orgId targetId
    · rename_i slice slices flushing
      split
      · apply exactly.settle_tables (Or.inl _) .committed
        rw [flushing]
        exact List.mem_cons_self
      · exact exactly.tables_eq axis date orgId targetId
    · exact exactly.tables_eq axis date orgId targetId
  whole := by
    rw [System.cancelLoop]
    split
    · exact exactly.whole
    · rename_i slice slices flushing
      rw [flushing] at unhurried
      cases committed with
      | true =>
          have rest : slices = [] := unhurried
          rw [if_pos rfl]
          show system.cut ++ slices = []
          rw [exactly.whole, rest]
          rfl
      | false => cases unhurried
    · exact exactly.whole

theorem exact_stopDone (exactly : system.Exact tables) {before : List SpendEntry}
    (empty : system.stop.slices = []) (taken : before <+: system.taken) {committed : Bool}
    (unhurried : system.loop.dropped committed = []) :
    (system.stopDone before committed).Exact tables where
  toConserved := conserved_stopDone exactly.toConserved empty taken committed
  representable := (exact_cancelLoop exactly unhurried).representable
  tables_eq := (exact_cancelLoop exactly unhurried).tables_eq
  whole := (exact_cancelLoop exactly unhurried).whole

theorem exact_beginStop (exactly : system.Exact tables) {committed : Bool}
    (unhurried : system.queue = [] → system.loop.dropped committed = []) :
    (system.beginStop committed).Exact tables := by
  have conserved := conserved_beginStop exactly.toConserved committed
  rw [System.beginStop] at conserved ⊢
  split
  · exact exactly
  · rename_i notFlushing
    split at conserved
    · rename_i flushing
      exact absurd flushing (notFlushing _ _)
    dsimp only at conserved ⊢
    split
    · rename_i drained
      rw [if_pos drained] at conserved
      have same : ({ system with
          stopping := true, queue := [], taken := system.taken ++ system.queue } :
          System).Exact tables := by
        rw [drained, List.append_nil]
        refine ⟨⟨exactly.conserved, exactly.before, exactly.companies⟩, ?_, exactly.tables_eq,
          exactly.whole⟩
        have representable := exactly.representable
        rw [System.accepted, drained] at representable
        exact representable
      have cancelled := exact_cancelLoop same (unhurried drained)
      exact ⟨conserved, cancelled.representable, cancelled.tables_eq, cancelled.whole⟩
    · rename_i queued
      rw [if_neg queued] at conserved
      refine ⟨conserved, ?_, exactly.tables_eq, exactly.whole⟩
      show ∀ entry ∈ (system.taken ++ system.queue) ++ [], Representable entry.costUsd
      rw [List.append_nil]
      exact exactly.representable

theorem exact_step (settings : Settings) (exactly : system.Exact tables) {action : Action}
    (unhurried : Unhurried system action) : (system.step settings action).Exact tables := by
  have conserved := conserved_step settings exactly.toConserved action
  cases action with
  | add entry =>
      rw [System.step, System.add] at conserved ⊢
      split
      · rename_i room
        rw [if_pos room] at conserved
        refine ⟨conserved, fun other member => ?_, exactly.tables_eq, exactly.whole⟩
        rw [System.accepted, ← List.append_assoc] at member
        rcases List.mem_append.mp member with old | new
        · exact exactly.representable other old
        · rw [List.mem_singleton.mp new]
          exact unhurried
      · exact exactly
  | start =>
      rw [System.step] at conserved ⊢
      split
      · rename_i idle
        rw [if_pos idle] at conserved
        exact ⟨conserved, exactly.representable, exactly.tables_eq, exactly.whole⟩
      · exact exactly
  | take =>
      rw [System.step, System.take] at conserved ⊢
      split
      · rename_i possible
        rw [if_pos possible] at conserved
        refine ⟨conserved, fun entry member => ?_, exactly.tables_eq, exactly.whole⟩
        rw [System.accepted, List.append_assoc, List.take_append_drop] at member
        exact exactly.representable entry member
      · exact exactly
  | timeout =>
      rw [System.step] at conserved ⊢
      split
      · rename_i waiting
        rw [if_pos waiting] at conserved
        exact ⟨conserved, exactly.representable, exactly.tables_eq, exactly.whole⟩
      · exact exactly
  | loopFlush outcome =>
      rw [System.step] at conserved ⊢
      split
      · rename_i slice slices flushing
        rw [flushing] at conserved
        have member : slice ∈ system.loop.slices := by
          rw [flushing]
          exact List.mem_cons_self
        refine ⟨conserved, ?_, exactly.settle_tables (Or.inl member) outcome, ?_⟩
        · rw [show System.accepted { system.settle slice outcome with loop := .flushing slices } =
            system.accepted from settle_accepted system slice outcome]
          exact exactly.representable
        · exact (settle_cut system slice outcome).trans exactly.whole
      · exact exactly
  | loopDone =>
      rw [System.step] at conserved ⊢
      split
      · rename_i done
        rw [if_pos done] at conserved
        exact ⟨conserved, exactly.representable, exactly.tables_eq, exactly.whole⟩
      · exact exactly
  | cancelLoop committed => exact exact_cancelLoop exactly unhurried
  | stop committed => exact exact_beginStop exactly unhurried
  | stopFlush outcome =>
      rw [System.step] at conserved ⊢
      split
      · rename_i before slice slices flushing
        rw [flushing] at conserved
        have member : slice ∈ system.stop.slices := by
          rw [flushing]
          exact List.mem_cons_self
        refine ⟨conserved, ?_, exactly.settle_tables (Or.inr member) outcome, ?_⟩
        · rw [show System.accepted
              { system.settle slice outcome with stop := .flushing before slices } =
            system.accepted from settle_accepted system slice outcome]
          exact exactly.representable
        · exact (settle_cut system slice outcome).trans exactly.whole
      · exact exactly
  | stopDone committed =>
      rw [System.step]
      split
      · rename_i before flushing
        apply exact_stopDone exactly (by rw [flushing]; rfl) _ (unhurried before flushing)
        exact exactly.before before (Or.inl ⟨_, flushing⟩)
      · exact exactly

theorem System.Exact.bookedOnce (exactly : system.Exact tables) : BookedOnce tables system := by
  intro before returned idle
  have empty : system.loop.slices = [] := by
    rcases idle with idle | idle <;> rw [idle] <;> rfl
  refine ⟨?_, exactly.tables_eq, fun slice member => ?_⟩
  · obtain ⟨later, takenEq⟩ := exactly.before before (Or.inr returned)
    refine ⟨later, List.perm_iff_count.mpr fun entry => ?_⟩
    have counted := exactly.conserved entry
    rw [exactly.whole, empty, returned] at counted
    rw [takenEq, counted, List.count_append]
    rfl
  · exact exactly.companies slice (List.mem_append_left _ (List.mem_append_left _ member))

end Exact

theorem exact_initial (tables : Axis → List Row) : (System.initial tables).Exact tables :=
  ⟨⟨fun _ => rfl, by simp [System.initial], by simp [System.initial, Loop.slices, Stop.slices]⟩,
    by simp [System.initial, System.accepted],
    fun axis date orgId targetId => by simp [System.initial, spent, Slices.entries], rfl⟩

/-- In a run in which no flush of the loop is cancelled, stopping leaves every entry
accepted before it in exactly one booked or failed slice. -/
theorem spend_booked_once (settings : Settings) (tables : Axis → List Row) {actions : List Action}
    (unhurried : StepRuns.EveryStep (System.step settings) Unhurried (System.initial tables)
      actions) : BookedOnce tables (systemAfter settings tables actions) := by
  have exactly := StepRuns.run_allowed_invariant (System.Exact tables)
    (fun _ _ allowed kept => exact_step settings kept allowed) (exact_initial tables) unhurried
  exact exactly.bookedOnce

def entryOfUser : SpendEntry where
  date := 20000
  userId := 1
  tokensIn := 2
  tokensOut := 0
  costUsd := 0
  agentId := none
  modelId := none
  requestCount := 1
  orgId := some 3
  tenantId := 4

/-- Stopping before the loop takes the entry. -/
theorem spend_booked_once_drained : BookedOnce (fun _ => [])
    (systemAfter ⟨100, 10000⟩ (fun _ => [])
      [.start, .add entryOfUser, .stop false, .stopFlush .committed, .stopDone false]) :=
  spend_booked_once ⟨100, 10000⟩ (fun _ => [])
    ⟨trivial, representable_zero, fun empty => absurd empty (by decide), trivial,
      fun _ _ => rfl, trivial⟩

def stoppedWhileFlushing : List Action :=
  [.start, .add entryOfUser, .take, .stop false]

/-- The entry is lost: it is in no committed flush when `stop()` has returned. -/
theorem stoppedWhileFlushing_loses :
    ¬ BookedOnce (fun _ => []) (systemAfter ⟨100, 10000⟩ (fun _ => []) stoppedWhileFlushing) := by
  intro booked
  obtain ⟨⟨later, perm⟩, _⟩ := booked [entryOfUser] rfl (Or.inr rfl)
  have nothing : ([entryOfUser] ++ later).Perm [] := perm
  exact absurd nothing.length_eq (by simp)

end NaturalMold.Spend

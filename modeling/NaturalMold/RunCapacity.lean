import NaturalMold.ConversationRuns

/-!
# The limit on a company's concurrent runs

A transaction that creates a run holds the row of its company with a shared lock and the row of its
conversation with an exclusive one.
-/

namespace NaturalMold.Capacity

open Conversations (Uuid RunSource RunStatus Raised runActiveStatuses allowedTransitions)

/-- The columns of a run that the statements below read. -/
structure CompanyRun where
  tenantId : Uuid
  conversationId : Uuid
  source : RunSource
  status : RunStatus
  isActive : Bool
  deriving DecidableEq

def CompanyRun.Counts (run : CompanyRun) (tenantId : Uuid) : Bool :=
  run.tenantId = tenantId && runActiveStatuses.contains run.status

def activeRunCount (runs : List CompanyRun) (tenantId : Uuid) : ℕ :=
  runs.countP fun run => run.Counts tenantId

/-- `int_limit` of a stored number. -/
def intLimit (value : Option ℤ) : Option ℕ :=
  value.bind fun number => if 0 ≤ number then some number.toNat else none

/-- The check of `require_run_capacity` on the active runs that were counted. -/
def requireRunCapacity (cap used : ℕ) : Except Raised Unit :=
  if cap ≤ used then .error (.appError "quota_exceeded") else .ok ()

/-- The last statement of a transaction that creates a run. -/
inductive Phase
  | locked
  | unoccupied
  | limited (cap : ℕ)
  | admitted
  | flushed
  | committed
  | rolledBack
  deriving DecidableEq

/-- A transaction that creates a run, from the locks on. -/
structure Creation where
  tenantId : Uuid
  conversationId : Uuid
  source : RunSource
  attributed : Bool
  phase : Phase
  deriving DecidableEq

/-- `admit_run` does something: the run is attributed and not a resume. -/
def Creation.enforced (creation : Creation) : Bool :=
  creation.attributed && creation.source ≠ .resume

/-- The transaction holds its locks. -/
def Creation.isOpen (creation : Creation) : Bool :=
  creation.phase ≠ .committed && creation.phase ≠ .rolledBack

def Creation.newRun (creation : Creation) : CompanyRun where
  tenantId := creation.tenantId
  conversationId := creation.conversationId
  source := creation.source
  status := .queued
  isActive := true

/-- The committed runs, `tenants.limits["concurrent_run_limit"]`, and all transactions so
far. -/
structure System where
  runs : List CompanyRun
  limits : Uuid → Option ℤ
  creations : List Creation

def System.initial (runs : List CompanyRun) (limits : Uuid → Option ℤ) : System where
  runs := runs
  limits := limits
  creations := []

def System.cap (system : System) (tenantId : Uuid) : Option ℕ :=
  intLimit (system.limits tenantId)

/-- A committed active run is in the conversation. -/
def System.Occupied (system : System) (conversationId : Uuid) : Prop :=
  ∃ run ∈ system.runs, run.conversationId = conversationId ∧ run.isActive

instance (system : System) (conversationId : Uuid) : Decidable (system.Occupied conversationId) :=
  inferInstanceAs (Decidable (∃ run ∈ system.runs, _))

/-- What the next statement of a transaction leads to. -/
def System.nextPhase (system : System) (creation : Creation) : Phase :=
  match creation.phase with
  | .locked => if system.Occupied creation.conversationId then .rolledBack else .unoccupied
  | .unoccupied =>
      if creation.enforced then
        match system.cap creation.tenantId with
        | some cap => .limited cap
        | none => .admitted
      else .admitted
  | .limited cap =>
      match requireRunCapacity cap (activeRunCount system.runs creation.tenantId) with
      | .ok () => .admitted
      | .error _ => .rolledBack
  -- The unique index on the active runs of a conversation.
  | .admitted => if system.Occupied creation.conversationId then .rolledBack else .flushed
  | .flushed => .committed
  | .committed => .committed
  | .rolledBack => .rolledBack

inductive Action
  | lock (tenantId conversationId : Uuid) (source : RunSource) (attributed : Bool)
  | execute (index : ℕ)
  | rollback (index : ℕ)
  | transition (index : ℕ) (status : RunStatus)
  | setLimit (tenantId : Uuid) (value : Option ℤ)

/-- One statement of a transaction; the last one commits its run. -/
def System.execute (system : System) (index : ℕ) : System :=
  match system.creations[index]? with
  | none => system
  | some creation =>
      { system with
        runs := if creation.phase = .flushed then system.runs ++ [creation.newRun] else system.runs
        creations :=
          system.creations.set index { creation with phase := system.nextPhase creation } }

/-- One step; a step that has to wait changes nothing.  A limit is written under the
exclusive lock of its company. -/
def System.step (system : System) : Action → System
  | .lock tenantId conversationId source attributed =>
      if system.creations.any fun other =>
          other.isOpen && other.conversationId = conversationId then system
      else
        { system with
          creations := system.creations ++
            [{ tenantId, conversationId, source, attributed, phase := .locked }] }
  | .execute index => system.execute index
  | .rollback index =>
      match system.creations[index]? with
      | none => system
      | some creation =>
          if creation.isOpen then
            { system with
              creations := system.creations.set index { creation with phase := .rolledBack } }
          else system
  | .transition index status =>
      match system.runs[index]? with
      | none => system
      | some run =>
          if status ∈ allowedTransitions run.status then
            let moved := { run with status, isActive := runActiveStatuses.contains status }
            { system with runs := system.runs.set index moved }
          else system
  | .setLimit tenantId value =>
      if system.creations.any fun other => other.isOpen && other.tenantId = tenantId then system
      else { system with limits := Function.update system.limits tenantId value }

def WithinLimit (system : System) : Action → Prop
  | .execute index => ∀ creation ∈ system.creations[index]?, creation.phase = .flushed →
      creation.enforced → ∀ cap ∈ system.cap creation.tenantId,
        activeRunCount (system.execute index).runs creation.tenantId ≤ cap
  | _ => True

instance : DecidableRel WithinLimit := fun system action =>
  match action with
  | .execute index => inferInstanceAs (Decidable (∀ creation ∈ system.creations[index]?, _))
  | .lock .. | .rollback _ | .transition .. | .setLimit .. => inferInstanceAs (Decidable True)

/-- A start of the company that has been admitted and is not committed. -/
def Creation.InFlight (creation : Creation) (tenantId : Uuid) : Bool :=
  creation.enforced && creation.tenantId = tenantId &&
    (creation.phase = .admitted || creation.phase = .flushed)

def System.inFlight (system : System) (tenantId : Uuid) : ℕ :=
  system.creations.countP fun creation => creation.InFlight tenantId

/-- The company has no start in flight, or there is room for one run more beside the
active ones and those in flight. -/
def System.HasRoom (system : System) (tenantId : Uuid) : Prop :=
  ∀ cap ∈ system.cap tenantId, system.inFlight tenantId = 0 ∨
    activeRunCount system.runs tenantId + system.inFlight tenantId < cap

instance (system : System) (tenantId : Uuid) : Decidable (system.HasRoom tenantId) :=
  inferInstanceAs (Decidable (∀ cap ∈ system.cap tenantId, _))

/-- The next statement lets the run through: its check passes, or it is committed without
one. -/
def System.letsThrough (system : System) (creation : Creation) : Bool :=
  match creation.phase with
  | .limited cap => activeRunCount system.runs creation.tenantId < cap
  | .flushed => !creation.enforced
  | _ => false

def RoomForInFlight (system : System) : Action → Prop
  | .execute index => ∀ creation ∈ system.creations[index]?, system.letsThrough creation →
      system.HasRoom creation.tenantId
  | _ => True

instance : DecidableRel RoomForInFlight := fun system action =>
  match action with
  | .execute index => inferInstanceAs (Decidable (∀ creation ∈ system.creations[index]?, _))
  | .lock .. | .rollback _ | .transition .. | .setLimit .. => inferInstanceAs (Decidable True)

variable {system : System}

variable {index : ℕ} {creation : Creation}

theorem inFlight_set (found : system.creations[index]? = some creation) (runs : List CompanyRun)
    (phase : Phase) (tenantId : Uuid) :
    ({ system with
        runs := runs
        creations := system.creations.set index { creation with phase := phase } } :
          System).inFlight tenantId +
        (if creation.InFlight tenantId then 1 else 0) =
      system.inFlight tenantId +
        (if ({ creation with phase := phase } : Creation).InFlight tenantId then 1 else 0) := by
  obtain ⟨bound, same⟩ := List.getElem?_eq_some_iff.mp found
  have present : (if creation.InFlight tenantId then 1 else 0) ≤ system.inFlight tenantId := by
    split
    · rename_i counted
      exact List.countP_pos_iff.mpr ⟨creation, List.mem_of_getElem? found, counted⟩
    · exact Nat.zero_le _
  unfold System.inFlight at present ⊢
  rw [List.countP_set bound, same]
  omega

theorem activeRunCount_append (runs : List CompanyRun) (run : CompanyRun) (tenantId : Uuid) :
    activeRunCount (runs ++ [run]) tenantId =
      activeRunCount runs tenantId + (if run.Counts tenantId then 1 else 0) := by
  rw [activeRunCount, List.countP_append, List.countP_singleton]
  rfl

theorem newRun_counts (creation : Creation) (tenantId : Uuid) :
    creation.newRun.Counts tenantId = decide (creation.tenantId = tenantId) :=
  Bool.and_true _

theorem activeRunCount_transition_le {runs : List CompanyRun} {run : CompanyRun}
    (found : runs[index]? = some run) {status : RunStatus}
    (allowed : status ∈ allowedTransitions run.status) (isActive : Bool) (tenantId : Uuid) :
    activeRunCount (runs.set index { run with status := status, isActive := isActive }) tenantId ≤
      activeRunCount runs tenantId := by
  obtain ⟨bound, same⟩ := List.getElem?_eq_some_iff.mp found
  have wasActive : run.status ∈ runActiveStatuses := by
    revert allowed
    cases run.status <;> simp [allowedTransitions, runActiveStatuses]
  have present : (if run.Counts tenantId then 1 else 0) ≤ activeRunCount runs tenantId := by
    split
    · rename_i counts
      exact List.countP_pos_iff.mpr ⟨run, List.mem_of_getElem? found, counts⟩
    · exact Nat.zero_le _
  unfold activeRunCount at present ⊢
  rw [List.countP_set bound, same]
  by_cases counts :
      ({ run with status := status, isActive := isActive } : CompanyRun).Counts tenantId
  · have counted : run.Counts tenantId := by
      simp only [CompanyRun.Counts, Bool.and_eq_true, List.contains_iff_mem] at counts ⊢
      exact ⟨counts.1, wasActive⟩
    rw [if_pos counted] at present ⊢
    rw [if_pos counts]
    omega
  · rw [if_neg counts]
    omega

theorem tenantId_of_inFlight {tenantId : Uuid} (inFlight : creation.InFlight tenantId) :
    creation.tenantId = tenantId := by
  simp only [Creation.InFlight, Bool.and_eq_true, decide_eq_true_eq] at inFlight
  exact inFlight.1.2

/-- A limit that was read still holds, and the active runs and the starts in flight are
together within the limit, if any are in flight. -/
structure System.Within (system : System) : Prop where
  limited : ∀ creation ∈ system.creations, ∀ cap, creation.phase = .limited cap →
    system.cap creation.tenantId = some cap
  room : ∀ tenantId cap, system.cap tenantId = some cap → system.inFlight tenantId = 0 ∨
    activeRunCount system.runs tenantId + system.inFlight tenantId ≤ cap

theorem within_initial (runs : List CompanyRun) (limits : Uuid → Option ℤ) :
    (System.initial runs limits).Within :=
  ⟨nofun, fun _ _ _ => Or.inl rfl⟩

/-- A transaction that only moves on between phases that are not in flight. -/
theorem System.Within.setPhase (within : system.Within)
    (found : system.creations[index]? = some creation) {phase : Phase}
    (limited : ∀ cap, phase = .limited cap → system.cap creation.tenantId = some cap)
    (room : ∀ cap, system.cap creation.tenantId = some cap →
      ({ creation with phase := phase } : Creation).InFlight creation.tenantId →
        ¬ creation.InFlight creation.tenantId →
          activeRunCount system.runs creation.tenantId + system.inFlight creation.tenantId < cap) :
    ({ system with
      creations := system.creations.set index { creation with phase := phase } } :
        System).Within where
  limited := by
    intro other member cap atLimited
    rcases List.mem_or_eq_of_mem_set member with old | rfl
    · exact within.limited other old cap atLimited
    · exact limited cap atLimited
  room := by
    intro tenantId cap capEq
    have counted := inFlight_set found system.runs phase tenantId
    have old := within.room tenantId cap capEq
    dsimp only
    by_cases enters : ({ creation with phase := phase } : Creation).InFlight tenantId ∧
        ¬ creation.InFlight tenantId
    · have same := tenantId_of_inFlight enters.1
      dsimp only at same
      subst same
      have fits := room cap capEq enters.1 enters.2
      rw [if_pos enters.1, if_neg enters.2] at counted
      omega
    · have fewer :
          (if ({ creation with phase := phase } : Creation).InFlight tenantId then 1 else 0) ≤
            if creation.InFlight tenantId then 1 else 0 := by
        split
        · rename_i inFlight
          rw [if_pos (not_not.mp fun left => enters ⟨inFlight, left⟩)]
        · exact Nat.zero_le _
      omega

theorem System.Within.commit (within : system.Within)
    (found : system.creations[index]? = some creation) (flushed : creation.phase = .flushed)
    (room : ¬ creation.enforced → system.HasRoom creation.tenantId) :
    ({ system with
      runs := system.runs ++ [creation.newRun]
      creations := system.creations.set index { creation with phase := .committed } } :
      System).Within where
  limited := by
    intro other member cap atLimited
    rcases List.mem_or_eq_of_mem_set member with old | rfl
    · exact within.limited other old cap atLimited
    · cases atLimited
  room := by
    intro tenantId cap capEq
    have counted := inFlight_set found (system.runs ++ [creation.newRun]) .committed tenantId
    have old := within.room tenantId cap capEq
    have left : ¬ ({ creation with phase := .committed } : Creation).InFlight tenantId := by
      simp [Creation.InFlight]
    have appended := activeRunCount_append system.runs creation.newRun tenantId
    rw [newRun_counts] at appended
    rw [if_neg left] at counted
    dsimp only
    by_cases same : creation.tenantId = tenantId
    · subst same
      rw [if_pos (decide_eq_true rfl)] at appended
      by_cases enforced : creation.enforced
      · have inFlight : creation.InFlight creation.tenantId := by
          simp [Creation.InFlight, enforced, flushed]
        rw [if_pos inFlight] at counted
        omega
      · have inFlight : ¬ creation.InFlight creation.tenantId := by
          simp [Creation.InFlight, enforced]
        rw [if_neg inFlight] at counted
        have fits := room enforced cap capEq
        omega
    · have inFlight : ¬ creation.InFlight tenantId := fun inFlight =>
        same (tenantId_of_inFlight inFlight)
      rw [if_neg inFlight] at counted
      rw [decide_eq_false same, if_neg Bool.false_ne_true] at appended
      omega

theorem execute_eq_commit (found : system.creations[index]? = some creation)
    (flushed : creation.phase = .flushed) :
    system.execute index =
      { system with
        runs := system.runs ++ [creation.newRun]
        creations := system.creations.set index { creation with phase := .committed } } := by
  simp only [System.execute, found, System.nextPhase, flushed, if_true]

theorem execute_eq_setPhase (found : system.creations[index]? = some creation)
    (notFlushed : creation.phase ≠ .flushed) :
    system.execute index =
      { system with
        creations :=
          system.creations.set index { creation with phase := system.nextPhase creation } } := by
  simp only [System.execute, found, if_neg notFlushed]

/-- A limit is read where it stands. -/
theorem cap_of_nextPhase_limited {cap : ℕ} (next : system.nextPhase creation = .limited cap) :
    system.cap creation.tenantId = some cap := by
  unfold System.nextPhase at next
  split at next
  · split at next <;> cases next
  · split at next
    · split at next
      · rename_i read
        cases next
        exact read
      · cases next
    · cases next
  · split at next <;> cases next
  · split at next <;> cases next
  all_goals cases next

theorem checked_of_enters (enforced : creation.enforced)
    (outside : ¬ creation.InFlight creation.tenantId) {cap : ℕ}
    (capEq : system.cap creation.tenantId = some cap)
    (limited : ∀ read, creation.phase = .limited read → read = cap)
    (enters : system.nextPhase creation = .admitted ∨ system.nextPhase creation = .flushed) :
    creation.phase = .limited cap ∧ activeRunCount system.runs creation.tenantId < cap := by
  cases phase : creation.phase with
  | limited read =>
      obtain rfl := limited read phase
      refine ⟨rfl, ?_⟩
      simp only [System.nextPhase, phase, requireRunCapacity] at enters
      by_contra full
      rw [if_pos (Nat.le_of_not_lt full)] at enters
      simp at enters
  | locked =>
      simp only [System.nextPhase, phase] at enters
      split at enters <;> simp at enters
  | unoccupied => simp [System.nextPhase, phase, enforced, capEq] at enters
  | admitted => exact absurd (by simp [Creation.InFlight, enforced, phase]) outside
  | flushed => exact absurd (by simp [Creation.InFlight, enforced, phase]) outside
  | committed => simp [System.nextPhase, phase] at enters
  | rolledBack => simp [System.nextPhase, phase] at enters

/-- One statement of a transaction. -/
theorem within_execute (within : system.Within) (room : RoomForInFlight system (.execute index)) :
    (system.execute index).Within := by
  cases found : system.creations[index]? with
  | none =>
      simp only [System.execute, found]
      exact within
  | some creation =>
      have member := List.mem_of_getElem? found
      have roomHere := room creation found
      by_cases flushed : creation.phase = .flushed
      · rw [execute_eq_commit found flushed]
        apply within.commit found flushed
        intro unchecked
        apply roomHere
        simpa [System.letsThrough, flushed] using unchecked
      · rw [execute_eq_setPhase found flushed]
        apply within.setPhase found
        · exact fun cap next => cap_of_nextPhase_limited next
        · intro cap capEq enters outside
          simp only [Creation.InFlight, Bool.and_eq_true, Bool.or_eq_true, decide_eq_true_eq]
            at enters
          have stillRead : ∀ read, creation.phase = .limited read → read = cap :=
            fun read atRead =>
              Option.some.inj ((within.limited creation member read atRead).symm.trans capEq)
          obtain ⟨atLimited, below⟩ :=
            @checked_of_enters system creation enters.1.1 outside cap capEq stillRead enters.2
          have fits := roomHere (by simpa [System.letsThrough, atLimited] using below) cap capEq
          omega

/-- While a transaction holds the lock of its company, the limit stays as it is. -/
theorem within_setLimit (within : system.Within) (tenantId : Uuid) (value : Option ℤ)
    (unlocked : ∀ creation ∈ system.creations, creation.isOpen →
      creation.tenantId ≠ tenantId) :
    ({ system with limits := Function.update system.limits tenantId value } : System).Within := by
  have sameCap : ∀ other, other ≠ tenantId →
      System.cap { system with limits := Function.update system.limits tenantId value } other =
        system.cap other := by
    intro other differs
    simp only [System.cap, Function.update_of_ne differs]
  constructor
  · intro creation member cap atLimited
    have holds : creation.isOpen := by simp [Creation.isOpen, atLimited]
    rw [sameCap _ (unlocked creation member holds)]
    exact within.limited creation member cap atLimited
  · intro other cap capEq
    by_cases same : other = tenantId
    · left
      apply List.countP_eq_zero.mpr
      intro creation member inFlight
      have holds : creation.isOpen := by
        simp only [Creation.InFlight, Bool.and_eq_true, Bool.or_eq_true, decide_eq_true_eq]
          at inFlight
        rcases inFlight.2 with phase | phase <;> simp [Creation.isOpen, phase]
      exact unlocked creation member holds ((tenantId_of_inFlight inFlight).trans same)
    · rw [sameCap other same] at capEq
      exact within.room other cap capEq

theorem within_step (within : system.Within) {action : Action}
    (room : RoomForInFlight system action) : (system.step action).Within := by
  cases action with
  | lock tenantId conversationId source attributed =>
      rw [System.step]
      split
      · exact within
      · constructor
        · intro creation member cap atLimited
          rcases List.mem_append.mp member with old | new
          · exact within.limited creation old cap atLimited
          · rw [List.mem_singleton.mp new] at atLimited
            cases atLimited
        · intro other cap capEq
          have outside : System.inFlight { system with
              creations := system.creations ++
                [{ tenantId, conversationId, source, attributed, phase := .locked }] } other =
                system.inFlight other := by
            simp [System.inFlight, List.countP_append, Creation.InFlight]
          rw [outside]
          exact within.room other cap capEq
  | execute index => exact within_execute within room
  | rollback index =>
      rw [System.step]
      split
      · exact within
      · rename_i creation found
        split
        · apply within.setPhase found
          · nofun
          · intro cap _ enters
            simp [Creation.InFlight] at enters
        · exact within
  | transition index status =>
      rw [System.step]
      split
      · exact within
      · rename_i run found
        split
        · rename_i allowed
          refine ⟨within.limited, fun tenantId cap capEq => ?_⟩
          have fewer := activeRunCount_transition_le found allowed
            (runActiveStatuses.contains status) tenantId
          have old := within.room tenantId cap capEq
          exact old.imp_right fun fits => (Nat.add_le_add_right fewer _).trans fits
        · exact within
  | setLimit tenantId value =>
      rw [System.step]
      split
      · exact within
      · rename_i unlocked
        apply within_setLimit within
        simpa using unlocked

/-- A start that is committed was in flight, so that there was room for it. -/
theorem withinLimit_of_within (within : system.Within) (action : Action) :
    WithinLimit system action := by
  cases action with
  | execute index =>
      intro creation found flushed enforced cap capEq
      have inFlight : creation.InFlight creation.tenantId := by
        simp [Creation.InFlight, enforced, flushed]
      have present : 0 < system.inFlight creation.tenantId :=
        List.countP_pos_iff.mpr ⟨creation, List.mem_of_getElem? found, inFlight⟩
      have appended := activeRunCount_append system.runs creation.newRun creation.tenantId
      rw [newRun_counts, if_pos (decide_eq_true rfl)] at appended
      rw [execute_eq_commit found flushed]
      dsimp only
      rcases within.room creation.tenantId cap capEq with none | fits <;> omega
  | _ => trivial

/-- If every check and every unchecked commit leaves room for the starts in flight, then
no start takes its company beyond its limit. -/
theorem run_limit_holds (runs : List CompanyRun) (limits : Uuid → Option ℤ)
    {actions : List Action}
    (room : StepRuns.EveryStep System.step RoomForInFlight (System.initial runs limits) actions) :
    StepRuns.EveryStep System.step WithinLimit (System.initial runs limits) actions :=
  StepRuns.everyStep_of_invariant System.Within (fun _ _ fits within => within_step within fits)
    (fun _ action _ within => withinLimit_of_within within action)
    (within_initial runs limits) room

def oneRun : Uuid → Option ℤ :=
  fun _ => some 1

/-- Two starts, one after the other; the second one is refused. -/
theorem run_limit_holds_in_turn :
    StepRuns.EveryStep System.step WithinLimit (System.initial [] oneRun)
      ([.lock 1 10 .chat true] ++ List.replicate 5 (.execute 0) ++ [.lock 1 20 .chat true] ++
        List.replicate 5 (.execute 1)) :=
  run_limit_holds [] oneRun (by decide)

/-- Two starts in different conversations, each counted before the other's commit. -/
def overlappingStarts : List Action :=
  [.lock 1 10 .chat true, .lock 1 20 .chat true] ++ List.replicate 3 (.execute 0) ++
    List.replicate 3 (.execute 1) ++ List.replicate 2 (.execute 0) ++
    List.replicate 2 (.execute 1)

/-- Both are committed. -/
theorem overlappingStarts_exceed :
    ¬ StepRuns.EveryStep System.step WithinLimit (System.initial [] oneRun) overlappingStarts := by
  decide

end NaturalMold.Capacity

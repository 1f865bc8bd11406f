import Mathlib.Data.Finset.Basic
import NaturalMold.OrderedDictionaries
import NaturalMold.StepRuns

/-!
# The registry of run tasks

A process registers the task of each of its runs under the run's id.
-/

namespace NaturalMold.RunTaskRegistry

abbrev RunId := String

abbrev TaskId := ℕ

inductive CancelReason
  | stop | steer | shutdown
  deriving DecidableEq

inductive RegistrationError
  | alreadyRegistered (runId : RunId)
  | noCurrentTask
  deriving DecidableEq

def RegistrationError.message : RegistrationError → String
  | .alreadyRegistered runId => "run task already exists: " ++ runId
  | .noCurrentTask => "no current task is available for registration"

structure Registry where
  tasks : OrderedDict RunId TaskId := .empty
  cancelReasons : OrderedDict RunId CancelReason := .empty
  finishing : Finset RunId := ∅

/-- What the event loop knows of the tasks: those that are done, the cancellations requested of
each, the callbacks that wait for a task and those that are scheduled, as the ids they discard. -/
structure EventLoop where
  finished : Finset TaskId := ∅
  cancellations : List TaskId := []
  waiting : List (TaskId × RunId) := []
  scheduled : List RunId := []

namespace EventLoop

variable (loop : EventLoop) (task : TaskId)

def done : Bool :=
  task ∈ loop.finished

def cancelling : ℕ :=
  loop.cancellations.count task

/-- `task.cancel()`, which does nothing to a task that is done. -/
def cancel : EventLoop :=
  if loop.done task then loop else { loop with cancellations := task :: loop.cancellations }

/-- `task.add_done_callback(_discard)`; the callback of a task that is done is scheduled at
once. -/
def addDoneCallback (runId : RunId) : EventLoop :=
  if loop.done task then { loop with scheduled := loop.scheduled ++ [runId] }
  else { loop with waiting := loop.waiting ++ [(task, runId)] }

/-- The task ends, and its callbacks are scheduled in the order they were added. -/
def complete : EventLoop :=
  if loop.done task then loop
  else
    { loop with
      finished := insert task loop.finished
      scheduled := loop.scheduled ++
        (loop.waiting.filter fun callback => callback.1 = task).map Prod.snd
      waiting := loop.waiting.filter fun callback => callback.1 ≠ task }

@[simp]
theorem finished_cancel : (loop.cancel task).finished = loop.finished := by
  rw [cancel]
  split <;> rfl

@[simp]
theorem finished_addDoneCallback (runId : RunId) :
    (loop.addDoneCallback task runId).finished = loop.finished := by
  rw [addDoneCallback]
  split <;> rfl

@[simp]
theorem finished_complete : (loop.complete task).finished = insert task loop.finished := by
  rw [complete]
  split
  · next already => rw [Finset.insert_eq_of_mem (of_decide_eq_true already)]
  · rfl

end EventLoop

/-- The registry on its event loop, with the registrations that `start` has accepted. -/
structure World where
  registry : Registry := {}
  loop : EventLoop := {}
  accepted : List (RunId × TaskId) := []

def Registry.discard (runId : RunId) (registry : Registry) : Registry where
  tasks := registry.tasks.erase runId
  cancelReasons := registry.cancelReasons.erase runId
  finishing := registry.finishing.erase runId

namespace World

def get (world : World) (runId : RunId) : Option TaskId :=
  world.registry.tasks.get? runId

def activeRunIds (world : World) : List RunId :=
  (world.registry.tasks.entries.filter fun entry => !world.loop.done entry.2).map Prod.fst

/-- A task whose run id is taken by another live task is cancelled instead. -/
def start (runId : RunId) (task : TaskId) (world : World) :
    Except RegistrationError Unit × World :=
  if (world.get runId).any fun existing => !world.loop.done existing then
    (.error (.alreadyRegistered runId), { world with loop := world.loop.cancel task })
  else
    (.ok (),
      { registry := { world.registry with tasks := world.registry.tasks.set runId task }
        loop := world.loop.addDoneCallback task runId
        accepted := (runId, task) :: world.accepted })

def startCurrent (runId : RunId) (current : Option TaskId) (world : World) :
    Except RegistrationError TaskId × World :=
  match current with
  | none => (.error .noCurrentTask, world)
  | some task =>
      match world.start runId task with
      | (.error error, next) => (.error error, next)
      | (.ok (), next) => (.ok task, next)

/-- A cancellation counts only for a live task whose run is not finishing; it is passed on once. -/
def requestCancel (runId : RunId) (reason : CancelReason) (world : World) : Bool × World :=
  match world.get runId with
  | none => (false, world)
  | some task =>
      if world.loop.done task || runId ∈ world.registry.finishing then (false, world)
      else
        (true,
          { world with
            registry := { world.registry with
              cancelReasons := world.registry.cancelReasons.set runId reason }
            loop := if world.loop.cancelling task = 0 then world.loop.cancel task
              else world.loop })

def markFinishing (runId : RunId) (world : World) : World :=
  { world with registry := { world.registry with
      finishing := insert runId world.registry.finishing } }

def discard (runId : RunId) (world : World) : World :=
  { world with registry := world.registry.discard runId }

def runCallback (index : ℕ) (world : World) : World :=
  match world.loop.scheduled[index]? with
  | none => world
  | some runId =>
      { world.discard runId with
        loop := { world.loop with scheduled := world.loop.scheduled.eraseIdx index } }

end World

inductive Action
  | start (runId : RunId) (task : TaskId)
  | startCurrent (runId : RunId) (current : Option TaskId)
  | complete (task : TaskId)
  | runCallback (index : ℕ)
  | requestCancel (runId : RunId) (reason : CancelReason)
  | markFinishing (runId : RunId)
  | discard (runId : RunId)

def step (world : World) : Action → World
  | .start runId task => (world.start runId task).2
  | .startCurrent runId current => (world.startCurrent runId current).2
  | .complete task => { world with loop := world.loop.complete task }
  | .runCallback index => world.runCallback index
  | .requestCancel runId reason => (world.requestCancel runId reason).2
  | .markFinishing runId => world.markFinishing runId
  | .discard runId => world.discard runId

/-- Every accepted task that is not done is registered under its run, and the run is active. -/
def StaysRegistered (world : World) : Prop :=
  ∀ registration ∈ world.accepted, registration.2 ∉ world.loop.finished →
    world.get registration.1 = some registration.2 ∧ registration.1 ∈ world.activeRunIds

/-- No accepted task of the run is still at work. -/
def Ended (world : World) (runId : RunId) : Prop :=
  ∀ registration ∈ world.accepted, registration.1 = runId →
    registration.2 ∈ world.loop.finished

def DropsEnded (world : World) : Action → Prop
  | .runCallback index => ∀ runId ∈ world.loop.scheduled[index]?, Ended world runId
  | .discard runId => Ended world runId
  | _ => True

namespace World

variable {world : World} {runId : RunId} {task : TaskId}

theorem mem_activeRunIds (registered : world.get runId = some task)
    (unfinished : task ∉ world.loop.finished) : runId ∈ world.activeRunIds := by
  rw [activeRunIds, List.mem_map]
  refine ⟨(runId, task), List.mem_filter.mpr ⟨?_, ?_⟩, rfl⟩
  · exact OrderedDict.get?_eq_some_iff.mp registered
  · simpa [EventLoop.done] using unfinished

end World

variable {world : World} {runId : RunId} {task : TaskId}

/-- Being registered is enough: the run of a registered task at work is active. -/
theorem staysRegistered_iff :
    StaysRegistered world ↔
      ∀ registration ∈ world.accepted, registration.2 ∉ world.loop.finished →
        world.get registration.1 = some registration.2 := by
  constructor
  · exact fun stays registration listed unfinished => (stays registration listed unfinished).1
  · intro registered registration listed unfinished
    have found := registered registration listed unfinished
    exact ⟨found, World.mem_activeRunIds found unfinished⟩

/-- A step that keeps the tasks, the acceptances and who is done keeps the claim. -/
theorem StaysRegistered.congr {next : World} (stays : StaysRegistered world)
    (accepted : next.accepted = world.accepted)
    (tasks : next.registry.tasks = world.registry.tasks)
    (finished : world.loop.finished ⊆ next.loop.finished) : StaysRegistered next := by
  rw [staysRegistered_iff] at stays ⊢
  intro registration listed unfinished
  rw [World.get, tasks]
  exact stays registration (accepted ▸ listed) fun done => unfinished (finished done)

/-- An accepted registration displaces no task at work. -/
theorem StaysRegistered.start (stays : StaysRegistered world) (runId : RunId) (task : TaskId) :
    StaysRegistered (world.start runId task).2 := by
  rw [World.start]
  split
  · exact stays.congr rfl rfl (by simp)
  · next free =>
      rw [staysRegistered_iff] at stays ⊢
      intro registration listed unfinished
      rw [EventLoop.finished_addDoneCallback] at unfinished
      rw [World.get, OrderedDict.get?_set]
      rcases List.mem_cons.mp listed with rfl | earlier
      · rw [if_pos rfl]
      · have found := stays registration earlier unfinished
        rw [if_neg]
        · exact found
        · rintro same
          apply free
          rw [← same, found]
          simpa [EventLoop.done] using unfinished

theorem StaysRegistered.startCurrent (stays : StaysRegistered world) (runId : RunId)
    (current : Option TaskId) : StaysRegistered (world.startCurrent runId current).2 := by
  cases current with
  | none => exact stays
  | some task =>
      have next := stays.start runId task
      rw [World.startCurrent]
      split
      · next result => rwa [result] at next
      · next result => rwa [result] at next

theorem StaysRegistered.requestCancel (stays : StaysRegistered world) (runId : RunId)
    (reason : CancelReason) : StaysRegistered (world.requestCancel runId reason).2 := by
  rw [World.requestCancel]
  split
  · exact stays
  · split
    · exact stays
    · refine stays.congr rfl rfl ?_
      dsimp only
      split
      · rw [EventLoop.finished_cancel]
      · exact subset_rfl

/-- Dropping a run id leaves every task at work registered exactly if none of them is the run's. -/
theorem staysRegistered_discard_iff (stays : StaysRegistered world) :
    StaysRegistered (world.discard runId) ↔ Ended world runId := by
  rw [staysRegistered_iff] at stays ⊢
  constructor
  · intro left registration listed same
    by_contra unfinished
    have found := left registration listed unfinished
    rw [World.get, World.discard, Registry.discard, OrderedDict.get?_erase, if_pos same] at found
    cases found
  · intro ended registration listed unfinished
    rw [World.get, World.discard, Registry.discard, OrderedDict.get?_erase, if_neg]
    · exact stays registration listed unfinished
    · exact fun same => unfinished (ended registration listed same)

theorem staysRegistered_runCallback_iff (stays : StaysRegistered world) (index : ℕ) :
    StaysRegistered (world.runCallback index) ↔
      ∀ runId ∈ world.loop.scheduled[index]?, Ended world runId := by
  rw [World.runCallback]
  cases world.loop.scheduled[index]? with
  | none => exact iff_of_true stays nofun
  | some runId =>
      have same : StaysRegistered { world.discard runId with
          loop := { world.loop with scheduled := world.loop.scheduled.eraseIdx index } } ↔
          StaysRegistered (world.discard runId) := by
        rw [staysRegistered_iff, staysRegistered_iff]
        rfl
      simp only [same, staysRegistered_discard_iff stays, Option.mem_some_iff, forall_eq']

theorem staysRegistered_step_iff (stays : StaysRegistered world) (action : Action) :
    StaysRegistered (step world action) ↔ DropsEnded world action := by
  cases action with
  | start runId task => exact iff_of_true (stays.start runId task) trivial
  | startCurrent runId current => exact iff_of_true (stays.startCurrent runId current) trivial
  | complete task =>
      have grows : world.loop.finished ⊆ (world.loop.complete task).finished := by
        rw [EventLoop.finished_complete]
        exact Finset.subset_insert task world.loop.finished
      exact iff_of_true (stays.congr rfl rfl grows) trivial
  | runCallback index => exact staysRegistered_runCallback_iff stays index
  | requestCancel runId reason => exact iff_of_true (stays.requestCancel runId reason) trivial
  | markFinishing runId => exact iff_of_true (stays.congr rfl rfl subset_rfl) trivial
  | discard runId => exact staysRegistered_discard_iff stays

/-- All along a run, the accepted tasks at work stay registered exactly if no callback and no run
drops the id of a run with such a task. -/
theorem forall_staysRegistered_iff (actions : List Action) :
    (∀ front, front <+: actions → StaysRegistered (StepRuns.run step {} front)) ↔
      StepRuns.EveryStep step DropsEnded {} actions :=
  StepRuns.forall_prefix_iff_everyStep (fun _ => True) StaysRegistered (fun _ _ _ => trivial)
    (fun _ action _ stays => staysRegistered_step_iff stays action) trivial
    (fun _ listed => absurd listed List.not_mem_nil) actions

/-- The run is registered again between the end of its first task and the callback of that task. -/
def registeredAgain : List Action :=
  [.start "run" 1, .complete 1, .start "run" 2, .runCallback 0]

/-- The callback of the first task drops the second one. -/
theorem not_staysRegistered_registeredAgain :
    ¬∀ front, front <+: registeredAgain → StaysRegistered (StepRuns.run step {} front) := by
  intro all
  have dropped := (all registeredAgain List.prefix_rfl ("run", 2)
    (by decide) (by decide)).1
  revert dropped
  decide

end NaturalMold.RunTaskRegistry

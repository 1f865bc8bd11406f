import NaturalMold.ConsolidationSchedule

/-! # Progress of memory consolidation -/

namespace NaturalMold.ConsolidationSchedule

open Conversations (Uuid Time)
open Jobs (JobState isFinished)
open KeyedTables StepRuns

theorem lastRunId_eq (db : Database) (scope : Scope) :
    lastRunId db scope =
      (firstInOrder Newer (runsOf db scope)).map MemoryConsolidationRun.id := by
  unfold lastRunId recentRuns firstInOrder
  rw [List.head?_take, if_neg (by decide)]

/-- The failures of the last day are all that stops a scope. -/
theorem stopped_iff {runs : List MemoryConsolidationRun} {now : Time}
    (unstopped : ∀ run ∈ runs, run.outcome ≠ .stopped) (few : runs.length ≤ failureLimit) :
    stopped runs now ↔ runs.length = failureLimit ∧
      ∀ run ∈ runs, run.outcome = .failed ∧ now ≤ run.createdAt + interval := by
  have started : runs.head?.any (fun run => run.outcome = .stopped) = false := by
    rw [← Bool.not_eq_true, Option.any_eq_true]
    rintro ⟨run, first, wrong⟩
    exact unstopped run (List.mem_of_head? first) (of_decide_eq_true wrong)
  unfold stopped
  rw [started, Bool.false_or, Bool.and_eq_true, decide_eq_true_eq, List.take_of_length_le few]
  constructor
  · rintro ⟨three, failed⟩
    have all : (runs.filter fun run => now ≤ run.createdAt + interval).length = runs.length := by
      have atMost := List.length_filter_le (fun run => decide (now ≤ run.createdAt + interval)) runs
      omega
    have recent := List.length_filter_eq_length_iff.mp all
    refine ⟨all.symm.trans three, fun run member => ?_⟩
    refine ⟨?_, of_decide_eq_true (recent run member)⟩
    exact of_decide_eq_true (List.all_eq_true.mp failed run
      (List.mem_filter.mpr ⟨member, recent run member⟩))
  · rintro ⟨three, failed⟩
    have all : (runs.filter fun run => now ≤ run.createdAt + interval) = runs :=
      List.filter_eq_self.mpr fun run member => decide_eq_true (failed run member).2
    rw [all]
    exact ⟨three, List.all_eq_true.mpr fun run member => decide_eq_true (failed run member).1⟩

/-- A job that the last recorded run asks for is not finished. -/
structure Waiting (db : Database) : Prop where
  unfinished : ∀ job ∈ db.jobs.rows, job.key.last = lastRunId db job.key.scope →
    ¬ isFinished job.state
  scope : ∀ job ∈ db.jobs.rows, job.scope = job.key.scope
  recorded : ∀ job ∈ db.jobs.rows, ∀ id ∈ job.key.last, ∃ run ∈ db.runs.rows, run.id = id
  unstopped : ∀ run ∈ db.runs.rows, run.outcome ≠ .stopped

theorem waiting_initial : Waiting {} where
  unfinished := fun _ member => absurd member List.not_mem_nil
  scope := fun _ member => absurd member List.not_mem_nil
  recorded := fun _ member => absurd member List.not_mem_nil
  unstopped := fun _ member => absurd member List.not_mem_nil

theorem mem_of_lastRunId {db : Database} {scope : Scope} {id : Uuid}
    (last : lastRunId db scope = some id) : ∃ run ∈ db.runs.rows, run.id = id := by
  rw [lastRunId_eq, Option.map_eq_some_iff] at last
  obtain ⟨run, first, sameId⟩ := last
  exact ⟨run, (List.mem_filter.mp (mem_of_firstInOrder Newer first)).1, sameId⟩

theorem lastRunId_insert {db : Database} {run : MemoryConsolidationRun}
    {runs : Table MemoryConsolidationRun.id} (inserted : db.runs.insert? run = some runs)
    (scope : Scope) : lastRunId { db with runs := runs } scope = lastRunId db scope ∨
      lastRunId { db with runs := runs } scope = some run.id := by
  rw [lastRunId_eq, lastRunId_eq]
  have rows : runsOf { db with runs := runs } scope =
      runsOf db scope ++ [run].filter fun run => run.scope = scope := by
    unfold runsOf
    rw [(Table.insert?_eq_some inserted).1, List.filter_append]
  rw [rows]
  by_cases same : run.scope = scope
  · rw [List.filter_cons_of_pos (by simpa using same), List.filter_nil]
    rcases firstInOrder_concat Newer (runsOf db scope) run with kept | new
    · rw [kept]
      exact Or.inl rfl
    · rw [new]
      exact Or.inr rfl
  · rw [List.filter_cons_of_neg (by simpa using same), List.filter_nil, List.append_nil]
    exact Or.inl rfl

theorem mem_enqueue {key : JobKey} {runAfter : Time} {jobs : Table ConsolidateJob.key}
    {job : ConsolidateJob} (member : job ∈ (enqueue key runAfter jobs).rows) :
    job ∈ jobs.rows ∨ job = { key, scope := key.scope, runAfter, state := .queued } := by
  unfold enqueue at member
  split at member
  · exact Or.inl member
  · cases inserted : jobs.insert? { key, scope := key.scope, runAfter, state := .queued } with
    | none =>
        rw [inserted] at member
        exact Or.inl member
    | some after =>
        rw [inserted] at member
        simp only [Option.getD_some] at member
        rw [(Table.insert?_eq_some inserted).1, List.mem_append, List.mem_singleton] at member
        exact member

theorem exists_mem_enqueue (key : JobKey) (runAfter : Time) (jobs : Table ConsolidateJob.key) :
    ∃ job ∈ (enqueue key runAfter jobs).rows, job.key = key := by
  unfold enqueue
  split
  case h_1 job found => exact ⟨job, Table.get?_eq_some_iff.mp found⟩
  case h_2 absent =>
  cases inserted : jobs.insert? { key, scope := key.scope, runAfter, state := .queued } with
  | none =>
      obtain ⟨old, member, same⟩ := Table.insert?_eq_none_iff.mp inserted
      exact absurd same (Table.get?_eq_none_iff.mp absent old member)
  | some after =>
      rw [Option.getD_some, (Table.insert?_eq_some inserted).1]
      exact ⟨_, List.mem_append_right _ List.mem_cons_self, rfl⟩

namespace Waiting

variable {db : Database}

theorem enqueue (waiting : Waiting db) (scope : Scope) (runAfter : Time) :
    Waiting
      { db with
        jobs := ConsolidationSchedule.enqueue ⟨scope, lastRunId db scope⟩ runAfter db.jobs } where
  unfinished := by
    intro job member
    rcases mem_enqueue member with old | rfl
    · exact waiting.unfinished job old
    · exact fun _ => Bool.false_ne_true
  scope := by
    intro job member
    rcases mem_enqueue member with old | rfl
    · exact waiting.scope job old
    · rfl
  recorded := by
    intro job member
    rcases mem_enqueue member with old | rfl
    · exact waiting.recorded job old
    · exact fun _ => mem_of_lastRunId
  unstopped := waiting.unstopped

theorem schedule (waiting : Waiting db) (settings : Settings) (now : Time)
    (record : MemoryRecord) :
    Waiting (ConsolidationSchedule.schedule settings now record db) := by
  unfold ConsolidationSchedule.schedule
  dsimp only
  split
  · exact waiting
  · split
    · exact waiting
    · split
      · exact waiting
      · exact waiting.enqueue (scopeOf record) _

theorem insertRun (waiting : Waiting db) {run : MemoryConsolidationRun}
    {runs : Table MemoryConsolidationRun.id} (inserted : db.runs.insert? run = some runs)
    (outcome : run.outcome ≠ .stopped) : Waiting { db with runs := runs } := by
  obtain ⟨rows, unused⟩ := Table.insert?_eq_some inserted
  constructor
  case unfinished =>
      intro job member current
      rcases lastRunId_insert inserted job.key.scope with kept | new
      · exact waiting.unfinished job member (current.trans kept)
      · obtain ⟨old, oldMember, sameId⟩ :=
          waiting.recorded job member run.id (current.trans new)
        exact absurd sameId (unused old oldMember)
  case scope => exact waiting.scope
  case recorded =>
      intro job member id named
      obtain ⟨old, oldMember, sameId⟩ := waiting.recorded job member id named
      refine ⟨old, ?_, sameId⟩
      rw [rows]
      exact List.mem_append_left _ oldMember
  case unstopped =>
  intro other member
  rw [rows, List.mem_append, List.mem_singleton] at member
  rcases member with old | rfl
  · exact waiting.unstopped other old
  · exact outcome

theorem runJob (waiting : Waiting db) (attempt : Attempt) (scope : Scope) :
    Waiting (ConsolidationSchedule.runJob attempt scope db).1 := by
  unfold ConsolidationSchedule.runJob
  split
  · exact waiting
  · unfold runConsolidation
    dsimp only
    split
    · exact waiting
    · split
      · exact waiting
      · rename_i inserted
        apply waiting.insertRun inserted
        dsimp only
        split <;> simp

theorem endJob (waiting : Waiting db) {key : JobKey} {state : JobState} {job : ConsolidateJob}
    (found : db.jobs.get? key = some job)
    (ends : isFinished state → key.last ≠ lastRunId db key.scope) :
    Waiting { db with jobs := db.jobs.save { job with state } } := by
  obtain ⟨listed, sameKey⟩ := Table.get?_eq_some_iff.mp found
  constructor
  case unfinished =>
      intro other member current
      rcases Table.mem_save.mp member with ⟨rfl, _⟩ | ⟨old, _⟩
      · intro finished
        dsimp only at current
        rw [sameKey] at current
        exact ends finished current
      · exact waiting.unfinished other old current
  case scope =>
      intro other member
      rcases Table.mem_save.mp member with ⟨rfl, _⟩ | ⟨old, _⟩
      · exact waiting.scope job listed
      · exact waiting.scope other old
  case recorded =>
      intro other member
      rcases Table.mem_save.mp member with ⟨rfl, _⟩ | ⟨old, _⟩
      · exact waiting.recorded job listed
      · exact waiting.recorded other old
  case unstopped => exact waiting.unstopped

theorem step (waiting : Waiting db) (action : Action) (ends : EndsRecorded db action) :
    Waiting (db.step action) := by
  cases action with
  | save record settings now scheduled =>
      simp only [Database.step]
      split
      · exact waiting
      · rename_i records _
        have saved : Waiting { db with records := records } := { waiting with }
        split
        · exact saved.schedule settings now record
        · exact saved
  | setActive id isActive =>
      simp only [Database.step]
      split
      · exact waiting
      · exact { waiting with }
  | attempt key attempt =>
      simp only [Database.step]
      split
      · exact waiting
      · split
        · exact waiting
        · exact waiting.runJob attempt _
  | endJob key state =>
      simp only [Database.step]
      split
      · exact waiting
      · rename_i job found
        split
        case isTrue => exact waiting
        case isFalse unfinished =>
            exact waiting.endJob found fun finished => ends finished job found unfinished

theorem unstuck (waiting : Waiting db) : Unstuck db where
  scheduled := by
    intro settings now record consolidated running enough
    obtain ⟨job, listed, sameKey⟩ := exists_mem_enqueue
      ⟨scopeOf record, lastRunId db (scopeOf record)⟩
      ((recentRuns db (scopeOf record) failureLimit).head?.elim now
        fun last => max now (last.createdAt + interval)) db.jobs
    have enqueued := waiting.enqueue (scopeOf record)
      ((recentRuns db (scopeOf record) failureLimit).head?.elim now
        fun last => max now (last.createdAt + interval))
    unfold ConsolidationSchedule.schedule
    dsimp only
    rw [if_neg (not_not.mpr consolidated), if_neg running, if_neg (Nat.not_lt.mpr enough)]
    refine ⟨job, listed, ?_, ?_⟩
    · rw [enqueued.scope job listed, sameKey]
    · apply enqueued.unfinished job listed
      rw [sameKey]
      rfl
  stopped_iff := by
    intro scope now
    refine stopped_iff ?_ (List.length_take_le _ _)
    intro run member
    have listed := (List.mem_insertionSort Newer).mp (List.mem_of_mem_take member)
    exact waiting.unstopped run (List.mem_filter.mp listed).1

end Waiting

/-- In a run in which jobs end only after a newer run has been recorded, no scope is stuck. -/
theorem run_unstuck (actions : List Action)
    (every : EveryStep Database.step EndsRecorded {} actions) :
    Unstuck (run Database.step {} actions) :=
  Waiting.unstuck
    (run_allowed_invariant Waiting (fun _ action ends waiting => waiting.step action ends)
      waiting_initial every)

def enabled : Settings where
  runtimeProfile := none
  tenantEnabled := true
  userEnabled := true
  consolidation := none
  profile := none

/-- A memory of the person, saved at the time that is its id. -/
def memory (id : Uuid) : MemoryRecord where
  id := id
  userId := 7
  isAgentScope := false
  agentId := none
  isActive := true
  createdAt := id

/-- The fifth memory queues the first job. -/
def fiveMemories : List Action :=
  [1, 2, 3, 4, 5].map fun id => .save (memory id) enabled id true

def firstKey : JobKey where
  scope := ⟨7, none⟩
  last := none

def firstAttempt (isUsageLimited : Bool) : Action :=
  .attempt firstKey
    { isUsageLimited
      settings := enabled
      hasInputs := true
      isAnswered := true
      runId := 100
      now := 6
      recordedAt := 6 }

/-- The attempt records a run, and the job succeeds. -/
theorem run_unstuck_recorded : Unstuck (run Database.step {}
    (fiveMemories ++ [firstAttempt false, .endJob firstKey .succeeded])) :=
  run_unstuck _ (by decide)

/-- The usage limit skips the attempt, and the job succeeds: the next memory finds its key. -/
theorem skippedJob_stuck : ¬ Unstuck (run Database.step {}
    (fiveMemories ++ [firstAttempt true, .endJob firstKey .succeeded])) := by
  intro unstuck
  have scheduled := unstuck.scheduled enabled 8 (memory 8) (by decide) (by decide) (by decide)
  revert scheduled
  decide

end NaturalMold.ConsolidationSchedule

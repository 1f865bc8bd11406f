import NaturalMold.ApprovalRecording

/-!
# Pending requests of a conversation

A conversation takes one run after another.
-/

namespace NaturalMold.Approvals

open Conversations (Uuid Time RunStatus runActiveStatuses)
open KeyedTables StepRuns

/-- The recording of an interrupted run, and the interrupts it has read. -/
structure Recording where
  run : Run
  found : Option (List PendingInterrupt) := none

/-- A conversation: its active run, its ended runs from the newest on, the interrupts that
the checkpoint waits for, its requests and the recordings that have not ended.  `answered`
are the interrupts that accepted resumes answered, and `seen` all interrupts so far. -/
structure Thread where
  conversationId : Uuid
  active : Option Run := none
  ended : List Run := []
  checkpoint : List PendingInterrupt := []
  requests : RequestTable := Table.empty
  recordings : List Recording := []
  answered : List String := []
  seen : List String := []

namespace Thread

def runs (thread : Thread) : List Run :=
  thread.active.toList ++ thread.ended

def AwaitsResume (thread : Thread) (run : Run) : Prop :=
  run.status = .interrupted ∧ ∀ child ∈ thread.runs, child.parentRunId ≠ some run.id

instance (thread : Thread) (run : Run) : Decidable (thread.AwaitsResume run) :=
  inferInstanceAs (Decidable (_ ∧ ∀ child ∈ thread.runs, _))

/-- `get_latest_interrupted_run`; runs of a conversation end in their order. -/
def latestInterruptedRun (thread : Thread) : Option Run :=
  thread.ended.find? fun run => thread.AwaitsResume run

def waitingIds (thread : Thread) : List String :=
  thread.checkpoint.map PendingInterrupt.interruptId

/-- Interrupts the active run may stop with: those that were not answered, and new ones. -/
def MayWait (thread : Thread) (interrupts : List PendingInterrupt) : Prop :=
  ∀ interrupt ∈ interrupts,
    (interrupt.interruptId ∈ thread.waitingIds ∧ interrupt.interruptId ∉ thread.answered) ∨
      interrupt.interruptId ∉ thread.seen

instance (thread : Thread) (interrupts : List PendingInterrupt) :
    Decidable (thread.MayWait interrupts) :=
  inferInstanceAs (Decidable (∀ interrupt ∈ interrupts, _ ∨ _))

def waitFor (thread : Thread) (interrupts : List PendingInterrupt) : Thread :=
  { thread with
    checkpoint := interrupts
    seen := thread.seen ++ interrupts.map PendingInterrupt.interruptId }

def Fresh (thread : Thread) (run : Run) : Prop :=
  (∀ other ∈ thread.runs, other.id ≠ run.id) ∧ run.status ∈ runActiveStatuses

instance (thread : Thread) (run : Run) : Decidable (thread.Fresh run) :=
  inferInstanceAs (Decidable ((∀ other ∈ thread.runs, _) ∧ _))

end Thread

/-- The answers of a resume, by the decision types of each. -/
structure Answers where
  responses : List (String × List String)
  channel : ApprovalChannel := .chat
  actorId : Uuid
  stamp : Time

def Answers.ids (answers : Answers) : List String :=
  answers.responses.map Prod.fst

inductive ThreadEvent
  | start (run : Run)
  | checkpoint (interrupts : List PendingInterrupt)
  | interrupt (interrupts : List PendingInterrupt)
  | finish (status : RunStatus)
  | readCheckpoint (index : ℕ)
  | record (env : RecordEnvironment) (index : ℕ)
  | failRecording (index : ℕ)
  | respond (answers : Answers) (run : Run)

namespace Thread

/-- The resume is accepted: its answers name interrupts that the checkpoint waits for, and
their requests are claimed in the transaction that creates its run. -/
def respond (thread : Thread) (answers : Answers) (run : Run) : Thread :=
  match thread.active, thread.latestInterruptedRun with
  | none, some parent =>
      if answers.ids ≠ [] ∧ (∀ id ∈ answers.ids, id ∈ thread.waitingIds) ∧ thread.Fresh run ∧
          run.parentRunId = some parent.id then
        match claim (claimResume parent.id answers.responses answers.actorId run.id
            answers.channel) answers.stamp thread.requests with
        | .error _ => thread
        | .ok requests =>
            { thread with
              active := some run
              requests := requests
              answered := thread.answered ++ answers.ids }
      else thread
  | _, _ => thread

/-- The rows of a recording are committed, or it fails. -/
def record (thread : Thread) (env : RecordEnvironment) (index : ℕ) : Thread :=
  match thread.recordings[index]? with
  | some { run, found := some interrupts } =>
      { thread with
        requests := (recordPending env thread.conversationId run interrupts
          thread.requests).getD thread.requests
        recordings := thread.recordings.eraseIdx index }
  | _ => thread

/-- One step; a step that is not possible changes nothing.  A conversation that waits for a
resume takes no other run. -/
def step (thread : Thread) : ThreadEvent → Thread
  | .start run =>
      if thread.active.isNone ∧ thread.latestInterruptedRun.isNone ∧ thread.Fresh run ∧
          run.parentRunId = none then
        { thread with active := some run }
      else thread
  | .checkpoint interrupts =>
      if thread.active.isSome ∧ thread.MayWait interrupts then thread.waitFor interrupts
      else thread
  | .interrupt interrupts =>
      match thread.active with
      | none => thread
      | some run =>
          if thread.MayWait interrupts then
            let stopped := { run with status := .interrupted }
            { thread.waitFor interrupts with
              active := none
              ended := stopped :: thread.ended
              recordings := thread.recordings ++ [{ run := stopped }] }
          else thread
  | .finish status =>
      match thread.active with
      | none => thread
      | some run =>
          if status ≠ .interrupted then
            { thread with active := none, ended := { run with status } :: thread.ended }
          else thread
  | .readCheckpoint index =>
      match thread.recordings[index]? with
      | none => thread
      | some recording =>
          { thread with
            recordings :=
              thread.recordings.set index { recording with found := some thread.checkpoint } }
  | .record env index => thread.record env index
  | .failRecording index => { thread with recordings := thread.recordings.eraseIdx index }
  | .respond answers run => thread.respond answers run

/-- No run is active and no recording is under way. -/
def Quiet (thread : Thread) : Prop :=
  thread.active = none ∧ thread.recordings = []

/-- An interrupt that the checkpoint waits for has at most one pending request, which belongs
to the latest interrupted run; no request is pending for an interrupt that was answered. -/
structure RequestsMatch (thread : Thread) : Prop where
  single : ∀ id ∈ thread.waitingIds, ∀ first ∈ thread.requests.rows,
    ∀ second ∈ thread.requests.rows, first.status = .pending → second.status = .pending →
      first.interruptId = id → second.interruptId = id → first = second
  latest : ∀ id ∈ thread.waitingIds, ∀ row ∈ thread.requests.rows, row.status = .pending →
    row.interruptId = id → ∃ run, thread.latestInterruptedRun = some run ∧ row.runId = run.id
  unanswered : ∀ row ∈ thread.requests.rows, row.status = .pending →
    row.interruptId ∉ thread.answered

/-- A resume comes when no recording is under way, and answers every interrupt that the
checkpoint waits for and that has a pending request. -/
def AnswersAll (thread : Thread) : ThreadEvent → Prop
  | .respond answers _ => thread.recordings = [] ∧ ∀ row ∈ thread.requests.rows,
      row.status = .pending → row.interruptId ∈ thread.waitingIds → row.interruptId ∈ answers.ids
  | _ => True

instance : DecidableRel AnswersAll := fun thread event =>
  match event with
  | .respond answers _ =>
      if noRecording : thread.recordings.isEmpty then
        decidable_of_iff (∀ row ∈ thread.requests.rows, row.status = .pending →
            row.interruptId ∈ thread.waitingIds → row.interruptId ∈ answers.ids)
          ⟨fun all => ⟨List.isEmpty_iff.mp noRecording, all⟩, fun all => all.2⟩
      else isFalse fun all => noRecording (List.isEmpty_iff.mpr all.1)
  | .start _ | .checkpoint _ | .interrupt _ | .finish _ | .readCheckpoint _ | .record _ _
  | .failRecording _ => inferInstanceAs (Decidable True)

/-- What holds between the steps: while a run is active, nothing is pending and no recording
is under way; otherwise both belong to the latest interrupted run and to interrupts that the
checkpoint waits for and nobody has answered. -/
structure Orderly (thread : Thread) : Prop where
  single : SinglePending thread.requests
  active : thread.active.isSome → (∀ row ∈ thread.requests.rows, row.status ≠ .pending) ∧
    thread.recordings = []
  pending : ∀ row ∈ thread.requests.rows, row.status = .pending →
    ∃ run, thread.latestInterruptedRun = some run ∧ row.runId = run.id ∧
      row.interruptId ∈ thread.waitingIds ∧ row.interruptId ∉ thread.answered
  recording : ∀ recording ∈ thread.recordings, thread.latestInterruptedRun = some recording.run ∧
    (∀ id ∈ thread.waitingIds, id ∉ thread.answered) ∧
    ∀ found ∈ recording.found, ∀ interrupt ∈ found, interrupt.interruptId ∈ thread.waitingIds
  seen : (∀ id ∈ thread.waitingIds, id ∈ thread.seen) ∧ ∀ id ∈ thread.answered, id ∈ thread.seen
  parents : ∀ child ∈ thread.runs, ∀ parentRunId ∈ child.parentRunId,
    ∃ parent ∈ thread.ended, parent.id = parentRunId
  distinct : (thread.runs.map Run.id).Nodup

variable {thread : Thread}

theorem orderly_initial (conversationId : Uuid) : Orderly { conversationId := conversationId } where
  single := fun _ member => absurd member List.not_mem_nil
  active := nofun
  pending := fun _ member => absurd member List.not_mem_nil
  recording := fun _ member => absurd member List.not_mem_nil
  seen := ⟨fun _ member => absurd member List.not_mem_nil,
    fun _ member => absurd member List.not_mem_nil⟩
  parents := fun _ member => absurd member List.not_mem_nil
  distinct := List.nodup_nil

namespace Orderly

/-- Without a run that waits for its resume, nothing is pending. -/
theorem idle (orderly : Orderly thread) (noLatest : thread.latestInterruptedRun = none) :
    (∀ row ∈ thread.requests.rows, row.status ≠ .pending) ∧ thread.recordings = [] := by
  constructor
  · intro row member pending
    obtain ⟨run, latest, _⟩ := orderly.pending row member pending
    rw [noLatest] at latest
    cases latest
  · apply List.eq_nil_iff_forall_not_mem.mpr
    intro recording member
    have latest := (orderly.recording recording member).1
    rw [noLatest] at latest
    cases latest

theorem of_nothingPending (nothing : ∀ row ∈ thread.requests.rows, row.status ≠ .pending)
    (noRecording : thread.recordings = [])
    (seen : (∀ id ∈ thread.waitingIds, id ∈ thread.seen) ∧
      ∀ id ∈ thread.answered, id ∈ thread.seen)
    (parents : ∀ child ∈ thread.runs, ∀ parentRunId ∈ child.parentRunId,
      ∃ parent ∈ thread.ended, parent.id = parentRunId)
    (distinct : (thread.runs.map Run.id).Nodup) : Orderly thread where
  single := fun first member _ _ pending => absurd pending (nothing first member)
  active := fun _ => ⟨nothing, noRecording⟩
  pending := fun row member pending => absurd pending (nothing row member)
  recording := fun recording member => by
    rw [noRecording] at member
    cases member
  seen := seen
  parents := parents
  distinct := distinct

theorem join (orderly : Orderly thread) (noActive : thread.active = none) {run : Run}
    (fresh : thread.Fresh run)
    (parent : ∀ parentRunId ∈ run.parentRunId, ∃ other ∈ thread.ended, other.id = parentRunId) :
    (∀ child ∈ run :: thread.ended, ∀ parentRunId ∈ child.parentRunId,
      ∃ other ∈ thread.ended, other.id = parentRunId) ∧
    ((run :: thread.ended).map Run.id).Nodup := by
  have runs : thread.runs = thread.ended := by
    rw [runs, noActive]
    rfl
  have parents := orderly.parents
  have distinct := orderly.distinct
  have ids := fresh.1
  rw [runs] at parents distinct ids
  constructor
  · intro child member
    rcases List.mem_cons.mp member with rfl | old
    · exact parent
    · exact parents child old
  · rw [List.map_cons, List.nodup_cons]
    refine ⟨fun taken => ?_, distinct⟩
    obtain ⟨other, member, same⟩ := List.mem_map.mp taken
    exact ids other member same

theorem start (orderly : Orderly thread) {run : Run} (noActive : thread.active = none)
    (noLatest : thread.latestInterruptedRun = none) (fresh : thread.Fresh run)
    (noParent : run.parentRunId = none) : Orderly { thread with active := some run } := by
  obtain ⟨nothing, noRecording⟩ := orderly.idle noLatest
  have joined := orderly.join noActive fresh fun parentRunId isParent => by
    rw [noParent] at isParent
    cases isParent
  exact of_nothingPending nothing noRecording orderly.seen joined.1 joined.2

theorem seen_waitFor (orderly : Orderly thread) (interrupts : List PendingInterrupt) :
    (∀ id ∈ (thread.waitFor interrupts).waitingIds, id ∈ (thread.waitFor interrupts).seen) ∧
      ∀ id ∈ thread.answered, id ∈ (thread.waitFor interrupts).seen :=
  ⟨fun _ member => List.mem_append_right _ member,
    fun id member => List.mem_append_left _ (orderly.seen.2 id member)⟩

theorem waitFor (orderly : Orderly thread) (isActive : thread.active.isSome)
    (interrupts : List PendingInterrupt) : Orderly (thread.waitFor interrupts) :=
  of_nothingPending (orderly.active isActive).1 (orderly.active isActive).2
    (orderly.seen_waitFor interrupts) orderly.parents orderly.distinct

theorem ended (orderly : Orderly thread) {run : Run} (isActive : thread.active = some run)
    (status : RunStatus) :
    (∀ child ∈ { run with status := status } :: thread.ended,
      ∀ parentRunId ∈ child.parentRunId, ∃ other ∈ thread.ended, other.id = parentRunId) ∧
    (({ run with status := status } :: thread.ended).map Run.id).Nodup := by
  have runs : thread.runs = run :: thread.ended := by
    rw [runs, isActive]
    rfl
  have parents := orderly.parents
  have distinct := orderly.distinct
  rw [runs] at parents distinct
  constructor
  · intro child member
    rcases List.mem_cons.mp member with rfl | old
    · exact parents run List.mem_cons_self
    · exact parents child (List.mem_cons_of_mem _ old)
  · exact distinct

theorem finish (orderly : Orderly thread) {run : Run} (isActive : thread.active = some run)
    (status : RunStatus) :
    Orderly
    { thread with active := none, ended := { run with status := status } :: thread.ended } := by
  obtain ⟨nothing, noRecording⟩ := orderly.active (by rw [isActive]; rfl)
  obtain ⟨parents, distinct⟩ := orderly.ended isActive status
  refine of_nothingPending nothing noRecording orderly.seen ?_ distinct
  intro child member parentRunId isParent
  obtain ⟨parent, old, same⟩ := parents child member parentRunId isParent
  exact ⟨parent, List.mem_cons_of_mem _ old, same⟩

/-- The run that stops is the latest interrupted one, and nobody has answered what it waits
for. -/
theorem interrupt (orderly : Orderly thread) {run : Run} (isActive : thread.active = some run)
    {interrupts : List PendingInterrupt} (mayWait : thread.MayWait interrupts) :
    Orderly { thread.waitFor interrupts with
      active := none
      ended := { run with status := .interrupted } :: thread.ended
      recordings := thread.recordings ++ [{ run := { run with status := .interrupted } }] } := by
  obtain ⟨nothing, noRecording⟩ := orderly.active (by rw [isActive]; rfl)
  obtain ⟨parents, distinct⟩ := orderly.ended isActive .interrupted
  have notParent : ∀ child ∈ { run with status := .interrupted } :: thread.ended,
      child.parentRunId ≠ some run.id := by
    intro child member isParent
    obtain ⟨parent, old, same⟩ := parents child member run.id isParent
    rw [List.map_cons, List.nodup_cons] at distinct
    exact distinct.1 (List.mem_map.mpr ⟨parent, old, same⟩)
  have unanswered : ∀ id ∈ interrupts.map PendingInterrupt.interruptId,
      id ∉ thread.answered := by
    intro id member answered
    obtain ⟨interrupt, listed, rfl⟩ := List.mem_map.mp member
    rcases mayWait interrupt listed with ⟨_, fresh⟩ | fresh
    · exact fresh answered
    · exact fresh (orderly.seen.2 _ answered)
  exact
    { single := fun first member _ _ pending => absurd pending (nothing first member)
      active := nofun
      pending := fun row member pending => absurd pending (nothing row member)
      recording := by
        intro recording member
        rw [noRecording, List.nil_append, List.mem_singleton] at member
        subst member
        refine ⟨List.find?_cons_of_pos ?_, unanswered, nofun⟩
        exact decide_eq_true ⟨rfl, notParent⟩
      seen := orderly.seen_waitFor interrupts
      parents := by
        intro child member parentRunId isParent
        obtain ⟨parent, old, same⟩ := parents child member parentRunId isParent
        exact ⟨parent, List.mem_cons_of_mem _ old, same⟩
      distinct := distinct }

theorem recordings (orderly : Orderly thread) {recordings : List Recording}
    (kept : ∀ recording ∈ recordings, ∃ old ∈ thread.recordings, recording.run = old.run ∧
      (recording.found = old.found ∨ recording.found = some thread.checkpoint)) :
    Orderly { thread with recordings := recordings } where
  single := orderly.single
  active := by
    intro isActive
    refine ⟨(orderly.active isActive).1, List.eq_nil_iff_forall_not_mem.mpr ?_⟩
    intro recording member
    obtain ⟨old, oldMember, _⟩ := kept recording member
    rw [(orderly.active isActive).2] at oldMember
    cases oldMember
  pending := orderly.pending
  recording := by
    intro recording member
    obtain ⟨old, oldMember, sameRun, found⟩ := kept recording member
    obtain ⟨latest, unanswered, oldFound⟩ := orderly.recording old oldMember
    refine ⟨?_, unanswered, ?_⟩
    · rw [sameRun]
      exact latest
    · rcases found with same | same
      · rw [same]
        exact oldFound
      · rw [same]
        rintro found ⟨⟩ interrupt listed
        exact List.mem_map_of_mem listed
  seen := orderly.seen
  parents := orderly.parents
  distinct := orderly.distinct

theorem recordPending (orderly : Orderly thread) {recording : Recording}
    (member : recording ∈ thread.recordings) {interrupts : List PendingInterrupt}
    (found : recording.found = some interrupts) {env : RecordEnvironment}
    {requests : RequestTable}
    (recorded : Approvals.recordPending env thread.conversationId recording.run interrupts
      thread.requests = some requests) : Orderly { thread with requests := requests } := by
  obtain ⟨latest, unanswered, waits⟩ := orderly.recording recording member
  have notActive : thread.active.isSome → False := by
    intro isActive
    rw [(orderly.active isActive).2] at member
    cases member
  exact
    { single := orderly.single.recordPending recorded
      active := fun isActive => (notActive isActive).elim
      pending := by
        intro row rowMember pending
        rcases mem_recordPending recorded rowMember with old | ⟨sameRun, listed⟩
        · exact orderly.pending row old pending
        · obtain ⟨interrupt, interruptMember, same⟩ := List.mem_map.mp listed
          have waiting := waits interrupts found interrupt interruptMember
          rw [same] at waiting
          exact ⟨recording.run, latest, sameRun, waiting, unanswered _ waiting⟩
      recording := orderly.recording
      seen := orderly.seen
      parents := orderly.parents
      distinct := orderly.distinct }

/-- A resume that answers every pending interrupt leaves no request pending. -/
theorem respond (orderly : Orderly thread) {answers : Answers} {run : Run}
    (all : thread.AnswersAll (.respond answers run)) : Orderly (thread.respond answers run) := by
  unfold Thread.respond
  split
  case h_2 => exact orderly
  case h_1 parent noActive latest =>
  split
  case isFalse => exact orderly
  case isTrue accepted =>
  obtain ⟨_, waiting, fresh, isChild⟩ := accepted
  split
  case h_1 => exact orderly
  case h_2 requests claimed =>
  have nothing : ∀ row ∈ requests.rows, row.status ≠ .pending := by
    intro row member pending
    obtain ⟨old, notSelected⟩ := mem_claim claimed member pending
    obtain ⟨other, isLatest, sameRun, isWaiting, _⟩ :=
      orderly.pending row old pending
    obtain rfl := Option.some.inj (latest.symm.trans isLatest)
    exact notSelected ⟨sameRun, all.2 row old pending isWaiting⟩
  have joined := orderly.join noActive fresh fun parentRunId isParent => by
    rw [isChild] at isParent
    exact ⟨parent, List.mem_of_find?_eq_some latest, Option.some.inj isParent⟩
  refine of_nothingPending nothing all.1 ⟨orderly.seen.1, ?_⟩ joined.1 joined.2
  intro id answered
  rcases List.mem_append.mp answered with old | new
  · exact orderly.seen.2 id old
  · exact orderly.seen.1 id (waiting id new)

theorem record (orderly : Orderly thread) (env : RecordEnvironment) (index : ℕ) :
    Orderly (thread.record env index) := by
  unfold Thread.record
  split
  case h_2 => exact orderly
  case h_1 run interrupts found =>
  have erased : ∀ recording ∈ thread.recordings.eraseIdx index,
      ∃ old ∈ thread.recordings, recording.run = old.run ∧
        (recording.found = old.found ∨ recording.found = some thread.checkpoint) :=
    fun recording member =>
      ⟨recording, List.mem_of_mem_eraseIdx member, rfl, Or.inl rfl⟩
  cases recorded : Approvals.recordPending env thread.conversationId run interrupts
      thread.requests with
  | none => exact orderly.recordings erased
  | some requests =>
      have member := List.mem_of_getElem? found
      exact (orderly.recordPending member rfl recorded).recordings erased

theorem step (orderly : Orderly thread) {event : ThreadEvent} (all : thread.AnswersAll event) :
    Orderly (thread.step event) := by
  cases event with
  | start run =>
      simp only [Thread.step]
      split
      case isFalse => exact orderly
      case isTrue possible =>
          obtain ⟨noActive, noLatest, fresh, noParent⟩ := possible
          exact orderly.start (Option.isNone_iff_eq_none.mp noActive)
            (Option.isNone_iff_eq_none.mp noLatest) fresh noParent
  | checkpoint interrupts =>
      simp only [Thread.step]
      split
      case isFalse => exact orderly
      case isTrue possible => exact orderly.waitFor possible.1 interrupts
  | interrupt interrupts =>
      simp only [Thread.step]
      split
      case h_1 => exact orderly
      case h_2 run isActive =>
          split
          case isFalse => exact orderly
          case isTrue mayWait => exact orderly.interrupt isActive mayWait
  | finish status =>
      simp only [Thread.step]
      split
      case h_1 => exact orderly
      case h_2 run isActive =>
          split
          case isFalse => exact orderly
          case isTrue => exact orderly.finish isActive status
  | readCheckpoint index =>
      simp only [Thread.step]
      split
      case h_1 => exact orderly
      case h_2 recording found =>
      apply orderly.recordings
      intro other member
      rcases List.mem_or_eq_of_mem_set member with old | rfl
      · exact ⟨other, old, rfl, Or.inl rfl⟩
      · exact ⟨recording, List.mem_of_getElem? found, rfl, Or.inr rfl⟩
  | record env index => exact orderly.record env index
  | failRecording index =>
      apply orderly.recordings
      intro recording member
      exact ⟨recording, List.mem_of_mem_eraseIdx member, rfl, Or.inl rfl⟩
  | respond answers run => exact orderly.respond all

theorem requestsMatch (orderly : Orderly thread) : thread.RequestsMatch where
  single := by
    rintro id _ first firstMember second secondMember firstPending secondPending rfl sameInterrupt
    obtain ⟨run, latest, firstRun, _⟩ := orderly.pending first firstMember firstPending
    obtain ⟨other, otherLatest, secondRun, _⟩ := orderly.pending second secondMember secondPending
    obtain rfl := Option.some.inj (latest.symm.trans otherLatest)
    exact orderly.single first firstMember second secondMember firstPending secondPending
      (firstRun.trans secondRun.symm) sameInterrupt.symm
  latest := by
    intro id _ row member pending _
    obtain ⟨run, latest, sameRun, _⟩ := orderly.pending row member pending
    exact ⟨run, latest, sameRun⟩
  unanswered := by
    intro row member pending
    obtain ⟨_, _, _, _, unanswered⟩ := orderly.pending row member pending
    exact unanswered

end Orderly

/-- In a run whose resumes come after the recordings and answer every interrupt with a
pending request, the pending requests are those of the interrupts that are waited for. -/
theorem run_requestsMatch (conversationId : Uuid) (events : List ThreadEvent)
    (every : EveryStep step AnswersAll { conversationId := conversationId } events) :
    (run step { conversationId := conversationId } events).Quiet →
      (run step { conversationId := conversationId } events).RequestsMatch := by
  intro _
  exact Orderly.requestsMatch
    (run_allowed_invariant Orderly (fun _ _ all orderly => orderly.step all)
      (orderly_initial conversationId) every)

def approvalPayload : Json :=
  .obj [("action_requests", .arr [.obj [("name", .str "send_mail"), ("args", .obj [])]])]

def recordEnvironment (firstId : Uuid) : RecordEnvironment where
  argsDigest := fun _ => "digest"
  newId := fun interruptId => if interruptId = "a" then firstId else firstId + 1
  expiresAt := 100

def twoInterrupts : List ThreadEvent :=
  [.start { id := 1, tenantId := some 7, status := .running },
    .interrupt
      [{ interruptId := "a", payload := approvalPayload },
        { interruptId := "b", payload := approvalPayload }],
    .readCheckpoint 0, .record (recordEnvironment 10) 0]

def approve (ids : List String) : Answers where
  responses := ids.map fun id => (id, ["approve"])
  actorId := 3
  stamp := 50

def resumedRun : Run where
  id := 2
  parentRunId := some 1
  tenantId := some 7
  status := .running

/-- Both interrupts are answered, and the resumed run ends. -/
theorem run_requestsMatch_bothAnswered :
    (run step { conversationId := 1 } (twoInterrupts ++
      [.respond (approve ["a", "b"]) resumedRun, .finish .completed])).RequestsMatch :=
  run_requestsMatch 1 _ (by decide) ⟨rfl, rfl⟩

/-- One is answered, and the resumed run stops with the other one. -/
def oneAnswered : List ThreadEvent :=
  twoInterrupts ++
    [.respond (approve ["a"]) resumedRun,
      .interrupt [{ interruptId := "b", payload := approvalPayload }],
      .readCheckpoint 0, .record (recordEnvironment 20) 0]

/-- The other interrupt has a pending request of each of the two runs. -/
theorem oneAnswered_leavesRequest :
    ¬ ((run step { conversationId := 1 } oneAnswered).Quiet →
      (run step { conversationId := 1 } oneAnswered).RequestsMatch) := by
  intro claimed
  have isQuiet : (run step { conversationId := 1 } oneAnswered).Quiet := ⟨rfl, rfl⟩
  have single := (claimed isQuiet).single "b" (by decide)
  have rows : ((run step { conversationId := 1 } oneAnswered).requests.rows.filter fun row =>
      row.status = .pending ∧ row.interruptId = "b").map ApprovalRequest.id = [11, 21] := by
    decide
  have pending (id : Uuid) (listed : id ∈ [11, 21]) :
      ∃ row ∈ (run step { conversationId := 1 } oneAnswered).requests.rows,
        row.status = .pending ∧ row.interruptId = "b" ∧ row.id = id := by
    rw [← rows] at listed
    obtain ⟨row, member, sameId⟩ := List.mem_map.mp listed
    rw [List.mem_filter, decide_eq_true_eq] at member
    exact ⟨row, member.1, member.2.1, member.2.2, sameId⟩
  obtain ⟨first, firstMember, firstPending, firstInterrupt, firstId⟩ := pending 11 (by decide)
  obtain ⟨second, secondMember, secondPending, secondInterrupt, secondId⟩ :=
    pending 21 (by decide)
  have same := single first firstMember second secondMember firstPending secondPending
    firstInterrupt secondInterrupt
  rw [same, secondId] at firstId
  exact absurd firstId (by decide)

end Thread

end NaturalMold.Approvals

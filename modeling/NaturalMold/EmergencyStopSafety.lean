import NaturalMold.EmergencyStopRuns

/-! # What a stop leaves running -/

namespace NaturalMold.EmergencyStops

open Conversations (Uuid Time ConversationRun RunStatus RunMove Raised runActiveStatuses
  runTerminalStatuses allowedTransitions transitionRun requestCancelRun)
open KeyedTables StepRuns Fallible

theorem active_of_move {old new : ConversationRun} (move : RunMove old new)
    (isActive : new.status ∈ runActiveStatuses) :
    old.status ∈ runActiveStatuses ∧ new.agentId = old.agentId ∧
      (old.status = .canceling → new.status = .canceling) := by
  cases move with
  | transition now status transition allowed =>
      rw [Conversations.transitioned_status] at isActive ⊢
      refine ⟨?_, ?_, ?_⟩
      · rw [Conversations.active_or_terminal]
        exact Conversations.not_terminal_of_allowed allowed
      · cases status <;> rfl
      · intro canceling
        rw [canceling] at allowed
        revert allowed isActive
        cases status <;> decide
  | requestCancel now reason allowed =>
      refine ⟨?_, rfl, fun _ => rfl⟩
      rw [Conversations.active_or_terminal]
      exact Conversations.not_terminal_of_allowed allowed
  | heartbeat now => exact ⟨isActive, rfl, id⟩
  | adoptPolicy version policyHash source => exact ⟨isActive, rfl, id⟩
  | keep => exact ⟨isActive, rfl, id⟩

theorem transitionRun_canceling (now : Time) (run : ConversationRun)
    (allowed : RunStatus.canceling ∈ allowedTransitions run.status) :
    transitionRun now run .canceling {} =
      .ok (Conversations.transitioned now run .canceling {}) := by
  unfold transitionRun ensure
  rw [if_pos allowed, if_pos fun terminal => absurd terminal.1 (by decide)]
  rfl

theorem cancelRun_status (now : Time) {run : ConversationRun}
    (isActive : run.status ∈ runActiveStatuses) : (cancelRun now run).status = .canceling := by
  have waiting : run.status = .canceling ∨
      (run.status ∈ [.queued, .running] ∧ RunStatus.canceling ∈ allowedTransitions run.status ∧
        ¬ (run.status ∈ runTerminalStatuses ∨ run.status = .canceling)) := by
    revert isActive
    cases run.status <;> decide
  unfold cancelRun requestCancelRun
  rcases waiting with canceling | ⟨movable, allowed, unended⟩
  · rw [if_pos (Or.inr canceling)]
    exact canceling
  · rw [if_neg unended, if_neg (not_not.mpr movable)]
    rw [transitionRun_canceling now { run with cancelReason := some "emergency_stop" } allowed]
    exact Conversations.transitioned_status _ _ _ _

theorem coversRun_congr {db other : Database} (agents : other.agents = db.agents)
    {row : EmergencyStop} {run : ConversationRun} :
    CoversRun other row run ↔ CoversRun db row run := by
  unfold CoversRun
  simp only [covers_congr agents]

theorem target_congr {db other : Database} (agents : other.agents = db.agents)
    (tenantId : Uuid) (scopeType : StopScope) (scopeId : Uuid) :
    target other tenantId scopeType scopeId = target db tenantId scopeType scopeId := by
  unfold target
  rw [agents]

theorem ofAgents_of_coversRun {db : Database} {row : EmergencyStop} {agentIds : List Uuid}
    {run : ConversationRun} (found : target db row.tenantId row.scopeType row.scopeId =
      some agentIds) (covers : CoversRun db row run) : OfAgents agentIds run := by
  obtain ⟨agentId, ofRun, covered⟩ := covers
  exact ⟨agentId, ofRun, (mem_target_iff found covered.1).mpr covered⟩

theorem mem_selectedRuns {agentIds : List Uuid} {runs : Table ConversationRun.id}
    {run : ConversationRun} (member : run ∈ runs.rows) (isActive : run.status ∈ runActiveStatuses)
    (ofAgents : OfAgents agentIds run) : run.id ∈ selectedRuns agentIds runs :=
  List.mem_map.mpr
    ⟨run, List.mem_filter.mpr ⟨member, decide_eq_true ⟨isActive, ofAgents⟩⟩, rfl⟩

def Creation.HasPassed (creation : Creation) : Prop :=
  creation.phase ≠ .locked ∧ creation.phase ≠ .rolledBack

namespace RaceState

/-- What the committed stops and the ones that have selected runs keep from running. -/
structure Guarded (state : RaceState) : Prop where
  canceling : ∀ row ∈ state.db.stops.rows, ∀ run ∈ state.runs.rows,
    run.status ∈ runActiveStatuses → CoversRun state.db row run → run.status = .canceling
  selected : ∀ transaction ∈ state.stops, transaction.hasSelected → ∀ run ∈ state.runs.rows,
    run.status ∈ runActiveStatuses → OfAgents transaction.agentIds run →
      run.id ∈ transaction.selectedIds
  targets : ∀ transaction ∈ state.stops,
    target state.db transaction.tenantId transaction.scopeType transaction.scopeId =
      some transaction.agentIds
  refused : ∀ row ∈ state.db.stops.rows, ∀ creation ∈ state.creations, creation.HasPassed →
    row.id ∈ creation.knownStops → ¬ CoversRun state.db row creation.run
  known : ∀ creation ∈ state.creations, ∀ id ∈ creation.knownStops,
    ∃ row ∈ state.db.stops.rows, row.id = id

variable {state : RaceState}

theorem guarded_initial (agents : Table Agent.id) (deployments : Table AgentDeployment.id)
    (runs : Table ConversationRun.id) :
    Guarded
      { db := { agents := agents, deployments := deployments, stops := Table.empty }
        runs := runs } where
  canceling := fun _ member => absurd member List.not_mem_nil
  selected := fun _ member => absurd member List.not_mem_nil
  targets := fun _ member => absurd member List.not_mem_nil
  refused := fun _ member => absurd member List.not_mem_nil
  known := fun _ member => absurd member List.not_mem_nil

namespace Guarded

theorem stops (guarded : Guarded state) {stops : List StopTransaction}
    (selected : ∀ transaction ∈ stops, transaction.hasSelected → ∀ run ∈ state.runs.rows,
      run.status ∈ runActiveStatuses → OfAgents transaction.agentIds run →
        run.id ∈ transaction.selectedIds)
    (targets : ∀ transaction ∈ stops,
      target state.db transaction.tenantId transaction.scopeType transaction.scopeId =
        some transaction.agentIds) : Guarded { state with stops := stops } :=
  { guarded with selected := selected, targets := targets }

theorem setStop (guarded : Guarded state) {index : ℕ} {transaction : StopTransaction}
    (found : state.stops[index]? = some transaction) {phase : StopPhase}
    (selected : ∀ runIds, phase = .selected runIds → ∀ run ∈ state.runs.rows,
      run.status ∈ runActiveStatuses → OfAgents transaction.agentIds run → run.id ∈ runIds) :
    Guarded (state.setStop index transaction phase) := by
  apply guarded.stops
  · intro other member hasSelected run runMember isActive ofAgents
    rcases List.mem_or_eq_of_mem_set member with old | rfl
    · exact guarded.selected other old hasSelected run runMember isActive ofAgents
    · cases phase with
      | selected runIds => exact selected runIds rfl run runMember isActive ofAgents
      | inserted => cases hasSelected
      | committed => cases hasSelected
      | rolledBack => cases hasSelected
  · intro other member
    rcases List.mem_or_eq_of_mem_set member with old | rfl
    · exact guarded.targets other old
    · exact guarded.targets transaction (List.mem_of_getElem? found)

theorem creations (guarded : Guarded state) {creations : List Creation}
    (refused : ∀ row ∈ state.db.stops.rows, ∀ creation ∈ creations, creation.HasPassed →
      row.id ∈ creation.knownStops → ¬ CoversRun state.db row creation.run)
    (known : ∀ creation ∈ creations, ∀ id ∈ creation.knownStops,
      ∃ row ∈ state.db.stops.rows, row.id = id) : Guarded { state with creations := creations } :=
  { guarded with refused := refused, known := known }

theorem setCreation (guarded : Guarded state) {index : ℕ} {creation : Creation}
    (found : state.creations[index]? = some creation) {phase : CreationPhase}
    (refused : phase ≠ .locked → phase ≠ .rolledBack → creation.HasPassed ∨
      ∀ row ∈ state.db.stops.rows, ¬ CoversRun state.db row creation.run) :
    Guarded (state.setCreation index creation phase) := by
  have member := List.mem_of_getElem? found
  apply guarded.creations
  · intro row rowMember other otherMember passed isKnown
    rcases List.mem_or_eq_of_mem_set otherMember with old | rfl
    · exact guarded.refused row rowMember other old passed isKnown
    · rcases refused passed.1 passed.2 with before | uncovered
      · exact guarded.refused row rowMember creation member before isKnown
      · exact uncovered row rowMember
  · intro other otherMember
    rcases List.mem_or_eq_of_mem_set otherMember with old | rfl
    · exact guarded.known other old
    · exact guarded.known creation member

theorem runs (guarded : Guarded state) {runs : Table ConversationRun.id}
    (moved : ∀ run ∈ runs.rows, ∃ old ∈ state.runs.rows, RunMove old run) :
    Guarded { state with runs := runs } := by
  refine { guarded with canceling := ?_, selected := ?_ }
  · intro row rowMember run runMember isActive covers
    obtain ⟨old, oldMember, move⟩ := moved run runMember
    obtain ⟨wasActive, sameAgent, stays⟩ := active_of_move move isActive
    apply stays
    apply guarded.canceling row rowMember old oldMember wasActive
    unfold CoversRun at covers ⊢
    rwa [← sameAgent]
  · intro transaction member hasSelected run runMember isActive ofAgents
    obtain ⟨old, oldMember, move⟩ := moved run runMember
    obtain ⟨wasActive, sameAgent, _⟩ := active_of_move move isActive
    rw [move.id_eq]
    apply guarded.selected transaction member hasSelected old oldMember wasActive
    unfold OfAgents at ofAgents ⊢
    rwa [← sameAgent]

/-- The commit of a stop that holds the active runs of its agents. -/
theorem commitStop (guarded : Guarded state) {index : ℕ} {transaction : StopTransaction}
    (found : state.stops[index]? = some transaction) (hasSelected : transaction.hasSelected)
    (now : Time) : Guarded (state.commitStop index transaction now) := by
  have member := List.mem_of_getElem? found
  have settled (phase : StopPhase) (ended : ∀ runIds, phase ≠ .selected runIds) :
      Guarded (state.setStop index transaction phase) :=
    guarded.setStop found fun runIds wrong => absurd wrong (ended runIds)
  unfold RaceState.commitStop
  split
  case isTrue => exact settled .rolledBack (by simp)
  case isFalse admitted =>
  have isNew : state.db.stops.get? transaction.newId = none := by
    rw [← Option.not_isSome_iff_eq_none]
    exact fun taken => admitted (Or.inr taken)
  have moved : Guarded
      { state.setStop index transaction .committed with
        runs := state.runs.updateWhere (fun run => run.id ∈ transaction.selectedIds)
          (cancelRun now) fun run => (cancelRun_move now run).id_eq } := by
    apply (settled .committed (by simp)).runs
    intro run runMember
    rcases Table.mem_updateWhere.mp runMember with ⟨old, oldMember, _, rfl⟩ | ⟨kept, _⟩
    · exact ⟨old, oldMember, cancelRun_move now old⟩
    · exact ⟨run, kept, .keep run⟩
  constructor
  case canceling =>
      intro row rowMember run runMember isActive covers
      rw [coversRun_congr stop_agents] at covers
      rcases mem_stop rowMember with old | ⟨_, tenantId, scopeType, scopeId⟩
      · exact moved.canceling row old run runMember isActive covers
      · have ofAgents : OfAgents transaction.agentIds run := by
          refine ofAgents_of_coversRun ?_ covers
          rw [tenantId, scopeType, scopeId]
          exact guarded.targets transaction member
        dsimp only at runMember
        rw [Table.mem_updateWhere] at runMember
        rcases runMember with ⟨old, _, _, rfl⟩ | ⟨kept, unselected⟩
        · exact cancelRun_status now (active_of_move (cancelRun_move now old) isActive).1
        · have selected :=
            guarded.selected transaction member hasSelected run kept isActive ofAgents
          exact absurd (decide_eq_true selected) unselected
  case selected => exact moved.selected
  case targets =>
      intro other otherMember
      rw [target_congr stop_agents]
      exact moved.targets other otherMember
  case refused =>
      intro row rowMember creation creationMember passed isKnown covers
      rw [coversRun_congr stop_agents] at covers
      rcases mem_stop rowMember with old | ⟨sameId, _⟩
      · exact guarded.refused row old creation creationMember passed isKnown covers
      · obtain ⟨older, olderMember, olderId⟩ :=
          guarded.known creation creationMember row.id isKnown
        exact Table.get?_eq_none_iff.mp isNew older olderMember (olderId.trans sameId)
  case known =>
      intro creation creationMember id isKnown
      obtain ⟨row, rowMember, sameId⟩ := guarded.known creation creationMember id isKnown
      exact ⟨row, mem_stop_of_mem rowMember, sameId⟩

theorem release (guarded : Guarded state) (tenantId stopId : Uuid) :
    Guarded { state with db := EmergencyStops.release state.db tenantId stopId } := by
  constructor
  case canceling =>
      intro row rowMember run runMember isActive covers
      have active : row.status = .active := covers.elim fun _ covered => covered.2.1
      exact guarded.canceling row (mem_release rowMember active) run runMember isActive
        ((coversRun_congr release_agents).mp covers)
  case selected => exact guarded.selected
  case targets =>
      intro transaction member
      rw [target_congr release_agents]
      exact guarded.targets transaction member
  case refused =>
      intro row rowMember creation creationMember passed isKnown covers
      have active : row.status = .active := covers.elim fun _ covered => covered.2.1
      exact guarded.refused row (mem_release rowMember active) creation creationMember passed
        isKnown ((coversRun_congr release_agents).mp covers)
  case known =>
  intro creation creationMember id isKnown
  obtain ⟨row, rowMember, sameId⟩ := guarded.known creation creationMember id isKnown
  obtain ⟨later, laterMember, laterId⟩ := exists_mem_release rowMember
  exact ⟨later, laterMember, laterId.trans sameId⟩

theorem commitCreation (guarded : Guarded state) {index : ℕ} {creation : Creation}
    (found : state.creations[index]? = some creation) (flushed : creation.phase = .flushed)
    {runs : Table ConversationRun.id} (inserted : state.runs.insert? creation.run = some runs)
    (uncovered : ∀ row ∈ state.db.stops.rows, ¬ CoversRun state.db row creation.run)
    (unselected : ∀ transaction ∈ state.stops, transaction.hasSelected →
      ¬ OfAgents transaction.agentIds creation.run) :
    Guarded { state.setCreation index creation .committed with runs := runs } := by
  have passed : creation.HasPassed := by
    unfold Creation.HasPassed
    rw [flushed]
    decide
  have committed : Guarded (state.setCreation index creation .committed) :=
    guarded.setCreation found fun _ _ => Or.inl passed
  have split {run : ConversationRun} (member : run ∈ runs.rows) :
      run ∈ state.runs.rows ∨ run = creation.run := by
    rwa [(Table.insert?_eq_some inserted).1, List.mem_append, List.mem_singleton] at member
  refine { committed with canceling := ?_, selected := ?_ }
  · intro row rowMember run member isActive covers
    rcases split member with old | rfl
    · exact guarded.canceling row rowMember run old isActive covers
    · exact absurd covers (uncovered row rowMember)
  · intro transaction transactionMember hasSelected run member isActive ofAgents
    rcases split member with old | rfl
    · exact guarded.selected transaction transactionMember hasSelected run old isActive ofAgents
    · exact absurd ofAgents (unselected transaction transactionMember hasSelected)

theorem updateRun (guarded : Guarded state) (runId : Uuid)
    {update : ConversationRun → Except Raised ConversationRun}
    (moves : ∀ run moved, update run = .ok moved → RunMove run moved) :
    Guarded (state.updateRun runId update) := by
  unfold RaceState.updateRun
  split
  · exact guarded
  · rename_i run found
    split
    · exact guarded
    · split
      · exact guarded
      · rename_i moved succeeded
        apply guarded.runs
        intro saved member
        rcases Table.mem_save.mp member with ⟨rfl, _⟩ | ⟨kept, _⟩
        · exact ⟨run, (Table.get?_eq_some_iff.mp found).1, moves run _ succeeded⟩
        · exact ⟨saved, kept, .keep saved⟩

theorem step (guarded : Guarded state) (action : RaceAction)
    (unstopped : CommitsUnstopped state action) : Guarded (state.step action) := by
  cases action with
  | beginStop tenantId scopeType scopeId newId =>
      simp only [RaceState.step]
      split
      · exact guarded
      · rename_i agentIds found
        split
        · exact guarded
        · apply guarded.stops
          · intro transaction member hasSelected
            rcases List.mem_append.mp member with old | new
            · exact guarded.selected transaction old hasSelected
            · obtain rfl := List.mem_singleton.mp new
              cases hasSelected
          · intro transaction member
            rcases List.mem_append.mp member with old | new
            · exact guarded.targets transaction old
            · obtain rfl := List.mem_singleton.mp new
              exact found
  | selectRuns index =>
      simp only [RaceState.step]
      split
      · exact guarded
      · rename_i transaction found
        split
        · apply guarded.setStop found
          intro runIds selected run member isActive ofAgents
          obtain rfl := StopPhase.selected.inj selected
          exact mem_selectedRuns member isActive ofAgents
        · exact guarded
  | commitStop index now =>
      simp only [RaceState.step]
      split
      · exact guarded
      · rename_i transaction found
        split
        · rename_i hasSelected
          exact guarded.commitStop found hasSelected now
        · exact guarded
  | rollbackStop index =>
      simp only [RaceState.step]
      split
      · exact guarded
      · rename_i transaction found
        split
        · exact guarded
        · exact guarded.setStop found (by simp)
  | release tenantId stopId => exact guarded.release tenantId stopId
  | beginCreation run =>
      simp only [RaceState.step]
      split
      · exact guarded
      · apply guarded.creations
        · intro row rowMember creation member passed
          rcases List.mem_append.mp member with old | new
          · exact guarded.refused row rowMember creation old passed
          · obtain rfl := List.mem_singleton.mp new
            exact absurd rfl passed.1
        · intro creation member id isKnown
          rcases List.mem_append.mp member with old | new
          · exact guarded.known creation old id isKnown
          · obtain rfl := List.mem_singleton.mp new
            exact List.mem_map.mp isKnown
  | refuseRun index =>
      simp only [RaceState.step]
      split
      · exact guarded
      · rename_i creation found
        split
        · exact guarded
        · split
          · exact guarded.setCreation found fun _ wrong => absurd rfl wrong
          · rename_i clear
            refine guarded.setCreation found fun _ _ => Or.inr ?_
            exact fun row rowMember covers => clear ⟨row, rowMember, covers⟩
  | flush index =>
      simp only [RaceState.step]
      split
      · exact guarded
      · rename_i creation found
        split
        · rename_i passed
          refine guarded.setCreation found fun _ _ => Or.inl ?_
          unfold Creation.HasPassed
          rw [passed]
          decide
        · exact guarded
  | commitCreation index =>
      simp only [RaceState.step]
      split
      · exact guarded
      · rename_i creation found
        split
        · exact guarded
        · rename_i flushed
          split
          · exact guarded.setCreation found fun _ wrong => absurd rfl wrong
          · rename_i runs inserted
            have clear := unstopped creation found (not_not.mp flushed)
            exact guarded.commitCreation found (not_not.mp flushed) inserted clear.1 clear.2
  | rollbackCreation index =>
      simp only [RaceState.step]
      split
      · exact guarded
      · rename_i creation found
        split
        · exact guarded
        · exact guarded.setCreation found fun _ wrong => absurd rfl wrong
  | transition now runId status transition =>
      exact guarded.updateRun runId fun _ _ => Conversations.transitionRun_move
  | requestCancel now runId reason =>
      exact guarded.updateRun runId fun _ _ => Conversations.requestCancelRun_move

theorem nothingRuns (guarded : Guarded state) : NothingRuns state where
  canceling := guarded.canceling
  refused := by
    intro row rowMember creation member committed
    refine guarded.refused row rowMember creation member ?_
    unfold Creation.HasPassed
    rw [committed]
    decide

end Guarded

/-- In a run in which no creation commits its run when a stop of its agent has been
committed or has selected the active runs, nothing runs on under a stop. -/
theorem run_nothingRuns (agents : Table Agent.id) (deployments : Table AgentDeployment.id)
    (runs : Table ConversationRun.id) (actions : List RaceAction)
    (every : EveryStep step CommitsUnstopped
      { db := { agents := agents, deployments := deployments, stops := Table.empty }
        runs := runs } actions)
    (_ : Ended (run step
      { db := { agents := agents, deployments := deployments, stops := Table.empty }
        runs := runs } actions)) :
    NothingRuns (run step
      { db := { agents := agents, deployments := deployments, stops := Table.empty }
        runs := runs } actions) :=
  Guarded.nothingRuns
    (run_allowed_invariant Guarded (fun _ action unstopped guarded => guarded.step action unstopped)
      (guarded_initial agents deployments runs) every)

/-- One agent of a person, without deployments. -/
def oneAgent : Database where
  agents := ⟨[{ id := 1, tenantId := 9, userId := 6 }], List.nodup_singleton _⟩
  deployments := Table.empty
  stops := Table.empty

/-- A run of the agent, not running yet. -/
def queuedRun (id : Uuid) : ConversationRun where
  id := id
  conversationId := id
  agentId := some 1
  userId := 6
  parentRunId := none
  source := .chat
  status := .queued
  isActive := true
  createdAt := 0

/-- One run is created before the stop selects, and one looks for a stop afterwards. -/
theorem run_nothingRuns_refused :
    NothingRuns (run step { db := oneAgent, runs := Table.empty }
      [.beginCreation (queuedRun 3), .refuseRun 0, .flush 0, .commitCreation 0,
        .beginStop 9 .user 6 11, .selectRuns 0, .beginCreation (queuedRun 4), .commitStop 0 7,
        .refuseRun 1]) :=
  run_nothingRuns oneAgent.agents Table.empty Table.empty _ (by decide) (by decide)

/-- The creation looks before the stop is committed, and commits after it. -/
def overlappingCreation : RaceState :=
  run step { db := oneAgent, runs := Table.empty }
    [.beginCreation (queuedRun 3), .refuseRun 0, .beginStop 9 .agent 1 11, .selectRuns 0,
      .commitStop 0 7, .flush 0, .commitCreation 0]

theorem overlappingCreation_runs :
    overlappingCreation.Ended ∧ ¬ NothingRuns overlappingCreation := by
  refine ⟨by decide, fun nothing => ?_⟩
  have canceling := nothing.canceling
    { id := 11, tenantId := 9, scopeType := .agent, scopeId := 1, status := .active,
      agentIds := [1], deploymentIds := [] } (by decide) (queuedRun 3) (List.Mem.head _)
    (by decide) (by decide)
  cases canceling

end RaceState

end NaturalMold.EmergencyStops

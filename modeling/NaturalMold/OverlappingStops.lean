import NaturalMold.EmergencyStops

/-! # Overlapping emergency stops -/

namespace NaturalMold.EmergencyStops

open Conversations (Uuid)
open KeyedTables StepRuns

/-- The tables, and for the stops so far which deployments each found disabled by another
active stop. -/
structure System where
  db : Database
  foundDisabled : List (Uuid × Uuid) := []

inductive StopAction
  | stop (tenantId : Uuid) (scopeType : StopScope) (scopeId newId : Uuid)
  | release (tenantId stopId : Uuid)

def heldDeployments (db : Database) (agentIds : List Uuid) : List AgentDeployment :=
  db.deployments.rows.filter fun deployment =>
    deployment.agentId ∈ agentIds ∧ deployment.status = .disabled ∧
      ∃ row ∈ db.stops.rows, row.status = .active ∧ deployment.id ∈ row.deploymentIds

def System.step (system : System) : StopAction → System
  | .stop tenantId scopeType scopeId newId =>
      { db := stop system.db tenantId scopeType scopeId newId
        foundDisabled :=
          system.foundDisabled ++
            (heldDeployments system.db
              ((target system.db tenantId scopeType scopeId).getD [])).map
                fun deployment => (newId, deployment.id) }
  | .release tenantId stopId => { system with db := release system.db tenantId stopId }

/-- What the stops hold is disabled while its agent is covered, and an agent that no stop
covers has the deployments that it had before the stops. -/
structure Composed (before : Table AgentDeployment.id) (system : System) : Prop where
  held : ∀ row ∈ system.db.stops.rows, row.status = .active →
    ∀ deployment ∈ system.db.deployments.rows,
      (deployment.id ∈ row.deploymentIds ∨ (row.id, deployment.id) ∈ system.foundDisabled) →
      (∃ other ∈ system.db.stops.rows, Covers system.db other deployment.agentId) →
        deployment.status = .disabled
  restored : ∀ deployment ∈ system.db.deployments.rows,
    (∀ row ∈ system.db.stops.rows, ¬ Covers system.db row deployment.agentId) →
      deployment ∈ before.rows
  same : system.db.deployments.rows.map AgentDeployment.id = before.rows.map AgentDeployment.id

def ReleasedLast (system : System) : StopAction → Prop
  | .stop .. => True
  | .release tenantId stopId =>
      ∀ row ∈ system.db.stops.rows, row.id = stopId → row.tenantId = tenantId →
        row.status = .active → ∀ deployment ∈ system.db.deployments.rows,
          Restores row deployment → ∀ other ∈ system.db.stops.rows,
            Covers system.db other deployment.agentId → other.id = stopId

instance : DecidableRel ReleasedLast := fun system action =>
  match action with
  | .stop .. => inferInstanceAs (Decidable True)
  | .release tenantId stopId =>
      inferInstanceAs (Decidable (∀ row ∈ system.db.stops.rows, row.id = stopId →
        row.tenantId = tenantId → row.status = .active →
          ∀ deployment ∈ system.db.deployments.rows, Restores row deployment →
            ∀ other ∈ system.db.stops.rows, Covers system.db other deployment.agentId →
              other.id = stopId))

/-- Active stops cover their agents and have disabled what they remember, no agent of an
active deployment is covered, and a deployment that is not as before is remembered. -/
structure Nested (before : Table AgentDeployment.id) (db : Database) : Prop where
  covers : ∀ row ∈ db.stops.rows, row.status = .active →
    ∀ agentId, agentId ∈ row.agentIds ↔ Covers db row agentId
  remembers : ∀ row ∈ db.stops.rows, row.status = .active → ∀ id ∈ row.deploymentIds,
    ∃ deployment ∈ db.deployments.rows, deployment.id = id ∧ deployment.status = .disabled ∧
      deployment.agentId ∈ row.agentIds ∧ { deployment with status := .active } ∈ before.rows
  origin : ∀ deployment ∈ db.deployments.rows,
    deployment ∈ before.rows ∨
      (deployment.status = .disabled ∧
        ∃ row ∈ db.stops.rows, row.status = .active ∧ deployment.id ∈ row.deploymentIds)
  uncovered : ∀ deployment ∈ db.deployments.rows, deployment.status = .active →
    ∀ row ∈ db.stops.rows, row.status = .active → deployment.agentId ∉ row.agentIds
  same : db.deployments.rows.map AgentDeployment.id = before.rows.map AgentDeployment.id

namespace Nested

variable {before : Table AgentDeployment.id} {db : Database}

theorem initial (agents : Table Agent.id) (before : Table AgentDeployment.id) :
    Nested before { agents := agents, deployments := before, stops := Table.empty } where
  covers := fun _ member => absurd member List.not_mem_nil
  remembers := fun _ member => absurd member List.not_mem_nil
  origin := fun _ member => Or.inl member
  uncovered := fun _ _ _ _ member => absurd member List.not_mem_nil
  same := rfl

variable {deployment : AgentDeployment}

theorem was_active (nested : Nested before db) {row : EmergencyStop} (member : row ∈ db.stops.rows)
    (isActive : row.status = .active) (listed : deployment ∈ db.deployments.rows)
    (remembered : deployment.id ∈ row.deploymentIds) :
    deployment.agentId ∈ row.agentIds ∧ { deployment with status := .active } ∈ before.rows := by
  obtain ⟨other, otherMember, sameId, _, covered, wasActive⟩ :=
    nested.remembers row member isActive deployment.id remembered
  rw [db.deployments.eq_of_key_eq otherMember listed sameId] at covered wasActive
  exact ⟨covered, wasActive⟩

theorem mem_before (nested : Nested before db) (listed : deployment ∈ db.deployments.rows)
    (status : deployment.status = .active) :
    { deployment with status := .active } ∈ before.rows := by
  rcases nested.origin deployment listed with same | ⟨disabled, _⟩
  · rw [← status]
    exact same
  · rw [status] at disabled
    cases disabled

variable {deployments : Table AgentDeployment.id}

theorem mem_disableDeployments {agentIds : List Uuid} :
    deployment ∈ (disableDeployments agentIds deployments).2.rows ↔
      (∃ old ∈ deployments.rows, Disables agentIds old ∧
        deployment = { old with status := .disabled }) ∨
      (deployment ∈ deployments.rows ∧ ¬ Disables agentIds deployment) := by
  rw [disableDeployments, Table.mem_updateWhere]
  simp only [decide_eq_true_eq]

theorem mem_disableDeployments_of_disabled {agentIds : List Uuid}
    (member : deployment ∈ deployments.rows) (disabled : deployment.status = .disabled) :
    deployment ∈ (disableDeployments agentIds deployments).2.rows := by
  refine mem_disableDeployments.mpr (Or.inr ⟨member, fun disables => ?_⟩)
  rw [disables.2] at disabled
  cases disabled

theorem keys_disableDeployments {agentIds : List Uuid} :
    (disableDeployments agentIds deployments).2.rows.map AgentDeployment.id =
      deployments.rows.map AgentDeployment.id := by
  apply Table.keys_updateWhere
  exact fun _ => rfl

theorem mem_disabledIds {agentIds : List Uuid} {id : Uuid} :
    id ∈ (disableDeployments agentIds deployments).1 ↔
      ∃ deployment ∈ deployments.rows, Disables agentIds deployment ∧ deployment.id = id := by
  simp only [disableDeployments, List.mem_map, List.mem_filter, decide_eq_true_eq, and_assoc]

/-- A new stop disables what its agents have active. -/
theorem stop (nested : Nested before db) (tenantId : Uuid) (scopeType : StopScope)
    (scopeId newId : Uuid) :
    Nested before (EmergencyStops.stop db tenantId scopeType scopeId newId) := by
  unfold EmergencyStops.stop
  split
  case h_1 => exact nested
  case h_2 agentIds found =>
  split
  case isTrue => exact nested
  case isFalse =>
  dsimp only
  split
  case h_1 => exact nested
  case h_2 stops inserted =>
  have rows := (Table.insert?_eq_some inserted).1
  exact
    { covers := by
        intro row member isActive agentId
        rw [rows, List.mem_append, List.mem_singleton] at member
        rcases member with old | rfl
        · exact nested.covers row old isActive agentId
        · exact mem_target_iff found rfl
      remembers := by
        intro row member isActive id remembered
        rw [rows, List.mem_append, List.mem_singleton] at member
        rcases member with old | rfl
        · obtain ⟨deployment, listed, sameId, disabled, covered⟩ :=
            nested.remembers row old isActive id remembered
          exact ⟨deployment, mem_disableDeployments_of_disabled listed disabled,
            sameId, disabled, covered⟩
        · obtain ⟨deployment, listed, disables, sameId⟩ :=
            mem_disabledIds.mp remembered
          have wasActive := nested.mem_before listed disables.2
          exact ⟨{ deployment with status := .disabled },
            mem_disableDeployments.mpr (Or.inl ⟨deployment, listed, disables, rfl⟩),
            sameId, rfl, disables.1, wasActive⟩
      origin := by
        intro deployment listed
        rw [rows]
        rcases mem_disableDeployments.mp listed with
          ⟨old, oldListed, disables, rfl⟩ | ⟨unchanged, _⟩
        · exact Or.inr ⟨rfl, _, List.mem_append_right _ List.mem_cons_self, rfl,
            mem_disabledIds.mpr ⟨old, oldListed, disables, rfl⟩⟩
        · rcases nested.origin deployment unchanged with same |
            ⟨disabled, row, member, isActive, remembered⟩
          · exact Or.inl same
          · exact Or.inr ⟨disabled, row, List.mem_append_left _ member, isActive,
              remembered⟩
      uncovered := by
        intro deployment listed status row member isActive
        rcases mem_disableDeployments.mp listed with
          ⟨old, _, _, rfl⟩ | ⟨unchanged, untouched⟩
        · cases status
        · rw [rows, List.mem_append, List.mem_singleton] at member
          rcases member with old | rfl
          · exact nested.uncovered deployment unchanged status row old isActive
          · exact fun covered => untouched ⟨covered, status⟩
      same := by
        rw [← nested.same]
        exact keys_disableDeployments }

theorem mem_restored {row : EmergencyStop} :
    deployment ∈ (deployments.updateWhere (fun deployment => Restores row deployment)
        (fun deployment => { deployment with status := .active }) fun _ => rfl).rows ↔
      (∃ old ∈ deployments.rows, Restores row old ∧
        deployment = { old with status := .active }) ∨
      (deployment ∈ deployments.rows ∧ ¬ Restores row deployment) := by
  rw [Table.mem_updateWhere]
  simp only [decide_eq_true_eq]

theorem restore (nested : Nested before db) {row : EmergencyStop}
    (member : row ∈ db.stops.rows) (isActive : row.status = .active)
    {stops : Table EmergencyStop.id}
    (others : ∀ other ∈ stops.rows, other.status = .active →
      other ∈ db.stops.rows ∧ other.id ≠ row.id)
    (kept : ∀ other ∈ db.stops.rows, other.id ≠ row.id → other ∈ stops.rows)
    (alone : ∀ deployment ∈ db.deployments.rows, Restores row deployment →
      ∀ other ∈ db.stops.rows, other.id ≠ row.id → other.status = .active →
        deployment.agentId ∉ other.agentIds) :
    Nested before { db with
      deployments :=
        db.deployments.updateWhere (fun deployment => Restores row deployment)
          (fun deployment => { deployment with status := .active }) fun _ => rfl
      stops := stops } where
  covers := by
    intro other otherMember otherActive agentId
    exact nested.covers other (others other otherMember otherActive).1 otherActive agentId
  remembers := by
    intro other otherMember otherActive id remembered
    obtain ⟨old, different⟩ := others other otherMember otherActive
    obtain ⟨deployment, listed, sameId, disabled, covered, wasActive⟩ :=
      nested.remembers other old otherActive id remembered
    refine ⟨deployment, mem_restored.mpr (Or.inr ⟨listed, fun restores => ?_⟩), sameId, disabled,
      covered, wasActive⟩
    exact alone deployment listed restores other old different otherActive covered
  origin := by
    intro deployment listed
    rcases mem_restored.mp listed with ⟨old, oldListed, restores, rfl⟩ | ⟨unchanged, stays⟩
    · exact Or.inl (nested.was_active member isActive oldListed restores.1).2
    · rcases nested.origin deployment unchanged with same |
        ⟨disabled, other, otherMember, otherActive, remembered⟩
      · exact Or.inl same
      · refine Or.inr ⟨disabled, other, kept other otherMember ?_, otherActive, remembered⟩
        intro sameId
        rw [db.stops.eq_of_key_eq otherMember member sameId] at remembered
        exact stays ⟨remembered, disabled⟩
  uncovered := by
    intro deployment listed status other otherMember otherActive
    obtain ⟨old, different⟩ := others other otherMember otherActive
    rcases mem_restored.mp listed with ⟨was, wasListed, restores, rfl⟩ | ⟨unchanged, _⟩
    · exact alone was wasListed restores other old different otherActive
    · exact nested.uncovered deployment unchanged status other old otherActive
  same := by
    rw [← nested.same]
    apply Table.keys_updateWhere
    exact fun _ => rfl

/-- A release restores what no other stop covers. -/
theorem release (nested : Nested before db) {tenantId stopId : Uuid}
    {foundDisabled : List (Uuid × Uuid)}
    (last : ReleasedLast { db := db, foundDisabled := foundDisabled } (.release tenantId stopId)) :
    Nested before (EmergencyStops.release db tenantId stopId) := by
  unfold EmergencyStops.release
  split
  case h_1 => exact nested
  case h_2 row found =>
  split
  case isFalse => exact nested
  case isTrue possible =>
  obtain ⟨member, sameId⟩ := Table.get?_eq_some_iff.mp found
  have others : ∀ other ∈ (db.stops.save { row with status := .released }).rows,
      other.status = .active → other ∈ db.stops.rows ∧ other.id ≠ row.id := by
    intro other otherMember isActive
    rcases Table.mem_save.mp otherMember with ⟨rfl, _⟩ | ⟨kept, different⟩
    · cases isActive
    · exact ⟨kept, different⟩
  have alone : ∀ deployment ∈ db.deployments.rows, Restores row deployment →
      ∀ other ∈ db.stops.rows, other.id ≠ row.id → other.status = .active →
        deployment.agentId ∉ other.agentIds := by
    intro deployment listed restores other otherMember different isActive covered
    apply different
    rw [sameId]
    exact last row member sameId possible.1 possible.2 deployment listed restores other
      otherMember ((nested.covers other otherMember isActive _).mp covered)
  have kept : ∀ other ∈ db.stops.rows, other.id ≠ row.id →
      other ∈ (db.stops.save { row with status := .released }).rows :=
    fun other otherMember different => Table.mem_save.mpr (Or.inr ⟨otherMember, different⟩)
  exact nested.restore member possible.2 others kept alone

end Nested

theorem Nested.composed {before : Table AgentDeployment.id} {system : System}
    (nested : Nested before system.db) : Composed before system where
  held := by
    rintro row _ _ deployment listed _ ⟨other, otherMember, covered⟩
    cases status : deployment.status with
    | disabled => rfl
    | active =>
        have agent := (nested.covers other otherMember covered.1 deployment.agentId).mpr covered
        exact absurd agent (nested.uncovered deployment listed status other otherMember covered.1)
  restored := by
    intro deployment listed uncovered
    rcases nested.origin deployment listed with same | ⟨_, row, member, isActive, remembered⟩
    · exact same
    · have agent := (nested.was_active member isActive listed remembered).1
      exact absurd ((nested.covers row member isActive _).mp agent) (uncovered row member)
  same := nested.same

theorem step_nested {before : Table AgentDeployment.id} {system : System} {action : StopAction}
    (last : ReleasedLast system action) (nested : Nested before system.db) :
    Nested before (system.step action).db := by
  cases action with
  | stop tenantId scopeType scopeId newId => exact nested.stop tenantId scopeType scopeId newId
  | release tenantId stopId => exact nested.release last

/-- In a run in which each release comes when no other stop covers what it restores, the
stops compose. -/
theorem run_composed (agents : Table Agent.id) (before : Table AgentDeployment.id)
    (actions : List StopAction)
    (every : EveryStep System.step ReleasedLast
      { db := { agents := agents, deployments := before, stops := Table.empty } } actions) :
    Composed before (run System.step
      { db := { agents := agents, deployments := before, stops := Table.empty } } actions) :=
  Nested.composed
    (run_allowed_invariant (fun system => Nested before system.db)
      (fun _ _ last nested => step_nested last nested) (Nested.initial agents before) every)

def oneAgent : Table Agent.id where
  rows := [{ id := 1, tenantId := 9, userId := 5 }]
  distinct := List.nodup_singleton _

def oneDeployment : Table AgentDeployment.id where
  rows := [{ id := 2, agentId := 1, status := .active }]
  distinct := List.nodup_singleton _

/-- The owner's stop is released first. -/
theorem run_composed_ownerFirst :
    Composed oneDeployment (run System.step
      { db := { agents := oneAgent, deployments := oneDeployment, stops := Table.empty } }
      [.stop 9 .agent 1 11, .stop 9 .user 5 12, .release 9 12, .release 9 11]) :=
  run_composed oneAgent oneDeployment _ (by decide)

/-- The agent's stop is released first: its deployment is active under the owner's stop,
which found it disabled by the agent's. -/
theorem agentFirst_restores :
    ¬ Composed oneDeployment (run System.step
      { db := { agents := oneAgent, deployments := oneDeployment, stops := Table.empty } }
      [.stop 9 .agent 1 11, .stop 9 .user 5 12, .release 9 11]) := by
  intro composed
  have disabled := composed.held
    { id := 12, tenantId := 9, scopeType := .user, scopeId := 5, status := .active,
      agentIds := [1], deploymentIds := [] } (by decide) rfl
    { id := 2, agentId := 1, status := .active } (by decide) (by decide) (by decide)
  cases disabled

end NaturalMold.EmergencyStops

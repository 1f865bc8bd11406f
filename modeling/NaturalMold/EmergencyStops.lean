import NaturalMold.ConversationTables
import NaturalMold.StepRuns

/-! # Emergency stops and deployments -/

namespace NaturalMold.EmergencyStops

open Conversations (Uuid)
open KeyedTables StepRuns

inductive StopScope
  | agent
  | user
  | mcpServer
  deriving DecidableEq

inductive StopStatus
  | active
  | released
  deriving DecidableEq

inductive DeploymentStatus
  | active
  | disabled
  deriving DecidableEq

structure Agent where
  id : Uuid
  tenantId : Uuid
  userId : Uuid
  deriving DecidableEq

structure AgentDeployment where
  id : Uuid
  agentId : Uuid
  status : DeploymentStatus
  deriving DecidableEq

/-- A row of `emergency_stops`, with the agents and deployments in its effects. -/
structure EmergencyStop where
  id : Uuid
  tenantId : Uuid
  scopeType : StopScope
  scopeId : Uuid
  status : StopStatus
  agentIds : List Uuid
  deploymentIds : List Uuid
  deriving DecidableEq

structure Database where
  agents : Table Agent.id
  deployments : Table AgentDeployment.id
  stops : Table EmergencyStop.id

/-- The agents of a target; `none` when it is not found in the company. -/
def target (db : Database) (tenantId : Uuid) (scopeType : StopScope) (scopeId : Uuid) :
    Option (List Uuid) :=
  match scopeType with
  | .agent =>
      match db.agents.get? scopeId with
      | none => none
      | some agent => if agent.tenantId = tenantId then some [agent.id] else none
  | .user =>
      some ((db.agents.rows.filter fun agent =>
        agent.userId = scopeId ∧ agent.tenantId = tenantId).map Agent.id)
  | .mcpServer => some []

def Disables (agentIds : List Uuid) (deployment : AgentDeployment) : Prop :=
  deployment.agentId ∈ agentIds ∧ deployment.status = .active

instance (agentIds : List Uuid) (deployment : AgentDeployment) :
    Decidable (Disables agentIds deployment) :=
  inferInstanceAs (Decidable (_ ∧ _))

/-- `_disable_deployments`: the ids it returns, and the table. -/
def disableDeployments (agentIds : List Uuid) (deployments : Table AgentDeployment.id) :
    List Uuid × Table AgentDeployment.id :=
  ((deployments.rows.filter fun deployment => Disables agentIds deployment).map
      AgentDeployment.id,
    deployments.updateWhere (fun deployment => Disables agentIds deployment)
      (fun deployment => { deployment with status := .disabled }) fun _ => rfl)

/-- `stop`; one active stop for a target, which a second one returns as it is. -/
def stop (db : Database) (tenantId : Uuid) (scopeType : StopScope) (scopeId newId : Uuid) :
    Database :=
  match target db tenantId scopeType scopeId with
  | none => db
  | some agentIds =>
      if db.stops.rows.any fun row =>
          row.tenantId = tenantId && row.scopeType = scopeType && row.scopeId = scopeId &&
            row.status = .active then db
      else
        let disabled := disableDeployments agentIds db.deployments
        match db.stops.insert?
            { id := newId
              tenantId := tenantId
              scopeType := scopeType
              scopeId := scopeId
              status := .active
              agentIds := agentIds
              deploymentIds := disabled.1 } with
        | none => db
        | some stops => { db with deployments := disabled.2, stops := stops }

/-- A deployment that a release makes active. -/
def Restores (row : EmergencyStop) (deployment : AgentDeployment) : Prop :=
  deployment.id ∈ row.deploymentIds ∧ deployment.status = .disabled

instance (row : EmergencyStop) (deployment : AgentDeployment) :
    Decidable (Restores row deployment) :=
  inferInstanceAs (Decidable (_ ∧ _))

def release (db : Database) (tenantId stopId : Uuid) : Database :=
  match db.stops.get? stopId with
  | none => db
  | some row =>
      if row.tenantId = tenantId ∧ row.status = .active then
        { db with
          deployments :=
            db.deployments.updateWhere (fun deployment => Restores row deployment)
              (fun deployment => { deployment with status := .active }) fun _ => rfl
          stops := db.stops.save { row with status := .released } }
      else db

/-- The stop is among those that `stop_for_agent` looks for. -/
def Covers (db : Database) (row : EmergencyStop) (agentId : Uuid) : Prop :=
  row.status = .active ∧ ∃ agent ∈ db.agents.rows, agent.id = agentId ∧
    row.tenantId = agent.tenantId ∧
    ((row.scopeType = .agent ∧ row.scopeId = agent.id) ∨
      (row.scopeType = .user ∧ row.scopeId = agent.userId))

instance (db : Database) (row : EmergencyStop) (agentId : Uuid) :
    Decidable (Covers db row agentId) :=
  inferInstanceAs (Decidable (_ ∧ ∃ agent ∈ db.agents.rows, _ ∧ _ ∧ (_ ∧ _ ∨ _ ∧ _)))

theorem mem_target_iff {db : Database} {row : EmergencyStop} {agentIds : List Uuid}
    (found : target db row.tenantId row.scopeType row.scopeId = some agentIds)
    (isActive : row.status = .active) {agentId : Uuid} :
    agentId ∈ agentIds ↔ Covers db row agentId := by
  unfold target at found
  unfold Covers
  split at found
  case h_1 scope =>
      rw [scope]
      split at found
      · cases found
      · rename_i agent present
        split at found
        case isFalse => cases found
        case isTrue inTenant =>
        obtain rfl := Option.some.inj found
        obtain ⟨member, sameId⟩ := Table.get?_eq_some_iff.mp present
        rw [List.mem_singleton]
        constructor
        · rintro rfl
          exact ⟨isActive, agent, member, rfl, inTenant.symm, Or.inl ⟨rfl, sameId.symm⟩⟩
        · rintro ⟨_, other, otherMember, rfl, _, ⟨_, scopeId⟩ | ⟨wrong, _⟩⟩
          · rw [sameId, scopeId]
          · cases wrong
  case h_2 scope =>
      rw [scope]
      obtain rfl := Option.some.inj found
      rw [List.mem_map]
      constructor
      · rintro ⟨agent, listed, sameId⟩
        rw [List.mem_filter, decide_eq_true_eq] at listed
        exact ⟨isActive, agent, listed.1, sameId, listed.2.2.symm,
          Or.inr ⟨rfl, listed.2.1.symm⟩⟩
      · rintro ⟨_, agent, member, sameId, tenant, ⟨wrong, _⟩ | ⟨_, owner⟩⟩
        · cases wrong
        · exact ⟨agent, List.mem_filter.mpr ⟨member, decide_eq_true ⟨owner.symm, tenant.symm⟩⟩,
            sameId⟩
  case h_3 scope =>
  rw [scope]
  obtain rfl := Option.some.inj found
  refine iff_of_false List.not_mem_nil ?_
  rintro ⟨_, _, _, _, _, ⟨wrong, _⟩ | ⟨wrong, _⟩⟩ <;> cases wrong

section

variable {db : Database} {tenantId : Uuid} {scopeType : StopScope} {scopeId newId stopId : Uuid}
  {row : EmergencyStop}

theorem stop_agents : (stop db tenantId scopeType scopeId newId).agents = db.agents := by
  unfold stop
  split
  · rfl
  · split
    · rfl
    · dsimp only
      split <;> rfl

theorem release_agents : (release db tenantId stopId).agents = db.agents := by
  unfold release
  split
  · rfl
  · split <;> rfl

theorem mem_stop (member : row ∈ (stop db tenantId scopeType scopeId newId).stops.rows) :
    row ∈ db.stops.rows ∨
      (row.id = newId ∧ row.tenantId = tenantId ∧ row.scopeType = scopeType ∧
        row.scopeId = scopeId) := by
  unfold stop at member
  split at member
  · exact Or.inl member
  · split at member
    · exact Or.inl member
    · dsimp only at member
      split at member
      · exact Or.inl member
      · rename_i inserted
        rw [(Table.insert?_eq_some inserted).1, List.mem_append, List.mem_singleton] at member
        rcases member with old | rfl
        · exact Or.inl old
        · exact Or.inr ⟨rfl, rfl, rfl, rfl⟩

theorem mem_stop_of_mem (member : row ∈ db.stops.rows) :
    row ∈ (stop db tenantId scopeType scopeId newId).stops.rows := by
  unfold stop
  split
  · exact member
  · split
    · exact member
    · dsimp only
      split
      · exact member
      · rename_i inserted
        rw [(Table.insert?_eq_some inserted).1]
        exact List.mem_append_left _ member

theorem mem_release (member : row ∈ (release db tenantId stopId).stops.rows)
    (isActive : row.status = .active) : row ∈ db.stops.rows := by
  unfold release at member
  split at member
  · exact member
  · split at member
    · rcases Table.mem_save.mp member with ⟨rfl, _⟩ | ⟨kept, _⟩
      · cases isActive
      · exact kept
    · exact member

theorem exists_mem_release (member : row ∈ db.stops.rows) :
    ∃ later ∈ (release db tenantId stopId).stops.rows, later.id = row.id := by
  unfold release
  split
  · exact ⟨row, member, rfl⟩
  · rename_i released found
    split
    · by_cases same : row.id = released.id
      · exact ⟨_, Table.mem_save.mpr (Or.inl ⟨rfl, row, member, same⟩), same.symm⟩
      · exact ⟨row, Table.mem_save.mpr (Or.inr ⟨member, same⟩), rfl⟩
    · exact ⟨row, member, rfl⟩

/-- What a stop covers depends on the agents alone. -/
theorem covers_congr {other : Database} (agents : other.agents = db.agents) {agentId : Uuid} :
    Covers other row agentId ↔ Covers db row agentId := by
  unfold Covers
  rw [agents]

end

end NaturalMold.EmergencyStops

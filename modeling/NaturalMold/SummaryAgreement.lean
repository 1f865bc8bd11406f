import NaturalMold.InstallationSummaries

/-! # Agreement of the summaries of one item and of many -/

namespace NaturalMold.InstallationSummaries

open KeyedTables

variable {env : Environment} {db : Database} {context : OrgContext}
  {installations : List MarketplaceInstallation} {installation : MarketplaceInstallation}

section Prefetch

variable {id : Uuid}

theorem mem_versionTargets (member : installation ∈ installations) {itemId versionId : Uuid}
    (itemEq : installation.itemId = some itemId)
    (versionEq : installation.versionId = some versionId)
    (resource : installation.resource = .mcp id ∨ installation.resource = .agentBlueprint id) :
    (itemId, versionId) ∈ versionTargets installations := by
  rw [versionTargets, List.mem_filterMap]
  use installation, member
  rcases resource with server | blueprint
  · rw [itemEq, versionEq, server]
  · rw [itemEq, versionEq, blueprint]

theorem mem_serverIds (member : installation ∈ installations) (item : installation.itemId.isSome)
    (version : installation.versionId.isSome)
    (resource : installation.installedMcpServerId = some id) : id ∈ serverIds installations := by
  rw [serverIds, List.mem_filterMap]
  use installation, member
  rw [item, version, resource]
  rfl

theorem mem_blueprintIds_iff :
    id ∈ blueprintIds installations ↔
      ∃ other ∈ installations, other.itemId.isSome ∧ other.versionId.isSome ∧
        other.installedAgentBlueprintId = some id := by
  rw [blueprintIds, List.mem_filterMap]
  simp [and_assoc]

theorem versionOf_prefetch (member : installation ∈ installations)
    (resource : installation.resource = .mcp id ∨ installation.resource = .agentBlueprint id) :
    versionOf db (some (loadInstallationPrefetch env db context installations)) installation =
      versionOf db none installation := by
  cases itemEq : installation.itemId with
  | none => simp [versionOf, itemEq]
  | some itemId =>
      cases versionEq : installation.versionId with
      | none => simp [versionOf, itemEq, versionEq]
      | some versionId =>
          have target := mem_versionTargets member itemEq versionEq resource
          simp only [versionOf, itemEq, versionEq, loadInstallationPrefetch, Table.get?_filter]
          cases found : db.versions.get? versionId with
          | none => rfl
          | some version =>
              have versionKey := (Table.get?_eq_some_iff.mp found).2
              by_cases same : version.itemId = itemId
              · simp [Option.filter_some, same, versionKey, target]
              · simp [Option.filter_some, same]

theorem serverOf_prefetch (listed : id ∈ serverIds installations) :
    serverOf db context (some (loadInstallationPrefetch env db context installations)) id =
      serverOf db context none id :=
  Table.get?_filter_listed db.servers (fun server => context.owns server.scope) listed

theorem blueprintOf_prefetch (listed : id ∈ blueprintIds installations) :
    blueprintOf db context (some (loadInstallationPrefetch env db context installations)) id =
      blueprintOf db context none id :=
  Table.get?_filter_listed db.blueprints (fun blueprint => context.owns blueprint.scope) listed

theorem blueprintOf_prefetch_of_notMem (unlisted : id ∉ blueprintIds installations) :
    blueprintOf db context (some (loadInstallationPrefetch env db context installations)) id =
      none := by
  rw [blueprintOf, loadInstallationPrefetch, Table.get?_eq_none_iff]
  rintro blueprint member rfl
  have loaded := List.of_mem_filter member
  simp [unlisted] at loaded

def loadedCredentialIds (env : Environment) (db : Database) (context : OrgContext)
    (installations : List MarketplaceInstallation) : List Uuid :=
  let prefetch := loadInstallationPrefetch env db context installations
  credentialIds env prefetch.servers.rows prefetch.blueprints.rows

theorem credentialOf_prefetch (listed : id ∈ loadedCredentialIds env db context installations) :
    credentialOf db context (some (loadInstallationPrefetch env db context installations)) id =
      credentialOf db context none id :=
  Table.get?_filter_listed db.credentials (fun credential => context.owns credential.scope) listed

theorem mem_loadedCredentialIds_of_server {credentialId : Uuid} {server : McpServer}
    (found : serverOf db context (some (loadInstallationPrefetch env db context installations)) id =
      some server) (bound : server.credentialId = some credentialId) :
    credentialId ∈ loadedCredentialIds env db context installations := by
  apply List.mem_append_left
  rw [List.mem_filterMap]
  exact ⟨server, (Table.get?_eq_some_iff.mp found).1, bound⟩

theorem mem_of_getField {name : String} {fields : List (String × Json)} {value : Json}
    (found : Json.getField name .null fields = value) (present : value ≠ .null) :
    (name, value) ∈ fields := by
  induction fields with
  | nil => exact absurd found.symm present
  | cons field fields ih =>
      rw [Json.getField] at found
      split at found
      case isTrue same =>
          rw [← same, ← found]
          exact List.mem_cons_self
      case isFalse => exact List.mem_cons_of_mem _ (ih found)

theorem mem_loadedCredentialIds_of_blueprint {credentialId : Uuid} {blueprint : AgentBlueprint}
    {requirement : List (String × Json)} (found : blueprintOf db context
      (some (loadInstallationPrefetch env db context installations)) id = some blueprint)
    (bound : blueprintCredentialId env blueprint requirement = some credentialId) :
    credentialId ∈ loadedCredentialIds env db context installations := by
  apply List.mem_append_right
  rw [List.mem_flatMap]
  use blueprint, (Table.get?_eq_some_iff.mp found).1
  rw [List.mem_filterMap]
  apply Exists.intro (_, _)
  constructor
  · apply mem_of_getField rfl
    intro missing
    rw [blueprintCredentialId, missing, normalizedId] at bound
    cases bound
  · exact bound

/-- A credential whose identifier was collected is found in either way. -/
theorem credentialBindingMissing_prefetch {reference : Option Uuid}
    {requirement : List (String × Json)}
    (listed : ∀ id, reference = some id → id ∈ loadedCredentialIds env db context installations) :
    credentialBindingMissing db context
        (some (loadInstallationPrefetch env db context installations)) reference requirement =
      credentialBindingMissing db context none reference requirement := by
  have same : reference.bind (credentialOf db context
      (some (loadInstallationPrefetch env db context installations))) =
        reference.bind (credentialOf db context none) := by
    cases reference with
    | none => rfl
    | some id => exact credentialOf_prefetch (listed id rfl)
  rw [credentialBindingMissing, credentialBindingMissing, same]

end Prefetch

section Projection

theorem isSome_of_versionOf {version : MarketplaceVersion}
    (found : versionOf db none installation = some version) :
    installation.itemId.isSome ∧ installation.versionId.isSome := by
  cases itemEq : installation.itemId with
  | none => simp [versionOf, itemEq] at found
  | some itemId =>
      cases versionEq : installation.versionId with
      | none => simp [versionOf, itemEq, versionEq] at found
      | some versionId => exact ⟨rfl, rfl⟩

variable {id : Uuid}

theorem mcpInstallationMissingRequiredCredentials_prefetch (member : installation ∈ installations)
    (resource : installation.resource = .mcp id) :
    mcpInstallationMissingRequiredCredentials env db context
        (some (loadInstallationPrefetch env db context installations)) installation =
      mcpInstallationMissingRequiredCredentials env db context none installation := by
  have server : installation.installedMcpServerId = some id := by
    rw [MarketplaceInstallation.installedMcpServerId, resource]
  rw [mcpInstallationMissingRequiredCredentials, mcpInstallationMissingRequiredCredentials, server,
    versionOf_prefetch member (Or.inl resource)]
  cases versionEq : versionOf db none installation with
  | none => rfl
  | some version =>
      obtain ⟨item, hasVersion⟩ := isSome_of_versionOf versionEq
      have same : serverOf db context (some (loadInstallationPrefetch env db context
          installations)) id = serverOf db context none id :=
        serverOf_prefetch (mem_serverIds member item hasVersion server)
      dsimp only
      rw [same]
      cases found : serverOf db context none id with
      | none => rfl
      | some server =>
          have listed : ∀ requirement credentialId,
              serverCredentialId env server requirement = some credentialId →
                credentialId ∈ loadedCredentialIds env db context installations := by
            intro requirement credentialId bound
            rw [serverCredentialId] at bound
            split at bound
            case isTrue => exact mem_loadedCredentialIds_of_server (same.trans found) bound
            case isFalse => cases bound
          simp only [credentialBindingMissing_prefetch (listed _)]

/-- What the rows of a blueprint that was loaded with its version say about it. -/
theorem agentBlueprintInstallationState_prefetch (member : installation ∈ installations)
    (resource : installation.resource = .agentBlueprint id)
    (listed : id ∈ blueprintIds installations) :
    agentBlueprintInstallationState env db context
        (some (loadInstallationPrefetch env db context installations)) installation =
      agentBlueprintInstallationState env db context none installation := by
  have blueprint : installation.installedAgentBlueprintId = some id := by
    rw [MarketplaceInstallation.installedAgentBlueprintId, resource]
  have same : blueprintOf db context (some (loadInstallationPrefetch env db context
      installations)) id = blueprintOf db context none id := blueprintOf_prefetch listed
  rw [agentBlueprintInstallationState, agentBlueprintInstallationState, blueprint,
    versionOf_prefetch member (Or.inr resource)]
  dsimp only
  rw [same]
  cases found : blueprintOf db context none id with
  | none => rfl
  | some blueprint =>
      have bound : ∀ requirement credentialId,
          blueprintCredentialId env blueprint requirement = some credentialId →
            credentialId ∈ loadedCredentialIds env db context installations :=
        fun _ _ => mem_loadedCredentialIds_of_blueprint (same.trans found)
      simp only [credentialBindingMissing_prefetch (bound _)]

/-- A changed blueprint that was installed without a version, and that no other installation brings
along. -/
def OverlooksBlueprint (db : Database) (context : OrgContext)
    (installations : List MarketplaceInstallation) (installation : MarketplaceInstallation) :
    Prop :=
  ∃ id blueprint, installation.resource = .agentBlueprint id ∧
    installation.versionId = none ∧ scopedBlueprint db context id = some blueprint ∧
    blueprint.isDirty ∧
    ∀ other ∈ installations, other.resource = .agentBlueprint id → other.versionId = none

theorem installedAgentBlueprintId_eq_some_iff :
    installation.installedAgentBlueprintId = some id ↔ installation.resource = .agentBlueprint id := by
  rw [MarketplaceInstallation.installedAgentBlueprintId]
  cases installation.resource <;> simp

/-- Loading the rows together changes nothing for a resource that is no blueprint. -/
theorem recompute_prefetch_of_ne (member : installation ∈ installations)
    (other : ∀ id, installation.resource ≠ .agentBlueprint id) (status : InstallStatus)
    (dirty : Bool) :
    recomputeInstallationProjectionState env db context
        (some (loadInstallationPrefetch env db context installations)) installation status dirty =
      recomputeInstallationProjectionState env db context none installation status dirty := by
  have noBlueprint : installation.installedAgentBlueprintId.isSome = false := by
    rw [Option.isSome_eq_false_iff, Option.isNone_iff_eq_none, Option.eq_none_iff_forall_ne_some]
    intro id blueprint
    exact other id (installedAgentBlueprintId_eq_some_iff.mp blueprint)
  simp only [recomputeInstallationProjectionState, noBlueprint, Bool.false_eq_true, if_false]
  cases resource : installation.resource with
  | mcp id => rw [mcpInstallationMissingRequiredCredentials_prefetch member resource]
  | skill id | agentBlueprint id | agent id =>
      rw [MarketplaceInstallation.installedMcpServerId, resource]
      rfl

theorem recompute_agentBlueprint {prefetch : Option InstallationPrefetch}
    (resource : installation.resource = .agentBlueprint id) (dirty : Bool) :
    recomputeInstallationProjectionState env db context prefetch installation .active dirty =
      (if (agentBlueprintInstallationState env db context prefetch installation).1 then .needsSetup
        else .active,
        dirty || (agentBlueprintInstallationState env db context prefetch installation).2) := by
  have server : installation.installedMcpServerId.isSome = false := by
    rw [MarketplaceInstallation.installedMcpServerId, resource]
    rfl
  have blueprint : installation.installedAgentBlueprintId.isSome := by
    rw [installedAgentBlueprintId_eq_some_iff.mpr resource]
    rfl
  simp [recomputeInstallationProjectionState, server, blueprint]

/-- A blueprint that is not loaded counts as missing and unchanged. -/
theorem agentBlueprintInstallationState_prefetch_of_notMem
    (resource : installation.resource = .agentBlueprint id)
    (unlisted : id ∉ blueprintIds installations) :
    agentBlueprintInstallationState env db context
      (some (loadInstallationPrefetch env db context installations)) installation =
        (true, false) := by
  rw [agentBlueprintInstallationState, installedAgentBlueprintId_eq_some_iff.mpr resource]
  dsimp only
  rw [blueprintOf_prefetch_of_notMem unlisted]

theorem agentBlueprintInstallationState_of_versionId_none {blueprint : AgentBlueprint}
    (resource : installation.resource = .agentBlueprint id)
    (version : installation.versionId = none)
    (found : scopedBlueprint db context id = some blueprint) :
    agentBlueprintInstallationState env db context none installation =
      (true, blueprint.isDirty) := by
  have noVersion : versionOf db none installation = none := by
    rw [versionOf, version]
    cases installation.itemId <;> rfl
  rw [agentBlueprintInstallationState, installedAgentBlueprintId_eq_some_iff.mpr resource]
  dsimp only
  rw [blueprintOf, found, noVersion]

theorem recompute_prefetch_iff (member : installation ∈ installations)
    (items : ∀ other ∈ installations, other.itemId.isSome)
    (resource : installation.resource = .agentBlueprint id)
    (inScope : childInScope db context installation) :
    recomputeInstallationProjectionState env db context
          (some (loadInstallationPrefetch env db context installations)) installation .active
          installation.isDirty =
        recomputeInstallationProjectionState env db context none installation .active
          installation.isDirty ↔
      (installation.isDirty = false → ¬OverlooksBlueprint db context installations installation) := by
  rw [recompute_agentBlueprint resource, recompute_agentBlueprint resource]
  by_cases listed : id ∈ blueprintIds installations
  · rw [agentBlueprintInstallationState_prefetch member resource listed]
    refine iff_of_true rfl ?_
    rintro - ⟨other, blueprint, otherResource, -, -, -, alone⟩
    obtain rfl := InstalledResource.agentBlueprint.inj (resource.symm.trans otherResource)
    obtain ⟨bringer, bringerMember, -, version, brings⟩ := mem_blueprintIds_iff.mp listed
    rw [alone bringer bringerMember (installedAgentBlueprintId_eq_some_iff.mp brings)] at version
    cases version
  · have alone : ∀ other ∈ installations, other.resource = .agentBlueprint id →
        other.versionId = none := by
      intro other otherMember otherResource
      by_contra version
      apply listed
      rw [mem_blueprintIds_iff]
      exact ⟨other, otherMember, items other otherMember, Option.isSome_iff_ne_none.mpr version,
        installedAgentBlueprintId_eq_some_iff.mpr otherResource⟩
    have version := alone installation member resource
    rw [childInScope, resource] at inScope
    obtain ⟨blueprint, found⟩ := Option.isSome_iff_exists.mp inScope
    rw [agentBlueprintInstallationState_prefetch_of_notMem resource listed,
      agentBlueprintInstallationState_of_versionId_none resource version found]
    have overlooks : OverlooksBlueprint db context installations installation ↔
        blueprint.isDirty := by
      constructor
      · rintro ⟨other, changed, otherResource, -, otherFound, dirty, -⟩
        obtain rfl := InstalledResource.agentBlueprint.inj (resource.symm.trans otherResource)
        obtain rfl := Option.some.inj (found.symm.trans otherFound)
        exact dirty
      · intro dirty
        exact ⟨id, blueprint, resource, version, found, dirty, alone⟩
    rw [overlooks]
    cases installation.isDirty <;> cases blueprint.isDirty <;> simp

theorem recompute_sourceRemoved_iff {prefetch : Option InstallationPrefetch}
    {status : InstallStatus} {dirty : Bool} :
    (recomputeInstallationProjectionState env db context prefetch installation status dirty).1 =
        .sourceRemoved ↔ status = .sourceRemoved := by
  rw [recomputeInstallationProjectionState]
  split
  case isTrue => rfl
  case isFalse active =>
  rw [ne_eq, not_not] at active
  subst active
  split
  · dsimp only
    split <;> simp
  · split
    · dsimp only
      split <;> simp
    · simp

end Projection

section Installation

variable {prefetch : Option InstallationPrefetch} {item : MarketplaceItem} {skill : Option Skill}
  {summary : MarketplaceInstallationSummary}

theorem validateStatus_eq_ok {status : InstallStatus} :
    (∃ shown, validateStatus status = .ok shown) ↔ status ≠ .sourceRemoved := by
  cases status <;> simp [validateStatus]

theorem validateStatus_injective {first second : InstallStatus} {shown : SummaryStatus}
    (firstShown : validateStatus first = .ok shown)
    (secondShown : validateStatus second = .ok shown) : first = second := by
  have same := firstShown.trans secondShown.symm
  cases first <;> cases second <;> simp [validateStatus] at same ⊢

theorem exists_missingRequiredKeys_iff {skill : Skill} :
    (∃ keys, missingRequiredKeys env db context skill = .ok keys) ↔
      (scopedSkill db context skill.id).isSome ∧ env.resolvesActor context := by
  have check : requirePrivateSkill env db context skill = .ok () ↔
      (scopedSkill db context skill.id).isSome ∧ env.resolvesActor context :=
    Fallible.ensure_eq_ok
  rw [← check]
  constructor
  · rintro ⟨keys, found⟩
    rw [missingRequiredKeys, Fallible.bind_eq_ok] at found
    obtain ⟨_, passed, _⟩ := found
    exact passed
  · intro passed
    rw [missingRequiredKeys, passed]
    dsimp only [bind, Except.bind]
    split <;> exact ⟨_, rfl⟩

theorem skillsById_prefetch (member : installation ∈ installations) :
    installation.installedSkillId.bind (skillsById db context installations).get? =
      installation.installedSkillId.bind (scopedSkill db context) := by
  cases skillEq : installation.installedSkillId with
  | none => rfl
  | some id =>
      apply Table.get?_filter_listed db.skills (fun skill => context.owns skill.scope)
      rw [List.mem_filterMap]
      exact ⟨installation, member, skillEq⟩

theorem exists_skillState_iff (inScope : childInScope db context installation) :
    (∃ state, skillState env db context installation
        (installation.installedSkillId.bind (scopedSkill db context)) = .ok state) ↔
      (installation.installStatus = .active → installation.installedSkillId.isSome →
        env.resolvesActor context) := by
  cases resource : installation.resource with
  | agentBlueprint id | agent id | mcp id =>
      have noSkill : installation.installedSkillId = none := by
        rw [MarketplaceInstallation.installedSkillId, resource]
      rw [noSkill]
      refine iff_of_true ⟨_, rfl⟩ ?_
      intro _ present
      cases present
  | skill id =>
      have skillEq : installation.installedSkillId = some id := by
        rw [MarketplaceInstallation.installedSkillId, resource]
      rw [childInScope, resource] at inScope
      obtain ⟨skill, found⟩ := Option.isSome_iff_exists.mp inScope
      have key : skill.id = id :=
        (Table.get?_eq_some_iff.mp (Option.filter_eq_some_iff.mp found).1).2
      have keys := @exists_missingRequiredKeys_iff env db context skill
      rw [key, found] at keys
      rw [skillEq, Option.bind_some, found, skillState]
      by_cases active : installation.installStatus = .active
      · simp only [active, if_true, Fallible.bind_eq_ok, forall_const, Option.isSome_some]
        constructor
        · rintro ⟨_, missing, missingEq, _⟩
          exact (keys.mp ⟨missing, missingEq⟩).2
        · intro resolves
          obtain ⟨missing, missingEq⟩ := keys.mpr ⟨rfl, resolves⟩
          exact ⟨_, missing, missingEq, rfl⟩
      · simp only [active, if_false]
        exact iff_of_true ⟨_, rfl⟩ fun impossible => impossible.elim

theorem skillState_sourceRemoved_iff {state : InstallStatus × Bool}
    (found : skillState env db context installation skill = .ok state) :
    state.1 = .sourceRemoved ↔ installation.installStatus = .sourceRemoved := by
  cases skill with
  | none =>
      obtain rfl := Except.ok.inj found
      rfl
  | some skill =>
      rw [skillState] at found
      split at found
      case isTrue active =>
          obtain ⟨missing, -, stateEq⟩ := Fallible.bind_eq_ok.mp found
          rw [← Except.ok.inj stateEq, active]
          dsimp only
          split <;> simp
      case isFalse =>
          obtain rfl := Except.ok.inj found
          rfl

theorem summarize_eq_ok_iff :
    summarize env db context prefetch item installation skill = .ok summary ↔
      ∃ state status, skillState env db context installation skill = .ok state ∧
        validateStatus (recomputeInstallationProjectionState env db context prefetch installation
          state.1 state.2).1 = .ok status ∧
        summary =
          { installed := installation.installStatus ≠ .uninstalled
            installationId := some installation.id
            installedResourceId := installationResourceId installation
            status := some status
            updateAvailable :=
              item.latestVersionId.isSome && installation.versionId ≠ item.latestVersionId
            dirty := (recomputeInstallationProjectionState env db context prefetch installation
              state.1 state.2).2 } := by
  rw [summarize]
  simp only [Fallible.bind_eq_ok, Except.ok.injEq]
  constructor
  · rintro ⟨state, stateEq, status, statusEq, rfl⟩
    exact ⟨state, status, stateEq, statusEq, rfl⟩
  · rintro ⟨state, status, stateEq, statusEq, rfl⟩
    exact ⟨state, stateEq, status, statusEq, rfl⟩

/-- Whether an installation can be summarized does not depend on how its rows are read. -/
theorem exists_summary_iff (inScope : childInScope db context installation) :
    (∃ summary, summarize env db context prefetch item installation
        (installation.installedSkillId.bind (scopedSkill db context)) = .ok summary) ↔
      installation.installStatus ≠ .sourceRemoved ∧
        (installation.installStatus = .active → installation.installedSkillId.isSome →
          env.resolvesActor context) := by
  rw [← exists_skillState_iff inScope]
  constructor
  · rintro ⟨summary, found⟩
    obtain ⟨state, status, stateEq, statusEq, -⟩ := summarize_eq_ok_iff.mp found
    constructor
    · rw [ne_eq, ← skillState_sourceRemoved_iff stateEq]
      have valid := validateStatus_eq_ok.mp ⟨status, statusEq⟩
      rwa [ne_eq, recompute_sourceRemoved_iff] at valid
    · exact ⟨state, stateEq⟩
  · rintro ⟨valid, state, stateEq⟩
    rw [ne_eq, ← skillState_sourceRemoved_iff stateEq, ← recompute_sourceRemoved_iff] at valid
    obtain ⟨status, statusEq⟩ := validateStatus_eq_ok.mpr valid
    exact ⟨_, summarize_eq_ok_iff.mpr ⟨state, status, stateEq, statusEq, rfl⟩⟩

/-- What an installation needs for its two summaries to exist and to be equal. -/
structure ShownAlike (env : Environment) (db : Database) (context : OrgContext)
    (installations : List MarketplaceInstallation) (installation : MarketplaceInstallation) :
    Prop where
  shown : installation.installStatus ≠ .sourceRemoved
  actor : installation.installStatus = .active → installation.installedSkillId.isSome →
    env.resolvesActor context
  blueprint : installation.installStatus = .active → installation.isDirty = false →
    ¬OverlooksBlueprint db context installations installation

theorem not_overlooksBlueprint_of_ne
    (other : ∀ id, installation.resource ≠ .agentBlueprint id) :
    ¬OverlooksBlueprint db context installations installation := by
  rintro ⟨id, _, resource, _⟩
  exact other id resource

theorem recompute_eq_iff (member : installation ∈ installations)
    (items : ∀ other ∈ installations, other.itemId.isSome)
    (inScope : childInScope db context installation) {state : InstallStatus × Bool}
    (stateEq : skillState env db context installation
      (installation.installedSkillId.bind (scopedSkill db context)) = .ok state) :
    recomputeInstallationProjectionState env db context
          (some (loadInstallationPrefetch env db context installations)) installation state.1
          state.2 =
        recomputeInstallationProjectionState env db context none installation state.1 state.2 ↔
      (installation.installStatus = .active → installation.isDirty = false →
        ¬OverlooksBlueprint db context installations installation) := by
  by_cases blueprint : ∃ id, installation.resource = .agentBlueprint id
  · obtain ⟨id, resource⟩ := blueprint
    have noSkill : installation.installedSkillId = none := by
      rw [MarketplaceInstallation.installedSkillId, resource]
    rw [noSkill] at stateEq
    obtain rfl := Except.ok.inj stateEq
    by_cases active : installation.installStatus = .active
    · rw [active, recompute_prefetch_iff member items resource inScope]
      exact ⟨fun alike _ => alike, fun alike => alike rfl⟩
    · simp [recomputeInstallationProjectionState, active]
  · rw [not_exists] at blueprint
    refine iff_of_true (recompute_prefetch_of_ne member blueprint _ _) ?_
    intro _ _
    exact not_overlooksBlueprint_of_ne blueprint

theorem exists_summaries_iff (member : installation ∈ installations)
    (items : ∀ other ∈ installations, other.itemId.isSome)
    (inScope : childInScope db context installation) :
    (∃ summary,
        summarize env db context (some (loadInstallationPrefetch env db context installations)) item
          installation (installation.installedSkillId.bind (skillsById db context installations).get?)
            = .ok summary ∧
        summarize env db context none item installation
          (installation.installedSkillId.bind (scopedSkill db context)) = .ok summary) ↔
      ShownAlike env db context installations installation := by
  rw [skillsById_prefetch member]
  constructor
  · rintro ⟨summary, bulk, single⟩
    have exist := (exists_summary_iff inScope).mp ⟨summary, single⟩
    obtain ⟨state, status, stateEq, statusEq, rfl⟩ := summarize_eq_ok_iff.mp single
    obtain ⟨other, otherStatus, otherEq, otherStatusEq, same⟩ := summarize_eq_ok_iff.mp bulk
    obtain rfl := Except.ok.inj (stateEq.symm.trans otherEq)
    rw [MarketplaceInstallationSummary.mk.injEq] at same
    obtain ⟨-, -, -, sameStatus, -, sameDirty⟩ := same
    obtain rfl := Option.some.inj sameStatus
    refine ⟨exist.1, exist.2, (recompute_eq_iff member items inScope stateEq).mp ?_⟩
    exact Prod.ext (validateStatus_injective otherStatusEq statusEq) sameDirty.symm
  · intro alike
    obtain ⟨summary, single⟩ := (@exists_summary_iff env db context installation none item
      inScope).mpr ⟨alike.shown, alike.actor⟩
    use summary
    constructor
    · obtain ⟨state, status, stateEq, statusEq, summaryEq⟩ := summarize_eq_ok_iff.mp single
      rw [summarize_eq_ok_iff]
      use state, status, stateEq
      rw [(recompute_eq_iff member items inScope stateEq).mpr alike.blueprint]
      exact ⟨statusEq, summaryEq⟩
    · exact single

theorem installationId_of_summarize
    (found : summarize env db context prefetch item installation skill = .ok summary) :
    summary.installationId = some installation.id := by
  obtain ⟨_, _, _, _, rfl⟩ := summarize_eq_ok_iff.mp found
  rfl

end Installation

section Items

variable {items : List MarketplaceItem} {item : MarketplaceItem}
  {prefetch : InstallationPrefetch} {skills : Table Skill.id}
  {summaries result : OrderedDict Uuid MarketplaceInstallationSummary}

theorem find?_item_eq_some (distinct : (items.map MarketplaceItem.id).Nodup) (member : item ∈ items)
    (itemId : installation.itemId = some item.id) :
    (items.find? fun item => installation.itemId = some item.id) = some item := by
  obtain ⟨other, found⟩ : ∃ other,
      (items.find? fun item => installation.itemId = some item.id) = some other := by
    rw [← Option.isSome_iff_exists, List.find?_isSome]
    exact ⟨item, member, by simpa using itemId⟩
  have otherId : installation.itemId = some other.id := by simpa using List.find?_some found
  have same : other.id = item.id := Option.some.inj (otherId.symm.trans itemId)
  rw [found, List.inj_on_of_nodup_map distinct (List.mem_of_find?_eq_some found) member same]

theorem exists_addSummaries_iff :
    (∃ result, addSummaries env db context prefetch skills items installations summaries =
        .ok result) ↔
      ∀ installation ∈ installations, ∀ item,
        (items.find? fun item => installation.itemId = some item.id) = some item →
          ∃ summary, summarize env db context (some prefetch) item installation
            (installation.installedSkillId.bind skills.get?) = .ok summary := by
  induction installations generalizing summaries with
  | nil => exact iff_of_true ⟨summaries, rfl⟩ (List.forall_mem_nil _)
  | cons first rest ih =>
      rw [List.forall_mem_cons, addSummaries]
      cases (items.find? fun item => first.itemId = some item.id) with
      | none => simpa using ih
      | some item =>
          dsimp only
          simp only [Fallible.bind_eq_ok, Option.some.injEq, forall_eq']
          constructor
          · rintro ⟨result, summary, summaryEq, restEq⟩
            exact ⟨⟨summary, summaryEq⟩, ih.mp ⟨result, restEq⟩⟩
          · rintro ⟨⟨summary, summaryEq⟩, others⟩
            obtain ⟨result, restEq⟩ := ih.mpr others
            exact ⟨result, summary, summaryEq, restEq⟩

theorem get?_addSummaries (distinct : (items.map MarketplaceItem.id).Nodup) (member : item ∈ items)
    (added : addSummaries env db context prefetch skills items installations summaries =
      .ok result) :
    ((installations.filter fun installation => installation.itemId = some item.id) = [] →
        result.get? item.id = summaries.get? item.id) ∧
      ∀ last, (installations.filter fun installation =>
          installation.itemId = some item.id).getLast? = some last →
        ∃ summary, summarize env db context (some prefetch) item last
          (last.installedSkillId.bind skills.get?) = .ok summary ∧
            result.get? item.id = some summary := by
  induction installations generalizing summaries with
  | nil =>
      obtain rfl := Except.ok.inj added
      exact ⟨fun _ => rfl, fun last found => by cases found⟩
  | cons first rest ih =>
      rw [addSummaries] at added
      by_cases itemId : first.itemId = some item.id
      · rw [find?_item_eq_some distinct member itemId] at added
        obtain ⟨summary, summaryEq, restEq⟩ := Fallible.bind_eq_ok.mp added
        have later := ih restEq
        rw [List.filter_cons_of_pos (by simpa using itemId), List.getLast?_cons]
        constructor
        · intro empty
          cases empty
        · rintro last found
          cases lastEq : (rest.filter fun installation =>
              installation.itemId = some item.id).getLast? with
          | none =>
              rw [lastEq] at found
              obtain rfl := Option.some.inj found
              have kept := later.1 (List.getLast?_eq_none_iff.mp lastEq)
              exact ⟨summary, summaryEq, kept.trans (OrderedDict.get?_set_self _ _ _)⟩
          | some other =>
              rw [lastEq] at found
              obtain rfl := Option.some.inj found
              exact later.2 _ lastEq
      · rw [List.filter_cons_of_neg (by simpa using itemId)]
        cases found : (items.find? fun item => first.itemId = some item.id) with
        | none =>
            rw [found] at added
            exact ih added
        | some other =>
            rw [found] at added
            obtain ⟨summary, summaryEq, restEq⟩ := Fallible.bind_eq_ok.mp added
            have otherId : first.itemId = some other.id := by simpa using List.find?_some found
            have differs : item.id ≠ other.id := by
              intro same
              exact itemId (otherId.trans (congrArg some same.symm))
            have later := ih restEq
            rwa [OrderedDict.get?_set_of_ne _ _ differs] at later

/-- The map gives each item the summary of that item alone. -/
def Agrees (env : Environment) (db : Database) (context : OrgContext)
    (items : List MarketplaceItem) : Prop :=
  ∃ summaries, bulkDeriveInstallationSummaries env db context items = .ok summaries ∧
    ∀ item ∈ items, ∃ summary, summaries.get? item.id = some summary ∧
      deriveInstallationSummary env db context item = .ok summary

/-- Each item has at most one installation, and its two summaries are equal. -/
def ListedAlike (env : Environment) (db : Database) (context : OrgContext)
    (items : List MarketplaceItem) : Prop :=
  ∀ item ∈ items, (itemInstallations db context item.id).length ≤ 1 ∧
    ∀ installation ∈ itemInstallations db context item.id,
      ShownAlike env db context (listedInstallations db context items) installation

theorem filter_listedInstallations (member : item ∈ items) :
    ((listedInstallations db context items).filter fun installation =>
      installation.itemId = some item.id) = itemInstallations db context item.id := by
  rw [listedInstallations, itemInstallations, List.filter_filter]
  apply List.filter_congr
  intro installation _
  by_cases itemId : installation.itemId = some item.id
  · have listed : items.any fun item => installation.itemId = some item.id := by
      rw [List.any_eq_true]
      exact ⟨item, member, by simpa using itemId⟩
    simp [itemId]
    simpa [itemId] using listed
  · simp [itemId]

theorem mem_itemInstallations {id : Uuid} :
    installation ∈ itemInstallations db context id ↔
      installation ∈ scopedInstallations db context ∧ installation.itemId = some id := by
  rw [itemInstallations, List.mem_filter, decide_eq_true_iff]

theorem childInScope_of_mem (member : installation ∈ scopedInstallations db context) :
    childInScope db context installation := by
  have inScope := List.of_mem_filter member
  rw [Bool.and_eq_true] at inScope
  exact inScope.2

theorem nodup_itemInstallations (id : Uuid) :
    ((itemInstallations db context id).map MarketplaceInstallation.id).Nodup := by
  apply List.Nodup.sublist _ db.installations.distinct
  apply List.Sublist.map
  exact List.filter_sublist.trans List.filter_sublist

theorem itemId_isSome_of_mem_listed :
    ∀ other ∈ listedInstallations db context items, other.itemId.isSome := by
  intro other member
  have listed := List.of_mem_filter member
  rw [List.any_eq_true] at listed
  obtain ⟨item, -, itemId⟩ := listed
  rw [of_decide_eq_true itemId]
  rfl

theorem listedInstallations_subset (member : installation ∈ listedInstallations db context items) :
    installation ∈ scopedInstallations db context :=
  List.mem_of_mem_filter member

theorem mem_listedInstallations (member : item ∈ items)
    (installed : installation ∈ itemInstallations db context item.id) :
    installation ∈ listedInstallations db context items := by
  rw [← filter_listedInstallations member] at installed
  exact List.mem_of_mem_filter installed

theorem deriveInstallationSummary_of_head {first : MarketplaceInstallation}
    {rest : List MarketplaceInstallation}
    (installed : itemInstallations db context item.id = first :: rest) :
    deriveInstallationSummary env db context item =
      summarize env db context none item first
        (first.installedSkillId.bind (scopedSkill db context)) := by
  rw [deriveInstallationSummary, installed]
  rfl

theorem get?_bulk (distinct : (items.map MarketplaceItem.id).Nodup) (member : item ∈ items)
    (bulk : bulkDeriveInstallationSummaries env db context items = .ok result) :
    (itemInstallations db context item.id = [] → result.get? item.id = some { installed := false }) ∧
      ∀ last, (itemInstallations db context item.id).getLast? = some last →
        ∃ summary, summarize env db context
            (some (loadInstallationPrefetch env db context (listedInstallations db context items)))
            item last (last.installedSkillId.bind
              (skillsById db context (listedInstallations db context items)).get?) = .ok summary ∧
          result.get? item.id = some summary := by
  have kept := get?_addSummaries distinct member bulk
  rw [filter_listedInstallations member] at kept
  constructor
  · intro none
    rw [kept.1 none, OrderedDict.get?_ofEntries_eq_some_iff]
    · exact List.mem_map.mpr ⟨item, member, rfl⟩
    · rwa [List.map_map]
  · exact kept.2

theorem exists_bulk_iff (distinct : (items.map MarketplaceItem.id).Nodup) :
    (∃ result, bulkDeriveInstallationSummaries env db context items = .ok result) ↔
      ∀ item ∈ items, ∀ installation ∈ itemInstallations db context item.id,
        ∃ summary, summarize env db context
            (some (loadInstallationPrefetch env db context (listedInstallations db context items)))
            item installation (installation.installedSkillId.bind
              (skillsById db context (listedInstallations db context items)).get?) =
          .ok summary := by
  rw [bulkDeriveInstallationSummaries, exists_addSummaries_iff]
  constructor
  · intro each item member installation installed
    exact each installation (mem_listedInstallations member installed) item
      (find?_item_eq_some distinct member (mem_itemInstallations.mp installed).2)
  · intro each installation listed item found
    apply each item (List.mem_of_find?_eq_some found) installation
    rw [mem_itemInstallations]
    exact ⟨listedInstallations_subset listed, by simpa using List.find?_some found⟩

/-- The summaries of many items are those of each item alone exactly if every item has at most one
installation and that installation is shown alike. -/
theorem agrees_iff (distinct : (items.map MarketplaceItem.id).Nodup) :
    Agrees env db context items ↔ ListedAlike env db context items := by
  constructor
  · rintro ⟨summaries, bulk, agrees⟩ item member
    obtain ⟨summary, held, single⟩ := agrees item member
    cases installed : itemInstallations db context item.id with
    | nil => exact ⟨Nat.zero_le 1, List.forall_mem_nil _⟩
    | cons first rest =>
        obtain ⟨last, lastEq⟩ := Option.ne_none_iff_exists'.mp
          (List.getLast?_eq_none_iff.not.mpr (List.cons_ne_nil first rest))
        obtain ⟨other, otherEq, otherHeld⟩ :=
          (get?_bulk distinct member bulk).2 last (installed ▸ lastEq)
        obtain rfl := Option.some.inj (held.symm.trans otherHeld)
        rw [deriveInstallationSummary_of_head installed] at single
        -- The identifier in the summary tells which installation was chosen.
        have sameId : last.id = first.id := by
          have bulkId := installationId_of_summarize otherEq
          rw [installationId_of_summarize single] at bulkId
          exact (Option.some.inj bulkId).symm
        have distinctIds : ((itemInstallations db context item.id).map
            MarketplaceInstallation.id).Nodup := nodup_itemInstallations item.id
        rw [installed, List.map_cons, List.nodup_cons] at distinctIds
        have alone : rest = [] := by
          by_contra several
          rw [List.getLast?_cons, Option.some.injEq] at lastEq
          obtain ⟨final, finalEq⟩ := Option.ne_none_iff_exists'.mp
            (List.getLast?_eq_none_iff.not.mpr several)
          rw [finalEq, Option.getD_some] at lastEq
          subst lastEq
          exact distinctIds.1
            (List.mem_map.mpr ⟨final, List.mem_of_getLast? finalEq, sameId⟩)
        subst alone
        obtain rfl := Option.some.inj lastEq
        have chosen : first ∈ itemInstallations db context item.id := by
          rw [installed]
          exact List.mem_cons_self
        have listed := mem_listedInstallations member chosen
        refine ⟨le_refl 1, ?_⟩
        rw [List.forall_mem_singleton, ← exists_summaries_iff listed itemId_isSome_of_mem_listed
          (childInScope_of_mem (listedInstallations_subset listed))]
        exact ⟨summary, otherEq, single⟩
  · intro alike
    have each : ∀ item ∈ items, ∀ installation ∈ itemInstallations db context item.id, _ :=
      fun item member installation chosen =>
        (@exists_summaries_iff env db context _ installation item
          (mem_listedInstallations member chosen) itemId_isSome_of_mem_listed
          (childInScope_of_mem (mem_itemInstallations.mp chosen).1)).mpr
            ((alike item member).2 installation chosen)
    obtain ⟨summaries, bulk⟩ :=
      (exists_bulk_iff distinct).mpr fun item member installation chosen =>
      (each item member installation chosen).imp fun _ both => both.1
    use summaries, bulk
    intro item member
    cases installed : itemInstallations db context item.id with
    | nil =>
        use { installed := false }, (get?_bulk distinct member bulk).1 installed
        rw [deriveInstallationSummary, installed]
        rfl
    | cons first rest =>
        have short := (alike item member).1
        have alone : rest = [] := by
          apply List.length_eq_zero_iff.mp
          rw [installed, List.length_cons] at short
          omega
        subst alone
        obtain ⟨summary, summaryEq, held⟩ := (get?_bulk distinct member bulk).2 first
          (by rw [installed]; rfl)
        obtain ⟨other, otherEq, single⟩ :=
          each item member first (by rw [installed]; exact List.mem_cons_self)
        obtain rfl := Except.ok.inj (summaryEq.symm.trans otherEq)
        use summary, held
        rw [deriveInstallationSummary_of_head installed]
        exact single

/-- Two copies of one agent: the first was turned off, the second is in use. -/
def copiesDatabase : Database where
  installations :=
    { rows :=
        [{ id := 10, scope := ⟨some 1, some 2, some 3⟩, itemId := some 20, versionId := some 30
           resource := .agent 40, installStatus := .disabled, isDirty := false },
          { id := 11, scope := ⟨some 1, some 2, some 3⟩, itemId := some 20, versionId := some 30
            resource := .agent 41, installStatus := .active, isDirty := false }]
      distinct := by decide }
  versions := Table.empty
  skills := Table.empty
  bindings := Table.empty
  servers := Table.empty
  blueprints := Table.empty
  agents :=
    { rows := [⟨40, ⟨some 1, some 2, some 3⟩⟩, ⟨41, ⟨some 1, some 2, some 3⟩⟩]
      distinct := by decide }
  credentials := Table.empty

/-- The summary of the item alone shows the first copy, and the summaries of many the second. -/
theorem not_agrees_copies :
    ¬Agrees ⟨fun _ => "", fun _ => true⟩ copiesDatabase ⟨1, 2, 3⟩ [⟨20, some 30⟩] := by
  rintro ⟨summaries, bulk, agrees⟩
  obtain ⟨summary, held, single⟩ := agrees _ List.mem_cons_self
  have first : deriveInstallationSummary ⟨fun _ => "", fun _ => true⟩ copiesDatabase ⟨1, 2, 3⟩
      ⟨20, some 30⟩ = .ok
        { installed := true, installationId := some 10, installedResourceId := some 40
          status := some .disabled } := by
    rfl
  have second : (bulkDeriveInstallationSummaries ⟨fun _ => "", fun _ => true⟩ copiesDatabase
      ⟨1, 2, 3⟩ [⟨20, some 30⟩]).toOption.bind (fun summaries => summaries.get? 20) = some
        { installed := true, installationId := some 11, installedResourceId := some 41
          status := some .active } := by
    rfl
  rw [bulk] at second
  obtain rfl := Except.ok.inj (first.symm.trans single)
  cases held.symm.trans second

/-- Two items, one of which is installed twice. -/
theorem agrees_iff_copies :
    Agrees ⟨fun _ => "", fun _ => true⟩ copiesDatabase ⟨1, 2, 3⟩ [⟨20, some 30⟩, ⟨21, none⟩] ↔
      ListedAlike ⟨fun _ => "", fun _ => true⟩ copiesDatabase ⟨1, 2, 3⟩
        [⟨20, some 30⟩, ⟨21, none⟩] :=
  agrees_iff (by decide)

end Items

end NaturalMold.InstallationSummaries

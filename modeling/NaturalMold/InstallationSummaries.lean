import NaturalMold.FallibleSteps
import NaturalMold.JsonValues
import NaturalMold.KeyedTables
import NaturalMold.OrderedDictionaries
import NaturalMold.PythonText

/-! # Summaries of marketplace installations -/

namespace NaturalMold.InstallationSummaries

open KeyedTables

abbrev Uuid := ℕ

structure OrgContext where
  userId : Uuid
  orgId : Uuid
  tenantId : Uuid

/-- The owner of a row. -/
structure Scope where
  userId : Option Uuid
  orgId : Option Uuid
  tenantId : Option Uuid
  deriving DecidableEq

/-- `private_scope_predicate`. -/
def OrgContext.owns (context : OrgContext) (scope : Scope) : Bool :=
  scope.userId = some context.userId && scope.orgId = some context.orgId &&
    scope.tenantId = some context.tenantId

structure Credential where
  id : Uuid
  scope : Scope
  isSystem : Bool
  status : String
  definitionKey : String

structure McpServer where
  id : Uuid
  scope : Scope
  credentialId : Option Uuid

structure AgentBlueprint where
  id : Uuid
  scope : Scope
  credentialBindings : Option (List (String × Json))
  isDirty : Bool

structure Agent where
  id : Uuid
  scope : Scope

structure Skill where
  id : Uuid
  scope : Scope
  credentialRequirements : Json
  isDirty : Bool

structure SkillCredentialBinding where
  id : Uuid
  skillId : Uuid
  userId : Uuid
  requirementKey : String
  credentialId : Uuid
  scope : String

structure MarketplaceVersion where
  id : Uuid
  itemId : Uuid
  credentialRequirements : Option (List Json)

structure MarketplaceItem where
  id : Uuid
  latestVersionId : Option Uuid
  deriving DecidableEq

/-- The installed resource; the table's constraint admits exactly one, of the row's type. -/
inductive InstalledResource
  | skill (id : Uuid)
  | agentBlueprint (id : Uuid)
  | agent (id : Uuid)
  | mcp (id : Uuid)
  deriving DecidableEq

inductive InstallStatus
  | active | needsSetup | disabled | uninstalled | sourceRemoved
  deriving DecidableEq

structure MarketplaceInstallation where
  id : Uuid
  scope : Scope
  itemId : Option Uuid
  versionId : Option Uuid
  resource : InstalledResource
  installStatus : InstallStatus
  isDirty : Bool
  deriving DecidableEq

namespace MarketplaceInstallation

variable (installation : MarketplaceInstallation)

def installedSkillId : Option Uuid :=
  match installation.resource with
  | .skill id => some id
  | _ => none

def installedAgentBlueprintId : Option Uuid :=
  match installation.resource with
  | .agentBlueprint id => some id
  | _ => none

def installedAgentId : Option Uuid :=
  match installation.resource with
  | .agent id => some id
  | _ => none

def installedMcpServerId : Option Uuid :=
  match installation.resource with
  | .mcp id => some id
  | _ => none

end MarketplaceInstallation

structure Database where
  installations : Table MarketplaceInstallation.id
  versions : Table MarketplaceVersion.id
  skills : Table Skill.id
  bindings : Table SkillCredentialBinding.id
  servers : Table McpServer.id
  blueprints : Table AgentBlueprint.id
  agents : Table Agent.id
  credentials : Table Credential.id

/-- `str` on a JSON value, and whether the caller is still a private actor of the context. -/
structure Environment where
  str : Json → String
  resolvesActor : OrgContext → Bool

inductive Failure
  | skillNotFound
  | validation (field : String)
  deriving DecidableEq

structure CredentialRequirement where
  key : String
  definitionKey : String
  required : Bool
  scope : String

/-- Whether `tuple` accepts a value. -/
def iterable : Json → Bool
  | .str _ | .arr _ | .obj _ => true
  | .null | .bool _ | .int _ | .float _ => false

def parseRequirement (env : Environment) : Json → Option CredentialRequirement
  | .obj entry =>
      let fields := Json.getField "fields" .null entry
      if "key" ∈ entry.map Prod.fst ∧ "definition_key" ∈ entry.map Prod.fst ∧
          (fields.truthy → iterable fields) then
        some
          { key := env.str (Json.getField "key" .null entry)
            definitionKey := env.str (Json.getField "definition_key" .null entry)
            required := (Json.getField "required" (.bool true) entry).truthy
            scope := env.str (Json.getField "scope" (.str "user") entry) }
      else none
  | _ => none

def parseRequirements (env : Environment) (skill : Skill) : List CredentialRequirement :=
  match skill.credentialRequirements with
  | .arr entries => entries.filterMap (parseRequirement env)
  | _ => []

section Queries

variable (env : Environment) (db : Database) (context : OrgContext)

def scopedSkill (id : Uuid) : Option Skill :=
  (db.skills.get? id).filter fun skill => context.owns skill.scope

def scopedServer (id : Uuid) : Option McpServer :=
  (db.servers.get? id).filter fun server => context.owns server.scope

def scopedBlueprint (id : Uuid) : Option AgentBlueprint :=
  (db.blueprints.get? id).filter fun blueprint => context.owns blueprint.scope

def scopedAgent (id : Uuid) : Option Agent :=
  (db.agents.get? id).filter fun agent => context.owns agent.scope

def scopedCredential (id : Uuid) : Option Credential :=
  (db.credentials.get? id).filter fun credential => context.owns credential.scope

def requirePrivateSkill (skill : Skill) : Except Failure Unit :=
  Fallible.ensure ((scopedSkill db context skill.id).isSome ∧ env.resolvesActor context)
    .skillNotFound

def listBindings (skill : Skill) : List SkillCredentialBinding :=
  db.bindings.rows.filter fun binding =>
    binding.skillId = skill.id &&
      (scopedSkill db context binding.skillId).any
        (fun parent => parent.scope.userId = some binding.userId) &&
      binding.scope = "skill" &&
      (scopedCredential db context binding.credentialId).any fun credential => !credential.isSystem

def missingRequiredKeys (skill : Skill) : Except Failure (List String) := do
  requirePrivateSkill env db context skill
  let userRequired := (parseRequirements env skill).filter fun requirement =>
    requirement.required && requirement.scope = "user"
  if userRequired.isEmpty then return []
  let bindings := listBindings db context skill
  let definition := fun credentialId =>
    ((scopedCredential db context credentialId).filter fun credential =>
      credential.status = "active" && !credential.isSystem).map Credential.definitionKey
  let boundKeys := OrderedDict.ofEntries (bindings.map fun binding =>
    (binding.requirementKey, definition binding.credentialId))
  return (userRequired.filter fun requirement =>
    (boundKeys.get? requirement.key).join ≠ some requirement.definitionKey).map
      CredentialRequirement.key

end Queries

/-- Rows that are loaded together for many installations. -/
structure InstallationPrefetch where
  versions : Table MarketplaceVersion.id
  servers : Table McpServer.id
  blueprints : Table AgentBlueprint.id
  credentials : Table Credential.id

section Projection

variable (env : Environment) (db : Database) (context : OrgContext)
  (prefetch : Option InstallationPrefetch)

def requiredCredentialRequirements (version : MarketplaceVersion) : List (List (String × Json)) :=
  (version.credentialRequirements.getD []).filterMap fun
    | .obj requirement =>
        if (Json.getField "required" .null requirement).truthy &&
            (Json.getField "key" .null requirement).truthy then some requirement
        else none
    | _ => none

def credentialOf (id : Uuid) : Option Credential :=
  match prefetch with
  | some loaded => loaded.credentials.get? id
  | none => scopedCredential db context id

def serverOf (id : Uuid) : Option McpServer :=
  match prefetch with
  | some loaded => loaded.servers.get? id
  | none => scopedServer db context id

def blueprintOf (id : Uuid) : Option AgentBlueprint :=
  match prefetch with
  | some loaded => loaded.blueprints.get? id
  | none => scopedBlueprint db context id

def versionOf (installation : MarketplaceInstallation) : Option MarketplaceVersion :=
  match installation.itemId, installation.versionId with
  | some itemId, some versionId =>
      (match prefetch with
        | some loaded => loaded.versions.get? versionId
        | none => (db.versions.get? versionId).filter fun version => version.itemId = itemId).filter
        fun version => version.itemId = itemId
  | _, _ => none

/-- `uuid.UUID(str(value))`; a missing value and a text that is no UUID are the same here. -/
def normalizedId : Json → Option Uuid
  | .null => none
  | value => PythonText.parseUuid (env.str value).toList

def credentialBindingMissing (credentialId : Option Uuid) (requirement : List (String × Json)) :
    Bool :=
  match credentialId.bind (credentialOf db context prefetch) with
  | none => true
  | some credential =>
      let expected := Json.getField "definition_key" .null requirement
      !context.owns credential.scope || credential.isSystem || credential.status ≠ "active" ||
        (expected.truthy && expected.str? ≠ some credential.definitionKey)

def requirementKey (requirement : List (String × Json)) : String :=
  env.str (Json.getField "key" .null requirement)

def serverCredentialId (server : McpServer) (requirement : List (String × Json)) : Option Uuid :=
  if requirementKey env requirement = "mcp_auth" then server.credentialId else none

def blueprintCredentialId (blueprint : AgentBlueprint) (requirement : List (String × Json)) :
    Option Uuid :=
  normalizedId env
    (Json.getField (requirementKey env requirement) .null (blueprint.credentialBindings.getD []))

def mcpInstallationMissingRequiredCredentials (installation : MarketplaceInstallation) : Bool :=
  match installation.installedMcpServerId with
  | none => false
  | some serverId =>
      match versionOf db prefetch installation with
      | none => true
      | some version =>
          let requirements := requiredCredentialRequirements version
          if requirements.isEmpty then false
          else
            match serverOf db context prefetch serverId with
            | none => true
            | some server => requirements.any fun requirement =>
                credentialBindingMissing db context prefetch
                  (serverCredentialId env server requirement) requirement

/-- Whether credentials are missing, and whether the blueprint was changed. -/
def agentBlueprintInstallationState (installation : MarketplaceInstallation) : Bool × Bool :=
  match installation.installedAgentBlueprintId with
  | none => (false, false)
  | some blueprintId =>
      match blueprintOf db context prefetch blueprintId with
      | none => (true, false)
      | some blueprint =>
          match versionOf db prefetch installation with
          | none => (true, blueprint.isDirty)
          | some version =>
              ((requiredCredentialRequirements version).any fun requirement =>
                credentialBindingMissing db context prefetch
                  (blueprintCredentialId env blueprint requirement) requirement,
                blueprint.isDirty)

def recomputeInstallationProjectionState (installation : MarketplaceInstallation)
    (status : InstallStatus) (dirty : Bool) : InstallStatus × Bool :=
  if status ≠ .active then (status, dirty)
  else if installation.installedMcpServerId.isSome then
    (if mcpInstallationMissingRequiredCredentials env db context prefetch installation then
      .needsSetup else status, dirty)
  else if installation.installedAgentBlueprintId.isSome then
    let (missing, blueprintDirty) :=
      agentBlueprintInstallationState env db context prefetch installation
    (if missing then .needsSetup else status, dirty || blueprintDirty)
  else (status, dirty)

/-- The statuses that a summary can show. -/
inductive SummaryStatus
  | active | needsSetup | disabled | uninstalled
  deriving DecidableEq

structure MarketplaceInstallationSummary where
  installed : Bool
  installationId : Option Uuid := none
  installedResourceId : Option Uuid := none
  status : Option SummaryStatus := none
  updateAvailable : Bool := false
  dirty : Bool := false
  deriving DecidableEq

def validateStatus : InstallStatus → Except Failure SummaryStatus
  | .active => .ok .active
  | .needsSetup => .ok .needsSetup
  | .disabled => .ok .disabled
  | .uninstalled => .ok .uninstalled
  | .sourceRemoved => .error (.validation "status")

def installationResourceId (installation : MarketplaceInstallation) : Option Uuid :=
  match installation.resource with
  | .skill id | .agentBlueprint id | .agent id | .mcp id => some id

def skillState (installation : MarketplaceInstallation) (skill : Option Skill) :
    Except Failure (InstallStatus × Bool) :=
  match skill with
  | none => .ok (installation.installStatus, installation.isDirty)
  | some skill => do
      let dirty := installation.isDirty || skill.isDirty
      if installation.installStatus = .active then
        let missing ← missingRequiredKeys env db context skill
        return (if missing.isEmpty then .active else .needsSetup, dirty)
      else return (installation.installStatus, dirty)

def summarize (item : MarketplaceItem) (installation : MarketplaceInstallation)
    (skill : Option Skill) : Except Failure MarketplaceInstallationSummary := do
  let state ← skillState env db context installation skill
  let final :=
    recomputeInstallationProjectionState env db context prefetch installation state.1 state.2
  let status ← validateStatus final.1
  .ok
    { installed := installation.installStatus ≠ .uninstalled
      installationId := some installation.id
      installedResourceId := installationResourceId installation
      status := some status
      updateAvailable :=
        item.latestVersionId.isSome && installation.versionId ≠ item.latestVersionId
      dirty := final.2 }

end Projection

section Summaries

variable (env : Environment) (db : Database) (context : OrgContext)

/-- `installation_child_scope_predicate`: the installed resource is the caller's own. -/
def childInScope (installation : MarketplaceInstallation) : Bool :=
  match installation.resource with
  | .skill id => (scopedSkill db context id).isSome
  | .mcp id => (scopedServer db context id).isSome
  | .agentBlueprint id => (scopedBlueprint db context id).isSome
  | .agent id => (scopedAgent db context id).isSome

def scopedInstallations : List MarketplaceInstallation :=
  db.installations.rows.filter fun installation =>
    context.owns installation.scope && childInScope db context installation

def itemInstallations (itemId : Uuid) : List MarketplaceInstallation :=
  (scopedInstallations db context).filter fun installation => installation.itemId = some itemId

/-- The query is limited to one row. -/
def deriveInstallationSummary (item : MarketplaceItem) :
    Except Failure MarketplaceInstallationSummary :=
  match (itemInstallations db context item.id).head? with
  | none => .ok { installed := false }
  | some installation =>
      summarize env db context none item installation
        (installation.installedSkillId.bind (scopedSkill db context))

def versionTargets (installations : List MarketplaceInstallation) : List (Uuid × Uuid) :=
  installations.filterMap fun installation =>
    match installation.itemId, installation.versionId, installation.resource with
    | some itemId, some versionId, .mcp _ | some itemId, some versionId, .agentBlueprint _ =>
        some (itemId, versionId)
    | _, _, _ => none

def serverIds (installations : List MarketplaceInstallation) : List Uuid :=
  installations.filterMap fun installation =>
    if installation.itemId.isSome && installation.versionId.isSome then
      installation.installedMcpServerId
    else none

def blueprintIds (installations : List MarketplaceInstallation) : List Uuid :=
  installations.filterMap fun installation =>
    if installation.itemId.isSome && installation.versionId.isSome then
      installation.installedAgentBlueprintId
    else none

def credentialIds (servers : List McpServer) (blueprints : List AgentBlueprint) : List Uuid :=
  servers.filterMap McpServer.credentialId ++
    blueprints.flatMap fun blueprint =>
      (blueprint.credentialBindings.getD []).filterMap fun binding => normalizedId env binding.2

def loadInstallationPrefetch (installations : List MarketplaceInstallation) :
    InstallationPrefetch :=
  let servers := db.servers.filter fun server =>
    server.id ∈ serverIds installations && context.owns server.scope
  let blueprints := db.blueprints.filter fun blueprint =>
    blueprint.id ∈ blueprintIds installations && context.owns blueprint.scope
  { versions := db.versions.filter fun version =>
      (version.itemId, version.id) ∈ versionTargets installations
    servers := servers
    blueprints := blueprints
    credentials := db.credentials.filter fun credential =>
      credential.id ∈ credentialIds env servers.rows blueprints.rows &&
        context.owns credential.scope }

def skillsById (installations : List MarketplaceInstallation) : Table Skill.id :=
  db.skills.filter fun skill =>
    skill.id ∈ installations.filterMap MarketplaceInstallation.installedSkillId &&
      context.owns skill.scope

def listedInstallations (items : List MarketplaceItem) : List MarketplaceInstallation :=
  (scopedInstallations db context).filter fun installation =>
    items.any fun item => installation.itemId = some item.id

/-- The loop over the installations; a later one of an item replaces the earlier ones. -/
def addSummaries (prefetch : InstallationPrefetch) (skills : Table Skill.id)
    (items : List MarketplaceItem) :
    List MarketplaceInstallation → OrderedDict Uuid MarketplaceInstallationSummary →
      Except Failure (OrderedDict Uuid MarketplaceInstallationSummary)
  | [], summaries => .ok summaries
  | installation :: installations, summaries =>
      match items.find? fun item => installation.itemId = some item.id with
      | none => addSummaries prefetch skills items installations summaries
      | some item => do
          let summary ← summarize env db context (some prefetch) item installation
            (installation.installedSkillId.bind skills.get?)
          addSummaries prefetch skills items installations (summaries.set item.id summary)

def bulkDeriveInstallationSummaries (items : List MarketplaceItem) :
    Except Failure (OrderedDict Uuid MarketplaceInstallationSummary) :=
  let installations := listedInstallations db context items
  addSummaries env db context (loadInstallationPrefetch env db context installations)
    (skillsById db context installations) items installations
    (OrderedDict.ofEntries (items.map fun item => (item.id, { installed := false })))

end Summaries

end NaturalMold.InstallationSummaries

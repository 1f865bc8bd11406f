import NaturalMold.KeyedTables
import NaturalMold.TupleMerge

/-! # The tuples that a snapshot of all rows expects -/

namespace NaturalMold.Authz

open Conversations (Uuid Time)

structure ModelRow where
  id : Uuid
  isVisible : Bool
  deriving DecidableEq

/-- Every source row. -/
structure Snapshot where
  tenantMembers : List TenantMemberRow
  tenantRoles : List TenantRoleRow
  organizations : List OrganizationRow
  orgMembers : List OrgMemberRow
  orgRoles : List OrgRoleRow
  groups : List GroupRow
  groupMembers : List GroupMemberRow
  capabilities : List CapabilityRow
  resources : List ResourceRow
  credentials : List CredentialRow
  marketplaceItems : List MarketplaceItemRow
  mcpTools : List McpToolRow
  models : List ModelRow
  grants : List GrantRow

def Snapshot.empty : Snapshot where
  tenantMembers := []
  tenantRoles := []
  organizations := []
  orgMembers := []
  orgRoles := []
  groups := []
  groupMembers := []
  capabilities := []
  resources := []
  credentials := []
  marketplaceItems := []
  mcpTools := []
  models := []
  grants := []

namespace Snapshot

def liveTenantMembers (snapshot : Snapshot) : List (Uuid × Uuid) :=
  (snapshot.tenantMembers.filter fun row => row.status = .active).map fun row =>
    (row.tenantId, row.userId)

def liveOrgMembers (snapshot : Snapshot) : List (Uuid × Uuid) :=
  (snapshot.orgMembers.filter fun row => row.status = .active).map fun row =>
    (row.orgId, row.userId)

def liveGroups (snapshot : Snapshot) : List (Uuid × Uuid) :=
  snapshot.groups.map fun row => (row.orgId, row.id)

def agentRows (snapshot : Snapshot) : List ResourceRow :=
  snapshot.resources.filter fun row => row.resourceType = .agent

def liveAgents (snapshot : Snapshot) : List (Option Uuid × Uuid) :=
  snapshot.agentRows.map fun row => (row.orgId, row.id)

def archivedAgents (snapshot : Snapshot) : List Uuid :=
  (snapshot.agentRows.filter fun row => row.archivedAt.isSome).map ResourceRow.id

def visibleModels (snapshot : Snapshot) : List Uuid :=
  (snapshot.models.filter fun row => row.isVisible).map ModelRow.id

def livePrincipal (snapshot : Snapshot) (org : Uuid) (principalType : PrincipalType)
    (principalId : Uuid) : Bool :=
  match principalType with
  | .user => snapshot.liveOrgMembers.contains (org, principalId)
  | .group => snapshot.liveGroups.contains (org, principalId)
  | .agent => snapshot.liveAgents.contains (some org, principalId)
  | .organization => true

def liveGrant (snapshot : Snapshot) (row : GrantRow) : Bool :=
  let archived :=
    (row.resourceType = .agent && snapshot.archivedAgents.contains row.resourceId) ||
      (row.principalType = .agent && snapshot.archivedAgents.contains row.principalId)
  if archived && (row.grantKind = .share || row.grantKind = .delegation) then false
  else if row.resourceType = .llmModel && !snapshot.visibleModels.contains row.resourceId then
    false
  else snapshot.livePrincipal row.orgId row.principalType row.principalId

def admittedRows (snapshot : Snapshot) : List Row :=
  snapshot.tenantMembers.map Row.tenantMember ++
    (snapshot.tenantRoles.filter fun row =>
      snapshot.liveTenantMembers.contains (row.tenantId, row.userId)).map Row.tenantRole ++
    snapshot.organizations.map Row.organization ++
    snapshot.orgMembers.map Row.orgMember ++
    (snapshot.orgRoles.filter fun row =>
      snapshot.livePrincipal row.orgId row.principalType row.principalId).map Row.orgRole ++
    snapshot.groups.map Row.group ++
    (snapshot.groupMembers.filter fun row =>
      snapshot.liveGroups.contains (row.orgId, row.groupId) &&
        snapshot.liveOrgMembers.contains (row.orgId, row.userId)).map Row.groupMember ++
    (snapshot.capabilities.filter fun row =>
      snapshot.livePrincipal row.orgId row.principalType row.principalId).map Row.capability ++
    snapshot.resources.map Row.resource ++
    snapshot.credentials.map Row.credential ++
    snapshot.marketplaceItems.map Row.marketplaceItem ++
    snapshot.mcpTools.map Row.mcpTool ++
    (snapshot.grants.filter fun row => snapshot.liveGrant row).map Row.grant

def expectedTuples (snapshot : Snapshot) (now : Time) : Except TupleError (List Tuple) := do
  let projected ← snapshot.admittedRows.mapM fun row => tuplesFor row now
  mergeTuples projected.flatten

end Snapshot

open Fallible KeyedTables

/-- A dictionary of tuples by their keys. -/
abbrev TupleTable := Table (RelationTuple.toTupleKey : Tuple → TupleKey)

structure TupleDiff where
  missing : List Tuple
  extra : List Tuple
  changed : List Tuple
  held : List Tuple
  deriving DecidableEq

/-- `bool(diff)`. -/
def TupleDiff.found (diff : TupleDiff) : Bool :=
  !diff.missing.isEmpty || !diff.extra.isEmpty || !diff.changed.isEmpty

def sortedTuples (items : List Tuple) : List Tuple :=
  items.insertionSort fun first second => sortKey first ≤ sortKey second

def diffTuples (want stored : TupleTable) : TupleDiff where
  missing := sortedTuples (want.rows.filter fun item => stored.get? item.toTupleKey = none)
  extra := sortedTuples (stored.rows.filter fun item => want.get? item.toTupleKey = none)
  changed := sortedTuples (want.rows.filter fun item =>
    (stored.get? item.toTupleKey).any fun other => other ≠ item)
  held := []

/-- The objects that a company, or one of its organizations, owns. -/
def scopeRefs (snapshot : Snapshot) (tenantId : Uuid) (orgId : Option Uuid) : List Ref :=
  let own (org : Option Uuid) : Bool := orgId = none || org = orgId
  let found : List Ref :=
    (if orgId = none then [⟨.tenant, tenantId⟩] else []) ++
      (snapshot.organizations.filter fun row => own (some row.id)).map
        (fun row => ⟨.organization, row.id⟩) ++
      (snapshot.groups.filter fun row => own (some row.orgId)).map (fun row => ⟨.group, row.id⟩) ++
      (snapshot.resources.filter fun row => own row.orgId).map
        (fun row => ⟨row.resourceType, row.id⟩) ++
      (snapshot.credentials.filter fun row => own row.orgId).map
        (fun row => ⟨.credential, row.id⟩) ++
      (snapshot.marketplaceItems.filter fun row => own row.orgId).map
        (fun row => ⟨.marketplaceItem, row.id⟩)
  found ++ (snapshot.mcpTools.filter fun row => found.contains ⟨.mcpServer, row.serverId⟩).map
    fun row => ⟨.mcpTool, row.id⟩

def inScope (key : TupleKey) (refs : List Ref) : Bool :=
  refs.contains key.object || refs.contains key.user.ref

/-- Whether a partition takes a stored tuple; `none` takes everything left. -/
def claimable (refs : Option (List Ref)) (want : TupleTable) (key : TupleKey) : Bool :=
  match refs with
  | none => true
  | some refs => inScope key refs || (want.get? key).isSome

def claim (refs : Option (List Ref)) (want index : TupleTable) : TupleTable × TupleTable :=
  (index.filter fun item => claimable refs want item.toTupleKey,
    index.filter fun item => !claimable refs want item.toTupleKey)

inductive RevocationScope
  | grant
  | membership
  | groupMember
  | role
  | capability
  | ownership
  | resource
  deriving DecidableEq

/-- The subject loses every decision in the organization. -/
def RevocationScope.orgWide : RevocationScope → Bool
  | membership | groupMember | role | capability => true
  | grant | ownership | resource => false

structure RecentMarker where
  scope : RevocationScope
  subject : String
  object : String
  deriving DecidableEq

def markerBlocks (item : Tuple) (markers : List RecentMarker) : Bool :=
  markers.any fun marker =>
    (marker.subject = item.user.text &&
        (marker.object = item.object.text || marker.scope.orgWide)) ||
      (marker.object = item.object.text &&
        !(marker.subject.startsWith "user:" || marker.subject.startsWith "agent:"))

/-- Keep the tuples that pass, and hold the others. -/
def TupleDiff.restrict (diff : TupleDiff) (missing extra changed : Tuple → Bool) : TupleDiff where
  missing := diff.missing.filter missing
  extra := diff.extra.filter extra
  changed := diff.changed.filter changed
  held := sortedTuples (diff.held ++ diff.missing.filter (fun item => !missing item) ++
    diff.extra.filter (fun item => !extra item) ++
    diff.changed.filter fun item => !changed item)

def hold (diff : TupleDiff) (outboxKeys : List String) (markers : List RecentMarker) :
    TupleDiff :=
  let quiet (item : Tuple) : Bool := !outboxKeys.contains item.toTupleKey.text
  diff.restrict (fun item => quiet item && !markerBlocks item markers) quiet
    fun item => quiet item && !markerBlocks item markers

/-- Against a projection that is read again: drop writes that are no longer
expected and deletes that now are. -/
def recheck (diff : TupleDiff) (fresh : TupleTable) : TupleDiff :=
  diff.restrict (fun item => fresh.get? item.toTupleKey = some item)
    (fun item => fresh.get? item.toTupleKey = none)
    fun item => fresh.get? item.toTupleKey = some item

inductive Mode
  | dryRun
  | fill
  | repair
  deriving DecidableEq

/-- `_ops`. -/
def reconcileOps (diff : TupleDiff) (mode : Mode) : List (TupleOp Condition) :=
  let write (replace : Bool) (item : Tuple) : TupleOp Condition :=
    { op := .write, tuple := item, replace }
  if mode = .fill then diff.missing.map (write false)
  else
    diff.extra.map (fun item => { op := .delete, tuple := item, replace := false }) ++
      diff.changed.map (write true) ++ diff.missing.map (write false)

/-- A company, one of its organizations, or the platform. -/
structure Partition where
  tenantId : Option Uuid
  orgId : Option Uuid
  deriving DecidableEq

/-- What a partition expects, and the objects it owns. -/
structure Projection where
  want : TupleTable
  refs : Option (List Ref)

/-- `{key_of(t): t for t in items}`; the later of two items with one key stays. -/
def tupleTable (items : List Tuple) : TupleTable :=
  items.foldl (fun table item =>
    match table.insert? item with
    | some inserted => inserted
    | none => table.save item) Table.empty

def Partition.expected (part : Partition) (snapshot : Snapshot) (now : Time) :
    Except TupleError Projection := do
  let refs := part.tenantId.map fun tenantId => scopeRefs snapshot tenantId part.orgId
  let items ← snapshot.expectedTuples now
  return {
    want := tupleTable (items.filter fun item =>
      part.orgId = none || refs.all fun refs => inScope item.toTupleKey refs)
    refs }

/-- What one partition reads: its projection, the keys and the markers of recent
activity, and its expected tuples read again. -/
structure PartitionRead extends Projection where
  recentKeys : List String
  recentMarkers : List RecentMarker
  fresh : TupleTable

/-- What a run records of a partition. -/
structure PartitionOutcome where
  claimed : TupleTable
  diff : TupleDiff
  queued : List (TupleOp Condition)

def reconcilePartition (mode : Mode) (read : PartitionRead) (index : TupleTable) :
    PartitionOutcome × TupleTable :=
  let (claimed, rest) := claim read.refs read.want index
  let diff := diffTuples read.want claimed
  if !diff.found then ({ claimed, diff, queued := [] }, rest)
  else
    let diff := hold diff read.recentKeys read.recentMarkers
    if mode ≠ .dryRun && diff.found then
      let diff := recheck diff read.fresh
      ({ claimed, diff, queued := reconcileOps diff mode }, rest)
    else ({ claimed, diff, queued := [] }, rest)

def reconcileRun (mode : Mode) : List PartitionRead → TupleTable → List PartitionOutcome
  | [], _ => []
  | read :: reads, index =>
      let (outcome, rest) := reconcilePartition mode read index
      outcome :: reconcileRun mode reads rest

end NaturalMold.Authz

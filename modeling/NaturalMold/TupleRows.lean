import NaturalMold.RelationTuples

/-!
# The rows that project tuples

Memberships, roles, groups, capabilities, resources and grants, as the projection reads them.
-/

namespace NaturalMold.Authz

open Conversations (Uuid Time)

/-- A value in the context of a condition; `json` is any other value, by its
encoding. -/
inductive ContextValue
  | instant (time : Time)
  | duration (micros : ℕ)
  | strings (items : List String)
  | json (encoded : String)
  deriving DecidableEq

structure Condition where
  name : String
  context : List (String × ContextValue)
  deriving DecidableEq

/-- A stored tuple, with its condition. -/
abbrev Tuple := RelationTuple Condition

def expiryCondition : String :=
  "non_expired_grant"

def runSourceCondition : String :=
  "allowed_run_source"

def runSources : List String :=
  ["CHAT", "TRIGGER", "CHANNEL", "SUBAGENT", "API"]

inductive MemberStatus
  | active
  | suspended
  | removed
  deriving DecidableEq

inductive TenantRole
  | admin
  | auditor
  deriving DecidableEq

def TenantRole.name : TenantRole → String
  | admin => "admin"
  | auditor => "auditor"

inductive OrgRole
  | admin
  | builder
  | auditor
  deriving DecidableEq

def OrgRole.name : OrgRole → String
  | admin => "admin"
  | builder => "builder"
  | auditor => "auditor"

inductive Capability
  | createAgent
  | createSkill
  | createTool
  | registerMcp
  | connectDatabase
  | shareOrgWide
  | publishMarketplace
  deriving DecidableEq

def Capability.name : Capability → String
  | createAgent => "cap_create_agent"
  | createSkill => "cap_create_skill"
  | createTool => "cap_create_tool"
  | registerMcp => "cap_register_mcp"
  | connectDatabase => "cap_connect_database"
  | shareOrgWide => "cap_share_org_wide"
  | publishMarketplace => "cap_publish_marketplace"

inductive PrincipalType
  | user
  | group
  | organization
  | agent
  deriving DecidableEq

inductive GrantRelation
  | consumer
  | viewer
  | editor
  | manager
  | installer
  | explorer
  | blocked
  | allowedOrg
  deriving DecidableEq

def GrantRelation.name : GrantRelation → String
  | consumer => "consumer"
  | viewer => "viewer"
  | editor => "editor"
  | manager => "manager"
  | installer => "installer"
  | explorer => "explorer"
  | blocked => "blocked"
  | allowedOrg => "allowed_org"

inductive GrantState
  | active
  | revoking
  | revoked
  deriving DecidableEq

inductive GrantKind
  | share
  | delegation
  | systemFanout
  | migration
  deriving DecidableEq

inductive CredentialScope
  | personal
  | tenant
  | platform
  deriving DecidableEq

inductive TenantPublication
  | none
  | pending
  | approved
  | rejected
  deriving DecidableEq

structure TenantMemberRow where
  tenantId : Uuid
  userId : Uuid
  status : MemberStatus
  deriving DecidableEq

structure TenantRoleRow where
  tenantId : Uuid
  userId : Uuid
  role : TenantRole
  deriving DecidableEq

structure OrganizationRow where
  id : Uuid
  tenantId : Uuid
  deriving DecidableEq

structure OrgMemberRow where
  orgId : Uuid
  userId : Uuid
  status : MemberStatus
  deriving DecidableEq

structure OrgRoleRow where
  orgId : Uuid
  role : OrgRole
  principalType : PrincipalType
  principalId : Uuid
  deriving DecidableEq

structure GroupRow where
  id : Uuid
  orgId : Uuid
  deriving DecidableEq

structure GroupMemberRow where
  groupId : Uuid
  orgId : Uuid
  userId : Uuid
  deriving DecidableEq

structure CapabilityRow where
  orgId : Uuid
  capability : Capability
  principalType : PrincipalType
  principalId : Uuid
  deriving DecidableEq

/-- An agent, skill, tool or MCP server. -/
structure ResourceRow where
  resourceType : ObjectKind
  id : Uuid
  orgId : Option Uuid
  ownerId : Option Uuid
  isSystem : Bool
  archivedAt : Option Time
  deriving DecidableEq

structure CredentialRow where
  id : Uuid
  orgId : Option Uuid
  tenantId : Option Uuid
  ownerId : Option Uuid
  scope : CredentialScope
  isSystem : Bool
  deriving DecidableEq

structure MarketplaceItemRow where
  id : Uuid
  orgId : Option Uuid
  tenantId : Option Uuid
  ownerId : Option Uuid
  isSystem : Bool
  tenantPublication : TenantPublication
  deriving DecidableEq

structure McpToolRow where
  id : Uuid
  serverId : Uuid
  deriving DecidableEq

/-- A row of `resource_grants`. -/
structure GrantRow where
  id : Uuid
  orgId : Uuid
  resourceType : ObjectKind
  resourceId : Uuid
  relation : GrantRelation
  principalType : PrincipalType
  principalId : Uuid
  grantedAt : Time
  state : GrantState
  grantKind : GrantKind
  conditionName : Option String
  conditionContext : Option (List (String × ContextValue))
  expiresAt : Option Time
  tenantId : Option Uuid
  deriving DecidableEq

def GrantRow.object (row : GrantRow) : Ref :=
  ⟨row.resourceType, row.resourceId⟩

inductive Row
  | tenantMember (row : TenantMemberRow)
  | tenantRole (row : TenantRoleRow)
  | organization (row : OrganizationRow)
  | orgMember (row : OrgMemberRow)
  | orgRole (row : OrgRoleRow)
  | group (row : GroupRow)
  | groupMember (row : GroupMemberRow)
  | capability (row : CapabilityRow)
  | resource (row : ResourceRow)
  | credential (row : CredentialRow)
  | marketplaceItem (row : MarketplaceItemRow)
  | mcpTool (row : McpToolRow)
  | grant (row : GrantRow)
  deriving DecidableEq

end NaturalMold.Authz

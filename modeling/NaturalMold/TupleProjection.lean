import NaturalMold.FallibleSteps
import NaturalMold.TupleRows
import Mathlib.Data.List.Sort

/-! # What a row projects -/

namespace NaturalMold.Authz

open Conversations (Uuid Time uuidText)
open Fallible

/-- What a projection raises: `TupleRuleError`, or another error on a value
that cannot be read. -/
inductive TupleError
  | rule (reason : String)
  | value
  deriving DecidableEq

def plainTuple (user : Subject) (relation : String) (object : Ref) : Tuple where
  user := user
  relation := relation
  object := object
  condition := none

def objectSubject (kind : ObjectKind) (id : Uuid) : Subject :=
  ⟨⟨kind, id⟩, false⟩

def membersOf (kind : ObjectKind) (id : Uuid) : Subject :=
  ⟨⟨kind, id⟩, true⟩

/-- The fields of a context in the order of their names. -/
def sortedContext (context : List (String × ContextValue)) : List (String × ContextValue) :=
  context.insertionSort fun first second => first.1 ≤ second.1

/-- `RelationTuple.of` with a condition. -/
def conditionedTuple (user : Subject) (relation : String) (object : Ref) (name : String)
    (context : List (String × ContextValue)) : Tuple where
  user := user
  relation := relation
  object := object
  condition := some { name, context := sortedContext context }

def principalRef (principalType : PrincipalType) (principalId : Uuid) (relation : String) :
    Subject :=
  match principalType with
  | .user => objectSubject .user principalId
  | .agent => objectSubject .agent principalId
  | .organization =>
      if relation = GrantRelation.allowedOrg.name then objectSubject .organization principalId
      else membersOf .organization principalId
  | .group => membersOf .group principalId

def orgAndOwner (kind : ObjectKind) (id : Uuid) (org owner : Option Uuid) (system : Bool) :
    List Tuple :=
  if system then []
  else
    (org.toList.map fun org => plainTuple (objectSubject .organization org) "org" ⟨kind, id⟩) ++
      owner.toList.map fun owner => plainTuple (objectSubject .user owner) "owner" ⟨kind, id⟩

def marketplaceTenant (row : GrantRow) : List Tuple :=
  if row.resourceType = .marketplaceItem ∧ row.principalType = .organization then
    row.tenantId.toList.map fun tenant =>
      plainTuple (objectSubject .tenant tenant) "tenant" ⟨.marketplaceItem, row.resourceId⟩
  else []

def principalTuple (row : GrantRow) (now : Time) : Except TupleError (List Tuple) :=
  let user := principalRef row.principalType row.principalId row.relation.name
  match row.expiresAt, row.conditionName with
  | some _, some _ =>
      .error (.rule ("grant " ++ uuidText row.id ++
        ": expires_at cannot combine with a condition"))
  | some finish, none =>
      if finish ≤ now ∨ finish ≤ row.grantedAt then .ok []
      else
        .ok [conditionedTuple user row.relation.name row.object expiryCondition
          [("grant_time", .instant row.grantedAt),
            ("grant_duration", .duration (finish - row.grantedAt))]]
  | none, some name =>
      .ok [conditionedTuple user row.relation.name row.object name
        (row.conditionContext.getD [])]
  | none, none =>
      if row.resourceType = .mcpServer ∧ row.principalType = .agent then
        .error (.rule ("grant " ++ uuidText row.id ++ ": MCP server delegation needs " ++
          runSourceCondition))
      else .ok [plainTuple user row.relation.name row.object]

def grantTuples (row : GrantRow) (now : Time) : Except TupleError (List Tuple) := do
  if row.state ≠ .active then
    return []
  let found := marketplaceTenant row
  let own ← principalTuple row now
  return found ++ own

def rowTuples (row : Row) (now : Time) : Except TupleError (List Tuple) :=
  match row with
  | .tenantMember row =>
      .ok (if row.status = .active then
        [plainTuple (objectSubject .user row.userId) "member" ⟨.tenant, row.tenantId⟩] else [])
  | .tenantRole row =>
      .ok [plainTuple (objectSubject .user row.userId) row.role.name ⟨.tenant, row.tenantId⟩]
  | .organization row =>
      .ok [plainTuple (objectSubject .tenant row.tenantId) "tenant" ⟨.organization, row.id⟩]
  | .orgMember row =>
      .ok (if row.status = .active then
        [plainTuple (objectSubject .user row.userId) "member" ⟨.organization, row.orgId⟩] else [])
  | .orgRole row =>
      .ok [plainTuple (principalRef row.principalType row.principalId row.role.name) row.role.name
        ⟨.organization, row.orgId⟩]
  | .group row =>
      .ok [plainTuple (objectSubject .organization row.orgId) "org" ⟨.group, row.id⟩]
  | .groupMember row =>
      .ok [plainTuple (objectSubject .user row.userId) "member" ⟨.group, row.groupId⟩]
  | .capability row =>
      .ok [plainTuple (principalRef row.principalType row.principalId row.capability.name)
        row.capability.name ⟨.organization, row.orgId⟩]
  | .resource row =>
      .ok (orgAndOwner row.resourceType row.id row.orgId row.ownerId row.isSystem ++
        if row.resourceType = .agent then
          row.orgId.toList.map fun org =>
            plainTuple (objectSubject .agent row.id) "resident_agent" ⟨.organization, org⟩
        else [])
  | .credential row =>
      .ok ((if row.scope = .tenant then
          row.tenantId.toList.map fun tenant =>
            plainTuple (objectSubject .tenant tenant) "tenant" ⟨.credential, row.id⟩
        else []) ++ orgAndOwner .credential row.id row.orgId row.ownerId row.isSystem)
  | .marketplaceItem row =>
      .ok (match row.isSystem, row.tenantId with
        | false, some tenant =>
            orgAndOwner .marketplaceItem row.id row.orgId row.ownerId false ++
              [plainTuple (objectSubject .tenant tenant) "tenant" ⟨.marketplaceItem, row.id⟩] ++
              if row.tenantPublication = .approved then
                [plainTuple (membersOf .tenant tenant) "installer" ⟨.marketplaceItem, row.id⟩]
              else []
        | system, _ => orgAndOwner .marketplaceItem row.id row.orgId row.ownerId system)
  | .mcpTool row =>
      .ok [plainTuple (objectSubject .mcpServer row.serverId) "server" ⟨.mcpTool, row.id⟩]
  | .grant row => grantTuples row now

/-- The type of a subject, whether it is `#member`, and the condition. -/
abbrev Restriction := ObjectKind × Bool × String

private def people : List Restriction :=
  [(.user, false, ""), (.group, true, "")]

private def everyone : List Restriction :=
  people ++ [(.organization, true, "")]

/-- The directly assignable relations of `model.json`. -/
def restrictions : List ((ObjectKind × String) × List Restriction) :=
  [((.tenant, "admin"), [(.user, false, "")]),
    ((.tenant, "auditor"), [(.user, false, "")]),
    ((.tenant, "member"), [(.user, false, "")]),
    ((.group, "member"), [(.user, false, "")]),
    ((.group, "org"), [(.organization, false, "")]),
    ((.organization, "admin"), people),
    ((.organization, "auditor"), people),
    ((.organization, "builder"), people),
    ((.organization, "cap_connect_database"), people),
    ((.organization, "cap_create_agent"), everyone),
    ((.organization, "cap_create_skill"), everyone),
    ((.organization, "cap_create_tool"), everyone),
    ((.organization, "cap_publish_marketplace"), everyone),
    ((.organization, "cap_register_mcp"), everyone),
    ((.organization, "cap_share_org_wide"), people),
    ((.organization, "member"), people),
    ((.organization, "resident_agent"), [(.agent, false, "")]),
    ((.organization, "tenant"), [(.tenant, false, "")]),
    ((.llmModel, "consumer"), everyone),
    ((.credential, "allowed_org"), [(.organization, false, "")]),
    ((.credential, "consumer"), everyone ++ [(.agent, false, "")]),
    ((.credential, "manager"), [(.user, false, "")]),
    ((.credential, "org"), [(.organization, false, "")]),
    ((.credential, "owner"), [(.user, false, "")]),
    ((.credential, "tenant"), [(.tenant, false, "")]),
    ((.tool, "allowed_org"), [(.organization, false, "")]),
    ((.tool, "consumer"), everyone ++ [(.agent, false, "")]),
    ((.tool, "editor"), people),
    ((.tool, "manager"), people),
    ((.tool, "org"), [(.organization, false, "")]),
    ((.tool, "owner"), [(.user, false, "")]),
    ((.tool, "viewer"), everyone),
    ((.mcpServer, "allowed_org"), [(.organization, false, "")]),
    ((.mcpServer, "consumer"), everyone ++ [(.agent, false, runSourceCondition)]),
    ((.mcpServer, "editor"), people),
    ((.mcpServer, "manager"), people),
    ((.mcpServer, "org"), [(.organization, false, "")]),
    ((.mcpServer, "owner"), [(.user, false, "")]),
    ((.mcpServer, "viewer"), everyone),
    ((.mcpTool, "blocked"), everyone ++ [(.agent, false, "")]),
    ((.mcpTool, "server"), [(.mcpServer, false, "")]),
    ((.skill, "allowed_org"), [(.organization, false, "")]),
    ((.skill, "consumer"), everyone ++ [(.agent, false, "")]),
    ((.skill, "editor"), people),
    ((.skill, "manager"), people),
    ((.skill, "org"), [(.organization, false, "")]),
    ((.skill, "owner"), [(.user, false, "")]),
    ((.skill, "viewer"), everyone),
    ((.agent, "consumer"), everyone ++ [(.agent, false, ""), (.user, false, expiryCondition)]),
    ((.agent, "editor"), people),
    ((.agent, "manager"), people),
    ((.agent, "org"), [(.organization, false, "")]),
    ((.agent, "owner"), [(.user, false, "")]),
    ((.agent, "viewer"), everyone),
    ((.knowledgeBase, "consumer"), everyone ++ [(.agent, false, "")]),
    ((.knowledgeBase, "editor"), people),
    ((.knowledgeBase, "manager"), people),
    ((.knowledgeBase, "org"), [(.organization, false, "")]),
    ((.knowledgeBase, "owner"), [(.user, false, "")]),
    ((.knowledgeBase, "viewer"), people),
    ((.document, "kb"), [(.knowledgeBase, false, "")]),
    ((.document, "viewer"), people),
    ((.dbConnection, "explorer"), people ++ [(.user, false, "in_company_network")]),
    ((.dbConnection, "manager"), people),
    ((.dbConnection, "org"), [(.organization, false, "")]),
    ((.dbConnection, "owner"), [(.user, false, "")]),
    ((.dbQueryTool, "connection"), [(.dbConnection, false, "")]),
    ((.dbQueryTool, "consumer"), everyone ++ [(.agent, false, "")]),
    ((.marketplaceItem, "installer"), everyone ++ [(.tenant, true, "")]),
    ((.marketplaceItem, "manager"), [(.user, false, "")]),
    ((.marketplaceItem, "org"), [(.organization, false, "")]),
    ((.marketplaceItem, "owner"), [(.user, false, "")]),
    ((.marketplaceItem, "tenant"), [(.tenant, false, "")]),
    ((.marketplaceItem, "viewer"), everyone ++ [(.tenant, true, "")]),
    ((.workflow, "consumer"), everyone),
    ((.workflow, "editor"), people),
    ((.workflow, "manager"), people),
    ((.workflow, "org"), [(.organization, false, "")]),
    ((.workflow, "owner"), [(.user, false, "")])]

/-- The parameters of the conditions of `model.json`. -/
def conditionParameters : List (String × List String) :=
  [(runSourceCondition, ["allowed_sources", "run_source"]),
    ("in_company_network", ["cidr", "user_ip"]),
    (expiryCondition, ["current_time", "grant_duration", "grant_time"])]

/-- Supplied with each query, never stored. -/
def runtimeParameters : List String :=
  ["current_time", "run_source", "user_ip"]

def sortedNames (names : List String) : String :=
  "[" ++ ", ".intercalate ((names.insertionSort (· ≤ ·)).map fun name => "'" ++ name ++ "'") ++ "]"

/-- Reject what the store would refuse. -/
def assertModelValid (item : Tuple) : Except TupleError Unit := do
  let objectType := item.object.kind.name
  match restrictions.lookup (item.object.kind, item.relation) with
  | none =>
      throw (.rule (objectType ++ " has no directly assignable relation " ++ item.relation))
  | some allowed =>
      let condition := (item.condition.map Condition.name).getD ""
      if !allowed.contains (item.user.ref.kind, item.user.members, condition) then
        throw (.rule (item.user.text ++ " is not assignable to " ++ objectType ++ "#" ++
          item.relation ++ " [" ++ condition ++ "]"))
      match item.condition with
      | none => return
      | some stored =>
          let parameters := (conditionParameters.lookup condition).getD []
          let names := stored.context.map Prod.fst
          if !(names.all parameters.contains && parameters.all fun name =>
              names.contains name || runtimeParameters.contains name) then
            throw (.rule (condition ++ " context " ++ sortedNames names ++ " != " ++
              sortedNames parameters))

def tuplesFor (row : Row) (now : Time) : Except TupleError (List Tuple) := do
  let produced ← rowTuples row now
  for item in produced do
    assertModelValid item
  return produced

end NaturalMold.Authz

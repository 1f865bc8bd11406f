import NaturalMold.KeyedTables
import NaturalMold.TupleMerge

/-!
# The operations of one grant change

A change of one grant is the difference, key by key, between the merged tuples of all rows on its
object before and after it.
-/

namespace NaturalMold.Authz

open Conversations (Uuid Time OrgContext)
open Fallible KeyedDifferences KeyedTables

structure GrantTarget where
  resourceType : ObjectKind
  resourceId : Uuid
  deriving DecidableEq

structure GrantRequest where
  relation : GrantRelation
  principalType : PrincipalType
  principalId : Uuid
  grantKind : GrantKind
  expiresAt : Option Time
  conditionName : Option String
  conditionContext : Option (List (String × ContextValue))
  deriving DecidableEq

def GrantRequest.row (request : GrantRequest) (ctx : OrgContext) (target : GrantTarget)
    (id : Uuid) (now : Time) : GrantRow where
  id := id
  orgId := ctx.orgId
  resourceType := target.resourceType
  resourceId := target.resourceId
  relation := request.relation
  principalType := request.principalType
  principalId := request.principalId
  grantedAt := now
  state := .active
  grantKind := request.grantKind
  conditionName := request.conditionName
  conditionContext := request.conditionContext
  expiresAt := request.expiresAt
  tenantId := some ctx.tenantId

/-- The reason of a `grant_invalid` error. -/
structure GrantInvalid where
  reason : String
  deriving DecidableEq

def TupleError.text : TupleError → String
  | rule reason => reason
  | value => ""

/-- The row after a change, or `before` when nothing changes; `fresh` is the id
of a new grant. -/
def desiredRow (ctx : OrgContext) (target : GrantTarget) (request : GrantRequest)
    (before : Option GrantRow) (now : Time) (fresh : Uuid) : Except GrantInvalid GrantRow :=
  let row := request.row ctx target ((before.map GrantRow.id).getD fresh) now
  match tuplesFor (.grant row) now with
  | .error error => .error ⟨error.text⟩
  | .ok [] => .error ⟨"expired"⟩
  | .ok (_ :: _) =>
      match before with
      | none => .ok row
      | some before => .ok (if { before with grantedAt := now } = row then before else row)

/-- The organization whose rows alone can share a key with a grant. -/
def orgScope (resourceType : ObjectKind) (grantKind : GrantKind) (principalType : PrincipalType)
    (orgId : Uuid) : Option Uuid :=
  if grantKind = .systemFanout ∧ principalType = .organization ∧
      resourceType ≠ .marketplaceItem then some orgId
  else none

def GrantRow.scope (row : GrantRow) : Option Uuid :=
  orgScope row.resourceType row.grantKind row.principalType row.orgId

def activeGrantRows (grants : List GrantRow) (object : Ref) (exclude : Uuid)
    (org : Option Uuid) : List GrantRow :=
  (grants.filter fun row => row.object = object ∧ row.state = .active ∧ row.id ≠ exclude ∧
    (org = none ∨ org = some row.orgId)).insertionSort fun first second => first.id ≤ second.id

/-- What a projection gives, and nothing when no rule can project the row. -/
def projectedOrNone : Except TupleError (List Tuple) → List Tuple
  | .ok items => items
  | .error _ => []

def writtenTuples (row : GrantRow) : List Tuple :=
  projectedOrNone (tuplesFor (.grant { row with state := .active }) row.grantedAt)

/-- `_safe`: another row's bad data must not block a change. -/
def safeTuples (row : Row) (now : Time) : List Tuple :=
  projectedOrNone (tuplesFor row now)

def itemRows (items : List MarketplaceItemRow) (object : Ref) : List MarketplaceItemRow :=
  if object.kind = .marketplaceItem then
    (items.find? fun item => item.id = object.id).toList
  else []

def remaining (grants : List GrantRow) (items : List MarketplaceItemRow) (row : GrantRow)
    (scope : Option Uuid) (now : Time) : List Tuple :=
  ((activeGrantRows grants row.object row.id scope).map Row.grant ++
    (itemRows items row.object).map Row.marketplaceItem).flatMap fun other =>
      safeTuples other now

def keyOp (previous desired : Option Tuple) : Option (TupleOp Condition) :=
  match previous, desired with
  | some previous, none => some { op := .delete, tuple := previous, replace := false }
  | previous, some desired =>
      if previous = some desired then none
      else some { op := .write, tuple := desired, replace := previous.isSome }
  | none, none => none

def keyOrder (key : TupleKey) : List String :=
  [key.user.text, key.relation, key.object.text]

def diff (before after : List Tuple) (keys : List TupleKey) :
    Except TupleError (List (TupleOp Condition)) := do
  let old ← mergeTuples (before.filter fun item => item.toTupleKey ∈ keys)
  let new ← mergeTuples (after.filter fun item => item.toTupleKey ∈ keys)
  let sorted := keys.dedup.insertionSort fun first second =>
    keyOrder first ≤ keyOrder second
  return sorted.filterMap fun key =>
    keyOp (lookup RelationTuple.toTupleKey old key) (lookup RelationTuple.toTupleKey new key)

/-- `change_ops`, where `scope` restricts the other rows to one organization. -/
def changeOpsWithin (scope : Option Uuid) (grants : List GrantRow)
    (items : List MarketplaceItemRow) (before after : Option GrantRow) (row : GrantRow)
    (now : Time) : Except TupleError (List (TupleOp Condition)) := do
  let old := (before.map writtenTuples).getD []
  let new ← match after with
    | some after => tuplesFor (.grant after) now
    | none => pure []
  let keys := (old ++ new).map RelationTuple.toTupleKey
  let rest := (remaining grants items row scope now).filter fun item => item.toTupleKey ∈ keys
  diff (rest ++ old) (rest ++ new) keys

/-- The operations that turn the stored projection of `before` into `after`. -/
def changeOps (grants : List GrantRow) (items : List MarketplaceItemRow)
    (before after : Option GrantRow) (now : Time) :
    Except TupleError (List (TupleOp Condition)) :=
  match after.or before with
  | none => .ok []
  | some row => changeOpsWithin row.scope grants items before after row now

end NaturalMold.Authz

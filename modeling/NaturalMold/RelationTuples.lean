import NaturalMold.ConversationTables
import NaturalMold.RetriedOperations
import Mathlib.Logic.Function.Basic

/-!
# Relation tuples and the calls that store them

A tuple relates a user to an object, possibly under a condition; the store holds one tuple per
user, relation and object.
-/

namespace NaturalMold

open RetriedOperations
open Conversations (Uuid uuidText)

/-- The types of the authorization model. -/
inductive ObjectKind
  | user
  | tenant
  | group
  | organization
  | llmModel
  | credential
  | tool
  | mcpServer
  | mcpTool
  | skill
  | agent
  | knowledgeBase
  | document
  | dbConnection
  | dbQueryTool
  | marketplaceItem
  | workflow
  deriving DecidableEq

def ObjectKind.name : ObjectKind → String
  | user => "user"
  | tenant => "tenant"
  | group => "group"
  | organization => "organization"
  | llmModel => "llm_model"
  | credential => "credential"
  | tool => "tool"
  | mcpServer => "mcp_server"
  | mcpTool => "mcp_tool"
  | skill => "skill"
  | agent => "agent"
  | knowledgeBase => "knowledge_base"
  | document => "document"
  | dbConnection => "db_connection"
  | dbQueryTool => "db_query_tool"
  | marketplaceItem => "marketplace_item"
  | workflow => "workflow"

/-- A reference `kind:id`. -/
structure Ref where
  kind : ObjectKind
  id : Uuid
  deriving DecidableEq

def Ref.text (ref : Ref) : String :=
  ref.kind.name ++ ":" ++ uuidText ref.id

/-- The user of a tuple: an object, or the members `kind:id#member` of one. -/
structure Subject where
  ref : Ref
  members : Bool
  deriving DecidableEq

def Subject.text (subject : Subject) : String :=
  if subject.members then subject.ref.text ++ "#member" else subject.ref.text

/-- The part of a tuple that identifies it in the store. -/
structure TupleKey where
  user : Subject
  relation : String
  object : Ref
  deriving DecidableEq

structure RelationTuple (Condition : Type*) extends TupleKey where
  condition : Option Condition
  deriving DecidableEq

def TupleKey.text (key : TupleKey) : String :=
  key.user.text ++ " " ++ key.relation ++ " " ++ key.object.text

/-- The stored tuple of each key. -/
abbrev TupleStore (Condition : Type*) :=
  TupleKey → Option (RelationTuple Condition)

inductive OpKind
  | write
  | delete
  deriving DecidableEq

structure TupleOp (Condition : Type*) where
  op : OpKind
  tuple : RelationTuple Condition
  replace : Bool
  deriving DecidableEq

variable {Condition : Type*}

namespace TupleStore

def write (store : TupleStore Condition) (item : RelationTuple Condition) :
    TupleStore Condition :=
  Function.update store item.toTupleKey (some ((store item.toTupleKey).getD item))

def delete (store : TupleStore Condition) (item : RelationTuple Condition) :
    TupleStore Condition :=
  Function.update store item.toTupleKey none

end TupleStore

inductive StoreCall (Condition : Type*)
  | write (item : RelationTuple Condition)
  | delete (item : RelationTuple Condition)
  deriving DecidableEq

namespace StoreCall

def key : StoreCall Condition → TupleKey
  | write item => item.toTupleKey
  | delete item => item.toTupleKey

def effect (store : TupleStore Condition) : StoreCall Condition → TupleStore Condition
  | write item => store.write item
  | delete item => store.delete item

end StoreCall

/-- The calls of `_send`, in order. -/
def TupleOp.calls (op : TupleOp Condition) : List (StoreCall Condition) :=
  (if op.op = .delete || op.replace then [.delete op.tuple] else []) ++
    (if op.op = .write then [.write op.tuple] else [])

/-- What an operation does to its cell when all of its calls take effect. -/
def TupleOp.operation (op : TupleOp Condition) : Operation (RelationTuple Condition) :=
  match op.op, op.replace with
  | .write, false => .insert op.tuple
  | .write, true => .assign op.tuple
  | .delete, _ => .erase

theorem StoreCall.effect_of_key_ne {store : TupleStore Condition} {call : StoreCall Condition}
    {key : TupleKey} (different : call.key ≠ key) : call.effect store key = store key := by
  cases call with
  | write item => exact Function.update_of_ne different.symm _ _
  | delete item => exact Function.update_of_ne different.symm _ _

theorem TupleOp.calls_key {op : TupleOp Condition} {call : StoreCall Condition}
    (member : call ∈ op.calls) : call.key = op.tuple.toTupleKey := by
  rw [TupleOp.calls, List.mem_append] at member
  rcases member with deleted | written
  · split at deleted
    · rw [List.mem_singleton.mp deleted]
      rfl
    · simp at deleted
  · split at written
    · rw [List.mem_singleton.mp written]
      rfl
    · simp at written

theorem TupleOp.effect_calls (op : TupleOp Condition) (store : TupleStore Condition) :
    (op.calls.foldl (fun store call => call.effect store) store) op.tuple.toTupleKey =
      op.operation.apply (store op.tuple.toTupleKey) := by
  obtain ⟨kind, tuple, replace⟩ := op
  cases kind <;> cases replace <;>
    simp [TupleOp.calls, TupleOp.operation, StoreCall.effect, TupleStore.write,
      TupleStore.delete, Operation.apply]

/-- The store after the calls of queued operations, in order. -/
def applyOps (ops : List (TupleOp Condition)) (store : TupleStore Condition) :
    TupleStore Condition :=
  ops.foldl (fun store op => op.calls.foldl (fun store call => call.effect store) store) store

theorem TupleOp.effect_calls_of_key_ne {op : TupleOp Condition} {key : TupleKey}
    (different : op.tuple.toTupleKey ≠ key) (store : TupleStore Condition) :
    op.calls.foldl (fun store call => call.effect store) store key = store key := by
  have untouched : ∀ calls : List (StoreCall Condition), (∀ call ∈ calls, call.key ≠ key) →
      ∀ store : TupleStore Condition,
        calls.foldl (fun store call => call.effect store) store key = store key := by
    intro calls
    induction calls with
    | nil => exact fun _ _ => rfl
    | cons call calls ih =>
        intro others store
        rw [List.foldl_cons, ih fun other member => others other (List.mem_cons_of_mem _ member)]
        exact StoreCall.effect_of_key_ne (others call List.mem_cons_self)
  apply untouched
  intro call member
  rw [TupleOp.calls_key member]
  exact different

/-- Each cell takes the operations on its own key, in order. -/
theorem applyOps_apply (ops : List (TupleOp Condition)) (store : TupleStore Condition)
    (key : TupleKey) :
    applyOps ops store key =
      applyAll ((ops.filter fun op => op.tuple.toTupleKey = key).map TupleOp.operation)
        (store key) := by
  induction ops generalizing store with
  | nil => rfl
  | cons op ops ih =>
      rw [applyOps, List.foldl_cons, ← applyOps, ih]
      by_cases same : op.tuple.toTupleKey = key
      · subst key
        rw [TupleOp.effect_calls]
        simp
      · rw [TupleOp.effect_calls_of_key_ne same]
        simp [same]

theorem applyOps_of_forall_ne {ops : List (TupleOp Condition)} {key : TupleKey}
    (others : ∀ op ∈ ops, op.tuple.toTupleKey ≠ key) (store : TupleStore Condition) :
    applyOps ops store key = store key := by
  have none : (ops.filter fun op => op.tuple.toTupleKey = key) = [] := by
    rw [List.filter_eq_nil_iff]
    intro op member
    simpa using others op member
  rw [applyOps_apply, none]
  rfl

end NaturalMold

import Mathlib.Data.Finset.Basic
import Mathlib.Data.Prod.Lex
import NaturalMold.ConversationTables
import NaturalMold.LockTables
import NaturalMold.StepRuns

/-!
# The lock cursor of an execution

A transaction locks its rows in the order of their classes, and inside a class in ascending order
of their ids.
-/

namespace NaturalMold.Authz

open Conversations (Raised Uuid)
open LockTables

inductive LockClass
  | tenant
  | organization
  | tenantMember
  | organizationMember
  | user
  | agentLifecycle
  | trigger
  | deployment
  | conversation
  | run
  | input
  | envelope
  | queue
  deriving DecidableEq

namespace LockClass

def value : LockClass → ℕ
  | tenant => 0
  | organization => 1
  | tenantMember => 2
  | organizationMember => 3
  | user => 4
  | agentLifecycle => 5
  | trigger => 6
  | deployment => 7
  | conversation => 8
  | run => 9
  | input => 10
  | envelope => 11
  | queue => 12

theorem value_injective : Function.Injective value := by
  intro first second same
  cases first <;> cases second <;> first | rfl | (simp [value] at same)

/-- The classes from the runs on. -/
def Exempt (lockClass : LockClass) : Prop :=
  run.value ≤ lockClass.value

instance (lockClass : LockClass) : Decidable lockClass.Exempt :=
  inferInstanceAs (Decidable (_ ≤ _))

end LockClass

/-- A resource; the bytes of an id are compared as its value. -/
abbrev Resource := LockClass × Uuid

def Resource.rank (resource : Resource) : ℕ ×ₗ Uuid :=
  toLex (resource.1.value, resource.2)

def executionScopeExpansionDenied : Raised :=
  .executionProofError "execution_scope_expansion_denied"

/-- `ExecutionLockCursor`, without the rows kept for reuse. -/
structure ExecutionLockCursor where
  position : Option LockClass
  last : Option Uuid
  held : Finset Resource
  owned : Finset Resource

namespace ExecutionLockCursor

def empty : ExecutionLockCursor where
  position := none
  last := none
  held := ∅
  owned := ∅

def holds (cursor : ExecutionLockCursor) (lockClass : LockClass) (resource : Uuid) : Bool :=
  (lockClass, resource) ∈ cursor.held

def earlierClass (cursor : ExecutionLockCursor) (lockClass : LockClass) : Bool :=
  cursor.position.any fun current =>
    lockClass.value < current.value ∧ ¬ (lockClass.Exempt ∧ current.Exempt)

def notAscending (cursor : ExecutionLockCursor) (lockClass : LockClass) (resource : Uuid) : Bool :=
  cursor.position = some lockClass ∧ lockClass.value < LockClass.run.value ∧
    cursor.last.any (resource ≤ ·)

/-- The method `admit`: false when the resource is already held, so that no SQL is run. -/
def admits (cursor : ExecutionLockCursor) (lockClass : LockClass) (resource : Uuid) :
    Except Raised Bool :=
  if cursor.holds lockClass resource then .ok false
  else if cursor.earlierClass lockClass then .error executionScopeExpansionDenied
  else if cursor.notAscending lockClass resource then .error executionScopeExpansionDenied
  else .ok true

/-- `record`, after a lock was acquired. -/
def record (cursor : ExecutionLockCursor) (lockClass : LockClass) (resource : Uuid) :
    ExecutionLockCursor where
  position := some lockClass
  last := some resource
  held := insert (lockClass, resource) cursor.held
  owned := cursor.owned

/-- `register_owned`: a row of this transaction, `kept` if its row is given. -/
def registerOwned (cursor : ExecutionLockCursor) (lockClass : LockClass) (resource : Uuid)
    (kept : Bool) : ExecutionLockCursor :=
  { cursor with
    owned := insert (lockClass, resource) cursor.owned
    held := if kept then insert (lockClass, resource) cursor.held else cursor.held }

def Passed (cursor : ExecutionLockCursor) (resource : Resource) : Prop :=
  ∃ current last, cursor.position = some current ∧ cursor.last = some last ∧
    (current.Exempt ∨ resource.rank ≤ Resource.rank (current, last))

variable {cursor : ExecutionLockCursor} {lockClass : LockClass} {resource : Uuid}

theorem admits_eq_true (admitted : cursor.admits lockClass resource = .ok true) :
    cursor.earlierClass lockClass = false ∧ cursor.notAscending lockClass resource = false := by
  rw [admits] at admitted
  split at admitted
  · cases admitted
  split at admitted
  · cases admitted
  split at admitted
  · cases admitted
  · rename_i _ inClass inOrder
    exact ⟨Bool.eq_false_of_not_eq_true inClass, Bool.eq_false_of_not_eq_true inOrder⟩

/-- Admission compares the resource with the cursor's place. -/
theorem rank_lt_of_admits {current : LockClass} {last : Uuid}
    (admitted : cursor.admits lockClass resource = .ok true)
    (positionEq : cursor.position = some current) (lastEq : cursor.last = some last)
    (ordered : ¬ lockClass.Exempt) :
    ¬ current.Exempt ∧ Resource.rank (current, last) < Resource.rank (lockClass, resource) := by
  obtain ⟨inClass, inOrder⟩ := admits_eq_true admitted
  rw [earlierClass, positionEq, Option.any_some, decide_eq_false_iff_not] at inClass
  rw [notAscending, positionEq, lastEq, Option.any_some, decide_eq_false_iff_not] at inOrder
  have notBefore : current.value ≤ lockClass.value := by
    apply Nat.le_of_not_lt
    exact fun before => inClass ⟨before, fun both => ordered both.1⟩
  refine ⟨fun exempt => ordered (exempt.trans notBefore), Prod.Lex.toLex_lt_toLex.mpr ?_⟩
  rcases notBefore.lt_or_eq with less | same
  · exact Or.inl less
  · refine Or.inr ⟨same, Nat.lt_of_not_le fun notAbove => inOrder ⟨?_, Nat.lt_of_not_le ordered, ?_⟩⟩
    · rw [LockClass.value_injective same]
    · exact decide_eq_true notAbove

theorem Passed.lt_of_admits {passed : Resource} (before : cursor.Passed passed)
    (admitted : cursor.admits lockClass resource = .ok true) (ordered : ¬ lockClass.Exempt) :
    passed.rank < Resource.rank (lockClass, resource) := by
  obtain ⟨current, last, positionEq, lastEq, exempt | below⟩ := before
  · exact absurd exempt (rank_lt_of_admits admitted positionEq lastEq ordered).1
  · exact below.trans_lt (rank_lt_of_admits admitted positionEq lastEq ordered).2

theorem passed_record_self (cursor : ExecutionLockCursor) (lockClass : LockClass)
    (resource : Uuid) : (cursor.record lockClass resource).Passed (lockClass, resource) :=
  ⟨lockClass, resource, rfl, rfl, Or.inr (le_refl _)⟩

theorem Passed.record {passed : Resource} (before : cursor.Passed passed)
    (admitted : cursor.admits lockClass resource = .ok true) :
    (cursor.record lockClass resource).Passed passed := by
  refine ⟨lockClass, resource, rfl, rfl, ?_⟩
  by_cases exempt : lockClass.Exempt
  · exact Or.inl exempt
  · exact Or.inr (before.lt_of_admits admitted exempt).le

theorem Passed.registerOwned {passed : Resource} (before : cursor.Passed passed)
    (lockClass : LockClass) (resource : Uuid) (kept : Bool) :
    (cursor.registerOwned lockClass resource kept).Passed passed :=
  before

end ExecutionLockCursor

end NaturalMold.Authz

import NaturalMold.ConversationRunInvariants
import NaturalMold.ConversationRunQueue

/-! # What the queue operations write -/

namespace NaturalMold.Conversations

open KeyedTables Fallible

def RunOf (runs : Table ConversationRun.id) (conversationId runId : Uuid) : Prop :=
  ∃ run ∈ runs.rows, run.id = runId ∧ run.conversationId = conversationId

structure FreshInput (conversations : Table Conversation.id) (runs : Table ConversationRun.id)
    (inputs : Table ConversationRunInput.id) (input : ConversationRunInput) : Prop where
  owned : OwnedByConversation conversations input.conversationId input.userId
  revision : input.revision = 1
  position : 1 ≤ input.position
  status : (input.status = .pending ∧ input.runId = none) ∨
    ∃ runId, input.status = .claimed ∧ input.runId = some runId ∧
      RunOf runs input.conversationId runId ∧ ∀ other ∈ inputs.rows, other.runId ≠ some runId

/-- What an operation can make of an input. -/
inductive InputMove (runs : Table ConversationRun.id) (inputs : Table ConversationRunInput.id) :
    ConversationRunInput → ConversationRunInput → Prop
  | edit (input : ConversationRunInput) (pending : input.status = .pending)
      (inputPayload : List (String × Json)) :
      InputMove runs inputs input
        { input with
          inputPayload := inputPayload
          revision := input.revision + 1 }
  | delete (input : ConversationRunInput) (pending : input.status = .pending) :
      InputMove runs inputs input
        { input with
          status := .canceled
          revision := input.revision + 1 }
  | reorder (input : ConversationRunInput) (pending : input.status = .pending) (position : ℕ)
      (positive : 1 ≤ position) :
      InputMove runs inputs input
        { input with
          position := position
          revision := input.revision + 1 }
  | promote (input : ConversationRunInput) (pending : input.status = .pending) :
      InputMove runs inputs input
        { input with
          priority := interruptPriority
          revision := input.revision + 1 }
  | claim (input : ConversationRunInput) (pending : input.status = .pending) (runId : Uuid)
      (now : Time) (runOf : RunOf runs input.conversationId runId)
      (unbound : ∀ other ∈ inputs.rows, other.runId ≠ some runId) :
      InputMove runs inputs input
        { input with
          runId := some runId
          status := .claimed
          claimedAt := some now
          revision := input.revision + 1 }
  | unbind (input : ConversationRunInput) (bound : input.runId.isSome) :
      InputMove runs inputs input
        { input with
          status := .canceled
          runId := none
          revision := input.revision + 1 }

namespace InputMove

variable {runs : Table ConversationRun.id} {inputs : Table ConversationRunInput.id}
  {old new : ConversationRunInput}

theorem conversationId_eq (move : InputMove runs inputs old new) :
    new.conversationId = old.conversationId := by
  cases move <;> rfl

theorem userId_eq (move : InputMove runs inputs old new) : new.userId = old.userId := by
  cases move <;> rfl

theorem revision_eq (move : InputMove runs inputs old new) : new.revision = old.revision + 1 := by
  cases move <;> rfl

end InputMove

/-- The columns of an input agree with its status; the table's check constraints
ask for no more. -/
structure InputConsistent (input : ConversationRunInput) : Prop where
  runId_iff : input.runId.isSome ↔ input.status ∈ [.claimed, .failed]
  revision : 1 ≤ input.revision
  position : 1 ≤ input.position

theorem FreshInput.consistent {conversations : Table Conversation.id}
    {runs : Table ConversationRun.id} {inputs : Table ConversationRunInput.id}
    {input : ConversationRunInput} (fresh : FreshInput conversations runs inputs input) :
    InputConsistent input where
  runId_iff := by
    rcases fresh.status with ⟨pending, unbound⟩ | ⟨runId, claimed, bound, _⟩
    · simp [pending, unbound]
    · simp [claimed, bound]
  revision := fresh.revision.ge
  position := fresh.position

theorem InputMove.consistent {runs : Table ConversationRun.id}
    {inputs : Table ConversationRunInput.id} {old new : ConversationRunInput}
    (move : InputMove runs inputs old new) (consistent : InputConsistent old) :
    InputConsistent new := by
  have positiveRevision : 1 ≤ new.revision := by
    rw [move.revision_eq]
    omega
  cases move with
  | edit | promote => exact ⟨consistent.runId_iff, positiveRevision, consistent.position⟩
  | reorder pending position positive =>
      exact ⟨consistent.runId_iff, positiveRevision, positive⟩
  | delete pending =>
      have unbound : old.runId = none := by
        have := consistent.runId_iff
        rw [pending] at this
        simpa using this
      exact ⟨by simp [unbound], positiveRevision, consistent.position⟩
  | claim => exact ⟨by simp, positiveRevision, consistent.position⟩
  | unbind => exact ⟨by simp, positiveRevision, consistent.position⟩

/-- Any number of writes to the table of inputs; a pending input stays pending
unless the writes may take it out of the queue. -/
abbrev InputWrites (leaves : Prop) (conversations : Table Conversation.id)
    (runs : Table ConversationRun.id) :
    Table ConversationRunInput.id → Table ConversationRunInput.id → Prop :=
  Writes (FreshInput conversations runs) fun inputs old new =>
    InputMove runs inputs old new ∧ (old.status = .pending → new.status = .pending ∨ leaves)

def ConversationsKept (before after : Table Conversation.id) : Prop :=
  ∀ conversationId userId, OwnedByConversation before conversationId userId →
    OwnedByConversation after conversationId userId

/-- What an operation does to the three tables. -/
structure QueueWrites (leaves : Prop) (before after : Database) : Prop where
  conversations : ConversationsKept before.conversations after.conversations
  runs : RunWrites before.conversations before.runs after.runs
  inputs : InputWrites leaves before.conversations after.runs before.inputs after.inputs

/-- The invariants of the three tables. -/
structure OrderlyQueue (db : Database) : Prop where
  runs : OrderlyRuns db.runs
  runOwned : ∀ run ∈ db.runs.rows,
    OwnedByConversation db.conversations run.conversationId run.userId
  inputOwned : ∀ input ∈ db.inputs.rows,
    OwnedByConversation db.conversations input.conversationId input.userId
  consistent : ∀ input ∈ db.inputs.rows, InputConsistent input
  bound : ∀ input ∈ db.inputs.rows, ∀ runId ∈ input.runId,
    RunOf db.runs input.conversationId runId
  oneInput : UniqueIndex (fun input : ConversationRunInput => input.runId.isSome)
    ConversationRunInput.runId db.inputs

theorem orderlyQueue_ofConversations (conversations : Table Conversation.id) :
    OrderlyQueue (Database.ofConversations conversations) where
  runs := orderlyRuns_empty
  runOwned := by simp [Database.ofConversations, Table.empty]
  inputOwned := by simp [Database.ofConversations, Table.empty]
  consistent := by simp [Database.ofConversations, Table.empty]
  bound := by simp [Database.ofConversations, Table.empty]
  oneInput := by simp [UniqueIndex, Database.ofConversations, Table.empty]

theorem RunWrites.runOf {conversations : Table Conversation.id}
    {before after : Table ConversationRun.id} (writes : RunWrites conversations before after)
    {conversationId runId : Uuid} (runOf : RunOf before conversationId runId) :
    RunOf after conversationId runId := by
  obtain ⟨run, member, rfl, rfl⟩ := runOf
  obtain ⟨later, laterMember, sameId, sameConversation⟩ :=
    Writes.exists_of_mem
      (fun first second : ConversationRun =>
        second.conversationId = first.conversationId)
      (fun _ => rfl) (fun _ _ _ toSecond toThird => toThird.trans toSecond)
      (fun _ _ _ move => move.conversationId_eq) writes member
  exact ⟨later, laterMember, sameId, sameConversation⟩

section

variable {leaves : Prop} {before after : Database}

theorem QueueWrites.runOwned (writes : QueueWrites leaves before after)
    (orderly : OrderlyQueue before) : ∀ run ∈ after.runs.rows,
      OwnedByConversation after.conversations run.conversationId run.userId := by
  have owned := Writes.forall_rows
    (fun run : ConversationRun =>
      OwnedByConversation before.conversations run.conversationId run.userId)
    (fun _ _ fresh => fresh.owned)
    (fun _ _ _ move owned => by
      rw [move.conversationId_eq, move.userId_eq]
      exact owned)
    writes.runs orderly.runOwned
  exact fun run member => writes.conversations _ _ (owned run member)

theorem QueueWrites.inputOwned (writes : QueueWrites leaves before after)
    (orderly : OrderlyQueue before) : ∀ input ∈ after.inputs.rows,
      OwnedByConversation after.conversations input.conversationId input.userId := by
  have owned := Writes.forall_rows
    (fun input : ConversationRunInput =>
      OwnedByConversation before.conversations input.conversationId input.userId)
    (fun _ _ fresh => fresh.owned)
    (fun _ _ _ move owned => by
      rw [move.1.conversationId_eq, move.1.userId_eq]
      exact owned)
    writes.inputs orderly.inputOwned
  exact fun input member => writes.conversations _ _ (owned input member)

theorem QueueWrites.bound (writes : QueueWrites leaves before after)
    (orderly : OrderlyQueue before) : ∀ input ∈ after.inputs.rows, ∀ runId ∈ input.runId,
      RunOf after.runs input.conversationId runId := by
  refine Writes.forall_rows
    (fun input : ConversationRunInput => ∀ runId ∈ input.runId,
      RunOf after.runs input.conversationId runId) ?_ ?_ writes.inputs ?_
  · intro _ input fresh runId bound
    rcases fresh.status with ⟨_, unbound⟩ | ⟨_, _, boundTo, runOf, _⟩
    · rw [unbound] at bound
      cases bound
    · obtain rfl := Option.some.inj (boundTo.symm.trans bound)
      exact runOf
  · rintro _ old new ⟨move, _⟩ bound runId member
    cases move with
    | edit | delete | reorder | promote => exact bound runId member
    | claim pending claimedBy now runOf unbound =>
        obtain rfl := Option.some.inj member
        exact runOf
    | unbind => cases member
  · intro input member runId bound
    exact writes.runs.runOf (orderly.bound input member runId bound)

theorem QueueWrites.oneInput (writes : QueueWrites leaves before after)
    (orderly : OrderlyQueue before) :
    UniqueIndex (fun input : ConversationRunInput => input.runId.isSome)
      ConversationRunInput.runId after.inputs := by
  refine Writes.uniqueIndex ?_ ?_ writes.inputs orderly.oneInput
  · intro _ input fresh bound other otherMember _
    rcases fresh.status with ⟨_, unbound⟩ | ⟨runId, _, boundTo, _, unused⟩
    · rw [unbound] at bound
      cases bound
    · rw [boundTo]
      exact unused other otherMember
  · rintro _ old member new ⟨move, _⟩ bound
    cases move with
    | edit | delete | reorder | promote => exact Or.inl ⟨bound, rfl⟩
    | claim pending runId now runOf unused =>
        exact Or.inr fun other otherMember _ => unused other otherMember
    | unbind => cases bound

theorem QueueWrites.orderly (writes : QueueWrites leaves before after)
    (orderly : OrderlyQueue before) : OrderlyQueue after where
  runs := writes.runs.orderly orderly.runs
  runOwned := writes.runOwned orderly
  inputOwned := writes.inputOwned orderly
  consistent :=
    Writes.forall_rows InputConsistent (fun _ _ fresh => fresh.consistent)
    (fun _ _ _ move => move.1.consistent)
      writes.inputs orderly.consistent
  bound := writes.bound orderly
  oneInput := writes.oneInput orderly

end

end NaturalMold.Conversations

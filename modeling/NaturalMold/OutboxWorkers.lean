import NaturalMold.Outbox
import NaturalMold.StepRuns

/-! # Concurrent drains of the outbox -/

namespace NaturalMold.Outbox

open Conversations (Uuid Time)

variable {Condition : Type}

/-- Where the loop of `_apply` stands. -/
structure Progress (Condition : Type) where
  older : String → Option ℕ
  applied : Applied Condition
  todo : List (OutboxRow Condition)

inductive Phase (Condition : Type)
  | claimed
  | between (progress : Progress Condition)
  | sending (row : OutboxRow Condition) (calls : List (StoreCall Condition))
      (progress : Progress Condition)

/-- An open transaction of `process_outbox`. -/
structure Drain (Condition : Type) where
  stamp : Time
  batch : List (OutboxRow Condition)
  phase : Phase Condition

/-- The committed queue, the tuple store, and the open transactions with the
rows they have locked. -/
structure System (Condition : Type) where
  table : OutboxTable Condition
  store : TupleStore Condition
  lockedBy : Uuid → Option ℕ
  drains : ℕ → Option (Drain Condition)

inductive CallOutcome
  | returned
  | raised (error : SendError) (tookEffect : Bool)
  deriving DecidableEq

/-- An operation that `enqueue` inserts, with the id and the sequence number its
row gets. -/
structure NewEntry (Condition : Type) where
  id : Uuid
  seq : ℕ
  op : TupleOp Condition

def NewEntry.row (sourceTable : String) (sourceId : Uuid) (now : Time)
    (entry : NewEntry Condition) : OutboxRow Condition where
  id := entry.id
  seq := entry.seq
  op := entry.op
  sourceTable := sourceTable
  sourceId := sourceId
  attempts := 0
  nextAttemptAt := now
  lastError := none
  processedAt := none

def OutboxTable.insert? (table : OutboxTable Condition) (rows : List (OutboxRow Condition)) :
    Option (OutboxTable Condition) :=
  if distinct : ((table.rows ++ rows).map OutboxRow.id).Nodup ∧
      ((table.rows ++ rows).map OutboxRow.seq).Nodup then
    some ⟨table.rows ++ rows, distinct.1, distinct.2⟩
  else none

theorem OutboxTable.insert?_eq_some {table after : OutboxTable Condition}
    {rows : List (OutboxRow Condition)} (inserted : table.insert? rows = some after) :
    after.rows = table.rows ++ rows := by
  rw [OutboxTable.insert?] at inserted
  split at inserted
  · rw [← Option.some.inj inserted]
  · cases inserted

inductive Action (Condition : Type)
  | enqueue (entries : List (NewEntry Condition)) (sourceTable : String) (sourceId : Uuid)
      (now : Time)
  | claim (worker : ℕ) (ids : Option (List Uuid)) (limit : ℕ) (stamp : Time)
  | readOlder (worker : ℕ)
  | takeRow (worker : ℕ)
  | call (worker : ℕ) (outcome : CallOutcome)
  | commit (worker : ℕ)
  | crash (worker : ℕ)

namespace System

def proceed (system : System Condition) (worker : ℕ) (drain : Drain Condition)
    (phase : Phase Condition) : System Condition :=
  { system with drains := Function.update system.drains worker (some { drain with phase }) }

/-- The transaction of a worker ends and gives up its row locks. -/
def release (system : System Condition) (worker : ℕ) : System Condition :=
  { system with
    lockedBy := fun id => if system.lockedBy id = some worker then none else system.lockedBy id
    drains := Function.update system.drains worker none }

/-- A writer commits the rows of one `enqueue`. -/
def enqueue (system : System Condition) (entries : List (NewEntry Condition))
    (sourceTable : String) (sourceId : Uuid) (now : Time) : System Condition :=
  match system.table.insert? (entries.map (NewEntry.row sourceTable sourceId now)) with
  | some table => { system with table }
  | none => system

def claim (system : System Condition) (worker : ℕ) (ids : Option (List Uuid)) (limit : ℕ)
    (stamp : Time) : System Condition :=
  match system.drains worker with
  | some _ => system
  | none =>
      let batch := due system.table (fun id => (system.lockedBy id).isSome) ids limit stamp
      if batch.isEmpty then system
      else
        { system with
          lockedBy := fun id =>
            if (batch.map OutboxRow.id).contains id then some worker else system.lockedBy id
          drains := Function.update system.drains worker
            (some { stamp, batch, phase := .claimed }) }

def readOlder (system : System Condition) (worker : ℕ) : System Condition :=
  match system.drains worker with
  | some drain =>
      match drain.phase with
      | .claimed =>
          system.proceed worker drain (.between
            { older := olderPending system.table drain.batch
              applied := Applied.none
              todo := drain.batch })
      | .between _ | .sending _ _ _ => system
  | none => system

/-- The end of the loop's body for a row: an error of the handler rolls the
transaction back. -/
def finishRow (system : System Condition) (worker : ℕ) (drain : Drain Condition)
    (row : OutboxRow Condition) (raised : Option SendError) (progress : Progress Condition) :
    System Condition :=
  match applyRow progress.older drain.stamp raised progress.applied row with
  | .ok applied => system.proceed worker drain (.between { progress with applied })
  | .error _ => system.release worker

def takeRow (system : System Condition) (worker : ℕ) : System Condition :=
  match system.drains worker with
  | some drain =>
      match drain.phase with
      | .between progress =>
          match progress.todo with
          | row :: todo =>
              if mustWait progress.older progress.applied.blocked row then
                system.finishRow worker drain row none { progress with todo }
              else
                system.proceed worker drain (.sending row row.op.calls { progress with todo })
          | [] => system
      | .claimed | .sending _ _ _ => system
  | none => system

def call (system : System Condition) (worker : ℕ) (outcome : CallOutcome) : System Condition :=
  match system.drains worker with
  | some drain =>
      match drain.phase with
      | .sending row (next :: calls) progress =>
          match outcome with
          | .returned =>
              let system := { system with store := next.effect system.store }
              if calls.isEmpty then system.finishRow worker drain row none progress
              else system.proceed worker drain (.sending row calls progress)
          | .raised error tookEffect =>
              let system := { system with
                store := if tookEffect then next.effect system.store else system.store }
              system.finishRow worker drain row (some error) progress
      | .sending _ [] _ | .claimed | .between _ => system
  | none => system

def commit (system : System Condition) (worker : ℕ) : System Condition :=
  match system.drains worker with
  | some drain =>
      match drain.phase with
      | .between progress =>
          match progress.todo with
          | [] => { system with table := system.table.flush progress.applied.rows }.release worker
          | _ :: _ => system
      | .claimed | .sending _ _ _ => system
  | none => system

end System

def step (system : System Condition) : Action Condition → System Condition
  | .enqueue entries sourceTable sourceId now =>
      system.enqueue entries sourceTable sourceId now
  | .claim worker ids limit stamp => system.claim worker ids limit stamp
  | .readOlder worker => system.readOlder worker
  | .takeRow worker => system.takeRow worker
  | .call worker outcome => system.call worker outcome
  | .commit worker => system.commit worker
  | .crash worker => system.release worker

/-- An empty queue before a store with any contents. -/
def System.start (store : TupleStore Condition) : System Condition where
  table := { rows := [], distinctIds := List.nodup_nil, distinctSeqs := List.nodup_nil }
  store := store
  lockedBy := fun _ => none
  drains := fun _ => none

/-- Among rows of one key, those that were committed first have the lower
sequence numbers. -/
def SeqFollowsCommits (rows : List (OutboxRow Condition)) : Prop :=
  rows.Pairwise fun first second => first.tupleKey = second.tupleKey → first.seq < second.seq

instance (rows : List (OutboxRow Condition)) : Decidable (SeqFollowsCommits rows) :=
  inferInstanceAs (Decidable (rows.Pairwise _))

/-- The writers of one key are serialised: the rows they add have higher
sequence numbers than all rows of their key that are already committed. -/
def WritersSerialised (system : System Condition) : Action Condition → Prop
  | .enqueue entries sourceTable sourceId now =>
      SeqFollowsCommits
        (system.table.rows ++ entries.map (NewEntry.row sourceTable sourceId now))
  | .claim _ _ _ _ | .readOlder _ | .takeRow _ | .call _ _ | .commit _ | .crash _ => True

instance (system : System Condition) (action : Action Condition) :
    Decidable (WritersSerialised system action) :=
  match action with
  | .enqueue _ _ _ _ => inferInstanceAs (Decidable (SeqFollowsCommits _))
  | .claim _ _ _ _ | .readOlder _ | .takeRow _ | .call _ _ | .commit _ | .crash _ =>
      inferInstanceAs (Decidable True)

def System.operations (system : System Condition) (key : TupleKey) :
    List (RetriedOperations.Operation (RelationTuple Condition)) :=
  ((system.table.rows.filter fun row => row.op.tuple.toTupleKey = key).insertionSort
    InSeqOrder).map (·.op.operation)

end NaturalMold.Outbox

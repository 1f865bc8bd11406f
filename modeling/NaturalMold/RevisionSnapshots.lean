import Mathlib.Logic.Function.Basic
import NaturalMold.CronExpressions
import NaturalMold.StepRuns

/-! # Transactions over the revisions of a skill -/

namespace NaturalMold.RevisionSnapshots

open CronExpressions (Text)
open StepRuns (run EveryStep)

variable {Files : Type*}

/-- A row with the files the skill had when it was made; an owner is the transaction
that has inserted it and is still open. -/
structure RevisionRow (Files : Type*) where
  number : ℕ
  objectKey : Text
  files : Files
  createdAt : ℕ
  pruned : Bool
  owner : Option ℕ

/-- The rows of one skill, the snapshot files, and what the open transactions hold: the
number they have read with the files they have written, the revisions they are about to
prune, and the marks they have set. -/
structure RevisionStore (Files : Type*) where
  rows : List (RevisionRow Files)
  snapshots : Text → Option Files
  drafts : ℕ → Option (ℕ × Option Files)
  pruning : ℕ → List ℕ
  marks : List (ℕ × ℕ)

inductive RevisionAction (Files : Type*) where
  | readNumber (tx : ℕ)
  | writeSnapshot (tx : ℕ) (files : Files)
  | insertRow (tx : ℕ) (createdAt : ℕ)
  | readRevisions (tx : ℕ) (protectedNumbers : List ℕ) (cutoff : ℕ)
  | deleteSnapshot (tx : ℕ)
  | commit (tx : ℕ)
  | rollback (tx : ℕ)

def minRevisionsToKeep : ℕ := 20

/-- The path of a snapshot below the folder of the skill. -/
def revisionPath (number : ℕ) : Text :=
  'r' :: Nat.toDigits 10 number ++ "/skill.zip".toList

namespace RevisionStore

def empty : RevisionStore Files :=
  ⟨[], fun _ => none, fun _ => none, fun _ => [], []⟩

/-- The rows a transaction sees: the committed ones and its own. -/
def visible (store : RevisionStore Files) (tx : ℕ) : List (RevisionRow Files) :=
  store.rows.filter fun row => row.owner = none || row.owner = some tx

def nextRevisionNumber (store : RevisionStore Files) (tx : ℕ) : ℕ :=
  match ((store.visible tx).map (·.number)).max? with
  | none => 1
  | some current => current + 1

/-- The revisions a prune goes through: all but the newest, which are neither protected
nor recent nor pruned. -/
def prunable (store : RevisionStore Files) (tx : ℕ) (protectedNumbers : List ℕ) (cutoff : ℕ) :
    List ℕ :=
  let newestFirst := (store.visible tx).mergeSort fun first second => second.number ≤ first.number
  ((newestFirst.drop minRevisionsToKeep).filter fun row =>
    !protectedNumbers.contains row.number && row.createdAt < cutoff && !row.pruned &&
      !store.marks.contains (tx, row.number)).map (·.number)

/-- What an ended transaction held is gone. -/
def close (store : RevisionStore Files) (tx : ℕ) : RevisionStore Files :=
  { store with
    drafts := Function.update store.drafts tx none
    pruning := Function.update store.pruning tx []
    marks := store.marks.filter fun mark => mark.1 ≠ tx }

def committedRow (store : RevisionStore Files) (tx : ℕ) (row : RevisionRow Files) :
    RevisionRow Files :=
  if row.owner = none ∨ row.owner = some tx then
    { row with owner := none, pruned := row.pruned || store.marks.contains (tx, row.number) }
  else row

def commit (store : RevisionStore Files) (tx : ℕ) : RevisionStore Files :=
  { store.close tx with rows := store.rows.map (store.committedRow tx) }

def rollback (store : RevisionStore Files) (tx : ℕ) : RevisionStore Files :=
  { store.close tx with rows := store.rows.filter fun row => row.owner ≠ some tx }

/-- The unique number is taken by a committed row or by the transaction itself. -/
def conflicts (store : RevisionStore Files) (tx number : ℕ) : Bool :=
  (store.visible tx).any fun row => row.number = number

/-- Insert a row; a taken number ends the transaction, a number that another open
transaction has inserted makes it wait. -/
def insertRow (store : RevisionStore Files) (tx number : ℕ) (files : Files) (createdAt : ℕ) :
    RevisionStore Files :=
  if store.conflicts tx number then store.rollback tx
  else if store.rows.any fun row => row.number = number then store
  else
    { store with
      rows := store.rows ++ [⟨number, revisionPath number, files, createdAt, false, some tx⟩]
      drafts := Function.update store.drafts tx none }

def step (store : RevisionStore Files) : RevisionAction Files → RevisionStore Files
  | .readNumber tx =>
      { store with
        drafts := Function.update store.drafts tx (some (store.nextRevisionNumber tx, none)) }
  | .writeSnapshot tx files =>
      match store.drafts tx with
      | some (number, none) =>
          { store with
            snapshots := Function.update store.snapshots (revisionPath number) (some files)
            drafts := Function.update store.drafts tx (some (number, some files)) }
      | _ => store
  | .insertRow tx createdAt =>
      match store.drafts tx with
      | some (number, some files) => store.insertRow tx number files createdAt
      | _ => store
  | .readRevisions tx protectedNumbers cutoff =>
      { store with
        pruning :=
          Function.update store.pruning tx (store.prunable tx protectedNumbers cutoff) }
  | .deleteSnapshot tx =>
      match store.pruning tx with
      | number :: later =>
          { store with
            snapshots := Function.update store.snapshots (revisionPath number) none
            pruning := Function.update store.pruning tx later
            marks := store.marks ++ [(tx, number)] }
      | [] => store
  | .commit tx => store.commit tx
  | .rollback tx => store.rollback tx

end RevisionStore

/-- A row that is not marked as pruned, neither in the database nor by an open prune. -/
def Unmarked (store : RevisionStore Files) (row : RevisionRow Files) : Prop :=
  row.pruned = false ∧ ∀ tx, (tx, row.number) ∉ store.marks

/-- Every committed row that is not marked has its own files at its key, and no two
committed rows have one key. -/
structure KeepsSnapshots (store : RevisionStore Files) : Prop where
  snapshot : ∀ row ∈ store.rows, row.owner = none → Unmarked store row →
    store.snapshots row.objectKey = some row.files
  keys : ((store.rows.filter fun row => row.owner = none).map (·.objectKey)).Nodup

/-- The rows that the end of a transaction makes visible to all, or shows unmarked
again, have their own files. -/
def EndsIntact (store : RevisionStore Files) (tx : ℕ) (rows : List (RevisionRow Files)) : Prop :=
  ∀ row ∈ rows, row.pruned = false → (∀ other, other ≠ tx → (other, row.number) ∉ store.marks) →
    store.snapshots row.objectKey = some row.files

def unmarkedAgain (store : RevisionStore Files) (tx : ℕ) : List (RevisionRow Files) :=
  store.rows.filter fun row => row.owner = none && store.marks.contains (tx, row.number)

/-- A snapshot is only replaced when no committed row with other files needs it; a
transaction only commits when its rows still have their files, and it only rolls back when
the snapshots it has deleted are in place. -/
def Careful (store : RevisionStore Files) : RevisionAction Files → Prop
  | .writeSnapshot tx files =>
      match store.drafts tx with
      | some (number, none) => ∀ row ∈ store.rows, row.number = number → row.owner = none →
          Unmarked store row → row.files = files
      | _ => True
  | .insertRow tx _ =>
      match store.drafts tx with
      | some (number, some _) =>
          store.conflicts tx number = true → EndsIntact store tx (unmarkedAgain store tx)
      | _ => True
  | .commit tx =>
      EndsIntact store tx (store.rows.filter fun row =>
        row.owner = some tx && !store.marks.contains (tx, row.number))
  | .rollback tx => EndsIntact store tx (unmarkedAgain store tx)
  | _ => True

end NaturalMold.RevisionSnapshots

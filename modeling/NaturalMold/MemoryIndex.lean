import NaturalMold.Jobs

/-!
# The memory index

A save writes the terms of a memory and enqueues a job under a key of the memory and its text. The
embedding model in use stays the same, and no memory is removed.
-/

namespace NaturalMold.MemoryIndex

open Conversations (Uuid)
open Jobs (JobState isFinished written truncated)
open KeyedTables StepRuns

inductive Analyzer
  | nori
  | suffix
  deriving DecidableEq

inductive MemoryStatus
  | active
  | superseded
  | revoked
  deriving DecidableEq

structure MemoryRecord where
  id : Uuid
  content : String
  status : MemoryStatus := .active
  searchTokens : String
  searchTokensAnalyzer : Analyzer
  deriving DecidableEq

/-- A vector of the model in use. -/
structure MemoryEmbedding where
  recordId : Uuid
  textHash : String
  vector : String
  deriving DecidableEq

/-- The joined terms of each analyzer, the hash of a text, and its vector. -/
structure Environment where
  terms : Analyzer → String → String
  textHash : String → String
  embed : String → String

/-- The idempotency key of a `memory.index` job. -/
inductive JobKey
  | record (id : Uuid) (digest : String)
  | all (generation : ℕ)
  deriving DecidableEq

inductive Payload
  | recordIds (ids : List Uuid)
  | all
  deriving DecidableEq

def Payload.reads (payload : Payload) (id : Uuid) : Bool :=
  match payload with
  | recordIds ids => ids.contains id
  | all => true

structure IndexJob where
  key : JobKey
  payload : Payload
  state : JobState
  deriving DecidableEq

/-- `_BATCH`. -/
def batchSize : ℕ :=
  64

/-- An attempt: the memories it has written, those it still has as it read them, and of the
batch that it has analysed how many texts Nori answered for and the vectors that it found. -/
structure IndexRun where
  key : JobKey
  done : List Uuid := []
  remaining : List MemoryRecord
  analysed : Option (ℕ × List MemoryEmbedding) := none
  deriving DecidableEq

def IndexRun.batch (run : IndexRun) : List MemoryRecord :=
  run.remaining.take batchSize

structure System where
  records : Table MemoryRecord.id := Table.empty
  embeddings : Table MemoryEmbedding.recordId := Table.empty
  jobs : Table IndexJob.key := Table.empty
  runs : List IndexRun := []

section

variable (env : Environment)

/-- `set_terms`, with the analyzer that was available. -/
def setTerms (analyzer : Analyzer) (record : MemoryRecord) : MemoryRecord :=
  { record with
    searchTokens := env.terms analyzer record.content
    searchTokensAnalyzer := analyzer }

/-- `enqueue`; a job with the key is returned as it is. -/
def enqueue (key : JobKey) (payload : Payload) (jobs : Table IndexJob.key) :
    Table IndexJob.key :=
  match jobs.get? key with
  | some _ => jobs
  | none => (jobs.insert? { key, payload, state := .queued }).getD jobs

def jobKey (id : Uuid) (content : String) : JobKey :=
  .record id (truncated 16 (env.textHash content))

/-- `on_saved` enqueues a job for the memory. -/
def onSaved (record : MemoryRecord) (jobs : Table IndexJob.key) : Table IndexJob.key :=
  enqueue (jobKey env record.id record.content) (.recordIds [record.id]) jobs

def createMemoryRecord (id : Uuid) (content : String) (analyzer : Analyzer) (system : System) :
    System :=
  let record := setTerms env analyzer
    { id, content, searchTokens := "", searchTokensAnalyzer := analyzer }
  match system.records.insert? record with
  | none => system
  | some records => { system with records := records, jobs := onSaved env record system.jobs }

def updateMemoryRecord (id : Uuid) (content : String) (analyzer : Analyzer) (system : System) :
    System :=
  match system.records.get? id with
  | none => system
  | some record =>
      if record.status = .active ∧ content ≠ record.content then
        let updated := setTerms env analyzer { record with content }
        { system with
          records := system.records.save updated
          jobs := onSaved env updated system.jobs }
      else system

/-- The first loop of `index_records`: terms move to Nori until it does not answer. -/
def retokenize : ℕ → List MemoryRecord → List MemoryRecord
  | _, [] => []
  | answered, record :: records =>
      if record.searchTokensAnalyzer = .nori then record :: retokenize answered records
      else
        match answered with
        | 0 => record :: retokenize 0 records
        | answered + 1 => setTerms env .nori record :: retokenize answered records

/-- What the `UPDATE` of an attempt makes of a row. -/
def writeTerms (changes : List (MemoryRecord × MemoryRecord)) (row : MemoryRecord) :
    MemoryRecord :=
  match changes.find? fun change => change.1.id = row.id with
  | none => row
  | some (selected, changed) =>
      { row with
        searchTokens := written selected.searchTokens changed.searchTokens row.searchTokens
        searchTokensAnalyzer := written selected.searchTokensAnalyzer
          changed.searchTokensAnalyzer row.searchTokensAnalyzer }

theorem writeTerms_id (changes : List (MemoryRecord × MemoryRecord)) (row : MemoryRecord) :
    (writeTerms changes row).id = row.id := by
  unfold writeTerms
  split <;> rfl

/-- The vector of one memory; `none` when the write fails. -/
def embedRecord (current : List MemoryEmbedding) (embeddings : Table MemoryEmbedding.recordId)
    (record : MemoryRecord) : Option (Table MemoryEmbedding.recordId) :=
  let textHash := env.textHash record.content
  let vector := env.embed record.content
  match current.find? fun embedding => embedding.recordId = record.id with
  | none => embeddings.insert? { recordId := record.id, textHash, vector }
  | some selected =>
      if selected.textHash = textHash then some embeddings
      else
        match embeddings.get? record.id with
        | none => none
        | some row =>
            some (embeddings.save
              { row with
                textHash := written selected.textHash textHash row.textHash
                vector := written selected.vector vector row.vector })

end

inductive Action
  | create (id : Uuid) (content : String) (analyzer : Analyzer)
  | update (id : Uuid) (content : String) (analyzer : Analyzer)
  | enqueueBackfill (generation : ℕ)
  | start (key : JobKey)
  | analyse (index answered : ℕ)
  | commitBatch (index : ℕ)
  | succeed (index : ℕ)
  | endAttempt (index : ℕ)
  | setState (key : JobKey) (state : JobState)

namespace System

def setState (system : System) (key : JobKey) (state : JobState) : System :=
  match system.jobs.get? key with
  | none => system
  | some job =>
      if isFinished job.state then system
      else { system with jobs := system.jobs.save { job with state } }

def selectRecords (system : System) (payload : Payload) : List MemoryRecord :=
  system.records.rows.filter fun record =>
    (record.status = .active || record.status = .superseded) && payload.reads record.id

def start (system : System) (key : JobKey) : System :=
  match system.jobs.get? key with
  | none => system
  | some job =>
      if isFinished job.state then system
      else
        let started := system.setState key .running
        { started with
          runs := started.runs ++ [{ key, remaining := started.selectRecords job.payload }] }

def commitBatch (env : Environment) (system : System) (index : ℕ) (run : IndexRun) : System :=
  match run.analysed with
  | none => system
  | some (answered, current) =>
      match run.batch.foldlM (embedRecord env current) system.embeddings with
      | none => system
      | some embeddings =>
          { system with
            records := system.records.updateWhere (fun _ => true)
              (writeTerms (run.batch.zip (retokenize env answered run.batch)))
              (writeTerms_id _)
            embeddings := embeddings
            runs := system.runs.set index
              { run with
                done := run.done ++ run.batch.map MemoryRecord.id
                remaining := run.remaining.drop batchSize
                analysed := none } }

/-- One step; an attempt may end at any time, and the state of its job is written later. -/
def step (env : Environment) (system : System) : Action → System
  | .create id content analyzer => createMemoryRecord env id content analyzer system
  | .update id content analyzer => updateMemoryRecord env id content analyzer system
  | .enqueueBackfill generation =>
      { system with jobs := enqueue (.all generation) .all system.jobs }
  | .start key => system.start key
  | .analyse index answered =>
      match system.runs[index]? with
      | none => system
      | some run =>
          if run.analysed.isNone then
            let current := system.embeddings.rows.filter fun embedding =>
              (run.batch.map MemoryRecord.id).contains embedding.recordId
            { system with
              runs := system.runs.set index { run with analysed := some (answered, current) } }
          else system
  | .commitBatch index =>
      match system.runs[index]? with
      | none => system
      | some run => system.commitBatch env index run
  | .succeed index =>
      match system.runs[index]? with
      | none => system
      | some run =>
          if run.remaining.isEmpty then
            { system.setState run.key .succeeded with runs := system.runs.eraseIdx index }
          else system
  | .endAttempt index => { system with runs := system.runs.eraseIdx index }
  | .setState key state => if state = .succeeded then system else system.setState key state

end System

def HasVector (env : Environment) (embeddings : Table MemoryEmbedding.recordId) (id : Uuid)
    (content : String) : Prop :=
  ∃ embedding ∈ embeddings.get? id, embedding.textHash = env.textHash content

/-- Every active memory has a vector of its text, and the terms of its text. -/
structure Converged (env : Environment) (system : System) : Prop where
  vector : ∀ record ∈ system.records.rows, record.status = .active →
    HasVector env system.embeddings record.id record.content
  terms : ∀ record ∈ system.records.rows, record.status = .active →
    record.searchTokens = env.terms record.searchTokensAnalyzer record.content

/-- A text changes when no attempt has read the memory without having written it, and when
no job with the key of the new text has succeeded or has written the memory. -/
def Undisturbed (env : Environment) (system : System) : Action → Prop
  | .update id content _ => ∀ record ∈ system.records.get? id, content ≠ record.content →
      (∀ run ∈ system.runs, ∀ selected ∈ run.remaining, selected.id ≠ id) ∧
        ∀ job ∈ system.jobs.get? (jobKey env id content), job.state ≠ .succeeded ∧
          ∀ run ∈ system.runs, run.key = job.key → id ∉ run.done
  | _ => True

instance (env : Environment) : DecidableRel (Undisturbed env) := fun system action =>
  match action with
  | .update id _ _ =>
      inferInstanceAs (Decidable (∀ record ∈ system.records.get? id, _ → (_ ∧ _)))
  | .create .. | .enqueueBackfill _ | .start _ | .analyse .. | .commitBatch _ | .succeed _
  | .endAttempt _ | .setState .. => inferInstanceAs (Decidable True)

end NaturalMold.MemoryIndex

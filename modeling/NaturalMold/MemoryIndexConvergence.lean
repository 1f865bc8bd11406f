import NaturalMold.MemoryIndex

/-! # Convergence of the memory index -/

namespace NaturalMold.MemoryIndex

open Conversations (Uuid)
open Jobs (JobState isFinished written written_self written_of_ne)
open KeyedTables StepRuns

section Writes

variable {env : Environment} {records : List MemoryRecord} {selected changed row : MemoryRecord}

/-- A memory is left as it was read, or gets the terms of Nori. -/
theorem mem_zip_retokenize {answered : ℕ}
    (member : (selected, changed) ∈ records.zip (retokenize env answered records)) :
    changed = selected ∨
      (changed = setTerms env .nori selected ∧ selected.searchTokensAnalyzer ≠ .nori) := by
  induction records generalizing answered with
  | nil => cases member
  | cons record records ih =>
      unfold retokenize at member
      split at member
      case isTrue =>
          rcases List.mem_cons.mp member with same | later
          · obtain ⟨rfl, rfl⟩ := Prod.mk.inj same
            exact Or.inl rfl
          · exact ih later
      case isFalse other =>
      cases answered with
      | zero =>
          rcases List.mem_cons.mp member with same | later
          · obtain ⟨rfl, rfl⟩ := Prod.mk.inj same
            exact Or.inl rfl
          · exact ih later
      | succ answered =>
          rcases List.mem_cons.mp member with same | later
          · obtain ⟨rfl, rfl⟩ := Prod.mk.inj same
            exact Or.inr ⟨rfl, other⟩
          · exact ih later

/-- The row still has the text that was read; its terms are those that were read, or those of
Nori. -/
def Follows (row selected : MemoryRecord) : Prop :=
  row.content = selected.content ∧
    (row.searchTokensAnalyzer = .nori ∨
      (row.searchTokensAnalyzer = selected.searchTokensAnalyzer ∧
        row.searchTokens = selected.searchTokens))

def HasTerms (env : Environment) (row : MemoryRecord) : Prop :=
  row.searchTokens = env.terms row.searchTokensAnalyzer row.content

theorem writeTerms_cases {changes : List (MemoryRecord × MemoryRecord)}
    (changed : ∀ change ∈ changes, change.2 = change.1 ∨
      (change.2 = setTerms env .nori change.1 ∧ change.1.searchTokensAnalyzer ≠ .nori))
    (follows : ∀ change ∈ changes, change.1.id = row.id → Follows row change.1)
    (hasTerms : HasTerms env row) :
    writeTerms changes row = row ∨
      (writeTerms changes row =
        { row with
          searchTokens := env.terms .nori row.content
          searchTokensAnalyzer := .nori }) := by
  unfold writeTerms
  split
  case h_1 => exact Or.inl rfl
  case h_2 first second found =>
  have member := List.mem_of_find?_eq_some found
  have same : first.id = row.id := by simpa using List.find?_some found
  obtain ⟨sameContent, terms⟩ := follows _ member same
  rcases changed _ member with unchanged | ⟨moved, otherAnalyzer⟩
  · dsimp only at unchanged
    rw [unchanged, written_self, written_self]
    exact Or.inl rfl
  · dsimp only at moved otherAnalyzer sameContent terms
    right
    rw [moved, setTerms, written_of_ne _ fun equal => otherAnalyzer equal.symm, sameContent]
    congr 1
    by_cases sameTerms : env.terms .nori first.content = first.searchTokens
    · rw [written, if_pos sameTerms]
      rcases terms with isNori | ⟨_, kept⟩
      · unfold HasTerms at hasTerms
        rw [hasTerms, isNori, sameContent]
      · rw [kept, sameTerms]
    · rw [written_of_ne _ sameTerms]

theorem writeTerms_keeps {changes : List (MemoryRecord × MemoryRecord)}
    (changed : ∀ change ∈ changes, change.2 = change.1 ∨
      (change.2 = setTerms env .nori change.1 ∧ change.1.searchTokensAnalyzer ≠ .nori))
    (follows : ∀ change ∈ changes, change.1.id = row.id → Follows row change.1)
    (hasTerms : HasTerms env row) :
    (writeTerms changes row).status = row.status ∧
      (writeTerms changes row).content = row.content ∧ HasTerms env (writeTerms changes row) ∧
        ∀ selected, Follows row selected → Follows (writeTerms changes row) selected := by
  rcases writeTerms_cases changed follows hasTerms with same | moved
  · rw [same]
    exact ⟨rfl, rfl, hasTerms, fun _ => id⟩
  · rw [moved]
    exact ⟨rfl, rfl, rfl, fun _ kept => ⟨kept.1, Or.inl rfl⟩⟩

end Writes

section Vectors

variable {env : Environment} {current : List MemoryEmbedding}
  {embeddings after : Table MemoryEmbedding.recordId} {record : MemoryRecord} {id : Uuid}
  {content : String}

/-- A vector of another memory, or of the same text, stays. -/
theorem embedRecord_keeps (embedded : embedRecord env current embeddings record = some after)
    (hasVector : HasVector env embeddings id content)
    (agrees : record.id = id → record.content = content) : HasVector env after id content := by
  obtain ⟨embedding, found, sameHash⟩ := hasVector
  unfold embedRecord at embedded
  dsimp only at embedded
  split at embedded
  · rw [HasVector, Table.get?_insert? embedded]
    split
    · rename_i same
      exact ⟨_, rfl, by rw [agrees same]⟩
    · exact ⟨embedding, found, sameHash⟩
  · split at embedded
    · obtain rfl := Option.some.inj embedded
      exact ⟨embedding, found, sameHash⟩
    · rename_i stale
      split at embedded
      · cases embedded
      · rename_i row present
        obtain rfl := Option.some.inj embedded
        have sameId := (Table.get?_eq_some_iff.mp present).2
        rw [HasVector, Table.get?_save _ found]
        split
        · rename_i same
          refine ⟨_, rfl, ?_⟩
          dsimp only
          rw [written_of_ne _ fun equal => stale equal.symm, agrees (sameId.symm.trans same)]
        · exact ⟨embedding, rfl, sameHash⟩

/-- The memory has a vector, unless one was found that is not there any more. -/
theorem embedRecord_hasVector (embedded : embedRecord env current embeddings record = some after)
    (loaded : ∀ embedding ∈ current.find? fun embedding => embedding.recordId = record.id,
      embedding.textHash = env.textHash record.content →
        HasVector env embeddings record.id record.content) :
    HasVector env after record.id record.content := by
  unfold embedRecord at embedded
  dsimp only at embedded
  split at embedded
  · rw [HasVector, Table.get?_insert? embedded, if_pos rfl]
    exact ⟨_, rfl, rfl⟩
  · rename_i selected found
    split at embedded
    · rename_i same
      obtain rfl := Option.some.inj embedded
      exact loaded selected found same
    · rename_i stale
      split at embedded
      · cases embedded
      · rename_i row present
        obtain rfl := Option.some.inj embedded
        have sameId := (Table.get?_eq_some_iff.mp present).2
        rw [HasVector, Table.get?_save _ present, if_pos sameId]
        refine ⟨_, rfl, ?_⟩
        dsimp only
        rw [written_of_ne _ fun equal => stale equal.symm]

variable {records : List MemoryRecord}

theorem embedRecords_keep (embedded : records.foldlM (embedRecord env current) embeddings =
      some after) (hasVector : HasVector env embeddings id content)
    (agrees : ∀ record ∈ records, record.id = id → record.content = content) :
    HasVector env after id content := by
  induction records generalizing embeddings with
  | nil =>
      obtain rfl := Option.some.inj embedded
      exact hasVector
  | cons record records ih =>
      rw [List.foldlM_cons] at embedded
      obtain ⟨middle, first, rest⟩ := Option.bind_eq_some_iff.mp embedded
      apply ih rest
      · exact embedRecord_keeps first hasVector (agrees record List.mem_cons_self)
      · exact fun other member => agrees other (List.mem_cons_of_mem _ member)

/-- After a batch each of its memories has a vector of the text that was read. -/
theorem embedRecords_hasVector (embedded : records.foldlM (embedRecord env current) embeddings =
      some after)
    (agree : ∀ first ∈ records, ∀ second ∈ records, first.id = second.id →
      first.content = second.content)
    (loaded : ∀ record ∈ records,
      ∀ embedding ∈ current.find? fun embedding => embedding.recordId = record.id,
        embedding.textHash = env.textHash record.content →
          HasVector env embeddings record.id record.content)
    (member : record ∈ records) : HasVector env after record.id record.content := by
  induction records generalizing embeddings with
  | nil => cases member
  | cons first records ih =>
      rw [List.foldlM_cons] at embedded
      obtain ⟨middle, head, rest⟩ := Option.bind_eq_some_iff.mp embedded
      rcases List.mem_cons.mp member with rfl | later
      · apply embedRecords_keep rest
          (embedRecord_hasVector head (loaded record List.mem_cons_self))
        intro other otherMember same
        exact agree other (List.mem_cons_of_mem _ otherMember) record List.mem_cons_self same
      · refine ih rest ?_ ?_ later
        · intro one oneMember other otherMember
          exact agree one (List.mem_cons_of_mem _ oneMember) other
            (List.mem_cons_of_mem _ otherMember)
        · intro other otherMember embedding found same
          apply embedRecord_keeps head
            (loaded other (List.mem_cons_of_mem _ otherMember) embedding found same)
          intro sameId
          exact agree first List.mem_cons_self other (List.mem_cons_of_mem _ otherMember) sameId

end Vectors

/-- What is known while texts change undisturbed. -/
structure Tracked (env : Environment) (system : System) : Prop where
  active : ∀ row ∈ system.records.rows, row.status = .active
  terms : ∀ row ∈ system.records.rows, HasTerms env row
  jobs : ∀ job ∈ system.jobs.rows, ∀ id digest, job.key = .record id digest →
    job.payload = .recordIds [id] ∧ ∃ row ∈ system.records.rows, row.id = id
  runs : ∀ run ∈ system.runs, ∃ job ∈ system.jobs.rows, job.key = run.key
  read : ∀ run ∈ system.runs, ∀ id digest, run.key = .record id digest →
    id ∈ run.done ∨ ∃ selected ∈ run.remaining, selected.id = id
  follows : ∀ run ∈ system.runs, ∀ selected ∈ run.remaining,
    ∃ row ∈ system.records.rows, row.id = selected.id ∧ Follows row selected
  loaded : ∀ run ∈ system.runs, ∀ analysed ∈ run.analysed, ∀ selected ∈ run.batch,
    ∀ embedding ∈ analysed.2.find? fun embedding => embedding.recordId = selected.id,
      embedding.textHash = env.textHash selected.content →
        HasVector env system.embeddings selected.id selected.content
  covered : ∀ row ∈ system.records.rows, HasVector env system.embeddings row.id row.content ∨
    ∃ job ∈ system.jobs.rows, job.state ≠ .succeeded ∧
      (∃ digest, job.key = .record row.id digest) ∧
      ∀ run ∈ system.runs, run.key = job.key → row.id ∉ run.done

theorem tracked_initial (env : Environment) : Tracked env {} where
  active := fun _ member => absurd member List.not_mem_nil
  terms := fun _ member => absurd member List.not_mem_nil
  jobs := fun _ member => absurd member List.not_mem_nil
  runs := fun _ member => absurd member List.not_mem_nil
  read := fun _ member => absurd member List.not_mem_nil
  follows := fun _ member => absurd member List.not_mem_nil
  loaded := fun _ member => absurd member List.not_mem_nil
  covered := fun _ member => absurd member List.not_mem_nil

namespace Tracked

variable {env : Environment} {system : System}

theorem converged (tracked : Tracked env system)
    (succeeded : ∀ job ∈ system.jobs.rows, job.state = .succeeded) : Converged env system where
  vector := by
    intro row member _
    rcases tracked.covered row member with hasVector | ⟨job, listed, unfinished, _⟩
    · exact hasVector
    · exact absurd (succeeded job listed) unfinished
  terms := fun row member _ => tracked.terms row member

/-- Attempts that have ended. -/
theorem dropRuns (tracked : Tracked env system) {runs : List IndexRun}
    (kept : ∀ run ∈ runs, run ∈ system.runs) : Tracked env { system with runs := runs } where
  active := tracked.active
  terms := tracked.terms
  jobs := tracked.jobs
  runs := fun run member => tracked.runs run (kept run member)
  read := fun run member => tracked.read run (kept run member)
  follows := fun run member => tracked.follows run (kept run member)
  loaded := fun run member => tracked.loaded run (kept run member)
  covered := by
    intro row member
    rcases tracked.covered row member with hasVector | ⟨job, listed, unfinished, ofRow, unwritten⟩
    · exact Or.inl hasVector
    · exact Or.inr ⟨job, listed, unfinished, ofRow,
        fun run runMember => unwritten run (kept run runMember)⟩

/-- An attempt reads the memories as they are. -/
theorem addRun (tracked : Tracked env system) {job : IndexJob} (listed : job ∈ system.jobs.rows) :
    Tracked env
      { system with
        runs := system.runs ++
          [{ key := job.key, remaining := system.selectRecords job.payload }] } where
  active := tracked.active
  terms := tracked.terms
  jobs := tracked.jobs
  runs := by
    intro run member
    rcases List.mem_append.mp member with old | new
    · exact tracked.runs run old
    · obtain rfl := List.mem_singleton.mp new
      exact ⟨job, listed, rfl⟩
  read := by
    intro run member id digest ofRecord
    rcases List.mem_append.mp member with old | new
    · exact tracked.read run old id digest ofRecord
    · obtain rfl := List.mem_singleton.mp new
      obtain ⟨payload, row, rowMember, sameId⟩ := tracked.jobs job listed id digest ofRecord
      refine Or.inr ⟨row, List.mem_filter.mpr ⟨rowMember, ?_⟩, sameId⟩
      rw [tracked.active row rowMember, payload, sameId]
      simp [Payload.reads]
  follows := by
    intro run member selected selectedMember
    rcases List.mem_append.mp member with old | new
    · exact tracked.follows run old selected selectedMember
    · obtain rfl := List.mem_singleton.mp new
      exact ⟨selected, (List.mem_filter.mp selectedMember).1, rfl, rfl, Or.inr ⟨rfl, rfl⟩⟩
  loaded := by
    intro run member analysed isAnalysed
    rcases List.mem_append.mp member with old | new
    · exact tracked.loaded run old analysed isAnalysed
    · obtain rfl := List.mem_singleton.mp new
      cases isAnalysed
  covered := by
    intro row member
    rcases tracked.covered row member with hasVector | ⟨other, otherListed, unfinished, ofRow,
      unwritten⟩
    · exact Or.inl hasVector
    · refine Or.inr ⟨other, otherListed, unfinished, ofRow, ?_⟩
      intro run runMember sameKey
      rcases List.mem_append.mp runMember with old | new
      · exact unwritten run old sameKey
      · obtain rfl := List.mem_singleton.mp new
        exact List.not_mem_nil

/-- A batch that is analysed finds the vectors as they are. -/
theorem analyse (tracked : Tracked env system) {index : ℕ} {run : IndexRun}
    (found : system.runs[index]? = some run) (answered : ℕ) {current : List MemoryEmbedding}
    (stored : ∀ embedding ∈ current, embedding ∈ system.embeddings.rows) :
    Tracked env
      { system with
        runs := system.runs.set index { run with analysed := some (answered, current) } } := by
  have member := List.mem_of_getElem? found
  have same {other : IndexRun} (otherMember : other ∈
      system.runs.set index { run with analysed := some (answered, current) }) :
      other ∈ system.runs ∨ other = { run with analysed := some (answered, current) } :=
    List.mem_or_eq_of_mem_set otherMember
  constructor
  case active => exact tracked.active
  case terms => exact tracked.terms
  case jobs => exact tracked.jobs
  case runs =>
      intro other otherMember
      rcases same otherMember with old | rfl
      · exact tracked.runs other old
      · exact tracked.runs run member
  case read =>
      intro other otherMember
      rcases same otherMember with old | rfl
      · exact tracked.read other old
      · exact tracked.read run member
  case follows =>
      intro other otherMember
      rcases same otherMember with old | rfl
      · exact tracked.follows other old
      · exact tracked.follows run member
  case loaded =>
      intro other otherMember analysed isAnalysed selected selectedMember embedding loaded sameHash
      rcases same otherMember with old | rfl
      · exact tracked.loaded other old analysed isAnalysed selected selectedMember embedding
          loaded sameHash
      · obtain rfl := Option.some.inj isAnalysed
        have sameId : embedding.recordId = selected.id := by simpa using List.find?_some loaded
        refine ⟨embedding, Table.get?_eq_some_iff.mpr ⟨?_, sameId⟩, sameHash⟩
        exact stored embedding (List.mem_of_find?_eq_some loaded)
  case covered =>
  intro row rowMember
  rcases tracked.covered row rowMember with hasVector | ⟨job, listed, unfinished, ofRow,
    unwritten⟩
  · exact Or.inl hasVector
  · refine Or.inr ⟨job, listed, unfinished, ofRow, ?_⟩
    intro other otherMember sameKey
    rcases same otherMember with old | rfl
    · exact unwritten other old sameKey
    · exact unwritten run member sameKey

theorem runs_setState (key : JobKey) (state : JobState) :
    (system.setState key state).runs = system.runs := by
  unfold System.setState
  split
  · rfl
  · split <;> rfl

theorem exists_mem_setState (key : JobKey) (state : JobState) {job : IndexJob}
    (listed : job ∈ system.jobs.rows) : ∃ later ∈ (system.setState key state).jobs.rows,
      later.key = job.key ∧ later.payload = job.payload := by
  unfold System.setState
  split
  case h_1 => exact ⟨job, listed, rfl, rfl⟩
  case h_2 old found =>
  split
  case isTrue => exact ⟨job, listed, rfl, rfl⟩
  case isFalse =>
  have oldListed := (Table.get?_eq_some_iff.mp found).1
  by_cases same : job.key = old.key
  · obtain rfl := system.jobs.eq_of_key_eq listed oldListed same
    exact ⟨_, Table.mem_save.mpr (Or.inl ⟨rfl, job, listed, rfl⟩), rfl, rfl⟩
  · exact ⟨job, Table.mem_save.mpr (Or.inr ⟨listed, same⟩), rfl, rfl⟩

/-- A job that has not succeeded stays one, unless success is written. -/
theorem setState (tracked : Tracked env system) {key : JobKey} {state : JobState}
    (done : state = .succeeded → ∀ row ∈ system.records.rows, ∀ digest,
      key = .record row.id digest →
        (∀ run ∈ system.runs, run.key = key → row.id ∉ run.done) →
          HasVector env system.embeddings row.id row.content) :
    Tracked env (system.setState key state) := by
  unfold System.setState
  split
  case h_1 => exact tracked
  case h_2 job found =>
  obtain ⟨listed, sameKey⟩ := Table.get?_eq_some_iff.mp found
  split
  case isTrue => exact tracked
  case isFalse =>
  have stays {other : IndexJob} (otherListed : other ∈ system.jobs.rows) :
      (other = job ∧ { job with state := state } ∈
          (system.jobs.save { job with state := state }).rows) ∨
        other ∈ (system.jobs.save { job with state := state }).rows := by
    by_cases same : other.key = job.key
    · exact Or.inl ⟨system.jobs.eq_of_key_eq otherListed listed same,
        Table.mem_save.mpr (Or.inl ⟨rfl, job, listed, rfl⟩)⟩
    · exact Or.inr (Table.mem_save.mpr (Or.inr ⟨otherListed, same⟩))
  refine { tracked with jobs := ?_, runs := ?_, covered := ?_ }
  · intro other otherMember
    rcases Table.mem_save.mp otherMember with ⟨rfl, _⟩ | ⟨old, _⟩
    · exact tracked.jobs job listed
    · exact tracked.jobs other old
  · intro run member
    obtain ⟨other, otherListed, ofRun⟩ := tracked.runs run member
    rcases stays otherListed with ⟨rfl, written⟩ | kept
    · exact ⟨_, written, ofRun⟩
    · exact ⟨other, kept, ofRun⟩
  · intro row rowMember
    rcases tracked.covered row rowMember with hasVector | ⟨other, otherListed, unfinished,
      ofRow, unwritten⟩
    · exact Or.inl hasVector
    · rcases stays otherListed with ⟨rfl, written⟩ | kept
      · by_cases success : state = .succeeded
        · obtain ⟨digest, keyOfRow⟩ := ofRow
          rw [sameKey] at keyOfRow unwritten
          exact Or.inl (done success row rowMember digest keyOfRow unwritten)
        · exact Or.inr ⟨_, written, success, ofRow, unwritten⟩
      · exact Or.inr ⟨other, kept, unfinished, ofRow, unwritten⟩

theorem commitBatch (tracked : Tracked env system) {index : ℕ} {run : IndexRun}
    (found : system.runs[index]? = some run) : Tracked env (system.commitBatch env index run) := by
  unfold System.commitBatch
  split
  case h_1 => exact tracked
  case h_2 answered current analysed =>
  split
  case h_1 => exact tracked
  case h_2 embeddings embedded =>
  have member := List.mem_of_getElem? found
  have inBatch {selected : MemoryRecord} (listed : selected ∈ run.batch) :
      selected ∈ run.remaining := List.mem_of_mem_take listed
  -- a memory of the batch and the row under its id have the same text
  have agrees {row : MemoryRecord} (rowMember : row ∈ system.records.rows) :
      ∀ selected ∈ run.batch, selected.id = row.id → Follows row selected := by
    intro selected listed sameId
    obtain ⟨other, otherMember, otherId, follows⟩ :=
      tracked.follows run member selected (inBatch listed)
    rw [system.records.eq_of_key_eq rowMember otherMember (sameId.symm.trans otherId.symm)]
    exact follows
  have keeps {row : MemoryRecord} (rowMember : row ∈ system.records.rows)
      (hasVector : HasVector env system.embeddings row.id row.content) :
      HasVector env embeddings row.id row.content :=
    embedRecords_keep embedded hasVector fun selected listed sameId =>
      (agrees rowMember selected listed sameId).1.symm
  have indexed {row : MemoryRecord} (rowMember : row ∈ system.records.rows)
      {selected : MemoryRecord} (listed : selected ∈ run.batch) (sameId : selected.id = row.id) :
      HasVector env embeddings row.id row.content := by
    rw [← sameId, (agrees rowMember selected listed sameId).1]
    refine embedRecords_hasVector embedded ?_ ?_ listed
    · intro first firstListed second secondListed same
      obtain ⟨other, otherMember, otherId, follows⟩ :=
        tracked.follows run member first (inBatch firstListed)
      rw [← follows.1, ← (agrees otherMember second secondListed (same.symm.trans otherId.symm)).1]
    · exact tracked.loaded run member (answered, current) analysed
  have written {row : MemoryRecord} (rowMember : row ∈ system.records.rows) :=
    @writeTerms_keeps env row (run.batch.zip (retokenize env answered run.batch))
      (fun _ listed => mem_zip_retokenize listed)
      (fun change listed => agrees rowMember change.1 (List.of_mem_zip listed).1)
      (tracked.terms row rowMember)
  have rows {row : MemoryRecord} : row ∈ (system.records.updateWhere (fun _ => true)
        (writeTerms (run.batch.zip (retokenize env answered run.batch)))
        (writeTerms_id _)).rows ↔
      ∃ old ∈ system.records.rows,
        row = writeTerms (run.batch.zip (retokenize env answered run.batch)) old := by
    rw [Table.mem_updateWhere]
    simp
  have same {other : IndexRun} (otherMember : other ∈ system.runs.set index
      { run with
        done := run.done ++ run.batch.map MemoryRecord.id
        remaining := run.remaining.drop batchSize
        analysed := none }) := List.mem_or_eq_of_mem_set otherMember
  constructor
  case active =>
      intro row rowMember
      obtain ⟨old, oldMember, rfl⟩ := rows.mp rowMember
      rw [(written oldMember).1]
      exact tracked.active old oldMember
  case terms =>
      intro row rowMember
      obtain ⟨old, oldMember, rfl⟩ := rows.mp rowMember
      exact (written oldMember).2.2.1
  case jobs =>
      intro job listed id digest ofRecord
      obtain ⟨payload, row, rowMember, sameId⟩ := tracked.jobs job listed id digest ofRecord
      exact ⟨payload, _, rows.mpr ⟨row, rowMember, rfl⟩, (writeTerms_id _ row).trans sameId⟩
  case runs =>
      intro other otherMember
      rcases same otherMember with old | rfl
      · exact tracked.runs other old
      · exact tracked.runs run member
  case read =>
      intro other otherMember id digest ofRecord
      rcases same otherMember with old | rfl
      · exact tracked.read other old id digest ofRecord
      · rcases tracked.read run member id digest ofRecord with done | ⟨selected, listed, sameId⟩
        · exact Or.inl (List.mem_append_left _ done)
        · rw [← List.take_append_drop batchSize run.remaining, List.mem_append] at listed
          rcases listed with now | later
          · exact Or.inl (List.mem_append_right _ (List.mem_map.mpr ⟨selected, now, sameId⟩))
          · exact Or.inr ⟨selected, later, sameId⟩
  case follows =>
      have kept {other : IndexRun} (otherMember : other ∈ system.runs) {selected : MemoryRecord}
          (listed : selected ∈ other.remaining) :
          ∃ row ∈ (system.records.updateWhere (fun _ => true)
              (writeTerms (run.batch.zip (retokenize env answered run.batch)))
              (writeTerms_id _)).rows, row.id = selected.id ∧ Follows row selected := by
        obtain ⟨row, rowMember, sameId, follows⟩ :=
          tracked.follows other otherMember selected listed
        exact ⟨_, rows.mpr ⟨row, rowMember, rfl⟩, (writeTerms_id _ row).trans sameId,
          (written rowMember).2.2.2 selected follows⟩
      intro other otherMember selected listed
      rcases same otherMember with old | rfl
      · exact kept old listed
      · exact kept member (List.mem_of_mem_drop listed)
  case loaded =>
      intro other otherMember analysed isAnalysed selected listed embedding loaded sameHash
      rcases same otherMember with old | rfl
      · obtain ⟨row, rowMember, sameId, follows⟩ :=
          tracked.follows other old selected (List.mem_of_mem_take listed)
        have hasVector :=
          tracked.loaded other old analysed isAnalysed selected listed embedding loaded sameHash
        rw [← sameId, ← follows.1] at hasVector ⊢
        exact keeps rowMember hasVector
      · cases isAnalysed
  case covered =>
  intro row rowMember
  obtain ⟨old, oldMember, rfl⟩ := rows.mp rowMember
  rw [writeTerms_id, (written oldMember).2.1]
  by_cases now : old.id ∈ run.batch.map MemoryRecord.id
  · obtain ⟨selected, listed, sameId⟩ := List.mem_map.mp now
    exact Or.inl (indexed oldMember listed sameId)
  · rcases tracked.covered old oldMember with hasVector | ⟨job, listed, unfinished, ofRow,
      unwritten⟩
    · exact Or.inl (keeps oldMember hasVector)
    · refine Or.inr ⟨job, listed, unfinished, ofRow, ?_⟩
      intro other otherMember sameKey
      rcases same otherMember with before | rfl
      · exact unwritten other before sameKey
      · rw [List.mem_append]
        rintro (done | batch)
        · exact unwritten run member sameKey done
        · exact now batch

theorem enqueue_cases {key : JobKey} {payload : Payload} {jobs : Table IndexJob.key} :
    (∃ job, jobs.get? key = some job ∧ enqueue key payload jobs = jobs) ∨
      (jobs.get? key = none ∧
        (enqueue key payload jobs).rows = jobs.rows ++ [{ key, payload, state := .queued }]) := by
  unfold enqueue
  split
  case h_1 job found => exact Or.inl ⟨job, found, rfl⟩
  case h_2 absent =>
  right
  refine ⟨absent, ?_⟩
  cases inserted : jobs.insert? { key, payload, state := .queued } with
  | none =>
      obtain ⟨old, member, same⟩ := Table.insert?_eq_none_iff.mp inserted
      exact absurd same (Table.get?_eq_none_iff.mp absent old member)
  | some after => exact (Table.insert?_eq_some inserted).1

theorem mem_enqueue {key : JobKey} {payload : Payload} {jobs : Table IndexJob.key}
    {job : IndexJob} (listed : job ∈ jobs.rows) : job ∈ (enqueue key payload jobs).rows := by
  rcases @enqueue_cases key payload jobs with ⟨_, _, same⟩ | ⟨_, rows⟩
  · rwa [same]
  · rw [rows]
    exact List.mem_append_left _ listed

/-- A new text, with its terms and a job that has not written it. -/
theorem save (tracked : Tracked env system) {records : Table MemoryRecord.id}
    {saved : MemoryRecord} (member : saved ∈ records.rows)
    (others : ∀ row ∈ records.rows, row = saved ∨ row ∈ system.records.rows)
    (kept : ∀ row ∈ system.records.rows, row.id ≠ saved.id → row ∈ records.rows)
    (active : saved.status = .active) (hasTerms : HasTerms env saved)
    (unread : ∀ run ∈ system.runs, ∀ selected ∈ run.remaining, selected.id ≠ saved.id)
    (pending : ∀ job ∈ system.jobs.get? (jobKey env saved.id saved.content),
      job.state ≠ .succeeded ∧ ∀ run ∈ system.runs, run.key = job.key → saved.id ∉ run.done) :
    Tracked env
      { system with records := records, jobs := onSaved env saved system.jobs } := by
  have stays {id : Uuid} (present : ∃ row ∈ system.records.rows, row.id = id) :
      ∃ row ∈ records.rows, row.id = id := by
    obtain ⟨row, rowMember, rfl⟩ := present
    by_cases same : row.id = saved.id
    · exact ⟨saved, member, same.symm⟩
    · exact ⟨row, kept row rowMember same, rfl⟩
  constructor
  case active =>
      intro row rowMember
      rcases others row rowMember with rfl | old
      · exact active
      · exact tracked.active row old
  case terms =>
      intro row rowMember
      rcases others row rowMember with rfl | old
      · exact hasTerms
      · exact tracked.terms row old
  case jobs =>
      intro job listed id digest ofRecord
      have old (oldListed : job ∈ system.jobs.rows) := tracked.jobs job oldListed id digest ofRecord
      rcases enqueue_cases with ⟨_, _, same⟩ | ⟨_, rows⟩
      · dsimp only at listed
        rw [onSaved, same] at listed
        exact ⟨(old listed).1, stays (old listed).2⟩
      · dsimp only at listed
        rw [onSaved, rows, List.mem_append, List.mem_singleton] at listed
        rcases listed with before | rfl
        · exact ⟨(old before).1, stays (old before).2⟩
        · obtain ⟨rfl, _⟩ := JobKey.record.inj ofRecord
          exact ⟨rfl, saved, member, rfl⟩
  case runs =>
      intro run runMember
      obtain ⟨job, listed, sameKey⟩ := tracked.runs run runMember
      exact ⟨job, mem_enqueue listed, sameKey⟩
  case read => exact tracked.read
  case follows =>
      intro run runMember selected listed
      obtain ⟨row, rowMember, sameId, follows⟩ := tracked.follows run runMember selected listed
      refine ⟨row, kept row rowMember ?_, sameId, follows⟩
      rw [sameId]
      exact unread run runMember selected listed
  case loaded => exact tracked.loaded
  case covered =>
  intro row rowMember
  rcases others row rowMember with rfl | old
  · right
    rcases @enqueue_cases (jobKey env row.id row.content) (.recordIds [row.id]) system.jobs
      with ⟨job, found, _⟩ | ⟨absent, rows⟩
    · obtain ⟨listed, sameKey⟩ := Table.get?_eq_some_iff.mp found
      obtain ⟨unfinished, unwritten⟩ := pending job found
      exact ⟨job, mem_enqueue listed, unfinished, ⟨_, sameKey⟩, unwritten⟩
    · refine ⟨_, by rw [onSaved, rows]; exact List.mem_append_right _ List.mem_cons_self,
        by simp, ⟨_, rfl⟩, ?_⟩
      intro run runMember sameKey
      obtain ⟨job, listed, ofRun⟩ := tracked.runs run runMember
      exact absurd (ofRun.trans sameKey) (Table.get?_eq_none_iff.mp absent job listed)
  · rcases tracked.covered row old with hasVector | ⟨job, listed, unfinished, ofRow, unwritten⟩
    · exact Or.inl hasVector
    · exact Or.inr ⟨job, mem_enqueue listed, unfinished, ofRow, unwritten⟩

theorem step (tracked : Tracked env system) (action : Action)
    (undisturbed : Undisturbed env system action) : Tracked env (system.step env action) := by
  cases action with
  | create id content analyzer =>
      simp only [System.step, createMemoryRecord]
      split
      · exact tracked
      · rename_i records inserted
        obtain ⟨rows, unused⟩ := Table.insert?_eq_some inserted
        apply tracked.save
        · rw [rows]
          exact List.mem_append_right _ List.mem_cons_self
        · intro row rowMember
          rw [rows, List.mem_append, List.mem_singleton] at rowMember
          exact rowMember.symm
        · intro row rowMember _
          rw [rows]
          exact List.mem_append_left _ rowMember
        · rfl
        · rfl
        · intro run runMember selected listed
          obtain ⟨row, rowMember, sameId, _⟩ := tracked.follows run runMember selected listed
          rw [← sameId]
          exact unused row rowMember
        · intro job found
          obtain ⟨listed, sameKey⟩ := Table.get?_eq_some_iff.mp found
          obtain ⟨_, row, rowMember, sameId⟩ := tracked.jobs job listed _ _ sameKey
          exact absurd sameId (unused row rowMember)
  | update id content analyzer =>
      simp only [System.step, updateMemoryRecord]
      split
      · exact tracked
      · rename_i record found
        obtain ⟨member, sameId⟩ := Table.get?_eq_some_iff.mp found
        split
        case isFalse => exact tracked
        case isTrue changes =>
        obtain ⟨unread, pending⟩ := undisturbed record found changes.2
        apply tracked.save
        · exact Table.mem_save.mpr (Or.inl ⟨rfl, record, member, rfl⟩)
        · intro row rowMember
          rcases Table.mem_save.mp rowMember with ⟨same, _⟩ | ⟨old, _⟩
          · exact Or.inl same
          · exact Or.inr old
        · exact fun row rowMember different =>
            Table.mem_save.mpr (Or.inr ⟨rowMember, different⟩)
        · exact changes.1
        · rfl
        · intro run runMember selected listed same
          exact unread run runMember selected listed (same.trans sameId)
        · change ∀ job ∈ system.jobs.get? (jobKey env record.id content), _ ∧
            ∀ run ∈ system.runs, run.key = job.key → record.id ∉ run.done
          rw [sameId]
          exact pending
  | enqueueBackfill generation =>
      refine { tracked with jobs := ?_, runs := ?_, covered := ?_ }
      · intro job listed id digest ofRecord
        rcases enqueue_cases with ⟨_, _, same⟩ | ⟨_, rows⟩
        · simp only [System.step] at listed
          rw [same] at listed
          exact tracked.jobs job listed id digest ofRecord
        · simp only [System.step] at listed
          rw [rows, List.mem_append, List.mem_singleton] at listed
          rcases listed with before | rfl
          · exact tracked.jobs job before id digest ofRecord
          · cases ofRecord
      · intro run runMember
        obtain ⟨job, listed, sameKey⟩ := tracked.runs run runMember
        exact ⟨job, mem_enqueue listed, sameKey⟩
      · intro row rowMember
        rcases tracked.covered row rowMember with hasVector | ⟨job, listed, rest⟩
        · exact Or.inl hasVector
        · exact Or.inr ⟨job, mem_enqueue listed, rest⟩
  | start key =>
      simp only [System.step, System.start]
      split
      · exact tracked
      · rename_i job found
        split
        · exact tracked
        · obtain ⟨listed, sameKey⟩ := Table.get?_eq_some_iff.mp found
          obtain ⟨later, laterListed, laterKey, laterPayload⟩ :=
            exists_mem_setState key .running listed
          have started : Tracked env (system.setState key .running) := tracked.setState (by simp)
          have added := started.addRun laterListed
          rwa [laterKey, laterPayload, sameKey] at added
  | analyse index answered =>
      simp only [System.step]
      split
      · exact tracked
      · rename_i run found
        split
        · exact tracked.analyse found answered fun embedding listed => (List.mem_filter.mp listed).1
        · exact tracked
  | commitBatch index =>
      simp only [System.step]
      split
      · exact tracked
      · rename_i run found
        exact tracked.commitBatch found
  | succeed index =>
      simp only [System.step]
      split
      · exact tracked
      · rename_i run found
        split
        case isFalse => exact tracked
        case isTrue finished =>
        rw [List.isEmpty_iff] at finished
        have succeeded : Tracked env (system.setState run.key .succeeded) := by
          apply tracked.setState
          intro _ row _ digest ofRow unwritten
          have runMember := List.mem_of_getElem? found
          rcases tracked.read run runMember row.id digest ofRow with done |
            ⟨selected, listed, _⟩
          · exact absurd done (unwritten run runMember rfl)
          · rw [finished] at listed
            cases listed
        apply succeeded.dropRuns
        intro other listed
        rw [runs_setState]
        exact List.mem_of_mem_eraseIdx listed
  | endAttempt index => exact tracked.dropRuns fun run => List.mem_of_mem_eraseIdx
  | setState key state =>
      simp only [System.step]
      split
      case isTrue => exact tracked
      case isFalse other => exact tracked.setState fun success => absurd success other

end Tracked

/-- In a run in which texts change undisturbed, all memories are indexed when all jobs have
succeeded. -/
theorem run_converged (env : Environment) (actions : List Action)
    (every : EveryStep (System.step env) (Undisturbed env) {} actions)
    (succeeded : ∀ job ∈ (run (System.step env) {} actions).jobs.rows, job.state = .succeeded) :
    Converged env (run (System.step env) {} actions) :=
  Tracked.converged
    (run_allowed_invariant (Tracked env)
      (fun _ action undisturbed tracked => tracked.step action undisturbed)
      (tracked_initial env) every) succeeded

/-- Each text is its own hash, its terms and its vector. -/
def plainText : Environment where
  terms := fun _ text => text
  textHash := id
  embed := id

/-- A job of the memory is run to its end. -/
def indexed (content : String) : List Action :=
  [.start (jobKey plainText 1 content), .analyse 0 0, .commitBatch 0, .succeed 0]

/-- The memory is created and then edited, and each job succeeds. -/
theorem run_converged_edited : Converged plainText
    (run (System.step plainText) {}
      ([.create 1 "tea" .suffix] ++ indexed "tea" ++ [.update 1 "coffee" .suffix] ++
        indexed "coffee")) :=
  run_converged plainText _ (by decide) (by decide)

/-- The memory is edited once more, to its first text, whose job has succeeded already. -/
def textComesBack : System :=
  run (System.step plainText) {}
    ([.create 1 "tea" .suffix] ++ indexed "tea" ++ [.update 1 "coffee" .suffix] ++
      indexed "coffee" ++ [.update 1 "tea" .suffix])

theorem textComesBack_unindexed : (∀ job ∈ textComesBack.jobs.rows, job.state = .succeeded) ∧
    ¬ Converged plainText textComesBack := by
  refine ⟨by decide, fun converged => ?_⟩
  have hasVector := converged.vector
    { id := 1, content := "tea", searchTokens := "tea", searchTokensAnalyzer := .suffix }
    (by decide) rfl
  unfold HasVector at hasVector
  revert hasVector
  decide

end NaturalMold.MemoryIndex

import Mathlib.Data.Finset.Lattice.Lemmas
import Mathlib.Logic.Relation
import NaturalMold.MemoryPurge
import NaturalMold.MergeRuns

/-! # Purged memories -/

namespace NaturalMold.MemoryPurge

open Conversations (Uuid)
open CronExpressions (Text)
open FirstOccurrences KeyedTables MemoryConsolidation Relation StepRuns
open MemoryProfiles (MemoryProfileDoc ProfileLine Cites dropSources)

/-- The first memory was merged from the second. -/
def MergedFrom (store : Store) (merged source : Uuid) : Prop :=
  ⟨merged, source⟩ ∈ store.sources

/-- The rows that a delete is asked to remove. -/
def rowsOf (store : Store) (ids : List Uuid) : List MemoryRecord :=
  store.records.rows.filter fun row => row.id ∈ ids

/-- No row names a deleted memory, no waiting proposal keeps a text taken from one, and what is
derived from one is marked. -/
structure Clean (env : Environment) (before after : Store) (rows : List MemoryRecord) : Prop where
  records : ∀ row ∈ after.records.rows, row.id ∉ rows.map MemoryRecord.id ∧
    ∀ id ∈ row.supersededById, id ∉ rows.map MemoryRecord.id
  revisions : ∀ row ∈ after.revisions, row.recordId ∉ rows.map MemoryRecord.id
  embeddings : ∀ row ∈ after.embeddings, row.recordId ∉ rows.map MemoryRecord.id
  recalls : ∀ row ∈ after.recalls, row.recordId ∉ rows.map MemoryRecord.id
  sources : ∀ link ∈ after.sources, link.recordId ∉ rows.map MemoryRecord.id ∧
    link.sourceRecordId ∉ rows.map MemoryRecord.id
  lines : ∀ doc ∈ after.docs.rows, ∀ line ∈ doc.lines, ∀ id ∈ line.sources,
    id ∉ rows.map MemoryRecord.id
  proposals : ∀ proposal ∈ after.proposals.rows, proposal.status = .pending →
    (∀ id ∈ proposal.recordId, id ∉ rows.map MemoryRecord.id) ∧
      (∀ id ∈ proposal.targetRecordId, id ∉ rows.map MemoryRecord.id) ∧
        (∀ id ∈ proposal.sourceIds, id ∉ rows.map MemoryRecord.id) ∧
          ∀ row ∈ rows, env.memoryDigest proposal.content ≠ env.memoryDigest row.content
  derived : ∀ row ∈ after.records.rows, ∀ source ∈ rows,
    TransGen (MergedFrom before) row.id source.id → .sourceDeleted ∈ row.flags

/-- One call of `write_memory`. -/
structure WriteCall where
  settings : WriteSettings
  write : MemoryWrite

def writeStep (env : Environment) (store : Store) (call : WriteCall) : Store :=
  (writeMemory env call.settings call.write store).2

def StoresAgain (env : Environment) (digest : Text) (store : Store) (call : WriteCall) : Prop :=
  call.write.origin = .userStated ∧ env.memoryDigest call.write.content = digest ∧
    ∃ id, (writeMemory env call.settings call.write store).1 = .saved id

def StaysErased (env : Environment) (store : Store) (digest : Text) : Prop :=
  ∀ calls : List WriteCall,
    EveryStep (writeStep env) (fun store call => ¬ StoresAgain env digest store call) store calls →
      ∀ call : WriteCall, call.write.origin ≠ .userStated →
        env.memoryDigest call.write.content = digest →
          writeStep env (run (writeStep env) store calls) call = run (writeStep env) store calls

/-- A delete removes every copy, and the texts stay away. -/
structure Purged (env : Environment) (store : Store) (ids : List Uuid) : Prop where
  clean : Clean env store (purgeRecords env ids true store).2 (rowsOf store ids)
  erased : ∀ row ∈ rowsOf store ids,
    StaysErased env (purgeRecords env ids true store).2 (env.memoryDigest row.content)

/-- Every waiting proposal that has a deleted memory among its sources also has one as its
record or target, or has the text of one; and what is left and was merged from a deleted memory
in several steps was merged from one directly, or is marked already. -/
structure WithinReach (env : Environment) (store : Store) (ids : List Uuid) : Prop where
  proposals : ∀ proposal ∈ store.proposals.rows, proposal.status = .pending →
    (∃ id ∈ proposal.sourceIds, id ∈ (rowsOf store ids).map MemoryRecord.id) →
      Clears env ((rowsOf store ids).map MemoryRecord.id)
        ((rowsOf store ids).map fun row => env.memoryDigest row.content) proposal
  derived : ∀ row ∈ store.records.rows, row.id ∉ (rowsOf store ids).map MemoryRecord.id →
    ∀ source ∈ rowsOf store ids, TransGen (MergedFrom store) row.id source.id →
      (∃ other ∈ rowsOf store ids, MergedFrom store row.id other.id) ∨
        .sourceDeleted ∈ row.flags

section Erased

variable {env : Environment} {store : Store} {digest : Text}

/-- What an erased text is answered with. -/
theorem writeStep_of_erased (erased : digest ∈ store.erasures) {call : WriteCall}
    (other : call.write.origin ≠ .userStated)
    (same : env.memoryDigest call.write.content = digest) : writeStep env store call = store := by
  unfold writeStep writeMemory
  split
  case h_1 => rfl
  case h_2 =>
  split
  · rfl
  · dsimp only
    rw [if_pos ⟨other, List.contains_iff_mem.mpr (same ▸ erased)⟩]

theorem storeWrite_erasures {settings : WriteSettings} {write : MemoryWrite}
    {result : WriteResult} {after : Store}
    (stored : storeWrite settings write store = some (result, after)) :
    after.erasures = store.erasures := by
  unfold storeWrite at stored
  split at stored
  case h_1 => exact (congrArg Store.erasures (Prod.mk.inj (Option.some.inj stored)).2).symm
  case h_2 =>
      split at stored
      case isFalse => cases stored
      case isTrue =>
          obtain ⟨_, _, same⟩ := Option.map_eq_some_iff.mp stored
          exact (congrArg Store.erasures (Prod.mk.inj same).2).symm
  case h_3 =>
  split at stored
  case isFalse => cases stored
  case isTrue =>
      obtain ⟨_, _, same⟩ := Option.map_eq_some_iff.mp stored
      exact (congrArg Store.erasures (Prod.mk.inj same).2).symm

theorem storeWrite_saved {settings : WriteSettings} {write : MemoryWrite} {result : WriteResult}
    {after : Store} (stated : write.origin = .userStated)
    (stored : storeWrite settings write store = some (result, after)) :
    ∃ id, result = .saved id := by
  have decided : decideRecordWrite settings write.runPath write.origin write.flags =
      .save false := by
    rw [decideRecordWrite, if_pos stated]
  unfold storeWrite at stored
  rw [decided] at stored
  dsimp only at stored
  split at stored
  case isFalse => cases stored
  case isTrue =>
      obtain ⟨_, _, same⟩ := Option.map_eq_some_iff.mp stored
      exact ⟨store.nextId, (Prod.mk.inj same).1.symm⟩

theorem writeMemory_cases (env : Environment) (store : Store) (call : WriteCall) :
    writeStep env store call = store ∨
      ∃ checked remembered result after,
        storeWrite call.settings (call.write.withCheck checked) remembered =
            some (result, after) ∧
          writeMemory env call.settings call.write store = (result, after) ∧
            remembered.erasures =
              if call.write.origin = .userStated then
                store.erasures.filter fun erased =>
                  !(erased == env.memoryDigest call.write.content)
              else store.erasures := by
  unfold writeStep writeMemory
  split
  case h_1 => exact Or.inl rfl
  case h_2 checked _ =>
  split
  case isTrue => exact Or.inl rfl
  case isFalse =>
  dsimp only
  split
  case isTrue => exact Or.inl rfl
  case isFalse =>
  split
  case h_1 => exact Or.inl rfl
  case h_2 =>
  split
  case h_1 => exact Or.inl rfl
  case h_3 => exact Or.inl rfl
  case h_2 stored _ succeeded =>
  refine Or.inr ⟨checked, _, stored.1, stored.2, succeeded, rfl, ?_⟩
  split
  · rfl
  · rfl

/-- An erased text stays erased until the person stores it. -/
theorem erased_writeStep (erased : digest ∈ store.erasures) {call : WriteCall}
    (unstored : ¬ StoresAgain env digest store call) :
    digest ∈ (writeStep env store call).erasures := by
  rcases writeMemory_cases env store call with
    same | ⟨checked, remembered, result, after, stored, written, erasures⟩
  · rw [same]
    exact erased
  · have left : (writeStep env store call).erasures = remembered.erasures := by
      rw [writeStep, written]
      exact storeWrite_erasures stored
    rw [left, erasures]
    split
    case isFalse => exact erased
    case isTrue stated =>
    rw [List.mem_filter]
    refine ⟨erased, ?_⟩
    by_contra same
    rw [Bool.not_eq_true, Bool.not_eq_false', beq_iff_eq] at same
    have statedChecked : (call.write.withCheck checked).origin = .userStated := stated
    obtain ⟨id, saved⟩ := storeWrite_saved statedChecked stored
    exact unstored ⟨stated, same.symm, id, by rw [written, saved]⟩

theorem staysErased (erased : digest ∈ store.erasures) : StaysErased env store digest := by
  intro calls every call other same
  apply writeStep_of_erased _ other same
  exact run_allowed_invariant (fun store => digest ∈ store.erasures)
    (fun _ _ unstored erased => erased_writeStep erased unstored) erased every

end Erased

section Records

variable {deleted : List Uuid} {store : Store}

def purgedRecord (deleted : List Uuid) (store : Store) (row : MemoryRecord) : MemoryRecord :=
  { row with
    flags := if row.id ∈ derivedIds deleted store then row.flags ∪ {.sourceDeleted} else row.flags
    supersededById :=
      if ∃ id ∈ row.supersededById, id ∈ deleted then none else row.supersededById }

theorem mem_purgedRecords {row : MemoryRecord} :
    row ∈ (purgedRecords deleted store).rows ↔
      ∃ old ∈ store.records.rows, old.id ∉ deleted ∧ row = purgedRecord deleted store old := by
  have changed : (purgedRecords deleted store).rows =
      (store.records.rows.map (purgedRecord deleted store)).filter fun row => row.id ∉ deleted := by
    unfold purgedRecords Table.filter Table.updateWhere
    dsimp only
    rw [List.map_map]
    congr 2
    funext old
    rw [Function.comp_apply, purgedRecord]
    by_cases derived : old.id ∈ derivedIds deleted store
    · simp only [derived, decide_true, if_true, decide_eq_true_eq]
      split
      · rfl
      · rfl
    · simp only [derived, decide_false, Bool.false_eq_true, if_false, decide_eq_true_eq]
      split
      · rfl
      · rfl
  rw [changed, List.mem_filter, List.mem_map]
  constructor
  · rintro ⟨⟨old, member, rfl⟩, left⟩
    exact ⟨old, member, of_decide_eq_true left, rfl⟩
  · rintro ⟨old, member, left, rfl⟩
    exact ⟨⟨old, member, rfl⟩, decide_eq_true left⟩

theorem not_mem_supersededById {row : MemoryRecord} {id : Uuid}
    (superseding : id ∈ (purgedRecord deleted store row).supersededById) : id ∉ deleted := by
  unfold purgedRecord at superseding
  dsimp only at superseding
  split at superseding
  case isTrue => cases superseding
  case isFalse none => exact fun member => none ⟨id, superseding, member⟩

theorem mem_derivedIds {merged : Uuid} (left : merged ∉ deleted) :
    merged ∈ derivedIds deleted store ↔
      ∃ source ∈ deleted, MergedFrom store merged source := by
  rw [derivedIds, List.mem_filter, List.mem_map]
  constructor
  · rintro ⟨⟨⟨record, source⟩, listed, rfl⟩, _⟩
    rw [List.mem_filter, decide_eq_true_eq] at listed
    exact ⟨source, listed.2, listed.1⟩
  · rintro ⟨source, member, link⟩
    refine ⟨⟨⟨merged, source⟩, ?_, rfl⟩, decide_eq_true left⟩
    rw [List.mem_filter, decide_eq_true_eq]
    exact ⟨link, member⟩

theorem sourceDeleted_mem_flags {row : MemoryRecord} (left : row.id ∉ deleted) :
    .sourceDeleted ∈ (purgedRecord deleted store row).flags ↔
      (∃ source ∈ deleted, MergedFrom store row.id source) ∨ .sourceDeleted ∈ row.flags := by
  unfold purgedRecord
  dsimp only
  rw [← mem_derivedIds left]
  split
  case isTrue derived => simp [derived]
  case isFalse apart => simp [apart]

end Records

theorem mem_cleared_pending {env : Environment} {deleted : List Uuid} {digests : List Text}
    {proposals : Table MemoryProposal.id} {proposal : MemoryProposal}
    (keeps : ∀ row, (clearProposal row).id = row.id) (pending : proposal.status = .pending) :
    proposal ∈ (proposals.updateWhere (fun row => Clears env deleted digests row)
        clearProposal keeps).rows ↔
      proposal ∈ proposals.rows ∧ ¬ Clears env deleted digests proposal := by
  rw [Table.mem_updateWhere]
  constructor
  · rintro (⟨row, _, _, rfl⟩ | ⟨member, unfound⟩)
    · unfold clearProposal at pending
      dsimp only at pending
      split at pending
      case isTrue => cases pending
      case isFalse resolved => exact absurd pending resolved
    · exact ⟨member, fun clears => unfound (decide_eq_true clears)⟩
  · rintro ⟨member, unfound⟩
    exact Or.inr ⟨member, fun clears => unfound (of_decide_eq_true clears)⟩

section Purge

variable {env : Environment} {store : Store} {ids : List Uuid}

theorem purgeRecords_snd (found : (rowsOf store ids).map MemoryRecord.id ≠ []) :
    (purgeRecords env ids true store).2 =
      { records := purgedRecords ((rowsOf store ids).map MemoryRecord.id) store
        proposals := store.proposals.updateWhere
          (fun row => Clears env ((rowsOf store ids).map MemoryRecord.id)
            ((rowsOf store ids).map fun row => env.memoryDigest row.content) row)
          clearProposal fun _ => rfl
        sources := store.sources.filter fun link =>
          ¬ (link.recordId ∈ (rowsOf store ids).map MemoryRecord.id ∨
            link.sourceRecordId ∈ (rowsOf store ids).map MemoryRecord.id)
        revisions := store.revisions.filter fun row =>
          row.recordId ∉ (rowsOf store ids).map MemoryRecord.id
        embeddings := store.embeddings.filter fun row =>
          row.recordId ∉ (rowsOf store ids).map MemoryRecord.id
        recalls := store.recalls.filter fun row =>
          row.recordId ∉ (rowsOf store ids).map MemoryRecord.id
        docs := dropSources ((rowsOf store ids).map MemoryRecord.id) store.docs
        erasures := store.erasures ++
          distinctOn id ((rowsOf store ids).map fun row => env.memoryDigest row.content)
        nextId := store.nextId } := by
  unfold purgeRecords
  exact congrArg Prod.snd (if_neg found)

/-- The digests of what is deleted are kept. -/
theorem mem_erasures {row : MemoryRecord} (member : row ∈ rowsOf store ids) :
    env.memoryDigest row.content ∈ (purgeRecords env ids true store).2.erasures := by
  have found : (rowsOf store ids).map MemoryRecord.id ≠ [] :=
    List.ne_nil_of_mem (List.mem_map_of_mem member)
  rw [purgeRecords_snd found]
  apply List.mem_append_right
  have listed : env.memoryDigest row.content ∈
      (rowsOf store ids).map fun row => env.memoryDigest row.content :=
    List.mem_map.mpr ⟨row, member, rfl⟩
  rwa [← List.map_id ((rowsOf store ids).map _), ← mem_map_distinctOn, List.map_id] at listed

theorem not_cites_of_dropSources {deleted : List Uuid} {docs : Table MemoryProfileDoc.key}
    {doc : MemoryProfileDoc} (member : doc ∈ (dropSources deleted docs).rows) {line : ProfileLine}
    (listed : line ∈ doc.lines) : ¬ Cites deleted line := by
  rcases Table.mem_updateWhere.mp member with ⟨old, _, _, rfl⟩ | ⟨_, untouched⟩
  · exact of_decide_eq_true (List.mem_filter.mp listed).2
  · intro cites
    exact untouched (decide_eq_true ⟨line, listed, cites⟩)

theorem WithinReach.of_clean (found : (rowsOf store ids).map MemoryRecord.id ≠ [])
    (clean : Clean env store (purgeRecords env ids true store).2 (rowsOf store ids)) :
    WithinReach env store ids := by
  rw [purgeRecords_snd found] at clean
  constructor
  case proposals =>
      rintro proposal member pending ⟨id, source, isDeleted⟩
      by_contra unfound
      have stays := (mem_cleared_pending (fun _ => rfl) pending).mpr ⟨member, unfound⟩
      exact (clean.proposals proposal stays pending).2.2.1 id source isDeleted
  case derived =>
  intro row member left source sourceMember chain
  have stays := mem_purgedRecords.mpr ⟨row, member, left, rfl⟩
  have marked := clean.derived (purgedRecord _ store row) stays source sourceMember chain
  rcases (sourceDeleted_mem_flags left).mp marked with ⟨other, isDeleted, link⟩ | already
  · obtain ⟨first, firstMember, rfl⟩ := List.mem_map.mp isDeleted
    exact Or.inl ⟨first, firstMember, link⟩
  · exact Or.inr already

theorem WithinReach.clean (within : WithinReach env store ids)
    (found : (rowsOf store ids).map MemoryRecord.id ≠ []) :
    Clean env store (purgeRecords env ids true store).2 (rowsOf store ids) := by
  rw [purgeRecords_snd found]
  constructor
  case records =>
      intro row member
      obtain ⟨old, _, left, rfl⟩ := mem_purgedRecords.mp member
      exact ⟨left, fun id superseding => not_mem_supersededById superseding⟩
  case revisions => exact fun row member => of_decide_eq_true (List.mem_filter.mp member).2
  case embeddings => exact fun row member => of_decide_eq_true (List.mem_filter.mp member).2
  case recalls => exact fun row member => of_decide_eq_true (List.mem_filter.mp member).2
  case sources =>
      intro link member
      exact not_or.mp (of_decide_eq_true (List.mem_filter.mp member).2)
  case lines =>
      intro doc member line listed id cited isDeleted
      exact not_cites_of_dropSources member listed ⟨id, cited, isDeleted⟩
  case proposals =>
      intro proposal stays pending
      obtain ⟨member, unfound⟩ := (mem_cleared_pending (fun _ => rfl) pending).mp stays
      refine ⟨?_, ?_, ?_, ?_⟩
      · exact fun id record isDeleted => unfound (Or.inl (Or.inl ⟨id, record, isDeleted⟩))
      · exact fun id target isDeleted => unfound (Or.inl (Or.inr ⟨id, target, isDeleted⟩))
      · exact fun id source isDeleted =>
          unfound (within.proposals proposal member pending ⟨id, source, isDeleted⟩)
      · intro row rowMember same
        have listed : ((rowsOf store ids).map fun row => env.memoryDigest row.content).contains
            (env.memoryDigest proposal.content) :=
          List.contains_iff_mem.mpr (List.mem_map.mpr ⟨row, rowMember, same.symm⟩)
        exact unfound (Or.inr ⟨pending, listed⟩)
  case derived =>
  intro row stays source sourceMember chain
  obtain ⟨old, member, left, rfl⟩ := mem_purgedRecords.mp stays
  rw [sourceDeleted_mem_flags left]
  rcases within.derived old member left source sourceMember chain with
    ⟨other, otherMember, link⟩ | already
  · exact Or.inl ⟨other.id, List.mem_map_of_mem otherMember, link⟩
  · exact Or.inr already

/-- A delete removes every copy of the memories that it deletes exactly when what names them
is within its reach. -/
theorem purged_iff (env : Environment) (store : Store) (ids : List Uuid) :
    Purged env store ids ↔ WithinReach env store ids := by
  by_cases found : rowsOf store ids = []
  · -- nothing is deleted, and nothing is asked of what is left
    refine iff_of_true ⟨?_, ?_⟩ ?_
    · constructor <;> simp [found]
    · simp [found]
    · constructor <;> simp [found]
  · have deleted : (rowsOf store ids).map MemoryRecord.id ≠ [] := by
      rwa [ne_eq, List.map_eq_nil_iff]
    constructor
    · exact fun purged => WithinReach.of_clean deleted purged.clean
    · exact fun within =>
        ⟨within.clean deleted, fun row member => staysErased (mem_erasures member)⟩

end Purge

/-- What consolidation and the person's decisions read of a store. -/
def Store.database (store : Store) : Database where
  records := store.records
  proposals := store.proposals
  sources := store.sources
  nextId := store.nextId

inductive Operation
  | write (call : WriteCall)
  | memories (action : MemoryConsolidation.Action)
  | purge (ids : List Uuid) (erase : Bool)

def operate (env : Environment) (store : Store) : Operation → Store
  | .write call => writeStep env store call
  | .memories action =>
      let db := MemoryConsolidation.step env.toEnvironment store.database action
      { store with
        records := db.records
        proposals := db.proposals
        sources := db.sources
        nextId := db.nextId }
  | .purge ids erase => (purgeRecords env ids erase store).2

def stated (content : Text) : WriteCall where
  settings :=
    { isAutoNotify := false
      recordsAxis := .approve
      contactsAllowed := false
      triggerWritesEnabled := false
      isAgentFound := true }
  write :=
    { isAgentScope := false
      agentId := none
      content
      reason := none
      kind := .fact
      subject := .self
      topic := none
      origin := .userStated
      sensitivity := .normal
      flags := ∅
      runPath := .chat }

/-- The text of a deleted memory stays in a merge that waits. -/
theorem waitingMerge_unpurged : ¬ ∀ env operations ids,
    Purged env (run (operate env) {} operations) ids := by
  intro always
  have purged := always { lenient with contentFingerprint := id, keyedDigest := id }
    [.write (stated ['t', 'e', 'a']), .write (stated ['c', 'u', 'p']),
      .memories (.consolidate none [0, 1] [] { merge := [[['m', '1'], ['m', '2']]] } .approve 9)]
    [0]
  have apart := purged.clean.proposals
  revert apart
  decide

end NaturalMold.MemoryPurge

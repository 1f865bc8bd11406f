import NaturalMold.MergeRuns
import NaturalMold.ResolvedProposals

/-! # Runs of decisions -/

namespace NaturalMold.MemoryConsolidation

open Conversations (Uuid Time)
open CronExpressions (Text)
open Fallible FirstOccurrences KeyedTables ParentWalks StepRuns

/-- What `carryOut` does to the records and to its proposal. -/
structure CarriesOut (db after : Database) (proposal : MemoryProposal)
    (sources : List MemoryRecord) : Prop where
  records : RecordsSound after
  pointers : PointersKept db after
  superseded : ∀ pair ∈ supersededBy proposal sources db.nextId,
    ∃ row ∈ after.records.rows, row.id = pair.1 ∧ row.supersededById ≠ none
  proposals : ∃ recordId, after.proposals =
    db.proposals.save { proposal with status := .approved, recordId }

section

variable {ledger : Ledger} {now : Time} {proposal : MemoryProposal} {sources : List MemoryRecord}

theorem supersededBy_eq_nil (notMerge : proposal.action ≠ .merge)
    (notSupersede : proposal.action ≠ .supersede) (id : Uuid) :
    supersededBy proposal sources id = [] := by
  unfold supersededBy
  split
  · exact absurd ‹_› notMerge
  · exact absurd ‹_› notSupersede
  · rfl

theorem supersededBy_one (proposal : MemoryProposal) (sources : List MemoryRecord) (id : Uuid) :
    ∀ first ∈ supersededBy proposal sources id, ∀ second ∈ supersededBy proposal sources id,
      first.2 = second.2 := by
  unfold supersededBy
  split
  case h_1 =>
      intro first firstListed second secondListed
      obtain ⟨_, _, rfl⟩ := List.mem_map.mp firstListed
      obtain ⟨_, _, rfl⟩ := List.mem_map.mp secondListed
      rfl
  case h_2 =>
      intro first firstListed second secondListed
      rw [List.mem_singleton.mp firstListed, List.mem_singleton.mp secondListed]
  case h_3 => exact fun _ none => absurd none List.not_mem_nil

theorem carriesOut_merge {db after : Database} (sound : RecordsSound db)
    (succeeded : db.carryOut now proposal sources = .ok after) (merge : proposal.action = .merge)
    (roots : ∀ row ∈ sources, ∃ stored ∈ db.records.rows,
      stored.id = row.id ∧ stored.supersededById = none) :
    CarriesOut db after proposal sources := by
  have pairs : supersededBy proposal sources db.nextId =
      sources.map fun row => (row.id, db.nextId) := by
    unfold supersededBy
    rw [merge]
  simp only [Database.carryOut, merge] at succeeded
  split at succeeded
  case h_1 => cases succeeded
  case h_2 records inserted =>
  obtain ⟨rows, fresh⟩ := Table.insert?_eq_some inserted
  have member : mergedRecord proposal sources db.nextId ∈ records.rows := by
    rw [rows]
    exact List.mem_append_right _ (List.mem_singleton_self _)
  have changes : after.records = (Database.updateRecords { db with records }
      (sources.map MemoryRecord.id) (fun row =>
        { row with status := .superseded, supersededById := some db.nextId })
          fun _ => rfl).records := by
    rw [← Except.ok.inj succeeded]
    rfl
  obtain ⟨inserted, insertKept⟩ := sound.insert inserted rfl (by simp [mergedRecord])
    { db with records } rfl
  have stored : ∀ id ∈ sources.map MemoryRecord.id, ∃ row ∈ records.rows,
      row.id = id ∧ row.supersededById = none := by
    intro id named
    obtain ⟨source, listed, rfl⟩ := List.mem_map.mp named
    obtain ⟨row, rowMember, sameId, root⟩ := roots source listed
    refine ⟨row, ?_, sameId, root⟩
    rw [rows]
    exact List.mem_append_left _ rowMember
  have apart : (mergedRecord proposal sources db.nextId).id ∉ sources.map MemoryRecord.id := by
    intro named
    obtain ⟨source, listed, same⟩ := List.mem_map.mp named
    obtain ⟨row, rowMember, sameId, _⟩ := roots source listed
    exact fresh row rowMember (sameId.trans same)
  obtain ⟨superseded, supersedeKept, changed⟩ := inserted.supersede stored member
    (Ends.here (nextRecord_of_mem member)) apart after changes
  constructor
  case records => exact superseded
  case pointers =>
      intro row rowMember pointer
      obtain ⟨middle, middleMember, middleId, middlePointer⟩ :=
        insertKept row rowMember pointer
      obtain ⟨kept, keptMember, keptId, keptPointer⟩ :=
        supersedeKept middle middleMember middlePointer
      exact ⟨kept, keptMember, keptId.trans middleId, keptPointer⟩
  case superseded =>
      intro pair listed
      rw [pairs] at listed
      obtain ⟨source, sourceListed, rfl⟩ := List.mem_map.mp listed
      exact changed source.id (List.mem_map_of_mem sourceListed)
  case proposals =>
      rw [← Except.ok.inj succeeded]
      exact ⟨some db.nextId, rfl⟩

theorem carriesOut_of_ne_merge {db after : Database} (sound : RecordsSound db)
    (succeeded : db.carryOut now proposal sources = .ok after) (notMerge : proposal.action ≠ .merge)
    (still : proposal.action = .supersede → ∀ old new rest, sources = old :: new :: rest →
      (∃ row ∈ db.records.rows, row.id = old.id ∧ row.supersededById = none) ∧
        (∃ row ∈ db.records.rows, row.id = new.id) ∧ ¬ Ends db.nextRecord new.id old.id) :
    CarriesOut db after proposal sources := by
  unfold Database.carryOut at succeeded
  split at succeeded
  case h_1 action => exact absurd action notMerge
  case h_2 old new rest action =>
      obtain ⟨root, ⟨target, targetMember, targetId⟩, apart⟩ := still action old new rest rfl
      have changes : after.records = (db.updateRecords [old.id] (fun row =>
          { row with status := .superseded, supersededById := some new.id })
            fun _ => rfl).records := by
        rw [← Except.ok.inj succeeded]
        rfl
      obtain ⟨last, lastMember, ends⟩ := sound.ends target targetMember
      rw [targetId] at ends
      have lastApart : last.id ∉ [old.id] := by
        intro same
        rw [List.mem_singleton.mp same] at ends
        exact apart ends
      obtain ⟨superseded, kept, changed⟩ := sound.supersede
        (fun id named => List.mem_singleton.mp named ▸ root) lastMember ends lastApart after changes
      constructor
      case records => exact superseded
      case pointers => exact kept
      case superseded =>
          intro pair listed
          simp only [supersededBy, action, List.mem_singleton] at listed
          rw [listed]
          exact changed old.id (List.mem_singleton_self _)
      case proposals =>
          rw [← Except.ok.inj succeeded]
          exact ⟨proposal.recordId, rfl⟩
  case h_3 row _ action =>
      have changes : after.records = (db.updateRecords [row.id]
          (fun row => { row with validUntil := some now }) fun _ => rfl).records := by
        rw [← Except.ok.inj succeeded]
        rfl
      obtain ⟨updated, kept⟩ :=
        sound.update after changes (fun _ => rfl) (fun _ => Or.inl rfl)
      refine ⟨updated, kept, ?_, proposal.recordId, ?_⟩
      · rw [supersededBy_eq_nil notMerge (by simp [action])]
        exact fun _ none => absurd none List.not_mem_nil
      · rw [← Except.ok.inj succeeded]
        rfl
  case h_4 row _ action =>
      have changes : after.records = (db.updateRecords [row.id]
          (fun row => { row with status := .revoked }) fun _ => rfl).records := by
        rw [← Except.ok.inj succeeded]
        rfl
      obtain ⟨updated, kept⟩ :=
        sound.update after changes (fun _ => rfl) (fun _ => Or.inr rfl)
      refine ⟨updated, kept, ?_, proposal.recordId, ?_⟩
      · rw [supersededBy_eq_nil notMerge (by simp [action])]
        exact fun _ none => absurd none List.not_mem_nil
      · rw [← Except.ok.inj succeeded]
        rfl
  case h_5 action =>
      obtain rfl := Except.ok.inj succeeded
      refine ⟨⟨sound.marked, sound.active, sound.ends⟩,
        fun row member superseded => ⟨row, member, rfl, superseded⟩,
        ?_, proposal.recordId, rfl⟩
      rw [supersededBy_eq_nil notMerge (by simp [action])]
      exact fun _ none => absurd none List.not_mem_nil
  case h_6 => cases succeeded

end

namespace Settled

variable {ledger : Ledger}

theorem carriedOut {after : Ledger} (settled : Settled ledger) {proposal : MemoryProposal}
    {record : Option Uuid} {superseded : List (Uuid × Uuid)} (waits : Waits ledger proposal)
    (log : after.log = ledger.log ++ [.carriedOut proposal.id record superseded])
    (proposals : ∃ saved : MemoryProposal,
      after.db.proposals = ledger.db.proposals.save saved ∧ saved.id = proposal.id ∧
        saved.status ≠ .pending)
    (records : RecordsSound after.db) (pointers : PointersKept ledger.db after.db)
    (changed : ∀ pair ∈ superseded, ∃ row ∈ after.db.records.rows,
      row.id = pair.1 ∧ row.supersededById ≠ none)
    (roots : ∀ pair ∈ superseded, Unsuperseded ledger pair.1)
    (one : ∀ first ∈ superseded, ∀ second ∈ superseded, first.2 = second.2) : Settled after := by
  obtain ⟨saved, saves, savedId, resolved⟩ := proposals
  have supersessions : after.supersessions = ledger.supersessions ++ superseded := by
    unfold Ledger.supersessions
    rw [log, List.flatMap_append, List.flatMap_singleton]
    rfl
  have apart : ∀ pair ∈ superseded, ∀ old ∈ ledger.supersessions, old.1 ≠ pair.1 := by
    intro pair listed old oldListed same
    obtain ⟨root, rootMember, rootId, none⟩ := roots pair listed
    obtain ⟨row, rowMember, rowId, pointer⟩ := settled.superseded old oldListed
    apply pointer
    rw [ledger.db.records.eq_of_key_eq rowMember rootMember (rowId.trans (same.trans rootId.symm))]
    exact none
  apply settled.record _ log _ _ _ _ records
  · rw [saves]
    exact save_resolved resolved
  · obtain ⟨row, member, sameId, _⟩ := waits
    refine ⟨saved, ?_, savedId, resolved⟩
    rw [saves]
    exact Table.mem_save.mpr (Or.inl ⟨rfl, row, member, sameId.trans savedId.symm⟩)
  · exact fun _ => settled.unresolved waits
  · intro pair listed
    rw [supersessions] at listed
    rcases List.mem_append.mp listed with old | new
    · obtain ⟨row, member, sameId, pointer⟩ := settled.superseded pair old
      obtain ⟨kept, keptMember, keptId, keptPointer⟩ := pointers row member pointer
      exact ⟨kept, keptMember, keptId.trans sameId, keptPointer⟩
    · exact changed pair new
  · intro old first second firstListed secondListed
    rw [supersessions] at firstListed secondListed
    rcases List.mem_append.mp firstListed with firstOld | firstNew
    · rcases List.mem_append.mp secondListed with secondOld | secondNew
      · exact settled.functional old first second firstOld secondOld
      · exact absurd rfl (apart (old, second) secondNew (old, first) firstOld)
    · rcases List.mem_append.mp secondListed with secondOld | secondNew
      · exact absurd rfl (apart (old, first) firstNew (old, second) secondOld)
      · exact one _ firstNew _ secondNew

/-- What one committed write preserves. -/
theorem apply (settled : Settled ledger) (write : Write) (still : StillOpen ledger write) :
    Settled (write.apply ledger) := by
  cases write with
  | insertProposal proposal =>
      simp only [Write.apply]
      split
      case h_1 => exact settled
      case h_2 proposals inserted =>
      refine settled.congr ?_ rfl rfl
      intro row member resolved
      refine ⟨row, ?_, rfl, resolved⟩
      dsimp only
      rw [(Table.insert?_eq_some inserted).1]
      exact List.mem_append_left _ member
  | expire proposal => exact settled.congr (save_resolved (by simp)) rfl rfl
  | reject proposal =>
      simp only [Write.apply]
      split
      case h_1 => exact settled
      case h_2 row found =>
      obtain ⟨member, sameId⟩ := Table.get?_eq_some_iff.mp found
      have saved : ({ proposal with status := .rejected } : MemoryProposal) ∈
          (ledger.db.setStatus proposal .rejected).proposals.rows :=
        Table.mem_save.mpr (Or.inl ⟨rfl, row, member, sameId⟩)
      have same : Ledger.supersessions
          { db := ledger.db.setStatus proposal .rejected
            log := ledger.log ++ [.rejected proposal.id] } = ledger.supersessions := by
        unfold Ledger.supersessions
        rw [List.flatMap_append, List.flatMap_singleton]
        exact List.append_nil _
      refine settled.record (save_resolved (by simp)) rfl ⟨_, saved, rfl, by simp⟩
        (fun carried => carried.elim) ?_ ?_
          ⟨settled.records.marked, settled.records.active, settled.records.ends⟩
      · rw [same]
        exact settled.superseded
      · rw [same]
        exact settled.functional
  | create proposal edit =>
      simp only [Write.apply]
      split
      case h_1 => exact settled
      case h_2 records inserted =>
      obtain ⟨sound, kept⟩ := settled.records.insert inserted rfl (by simp [createdRecord])
        { ledger.db with
          records
          proposals := ledger.db.proposals.save
            { proposal with
              content := edit.elim proposal.content Prod.fst
              status := .approved
              recordId := some ledger.db.nextId }
          nextId := ledger.db.nextId + 1 } rfl
      exact settled.carriedOut still rfl ⟨_, rfl, rfl, by simp⟩ sound kept
        (fun _ none => absurd none List.not_mem_nil)
        (fun _ none => absurd none List.not_mem_nil)
        (fun _ none => absurd none List.not_mem_nil)
  | carryOut now proposal sources =>
      obtain ⟨waits, still⟩ := still
      simp only [Write.apply]
      split
      case h_1 => exact settled
      case h_2 db succeeded =>
      have done : CarriesOut ledger.db db proposal sources := by
        by_cases merge : proposal.action = .merge
        · simp only [merge] at still
          exact carriesOut_merge settled.records succeeded merge still
        · apply carriesOut_of_ne_merge settled.records succeeded merge
          rintro supersede old new rest rfl
          simp only [supersede] at still
          exact still
      obtain ⟨recordId, saves⟩ := done.proposals
      refine settled.carriedOut waits rfl ⟨_, saves, rfl, by simp⟩ done.records
        done.pointers done.superseded ?_ ?_
      · intro pair listed
        unfold supersededBy at listed
        split at listed
        case h_1 merge =>
            obtain ⟨source, sourceListed, rfl⟩ := List.mem_map.mp listed
            simp only [merge] at still
            exact still source sourceListed
        case h_2 old new rest supersede =>
            rw [List.mem_singleton.mp listed]
            simp only [supersede] at still
            exact still.1
        case h_3 => cases listed
      · exact supersededBy_one proposal sources ledger.db.nextId

theorem foldl_apply (settled : Settled ledger) {writes : List Write}
    (still : EveryStep Write.apply StillOpen ledger writes) :
    Settled (writes.foldl Write.apply ledger) :=
  run_allowed_invariant Settled (fun _ write still settled => settled.apply write still)
    settled still

theorem step {system : System} (settled : Settled system.ledger) (env : Environment)
    (event : Event) (opens : CommitsOpen system event) :
    Settled (system.step env event).ledger := by
  cases event with
  | saveRecord row =>
      simp only [System.step, Database.saveRecord]
      split
      case h_1 => exact settled
      case h_2 records inserted =>
      obtain ⟨sound, kept⟩ := settled.records.insert inserted rfl (by simp)
        { system.ledger.db with records, nextId := system.ledger.db.nextId + 1 } rfl
      constructor
      case resolved => exact settled.resolved
      case once => exact settled.once
      case superseded =>
          intro pair listed
          obtain ⟨row, member, sameId, pointer⟩ := settled.superseded pair listed
          obtain ⟨new, newMember, newId, newPointer⟩ := kept row member pointer
          exact ⟨new, newMember, newId.trans sameId, newPointer⟩
      case functional => exact settled.functional
      case records => exact sound
  | propose proposal => exact settled.apply (.insertProposal _) trivial
  | begin id request =>
      simp only [System.step]
      split
      · exact settled
      · split
        · exact settled
        · exact settled
  | advance id now =>
      simp only [System.step]
      split
      · exact settled
      · exact settled
  | commit id =>
      simp only [System.step]
      split
      case h_1 => exact settled
      case h_2 transaction found =>
      split
      · exact settled.foldl_apply (opens transaction found)
      · exact settled
      · exact settled
  | abort id => exact settled

end Settled

/-- In a run whose commits find open what they carry out, each proposal is resolved once. -/
theorem run_resolvedOnce {env : Environment} (events : List Event)
    (every : EveryStep (System.step env) CommitsOpen {} events) :
    ResolvedOnce (run (System.step env) {} events).ledger :=
  Settled.resolvedOnce (run_allowed_invariant (fun system => Settled system.ledger)
    (fun _ event opens settled => settled.step env event opens) settled_initial every)

def waitingMerge : List Event :=
  [.saveRecord (agentMemory ['t', 'e', 'a']), .saveRecord (agentMemory ['c', 'u', 'p']),
    .propose (proposalOf none
      { action := .merge
        sources := [{ agentMemory ['t', 'e', 'a'] with id := 0 },
          { agentMemory ['c', 'u', 'p'] with id := 1 }]
        content := ['t', 'e', 'a', ' ', 'c', 'u', 'p']
        reason := none
        review := false
        replacesConfirmed := false } 0)]

theorem stillOpen_merge {ledger : Ledger} {now : Time} {proposal : MemoryProposal}
    {sources : List MemoryRecord} (merge : proposal.action = .merge)
    (waits : Waits ledger proposal) (roots : ∀ row ∈ sources, Unsuperseded ledger row.id) :
    StillOpen ledger (.carryOut now proposal sources) := by
  refine ⟨waits, ?_⟩
  simp only [merge]
  exact roots

theorem run_resolvedOnce_approved :
    ResolvedOnce (run (System.step lenient) {}
      (waitingMerge ++ [.begin 8 (.approve 0 none), .advance 8 5, .commit 8])).ledger := by
  refine run_resolvedOnce _ ⟨trivial, trivial, trivial, trivial, trivial, ?_, trivial⟩
  intro transaction found
  obtain rfl := Option.some.inj found
  exact ⟨stillOpen_merge rfl (by decide) (by decide), trivial⟩

/-- Two requests read the proposal as pending before either of them commits. -/
theorem approvedTwice_unresolved : ¬ ∀ env events,
    ResolvedOnce (run (System.step env) {} events).ledger := by
  intro always
  have once := (always lenient (waitingMerge ++
    [.begin 8 (.approve 0 none), .begin 9 (.approve 0 none), .advance 8 5, .advance 9 6,
      .commit 8, .commit 9])).carriedOut 0
  revert once
  decide

end NaturalMold.MemoryConsolidation

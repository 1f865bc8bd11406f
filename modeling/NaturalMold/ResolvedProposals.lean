import NaturalMold.MergedMemories
import NaturalMold.ProposalDecisions

/-! # Resolved proposals -/

namespace NaturalMold.MemoryConsolidation

open Conversations (Uuid Time)
open CronExpressions (Text)
open Fallible FirstOccurrences KeyedTables ParentWalks StepRuns

/-- `superseded_by_id` of the record with the id. -/
def Database.nextRecord (db : Database) (id : Uuid) : Option Uuid :=
  (db.records.get? id).bind MemoryRecord.supersededById

def Ledger.supersessions (ledger : Ledger) : List (Uuid × Uuid) :=
  ledger.log.flatMap Outcome.superseded

def Ledger.produced (ledger : Ledger) (proposalId : Uuid) : List Uuid :=
  (ledger.log.filter fun outcome => outcome.proposalId = proposalId).filterMap Outcome.record

structure ResolvedOnce (ledger : Ledger) : Prop where
  carriedOut : ∀ id, ledger.log.countP
    (fun outcome => outcome.IsCarriedOut ∧ outcome.proposalId = id) ≤ 1
  rejected : ledger.log.Pairwise fun earlier later =>
    ¬ earlier.IsCarriedOut → later.IsCarriedOut → earlier.proposalId ≠ later.proposalId
  produced : ∀ id, (ledger.produced id).length ≤ 1
  superseded : ∀ old first second, (old, first) ∈ ledger.supersessions →
    (old, second) ∈ ledger.supersessions → first = second
  ends : ∀ row ∈ ledger.db.records.rows, ∃ last ∈ ledger.db.records.rows,
    Ends ledger.db.nextRecord row.id last.id ∧ last.status ≠ .superseded

def Waits (ledger : Ledger) (proposal : MemoryProposal) : Prop :=
  ∃ row ∈ ledger.db.proposals.rows, row.id = proposal.id ∧ row.status = .pending

instance (ledger : Ledger) (proposal : MemoryProposal) : Decidable (Waits ledger proposal) :=
  inferInstanceAs (Decidable (∃ row ∈ ledger.db.proposals.rows, _))

/-- The record has not been superseded. -/
def Unsuperseded (ledger : Ledger) (id : Uuid) : Prop :=
  ∃ row ∈ ledger.db.records.rows, row.id = id ∧ row.supersededById = none

instance (ledger : Ledger) (id : Uuid) : Decidable (Unsuperseded ledger id) :=
  inferInstanceAs (Decidable (∃ row ∈ ledger.db.records.rows, _))

def StillOpen (ledger : Ledger) : Write → Prop
  | .insertProposal _ | .reject _ | .expire _ => True
  | .create proposal _ => Waits ledger proposal
  | .carryOut _ proposal sources =>
      Waits ledger proposal ∧
        match proposal.action, sources with
        | .merge, _ => ∀ row ∈ sources, Unsuperseded ledger row.id
        | .supersede, old :: new :: _ =>
            Unsuperseded ledger old.id ∧ (∃ row ∈ ledger.db.records.rows, row.id = new.id) ∧
              ¬ Ends ledger.db.nextRecord new.id old.id
        | _, _ => True

def CommitsOpen (system : System) : Event → Prop
  | .commit id =>
      ∀ transaction ∈ system.transactions.get? id,
        EveryStep Write.apply StillOpen system.ledger transaction.writes
  | .saveRecord _ | .propose _ | .begin .. | .advance .. | .abort _ => True

/-- What is kept about the records. -/
structure RecordsSound (db : Database) : Prop where
  marked : ∀ row ∈ db.records.rows, row.status = .superseded → row.supersededById ≠ none
  active : ∀ row ∈ db.records.rows, row.status = .active → row.supersededById = none
  ends : ∀ row ∈ db.records.rows, ∃ last ∈ db.records.rows, Ends db.nextRecord row.id last.id

/-- What is kept about a ledger. -/
structure Settled (ledger : Ledger) : Prop where
  resolved : ∀ outcome ∈ ledger.log, ∃ row ∈ ledger.db.proposals.rows,
    row.id = outcome.proposalId ∧ row.status ≠ .pending
  once : ledger.log.Pairwise fun earlier later =>
    later.IsCarriedOut → earlier.proposalId ≠ later.proposalId
  superseded : ∀ pair ∈ ledger.supersessions, ∃ row ∈ ledger.db.records.rows,
    row.id = pair.1 ∧ row.supersededById ≠ none
  functional : ∀ old first second, (old, first) ∈ ledger.supersessions →
    (old, second) ∈ ledger.supersessions → first = second
  records : RecordsSound ledger.db

theorem settled_initial : Settled {} where
  resolved := fun _ member => absurd member List.not_mem_nil
  once := List.Pairwise.nil
  superseded := fun _ member => absurd member List.not_mem_nil
  functional := fun _ _ _ member => absurd member List.not_mem_nil
  records :=
    { marked := fun _ member => absurd member List.not_mem_nil
      active := fun _ member => absurd member List.not_mem_nil
      ends := fun _ member => absurd member List.not_mem_nil }

section Once

variable {log : List Outcome}

/-- Outcomes of which each that is carried out is the first of its proposal. -/
theorem countP_le_one {test : Outcome → Bool}
    (apart : log.Pairwise fun first second => ¬ (test first ∧ test second)) :
    log.countP test ≤ 1 := by
  induction log with
  | nil => exact Nat.zero_le _
  | cons outcome log ih =>
      obtain ⟨head, tail⟩ := List.pairwise_cons.mp apart
      rw [List.countP_cons]
      split
      case isTrue passes =>
          have none : log.countP test = 0 := by
            rw [List.countP_eq_zero]
            intro other member otherPasses
            exact head other member ⟨passes, otherPasses⟩
          rw [none]
      case isFalse => exact ih tail

end Once

namespace Settled

variable {ledger : Ledger}

theorem resolvedOnce (settled : Settled ledger) : ResolvedOnce ledger where
  carriedOut := by
    intro id
    apply countP_le_one
    apply settled.once.imp
    intro earlier later apart both
    simp only [decide_eq_true_eq] at both
    exact apart both.2.1 (both.1.2.trans both.2.2.symm)
  rejected := by
    apply settled.once.imp
    intro earlier later apart _
    exact apart
  produced := by
    intro id
    have records : ∀ outcome ∈ ledger.log.filter fun outcome => outcome.proposalId = id,
        outcome.record.isSome → outcome.IsCarriedOut := by
      intro outcome _ made
      cases outcome with
      | carriedOut => trivial
      | rejected => cases made
    unfold Ledger.produced
    rw [List.length_filterMap_eq_countP, List.countP_filter]
    apply countP_le_one
    apply settled.once.imp
    intro earlier later apart both
    simp only [Bool.and_eq_true, decide_eq_true_eq] at both
    refine apart ?_ (both.1.2.trans both.2.2.symm)
    cases later with
    | carriedOut => trivial
    | rejected => exact absurd both.2.1 (by simp [Outcome.record])
  superseded := settled.functional
  ends := by
    intro row member
    obtain ⟨last, lastMember, ends⟩ := settled.records.ends row member
    refine ⟨last, lastMember, ends, ?_⟩
    intro superseded
    apply settled.records.marked last lastMember superseded
    have root := ends.root
    unfold Database.nextRecord at root
    rwa [Table.get?_eq_some_iff.mpr ⟨lastMember, rfl⟩] at root

theorem congr {after : Ledger} (settled : Settled ledger)
    (proposals : ∀ row ∈ ledger.db.proposals.rows, row.status ≠ .pending →
      ∃ kept ∈ after.db.proposals.rows, kept.id = row.id ∧ kept.status ≠ .pending)
    (log : after.log = ledger.log) (records : after.db.records = ledger.db.records) :
    Settled after where
  resolved := by
    intro outcome member
    rw [log] at member
    obtain ⟨row, rowMember, sameId, resolved⟩ := settled.resolved outcome member
    obtain ⟨kept, keptMember, keptId, keptResolved⟩ := proposals row rowMember resolved
    exact ⟨kept, keptMember, keptId.trans sameId, keptResolved⟩
  once := log ▸ settled.once
  superseded := by
    unfold Ledger.supersessions
    rw [log, records]
    exact settled.superseded
  functional := by
    unfold Ledger.supersessions
    rw [log]
    exact settled.functional
  records := by
    constructor
    case marked => exact records ▸ settled.records.marked
    case active => exact records ▸ settled.records.active
    case ends =>
        unfold Database.nextRecord
        rw [records]
        exact settled.records.ends

theorem record {after : Ledger} (settled : Settled ledger) {outcome : Outcome}
    (proposals : ∀ row ∈ ledger.db.proposals.rows, row.status ≠ .pending →
      ∃ kept ∈ after.db.proposals.rows, kept.id = row.id ∧ kept.status ≠ .pending)
    (log : after.log = ledger.log ++ [outcome])
    (resolved : ∃ row ∈ after.db.proposals.rows,
      row.id = outcome.proposalId ∧ row.status ≠ .pending)
    (first : outcome.IsCarriedOut → ∀ earlier ∈ ledger.log,
      earlier.proposalId ≠ outcome.proposalId)
    (superseded : ∀ pair ∈ after.supersessions, ∃ row ∈ after.db.records.rows,
      row.id = pair.1 ∧ row.supersededById ≠ none)
    (functional : ∀ old first second, (old, first) ∈ after.supersessions →
      (old, second) ∈ after.supersessions → first = second)
    (records : RecordsSound after.db) : Settled after where
  resolved := by
    intro other member
    rw [log, List.mem_append, List.mem_singleton] at member
    rcases member with old | rfl
    · obtain ⟨row, rowMember, sameId, wasResolved⟩ := settled.resolved other old
      obtain ⟨kept, keptMember, keptId, keptResolved⟩ := proposals row rowMember wasResolved
      exact ⟨kept, keptMember, keptId.trans sameId, keptResolved⟩
    · exact resolved
  once := by
    rw [log, List.pairwise_append]
    refine ⟨settled.once, List.pairwise_singleton _ _, ?_⟩
    intro earlier member later new carried
    rw [List.mem_singleton.mp new] at carried ⊢
    exact first carried earlier member
  superseded := superseded
  functional := functional
  records := records

theorem unresolved (settled : Settled ledger) {proposal : MemoryProposal}
    (waits : Waits ledger proposal) :
    ∀ earlier ∈ ledger.log, earlier.proposalId ≠ proposal.id := by
  intro earlier member same
  obtain ⟨row, rowMember, sameId, pending⟩ := waits
  obtain ⟨other, otherMember, otherId, resolved⟩ := settled.resolved earlier member
  apply resolved
  rw [ledger.db.proposals.eq_of_key_eq otherMember rowMember
    (otherId.trans (same.trans sameId.symm))]
  exact pending

end Settled

section Saves

variable {proposals : Table MemoryProposal.id} {saved : MemoryProposal}

theorem save_resolved (resolved : saved.status ≠ .pending) :
    ∀ row ∈ proposals.rows, row.status ≠ .pending →
      ∃ kept ∈ (proposals.save saved).rows, kept.id = row.id ∧ kept.status ≠ .pending := by
  intro row member wasResolved
  by_cases same : row.id = saved.id
  · exact ⟨saved, Table.mem_save.mpr (Or.inl ⟨rfl, row, member, same⟩), same.symm, resolved⟩
  · exact ⟨row, Table.mem_save.mpr (Or.inr ⟨member, same⟩), rfl, wasResolved⟩

end Saves

section Pointers

variable {db : Database}

theorem nextRecord_of_mem {row : MemoryRecord} (member : row ∈ db.records.rows) :
    db.nextRecord row.id = row.supersededById := by
  unfold Database.nextRecord
  rw [Table.get?_eq_some_iff.mpr ⟨member, rfl⟩]
  rfl

theorem nextRecord_insert {row : MemoryRecord} {records : Table MemoryRecord.id}
    (inserted : db.records.insert? row = some records) (root : row.supersededById = none)
    (after : Database) (same : after.records = records) : after.nextRecord = db.nextRecord := by
  ext id next
  unfold Database.nextRecord
  rw [same, Table.get?_insert? inserted]
  split
  case isFalse => rfl
  case isTrue sameId =>
  have absent : db.records.get? id = none := by
    rw [Table.get?_eq_none_iff, ← sameId]
    exact (Table.insert?_eq_some inserted).2
  rw [absent]
  simp [root]

theorem nextRecord_updateRecords (ids : List Uuid) (change : MemoryRecord → MemoryRecord)
    (keeps : ∀ row, (change row).id = row.id) (id : Uuid) :
    (db.updateRecords ids change keeps).nextRecord id =
      (db.records.get? id).bind fun row =>
        if ids.contains id then (change row).supersededById else row.supersededById := by
  unfold Database.nextRecord Database.updateRecords
  dsimp only
  rw [Table.get?_updateWhere]
  cases found : db.records.get? id with
  | none => rfl
  | some row =>
      simp only [Option.map_some, Option.bind_some, (Table.get?_eq_some_iff.mp found).2]
      split <;> rfl

/-- Every record that is superseded stays so. -/
def PointersKept (before after : Database) : Prop :=
  ∀ row ∈ before.records.rows, row.supersededById ≠ none →
    ∃ kept ∈ after.records.rows, kept.id = row.id ∧ kept.supersededById ≠ none

namespace RecordsSound

theorem insert (sound : RecordsSound db) {row : MemoryRecord} {records : Table MemoryRecord.id}
    (inserted : db.records.insert? row = some records) (root : row.supersededById = none)
    (status : row.status ≠ .superseded) (after : Database) (same : after.records = records) :
    RecordsSound after ∧ PointersKept db after := by
  obtain ⟨rows, _⟩ := Table.insert?_eq_some inserted
  have listed : ∀ other, other ∈ after.records.rows ↔ other ∈ db.records.rows ∨ other = row := by
    intro other
    rw [same, rows, List.mem_append, List.mem_singleton]
  have pointers := nextRecord_insert inserted root after same
  refine ⟨⟨?_, ?_, ?_⟩, ?_⟩
  · intro other member
    rcases (listed other).mp member with old | rfl
    · exact sound.marked other old
    · exact fun superseded => absurd superseded status
  · intro other member
    rcases (listed other).mp member with old | rfl
    · exact sound.active other old
    · exact fun _ => root
  · intro other member
    rcases (listed other).mp member with old | rfl
    · obtain ⟨last, lastMember, ends⟩ := sound.ends other old
      exact ⟨last, (listed last).mpr (Or.inl lastMember), by rwa [pointers]⟩
    · exact ⟨other, member, Ends.here ((nextRecord_of_mem member).trans root)⟩
  · exact fun other member superseded =>
      ⟨other, (listed other).mpr (Or.inl member), rfl, superseded⟩

theorem update (sound : RecordsSound db) {ids : List Uuid} {change : MemoryRecord → MemoryRecord}
    {keeps : ∀ row, (change row).id = row.id} (after : Database)
    (same : after.records = (db.updateRecords ids change keeps).records)
    (pointer : ∀ row, (change row).supersededById = row.supersededById)
    (status : ∀ row, (change row).status = row.status ∨ (change row).status = .revoked) :
    RecordsSound after ∧ PointersKept db after := by
  have listed (other : MemoryRecord) := @Table.mem_updateWhere _ _ _ db.records
    (fun row => ids.contains row.id) change keeps other
  have pointers : after.nextRecord = db.nextRecord := by
    funext id
    have changed := @nextRecord_updateRecords db ids change keeps id
    unfold Database.nextRecord at changed ⊢
    rw [same, changed]
    congr 1
    funext row
    rw [pointer, ite_self]
  have kept : ∀ row ∈ db.records.rows, ∃ new ∈ after.records.rows, new.id = row.id ∧
      new.supersededById = row.supersededById := by
    intro row member
    rw [same]
    by_cases named : ids.contains row.id
    · exact ⟨change row, (listed _).mpr (Or.inl ⟨row, member, named, rfl⟩), keeps row, pointer row⟩
    · exact ⟨row, (listed _).mpr (Or.inr ⟨member, named⟩), rfl, rfl⟩
  have found : ∀ new ∈ after.records.rows, ∃ row ∈ db.records.rows, new.id = row.id ∧
      new.supersededById = row.supersededById ∧
        (new.status = row.status ∨ new.status = .revoked) := by
    intro new member
    rw [same] at member
    rcases (listed new).mp member with ⟨row, rowMember, _, rfl⟩ | ⟨old, _⟩
    · exact ⟨row, rowMember, keeps row, pointer row, status row⟩
    · exact ⟨new, old, rfl, rfl, Or.inl rfl⟩
  refine ⟨⟨?_, ?_, ?_⟩, ?_⟩
  · intro new member superseded
    obtain ⟨row, rowMember, _, samePointer, sameStatus⟩ := found new member
    rw [samePointer]
    rcases sameStatus with same | revoked
    · exact sound.marked row rowMember (same ▸ superseded)
    · rw [revoked] at superseded
      cases superseded
  · intro new member active
    obtain ⟨row, rowMember, _, samePointer, sameStatus⟩ := found new member
    rw [samePointer]
    rcases sameStatus with same | revoked
    · exact sound.active row rowMember (same ▸ active)
    · rw [revoked] at active
      cases active
  · intro new member
    obtain ⟨row, rowMember, sameId, _⟩ := found new member
    obtain ⟨last, lastMember, ends⟩ := sound.ends row rowMember
    obtain ⟨newLast, newLastMember, lastId, _⟩ := kept last lastMember
    exact ⟨newLast, newLastMember, by rwa [pointers, sameId, lastId]⟩
  · intro row member superseded
    obtain ⟨new, newMember, sameId, samePointer⟩ := kept row member
    exact ⟨new, newMember, sameId, samePointer ▸ superseded⟩

/-- Some records that are not superseded get one record that supersedes them, which leads to
none of them. -/
theorem supersede (sound : RecordsSound db) {ids : List Uuid} {target : Uuid}
    (roots : ∀ id ∈ ids, ∃ row ∈ db.records.rows, row.id = id ∧ row.supersededById = none)
    {last : MemoryRecord} (lastMember : last ∈ db.records.rows)
    (targetEnds : Ends db.nextRecord target last.id) (apart : last.id ∉ ids)
    {keeps : ∀ row : MemoryRecord, MemoryRecord.id
      { row with status := .superseded, supersededById := some target } = row.id}
    (after : Database)
    (same : after.records = (db.updateRecords ids (fun row =>
      { row with status := .superseded, supersededById := some target }) keeps).records) :
    RecordsSound after ∧ PointersKept db after ∧
      ∀ id ∈ ids, ∃ row ∈ after.records.rows, row.id = id ∧ row.supersededById ≠ none := by
  have listed (other : MemoryRecord) := @Table.mem_updateWhere _ _ _ db.records
    (fun row => ids.contains row.id)
    (fun row => { row with status := .superseded, supersededById := some target }) keeps other
  have kept : ∀ row ∈ db.records.rows, ∃ new ∈ after.records.rows, new.id = row.id ∧
      (row.id ∈ ids → new.supersededById ≠ none) ∧ (row.id ∉ ids → new = row) := by
    intro row member
    rw [same]
    by_cases named : row.id ∈ ids
    · exact ⟨_, (listed _).mpr (Or.inl ⟨row, member, List.contains_iff_mem.mpr named, rfl⟩), rfl,
        fun _ => by simp, fun unnamed => absurd named unnamed⟩
    · refine ⟨row, (listed _).mpr (Or.inr ⟨member, ?_⟩), rfl, fun named' => absurd named' named,
        fun _ => rfl⟩
      rwa [List.contains_iff_mem]
  have nextOf (id : Uuid) : after.nextRecord id = (db.records.get? id).bind fun row =>
      if ids.contains id then some target else row.supersededById := by
    have changed := @nextRecord_updateRecords db ids (fun row =>
      { row with status := .superseded, supersededById := some target }) keeps id
    rw [← changed]
    unfold Database.nextRecord
    rw [same]
  have others : ∀ id, id ∉ ids → after.nextRecord id = db.nextRecord id := by
    intro id unnamed
    rw [← List.contains_iff_mem] at unnamed
    rw [nextOf]
    simp only [if_neg unnamed]
    rfl
  have wasRoot : ∀ id, id ∈ ids → db.nextRecord id = none := by
    intro id named
    obtain ⟨row, member, rfl, root⟩ := roots id named
    rw [nextRecord_of_mem member, root]
  have redirected : ∀ id, id ∈ ids → after.nextRecord id = some target := by
    intro id named
    obtain ⟨row, member, sameId, _⟩ := roots id named
    rw [nextOf, Table.get?_eq_some_iff.mpr ⟨member, sameId⟩, Option.bind_some,
      if_pos (List.contains_iff_mem.mpr named)]
  refine ⟨⟨?_, ?_, ?_⟩, ?_, ?_⟩
  · intro new member
    rw [same] at member
    rcases (listed new).mp member with ⟨row, _, _, rfl⟩ | ⟨old, _⟩
    · exact fun _ => by simp
    · exact sound.marked new old
  · intro new member active
    rw [same] at member
    rcases (listed new).mp member with ⟨row, _, _, rfl⟩ | ⟨old, _⟩
    · cases active
    · exact sound.active new old active
  · intro new member
    have before : ∃ row ∈ db.records.rows, new.id = row.id := by
      rw [same] at member
      rcases (listed new).mp member with ⟨row, rowMember, _, rfl⟩ | ⟨old, _⟩
      · exact ⟨row, rowMember, rfl⟩
      · exact ⟨new, old, rfl⟩
    obtain ⟨row, rowMember, sameId⟩ := before
    obtain ⟨rowLast, rowLastMember, ends⟩ := sound.ends row rowMember
    have targetStays := Ends.stays others wasRoot targetEnds apart
    obtain ⟨newLast, newLastMember, newLastId, _⟩ := kept last lastMember
    obtain ⟨newRowLast, newRowLastMember, newRowLastId, _⟩ := kept rowLast rowLastMember
    rw [sameId]
    rcases Ends.redirect others wasRoot redirected targetStays ends with toOld | toTarget
    · exact ⟨newRowLast, newRowLastMember, newRowLastId.symm ▸ toOld⟩
    · exact ⟨newLast, newLastMember, newLastId.symm ▸ toTarget⟩
  · intro row member superseded
    obtain ⟨new, newMember, sameId, changed, unchanged⟩ := kept row member
    refine ⟨new, newMember, sameId, ?_⟩
    by_cases named : row.id ∈ ids
    · exact changed named
    · rwa [unchanged named]
  · intro id named
    obtain ⟨row, member, rfl, _⟩ := roots id named
    obtain ⟨new, newMember, sameId, changed, _⟩ := kept row member
    exact ⟨new, newMember, sameId, changed named⟩

end RecordsSound

end Pointers

end NaturalMold.MemoryConsolidation

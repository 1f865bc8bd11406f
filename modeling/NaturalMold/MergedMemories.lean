import Mathlib.Logic.Relation
import NaturalMold.MemoryMarks

/-! # Merged memories -/

namespace NaturalMold.MemoryConsolidation

open Conversations (Uuid Time)
open CronExpressions (Text)
open Fallible FirstOccurrences KeyedTables Relation StepRuns

def TextFrom (db : Database) (merged source : MemoryRecord) : Prop :=
  merged ∈ db.records.rows ∧ source ∈ db.records.rows ∧
    ⟨merged.id, source.id⟩ ∈ db.sources ∧ merged.id ∉ db.contentUpdates

def ApprovedByPerson (db : Database) (id : Uuid) : Prop :=
  ∃ proposal ∈ db.proposals.rows, proposal.recordId = some id ∧ proposal.status = .approved ∧
    .autoApplied ∉ proposal.flags

structure Narrower (db : Database) (merged source : MemoryRecord) : Prop where
  lifetime : ∀ time, ValidAt merged time → ValidAt source time
  label : Human merged → ApprovedByPerson db merged.id ∨ Human source
  marks : source.marks ≤ merged.marks

/-- No chain of merges widens a memory. -/
def NeverWidens (db : Database) : Prop :=
  ∀ merged source, TransGen (TextFrom db) merged source → Narrower db merged source

/-- The person approves every merge, no source of an approved merge has an end, and no text
that the person writes again has stricter marks than a waiting merge of the memory. -/
def NarrowsMerges (env : Environment) (db : Database) : Action → Prop
  | .saveRecord _ | .reject _ => True
  | .updateContent id content =>
      ∀ row ∈ db.records.get? id, ∀ result ∈ env.checkText content, ∀ proposal ∈ db.proposals.rows,
        proposal.status = .pending → proposal.action = .merge → id ∈ proposal.sourceIds →
          (row.withContent content result).marks ≤ proposal.marks
  | .consolidate agentId shown excerpts reply axis _ =>
      ∀ change ∈ (check env (db.gather agentId shown excerpts) reply).changes,
        change.action = .merge → RejectedBefore db.proposals change ∨ ¬ AutoApplies change axis
  | .approve id _ =>
      ∀ proposal ∈ db.proposals.get? id, proposal.status = .pending → proposal.action = .merge →
        (activeRecords proposal.sourceIds db.records).length = proposal.sourceIds.length →
          ∀ row ∈ activeRecords proposal.sourceIds db.records, row.validUntil = none

instance (env : Environment) (db : Database) : (action : Action) →
    Decidable (NarrowsMerges env db action)
  | .saveRecord _ | .reject _ => inferInstanceAs (Decidable True)
  | .updateContent id content =>
      inferInstanceAs (Decidable (∀ row ∈ db.records.get? id, ∀ result ∈ env.checkText content,
        ∀ proposal ∈ db.proposals.rows, proposal.status = .pending → proposal.action = .merge →
          id ∈ proposal.sourceIds → (row.withContent content result).marks ≤ proposal.marks))
  | .consolidate agentId shown excerpts reply axis _ =>
      inferInstanceAs (Decidable (∀ change ∈
        (check env (db.gather agentId shown excerpts) reply).changes,
          change.action = .merge →
            RejectedBefore db.proposals change ∨ ¬ AutoApplies change axis))
  | .approve id _ =>
      inferInstanceAs (Decidable (∀ proposal ∈ db.proposals.get? id,
        proposal.status = .pending → proposal.action = .merge →
          (activeRecords proposal.sourceIds db.records).length = proposal.sourceIds.length →
            ∀ row ∈ activeRecords proposal.sourceIds db.records, row.validUntil = none))

structure LinkKept (db : Database) (link : MemorySource) : Prop where
  merged : ∃ merged ∈ db.records.rows, merged.id = link.recordId
  source : ∃ source ∈ db.records.rows, source.id = link.sourceRecordId ∧
    source.status ≠ .active ∧ source.validUntil = none
  marks : link.recordId ∉ db.contentUpdates → ∀ merged ∈ db.records.rows,
    merged.id = link.recordId → ∀ source ∈ db.records.rows, source.id = link.sourceRecordId →
      source.marks ≤ merged.marks
  approved : ApprovedByPerson db link.recordId

structure PendingKept (db : Database) (proposal : MemoryProposal) : Prop where
  flags : .autoApplied ∉ proposal.flags
  marks : proposal.action = .merge → ∀ id ∈ proposal.sourceIds, ∃ row ∈ db.records.rows,
    row.id = id ∧ row.marks ≤ proposal.marks

/-- What a run keeps. -/
structure Traced (db : Database) : Prop where
  links : ∀ link ∈ db.sources, LinkKept db link
  pending : ∀ proposal ∈ db.proposals.rows, proposal.status = .pending → PendingKept db proposal

theorem traced_initial : Traced {} where
  links := fun _ member => absurd member List.not_mem_nil
  pending := fun _ member => absurd member List.not_mem_nil

/-- Every memory is still there, those that are not active as they were. -/
def RowsKept (before after : Database) : Prop :=
  ∀ row ∈ before.records.rows, ∃ kept ∈ after.records.rows, kept.id = row.id ∧
    (row.status ≠ .active → kept = row) ∧
      (kept.marks = row.marks ∨ row.id ∈ after.contentUpdates)

/-- Every memory is still there with its marks, those that are not active as they were. -/
def MarksKept (before after : Database) : Prop :=
  ∀ row ∈ before.records.rows, ∃ kept ∈ after.records.rows, kept.id = row.id ∧
    (row.status ≠ .active → kept = row) ∧ kept.marks = row.marks

theorem MarksKept.rowsKept {before after : Database} (kept : MarksKept before after) :
    RowsKept before after := by
  intro row member
  obtain ⟨new, newMember, sameId, frozen, marks⟩ := kept row member
  exact ⟨new, newMember, sameId, frozen, Or.inl marks⟩

theorem MarksKept.refl (db : Database) : MarksKept db db :=
  fun row member => ⟨row, member, rfl, fun _ => rfl, rfl⟩

theorem MarksKept.trans {first second third : Database} (lower : MarksKept first second)
    (upper : MarksKept second third) : MarksKept first third := by
  intro row member
  obtain ⟨middle, middleMember, sameId, frozen, marks⟩ := lower row member
  obtain ⟨last, lastMember, lastId, lastFrozen, lastMarks⟩ := upper middle middleMember
  refine ⟨last, lastMember, lastId.trans sameId, ?_, lastMarks.trans marks⟩
  intro inactive
  have same := frozen inactive
  rw [lastFrozen (same ▸ inactive), same]

namespace LinkKept

variable {before after : Database} {link : MemorySource}

theorem congr (kept : LinkKept before link) (rows : RowsKept before after)
    (updates : before.contentUpdates ⊆ after.contentUpdates)
    (approved : ∀ proposal ∈ before.proposals.rows, proposal.status = .approved →
      proposal ∈ after.proposals.rows) : LinkKept after link := by
  obtain ⟨merged, mergedMember, mergedId⟩ := kept.merged
  obtain ⟨source, sourceMember, sourceId, inactive, endless⟩ := kept.source
  obtain ⟨newMerged, newMergedMember, sameMerged, _, mergedMarks⟩ := rows merged mergedMember
  obtain ⟨newSource, newSourceMember, _, frozen, _⟩ := rows source sourceMember
  obtain rfl := frozen inactive
  constructor
  case merged => exact ⟨newMerged, newMergedMember, sameMerged.trans mergedId⟩
  case source => exact ⟨newSource, newSourceMember, sourceId, inactive, endless⟩
  case marks =>
      intro unwritten other otherMember otherId third thirdMember thirdId
      have sameOther := after.records.eq_of_key_eq otherMember newMergedMember
        (otherId.trans (sameMerged.trans mergedId).symm)
      have sameThird := after.records.eq_of_key_eq thirdMember newSourceMember
        (thirdId.trans sourceId.symm)
      have sameMarks : newMerged.marks = merged.marks := by
        rcases mergedMarks with same | written
        · exact same
        · exact absurd (mergedId ▸ written) unwritten
      rw [sameOther, sameThird, sameMarks]
      exact kept.marks (fun written => unwritten (updates written)) merged mergedMember mergedId
        newSource sourceMember sourceId
  case approved =>
      obtain ⟨proposal, member, recordId, status, byPerson⟩ := kept.approved
      exact ⟨proposal, approved proposal member status, recordId, status, byPerson⟩

end LinkKept

theorem PendingKept.congr {before after : Database} {proposal : MemoryProposal}
    (kept : PendingKept before proposal) (rows : MarksKept before after) :
    PendingKept after proposal where
  flags := kept.flags
  marks := by
    intro merges id source
    obtain ⟨row, member, sameId, below⟩ := kept.marks merges id source
    obtain ⟨new, newMember, newId, _, marks⟩ := rows row member
    exact ⟨new, newMember, newId.trans sameId, marks ▸ below⟩

theorem mem_activeRecords {ids : List Uuid} {records : Table MemoryRecord.id}
    {row : MemoryRecord} : row ∈ activeRecords ids records ↔
      row ∈ records.rows ∧ row.status = .active ∧ row.id ∈ ids := by
  unfold activeRecords
  simp only [List.mem_filterMap, Option.filter_eq_some_iff, Table.get?_eq_some_iff,
    decide_eq_true_eq]
  constructor
  · rintro ⟨id, listed, ⟨member, rfl⟩, active⟩
    exact ⟨member, active, listed⟩
  · rintro ⟨member, active, listed⟩
    exact ⟨row.id, listed, ⟨member, rfl⟩, active⟩

section Writes

variable {db after : Database} {ids : List Uuid} {change : MemoryRecord → MemoryRecord}

theorem marksKept_updateRecords (keeps : ∀ row, (change row).id = row.id)
    (updated : after.records = (db.updateRecords ids change keeps).records)
    (active : ∀ row ∈ db.records.rows, row.id ∈ ids → row.status = .active)
    (marks : ∀ row, (change row).marks = row.marks) : MarksKept db after := by
  intro row member
  have rows (other : MemoryRecord) := @Table.mem_updateWhere _ _ _ db.records
    (fun row => ids.contains row.id) change keeps other
  rw [updated]
  by_cases listed : row.id ∈ ids
  · refine ⟨change row, (rows _).mpr
      (Or.inl ⟨row, member, List.contains_iff_mem.mpr listed, rfl⟩), keeps row, ?_, marks row⟩
    exact fun inactive => absurd (active row member listed) inactive
  · refine ⟨row, (rows _).mpr (Or.inr ⟨member, ?_⟩), rfl, fun _ => rfl, rfl⟩
    rwa [List.contains_iff_mem]

theorem active_of_mem {rows : List MemoryRecord}
    (sources : ∀ row ∈ rows, row ∈ db.records.rows ∧ row.status = .active) :
    ∀ row ∈ db.records.rows, row.id ∈ rows.map MemoryRecord.id → row.status = .active := by
  intro row member listed
  obtain ⟨source, sourceListed, sameId⟩ := List.mem_map.mp listed
  obtain ⟨sourceMember, active⟩ := sources source sourceListed
  rwa [← db.records.eq_of_key_eq sourceMember member sameId]

/-- What a change that is no merge keeps. -/
theorem carryOut_of_ne_merge {now : Time} {proposal : MemoryProposal}
    {sources : List MemoryRecord} {after : Database}
    (succeeded : db.carryOut now proposal sources = .ok after) (notMerge : proposal.action ≠ .merge)
    (active : ∀ row ∈ sources, row ∈ db.records.rows ∧ row.status = .active) :
    MarksKept db after ∧ after.sources = db.sources ∧
      after.contentUpdates = db.contentUpdates ∧
        after.proposals = db.proposals.save { proposal with status := .approved } := by
  have one {row : MemoryRecord} (listed : row ∈ sources) : ∀ other ∈ db.records.rows,
      other.id ∈ [row.id] → other.status = .active := by
    apply @active_of_mem db [row]
    intro other member
    rw [List.mem_singleton.mp member]
    exact active row listed
  unfold Database.carryOut at succeeded
  split at succeeded
  case h_1 action => exact absurd action notMerge
  case h_2 old new _ =>
      obtain rfl := Except.ok.inj succeeded
      exact ⟨marksKept_updateRecords (by intro; rfl) rfl (one List.mem_cons_self) fun _ => rfl,
        rfl, rfl, rfl⟩
  case h_3 row _ =>
      obtain rfl := Except.ok.inj succeeded
      exact ⟨marksKept_updateRecords (by intro; rfl) rfl (one List.mem_cons_self) fun _ => rfl,
        rfl, rfl, rfl⟩
  case h_4 row _ =>
      obtain rfl := Except.ok.inj succeeded
      exact ⟨marksKept_updateRecords (by intro; rfl) rfl (one List.mem_cons_self) fun _ => rfl,
        rfl, rfl, rfl⟩
  case h_5 =>
      obtain rfl := Except.ok.inj succeeded
      exact ⟨MarksKept.refl db, rfl, rfl, rfl⟩
  case h_6 => cases succeeded

end Writes

structure CarriedOut (db after : Database) (proposal : MemoryProposal)
    (sources : List MemoryRecord) : Prop where
  rows : MarksKept db after
  links : after.sources =
    db.sources ++ sources.map fun row => MemorySource.mk db.nextId row.id
  updates : after.contentUpdates = db.contentUpdates
  proposals : after.proposals =
    db.proposals.save { proposal with status := .approved, recordId := some db.nextId }
  merged : ∃ merged ∈ after.records.rows, merged.id = db.nextId ∧ merged.marks = proposal.marks
  superseded : ∀ source ∈ sources, ∃ row ∈ after.records.rows, row.id = source.id ∧
    row.status ≠ .active ∧ row.validUntil = source.validUntil ∧ row.marks = source.marks

theorem carryOut_of_merge {db after : Database} {now : Time} {proposal : MemoryProposal}
    {sources : List MemoryRecord} (succeeded : db.carryOut now proposal sources = .ok after)
    (merge : proposal.action = .merge)
    (active : ∀ row ∈ sources, row ∈ db.records.rows ∧ row.status = .active) :
    CarriedOut db after proposal sources := by
  simp only [Database.carryOut, merge] at succeeded
  split at succeeded
  case h_1 => cases succeeded
  case h_2 records inserted =>
  obtain ⟨rows, _⟩ := Table.insert?_eq_some inserted
  have added : ∀ row, row ∈ records.rows ↔
      row ∈ db.records.rows ∨ row = mergedRecord proposal sources db.nextId := by
    intro row
    rw [rows, List.mem_append, List.mem_singleton]
  obtain rfl := Except.ok.inj succeeded
  have kept : MarksKept { db with records } (({ db with
      records
      sources := db.sources ++ sources.map fun row => MemorySource.mk db.nextId row.id
      nextId := db.nextId + 1 } : Database).updateRecords (sources.map MemoryRecord.id)
        (fun row => { row with status := .superseded, supersededById := some db.nextId })
          fun _ => rfl) := by
    refine marksKept_updateRecords (by intro; rfl) rfl ?_ fun _ => rfl
    intro row member listed
    rcases (added row).mp member with old | rfl
    · exact active_of_mem active row old listed
    · rfl
  constructor
  case rows =>
      intro row member
      exact kept row ((added row).mpr (Or.inl member))
  case links => rfl
  case updates => rfl
  case proposals => rfl
  case merged =>
      obtain ⟨merged, mergedMember, sameId, _, marks⟩ :=
        kept (mergedRecord proposal sources db.nextId) ((added _).mpr (Or.inr rfl))
      exact ⟨merged, mergedMember, sameId, marks.trans (marks_mergedRecord ..)⟩
  case superseded =>
  intro source listed
  have stored := (added source).mpr (Or.inl (active source listed).1)
  exact ⟨{ source with status := .superseded, supersededById := some db.nextId },
    List.mem_map.mpr ⟨source, stored,
      if_pos (List.contains_iff_mem.mpr (List.mem_map_of_mem listed))⟩,
    rfl, by simp, rfl, rfl⟩

namespace Traced

variable {db after : Database}

theorem congr (traced : Traced db) (rows : MarksKept db after) (links : after.sources = db.sources)
    (updates : after.contentUpdates = db.contentUpdates)
    (approved : ∀ proposal ∈ db.proposals.rows, proposal.status = .approved →
      proposal ∈ after.proposals.rows)
    (pending : ∀ proposal ∈ after.proposals.rows, proposal.status = .pending →
      proposal ∈ db.proposals.rows ∨ PendingKept after proposal) : Traced after where
  links := by
    intro link member
    rw [links] at member
    exact (traced.links link member).congr rows.rowsKept (updates ▸ List.Subset.refl _) approved
  pending := by
    intro proposal member waits
    rcases pending proposal member waits with old | new
    · exact (traced.pending proposal old waits).congr rows
    · exact new

end Traced

section Saves

variable {proposals : Table MemoryProposal.id} {saved : MemoryProposal}

/-- An approved proposal is kept when another one is resolved. -/
theorem mem_save_of_approved (stored : ∃ old ∈ proposals.rows, old.id = saved.id ∧
      old.status = .pending) : ∀ proposal ∈ proposals.rows, proposal.status = .approved →
        proposal ∈ (proposals.save saved).rows := by
  intro proposal member approved
  obtain ⟨old, oldMember, sameId, waits⟩ := stored
  refine Table.mem_save.mpr (Or.inr ⟨member, ?_⟩)
  intro same
  rw [proposals.eq_of_key_eq member oldMember (same.trans sameId.symm), waits] at approved
  cases approved

theorem mem_of_save_pending (resolved : saved.status ≠ .pending) :
    ∀ proposal ∈ (proposals.save saved).rows, proposal.status = .pending →
      proposal ∈ proposals.rows := by
  intro proposal member waits
  rcases Table.mem_save.mp member with ⟨rfl, _⟩ | ⟨old, _⟩
  · exact absurd waits resolved
  · exact old

end Saves

namespace Traced

variable {db after : Database}

theorem applyProposal (traced : Traced db) {now : Time} {proposal : MemoryProposal}
    (succeeded : db.applyProposal now proposal = .ok after)
    (stored : ∃ old ∈ db.proposals.rows, old.id = proposal.id ∧ old.status = .pending)
    (waits : proposal.action = .merge → PendingKept db proposal)
    (endless : proposal.action = .merge →
      (activeRecords proposal.sourceIds db.records).length = proposal.sourceIds.length →
        ∀ row ∈ activeRecords proposal.sourceIds db.records, row.validUntil = none) :
    Traced after := by
  unfold Database.applyProposal at succeeded
  dsimp only at succeeded
  split at succeeded
  case isTrue => cases succeeded
  case isFalse complete =>
  rw [not_not] at complete
  have active : ∀ row ∈ activeRecords proposal.sourceIds db.records,
      row ∈ db.records.rows ∧ row.status = .active := by
    intro row listed
    obtain ⟨member, active, _⟩ := mem_activeRecords.mp listed
    exact ⟨member, active⟩
  by_cases merge : proposal.action = .merge
  · have done := carryOut_of_merge succeeded merge active
    have approved : ∀ other ∈ db.proposals.rows, other.status = .approved →
        other ∈ after.proposals.rows := by
      rw [done.proposals]
      exact mem_save_of_approved stored
    have waiting := waits merge
    constructor
    case links =>
        intro link member
        rw [done.links, List.mem_append] at member
        rcases member with old | new
        · exact (traced.links link old).congr done.rows.rowsKept
            (done.updates ▸ List.Subset.refl _) approved
        · obtain ⟨source, listed, rfl⟩ := List.mem_map.mp new
          obtain ⟨merged, mergedMember, mergedId, mergedMarks⟩ := done.merged
          obtain ⟨row, rowMember, rowId, inactive, validUntil, rowMarks⟩ :=
            done.superseded source listed
          constructor
          case merged => exact ⟨merged, mergedMember, mergedId⟩
          case source =>
              exact ⟨row, rowMember, rowId, inactive,
                validUntil.trans (endless merge complete source listed)⟩
          case marks =>
              intro _ other otherMember otherId third thirdMember thirdId
              rw [after.records.eq_of_key_eq otherMember mergedMember
                  (otherId.trans mergedId.symm),
                after.records.eq_of_key_eq thirdMember rowMember (thirdId.trans rowId.symm),
                mergedMarks, rowMarks]
              obtain ⟨sourceMember, _, named⟩ := mem_activeRecords.mp listed
              obtain ⟨same, sameMember, sameId, below⟩ := waiting.marks merge source.id named
              rwa [db.records.eq_of_key_eq sameMember sourceMember sameId] at below
          case approved =>
          obtain ⟨old, oldMember, oldId, _⟩ := stored
          refine ⟨{ proposal with status := .approved, recordId := some db.nextId },
            ?_, rfl, rfl, waiting.flags⟩
          rw [done.proposals]
          exact Table.mem_save.mpr (Or.inl ⟨rfl, old, oldMember, oldId⟩)
    case pending =>
    intro other member waits
    rw [done.proposals] at member
    exact (traced.pending other (mem_of_save_pending (by simp) other member waits)
      waits).congr done.rows
  · obtain ⟨rows, links, updates, proposals⟩ := carryOut_of_ne_merge succeeded merge active
    apply traced.congr rows links updates
    · rw [proposals]
      exact mem_save_of_approved stored
    · intro other member waits
      rw [proposals] at member
      exact Or.inl (mem_of_save_pending (by simp) other member waits)

end Traced

end NaturalMold.MemoryConsolidation

import Mathlib.Data.Finset.Lattice.Lemmas
import NaturalMold.MergedMemories

/-! # Runs of merges -/

namespace NaturalMold.MemoryConsolidation

open Conversations (Uuid Time)
open CronExpressions (Text)
open Fallible FirstOccurrences KeyedTables Relation StepRuns

theorem mem_gather {db : Database} {agentId : Option Uuid} {shown : List Uuid}
    {excerpts : List Text} {row : MemoryRecord}
    (listed : row ∈ (db.gather agentId shown excerpts).records.map Prod.snd) :
    row ∈ db.records.rows := by
  unfold Database.gather at listed
  dsimp only at listed
  obtain ⟨_, entry, rfl⟩ := List.mem_map.mp listed
  obtain ⟨numbered, member, rfl⟩ := List.mem_map.mp entry
  have shownRow := (List.mem_filter.mp (List.fst_mem_of_mem_zipIdx member)).1
  exact (mem_activeRecords.mp shownRow).1

namespace Traced

variable {db : Database}

theorem insertProposal (traced : Traced db) {agentId : Option Uuid} {change : Change}
    {proposals : Table MemoryProposal.id} (next : ℕ)
    (inserted : db.proposals.insert? (proposalOf agentId change db.nextId) = some proposals)
    (known : ∀ row ∈ change.sources, ∃ stored ∈ db.records.rows,
      stored.id = row.id ∧ stored.marks = row.marks) :
    Traced { db with proposals, nextId := next } := by
  obtain ⟨rows, _⟩ := Table.insert?_eq_some inserted
  refine traced.congr (MarksKept.refl db) rfl rfl ?_ ?_
  · intro proposal member _
    dsimp only
    rw [rows]
    exact List.mem_append_left _ member
  · intro proposal member _
    dsimp only at member
    rw [rows, List.mem_append, List.mem_singleton] at member
    rcases member with old | rfl
    · exact Or.inl old
    · right
      constructor
      case flags => exact autoApplied_notMem_proposalOf agentId change db.nextId
      case marks =>
      intro _ id named
      obtain ⟨row, listed, rfl⟩ := List.mem_map.mp named
      obtain ⟨stored, member, sameId, marks⟩ := known row listed
      exact ⟨stored, member, sameId, marks ▸ marks_le_proposalOf listed agentId db.nextId⟩

end Traced

/-- What a change of a run leaves as it was. -/
structure Proposed (db after : Database) : Prop where
  traced : Traced after
  rows : MarksKept db after
  proposals : ∀ proposal ∈ db.proposals.rows, proposal ∈ after.proposals.rows

theorem Proposed.trans {first second third : Database} (lower : Proposed first second)
    (upper : Proposed second third) : Proposed first third where
  traced := upper.traced
  rows := lower.rows.trans upper.rows
  proposals := fun proposal member => upper.proposals proposal (lower.proposals proposal member)

theorem Proposed.refl {db : Database} (traced : Traced db) : Proposed db db :=
  ⟨traced, MarksKept.refl db, fun _ member => member⟩

theorem proposed_propose {db : Database} (traced : Traced db) (agentId : Option Uuid)
    {axis : AxisValue} (now : Time) {change : Change}
    (known : ∀ row ∈ change.sources, ∃ stored ∈ db.records.rows,
      stored.id = row.id ∧ stored.marks = row.marks)
    (byPerson : change.action = .merge →
      RejectedBefore db.proposals change ∨ ¬ AutoApplies change axis) :
    Proposed db (db.propose agentId axis now change) := by
  unfold Database.propose
  split
  case isTrue => exact Proposed.refl traced
  case isFalse unseen =>
  dsimp only
  split
  case h_1 => exact Proposed.refl traced
  case h_2 proposals inserted =>
  obtain ⟨rows, unused⟩ := Table.insert?_eq_some inserted
  have member : proposalOf agentId change db.nextId ∈ proposals.rows := by
    rw [rows]
    exact List.mem_append_right _ (List.mem_singleton_self _)
  have added := traced.insertProposal (db.nextId + 1) inserted known
  split
  case isFalse =>
      refine ⟨added, MarksKept.refl db, ?_⟩
      intro proposal old
      dsimp only
      rw [rows]
      exact List.mem_append_left _ old
  case isTrue auto =>
  have notMerge : change.action ≠ .merge := by
    intro merge
    rcases byPerson merge with seen | waits
    · exact unseen seen
    · exact waits auto
  split
  case h_2 => exact ⟨traced.congr (MarksKept.refl db) rfl rfl
    (fun _ member _ => member) (fun _ member _ => Or.inl member),
    MarksKept.refl db, fun _ member => member⟩
  case h_1 applied succeeded =>
  have kept := added.applyProposal succeeded
    ⟨_, member, rfl, rfl⟩ (fun merge => absurd merge notMerge)
    (fun merge => absurd merge notMerge)
  unfold Database.applyProposal at succeeded
  dsimp only at succeeded
  split at succeeded
  case isTrue => cases succeeded
  case isFalse =>
  obtain ⟨marks, _, _, saved⟩ := carryOut_of_ne_merge succeeded notMerge
    fun row listed =>
      ⟨(mem_activeRecords.mp listed).1, (mem_activeRecords.mp listed).2.1⟩
  refine ⟨kept, marks, ?_⟩
  intro proposal old
  rw [saved]
  refine Table.mem_save.mpr (Or.inr ⟨?_, unused proposal old⟩)
  dsimp only
  rw [rows]
  exact List.mem_append_left _ old

namespace Traced

variable {db : Database} {env : Environment}

theorem saveRecord (traced : Traced db) (row : MemoryRecord) : Traced (db.saveRecord row) := by
  unfold Database.saveRecord
  split
  case h_1 => exact traced
  case h_2 records inserted =>
  obtain ⟨rows, _⟩ := Table.insert?_eq_some inserted
  refine traced.congr ?_ rfl rfl (fun _ member _ => member) (fun _ member _ => Or.inl member)
  intro old member
  refine ⟨old, ?_, rfl, fun _ => rfl, rfl⟩
  dsimp only
  rw [rows]
  exact List.mem_append_left _ member

theorem consolidate (traced : Traced db) (agentId : Option Uuid) (shown : List Uuid)
    (excerpts : List Text) {reply : Reply} {axis : AxisValue} (now : Time)
    (byPerson : ∀ change ∈ (check env (db.gather agentId shown excerpts) reply).changes,
      change.action = .merge → RejectedBefore db.proposals change ∨ ¬ AutoApplies change axis) :
    Traced (db.consolidate env agentId (db.gather agentId shown excerpts) reply axis now) := by
  have known : ∀ change ∈ (check env (db.gather agentId shown excerpts) reply).changes,
      ∀ row ∈ change.sources, row ∈ db.records.rows :=
    fun _ member row listed => mem_gather ((accepted_of_check member).known row listed)
  have proposed (changes : List Change) : ∀ current, Proposed db current →
      (∀ change ∈ changes, change ∈
        (check env (db.gather agentId shown excerpts) reply).changes) →
      Proposed db (changes.foldl
        (fun db change => db.propose agentId axis now change) current) := by
    induction changes with
    | nil => exact fun _ kept _ => kept
    | cons change changes ih =>
        intro current kept members
        rw [List.foldl_cons]
        apply ih
        · have member := members change List.mem_cons_self
          apply kept.trans
          apply proposed_propose kept.traced
          · intro row listed
            obtain ⟨stored, storedMember, sameId, _, marks⟩ :=
              kept.rows row (known change member row listed)
            exact ⟨stored, storedMember, sameId, marks⟩
          · intro merge
            apply (byPerson change member merge).imp_left
            rintro ⟨proposal, old, same⟩
            exact ⟨proposal, kept.proposals proposal old, same⟩
        · exact fun other listed => members other (List.mem_cons_of_mem _ listed)
  have kept := proposed _ db (Proposed.refl traced) (fun _ member => member)
  unfold Database.consolidate
  dsimp only
  refine kept.traced.congr ?_ rfl rfl (fun _ member _ => member) (fun _ member _ => Or.inl member)
  intro row member
  by_cases passes : ((((db.gather agentId shown excerpts).excerpts.filterMap
      (db.gather agentId shown excerpts).find?).map MemoryRecord.id).contains row.id &&
        decide (row.status = .active)) = true
  · refine ⟨{ row with flags := row.flags ∪ {.groundedAt} },
      List.mem_map.mpr ⟨row, member, if_pos passes⟩, rfl, ?_, ?_⟩
    · rw [Bool.and_eq_true, decide_eq_true_eq] at passes
      exact fun inactive => absurd passes.2 inactive
    · unfold MemoryRecord.marks
      dsimp only
      congr 1
      have unreviewed : {Flag.groundedAt} ∩ reviewFlags = ∅ := by decide
      rw [Finset.union_inter_distrib_right, unreviewed, Finset.union_empty]
  · exact ⟨row, List.mem_map.mpr ⟨row, member, if_neg passes⟩, rfl, fun _ => rfl, rfl⟩

theorem close (traced : Traced db) {proposal : MemoryProposal} {status : ProposalStatus}
    (stored : db.proposals.get? proposal.id = some proposal) (waits : proposal.status = .pending)
    (closed : status ≠ .pending) :
    Traced { db with proposals := db.proposals.save { proposal with status } } := by
  have member := (Table.get?_eq_some_iff.mp stored).1
  refine traced.congr (MarksKept.refl db) rfl rfl ?_ ?_
  · exact mem_save_of_approved ⟨proposal, member, rfl, waits⟩
  · exact fun other listed waits => Or.inl (mem_of_save_pending closed other listed waits)

theorem approve (traced : Traced db) (id : Uuid) (now : Time)
    (endless : NarrowsMerges env db (.approve id now)) : Traced (db.approve id now) := by
  unfold Database.approve
  split
  case h_1 => exact traced
  case h_2 proposal found =>
  obtain ⟨member, sameId⟩ := Table.get?_eq_some_iff.mp found
  split
  case isTrue => exact traced
  case isFalse decidable =>
  rw [not_or, not_not] at decidable
  split
  case h_1 applied succeeded =>
      exact traced.applyProposal succeeded ⟨proposal, member, rfl, decidable.1⟩
        (fun _ => traced.pending proposal member decidable.1)
        (endless proposal found decidable.1)
  case h_2 => exact traced.close (sameId ▸ found) decidable.1 (by simp)
  case h_3 => exact traced

theorem reject (traced : Traced db) (id : Uuid) : Traced (db.reject id) := by
  unfold Database.reject
  split
  case h_1 => exact traced
  case h_2 proposal found =>
  split
  case isTrue => exact traced
  case isFalse waits =>
      exact traced.close ((Table.get?_eq_some_iff.mp found).2 ▸ found) (not_not.mp waits)
        (by simp)

theorem updateContent (traced : Traced db) (id : Uuid) (content : Text)
    (below : NarrowsMerges env db (.updateContent id content)) :
    Traced (db.updateContent env id content) := by
  unfold Database.updateContent
  split
  case h_2 => exact traced
  case h_1 row result found checked =>
  split
  case isTrue => exact traced
  case isFalse active =>
  rw [not_not] at active
  obtain ⟨member, sameId⟩ := Table.get?_eq_some_iff.mp found
  constructor
  case links =>
      intro link listed
      refine (traced.links link listed).congr ?_ (List.subset_append_left _ _)
        (fun _ stays _ => stays)
      intro old oldMember
      by_cases same : old.id = row.id
      · obtain rfl := db.records.eq_of_key_eq oldMember member same
        refine ⟨old.withContent content result,
          Table.mem_save.mpr (Or.inl ⟨rfl, old, oldMember, rfl⟩), rfl, ?_, Or.inr ?_⟩
        · exact fun inactive => absurd active inactive
        · rw [sameId]
          exact List.mem_append_right _ (List.mem_singleton_self id)
      · exact ⟨old, Table.mem_save.mpr (Or.inr ⟨oldMember, same⟩), rfl, fun _ => rfl,
          Or.inl rfl⟩
  case pending =>
  intro proposal listed waits
  have kept := traced.pending proposal listed waits
  refine ⟨kept.flags, ?_⟩
  intro merge sourceId named
  obtain ⟨old, oldMember, oldId, marks⟩ := kept.marks merge sourceId named
  by_cases same : old.id = row.id
  · refine ⟨row.withContent content result,
      Table.mem_save.mpr (Or.inl ⟨rfl, row, member, rfl⟩), same.symm.trans oldId, ?_⟩
    refine below row found result checked proposal listed waits merge ?_
    rwa [← sameId, ← same, oldId]
  · exact ⟨old, Table.mem_save.mpr (Or.inr ⟨oldMember, same⟩), oldId, marks⟩

theorem step (traced : Traced db) (action : Action) (narrows : NarrowsMerges env db action) :
    Traced (step env db action) := by
  cases action with
  | saveRecord row => exact traced.saveRecord row
  | updateContent id content => exact traced.updateContent id content narrows
  | consolidate agentId shown excerpts reply axis now =>
      exact traced.consolidate agentId shown excerpts now narrows
  | approve id now => exact traced.approve id now narrows
  | reject id => exact traced.reject id

/-- A kept link is a narrow one, and so is every chain of them. -/
theorem neverWidens (traced : Traced db) : NeverWidens db := by
  intro merged source chain
  have kept : ApprovedByPerson db merged.id ∧ source.validUntil = none ∧
      source.marks ≤ merged.marks := by
    induction chain with
    | single link =>
        obtain ⟨mergedMember, sourceMember, linked, unwritten⟩ := link
        have link := traced.links _ linked
        obtain ⟨row, member, sameId, _, endless⟩ := link.source
        refine ⟨link.approved, ?_,
          link.marks unwritten merged mergedMember rfl _ sourceMember rfl⟩
        rwa [← db.records.eq_of_key_eq member sourceMember sameId]
    | tail _ link ih =>
        obtain ⟨mergedMember, sourceMember, linked, unwritten⟩ := link
        have link := traced.links _ linked
        obtain ⟨row, member, sameId, _, endless⟩ := link.source
        refine ⟨ih.1, ?_,
          (link.marks unwritten _ mergedMember rfl _ sourceMember rfl).trans ih.2.2⟩
        rwa [← db.records.eq_of_key_eq member sourceMember sameId]
  constructor
  case lifetime =>
      intro time _ validUntil ends
      rw [kept.2.1] at ends
      cases ends
  case label => exact fun _ => Or.inl kept.1
  case marks => exact kept.2.2

end Traced

/-- In a run that narrows its merges, no chain of merges widens a memory. -/
theorem run_neverWidens {env : Environment} (actions : List Action)
    (every : EveryStep (step env) (NarrowsMerges env) {} actions) :
    NeverWidens (run (step env) {} actions) :=
  Traced.neverWidens
    (run_allowed_invariant Traced (fun _ action narrows traced => traced.step action narrows)
      traced_initial every)

def lenient : Environment where
  claimsDiverge := fun _ _ => false
  checkText := fun _ => some { flags := ∅, sensitivity := .normal }

def agentMemory (content : Text) : MemoryRecord where
  id := 0
  isAgentScope := false
  agentId := none
  content := content
  reason := none
  status := .active
  kind := .fact
  subject := .self
  topic := none
  origin := .agentInferred
  sensitivity := .normal
  importance := 1
  validUntil := none
  supersededById := none
  approvalChannel := some .autoPolicy
  flags := ∅

/-- Two memories that the model merges. -/
def teaMerge (axis : AxisValue) : List Action :=
  [.saveRecord (agentMemory ['t', 'e', 'a']), .saveRecord (agentMemory ['c', 'u', 'p']),
    .consolidate none [0, 1] [] { merge := [[['m', '1'], ['m', '2']]] } axis 9]

/-- The person approves the merge. -/
theorem run_neverWidens_approved :
    NeverWidens (run (step lenient) {} (teaMerge .approve ++ [.approve 2 10])) :=
  run_neverWidens _ ⟨trivial, trivial, by decide, by decide, trivial⟩

/-- A merge that is applied at once is labelled as confirmed by a person. -/
theorem autoMerge_widens : ¬ ∀ env actions, NeverWidens (run (step env) {} actions) := by
  intro never
  have narrower := never lenient (teaMerge .auto)
    (mergedRecord (proposalOf none
      { action := .merge
        sources := [{ agentMemory ['t', 'e', 'a'] with id := 0 },
          { agentMemory ['c', 'u', 'p'] with id := 1 }]
        content := ['t', 'e', 'a', ' ', 'c', 'u', 'p']
        reason := none
        review := false
        replacesConfirmed := false } 2) [agentMemory []] 3)
    { agentMemory ['t', 'e', 'a'] with status := .superseded, supersededById := some 3 }
    (TransGen.single ⟨by decide, by decide, by decide, by decide⟩)
  rcases narrower.label (by decide) with ⟨proposal, member, _, _, byPerson⟩ | human
  · have auto : ∀ proposal ∈ (run (step lenient) {} (teaMerge .auto)).proposals.rows,
        .autoApplied ∈ proposal.flags := by decide
    exact byPerson (auto proposal member)
  · revert human
    decide

end NaturalMold.MemoryConsolidation

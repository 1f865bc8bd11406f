import Mathlib.Order.Basic
import NaturalMold.MemoryConsolidation

/-! # Marks of memories -/

namespace NaturalMold.MemoryConsolidation

open Conversations (Uuid Time)
open CronExpressions (Text)
open Fallible FirstOccurrences KeyedTables StepRuns

structure Marks where
  origin : MemoryOrigin
  sensitivity : MemorySensitivity
  subject : MemorySubject
  review : Finset Flag

/-- Every mark is at least as strict. -/
instance : Preorder Marks where
  le first second :=
    first.origin.index ≤ second.origin.index ∧
      first.sensitivity.index ≤ second.sensitivity.index ∧
        (first.subject = .other → second.subject = .other) ∧ first.review ⊆ second.review
  le_refl _ := ⟨Nat.le_refl _, Nat.le_refl _, id, Finset.Subset.refl _⟩
  le_trans _ _ _ lower upper :=
    ⟨lower.1.trans upper.1, lower.2.1.trans upper.2.1, upper.2.2.1 ∘ lower.2.2.1,
      lower.2.2.2.trans upper.2.2.2⟩

instance (first second : Marks) : Decidable (first ≤ second) :=
  inferInstanceAs (Decidable (_ ∧ _))

def MemoryRecord.marks (record : MemoryRecord) : Marks where
  origin := record.origin
  sensitivity := record.sensitivity
  subject := record.subject
  review := record.flags ∩ reviewFlags

def MemoryProposal.marks (proposal : MemoryProposal) : Marks where
  origin := proposal.origin
  sensitivity := proposal.sensitivity
  subject := proposal.subject
  review := proposal.flags ∩ reviewFlags

section Strictest

variable {Value : Type} {index : Value → ℕ} {default : Value}

theorem index_foldl_max (values : List Value) (start : Value) :
    index start ≤ index (values.foldl
        (fun best next => if index best < index next then next else best) start) ∧
      ∀ value ∈ values, index value ≤ index (values.foldl
        (fun best next => if index best < index next then next else best) start) := by
  induction values generalizing start with
  | nil => exact ⟨Nat.le_refl _, fun _ member => absurd member List.not_mem_nil⟩
  | cons next values ih =>
      rw [List.foldl_cons]
      obtain ⟨best, others⟩ := ih (if index start < index next then next else start)
      have both : index start ≤ index (if index start < index next then next else start) ∧
          index next ≤ index (if index start < index next then next else start) := by
        split <;> omega
      refine ⟨both.1.trans best, ?_⟩
      intro value member
      rcases List.mem_cons.mp member with rfl | listed
      · exact both.2.trans best
      · exact others value listed

theorem index_le_strictest {values : List Value} {value : Value} (member : value ∈ values) :
    index value ≤ index (strictest index default values) := by
  cases values with
  | nil => cases member
  | cons first values =>
      obtain ⟨best, others⟩ := @index_foldl_max Value index values first
      rcases List.mem_cons.mp member with rfl | listed
      · exact best
      · exact others value listed

end Strictest

/-- A proposal is at least as strict as each memory that it is made from. -/
theorem marks_le_proposalOf {change : Change} {row : MemoryRecord} (source : row ∈ change.sources)
    (agentId : Option Uuid) (id : Uuid) : row.marks ≤ (proposalOf agentId change id).marks := by
  refine ⟨index_le_strictest (List.mem_map_of_mem source),
    index_le_strictest (List.mem_map_of_mem source), ?_, ?_⟩
  · intro isOther
    exact if_pos ⟨row, source, isOther⟩
  · intro flag member
    obtain ⟨listed, review⟩ := Finset.mem_inter.mp member
    refine Finset.mem_inter.mpr ⟨?_, review⟩
    apply Finset.mem_union_left
    apply Finset.mem_union_left
    apply Finset.mem_union_right
    exact Finset.mem_filter.mpr ⟨review, row, source, listed⟩

@[simp]
theorem marks_mergedRecord (proposal : MemoryProposal) (sources : List MemoryRecord) (id : Uuid) :
    (mergedRecord proposal sources id).marks = proposal.marks := by
  unfold MemoryRecord.marks MemoryProposal.marks mergedRecord
  dsimp only
  rw [Finset.inter_assoc, Finset.inter_self]

theorem autoApplied_notMem_proposalOf (agentId : Option Uuid) (change : Change) (id : Uuid) :
    .autoApplied ∉ (proposalOf agentId change id).flags := by
  unfold proposalOf reviewFlags
  dsimp only
  split <;> split <;> simp

section Checks

variable {env : Environment} {inputs : Inputs} {reply : Reply} {checked : Checked}

theorem find?_mem {sid : Text} {row : MemoryRecord} (found : inputs.find? sid = some row) :
    row ∈ inputs.records.map Prod.snd := by
  unfold Inputs.find? at found
  obtain ⟨entry, listed, rfl⟩ := Option.map_eq_some_iff.mp found
  exact List.mem_map_of_mem (List.mem_of_find?_eq_some listed)

/-- What `check` makes sure of. -/
structure Accepted (inputs : Inputs) (change : Change) : Prop where
  known : ∀ row ∈ change.sources, row ∈ inputs.records.map Prod.snd
  merge : change.action = .merge → 2 ≤ change.sources.length ∧
    change.review = decide (Marked change.sources) ∧
      change.replacesConfirmed = decide (∃ row ∈ change.sources, Human row)

/-- A step of `check` keeps its changes and may add an accepted one. -/
def Adds (inputs : Inputs) (before after : Checked) : Prop :=
  ∀ change ∈ after.changes, change ∈ before.changes ∨ Accepted inputs change

theorem Adds.foldl {Item : Type} {next : Checked → Item → Checked}
    (adds : ∀ checked item, Adds inputs checked (next checked item)) (items : List Item)
    (checked : Checked) : Adds inputs checked (items.foldl next checked) := by
  induction items generalizing checked with
  | nil => exact fun _ member => Or.inl member
  | cons item items ih =>
      intro change member
      rcases ih (next checked item) change member with earlier | accepted
      · exact adds checked item change earlier
      · exact Or.inr accepted

theorem adds_drop (inputs : Inputs) (checked : Checked) : Adds inputs checked checked.drop :=
  fun _ member => Or.inl member

theorem adds_add {sids : List Text} {change : Change} (accepted : Accepted inputs change) :
    Adds inputs checked (checked.add sids change) := by
  intro other member
  rcases List.mem_append.mp member with earlier | new
  · exact Or.inl earlier
  · rw [List.mem_singleton.mp new]
    exact Or.inr accepted

theorem adds_checkMerge (checked : Checked) (sids : List Text) :
    Adds inputs checked (checkMerge env inputs reply checked sids) := by
  unfold checkMerge
  dsimp only
  split
  case isTrue => exact adds_drop inputs checked
  case isFalse enough =>
  split
  · exact adds_drop inputs checked
  · split
    · exact adds_drop inputs checked
    · split
      · exact adds_drop inputs checked
      · apply adds_add
        constructor
        case known =>
            intro row listed
            obtain ⟨sid, _, found⟩ := List.mem_filterMap.mp listed
            exact find?_mem found
        case merge => exact fun _ => ⟨Nat.not_lt.mp (not_or.mp enough).1, rfl, rfl⟩

theorem adds_checkSupersede (checked : Checked) (item : Text × Text) :
    Adds inputs checked (checkSupersede inputs reply checked item) := by
  unfold checkSupersede
  split
  case h_1 old new foundOld foundNew =>
      split
      · exact adds_drop inputs checked
      · apply adds_add
        constructor
        case known =>
            intro row listed
            rcases List.mem_cons.mp listed with rfl | listed
            · exact find?_mem foundOld
            · rw [List.mem_singleton.mp listed]
              exact find?_mem foundNew
        case merge => exact fun merge => by cases merge
  case h_2 => exact adds_drop inputs checked

theorem adds_checkOne (isRevoke : Bool) (checked : Checked) (sid : Text) :
    Adds inputs checked (checkOne inputs reply isRevoke checked sid) := by
  unfold checkOne
  split
  case h_1 => exact adds_drop inputs checked
  case h_2 row found =>
  split
  · exact adds_drop inputs checked
  · apply adds_add
    constructor
    case known =>
        intro other listed
        rw [List.mem_singleton.mp listed]
        exact find?_mem found
    case merge => cases isRevoke <;> exact fun merge => by cases merge

theorem accepted_of_check {change : Change}
    (member : change ∈ (check env inputs reply).changes) : Accepted inputs change := by
  unfold check at member
  rcases Adds.foldl (adds_checkOne true) reply.revoke _ change member with earlier | accepted
  · rcases Adds.foldl (adds_checkOne false) reply.expire _ change earlier with earlier | accepted
    · rcases Adds.foldl adds_checkSupersede reply.supersede _ change earlier with
        earlier | accepted
      · rcases Adds.foldl adds_checkMerge reply.merge {} change earlier with none | accepted
        · cases none
        · exact accepted
      · exact accepted
    · exact accepted
  · exact accepted

end Checks

end NaturalMold.MemoryConsolidation

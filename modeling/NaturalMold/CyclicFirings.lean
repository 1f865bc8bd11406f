import Mathlib.Data.Finset.Card
import Mathlib.Data.Finset.Image
import Mathlib.Order.ConditionallyCompleteLattice.Basic
import Mathlib.Order.SuccPred.LinearLocallyFinite
import Mathlib.Tactic.Linarith

/-! # Firings that repeat in cycles -/

namespace NaturalMold.CyclicFirings

variable {fires : ℤ → Prop} {next : ℤ → Option ℤ}

structure FindsNext (fires : ℤ → Prop) (next : ℤ → Option ℤ) : Prop where
  found : ∀ {time first}, next time = some first →
    fires first ∧ time ≤ first ∧ ∀ other, fires other → time ≤ other → first ≤ other
  absent : ∀ {time}, next time = none → ∀ other, fires other → other < time

def sample (next : ℤ → Option ℤ) : ℕ → ℤ → List ℤ
  | 0, _ => []
  | count + 1, time =>
      match next time with
      | none => []
      | some first => first :: sample next count (first + 1)

/-- One firing comes right after another. -/
structure Consecutive (fires : ℤ → Prop) (earlier later : ℤ) : Prop where
  first : fires earlier
  second : fires later
  before : earlier < later
  between : ∀ time, fires time → ¬ (earlier < time ∧ time < later)

variable {count : ℕ} {time firing : ℤ}

theorem mem_sample (finds : FindsNext fires next) (member : firing ∈ sample next count time) :
    fires firing ∧ time ≤ firing := by
  induction count generalizing time with
  | zero => exact absurd member List.not_mem_nil
  | succ count ih =>
      rw [sample] at member
      split at member
      · exact absurd member List.not_mem_nil
      · next first nextEq =>
          obtain ⟨firstFires, after, _⟩ := finds.found nextEq
          rcases List.mem_cons.mp member with rfl | later
          · exact ⟨firstFires, after⟩
          · obtain ⟨firingFires, afterFirst⟩ := ih later
            exact ⟨firingFires, by omega⟩

theorem length_sample_le (count : ℕ) (time : ℤ) : (sample next count time).length ≤ count := by
  induction count generalizing time with
  | zero => rfl
  | succ count ih =>
      rw [sample]
      split
      · exact Nat.zero_le _
      · next first _ =>
          have rest := ih (first + 1)
          rw [List.length_cons]
          omega

theorem pairwise_sample (finds : FindsNext fires next) (count : ℕ) (time : ℤ) :
    (sample next count time).Pairwise (· < ·) := by
  induction count generalizing time with
  | zero => exact List.Pairwise.nil
  | succ count ih =>
      rw [sample]
      split
      · exact List.Pairwise.nil
      · next first _ =>
          apply List.Pairwise.cons _ (ih (first + 1))
          intro later member
          have after := (mem_sample finds member).2
          omega

/-- No firing is left out in front of a sampled one, or of the end of a short sample. -/
theorem mem_sample_of_le (finds : FindsNext fires next) (firingFires : fires firing)
    (after : time ≤ firing) (reached : (sample next count time).length < count ∨
      ∃ later ∈ sample next count time, firing ≤ later) : firing ∈ sample next count time := by
  induction count generalizing time with
  | zero =>
      rcases reached with short | ⟨later, member, _⟩
      · exact absurd short (Nat.not_lt_zero _)
      · exact absurd member List.not_mem_nil
  | succ count ih =>
      rw [sample] at reached ⊢
      split at reached
      · next nextEq =>
          have before := finds.absent nextEq firing firingFires
          omega
      · next first nextEq =>
          have least := (finds.found nextEq).2.2 firing firingFires after
          rcases eq_or_lt_of_le least with same | beyond
          · rw [same]
            exact List.mem_cons_self
          · apply List.mem_cons_of_mem
            apply ih (by omega)
            rcases reached with short | ⟨later, member, upTo⟩
            · left
              rw [List.length_cons] at short
              omega
            · right
              rcases List.mem_cons.mp member with rfl | member
              · omega
              · exact ⟨later, member, upTo⟩

theorem card_toFinset_sample (finds : FindsNext fires next) (count : ℕ) (time : ℤ) :
    (sample next count time).toFinset.card = (sample next count time).length :=
  List.toFinset_card_of_nodup ((pairwise_sample finds count time).imp ne_of_lt)

theorem mem_sample_of_card_le (finds : FindsNext fires next) (firingFires : fires firing)
    (after : time ≤ firing) (few : Finset ℤ)
    (covers : ∀ other, fires other → time ≤ other → other ≤ firing → other ∈ few)
    (cardLe : few.card ≤ count) : firing ∈ sample next count time := by
  by_contra missing
  have full : ¬ ((sample next count time).length < count ∨
      ∃ later ∈ sample next count time, firing ≤ later) :=
    fun reached => missing (mem_sample_of_le finds firingFires after reached)
  push Not at full
  have subset : insert firing (sample next count time).toFinset ⊆ few := by
    intro other member
    rcases Finset.mem_insert.mp member with rfl | member
    · exact covers _ firingFires after le_rfl
    · have listed := List.mem_toFinset.mp member
      obtain ⟨otherFires, otherAfter⟩ := mem_sample finds listed
      exact covers other otherFires otherAfter (full.2 other listed).le
  have cards := Finset.card_le_card subset
  rw [Finset.card_insert_of_notMem (by simpa using missing), card_toFinset_sample finds] at cards
  omega

theorem lt_of_mem_sample (finds : FindsNext fires next) {bound : ℤ} (many : Finset ℤ)
    (early : ∀ other ∈ many, fires other ∧ time ≤ other ∧ other < bound)
    (countLe : count ≤ many.card) (member : firing ∈ sample next count time) : firing < bound := by
  by_contra late
  have subset : insert firing many ⊆ (sample next count time).toFinset := by
    intro other otherMember
    rw [List.mem_toFinset]
    rcases Finset.mem_insert.mp otherMember with rfl | otherMember
    · exact member
    · obtain ⟨otherFires, after, before⟩ := early other otherMember
      exact mem_sample_of_le finds otherFires after (Or.inr ⟨firing, member, by omega⟩)
  have notEarly : firing ∉ many := fun isEarly => late (early firing isEarly).2.2
  have cards := Finset.card_le_card subset
  have short := @length_sample_le next count time
  rw [Finset.card_insert_of_notMem notEarly, card_toFinset_sample finds] at cards
  omega

def Cyclic (period : ℤ) (residues : Finset ℤ) (blocks : ℤ → Prop) (fires : ℤ → Prop) : Prop :=
  ∀ time, fires time ↔ time % period ∈ residues ∧ blocks (time / period)

variable {period : ℤ} {residues : Finset ℤ} {blocks : ℤ → Prop}

/-- The times at which some residues fall into two blocks: those below a bound into the second
one, the others into the first one. -/
def turn (period : ℤ) (residues : Finset ℤ) (bound firstBlock secondBlock : ℤ) : Finset ℤ :=
  residues.image fun residue =>
    if residue < bound then period * secondBlock + residue else period * firstBlock + residue

theorem card_turn_le (period : ℤ) (residues : Finset ℤ) (bound firstBlock secondBlock : ℤ) :
    (turn period residues bound firstBlock secondBlock).card ≤ residues.card :=
  Finset.card_image_le

theorem mem_turn {bound firstBlock secondBlock : ℤ} (residue : time % period ∈ residues)
    (turned : time % period < bound ∧ time / period = secondBlock ∨
      bound ≤ time % period ∧ time / period = firstBlock) :
    time ∈ turn period residues bound firstBlock secondBlock := by
  apply Finset.mem_image.mpr ⟨time % period, residue, _⟩
  have split := Int.mul_ediv_add_emod time period
  rcases turned with ⟨low, rfl⟩ | ⟨high, rfl⟩
  · rw [if_pos low, split]
  · rw [if_neg (not_lt.mpr high), split]

theorem block_spec (positive : 0 < period) (time : ℤ) :
    0 ≤ time % period ∧ time % period < period ∧
      period * (time / period) + time % period = time :=
  ⟨Int.emod_nonneg _ positive.ne', Int.emod_lt_of_pos _ positive,
    Int.mul_ediv_add_emod time period⟩

theorem div_emod_of_block (positive : 0 < period) {block residue : ℤ} (nonneg : 0 ≤ residue)
    (small : residue < period) :
    (period * block + residue) / period = block ∧
      (period * block + residue) % period = residue := by
  rw [Int.add_comm, Int.add_mul_ediv_left _ _ positive.ne', Int.add_mul_emod_self_left,
    Int.ediv_eq_zero_of_lt nonneg small, Int.emod_eq_of_lt nonneg small]
  exact ⟨Int.zero_add _, rfl⟩

theorem fires_of_block (cyclic : Cyclic period residues blocks fires) (positive : 0 < period)
    {block : ℤ} (active : blocks block) (residue : time % period ∈ residues) :
    fires (period * block + time % period) := by
  obtain ⟨nonneg, small, _⟩ := block_spec positive time
  obtain ⟨div, mod⟩ := @div_emod_of_block period positive block _ nonneg small
  rw [cyclic, div, mod]
  exact ⟨residue, active⟩

theorem exists_first (finds : FindsNext fires next) {start : ℤ} (firingFires : fires firing)
    (after : start ≤ firing) :
    ∃ first, fires first ∧ start ≤ first ∧
      ∀ other, fires other → start ≤ other → first ≤ other := by
  cases nextEq : next start with
  | none =>
      have before := finds.absent nextEq firing firingFires
      omega
  | some first => exact ⟨first, finds.found nextEq⟩

theorem exists_next_block {block later : ℤ} (active : blocks later) (after : block < later) :
    ∃ nextBlock, blocks nextBlock ∧ block < nextBlock ∧
      ∀ other, blocks other → block < other → nextBlock ≤ other := by
  classical
  have exists_steps : ∃ steps : ℕ, blocks (block + 1 + steps) :=
    ⟨(later - block - 1).toNat, by rwa [show block + 1 + ((later - block - 1).toNat : ℤ) = later by
      omega]⟩
  refine ⟨block + 1 + Nat.find exists_steps, Nat.find_spec exists_steps, by omega, ?_⟩
  intro other otherActive otherAfter
  have least : Nat.find exists_steps ≤ (other - block - 1).toNat := by
    apply Nat.find_min'
    rwa [show block + 1 + ((other - block - 1).toNat : ℤ) = other by omega]
  omega

/-- Two neighbours of one block occur in one of the first two active blocks. -/
theorem exists_early_block (finds : FindsNext fires next)
    (cyclic : Cyclic period residues blocks fires) (positive : 0 < period) {start earlier later : ℤ}
    (neighbours : Consecutive fires earlier later) (after : start ≤ earlier)
    (sameBlock : earlier / period = later / period) (short : residues.card < count) :
    ∃ block, blocks block ∧ start ≤ period * block + earlier % period ∧
      ∃ few : Finset ℤ, few.card ≤ count ∧ ∀ other, fires other → start ≤ other →
        other ≤ period * block + later % period → other ∈ few := by
  obtain ⟨first, firstFires, firstAfter, least⟩ := exists_first finds neighbours.first after
  obtain ⟨_, _, earlierSplit⟩ := block_spec positive earlier
  obtain ⟨laterNonneg, laterSmall, laterSplit⟩ := block_spec positive later
  obtain ⟨_, _, firstSplit⟩ := block_spec positive first
  have firstBlock := ((cyclic first).mp firstFires).2
  have earlierBlock := ((cyclic earlier).mp neighbours.first).2
  -- The block of a firing up to the later residue of a block.
  have notBeyond : ∀ {block other : ℤ}, other ≤ period * block + later % period →
      other / period ≤ block := by
    intro block other upTo
    obtain ⟨div, _⟩ := @div_emod_of_block period positive block _ laterNonneg laterSmall
    rw [← div]
    exact Int.ediv_le_ediv positive upTo
  by_cases reached : first ≤ period * (first / period) + earlier % period
  · refine ⟨first / period, firstBlock, by omega,
      turn period residues 0 (first / period) (first / period),
      (card_turn_le _ _ _ _ _).trans (by omega), ?_⟩
    intro other otherFires otherAfter upTo
    obtain ⟨residue, _⟩ := (cyclic other).mp otherFires
    have from_first := Int.ediv_le_ediv positive (least other otherFires otherAfter)
    have up_to := notBeyond upTo
    exact mem_turn residue (Or.inr ⟨Int.emod_nonneg _ positive.ne', by omega⟩)
  · have passed : earlier % period < first % period := by omega
    have laterBlock : first / period < earlier / period := by
      apply lt_of_le_of_ne (Int.ediv_le_ediv positive (least earlier neighbours.first after))
      intro same
      have := least earlier neighbours.first after
      rw [same] at reached
      omega
    have beyond : later % period ≤ first % period := by
      by_contra inside
      apply neighbours.between _ (fires_of_block cyclic positive earlierBlock
        ((cyclic first).mp firstFires).1)
      rw [← sameBlock] at laterSplit
      omega
    obtain ⟨block, active, afterFirst, leastBlock⟩ := exists_next_block earlierBlock laterBlock
    have blockAfter : period * (first / period) + period ≤ period * block := by
      have := Int.mul_le_mul_of_nonneg_left (show first / period + 1 ≤ block from afterFirst)
        positive.le
      rwa [Int.mul_add, Int.mul_one] at this
    refine ⟨block, active, ?_, insert (period * block + later % period)
      (turn period residues (later % period) (first / period) block), ?_, ?_⟩
    · have := Int.emod_nonneg earlier positive.ne'
      have := Int.emod_lt_of_pos first positive
      omega
    · have inserted := Finset.card_insert_le (period * block + later % period)
        (turn period residues (later % period) (first / period) block)
      have turned := card_turn_le period residues (later % period) (first / period) block
      omega
    · intro other otherFires otherAfter upTo
      obtain ⟨residue, otherActive⟩ := (cyclic other).mp otherFires
      obtain ⟨_, _, otherSplit⟩ := block_spec positive other
      have fromFirst := least other otherFires otherAfter
      have fromBlock := Int.ediv_le_ediv positive fromFirst
      have upToBlock := notBeyond upTo
      rcases eq_or_lt_of_le fromBlock with same | further
      · apply Finset.mem_insert_of_mem
        apply mem_turn residue
        rw [← same] at otherSplit ⊢
        exact Or.inr ⟨by omega, rfl⟩
      · have inBlock : other / period = block :=
          le_antisymm upToBlock (leastBlock _ otherActive further)
        rw [inBlock] at otherSplit
        rcases eq_or_lt_of_le (show other % period ≤ later % period by omega) with same | below
        · rw [← same, otherSplit]
          exact Finset.mem_insert_self _ _
        · exact Finset.mem_insert_of_mem (mem_turn residue (Or.inl ⟨below, inBlock⟩))

theorem sampled_of_sameBlock (finds : FindsNext fires next)
    (cyclic : Cyclic period residues blocks fires) (positive : 0 < period) {start earlier later : ℤ}
    (neighbours : Consecutive fires earlier later) (after : start ≤ earlier)
    (sameBlock : earlier / period = later / period) (short : residues.card < count) :
    ∃ first ∈ sample next count start, ∃ second ∈ sample next count start,
      second - first = later - earlier := by
  obtain ⟨block, active, blockAfter, few, cardLe, covers⟩ :=
    exists_early_block finds cyclic positive neighbours after sameBlock short
  obtain ⟨earlierResidue, _⟩ := (cyclic earlier).mp neighbours.first
  obtain ⟨laterResidue, _⟩ := (cyclic later).mp neighbours.second
  have earlierSplit := (block_spec positive earlier).2.2
  have laterSplit := (block_spec positive later).2.2
  have before := neighbours.before
  rw [← sameBlock] at laterSplit
  have firstFires := fires_of_block cyclic positive active earlierResidue
  have secondFires := fires_of_block cyclic positive active laterResidue
  refine ⟨_, mem_sample_of_card_le finds firstFires blockAfter few ?_ cardLe,
    _, mem_sample_of_card_le finds secondFires (by omega) few covers cardLe, by omega⟩
  intro other otherFires otherAfter upTo
  exact covers other otherFires otherAfter (by omega)

theorem block_sub (positive : 0 < period) (time steps : ℤ) :
    (time - period * steps) / period = time / period - steps ∧
      (time - period * steps) % period = time % period := by
  rw [show time - period * steps = time + period * -steps by rw [Int.mul_neg]; rfl,
    Int.add_mul_ediv_left _ _ positive.ne', Int.add_mul_emod_self_left]
  exact ⟨rfl, rfl⟩

/-- The firings of one period that begins with a firing, its end included, are at most one more
than the residues. -/
theorem exists_period_cover (cyclic : Cyclic period residues blocks fires) (positive : 0 < period)
    (first : ℤ) :
    ∃ few : Finset ℤ, few.card ≤ residues.card + 1 ∧ ∀ other, fires other → first ≤ other →
      other ≤ first + period → other ∈ few := by
  refine ⟨insert (first + period)
    (turn period residues (first % period) (first / period) (first / period + 1)), ?_, ?_⟩
  · have inserted := Finset.card_insert_le (first + period)
      (turn period residues (first % period) (first / period) (first / period + 1))
    have turned := card_turn_le period residues (first % period) (first / period)
      (first / period + 1)
    omega
  · intro other otherFires fromFirst upTo
    obtain ⟨residue, _⟩ := (cyclic other).mp otherFires
    have firstSplit := (block_spec positive first).2.2
    have otherSplit := (block_spec positive other).2.2
    have fromBlock := Int.ediv_le_ediv positive fromFirst
    have upToBlock := Int.ediv_le_ediv positive upTo
    rw [Int.add_ediv_of_dvd_right (dvd_refl period), Int.ediv_self positive.ne'] at upToBlock
    rcases eq_or_lt_of_le upTo with rfl | within
    · exact Finset.mem_insert_self _ _
    · apply Finset.mem_insert_of_mem
      apply mem_turn residue
      rcases eq_or_lt_of_le fromBlock with same | further
      · rw [← same] at otherSplit ⊢
        exact Or.inr ⟨by omega, rfl⟩
      · have inNext : other / period = first / period + 1 := le_antisymm upToBlock further
        rw [inNext, Int.mul_add, Int.mul_one] at otherSplit
        exact Or.inl ⟨by omega, inNext⟩

/-- Where no block is left out, a sample that is longer than a block has residues shows the
distance of any two neighbours. -/
theorem sampled_of_unbroken (finds : FindsNext fires next)
    (cyclic : Cyclic period residues blocks fires) (positive : 0 < period) {start earlier later : ℤ}
    (neighbours : Consecutive fires earlier later) (after : start ≤ earlier)
    (unbroken : ∀ block, start / period ≤ block → block ≤ later / period → blocks block)
    (short : residues.card < count) :
    ∃ first ∈ sample next count start, ∃ second ∈ sample next count start,
      second - first = later - earlier := by
  obtain ⟨first, firstFires, firstAfter, least⟩ := exists_first finds neighbours.first after
  have fromFirst := least earlier neighbours.first after
  have before := neighbours.before
  -- The neighbours move back into the period of the first firing.
  obtain ⟨nonneg, small, split⟩ := block_spec positive (earlier - first)
  let steps := (earlier - first) / period
  have stepsNonneg : 0 ≤ steps := Int.ediv_nonneg (by omega) positive.le
  have movedNonneg : 0 ≤ period * steps := Int.mul_nonneg positive.le stepsNonneg
  have earlierMoved : first ≤ earlier - period * steps ∧
      earlier - period * steps < first + period := by
    change period * steps + _ = _ at split
    omega
  have movedFires : ∀ {time}, fires time → first ≤ time - period * steps → time ≤ later →
      fires (time - period * steps) := by
    intro time timeFires afterFirst upTo
    obtain ⟨div, mod⟩ := block_sub positive time steps
    obtain ⟨residue, _⟩ := (cyclic time).mp timeFires
    have startBlock := Int.ediv_le_ediv positive (firstAfter.trans afterFirst)
    have laterBlock := Int.ediv_le_ediv positive upTo
    rw [cyclic, mod]
    exact ⟨residue, unbroken _ startBlock (by omega)⟩
  have laterMoved : later - period * steps ≤ first + period := by
    by_contra beyond
    -- The first firing recurs between the neighbours.
    obtain ⟨div, mod⟩ := block_sub positive first (-(steps + 1))
    rw [Int.mul_neg, Int.mul_add, Int.mul_one] at div mod
    obtain ⟨residue, _⟩ := (cyclic first).mp firstFires
    have startBlock := Int.ediv_le_ediv positive firstAfter
    have recurBlock := Int.ediv_le_ediv positive
      (show first - -(period * steps + period) ≤ later by omega)
    apply neighbours.between (first - -(period * steps + period)) _ (by omega)
    rw [cyclic, mod]
    exact ⟨residue, unbroken _ (by omega) recurBlock⟩
  obtain ⟨few, cardLe, covers⟩ := exists_period_cover cyclic positive first
  have sampled : ∀ {time}, fires time → first ≤ time → time ≤ first + period →
      time ∈ sample next count start := by
    intro time timeFires afterFirst upTo
    apply mem_sample_of_card_le finds timeFires (by omega) few _ (by omega)
    intro other otherFires otherAfter upToTime
    exact covers other otherFires (least other otherFires otherAfter) (by omega)
  exact ⟨_, sampled (movedFires neighbours.first (by omega) before.le) (by omega) (by omega),
    _, sampled (movedFires neighbours.second (by omega) le_rfl) (by omega) laterMoved, by omega⟩

open Classical in
noncomputable def earliest (fires : ℤ → Prop) (time : ℤ) : Option ℤ :=
  if later : ∃ steps : ℕ, fires (time + steps) then some (time + Nat.find later) else none

open Classical in
theorem findsNext_earliest (fires : ℤ → Prop) : FindsNext fires (earliest fires) where
  found := by
    intro time first found
    rw [earliest] at found
    split at found
    · next later =>
        obtain rfl := Option.some.inj found
        refine ⟨Nat.find_spec later, by omega, fun other otherFires after => ?_⟩
        have least : Nat.find later ≤ (other - time).toNat := by
          apply Nat.find_min'
          rwa [show time + ((other - time).toNat : ℤ) = other by omega]
        omega
    · exact absurd found nofun
  absent := by
    intro time absent other otherFires
    rw [earliest] at absent
    split at absent
    · exact absurd absent nofun
    · next never =>
        by_contra after
        apply never
        refine ⟨(other - time).toNat, ?_⟩
        rwa [show time + ((other - time).toNat : ℤ) = other by omega]

end NaturalMold.CyclicFirings

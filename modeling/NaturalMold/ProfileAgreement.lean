import NaturalMold.PinnedLines

/-! # Agreement of pins and documents -/

namespace NaturalMold.MemoryProfiles

open Conversations (Uuid)
open CronExpressions (Text words)
open Fallible FirstOccurrences KeyedTables StepRuns

/-- Lines that are equal when their ids are have distinct ids after `_dedupe`. -/
theorem nodup_ids_dedupe {env : Environment} {lines : List ProfileLine}
    (same : lines.Pairwise fun first second => first.id = second.id → first = second) :
    ((dedupe env lines).map ProfileLine.id).Nodup := by
  unfold List.Nodup
  rw [List.pairwise_map]
  have keys := pairwise_distinctOn (fun line => cleaned (env.lower line.text)) lines
  refine (keys.and (same.sublist (dedupe_sublist env lines))).imp ?_
  rintro first second ⟨different, equal⟩ sameId
  exact different (by rw [equal sameId])

section Edits

variable {env : Environment} {key : DocKey} {existing lines : List ProfileLine} {next after : ℕ}
  {entries : List Entry}

/-- The lines of an edit are old lines and new ones of the person. -/
theorem editLines_spec (ids : (existing.map ProfileLine.id).Nodup)
    (bounded : ∀ line ∈ existing, line.id < next)
    (succeeded : editLines env key existing next entries = .ok (lines, after)) :
    next ≤ after ∧
      (∀ line ∈ lines, line ∈ existing ∨
        (line.origin = .user ∧ next ≤ line.id ∧ line.id < after)) ∧
      lines.Pairwise fun first second => first.id = second.id → first = second := by
  induction entries generalizing next lines after with
  | nil =>
      obtain ⟨rfl, rfl⟩ := Prod.mk.inj (Except.ok.inj succeeded)
      exact ⟨Nat.le_refl _, fun _ member => absurd member List.not_mem_nil, List.Pairwise.nil⟩
  | cons entry entries ih =>
      simp only [editLines, bind_eq_ok] at succeeded
      obtain ⟨parsed, _, text, _, rest⟩ := succeeded
      split at rest
      case h_1 line found =>
          obtain ⟨⟨others, _⟩, edited, returned⟩ := bind_eq_ok.mp rest
          obtain ⟨rfl, rfl⟩ := Prod.mk.inj (Except.ok.inj returned)
          obtain ⟨later, known, pairwise⟩ := ih bounded edited
          have member := List.mem_of_find?_eq_some found
          refine ⟨later, ?_, List.pairwise_cons.mpr ⟨?_, pairwise⟩⟩
          · intro other listed
            rcases List.mem_cons.mp listed with rfl | listed
            · exact Or.inl member
            · exact known other listed
          · intro other listed same
            rcases known other listed with old | ⟨_, isNew, _⟩
            · exact List.inj_on_of_nodup_map ids member old same
            · exact absurd (same ▸ bounded line member) (Nat.not_lt.mpr isNew)
      case h_2 =>
      obtain ⟨⟨others, _⟩, edited, returned⟩ := bind_eq_ok.mp rest
      obtain ⟨rfl, rfl⟩ := Prod.mk.inj (Except.ok.inj returned)
      obtain ⟨later, known, pairwise⟩ :=
        ih (fun line member => Nat.lt_succ_of_lt (bounded line member)) edited
      refine ⟨by omega, ?_, List.pairwise_cons.mpr ⟨?_, pairwise⟩⟩
      · intro other listed
        rcases List.mem_cons.mp listed with rfl | listed
        · exact Or.inr ⟨rfl, Nat.le_refl _, later⟩
        · rcases known other listed with old | ⟨origin, isNew, small⟩
          · exact Or.inl old
          · exact Or.inr ⟨origin, by omega, small⟩
      · intro other listed same
        dsimp only at same
        rcases known other listed with old | ⟨_, isNew, _⟩
        · exact absurd same.symm (Nat.ne_of_lt (bounded other old))
        · exact absurd same (Nat.ne_of_lt isNew)

end Edits

namespace Sound

variable {env : Environment} {state : State}

/-- The documents matter through their lines. -/
theorem congr {docs : Table MemoryProfileDoc.key} (sound : Sound { state with docs := docs })
    (same : ∀ key, linesOf docs key = linesOf state.docs key) : Sound state := by
  constructor
  case ids => exact fun key => same key ▸ sound.ids key
  case bounded => exact fun key line listed => sound.bounded key line (same key ▸ listed)
  case short => exact fun key => same key ▸ sound.short key
  case budget => exact fun key => same key ▸ sound.budget key
  case pins => exact fun key line listed => sound.pins key line (same key ▸ listed)
  case single =>
      intro key first firstListed second secondListed
      exact sound.single key first (same key ▸ firstListed) second (same key ▸ secondListed)
  case flags =>
  intro memory member
  have flags := sound.flags memory member
  dsimp only at flags
  rwa [same] at flags

theorem replaceLines (sound : Sound state) {key : DocKey} {entries : List Entry}
    {expectedVersion : Option ℕ} {after : State}
    (succeeded : replaceLines env key entries expectedVersion state = .ok after) :
    Sound after := by
  simp only [MemoryProfiles.replaceLines, bind_eq_ok] at succeeded
  obtain ⟨_, _, ⟨edited, next⟩, edits, _, checked, returned⟩ := succeeded
  obtain ⟨later, known, pairwise⟩ := editLines_spec (sound.ids key) (sound.bounded key) edits
  obtain ⟨short, budget⟩ := checkBudget_eq_ok checked
  have sublist := dedupe_sublist env edited
  have old : ∀ line ∈ dedupe env edited, line.origin = .pinned →
      line ∈ linesOf state.docs key := by
    intro line listed pinned
    rcases known line (sublist.subset listed) with existing | ⟨origin, _⟩
    · exact existing
    · rw [origin] at pinned
      cases pinned
  obtain rfl := Except.ok.inj returned
  apply sound.saveLines (nodup_ids_dedupe pairwise) later _ short budget old
  · intro line listed pinned
    by_cases stays : line.id ∈ (dedupe env edited).map ProfileLine.id
    · left
      obtain ⟨other, otherListed, sameId⟩ := List.mem_map.mp stays
      rcases known other (sublist.subset otherListed) with existing | ⟨_, isNew, _⟩
      · rwa [← List.inj_on_of_nodup_map (sound.ids key) existing listed sameId]
      · exact absurd (sameId ▸ sound.bounded key line listed) (Nat.not_lt.mpr isNew)
    · right
      intro id named
      refine List.mem_flatMap.mpr ⟨line, List.mem_filter.mpr ⟨listed, ?_⟩, named⟩
      rw [pinned, Bool.and_eq_true, Bool.not_eq_true', ← Bool.not_eq_true, List.contains_iff_mem]
      exact ⟨decide_eq_true rfl, stays⟩
  · intro id dropped line listed pins
    obtain ⟨removed, removedMember, named⟩ := List.mem_flatMap.mp dropped
    rw [List.mem_filter, Bool.and_eq_true, decide_eq_true_eq, Bool.not_eq_true',
      ← Bool.not_eq_true, List.contains_iff_mem] at removedMember
    obtain ⟨existing, wasPinned, gone⟩ := removedMember
    apply gone
    rw [sound.single key removed existing line (old line listed pins.1) id ⟨wasPinned, named⟩ pins]
    exact List.mem_map_of_mem listed
  · intro memory member dropped
    obtain ⟨removed, removedMember, named⟩ := List.mem_flatMap.mp dropped
    rw [List.mem_filter, Bool.and_eq_true, decide_eq_true_eq] at removedMember
    exact sound.kindOf_eq removedMember.1 member ⟨removedMember.2.1, named⟩
  · intro line listed
    rcases known line (sublist.subset listed) with existing | ⟨_, _, small⟩
    · exact Nat.lt_of_lt_of_le (sound.bounded key line existing) later
    · exact small

theorem unpin (sound : Sound state) (memoryId : Uuid) :
    Sound (MemoryProfiles.unpin memoryId state) := by
  unfold MemoryProfiles.unpin
  split
  case h_1 => exact sound
  case h_2 memory found =>
  obtain ⟨member, _⟩ := Table.get?_eq_some_iff.mp found
  split
  case isTrue => exact sound
  case isFalse =>
  have sublist : ((linesOf state.docs (kindOf memory)).filter fun line =>
      ¬ Pins line memory.id).Sublist (linesOf state.docs (kindOf memory)) :=
    List.filter_sublist
  have unpinned : Sound
      { state with
        memories := setPinned [memory.id] false state.memories
        docs := saveDoc state.docs (kindOf memory)
          ((linesOf state.docs (kindOf memory)).filter fun line =>
            ¬ Pins line memory.id) } := by
    apply sound.saveLines ((sound.ids _).sublist (sublist.map _)) (Nat.le_refl _)
      (fun line listed => sound.bounded _ line (sublist.subset listed))
      (sublist.length_le.trans (sound.short _))
      ((docTokens_le sublist).trans (sound.budget _))
      (fun line listed _ => sublist.subset listed)
    · intro line listed pinned
      by_cases pins : Pins line memory.id
      · right
        obtain ⟨other, _, sources, _⟩ := sound.pins _ line listed pinned
        intro id named
        have sameOther : memory.id = other.id := by simpa [sources] using pins.2
        have sameId : id = other.id := by simpa [sources] using named
        exact List.mem_singleton.mpr (sameId.trans sameOther.symm)
      · exact Or.inl (List.mem_filter.mpr ⟨listed, decide_eq_true pins⟩)
    · intro id dropped line listed
      rw [List.mem_singleton.mp dropped]
      exact of_decide_eq_true (List.mem_filter.mp listed).2
    · intro other otherMember dropped
      rw [state.memories.eq_of_key_eq otherMember member (List.mem_singleton.mp dropped)]
  dsimp only
  split
  case isTrue => exact unpinned
  case isFalse absent =>
  apply unpinned.congr
  intro key
  rw [linesOf_saveDoc]
  split
  case isTrue same =>
      have none : linesOf state.docs (kindOf memory) = [] := by
        unfold linesOf
        rw [Option.not_isSome_iff_eq_none.mp absent]
        rfl
      rw [← same, none]
      rfl
  case isFalse => rfl

end Sound

end NaturalMold.MemoryProfiles

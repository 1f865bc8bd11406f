import NaturalMold.MemoryProfiles

/-!
# Pinned lines and flags

Each pinned line is the line of one memory, in the document of that memory, and each flagged memory
has one.
-/

namespace NaturalMold.MemoryProfiles

open Conversations (Uuid)
open CronExpressions (Text words)
open Fallible FirstOccurrences KeyedTables StepRuns

section Documents

variable {docs : Table MemoryProfileDoc.key} {key other : DocKey} {lines : List ProfileLine}

theorem saveDoc_get? : (saveDoc docs key lines).get? key =
    some { key, lines, version := versionOf docs key + 1 } := by
  unfold saveDoc versionOf
  cases found : docs.get? key with
  | some doc =>
      have sameKey := (Table.get?_eq_some_iff.mp found).2
      dsimp only
      rw [Table.get?_save _ found, if_pos sameKey, sameKey]
      rfl
  | none =>
      cases inserted : docs.insert? { key, lines, version := 1 } with
      | none =>
          obtain ⟨old, member, same⟩ := Table.insert?_eq_none_iff.mp inserted
          exact absurd same (Table.get?_eq_none_iff.mp found old member)
      | some after =>
          rw [Option.getD_some, Table.get?_insert? inserted, if_pos rfl]
          rfl

theorem saveDoc_get?_of_ne (different : key ≠ other) :
    (saveDoc docs key lines).get? other = docs.get? other := by
  unfold saveDoc
  cases found : docs.get? key with
  | some doc =>
      have sameKey := (Table.get?_eq_some_iff.mp found).2
      dsimp only
      cases present : docs.get? other with
      | some old =>
          rw [Table.get?_save _ present, if_neg]
          dsimp only
          rwa [sameKey]
      | none =>
          rw [Table.get?_eq_none_iff] at present ⊢
          intro row member
          rcases Table.mem_save.mp member with ⟨rfl, _⟩ | ⟨old, _⟩
          · dsimp only
            rwa [sameKey]
          · exact present row old
  | none =>
      cases inserted : docs.insert? { key, lines, version := 1 } with
      | none => rfl
      | some after => rw [Option.getD_some, Table.get?_insert? inserted, if_neg different]

theorem linesOf_saveDoc (docs : Table MemoryProfileDoc.key) (key : DocKey)
    (lines : List ProfileLine) (other : DocKey) :
    linesOf (saveDoc docs key lines) other = if key = other then lines else linesOf docs other := by
  unfold linesOf
  split
  case isTrue same =>
      rw [← same, saveDoc_get?]
      rfl
  case isFalse different => rw [saveDoc_get?_of_ne different]

theorem versionOf_saveDoc (docs : Table MemoryProfileDoc.key) (key : DocKey)
    (lines : List ProfileLine) (other : DocKey) :
    versionOf (saveDoc docs key lines) other =
      if key = other then versionOf docs other + 1 else versionOf docs other := by
  conv_lhs => unfold versionOf
  split
  case isTrue same =>
      rw [← same, saveDoc_get?]
      rfl
  case isFalse different =>
      rw [saveDoc_get?_of_ne different]
      rfl

theorem linesOf_dropSources (ids : List Uuid) (docs : Table MemoryProfileDoc.key) (key : DocKey) :
    linesOf (dropSources ids docs) key =
      (linesOf docs key).filter fun line => ¬ Cites ids line := by
  unfold linesOf dropSources
  rw [Table.get?_updateWhere]
  cases docs.get? key with
  | none => rfl
  | some doc =>
      simp only [Option.map_some, Option.elim_some]
      split
      case isTrue => rfl
      case isFalse uncited =>
      rw [decide_eq_true_eq] at uncited
      symm
      rw [List.filter_eq_self]
      intro line member
      exact decide_eq_true fun cites => uncited ⟨line, member, cites⟩

theorem versionOf_dropSources (ids : List Uuid) (docs : Table MemoryProfileDoc.key)
    (key : DocKey) (changed : linesOf (dropSources ids docs) key ≠ linesOf docs key) :
    versionOf docs key < versionOf (dropSources ids docs) key := by
  rw [linesOf_dropSources] at changed
  unfold linesOf at changed
  unfold versionOf dropSources
  rw [Table.get?_updateWhere]
  cases found : docs.get? key with
  | none =>
      rw [found] at changed
      exact absurd rfl changed
  | some doc =>
      rw [found] at changed
      simp only [Option.map_some, Option.elim_some] at changed ⊢
      rw [if_pos]
      · exact Nat.lt_succ_self _
      · rw [decide_eq_true_eq]
        by_contra uncited
        apply changed
        rw [List.filter_eq_self]
        intro line member
        exact decide_eq_true fun cites => uncited ⟨line, member, cites⟩

end Documents

section Lines

variable {env : Environment} {lines : List ProfileLine} {budget : ℕ}

theorem checkBudget_eq_ok {passed : Unit} (succeeded : checkBudget lines budget = .ok passed) :
    lines.length ≤ maxLines ∧ docTokens lines ≤ budget := by
  unfold checkBudget at succeeded
  rw [bind_eq_ok] at succeeded
  obtain ⟨_, few, small⟩ := succeeded
  exact ⟨ensure_eq_ok.mp few, ensure_eq_ok.mp small⟩

theorem docTokens_le {fewer : List ProfileLine} (sublist : fewer.Sublist lines) :
    docTokens fewer ≤ docTokens lines := by
  induction sublist with
  | slnil => exact Nat.le_refl _
  | cons line _ ih =>
      rw [docTokens]
      omega
  | cons_cons line _ ih =>
      rw [docTokens, docTokens]
      omega

theorem dedupe_sublist (env : Environment) (lines : List ProfileLine) :
    (dedupe env lines).Sublist lines :=
  distinctOn_sublist lines

theorem mem_dedupe_append {line : ProfileLine} {more : List ProfileLine}
    (member : line ∈ dedupe env lines) : line ∈ dedupe env (lines ++ more) := by
  unfold dedupe at member ⊢
  rw [distinctOn_append]
  exact List.mem_append_left _ member

end Lines

section Memories

variable {memories : Table MemoryRecord.id} {ids : List Uuid} {pinned : Bool}
  {memory : MemoryRecord}

theorem mem_setPinned (member : memory ∈ (setPinned ids pinned memories).rows) :
    ∃ before ∈ memories.rows, memory.id = before.id ∧ kindOf memory = kindOf before ∧
      ((before.id ∈ ids ∧ memory.pinned = pinned) ∨ (before.id ∉ ids ∧ memory = before)) := by
  unfold setPinned at member
  rw [Table.mem_updateWhere] at member
  rcases member with ⟨before, beforeMember, passes, rfl⟩ | ⟨kept, fails⟩
  · exact ⟨before, beforeMember, rfl, rfl, Or.inl ⟨List.contains_iff_mem.mp passes, rfl⟩⟩
  · rw [List.contains_iff_mem] at fails
    exact ⟨memory, kept, rfl, rfl, Or.inr ⟨fails, rfl⟩⟩

theorem exists_mem_setPinned (ids : List Uuid) (pinned : Bool)
    (member : memory ∈ memories.rows) : ∃ after ∈ (setPinned ids pinned memories).rows,
      after.id = memory.id ∧ kindOf after = kindOf memory := by
  unfold setPinned
  by_cases listed : memory.id ∈ ids
  · exact ⟨{ memory with pinned }, Table.mem_updateWhere.mpr
      (Or.inl ⟨memory, member, List.contains_iff_mem.mpr listed, rfl⟩), rfl, rfl⟩
  · refine ⟨memory, Table.mem_updateWhere.mpr (Or.inr ⟨member, ?_⟩), rfl, rfl⟩
    rwa [List.contains_iff_mem]

end Memories

/-- What holds of the memories and the documents. -/
structure Sound (state : State) : Prop where
  ids : ∀ key, ((linesOf state.docs key).map ProfileLine.id).Nodup
  bounded : ∀ key, ∀ line ∈ linesOf state.docs key, line.id < state.nextLineId
  short : ∀ key, (linesOf state.docs key).length ≤ maxLines
  budget : ∀ key, docTokens (linesOf state.docs key) ≤ budgetFor key
  pins : ∀ key, ∀ line ∈ linesOf state.docs key, line.origin = .pinned →
    ∃ memory ∈ state.memories.rows, line.sources = [memory.id] ∧ kindOf memory = key
  single : ∀ key, ∀ first ∈ linesOf state.docs key, ∀ second ∈ linesOf state.docs key,
    ∀ id, Pins first id → Pins second id → first.id = second.id
  flags : ∀ memory ∈ state.memories.rows, memory.pinned = true ↔
    ∃ line ∈ linesOf state.docs (kindOf memory), Pins line memory.id

theorem sound_initial {memories : Table MemoryRecord.id}
    (unpinned : ∀ memory ∈ memories.rows, memory.pinned = false) : Sound { memories } where
  ids := fun _ => List.nodup_nil
  bounded := fun _ _ member => absurd member List.not_mem_nil
  short := fun _ => Nat.zero_le _
  budget := fun _ => Nat.zero_le _
  pins := fun _ _ member => absurd member List.not_mem_nil
  single := fun _ _ member => absurd member List.not_mem_nil
  flags := by
    intro memory member
    rw [unpinned memory member]
    refine iff_of_false Bool.false_ne_true ?_
    rintro ⟨line, listed, _⟩
    cases listed

namespace Sound

variable {state : State}

theorem kindOf_eq (sound : Sound state) {key : DocKey} {line : ProfileLine}
    (listed : line ∈ linesOf state.docs key) {memory : MemoryRecord}
    (member : memory ∈ state.memories.rows) (pins : Pins line memory.id) :
    kindOf memory = key := by
  obtain ⟨other, otherMember, sources, sameKey⟩ := sound.pins key line listed pins.1
  have same : memory.id = other.id := by simpa [sources] using pins.2
  rw [state.memories.eq_of_key_eq member otherMember same]
  exact sameKey

/-- Lines without new pins, and the flags of the pins that are dropped. -/
theorem saveLines (sound : Sound state) {key : DocKey} {lines : List ProfileLine} {next : ℕ}
    {dropped : List Uuid}
    (ids : (lines.map ProfileLine.id).Nodup) (later : state.nextLineId ≤ next)
    (bounded : ∀ line ∈ lines, line.id < next) (short : lines.length ≤ maxLines)
    (budget : docTokens lines ≤ budgetFor key)
    (old : ∀ line ∈ lines, line.origin = .pinned → line ∈ linesOf state.docs key)
    (kept : ∀ line ∈ linesOf state.docs key, line.origin = .pinned →
      line ∈ lines ∨ ∀ id ∈ line.sources, id ∈ dropped)
    (gone : ∀ id ∈ dropped, ∀ line ∈ lines, ¬ Pins line id)
    (here : ∀ memory ∈ state.memories.rows, memory.id ∈ dropped → kindOf memory = key) :
    Sound
      { memories := setPinned dropped false state.memories
        docs := saveDoc state.docs key lines
        nextLineId := next } := by
  constructor
  case ids =>
      intro other
      dsimp only
      rw [linesOf_saveDoc]
      split
      · exact ids
      · exact sound.ids other
  case bounded =>
      intro other line listed
      dsimp only at listed
      rw [linesOf_saveDoc] at listed
      split at listed
      · exact bounded line listed
      · exact Nat.lt_of_lt_of_le (sound.bounded other line listed) later
  case short =>
      intro other
      dsimp only
      rw [linesOf_saveDoc]
      split
      · exact short
      · exact sound.short other
  case budget =>
      intro other
      dsimp only
      rw [linesOf_saveDoc]
      split
      case isTrue same => rwa [← same]
      case isFalse => exact sound.budget other
  case pins =>
      intro other line listed pinned
      dsimp only at listed
      rw [linesOf_saveDoc] at listed
      have before : line ∈ linesOf state.docs other := by
        split at listed
        case isTrue same => exact same ▸ old line listed pinned
        case isFalse => exact listed
      obtain ⟨memory, member, sources, sameKey⟩ := sound.pins other line before pinned
      obtain ⟨after, afterMember, sameId, sameKind⟩ := exists_mem_setPinned dropped false member
      exact ⟨after, afterMember, by rw [sameId]; exact sources, sameKind.trans sameKey⟩
  case single =>
      intro other first firstListed second secondListed id firstPins secondPins
      dsimp only at firstListed secondListed
      rw [linesOf_saveDoc] at firstListed secondListed
      split at firstListed
      case isTrue same =>
          rw [if_pos same] at secondListed
          exact sound.single key first (old first firstListed firstPins.1) second
            (old second secondListed secondPins.1) id firstPins secondPins
      case isFalse different =>
          rw [if_neg different] at secondListed
          exact sound.single other first firstListed second secondListed id firstPins secondPins
  case flags =>
  intro memory member
  obtain ⟨before, beforeMember, sameId, sameKind, change⟩ := mem_setPinned member
  dsimp only
  rw [sameId, sameKind, linesOf_saveDoc]
  rcases change with ⟨listed, unpinned⟩ | ⟨unlisted, rfl⟩
  · rw [unpinned]
    refine iff_of_false Bool.false_ne_true ?_
    rintro ⟨line, lineListed, pins⟩
    rw [if_pos (here before beforeMember listed).symm] at lineListed
    exact gone before.id listed line lineListed pins
  · rw [sound.flags memory beforeMember]
    split
    case isFalse => rfl
    case isTrue same =>
    constructor
    · rintro ⟨line, listed, pins⟩
      rw [← same] at listed
      rcases kept line listed pins.1 with stays | wasDropped
      · exact ⟨line, stays, pins⟩
      · exact absurd (wasDropped memory.id pins.2) unlisted
    · rintro ⟨line, listed, pins⟩
      exact ⟨line, same ▸ old line listed pins.1, pins⟩

theorem pin (sound : Sound state) {memory : MemoryRecord} {text : Text}
    (member : memory ∈ state.memories.rows)
    (unpinned : ¬ ∃ line ∈ linesOf state.docs (kindOf memory), Pins line memory.id)
    (short : (linesOf state.docs (kindOf memory) ++
      [pinnedLine state.nextLineId text memory.id]).length ≤ maxLines)
    (budget : docTokens (linesOf state.docs (kindOf memory) ++
      [pinnedLine state.nextLineId text memory.id]) ≤ profileBudgetTokens) :
    Sound
      { memories := setPinned [memory.id] true state.memories
        docs := saveDoc state.docs (kindOf memory) (linesOf state.docs (kindOf memory) ++
          [pinnedLine state.nextLineId text memory.id])
        nextLineId := state.nextLineId + 1 } := by
  have unused : ∀ line ∈ linesOf state.docs (kindOf memory), line.id ≠ state.nextLineId :=
    fun line listed => Nat.ne_of_lt (sound.bounded (kindOf memory) line listed)
  have cases {other : DocKey} {line : ProfileLine} (listed : line ∈ linesOf (saveDoc state.docs
      (kindOf memory) (linesOf state.docs (kindOf memory) ++
        [pinnedLine state.nextLineId text memory.id])) other) :
      line ∈ linesOf state.docs other ∨
        (kindOf memory = other ∧ line = pinnedLine state.nextLineId text memory.id) := by
    rw [linesOf_saveDoc] at listed
    split at listed
    case isTrue same =>
        rw [List.mem_append, List.mem_singleton, same] at listed
        exact listed.imp_right fun new => ⟨same, new⟩
    case isFalse => exact Or.inl listed
  have stays {other : DocKey} {line : ProfileLine} (listed : line ∈ linesOf state.docs other) :
      line ∈ linesOf (saveDoc state.docs (kindOf memory) (linesOf state.docs (kindOf memory) ++
        [pinnedLine state.nextLineId text memory.id])) other := by
    rw [linesOf_saveDoc]
    split
    case isTrue same => exact List.mem_append_left _ (same ▸ listed)
    case isFalse => exact listed
  constructor
  case ids =>
      intro other
      dsimp only
      rw [linesOf_saveDoc]
      split
      case isTrue =>
          rw [List.map_append, List.nodup_append]
          refine ⟨sound.ids _, List.nodup_singleton _, ?_⟩
          intro first firstMember second secondMember
          obtain ⟨line, listed, rfl⟩ := List.mem_map.mp firstMember
          rw [List.map_singleton, List.mem_singleton] at secondMember
          rw [secondMember]
          exact unused line listed
      case isFalse => exact sound.ids other
  case bounded =>
      intro other line listed
      rcases cases listed with old | ⟨_, rfl⟩
      · exact Nat.lt_succ_of_lt (sound.bounded other line old)
      · exact Nat.lt_succ_self _
  case short =>
      intro other
      dsimp only
      rw [linesOf_saveDoc]
      split
      · exact short
      · exact sound.short other
  case budget =>
      intro other
      dsimp only
      rw [linesOf_saveDoc]
      split
      case isTrue same =>
          have profile : budgetFor other = profileBudgetTokens := by
            rw [← same, kindOf]
            split <;> rfl
          rwa [profile]
      case isFalse => exact sound.budget other
  case pins =>
      intro other line listed pinned
      have named {before : MemoryRecord} (beforeMember : before ∈ state.memories.rows)
          (sources : line.sources = [before.id]) (sameKey : kindOf before = other) :
          ∃ after ∈ (setPinned [memory.id] true state.memories).rows,
            line.sources = [after.id] ∧ kindOf after = other := by
        obtain ⟨after, afterMember, sameId, sameKind⟩ :=
          exists_mem_setPinned [memory.id] true beforeMember
        exact ⟨after, afterMember, by rw [sameId]; exact sources, sameKind.trans sameKey⟩
      rcases cases listed with old | ⟨same, rfl⟩
      · obtain ⟨before, beforeMember, sources, sameKey⟩ := sound.pins other line old pinned
        exact named beforeMember sources sameKey
      · exact named member rfl same
  case single =>
      have alone {other : DocKey} {line : ProfileLine} (same : kindOf memory = other)
          (old : line ∈ linesOf state.docs other) {id : Uuid}
          (new : Pins (pinnedLine state.nextLineId text memory.id) id) : ¬ Pins line id := by
        have sameId : id = memory.id := List.mem_singleton.mp new.2
        rw [sameId]
        exact fun pins => unpinned ⟨line, same ▸ old, pins⟩
      intro other first firstListed second secondListed id firstPins secondPins
      rcases cases firstListed with firstOld | ⟨firstKey, rfl⟩ <;>
        rcases cases secondListed with secondOld | ⟨secondKey, rfl⟩
      · exact sound.single other first firstOld second secondOld id firstPins secondPins
      · exact absurd firstPins (alone secondKey firstOld secondPins)
      · exact absurd secondPins (alone firstKey secondOld firstPins)
      · rfl
  case flags =>
  intro after afterMember
  obtain ⟨before, beforeMember, sameId, sameKind, change⟩ := mem_setPinned afterMember
  dsimp only
  rw [sameId, sameKind]
  rcases change with ⟨listed, pinned⟩ | ⟨unlisted, rfl⟩
  · obtain rfl : before = memory :=
      state.memories.eq_of_key_eq beforeMember member (List.mem_singleton.mp listed)
    rw [pinned]
    refine iff_of_true rfl ⟨pinnedLine state.nextLineId text before.id, ?_, rfl,
      List.mem_singleton_self _⟩
    rw [linesOf_saveDoc, if_pos rfl]
    exact List.mem_append_right _ (List.mem_singleton_self _)
  · rw [sound.flags after beforeMember]
    constructor
    · rintro ⟨line, listed, pins⟩
      exact ⟨line, stays listed, pins⟩
    · rintro ⟨line, listed, pins⟩
      rcases cases listed with old | ⟨_, rfl⟩
      · exact ⟨line, old, pins⟩
      · exact absurd pins.2 unlisted

/-- Memories go, with the lines that cite them. -/
theorem purge (sound : Sound state) (ids : List Uuid) : Sound (purgeRecords ids state) := by
  have subset {key : DocKey} {line : ProfileLine}
      (listed : line ∈ linesOf (dropSources ids state.docs) key) :
      line ∈ linesOf state.docs key ∧ ¬ Cites ids line := by
    rw [linesOf_dropSources, List.mem_filter, decide_eq_true_eq] at listed
    exact listed
  have sublist (key : DocKey) :
      (linesOf (dropSources ids state.docs) key).Sublist (linesOf state.docs key) := by
    rw [linesOf_dropSources]
    exact List.filter_sublist
  constructor
  case ids => exact fun key => (sound.ids key).sublist ((sublist key).map _)
  case bounded => exact fun key line listed => sound.bounded key line (subset listed).1
  case short => exact fun key => (sublist key).length_le.trans (sound.short key)
  case budget => exact fun key => (docTokens_le (sublist key)).trans (sound.budget key)
  case pins =>
      intro key line listed pinned
      obtain ⟨old, uncited⟩ := subset listed
      obtain ⟨memory, member, sources, sameKey⟩ := sound.pins key line old pinned
      refine ⟨memory, List.mem_filter.mpr ⟨member, ?_⟩, sources, sameKey⟩
      rw [Bool.not_eq_true', ← Bool.not_eq_true, List.contains_iff_mem]
      intro purged
      exact uncited ⟨memory.id, by rw [sources]; exact List.mem_singleton_self _, purged⟩
  case single =>
      intro key first firstListed second secondListed
      exact sound.single key first (subset firstListed).1 second (subset secondListed).1
  case flags =>
  intro memory member
  obtain ⟨old, stays⟩ := List.mem_filter.mp member
  rw [Bool.not_eq_true', ← Bool.not_eq_true, List.contains_iff_mem] at stays
  rw [sound.flags memory old]
  constructor
  · rintro ⟨line, listed, pins⟩
    refine ⟨line, ?_, pins⟩
    change line ∈ linesOf (dropSources ids state.docs) (kindOf memory)
    rw [linesOf_dropSources, List.mem_filter, decide_eq_true_eq]
    refine ⟨listed, ?_⟩
    rintro ⟨id, named, purged⟩
    -- a pinned line names one memory, which is not purged
    obtain ⟨other, _, sources, _⟩ := sound.pins _ line listed pins.1
    have sameOther : memory.id = other.id := by simpa [sources] using pins.2
    have sameId : id = other.id := by simpa [sources] using named
    exact stays (sameOther.trans sameId.symm ▸ purged)
  · rintro ⟨line, listed, pins⟩
    exact ⟨line, (subset listed).1, pins⟩

end Sound

end NaturalMold.MemoryProfiles

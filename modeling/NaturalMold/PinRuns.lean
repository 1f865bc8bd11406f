import NaturalMold.ProfileAgreement

/-! # Runs of pins and edits -/

namespace NaturalMold.MemoryProfiles

open Conversations (Uuid)
open CronExpressions (Text words)
open Fallible FirstOccurrences KeyedTables StepRuns

@[simp]
theorem setPinned_nil (pinned : Bool) (memories : Table MemoryRecord.id) :
    setPinned [] pinned memories = memories := by
  unfold setPinned Table.updateWhere
  congr 1
  simp

def KeepsPins (env : Environment) (state : State) : Action → Prop
  | .applyChange (.remove isWorkMemo agentId lineId) =>
      ∀ line ∈ linesOf state.docs (changeKey isWorkMemo agentId),
        line.id = lineId → line.origin ≠ .pinned
  | .applyChange (.add isWorkMemo agentId _ _) =>
      ∀ line ∈ linesOf state.docs (changeKey isWorkMemo agentId), line.origin = .pinned →
        line ∈ dedupe env (linesOf state.docs (changeKey isWorkMemo agentId))
  | .applyChange (.replaceRecent ..) | .pin _ | .unpin _ | .replaceLines .. | .purgeRecords _ =>
      True

instance (env : Environment) (state : State) : (action : Action) →
    Decidable (KeepsPins env state action)
  | .applyChange (.remove isWorkMemo agentId lineId) =>
      inferInstanceAs (Decidable (∀ line ∈ linesOf state.docs (changeKey isWorkMemo agentId),
        line.id = lineId → line.origin ≠ .pinned))
  | .applyChange (.add isWorkMemo agentId _ _) =>
      inferInstanceAs (Decidable (∀ line ∈ linesOf state.docs (changeKey isWorkMemo agentId),
        line.origin = .pinned →
          line ∈ dedupe env (linesOf state.docs (changeKey isWorkMemo agentId))))
  | .applyChange (.replaceRecent ..) | .pin _ | .unpin _ | .replaceLines .. | .purgeRecords _ =>
      inferInstanceAs (Decidable True)

section ScheduleLines

variable {«section» : Section} {next : ℕ} {texts : List Text} {line : ProfileLine}

theorem map_id_scheduleLines («section» : Section) (next : ℕ) (texts : List Text) :
    (scheduleLines «section» next texts).map ProfileLine.id = List.range' next texts.length := by
  unfold scheduleLines
  rw [List.map_map, ← List.zipIdx_map_snd next texts]
  rfl

theorem mem_scheduleLines (listed : line ∈ scheduleLines «section» next texts) :
    line.origin = .schedule ∧ next ≤ line.id ∧ line.id < next + texts.length := by
  have numbered := @List.mem_map_of_mem _ _ _ _ ProfileLine.id listed
  rw [map_id_scheduleLines, List.mem_range'_1] at numbered
  obtain ⟨_, _, rfl⟩ := List.mem_map.mp listed
  exact ⟨rfl, numbered⟩

theorem mem_replaceRecent {env : Environment} {lines : List ProfileLine} {recent tips : List Text}
    (listed : line ∈ replaceRecent env next lines recent tips) :
    line ∈ lines ∨ (line.origin = .schedule ∧ next ≤ line.id ∧
      line.id < next + recent.length + tips.length) := by
  have member := (dedupe_sublist env _).subset listed
  rw [List.mem_append, List.mem_append] at member
  rcases member with (ofRecent | old) | ofTips
  · obtain ⟨origin, lower, upper⟩ := mem_scheduleLines ofRecent
    exact Or.inr ⟨origin, lower, Nat.lt_of_lt_of_le upper (Nat.le_add_right _ _)⟩
  · exact Or.inl (List.mem_of_mem_filter old)
  · obtain ⟨origin, lower, upper⟩ := mem_scheduleLines ofTips
    exact Or.inr ⟨origin, Nat.le_trans (Nat.le_add_right _ _) lower, upper⟩

theorem nodup_ids_replaceRecent {env : Environment} {lines : List ProfileLine}
    {recent tips : List Text} (ids : (lines.map ProfileLine.id).Nodup)
    (bounded : ∀ line ∈ lines, line.id < next) :
    ((replaceRecent env next lines recent tips).map ProfileLine.id).Nodup := by
  apply List.Nodup.sublist ((dedupe_sublist env _).map _)
  rw [List.map_append, List.map_append, map_id_scheduleLines, map_id_scheduleLines,
    List.nodup_append', List.nodup_append']
  have small : ∀ id ∈ (lines.filter fun line => line.section ≠ some .recent).map ProfileLine.id,
      id < next := by
    intro id member
    obtain ⟨line, listed, rfl⟩ := List.mem_map.mp member
    exact bounded line (List.mem_of_mem_filter listed)
  refine ⟨⟨List.nodup_range', ids.sublist (List.filter_sublist.map _), ?_⟩,
    List.nodup_range', ?_⟩
  · intro id new old
    exact Nat.not_le.mpr (small id old) (List.mem_range'_1.mp new).1
  · intro id member new
    have lower := (List.mem_range'_1.mp new).1
    rcases List.mem_append.mp member with ofRecent | old
    · exact Nat.not_le.mpr (List.mem_range'_1.mp ofRecent).2 lower
    · exact Nat.not_le.mpr (small id old) (Nat.le_trans (Nat.le_add_right _ _) lower)

end ScheduleLines

namespace Sound

variable {env : Environment} {state : State}

theorem applyPin (sound : Sound state) {memoryId : Uuid} {after : State}
    (succeeded : MemoryProfiles.pin memoryId state = .ok after) : Sound after := by
  unfold MemoryProfiles.pin at succeeded
  split at succeeded
  case h_1 =>
      obtain rfl := Except.ok.inj succeeded
      exact sound
  case h_2 memory found =>
  dsimp only at succeeded
  split at succeeded
  case isTrue =>
      obtain rfl := Except.ok.inj succeeded
      exact sound
  case isFalse pinnable =>
  simp only [bind_eq_ok] at succeeded
  obtain ⟨_, _, _, checked, returned⟩ := succeeded
  obtain ⟨short, budget⟩ := checkBudget_eq_ok checked
  obtain rfl := Except.ok.inj returned
  exact sound.pin (Table.get?_eq_some_iff.mp found).1
    (fun pinned => pinnable (Or.inr pinned)) short budget

theorem keepPins (sound : Sound state) {key : DocKey} {lines : List ProfileLine} {next : ℕ}
    (ids : (lines.map ProfileLine.id).Nodup) (later : state.nextLineId ≤ next)
    (bounded : ∀ line ∈ lines, line.id < next) (short : lines.length ≤ maxLines)
    (budget : docTokens lines ≤ budgetFor key)
    (old : ∀ line ∈ lines, line.origin = .pinned → line ∈ linesOf state.docs key)
    (kept : ∀ line ∈ linesOf state.docs key, line.origin = .pinned → line ∈ lines) :
    Sound { state with docs := saveDoc state.docs key lines, nextLineId := next } := by
  have saved : Sound
      { memories := setPinned [] false state.memories
        docs := saveDoc state.docs key lines
        nextLineId := next } :=
    sound.saveLines ids later bounded short budget old
      (fun line listed pinned => Or.inl (kept line listed pinned))
      (fun _ dropped => absurd dropped List.not_mem_nil)
      (fun _ _ dropped => absurd dropped List.not_mem_nil)
  rwa [setPinned_nil] at saved

theorem applyChange (sound : Sound state) {change : LineChange} {after : State}
    (succeeded : MemoryProfiles.applyChange env change state = .ok after)
    (keeps : KeepsPins env state (.applyChange change)) : Sound after := by
  cases change with
  | remove isWorkMemo agentId lineId =>
      have sublist : ((linesOf state.docs (changeKey isWorkMemo agentId)).filter fun line =>
          line.id ≠ lineId).Sublist (linesOf state.docs (changeKey isWorkMemo agentId)) :=
        List.filter_sublist
      simp only [MemoryProfiles.applyChange] at succeeded
      split at succeeded
      case isTrue =>
          obtain rfl := Except.ok.inj succeeded
          exact sound
      case isFalse =>
      obtain rfl := Except.ok.inj succeeded
      apply sound.keepPins ((sound.ids _).sublist (sublist.map _)) (Nat.le_refl _)
        (fun line listed => sound.bounded _ line (sublist.subset listed))
        (sublist.length_le.trans (sound.short _))
        ((docTokens_le sublist).trans (sound.budget _))
        (fun line listed _ => sublist.subset listed)
      intro line listed pinned
      exact List.mem_filter.mpr
        ⟨listed, decide_eq_true fun same => keeps line listed same pinned⟩
  | add isWorkMemo agentId text sources =>
      simp only [MemoryProfiles.applyChange, bind_eq_ok] at succeeded
      obtain ⟨checked, _, rest⟩ := succeeded
      split at rest
      case isTrue =>
          obtain rfl := Except.ok.inj rest
          exact sound
      case isFalse =>
      obtain ⟨_, fits, returned⟩ := bind_eq_ok.mp rest
      obtain ⟨short, budget⟩ := checkBudget_eq_ok fits
      have sublist := dedupe_sublist env
        (linesOf state.docs (changeKey isWorkMemo agentId) ++
          [{ id := state.nextLineId, text := checked, origin := .consolidation, sources }])
      have member : ∀ line ∈ dedupe env
          (linesOf state.docs (changeKey isWorkMemo agentId) ++
            [{ id := state.nextLineId, text := checked, origin := .consolidation, sources }]),
          line ∈ linesOf state.docs (changeKey isWorkMemo agentId) ∨
            (line.id = state.nextLineId ∧ line.origin = .consolidation) := by
        intro line listed
        rcases List.mem_append.mp (sublist.subset listed) with existing | new
        · exact Or.inl existing
        · rw [List.mem_singleton.mp new]
          exact Or.inr ⟨rfl, rfl⟩
      obtain rfl := Except.ok.inj returned
      have sameBudget : budgetFor (changeKey isWorkMemo agentId) = profileBudgetTokens := by
        unfold changeKey
        split <;> rfl
      apply sound.keepPins _ (Nat.le_succ _) _ short (budget.trans_eq sameBudget.symm)
      · intro line listed pinned
        rcases member line listed with existing | ⟨_, origin⟩
        · exact existing
        · rw [origin] at pinned
          cases pinned
      · intro line listed pinned
        exact mem_dedupe_append (keeps line listed pinned)
      · apply List.Nodup.sublist (sublist.map _)
        rw [List.map_append, List.nodup_append']
        refine ⟨sound.ids _, List.nodup_singleton _, ?_⟩
        intro id old new
        obtain ⟨line, listed, rfl⟩ := List.mem_map.mp old
        exact Nat.ne_of_lt (sound.bounded _ line listed) (List.mem_singleton.mp new)
      · intro line listed
        rcases member line listed with existing | ⟨same, _⟩
        · exact Nat.lt_succ_of_lt (sound.bounded _ line existing)
        · rw [same]
          exact Nat.lt_succ_self _
  | replaceRecent triggerId recent tips =>
      simp only [MemoryProfiles.applyChange, bind_eq_ok] at succeeded
      obtain ⟨recent, _, tips, _, _, fits, returned⟩ := succeeded
      obtain ⟨short, budget⟩ := checkBudget_eq_ok fits
      obtain rfl := Except.ok.inj returned
      have small : docTokens (replaceRecent env state.nextLineId
          (linesOf state.docs (.triggerMemo triggerId)) recent tips) ≤
            budgetFor (.triggerMemo triggerId) := budget
      apply sound.keepPins (nodup_ids_replaceRecent (sound.ids _) (sound.bounded _)) _ _ short small
      · intro line listed pinned
        rcases mem_replaceRecent listed with existing | ⟨origin, _⟩
        · exact existing
        · rw [origin] at pinned
          cases pinned
      · intro line listed pinned
        -- the memo of a schedule has no pins
        obtain ⟨memory, _, _, ofMemo⟩ := sound.pins _ line listed pinned
        unfold kindOf at ofMemo
        split at ofMemo <;> cases ofMemo
      · omega
      · intro line listed
        rcases mem_replaceRecent listed with existing | ⟨_, _, upper⟩
        · have := sound.bounded _ line existing
          exact Nat.lt_of_lt_of_le this (by omega)
        · exact upper

theorem step (sound : Sound state) (action : Action) (keeps : KeepsPins env state action) :
    Sound (MemoryProfiles.step env state action) := by
  unfold MemoryProfiles.step
  split
  case h_2 => exact sound
  case h_1 after succeeded =>
  cases action with
  | pin memoryId => exact sound.applyPin succeeded
  | unpin memoryId =>
      obtain rfl := Except.ok.inj succeeded
      exact sound.unpin memoryId
  | replaceLines key entries expectedVersion => exact sound.replaceLines succeeded
  | applyChange change => exact sound.applyChange succeeded keeps
  | purgeRecords ids =>
      obtain rfl := Except.ok.inj succeeded
      exact sound.purge ids

end Sound

section Versions

variable {env : Environment} {state : State} {key : DocKey}

theorem versionOf_lt_saveDoc {docs : Table MemoryProfileDoc.key} {saved : DocKey}
    {lines : List ProfileLine}
    (changed : linesOf (saveDoc docs saved lines) key ≠ linesOf docs key) :
    versionOf docs key < versionOf (saveDoc docs saved lines) key := by
  rw [linesOf_saveDoc] at changed
  rw [versionOf_saveDoc]
  split
  case isTrue => exact Nat.lt_succ_self _
  case isFalse different =>
      rw [if_neg different] at changed
      exact absurd rfl changed

theorem unpin_docs (memoryId : Uuid) (state : State) :
    (unpin memoryId state).docs = state.docs ∨
      ∃ saved lines, (unpin memoryId state).docs = saveDoc state.docs saved lines := by
  unfold unpin
  split
  · exact Or.inl rfl
  · split
    · exact Or.inl rfl
    · dsimp only
      split
      · exact Or.inr ⟨_, _, rfl⟩
      · exact Or.inl rfl

theorem versionOf_lt_step (state : State) (action : Action)
    (changed : linesOf (step env state action).docs key ≠ linesOf state.docs key) :
    versionOf state.docs key < versionOf (step env state action).docs key := by
  unfold step at changed ⊢
  split at changed
  case h_2 => exact absurd rfl changed
  case h_1 after succeeded =>
  cases action with
  | pin memoryId =>
      simp only [perform, pin] at succeeded
      split at succeeded
      · obtain rfl := Except.ok.inj succeeded
        exact absurd rfl changed
      · split at succeeded
        · obtain rfl := Except.ok.inj succeeded
          exact absurd rfl changed
        · simp only [bind_eq_ok] at succeeded
          obtain ⟨_, _, _, _, returned⟩ := succeeded
          obtain rfl := Except.ok.inj returned
          exact versionOf_lt_saveDoc changed
  | unpin memoryId =>
      obtain rfl := Except.ok.inj succeeded
      rcases unpin_docs memoryId state with same | ⟨saved, lines, same⟩
      · exact absurd (by rw [same]) changed
      · rw [same] at changed ⊢
        exact versionOf_lt_saveDoc changed
  | replaceLines key entries expectedVersion =>
      simp only [perform, replaceLines, bind_eq_ok] at succeeded
      obtain ⟨_, _, _, _, _, _, returned⟩ := succeeded
      obtain rfl := Except.ok.inj returned
      exact versionOf_lt_saveDoc changed
  | applyChange change =>
      cases change with
      | remove isWorkMemo agentId lineId =>
          simp only [perform, applyChange] at succeeded
          split at succeeded
          · obtain rfl := Except.ok.inj succeeded
            exact absurd rfl changed
          · obtain rfl := Except.ok.inj succeeded
            exact versionOf_lt_saveDoc changed
      | add isWorkMemo agentId text sources =>
          simp only [perform, applyChange, bind_eq_ok] at succeeded
          obtain ⟨_, _, rest⟩ := succeeded
          split at rest
          · obtain rfl := Except.ok.inj rest
            exact absurd rfl changed
          · obtain ⟨_, _, returned⟩ := bind_eq_ok.mp rest
            obtain rfl := Except.ok.inj returned
            exact versionOf_lt_saveDoc changed
      | replaceRecent triggerId recent tips =>
          simp only [perform, applyChange, bind_eq_ok] at succeeded
          obtain ⟨_, _, _, _, _, _, returned⟩ := succeeded
          obtain rfl := Except.ok.inj returned
          exact versionOf_lt_saveDoc changed
  | purgeRecords ids =>
      obtain rfl := Except.ok.inj succeeded
      exact versionOf_dropSources ids state.docs key changed

end Versions

/-- The document has one pinned line of the memory. -/
def HasOnePin (state : State) (memory : MemoryRecord) : Prop :=
  (linesOf state.docs (kindOf memory)).countP (fun line => Pins line memory.id) = 1

instance (state : State) (memory : MemoryRecord) : Decidable (HasOnePin state memory) :=
  inferInstanceAs (Decidable (_ = 1))

/-- Pins and profile documents agree, and so they do about what comes next. -/
structure Agrees (env : Environment) (state : State) : Prop where
  pinned_iff : ∀ memory ∈ state.memories.rows, memory.pinned = true ↔ HasOnePin state memory
  ids : ∀ key, ((linesOf state.docs key).map ProfileLine.id).Nodup
  short : ∀ key, (linesOf state.docs key).length ≤ maxLines
  budget : ∀ key, docTokens (linesOf state.docs key) ≤ budgetFor key
  version : ∀ action key,
    linesOf (step env state action).docs key ≠ linesOf state.docs key →
      versionOf state.docs key < versionOf (step env state action).docs key
  refused : ∀ action refusal, perform env state action = .error refusal →
    step env state action = state

namespace Sound

variable {env : Environment} {state : State}

theorem hasOnePin_iff (sound : Sound state) (memory : MemoryRecord) :
    HasOnePin state memory ↔
      ∃ line ∈ linesOf state.docs (kindOf memory), Pins line memory.id := by
  unfold HasOnePin
  constructor
  · intro one
    obtain ⟨line, listed, pins⟩ := List.countP_pos_iff.mp (one ▸ Nat.one_pos)
    exact ⟨line, listed, of_decide_eq_true pins⟩
  · rintro ⟨line, listed, pins⟩
    have others : ∀ other ∈ linesOf state.docs (kindOf memory),
        decide (Pins other memory.id) = true ↔ (other == line) = true := by
      intro other otherListed
      rw [decide_eq_true_eq, beq_iff_eq]
      constructor
      · intro otherPins
        exact List.inj_on_of_nodup_map (sound.ids _) otherListed listed
          (sound.single _ other otherListed line listed memory.id otherPins pins)
      · rintro rfl
        exact pins
    rw [List.countP_congr others]
    exact List.count_eq_one_of_mem (List.Nodup.of_map _ (sound.ids _)) listed

theorem agrees (sound : Sound state) : Agrees env state where
  pinned_iff := by
    intro memory member
    rw [sound.flags memory member, sound.hasOnePin_iff]
  ids := sound.ids
  short := sound.short
  budget := sound.budget
  version := fun action _ => versionOf_lt_step state action
  refused := by
    intro action refusal refused
    unfold MemoryProfiles.step
    rw [refused]

end Sound

/-- In a run whose jobs keep the pinned lines, pins and profile documents agree. -/
theorem run_agrees {env : Environment} {memories : Table MemoryRecord.id} (actions : List Action)
    (unpinned : ∀ memory ∈ memories.rows, memory.pinned = false)
    (every : EveryStep (step env) (KeepsPins env) { memories } actions) :
    Agrees env (run (step env) { memories } actions) :=
  Sound.agrees
    (run_allowed_invariant Sound (fun _ action keeps sound => sound.step action keeps)
      (sound_initial unpinned) every)

def plain : Environment where
  lower := id
  refuses := fun _ => none

def teaMemory : MemoryRecord where
  id := 1
  content := ['t', 'e', 'a']
  isAgentScope := false
  agentId := none
  isActive := true
  pinned := false

def teaMemories : Table MemoryRecord.id :=
  ⟨[teaMemory], List.nodup_singleton _⟩

/-- A line is added about tea with milk, after the memory is pinned. -/
theorem run_agrees_added : Agrees plain (run (step plain) { memories := teaMemories }
    [.pin 1, .applyChange (.add false none ['m', 'i', 'l', 'k'] [1])]) :=
  run_agrees _ (by decide) ⟨by decide, by decide, trivial⟩

/-- The profile line of the memory is its pin; a job removes the line. -/
theorem removedPin_disagrees : ¬ ∀ env memories actions,
    (∀ memory ∈ memories.rows, memory.pinned = false) →
      Agrees env (run (step env) { memories } actions) := by
  intro agree
  have agrees := agree plain teaMemories [.pin 1, .applyChange (.remove false none 0)] (by decide)
  have onePin := (agrees.pinned_iff { teaMemory with pinned := true } (by decide)).mp rfl
  revert onePin
  decide

end NaturalMold.MemoryProfiles

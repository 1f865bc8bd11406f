import NaturalMold.GuardrailPolicy

/-!
# Pinning a run's guardrails

A new turn stores the rules and tool risk actions it resolved on its run row; a resume reuses the
conversation's latest stored record.
-/

namespace NaturalMold.Guardrails

/-- Rules that each pass the checks, with different ids; only their number is
open. -/
structure WellFormed (rules : List Rule) : Prop where
  each : ∀ rule ∈ rules, rule.Valid
  ids : (rules.map Rule.id).Nodup

theorem validRules_iff {rules : List Rule} (wellFormed : WellFormed rules) :
    ValidRules rules ↔ 0 < rules.length ∧ rules.length ≤ maxRules :=
  ⟨ValidRules.count, fun count => ⟨count, wellFormed.each, wellFormed.ids⟩⟩

theorem ValidRules.wellFormed {rules : List Rule} (valid : ValidRules rules) : WellFormed rules :=
  ⟨valid.each, valid.ids⟩

theorem WellFormed.sublist {rules kept : List Rule} (wellFormed : WellFormed rules)
    (sublist : kept.Sublist rules) : WellFormed kept :=
  ⟨fun rule member => wellFormed.each rule (sublist.subset member),
    wellFormed.ids.sublist (sublist.map _)⟩

theorem wellFormed_withLocked {chosen default : RuleSet} (locked : Finset String)
    (chosenValid : WellFormed chosen.rules) (defaultValid : WellFormed default.rules) :
    WellFormed (withLocked chosen default locked).rules where
  each rule member := by
    rcases mem_withLocked.mp member with own | ⟨added, -⟩
    · exact chosenValid.each rule own
    · exact defaultValid.each rule added
  ids := by
    have added : ((default.rules.filter fun rule => rule.id ∈ locked).filter fun rule =>
        rule.id ∉ chosen.rules.map Rule.id).Sublist default.rules :=
      List.filter_sublist.trans List.filter_sublist
    rw [withLocked, List.map_append, List.nodup_append]
    refine ⟨chosenValid.ids, (defaultValid.sublist added).ids, ?_⟩
    rintro id ownMember other otherMember rfl
    obtain ⟨rule, ruleMember, rfl⟩ := List.mem_map.mp otherMember
    exact absurd ownMember (by simpa using List.of_mem_filter ruleMember)

theorem valid_of_changeRule {overrides : List (String × Json)} {locked : Finset String}
    {rule changed : Rule} (valid : rule.Valid)
    (changedEq : changeRule overrides locked rule = .ok (some changed)) : changed.Valid := by
  rcases changeRule_cases changedEq with
    ⟨-, impossible⟩ | ⟨-, same | ⟨action, -, input, approval, same⟩⟩
  · simp at impossible
  · rw [Option.some.inj same]
    exact valid
  · rw [Option.some.inj same]
    exact ⟨valid.id, valid.packs, valid.stages, valid.entities, input, approval⟩

section Changed

variable {overrides : List (String × Json)} {locked : Finset String} {rules : List Rule}
  {kept : List (Option Rule)}

theorem map_id_of_changed
    (related : List.Forall₂ (fun rule result => changeRule overrides locked rule = .ok result)
      rules kept) :
    kept.reduceOption.map Rule.id =
      (rules.filter fun rule => !switchedOff overrides locked rule).map Rule.id := by
  induction related with
  | nil => rfl
  | @cons rule result rules kept first _ ih =>
      rcases changeRule_cases first with ⟨off, rfl⟩ | ⟨on, -⟩
      · simp [off, ih]
      · cases result with
        | none =>
            rcases changeRule_cases first with ⟨off, -⟩ | ⟨-, same | ⟨_, -, -, -, same⟩⟩
            · simp [off] at on
            · simp at same
            · simp at same
        | some changed => simp [on, ih, id_of_changeRule first]

end Changed

def countLeftOn (overrides : List (String × Json)) (locked : Finset String)
    (rules : List Rule) : Nat :=
  rules.countP fun rule => !switchedOff overrides locked rule

theorem wellFormed_applyOverrides {rules changed : RuleSet} {overrides : List (String × Json)}
    {locked : Finset String} (wellFormed : WellFormed rules.rules)
    (applied : applyOverrides rules overrides locked = .ok changed) :
    WellFormed changed.rules ∧
      changed.rules.length = countLeftOn overrides locked rules.rules := by
  obtain ⟨kept, related, rfl⟩ := forall₂_of_applyOverrides applied
  have ids := map_id_of_changed related
  refine ⟨⟨fun rule member => ?_, ?_⟩, ?_⟩
  · obtain ⟨original, originalMember, originalEq⟩ := exists_of_mem_applyOverrides applied member
    exact valid_of_changeRule (wellFormed.each original originalMember) originalEq
  · rw [ids]
    exact wellFormed.ids.sublist (List.filter_sublist.map _)
  · have lengths := congrArg List.length ids
    rwa [List.length_map, List.length_map, ← List.countP_eq_length_filter] at lengths

variable {db : GuardrailDatabase} {tenantId : Nat}

theorem wellFormed_defaultRules {policy : CompanyPolicy} {default : RuleSet}
    (found : defaultRules db tenantId policy = .ok (some default)) : ValidRules default.rules := by
  unfold defaultRules at found
  split at found
  · split at found <;> simp at found
  · split at found
    · simp at found
    · simp at found
    · rename_i templateEq
      rw [Except.ok.injEq, Option.some.injEq] at found
      exact found ▸ validRules_of_templateRules templateEq

theorem wellFormed_chooseRules {policy : CompanyPolicy} {binding : Option AgentGuardrailBinding}
    {default : Option RuleSet} {chosen : RuleSet}
    (defaultEq : defaultRules db tenantId policy = .ok default)
    (chosenEq : chooseRules db tenantId policy binding default = .ok (some chosen)) :
    WellFormed chosen.rules := by
  have fromDefault : ∀ rules, default = some rules → WellFormed rules.rules :=
    fun rules rulesEq => (wellFormed_defaultRules (rulesEq ▸ defaultEq)).wellFormed
  have inherited : ∀ rules, (if policy.mode = .openMode then none else default) = some rules →
      WellFormed rules.rules := by
    intro rules rulesEq
    split at rulesEq
    · simp at rulesEq
    · exact fromDefault rules rulesEq
  cases binding with
  | none =>
      simp only [chooseRules, Except.ok.injEq] at chosenEq
      exact inherited chosen chosenEq
  | some own =>
      simp only [chooseRules] at chosenEq
      by_cases inherits : policy.mode = .enforced ∨ own.mode = .inherit
      · rw [if_pos inherits, Except.ok.injEq] at chosenEq
        exact inherited chosen chosenEq
      · rw [if_neg inherits] at chosenEq
        split at chosenEq
        · simp at chosenEq
        · exact fromDefault chosen (Except.ok.inj chosenEq)
        · rename_i template templateEq
          have templateValid := (validRules_of_templateRules templateEq).wellFormed
          cases default with
          | none => exact Option.some.inj (Except.ok.inj chosenEq) ▸ templateValid
          | some default =>
              exact Option.some.inj (Except.ok.inj chosenEq) ▸
                wellFormed_withLocked policy.lockedRules templateValid (fromDefault _ rfl)

/-- Of the rules that a run starts from, between one and forty are left on; an
agent that is switched off keeps locked rules only. -/
def FitsSnapshot (db : GuardrailDatabase) (tenantId : Nat) (policy : CompanyPolicy)
    (binding : Option AgentGuardrailBinding) : Prop :=
  bindingOff policy binding = true ∨
    ∀ default chosen, defaultRules db tenantId policy = .ok default →
      chooseRules db tenantId policy binding default = .ok (some chosen) →
        0 < countLeftOn (overridesOf binding) policy.lockedRules chosen.rules ∧
          countLeftOn (overridesOf binding) policy.lockedRules chosen.rules ≤ maxRules

theorem validRules_resolve_iff {agentId : Option Nat} {policy : CompanyPolicy}
    (policyEq : companyPolicy db tenantId = .ok policy) {rules : RuleSet}
    (resolved : resolve db tenantId agentId "standard" = .ok (some rules)) :
    ValidRules rules.rules ↔
      FitsSnapshot db tenantId policy (agentId.bind db.bindings) := by
  have guarded : policy.mode ≠ .off := by
    intro off
    simp [resolve, policyEq, off, bind, Except.bind, pure, Except.pure] at resolved
  obtain ⟨default, defaultEq, outcome⟩ := resolve_cases policyEq guarded resolved
  rcases outcome with ⟨off, found⟩ | ⟨notOff, chosen, chosenEq, outcome⟩
  · refine ⟨fun _ => Or.inl off, fun _ => ?_⟩
    obtain ⟨default, rfl, lockedEq⟩ := Option.bind_eq_some_iff.mp found.symm
    have valid := wellFormed_defaultRules defaultEq
    simp only [lockedOnly] at lockedEq
    split at lockedEq
    · simp at lockedEq
    · rename_i nonempty
      have keptEq := congrArg RuleSet.rules (Option.some.inj lockedEq)
      rw [← keptEq]
      have sublist : (default.rules.filter fun rule => rule.id ∈ policy.lockedRules).Sublist
          default.rules := List.filter_sublist
      exact (validRules_iff (valid.wellFormed.sublist sublist)).mpr
        ⟨List.length_pos_iff.mpr nonempty, sublist.length_le.trans valid.count.2⟩
  · rcases outcome with ⟨-, impossible⟩ | ⟨before, after, rfl, afterEq, applied⟩
    · simp at impossible
    · rw [Option.some.injEq] at afterEq
      subst afterEq
      have wellFormed := wellFormed_chooseRules defaultEq chosenEq
      obtain ⟨afterWellFormed, length⟩ := wellFormed_applyOverrides wellFormed applied
      rw [validRules_iff afterWellFormed, length]
      constructor
      · intro count
        refine Or.inr fun otherDefault otherChosen otherDefaultEq otherChosenEq => ?_
        rw [defaultEq, Except.ok.injEq] at otherDefaultEq
        rw [← otherDefaultEq, chosenEq, Except.ok.injEq, Option.some.injEq] at otherChosenEq
        exact otherChosenEq ▸ count
      · rintro (off | fits)
        · simp [notOff] at off
        · exact fits default before defaultEq chosenEq

structure PinnedGuardrails where
  rules : Option RuleSet
  toolRisk : Option ToolRiskPolicy

def resolveToolRisk (db : GuardrailDatabase) (tenantId : Nat) (runtimeProfile : String) :
    Except PolicyError (Option ToolRiskPolicy) :=
  if runtimeProfile ≠ "standard" then .ok none
  else
    match policyFromSettings (db.tenantSettings tenantId) with
    | .error error => .error error
    | .ok none => .ok none
    | .ok (some saved) =>
        match policyFromActions (actionsToJson saved.toolRisk) with
        | .ok policy => .ok policy
        | .error _ => .error .invalidToolRisk

def rulesRecord : Option RuleSet → Json
  | none => .null
  | some rules => rulesToJson rules

def toolRiskRecord : Option ToolRiskPolicy → Json
  | none => .null
  | some policy => actionsToJson policy.actions

/-- The fields of a stored record. -/
def snapshot (pinned : PinnedGuardrails) : List (String × Json) :=
  [("rules", rulesRecord pinned.rules), ("tool_risk", toolRiskRecord pinned.toolRisk)]

inductive PinError
  | policy (error : PolicyError)
  | snapshot (error : SnapshotError)
  | toolRisk (error : ToolRiskError)
  deriving DecidableEq

def snapshotRules (rules : Json) : Except PinError (Option RuleSet) :=
  match rules with
  | .obj fields =>
      match snapshotFromJson (.obj fields) with
      | .ok rules => .ok (some rules)
      | .error error => .error (.snapshot error)
  | _ => .ok none

def snapshotToolRisk (actions : Json) : Except PinError (Option ToolRiskPolicy) :=
  match actions with
  | .obj fields =>
      match policyFromActions (.obj fields) with
      | .ok policy => .ok policy
      | .error error => .error (.toolRisk error)
  | _ => .ok none

def fromSnapshot (record : List (String × Json)) : Except PinError PinnedGuardrails := do
  let rules ← snapshotRules (Json.getField "rules" .null record)
  let toolRisk ← snapshotToolRisk (Json.getField "tool_risk" .null record)
  return ⟨rules, toolRisk⟩

/-- A run row as far as pinning reads and writes it: `visible` says whether the
caller's scope covers it, `guardrails` is that entry of its metadata. -/
structure PinnedRun where
  id : Nat
  conversationId : Nat
  createdAt : Nat
  visible : Bool
  guardrails : Json

namespace PinnedRun

def Newer (first second : PinnedRun) : Prop :=
  second.createdAt < first.createdAt ∨
    second.createdAt = first.createdAt ∧ second.id ≤ first.id

instance : DecidableRel Newer := fun _ _ => inferInstanceAs (Decidable (_ ∨ _ ∧ _))

instance : Std.Total Newer where
  total first second := by
    unfold Newer
    omega

instance : IsTrans PinnedRun Newer where
  trans first second third := by
    unfold Newer
    omega

end PinnedRun

def recentRuns : Nat := 20

/-- The record of the newest other run of the conversation that has one, among
its twenty newest. -/
def latestPinned (runs : List PinnedRun) (runId conversationId : Nat) :
    Option (List (String × Json)) :=
  (((runs.filter fun run =>
    run.conversationId = conversationId ∧ run.id ≠ runId ∧ run.visible = true).insertionSort
      PinnedRun.Newer).take recentRuns).findSome? fun run =>
        match run.guardrails with
        | .obj record => some record
        | _ => none

def storeRecord (runs : List PinnedRun) (runId : Nat) (record : List (String × Json)) :
    List PinnedRun :=
  runs.map fun run =>
    if run.id = runId ∧ run.visible = true then { run with guardrails := .obj record } else run

def resolveAll (db : GuardrailDatabase) (tenantId : Nat) (agentId : Option Nat)
    (runtimeProfile : String) : Except PinError PinnedGuardrails :=
  match resolve db tenantId agentId runtimeProfile, resolveToolRisk db tenantId runtimeProfile with
  | .ok rules, .ok toolRisk => .ok ⟨rules, toolRisk⟩
  | .error error, _ => .error (.policy error)
  | .ok _, .error error => .error (.policy error)

/-- Pin a run's guardrails on its row: a resume takes the conversation's latest
record, everything else resolves the policy. -/
def pinRunGuardrails (db : GuardrailDatabase) (runs : List PinnedRun) (runId conversationId : Nat)
    (tenantId : Nat) (agentId : Option Nat) (runtimeProfile : String) (resume : Bool) :
    Except PinError PinnedGuardrails × List PinnedRun :=
  match if resume then latestPinned runs runId conversationId else none with
  | some record => (fromSnapshot record, storeRecord runs runId record)
  | none =>
      match resolveAll db tenantId agentId runtimeProfile with
      | .error error => (.error error, runs)
      | .ok pinned => (fromSnapshot (snapshot pinned), storeRecord runs runId (snapshot pinned))

/-- Tool risk actions that differ from the defaults are read back as stored. -/
theorem snapshotToolRisk_of_resolved {runtimeProfile : String} {toolRisk : Option ToolRiskPolicy}
    (resolved : resolveToolRisk db tenantId runtimeProfile = .ok toolRisk) :
    snapshotToolRisk (toolRiskRecord toolRisk) = .ok toolRisk := by
  cases toolRisk with
  | none => rfl
  | some policy =>
      have read : ∀ actions, policyFromActions (actionsToJson actions) =
          .ok (if (ToolRiskPolicy.mk actions).isDefault then none else some ⟨actions⟩) := by
        intro actions
        have filled : (actionsToJson actions).truthy = true := rfl
        simp [policyFromActions, filled, actionsFromJson_actionsToJson, Except.map]
      have custom : policy.isDefault = false := by
        unfold resolveToolRisk at resolved
        repeat' split at resolved
        all_goals try simp at resolved
        rename_i saved _ _ savedEq
        rw [read, Except.ok.injEq] at savedEq
        rw [resolved] at savedEq
        split at savedEq
        · simp at savedEq
        · rename_i custom
          rw [← Option.some.inj savedEq]
          simpa using custom
      have stored : snapshotToolRisk (toolRiskRecord (some policy)) =
          match policyFromActions (actionsToJson policy.actions) with
          | .ok policy => .ok policy
          | .error error => .error (.toolRisk error) :=
        rfl
      rw [stored, read]
      simp [custom]

theorem fromSnapshot_snapshot_iff {runtimeProfile : String} {rules : RuleSet}
    {toolRisk : Option ToolRiskPolicy}
    (resolved : resolveToolRisk db tenantId runtimeProfile = .ok toolRisk) :
    fromSnapshot (snapshot ⟨some rules, toolRisk⟩) = .ok ⟨some rules, toolRisk⟩ ↔
      snapshotFromJson (rulesToJson rules) = .ok rules := by
  have readRules : snapshotRules (rulesToJson rules) =
      match snapshotFromJson (rulesToJson rules) with
      | .ok rules => .ok (some rules)
      | .error error => .error (.snapshot error) :=
    rfl
  have read : fromSnapshot (snapshot ⟨some rules, toolRisk⟩) = do
      let rules ← snapshotRules (rulesToJson rules)
      let toolRisk ← snapshotToolRisk (toolRiskRecord toolRisk)
      return ⟨rules, toolRisk⟩ :=
    rfl
  rw [read, readRules, snapshotToolRisk_of_resolved resolved]
  cases snapshotFromJson (rulesToJson rules) with
  | error error => simp [bind, Except.bind]
  | ok found => simp [bind, Except.bind, pure, Except.pure]

/-- Pinning a run's resolved rules, for the run and for every resume that finds
its record, gives exactly these rules if and only if the agent's changes and
the added locked rules leave between one and forty of them. -/
theorem pinned_as_resolved_iff {db : GuardrailDatabase} {tenantId : Nat} {agentId : Option Nat}
    {policy : CompanyPolicy} (policyEq : companyPolicy db tenantId = .ok policy)
    {rules : RuleSet} (resolved : resolve db tenantId agentId "standard" = .ok (some rules))
    {toolRisk : Option ToolRiskPolicy}
    (riskEq : resolveToolRisk db tenantId "standard" = .ok toolRisk)
    (runs : List PinnedRun) (runId conversationId : Nat) :
    (snapshotFromJson (rulesToJson rules) = .ok rules ∧
      (pinRunGuardrails db runs runId conversationId tenantId agentId "standard" false).1 =
        .ok ⟨some rules, toolRisk⟩ ∧
      ∀ laterDb laterRuns laterId laterAgent laterProfile,
        latestPinned laterRuns laterId conversationId =
          some (snapshot ⟨some rules, toolRisk⟩) →
        (pinRunGuardrails laterDb laterRuns laterId conversationId tenantId laterAgent
          laterProfile true).1 = .ok ⟨some rules, toolRisk⟩) ↔
      FitsSnapshot db tenantId policy (agentId.bind db.bindings) := by
  rw [← validRules_resolve_iff policyEq resolved, ← snapshotFromJson_rulesToJson_iff]
  refine ⟨And.left, fun restored => ?_⟩
  have read := (fromSnapshot_snapshot_iff riskEq).mpr restored
  refine ⟨restored, ?_, fun laterDb laterRuns laterId laterAgent laterProfile found => ?_⟩
  · simp only [pinRunGuardrails, Bool.false_eq_true, if_false, resolveAll, resolved, riskEq]
    exact read
  · simp only [pinRunGuardrails, if_true, found]
    exact read

theorem latestPinned_storeRecord {runs : List PinnedRun} {run : PinnedRun}
    (member : run ∈ runs) (visible : run.visible = true) {laterId : Nat}
    (differs : run.id ≠ laterId) (record : List (String × Json))
    (newest : ∀ other ∈ runs, other.conversationId = run.conversationId → other.id ≠ laterId →
      other.visible = true → other ≠ run → other.id ≠ run.id ∧ ¬ PinnedRun.Newer other run) :
    latestPinned (storeRecord runs run.id record) laterId run.conversationId = some record := by
  let stored : PinnedRun := { run with guardrails := .obj record }
  have listed : stored ∈ (storeRecord runs run.id record).filter fun other =>
      other.conversationId = run.conversationId ∧ other.id ≠ laterId ∧ other.visible = true := by
    refine List.mem_filter.mpr ⟨List.mem_map.mpr ⟨run, member, by simp [visible, stored]⟩, ?_⟩
    simp [stored, differs, visible]
  rw [latestPinned]
  generalize sortedEq : ((storeRecord runs run.id record).filter fun other =>
    other.conversationId = run.conversationId ∧ other.id ≠ laterId ∧
      other.visible = true).insertionSort PinnedRun.Newer = sorted
  have sameMembers : ∀ other, other ∈ sorted ↔
      other ∈ (storeRecord runs run.id record).filter fun other =>
        other.conversationId = run.conversationId ∧ other.id ≠ laterId ∧
          other.visible = true := by
    intro other
    rw [← sortedEq, List.mem_insertionSort]
  have ordered : sorted.Pairwise PinnedRun.Newer :=
    sortedEq ▸ List.pairwise_insertionSort PinnedRun.Newer _
  cases sorted with
  | nil => exact absurd ((sameMembers stored).mpr listed) List.not_mem_nil
  | cons head tail =>
      have headEq : head = stored := by
        by_contra headDiffers
        have inTail : stored ∈ tail :=
          (List.mem_cons.mp ((sameMembers stored).mpr listed)).resolve_left
            fun equal => headDiffers equal.symm
        have newer : PinnedRun.Newer head stored :=
          (List.pairwise_cons.mp ordered).1 stored inTail
        obtain ⟨headStored, headListed⟩ :=
          List.mem_filter.mp ((sameMembers head).mp List.mem_cons_self)
        obtain ⟨other, otherMember, rfl⟩ := List.mem_map.mp headStored
        by_cases same : other = run
        · subst same
          simp [visible, stored] at headDiffers
        · have older := newest other otherMember
          split at headListed
          · rename_i target
            simp only [decide_eq_true_eq] at headListed
            exact (older headListed.1 headListed.2.1 headListed.2.2 same).1 target.1
          · rename_i untouched
            simp only [decide_eq_true_eq] at headListed
            rw [if_neg untouched] at newer
            exact (older headListed.1 headListed.2.1 headListed.2.2 same).2 newer
      rw [headEq]
      rfl

/-- A later resume applies the rules that the conversation's newest run was pinned with,
whatever has become of the company's policy and the agent's rules. -/
theorem resume_reads_pinned {db laterDb : GuardrailDatabase} {tenantId : Nat}
    {agentId laterAgent : Option Nat} {rules : RuleSet} {toolRisk : Option ToolRiskPolicy}
    (resolved : resolve db tenantId agentId "standard" = .ok (some rules))
    (riskEq : resolveToolRisk db tenantId "standard" = .ok toolRisk)
    (restored : snapshotFromJson (rulesToJson rules) = .ok rules)
    {runs : List PinnedRun} {run : PinnedRun} (member : run ∈ runs) (visible : run.visible = true)
    {laterId : Nat} (differs : run.id ≠ laterId)
    (newest : ∀ other ∈ runs, other.conversationId = run.conversationId → other.id ≠ laterId →
      other.visible = true → other ≠ run → other.id ≠ run.id ∧ ¬ PinnedRun.Newer other run)
    (laterProfile : String) :
    let pinned := pinRunGuardrails db runs run.id run.conversationId tenantId agentId "standard" false
    (pinRunGuardrails laterDb pinned.2 laterId run.conversationId tenantId laterAgent laterProfile
      true).1 = .ok ⟨some rules, toolRisk⟩ := by
  intro pinned
  have stored : pinned.2 = storeRecord runs run.id (snapshot ⟨some rules, toolRisk⟩) := by
    simp only [pinned, pinRunGuardrails, Bool.false_eq_true, if_false, resolveAll, resolved, riskEq]
  rw [stored, pinRunGuardrails, if_pos rfl, latestPinned_storeRecord member visible differs _ newest]
  exact (fromSnapshot_snapshot_iff riskEq).mpr restored

/-- A company without a policy and an agent that chose the observation template. -/
def observingAgent (overrides : List (String × Json)) : GuardrailDatabase where
  guardrailDefaultTemplate := ""
  tenantSettings _ := none
  bindings _ := some ⟨.template, some "builtin:kr-observe", overrides⟩
  templates _ := none
  templateVersions _ _ := none

def openPolicy : CompanyPolicy :=
  ⟨.openMode, none, ∅, defaultActions⟩

def observeRules : RuleSet :=
  { krObserve with template := "builtin:kr-observe" }

theorem chooseRules_observingAgent {default chosen : Option RuleSet}
    (defaultEq : defaultRules (observingAgent []) 0 openPolicy = .ok default)
    (chosenEq : chooseRules (observingAgent []) 0 openPolicy
      ((some 0).bind (observingAgent []).bindings) default = .ok chosen) :
    chosen = some observeRules := by
  have noDefault : default = none := (Except.ok.inj defaultEq).symm
  subst noDefault
  have started : chooseRules (observingAgent []) 0 openPolicy
      ((some 0).bind (observingAgent []).bindings) none = .ok (some observeRules) :=
    rfl
  rw [started, Except.ok.injEq] at chosenEq
  exact chosenEq.symm

theorem pinned_as_resolved_observing :
    snapshotFromJson (rulesToJson observeRules) = .ok observeRules ∧
      (pinRunGuardrails (observingAgent []) [] 1 2 0 (some 0) "standard" false).1 =
        .ok ⟨some observeRules, none⟩ := by
  obtain ⟨restored, pinned, -⟩ := (pinned_as_resolved_iff
    (show companyPolicy (observingAgent []) 0 = .ok openPolicy from rfl)
    (show resolve (observingAgent []) 0 (some 0) "standard" = .ok (some observeRules) from rfl)
    (show resolveToolRisk (observingAgent []) 0 "standard" = .ok none from rfl) [] 1 2).mpr
      (Or.inr fun default chosen defaultEq chosenEq => by
        rw [Option.some.inj (chooseRules_observingAgent defaultEq chosenEq)]
        decide)
  exact ⟨restored, pinned⟩

/-- The agent's rules have been switched off since. -/
theorem resume_reads_pinned_observing :
    (pinRunGuardrails (observingAgent [("observe", .obj [("enabled", .bool false)])])
      (pinRunGuardrails (observingAgent []) [⟨1, 2, 0, true, .null⟩] 1 2 0 (some 0) "standard"
        false).2 5 2 0 (some 0) "standard" true).1 = .ok ⟨some observeRules, none⟩ :=
  resume_reads_pinned rfl rfl rfl (List.mem_singleton_self ⟨1, 2, 0, true, .null⟩) rfl (by decide)
    (fun _ member _ _ _ different => absurd (List.mem_singleton.mp member) different) "standard"

/-- Switching off both rules of the template leaves an empty rule set, whose
record cannot be read back. -/
theorem pinned_fails_all_off :
    let db := observingAgent [("observe", .obj [("enabled", .bool false)]),
      ("jailbreak", .obj [("enabled", .bool false)])]
    resolve db 0 (some 0) "standard" = .ok (some { observeRules with rules := [] }) ∧
      snapshotFromJson (rulesToJson { observeRules with rules := [] }) =
        .error (.rules (.invalid "rules must be a list of 1-40 rules")) ∧
      (pinRunGuardrails db [] 1 2 0 (some 0) "standard" false).1 =
        .error (.snapshot (.rules (.invalid "rules must be a list of 1-40 rules"))) :=
  ⟨rfl, rfl, rfl⟩

end NaturalMold.Guardrails

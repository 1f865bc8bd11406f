import NaturalMold.GuardrailTemplates
import Mathlib.Data.List.ReduceOption

/-!
# Which rule set an agent run gets

A run's rules come from the company policy, the company's default template, the agent's binding and
the agent's per-rule changes.
-/

namespace NaturalMold.Guardrails

inductive ToolRiskLevel
  | readOnly
  | writeInternal
  | externalMutation
  | codeExecution
  | unknown
  deriving DecidableEq

namespace ToolRiskLevel

def name : ToolRiskLevel → String
  | readOnly => "read_only"
  | writeInternal => "write_internal"
  | externalMutation => "external_mutation"
  | codeExecution => "code_execution"
  | unknown => "unknown"

def levels : List ToolRiskLevel :=
  [readOnly, writeInternal, externalMutation, codeExecution, unknown]

def ofName? (text : String) : Option ToolRiskLevel :=
  levels.find? fun level => level.name = text

@[simp]
theorem ofName?_name (level : ToolRiskLevel) : ofName? level.name = some level := by
  cases level <;> decide

end ToolRiskLevel

inductive RiskAction
  | allow
  | approval
  | block
  deriving DecidableEq

namespace RiskAction

def name : RiskAction → String
  | allow => "allow"
  | approval => "approval"
  | block => "block"

def ofName? (text : String) : Option RiskAction :=
  [allow, approval, block].find? fun action => action.name = text

@[simp]
theorem ofName?_name (action : RiskAction) : ofName? action.name = some action := by
  cases action <;> decide

end RiskAction

def defaultActions : ToolRiskLevel → RiskAction
  | .readOnly => .allow
  | .writeInternal | .externalMutation | .codeExecution | .unknown => .approval

/-- A level or action outside the known names, or a value no set can hold. -/
inductive ToolRiskError
  | invalid (message : String)
  | unhashable
  deriving DecidableEq

def setAction (actions : ToolRiskLevel → RiskAction) (entry : String × Json) :
    Except ToolRiskError (ToolRiskLevel → RiskAction) :=
  match ToolRiskLevel.ofName? entry.1 with
  | none => .error (.invalid s!"unknown risk level '{entry.1}'")
  | some level =>
      if entry.2.hashable then
        match entry.2.str?.bind RiskAction.ofName? with
        | some action => .ok fun other => if other = level then action else actions other
        | none =>
            .error (.invalid (s!"risk level {entry.1}: " ++
              "action must be one of ['allow', 'approval', 'block']"))
      else .error .unhashable

def actionsFromJson (raw : Json) : Except ToolRiskError (ToolRiskLevel → RiskAction) :=
  match raw with
  | .null => .ok defaultActions
  | .obj entries => entries.foldlM setAction defaultActions
  | _ => .error (.invalid "tool_risk must be an object")

def actionsToJson (actions : ToolRiskLevel → RiskAction) : Json :=
  .obj (ToolRiskLevel.levels.map fun level => (level.name, .str (actions level).name))

structure ToolRiskPolicy where
  actions : ToolRiskLevel → RiskAction

def ToolRiskPolicy.isDefault (policy : ToolRiskPolicy) : Bool :=
  ToolRiskLevel.levels.all fun level => policy.actions level = defaultActions level

/-- `none` when every level keeps its default, so there is nothing to apply. -/
def policyFromActions (actions : Json) : Except ToolRiskError (Option ToolRiskPolicy) :=
  if actions.truthy then
    (actionsFromJson actions).map fun actions =>
      let policy : ToolRiskPolicy := ⟨actions⟩
      if policy.isDefault then none else some policy
  else .ok none

/-- The stored actions are read back as they are. -/
theorem actionsFromJson_actionsToJson (actions : ToolRiskLevel → RiskAction) :
    actionsFromJson (actionsToJson actions) = .ok actions := by
  have entry : ∀ (held : ToolRiskLevel → RiskAction) level,
      setAction held (level.name, .str (actions level).name) =
        .ok fun other => if other = level then actions level else held other := by
    intro held level
    simp [setAction, Json.hashable, Json.str?]
  simp only [actionsFromJson, actionsToJson, ToolRiskLevel.levels, List.map_cons, List.map_nil,
    List.foldlM_cons, List.foldlM_nil, entry, pure, Except.pure, bind, Except.bind]
  congr 1
  funext level
  cases level <;> rfl

inductive PolicyMode
  | off
  | openMode
  | defaultMode
  | enforced
  deriving DecidableEq

namespace PolicyMode

def name : PolicyMode → String
  | off => "off"
  | openMode => "open"
  | defaultMode => "default"
  | enforced => "enforced"

def ofName? (text : String) : Option PolicyMode :=
  [off, openMode, defaultMode, enforced].find? fun mode => mode.name = text

end PolicyMode

structure CompanyPolicy where
  mode : PolicyMode
  defaultTemplate : Option String := none
  lockedRules : Finset String := ∅
  toolRisk : ToolRiskLevel → RiskAction := defaultActions

/-- Why no rule set can be decided on; the run must not go unchecked. -/
inductive PolicyError
  | invalidToolRisk
  | enforcedWithoutDefault
  | unusableDefault (ref : String)
  | unknownInstallationTemplate (name : String)
  | rules (error : RulesError)
  | typeError
  deriving DecidableEq

/-- The names in the stored list of locked rules; iterating goes over a list's
items, a string's code points or an object's names. -/
def lockedNames (locked : Json) : Except PolicyError (Finset String) :=
  if locked.truthy then
    match locked with
    | .arr items => .ok (items.filterMap Json.str?).toFinset
    | .str text => .ok (text.toList.map fun char => String.ofList [char]).toFinset
    | .obj fields => .ok (fields.map Prod.fst).toFinset
    | _ => .error .typeError
  else .ok ∅

def templateName (value : Json) : Except PolicyError (Option String) :=
  if value.truthy then
    match value with
    | .str name => .ok (some name)
    | _ => .error .typeError
  else .ok none

def policyFromSettings (settings : Option (List (String × Json))) :
    Except PolicyError (Option CompanyPolicy) :=
  match Json.getField "guardrails" .null (settings.getD []) with
  | .obj raw =>
      match (Json.getField "mode" .null raw).str?.bind PolicyMode.ofName? with
      | none => .ok none
      | some mode =>
          match actionsFromJson (Json.getField "tool_risk" .null raw) with
          | .error (.invalid _) => .error .invalidToolRisk
          | .error .unhashable => .error .typeError
          | .ok toolRisk => do
              let defaultTemplate ← templateName (Json.getField "default_template" .null raw)
              let lockedRules ← lockedNames (Json.getField "locked_rules" .null raw)
              return some ⟨mode, defaultTemplate, lockedRules, toolRisk⟩
  | _ => .ok none

def installationPolicy (guardrailDefaultTemplate : String) : Except PolicyError CompanyPolicy :=
  let name := String.ofList (PythonText.strip guardrailDefaultTemplate.toList)
  if name = "" then .ok ⟨.openMode, none, ∅, defaultActions⟩
  else
    match builtin name with
    | none => .error (.unknownInstallationTemplate name)
    | some _ => .ok ⟨.defaultMode, some (builtinPrefix ++ name), ∅, defaultActions⟩

structure GuardrailTemplate where
  tenantId : Nat
  status : String
  publishedVersion : Option Int

inductive BindingMode
  | inherit
  | template
  | off
  deriving DecidableEq

/-- An agent's choice and its per-rule changes, by rule id. -/
structure AgentGuardrailBinding where
  mode : BindingMode
  templateRef : Option String
  ruleOverrides : List (String × Json)

/-- The rows and settings that decide a run's rule set. -/
structure GuardrailDatabase where
  guardrailDefaultTemplate : String
  tenantSettings : Nat → Option (List (String × Json))
  bindings : Nat → Option AgentGuardrailBinding
  templates : Nat → Option GuardrailTemplate
  templateVersions : Nat → Int → Option Json

/-- The rules a reference points at now: a built-in, or a company template's
published version. -/
def templateRules (db : GuardrailDatabase) (tenantId : Nat) (ref : String) :
    Except PolicyError (Option RuleSet) :=
  match parseRef ref with
  | none => .ok none
  | some (.builtin name) =>
      .ok ((builtin name).map fun found => { found with template := ref })
  | some (.company key) =>
      match db.templates key with
      | none => .ok none
      | some template =>
          if template.tenantId ≠ tenantId ∨ template.status ≠ "published" then .ok none
          else
            match template.publishedVersion with
            | none => .ok none
            | some version =>
                match db.templateVersions key version with
                | none => .ok none
                | some rules =>
                    match rulesFromJson rules with
                    | .error error => .error (.rules error)
                    | .ok rules => .ok (some ⟨ref, version, rules⟩)

theorem validRules_of_templateRules {db : GuardrailDatabase} {tenantId : Nat} {ref : String}
    {rules : RuleSet} (found : templateRules db tenantId ref = .ok (some rules)) :
    ValidRules rules.rules := by
  unfold templateRules at found
  split at found
  · simp at found
  · rename_i name _
    rw [Except.ok.injEq, Option.map_eq_some_iff] at found
    obtain ⟨builtinRules, builtinEq, named⟩ := found
    have valid := validRules_builtin builtinEq
    rw [← named]
    exact valid
  · repeat' split at found
    all_goals try simp at found
    rename_i read
    subst found
    exact validRules_of_rulesFromJson read

def changeOf (overrides : List (String × Json)) (locked : Finset String) (rule : Rule) :
    Option (List (String × Json)) :=
  match Json.getField rule.id .null overrides with
  | .obj change => if rule.id ∈ locked then none else some change
  | _ => none

def switchedOff (overrides : List (String × Json)) (locked : Finset String) (rule : Rule) :
    Bool :=
  (changeOf overrides locked rule).any fun change =>
    (Json.getField "enabled" .null change).isFalse

/-- One rule after the agent's change: dropped, with another action, or as it
was when the action does not fit the rule. -/
def changeRule (overrides : List (String × Json)) (locked : Finset String) (rule : Rule) :
    Except PolicyError (Option Rule) :=
  match changeOf overrides locked rule with
  | none => .ok (some rule)
  | some change =>
      if (Json.getField "enabled" .null change).isFalse then .ok none
      else if (Json.getField "action" .null change).hashable then
        match (Json.getField "action" .null change).str?.bind Action.ofName? with
        | none => .ok (some rule)
        | some action =>
            if InputAllowed rule.stages action ∧ ApprovalAllowed rule.packs rule.stages action then
              .ok (some { rule with action := action })
            else .ok (some rule)
      else .error .typeError

/-- The agent's changes on every rule the company left open. -/
def applyOverrides (rules : RuleSet) (overrides : List (String × Json))
    (locked : Finset String) : Except PolicyError RuleSet :=
  (rules.rules.mapM (changeRule overrides locked)).map fun kept =>
    { rules with rules := kept.reduceOption }

def lockedOnly (rules : RuleSet) (locked : Finset String) : Option RuleSet :=
  let kept := rules.rules.filter fun rule => rule.id ∈ locked
  if kept = [] then none else some { rules with rules := kept }

variable {overrides : List (String × Json)} {locked : Finset String}

theorem changeRule_cases {rule : Rule} {changed : Option Rule}
    (changedEq : changeRule overrides locked rule = .ok changed) :
    (switchedOff overrides locked rule = true ∧ changed = none) ∨
      switchedOff overrides locked rule = false ∧
        (changed = some rule ∨
          ∃ action, rule.id ∉ locked ∧ InputAllowed rule.stages action ∧
            ApprovalAllowed rule.packs rule.stages action ∧
            changed = some { rule with action := action }) := by
  rw [switchedOff]
  cases changeEq : changeOf overrides locked rule with
  | none =>
      simp only [changeRule, changeEq, Except.ok.injEq] at changedEq
      exact Or.inr ⟨rfl, Or.inl changedEq.symm⟩
  | some change =>
      simp only [changeRule, changeEq] at changedEq
      split at changedEq
      · rename_i off
        exact Or.inl ⟨off, (Except.ok.inj changedEq).symm⟩
      · rename_i kept
        refine Or.inr ⟨by simpa using kept, ?_⟩
        split at changedEq
        · split at changedEq
          · exact Or.inl (Except.ok.inj changedEq).symm
          · rename_i action _
            split at changedEq
            · rename_i allowed
              have unlocked : rule.id ∉ locked := by
                intro member
                unfold changeOf at changeEq
                split at changeEq
                · simp [member] at changeEq
                · simp at changeEq
              exact Or.inr ⟨action, unlocked, allowed.1, allowed.2,
                (Except.ok.inj changedEq).symm⟩
            · exact Or.inl (Except.ok.inj changedEq).symm
        · simp at changedEq

theorem changeRule_of_locked {rule : Rule} (member : rule.id ∈ locked) :
    changeRule overrides locked rule = .ok (some rule) := by
  have unchanged : changeOf overrides locked rule = none := by
    unfold changeOf
    split
    · exact if_pos member
    · rfl
  rw [changeRule, unchanged]

theorem id_of_changeRule {rule changed : Rule}
    (changedEq : changeRule overrides locked rule = .ok (some changed)) : changed.id = rule.id := by
  rcases changeRule_cases changedEq with ⟨-, impossible⟩ | ⟨-, same | ⟨action, -, -, -, same⟩⟩
  · simp at impossible
  · rw [Option.some.inj same]
  · rw [Option.some.inj same]

section ApplyOverrides

variable {rules changed : RuleSet} {overrides : List (String × Json)} {locked : Finset String}

theorem forall₂_of_applyOverrides
    (applied : applyOverrides rules overrides locked = .ok changed) :
    ∃ kept, List.Forall₂ (fun rule result => changeRule overrides locked rule = .ok result)
        rules.rules kept ∧ changed = { rules with rules := kept.reduceOption } := by
  unfold applyOverrides at applied
  cases keptEq : rules.rules.mapM (changeRule overrides locked) with
  | error error => simp [keptEq, Except.map] at applied
  | ok kept =>
      simp only [keptEq, Except.map, Except.ok.injEq] at applied
      exact ⟨kept, Fallible.mapM_eq_ok_iff.mp keptEq, applied.symm⟩

theorem mem_applyOverrides_of_locked
    (applied : applyOverrides rules overrides locked = .ok changed) {rule : Rule}
    (member : rule ∈ rules.rules) (isLocked : rule.id ∈ locked) : rule ∈ changed.rules := by
  obtain ⟨kept, related, rfl⟩ := forall₂_of_applyOverrides applied
  rw [List.reduceOption_mem_iff]
  obtain ⟨result, resultMember, resultEq⟩ :=
    Fallible.exists_mem_of_forall₂ related.flip member
  rw [changeRule_of_locked isLocked, Except.ok.injEq] at resultEq
  exact resultEq ▸ resultMember

theorem exists_of_mem_applyOverrides
    (applied : applyOverrides rules overrides locked = .ok changed) {rule : Rule}
    (member : rule ∈ changed.rules) :
    ∃ original ∈ rules.rules, changeRule overrides locked original = .ok (some rule) := by
  obtain ⟨kept, related, rfl⟩ := forall₂_of_applyOverrides applied
  rw [List.reduceOption_mem_iff] at member
  exact Fallible.exists_mem_of_forall₂ related member

end ApplyOverrides

def companyPolicy (db : GuardrailDatabase) (tenantId : Nat) : Except PolicyError CompanyPolicy :=
  match policyFromSettings (db.tenantSettings tenantId) with
  | .error error => .error error
  | .ok (some policy) => .ok policy
  | .ok none => installationPolicy db.guardrailDefaultTemplate

def defaultRules (db : GuardrailDatabase) (tenantId : Nat) (policy : CompanyPolicy) :
    Except PolicyError (Option RuleSet) :=
  match policy.defaultTemplate with
  | none => if policy.mode = .enforced then .error .enforcedWithoutDefault else .ok none
  | some ref =>
      match templateRules db tenantId ref with
      | .error error => .error error
      | .ok none => .error (.unusableDefault ref)
      | .ok (some rules) => .ok (some rules)

def withLocked (chosen default : RuleSet) (locked : Finset String) : RuleSet :=
  { chosen with
    rules := chosen.rules ++
      (default.rules.filter fun rule => rule.id ∈ locked).filter fun rule =>
        rule.id ∉ chosen.rules.map Rule.id }

def chooseRules (db : GuardrailDatabase) (tenantId : Nat) (policy : CompanyPolicy)
    (binding : Option AgentGuardrailBinding) (default : Option RuleSet) :
    Except PolicyError (Option RuleSet) :=
  let inherited := if policy.mode = .openMode then none else default
  match binding with
  | none => .ok inherited
  | some binding =>
      if policy.mode = .enforced ∨ binding.mode = .inherit then .ok inherited
      else
        match templateRules db tenantId (binding.templateRef.getD "") with
        | .error error => .error error
        | .ok none => .ok default
        | .ok (some chosen) =>
            match default with
            | none => .ok (some chosen)
            | some default => .ok (some (withLocked chosen default policy.lockedRules))

def bindingOff (policy : CompanyPolicy) (binding : Option AgentGuardrailBinding) : Bool :=
  policy.mode ≠ .enforced && binding.any fun binding => binding.mode = .off

def overridesOf (binding : Option AgentGuardrailBinding) : List (String × Json) :=
  match binding with
  | none => []
  | some binding => binding.ruleOverrides

/-- The rule set a run gets; `none` when it is not guarded. -/
def resolve (db : GuardrailDatabase) (tenantId : Nat) (agentId : Option Nat)
    (runtimeProfile : String) : Except PolicyError (Option RuleSet) :=
  if runtimeProfile ≠ "standard" then .ok none
  else do
    let policy ← companyPolicy db tenantId
    if policy.mode = .off then
      return none
    let binding := agentId.bind db.bindings
    let default ← defaultRules db tenantId policy
    if bindingOff policy binding then
      -- Off is the agent's choice except for what the company locked.
      return default.bind fun default => lockedOnly default policy.lockedRules
    match ← chooseRules db tenantId policy binding default with
    | none => return none
    | some chosen =>
        let rules ← applyOverrides chosen (overridesOf binding) policy.lockedRules
        return some rules

/-- How a guarded profile's rules come about. -/
theorem resolve_cases {db : GuardrailDatabase} {tenantId : Nat} {agentId : Option Nat}
    {policy : CompanyPolicy} (policyEq : companyPolicy db tenantId = .ok policy)
    (guarded : policy.mode ≠ .off) {result : Option RuleSet}
    (resolved : resolve db tenantId agentId "standard" = .ok result) :
    ∃ default, defaultRules db tenantId policy = .ok default ∧
      (bindingOff policy (agentId.bind db.bindings) = true ∧
          result = default.bind (fun default => lockedOnly default policy.lockedRules) ∨
        bindingOff policy (agentId.bind db.bindings) = false ∧
          ∃ chosen, chooseRules db tenantId policy (agentId.bind db.bindings) default =
              .ok chosen ∧
            (chosen = none ∧ result = none ∨
              ∃ before after, chosen = some before ∧ result = some after ∧
                applyOverrides before (overridesOf (agentId.bind db.bindings))
                  policy.lockedRules = .ok after)) := by
  simp only [resolve, ne_eq, not_true_eq_false, if_false, policyEq, Fallible.bind_eq_ok,
    Except.ok.injEq, exists_eq_left', guarded] at resolved
  obtain ⟨default, defaultEq, resolved⟩ := resolved
  refine ⟨default, defaultEq, ?_⟩
  cases off : bindingOff policy (agentId.bind db.bindings) with
  | true =>
      simp only [off, if_true, pure, Except.pure, Except.ok.injEq] at resolved
      exact Or.inl ⟨rfl, resolved.symm⟩
  | false =>
      simp only [off, Bool.false_eq_true, if_false, Fallible.bind_eq_ok] at resolved
      obtain ⟨chosen, chosenEq, resolved⟩ := resolved
      refine Or.inr ⟨rfl, chosen, chosenEq, ?_⟩
      cases chosen with
      | none =>
          simp only [pure, Except.pure, Except.ok.injEq] at resolved
          exact Or.inl ⟨rfl, resolved.symm⟩
      | some before =>
          simp only [Fallible.bind_eq_ok, pure, Except.pure, Except.ok.injEq] at resolved
          obtain ⟨after, applied, resolved⟩ := resolved
          exact Or.inr ⟨before, after, rfl, resolved.symm, applied⟩

/-- Every locked rule of the default is in the result with its packs, stages,
entities and action, so whatever it matches is treated at least as strongly. -/
def ProtectsLocked (default : RuleSet) (locked : Finset String) (result : Option RuleSet) :
    Prop :=
  ∀ rule ∈ default.rules, rule.id ∈ locked →
    ∃ rules, result = some rules ∧
      (∃ kept ∈ rules.rules, kept.id = rule.id ∧ kept.SameProtection rule) ∧
      ∀ entity pack stage, rule.isMatch entity pack stage = true →
        ∃ chosen, rules.ruleFor entity pack stage = some chosen ∧
          actionStrength rule.action ≤ actionStrength chosen.action

def AgreesOnLocked (default : RuleSet) (locked : Finset String) (template : RuleSet) : Prop :=
  ∀ rule ∈ default.rules, rule.id ∈ locked →
    ∀ own ∈ template.rules, own.id = rule.id → own.SameProtection rule

variable {default : RuleSet}

theorem protectsLocked_of_kept {rules : RuleSet} (kept : ∀ rule ∈ default.rules, rule.id ∈ locked →
      ∃ other ∈ rules.rules, other.id = rule.id ∧ other.SameProtection rule) :
    ProtectsLocked default locked (some rules) := by
  intro rule member isLocked
  obtain ⟨other, otherMember, otherId, same⟩ := kept rule member isLocked
  refine ⟨rules, rfl, ⟨other, otherMember, otherId, same⟩, fun entity pack stage matching => ?_⟩
  rw [← same.isMatch_eq] at matching
  obtain ⟨chosen, chosenEq, stronger⟩ :=
    RuleSet.actionStrength_le_ruleFor otherMember matching
  obtain ⟨-, -, -, action⟩ := same
  exact ⟨chosen, chosenEq, action ▸ stronger⟩

theorem protectsLocked_of_mem {rules : RuleSet}
    (kept : ∀ rule ∈ default.rules, rule.id ∈ locked → rule ∈ rules.rules) :
    ProtectsLocked default locked (some rules) :=
  protectsLocked_of_kept fun rule member isLocked =>
    ⟨rule, kept rule member isLocked, rfl, rfl, rfl, rfl, rfl⟩

theorem protectsLocked_lockedOnly (default : RuleSet) (locked : Finset String) :
    ProtectsLocked default locked (lockedOnly default locked) := by
  simp only [lockedOnly]
  split
  · rename_i empty
    intro rule member isLocked
    have listed : rule ∈ default.rules.filter fun rule => rule.id ∈ locked :=
      List.mem_filter.mpr ⟨member, by simpa using isLocked⟩
    rw [empty] at listed
    exact absurd listed List.not_mem_nil
  · exact protectsLocked_of_mem fun rule member isLocked =>
      List.mem_filter.mpr ⟨member, by simpa using isLocked⟩

theorem mem_withLocked {chosen : RuleSet} {rule : Rule} :
    rule ∈ (withLocked chosen default locked).rules ↔
      rule ∈ chosen.rules ∨
        rule ∈ default.rules ∧ rule.id ∈ locked ∧ rule.id ∉ chosen.rules.map Rule.id := by
  rw [withLocked, List.mem_append, List.mem_filter, List.mem_filter, and_assoc, decide_eq_true_eq,
    decide_eq_true_eq]

theorem protectsLocked_withLocked_iff {template after : RuleSet}
    (ids : (template.rules.map Rule.id).Nodup)
    (applied : applyOverrides (withLocked template default locked) overrides locked =
      .ok after) :
    ProtectsLocked default locked (some after) ↔ AgreesOnLocked default locked template := by
  constructor
  · intro protects rule member isLocked own ownMember ownId
    obtain ⟨rules, resultEq, ⟨kept, keptMember, keptId, same⟩, -⟩ :=
      protects rule member isLocked
    rw [Option.some.injEq] at resultEq
    subst resultEq
    obtain ⟨original, originalMember, changed⟩ := exists_of_mem_applyOverrides applied keptMember
    have originalId : original.id = own.id := by
      rw [← id_of_changeRule changed, keptId, ownId]
    have originalLocked : original.id ∈ locked := by
      rw [originalId, ownId]
      exact isLocked
    rw [changeRule_of_locked originalLocked, Except.ok.injEq, Option.some.injEq] at changed
    rcases mem_withLocked.mp originalMember with inTemplate | ⟨-, -, unused⟩
    · have equal : original = own := List.inj_on_of_nodup_map ids inTemplate ownMember originalId
      rw [← equal, changed]
      exact same
    · exact absurd (originalId ▸ List.mem_map_of_mem ownMember) unused
  · intro agrees
    refine protectsLocked_of_kept fun rule member isLocked => ?_
    by_cases used : rule.id ∈ template.rules.map Rule.id
    · obtain ⟨own, ownMember, ownId⟩ := List.mem_map.mp used
      refine ⟨own, mem_applyOverrides_of_locked applied (mem_withLocked.mpr (Or.inl ownMember))
        (ownId ▸ isLocked), ownId, agrees rule member isLocked own ownMember ownId⟩
    · exact ⟨rule, mem_applyOverrides_of_locked applied
        (mem_withLocked.mpr (Or.inr ⟨member, isLocked, used⟩)) isLocked, rfl, rfl, rfl, rfl, rfl⟩

theorem chooseRules_cases {db : GuardrailDatabase} {tenantId : Nat} {policy : CompanyPolicy}
    (mode : policy.mode = .defaultMode) {binding : Option AgentGuardrailBinding}
    (notOff : bindingOff policy binding = false) {chosen : Option RuleSet}
    (chosenEq : chooseRules db tenantId policy binding (some default) = .ok chosen) :
    (chosen = some default ∧ ∀ own template, binding = some own → own.mode = .template →
        templateRules db tenantId (own.templateRef.getD "") ≠ .ok (some template)) ∨
      ∃ own template, binding = some own ∧ own.mode = .template ∧
        templateRules db tenantId (own.templateRef.getD "") = .ok (some template) ∧
        chosen = some (withLocked template default policy.lockedRules) := by
  cases binding with
  | none =>
      simp only [chooseRules, mode, reduceCtorEq, if_false, Except.ok.injEq] at chosenEq
      exact Or.inl ⟨chosenEq.symm, fun _ _ impossible => by simp at impossible⟩
  | some own =>
      cases ownMode : own.mode with
      | inherit =>
          simp only [chooseRules, mode, ownMode, reduceCtorEq, or_true, if_true, if_false,
            Except.ok.injEq] at chosenEq
          refine Or.inl ⟨chosenEq.symm, fun other _ otherEq templateMode => ?_⟩
          rw [← Option.some.inj otherEq, ownMode] at templateMode
          simp at templateMode
      | off => simp [bindingOff, mode, ownMode] at notOff
      | template =>
          simp only [chooseRules, mode, ownMode, reduceCtorEq, or_self, if_false] at chosenEq
          split at chosenEq
          · simp at chosenEq
          · rename_i unusable
            refine Or.inl ⟨(Except.ok.inj chosenEq).symm, fun other _ otherEq _ => ?_⟩
            rw [← Option.some.inj otherEq, unusable]
            simp
          · rename_i template templateEq
            exact Or.inr ⟨own, template, rfl, ownMode, templateEq,
              (Except.ok.inj chosenEq).symm⟩

/-- A company in default mode has its locked rules kept for an agent exactly
when the agent's usable template, if it has one, gives every locked id that it
uses the locked rule's packs, stages, entities and action. -/
theorem protectsLocked_resolve_iff {db : GuardrailDatabase} {tenantId : Nat}
    {agentId : Option Nat} {policy : CompanyPolicy} {ref : String} {default : RuleSet}
    (policyEq : companyPolicy db tenantId = .ok policy) (mode : policy.mode = .defaultMode)
    (named : policy.defaultTemplate = some ref)
    (usable : templateRules db tenantId ref = .ok (some default)) {result : Option RuleSet}
    (resolved : resolve db tenantId agentId "standard" = .ok result) :
    ProtectsLocked default policy.lockedRules result ↔
      ∀ own template, agentId.bind db.bindings = some own → own.mode = .template →
        templateRules db tenantId (own.templateRef.getD "") = .ok (some template) →
        AgreesOnLocked default policy.lockedRules template := by
  obtain ⟨found, foundEq, outcome⟩ := resolve_cases policyEq (by simp [mode]) resolved
  have defaultEq : found = some default := by
    simpa [defaultRules, named, usable, eq_comm] using foundEq
  subst defaultEq
  rcases outcome with ⟨off, rfl⟩ | ⟨notOff, chosen, chosenEq, outcome⟩
  · refine ⟨fun _ own template ownEq templateMode _ => ?_,
      fun _ => protectsLocked_lockedOnly default policy.lockedRules⟩
    simp [bindingOff, ownEq, templateMode] at off
  · rcases chooseRules_cases mode notOff chosenEq with
      ⟨rfl, noTemplate⟩ | ⟨own, template, ownEq, templateMode, templateEq, rfl⟩
    · rcases outcome with ⟨impossible, -⟩ | ⟨before, after, beforeEq, rfl, applied⟩
      · simp at impossible
      · rw [← Option.some.inj beforeEq] at applied
        exact ⟨fun _ own template ownEq templateMode templateEq =>
            absurd templateEq (noTemplate own template ownEq templateMode),
          fun _ => protectsLocked_of_mem fun rule member isLocked =>
            mem_applyOverrides_of_locked applied member isLocked⟩
    · rcases outcome with ⟨impossible, -⟩ | ⟨before, after, beforeEq, rfl, applied⟩
      · simp at impossible
      · rw [← Option.some.inj beforeEq] at applied
        have ids := (validRules_of_templateRules templateEq).ids
        rw [protectsLocked_withLocked_iff ids applied]
        refine ⟨fun agrees other found otherEq _ foundEq => ?_,
          fun agrees => agrees own template ownEq templateMode templateEq⟩
        rw [ownEq, Option.some.injEq] at otherEq
        rw [← otherEq, templateEq, Except.ok.injEq, Option.some.injEq] at foundEq
        exact foundEq ▸ agrees

def strictCompany (lockedRule : String) : GuardrailDatabase where
  guardrailDefaultTemplate := ""
  tenantSettings _ := some [("guardrails", .obj [("mode", .str "default"),
    ("default_template", .str "builtin:kr-strict"), ("locked_rules", .arr [.str lockedRule])])]
  bindings _ := some ⟨.template, some "builtin:kr-default", []⟩
  templates _ := none
  templateVersions _ _ := none

def strictPolicy (lockedRule : String) : CompanyPolicy :=
  ⟨.defaultMode, some "builtin:kr-strict", {lockedRule}, defaultActions⟩

def strictDefault : RuleSet :=
  { krStrict with template := "builtin:kr-strict" }

def ordinaryRules : RuleSet :=
  { krDefault with template := "builtin:kr-default" }

theorem companyPolicy_strictCompany (lockedRule : String) :
    companyPolicy (strictCompany lockedRule) 0 = .ok (strictPolicy lockedRule) := by
  simp [companyPolicy, strictCompany, policyFromSettings, Json.getField, Json.str?,
    PolicyMode.ofName?, PolicyMode.name, actionsFromJson, templateName, lockedNames, Json.truthy,
    strictPolicy]
  rfl

/-- Both templates have the same rule for secrets. -/
theorem protectsLocked_secrets :
    ProtectsLocked strictDefault {"secrets"} (some ordinaryRules) := by
  refine (protectsLocked_resolve_iff (companyPolicy_strictCompany "secrets") rfl rfl
    (show templateRules (strictCompany "secrets") 0 "builtin:kr-strict" =
      .ok (some strictDefault) from rfl)
    (show resolve (strictCompany "secrets") 0 (some 0) "standard" =
      .ok (some ordinaryRules) from rfl)).mpr ?_
  intro own template ownEq _ templateEq
  have chosen : template = ordinaryRules := by
    rw [← Option.some.inj ownEq] at templateEq
    exact (Option.some.inj (Except.ok.inj templateEq)).symm
  rw [chosen]
  unfold AgreesOnLocked
  decide

/-- The locked rule blocks a jailbreak attempt; the agent's template has a rule
of the same id that only warns, and the run gets that one. -/
theorem not_protectsLocked_jailbreak :
    companyPolicy (strictCompany "jailbreak") 0 = .ok (strictPolicy "jailbreak") ∧
      templateRules (strictCompany "jailbreak") 0 "builtin:kr-strict" =
        .ok (some strictDefault) ∧
      resolve (strictCompany "jailbreak") 0 (some 0) "standard" = .ok (some ordinaryRules) ∧
      ¬ ProtectsLocked strictDefault (strictPolicy "jailbreak").lockedRules
        (some ordinaryRules) := by
  refine ⟨companyPolicy_strictCompany "jailbreak", rfl, rfl, fun protects => ?_⟩
  obtain ⟨rules, rulesEq, ⟨kept, keptMember, keptId, -, -, -, action⟩, -⟩ :=
    protects (jailbreakRule .block) (by decide) (by decide)
  rw [← Option.some.inj rulesEq] at keptMember
  have warns : ∀ rule ∈ ordinaryRules.rules, rule.id = "jailbreak" → rule.action = .warn := by
    decide
  rw [warns kept keptMember keptId] at action
  exact absurd action (by decide)

end NaturalMold.Guardrails

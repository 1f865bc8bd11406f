import NaturalMold.GuardrailRules
import NaturalMold.FallibleSteps
import NaturalMold.JsonValues
import NaturalMold.PythonText

/-!
# Rule sets as data

Company templates and run snapshots store rules as JSON.
-/

namespace NaturalMold.Guardrails

def maxRules : Nat := 40
def maxIdLength : Nat := 64
def maxEntityLength : Nat := 40

def approvalPacks : List String := ["common", "kr"]

def packNames : List String := ["common", "kr", "jailbreak", "kr_model"]

/-- Why a rule list cannot be used.  `unhashable` is the type error Python
raises when a list or object is looked up in a set. -/
inductive RulesError
  | invalid (message : String)
  | unhashable
  deriving DecidableEq

namespace PseudonymStyle

def name : PseudonymStyle → String
  | tag => "tag"
  | natural => "natural"

def ofName? (text : String) : Option PseudonymStyle :=
  if text = "tag" then some tag else if text = "natural" then some natural else none

@[simp]
theorem ofName?_name (style : PseudonymStyle) : ofName? style.name = some style := by
  cases style <;> decide

end PseudonymStyle

/-- The stages of a set in the order of their names. -/
def sortedStages (stages : Finset Stage) : List Stage :=
  Stage.all.filter fun stage => stage ∈ stages

theorem toFinset_sortedStages (stages : Finset Stage) :
    (sortedStages stages).toFinset = stages := by
  ext stage
  have listed : stage ∈ Stage.all := by cases stage <;> decide
  simp [sortedStages, listed]

def entitiesToJson : Option (Finset String) → Json
  | none => .null
  | some entities => .arr ((sortedNames entities).map .str)

def ruleToJson (rule : Rule) : Json :=
  .obj [("id", .str rule.id),
    ("packs", .arr (rule.packs.map .str)),
    ("stages", .arr ((sortedStages rule.stages).map fun stage => .str stage.name)),
    ("action", .str rule.action.name),
    ("entities", entitiesToJson rule.entities),
    ("restore_for_tools", .bool rule.restoreForTools),
    ("pseudonym_style", .str rule.pseudonymStyle.name)]

def rulesToJson (rules : RuleSet) : Json :=
  .obj [("template", .str rules.template),
    ("version", .int rules.version),
    ("rules", .arr (rules.rules.map ruleToJson))]

def readId (index : Nat) (value : Json) : Except RulesError String :=
  match value with
  | .str id =>
      if 0 < id.length ∧ id.length ≤ maxIdLength then .ok id
      else .error (.invalid s!"rule {index}: id must be 1-64 characters")
  | _ => .error (.invalid s!"rule {index}: id must be 1-64 characters")

def readNames {Name : Type} (known : String → Option Name) (message : String) (value : Json) :
    Except RulesError (List Name) :=
  match value with
  | .arr items =>
      if items.isEmpty then .error (.invalid message)
      else if items.any fun item => !item.hashable then .error .unhashable
      else
        match items.mapM fun item => item.str?.bind known with
        | some names => .ok names
        | none => .error (.invalid message)
  | _ => .error (.invalid message)

def knownPack (name : String) : Option String :=
  if name ∈ packNames then some name else none

def readPacks (id : String) (value : Json) : Except RulesError (List String) :=
  readNames knownPack
    s!"rule {id}: packs must be among ['common', 'jailbreak', 'kr', 'kr_model']" value

def readStages (id : String) (value : Json) : Except RulesError (List Stage) :=
  readNames Stage.ofName?
    s!"rule {id}: stages must be among ['input', 'llm_send', 'output', 'tool_args', 'tool_result']"
    value

def readName {Name : Type} (known : String → Option Name) (message : String) (value : Json) :
    Except RulesError Name :=
  if value.hashable then
    match value.str?.bind known with
    | some name => .ok name
    | none => .error (.invalid message)
  else .error .unhashable

def readAction (id : String) (value : Json) : Except RulesError Action :=
  readName Action.ofName?
    (s!"rule {id}: action must be one of ['approval', 'block', 'hash', 'mask', " ++
      "'pseudonymize', 'redact', 'warn']")
    value

def readStyle (id : String) (value : Json) : Except RulesError PseudonymStyle :=
  readName PseudonymStyle.ofName? s!"rule {id}: pseudonym_style must be tag or natural" value

def entityName (value : Json) : Option String :=
  value.str?.bind fun name =>
    if 0 < name.length ∧ name.length ≤ maxEntityLength then some name else none

def readEntities (id : String) (value : Json) : Except RulesError (Option (Finset String)) :=
  match value with
  | .null => .ok none
  | .arr items =>
      match items.mapM entityName with
      | some names => .ok (some names.toFinset)
      | none =>
          .error (.invalid s!"rule {id}: entities must be a list of names or null")
  | _ => .error (.invalid s!"rule {id}: entities must be a list of names or null")

def readRestore (id : String) (value : Json) : Except RulesError Bool :=
  match value with
  | .bool restore => .ok restore
  | _ => .error (.invalid s!"rule {id}: restore_for_tools must be true or false")

/-- The user's message stays as written: an input rule blocks or records only. -/
def InputAllowed (stages : Finset Stage) (action : Action) : Prop :=
  .input ∈ stages → action = .block ∨ action = .warn

instance (stages : Finset Stage) (action : Action) : Decidable (InputAllowed stages action) :=
  inferInstanceAs (Decidable (_ → _))

/-- Approval applies to tool arguments only and uses the rule packs. -/
def ApprovalAllowed (packs : List String) (stages : Finset Stage) (action : Action) : Prop :=
  action = .approval → stages = {.toolArgs} ∧ ∀ pack ∈ packs, pack ∈ approvalPacks

instance (packs : List String) (stages : Finset Stage) (action : Action) :
    Decidable (ApprovalAllowed packs stages action) :=
  inferInstanceAs (Decidable (_ → _))

def ruleFromJson (data : Json) (index : Nat) : Except RulesError Rule :=
  match data with
  | .obj fields => do
      let id ← readId index (Json.getField "id" .null fields)
      let packs ← readPacks id (Json.getField "packs" .null fields)
      let stages ← readStages id (Json.getField "stages" .null fields)
      let action ← readAction id (Json.getField "action" .null fields)
      let entities ← readEntities id (Json.getField "entities" .null fields)
      let style ← readStyle id (Json.getField "pseudonym_style" (.str "tag") fields)
      Fallible.ensure (InputAllowed stages.toFinset action)
        (.invalid s!"rule {id}: the input stage only blocks or warns")
      Fallible.ensure (ApprovalAllowed packs stages.toFinset action)
        (.invalid (s!"rule {id}: approval applies to tool arguments only and uses the rule packs" ++
          " (common, kr)"))
      let restore ← readRestore id (Json.getField "restore_for_tools" (.bool false) fields)
      return {
        id := id
        packs := packs
        stages := stages.toFinset
        action := action
        entities := entities
        restoreForTools := restore
        pseudonymStyle := style }
  | _ => .error (.invalid s!"rule {index}: not an object")

def rulesFromJson (items : Json) : Except RulesError (List Rule) :=
  match items with
  | .arr items => do
      Fallible.ensure (0 < items.length ∧ items.length ≤ maxRules)
        (.invalid "rules must be a list of 1-40 rules")
      let rules ← items.zipIdx.mapM fun entry => ruleFromJson entry.1 entry.2
      Fallible.ensure (rules.map Rule.id).Nodup (.invalid "rule ids must be unique")
      return rules
  | _ => .error (.invalid "rules must be a list of 1-40 rules")

/-- Why a snapshot cannot be read: a field is missing or of another kind than
`rulesToJson` writes, or its rules are refused. -/
inductive SnapshotError
  | malformed
  | rules (error : RulesError)
  deriving DecidableEq

/-- A run's pinned rule set, as `rulesToJson` stored it. -/
def snapshotFromJson (data : Json) : Except SnapshotError RuleSet :=
  match data with
  | .obj fields =>
      match Json.getField "template" .null fields, Json.getField "version" .null fields with
      | .str template, .int version =>
          match rulesFromJson (Json.getField "rules" .null fields) with
          | .ok rules => .ok ⟨template, version, rules⟩
          | .error error => .error (.rules error)
      | _, _ => .error .malformed
  | _ => .error .malformed

inductive TemplateRef
  | builtin (name : String)
  | company (templateId : Nat)
  deriving DecidableEq

def builtinPrefix : String := "builtin:"
def companyPrefix : String := "company:"

/-- The built-in name or company template of a reference; `none` when malformed. -/
def parseRef (ref : String) : Option TemplateRef :=
  match PythonText.afterPrefix? builtinPrefix.toList ref.toList with
  | some (char :: name) => some (.builtin (String.ofList (char :: name)))
  | _ =>
      match PythonText.afterPrefix? companyPrefix.toList ref.toList with
      | some key => (PythonText.parseUuid key).map .company
      | none => none

namespace Rule

/-- What reading a rule checks. -/
structure Valid (rule : Rule) : Prop where
  id : 0 < rule.id.length ∧ rule.id.length ≤ maxIdLength
  packs : rule.packs ≠ [] ∧ ∀ pack ∈ rule.packs, pack ∈ packNames
  stages : rule.stages.Nonempty
  entities : ∀ entities, rule.entities = some entities →
    ∀ entity ∈ entities, 0 < entity.length ∧ entity.length ≤ maxEntityLength
  input : InputAllowed rule.stages rule.action
  approval : ApprovalAllowed rule.packs rule.stages rule.action

instance (rule : Rule) : Decidable rule.Valid :=
  decidable_of_iff
    ((0 < rule.id.length ∧ rule.id.length ≤ maxIdLength) ∧
      (rule.packs ≠ [] ∧ ∀ pack ∈ rule.packs, pack ∈ packNames) ∧
      rule.stages.Nonempty ∧
      (∀ entity ∈ rule.entities.getD ∅, 0 < entity.length ∧ entity.length ≤ maxEntityLength) ∧
      InputAllowed rule.stages rule.action ∧
      ApprovalAllowed rule.packs rule.stages rule.action)
    ⟨fun ⟨id, packs, stages, entities, input, approval⟩ =>
        ⟨id, packs, stages, fun names named => by simpa [named] using entities, input, approval⟩,
      fun valid => ⟨valid.id, valid.packs, valid.stages, by
        cases named : rule.entities with
        | none => simp
        | some names => simpa using valid.entities names named, valid.input, valid.approval⟩⟩

end Rule

section Accepted

variable {Name : Type} {known : String → Option Name} {message : String}

theorem readId_eq_ok {index : Nat} {value : Json} {id : String} :
    readId index value = .ok id ↔
      value = .str id ∧ 0 < id.length ∧ id.length ≤ maxIdLength := by
  cases value with
  | str text =>
      simp only [readId, Json.str.injEq]
      split
      · rename_i fits
        simp only [Except.ok.injEq]
        exact ⟨fun equal => ⟨equal, equal ▸ fits⟩, And.left⟩
      · rename_i unfit
        simp only [reduceCtorEq, false_iff, not_and]
        rintro rfl positive short
        exact unfit ⟨positive, short⟩
  | _ => simp [readId]

theorem readName_str {text : String} {name : Name} (recognized : known text = some name) :
    readName known message (.str text) = .ok name := by
  simp [readName, Json.hashable, Json.str?, recognized]

theorem readNames_map {encode : Name → String} {names : List Name} (nonempty : names ≠ [])
    (recognized : ∀ name ∈ names, known (encode name) = some name) :
    readNames known message (.arr (names.map fun name => .str (encode name))) = .ok names := by
  have read : (names.map fun name => Json.str (encode name)).mapM
      (fun item => item.str?.bind known) = some names :=
    Fallible.optionMapM_map_eq_some recognized
  have filled : (names.map fun name => Json.str (encode name)).isEmpty = false := by
    simpa using nonempty
  have flat : (names.map fun name => Json.str (encode name)).any
      (fun item => !item.hashable) = false := by
    simp [Json.hashable]
  simp only [readNames, filled, flat, read, Bool.false_eq_true, if_false]

theorem of_readNames {value : Json} {names : List Name}
    (read : readNames known message value = .ok names) :
    names ≠ [] ∧ ∀ name ∈ names, ∃ text, known text = some name := by
  cases value with
  | arr items =>
      simp only [readNames] at read
      split at read
      · simp at read
      · rename_i filled
        split at read
        · simp at read
        · split at read
          · rename_i found foundEq
            rw [Except.ok.injEq] at read
            subst read
            rw [Fallible.optionMapM_eq_some_iff] at foundEq
            constructor
            · rintro rfl
              rw [List.forall₂_nil_right_iff] at foundEq
              simp [foundEq] at filled
            · intro name member
              obtain ⟨item, -, itemEq⟩ := Fallible.exists_mem_of_forall₂ foundEq member
              obtain ⟨text, -, textEq⟩ := Option.bind_eq_some_iff.mp itemEq
              exact ⟨text, textEq⟩
          · simp at read
  | _ => simp [readNames] at read

theorem knownPack_eq_some {text name : String} :
    knownPack text = some name ↔ text = name ∧ name ∈ packNames := by
  rw [knownPack]
  split
  · rename_i listed
    simp only [Option.some.injEq]
    exact ⟨fun equal => ⟨equal, equal ▸ listed⟩, And.left⟩
  · rename_i unlisted
    simp only [reduceCtorEq, false_iff, not_and]
    rintro rfl
    exact unlisted

theorem entityName_eq_some {value : Json} {name : String} :
    entityName value = some name ↔
      value = .str name ∧ 0 < name.length ∧ name.length ≤ maxEntityLength := by
  cases value with
  | str text =>
      simp only [entityName, Json.str?, Option.bind_some, Json.str.injEq]
      split
      · rename_i fits
        simp only [Option.some.injEq]
        exact ⟨fun equal => ⟨equal, equal ▸ fits⟩, And.left⟩
      · rename_i unfit
        simp only [reduceCtorEq, false_iff, not_and]
        rintro rfl positive short
        exact unfit ⟨positive, short⟩
  | _ => simp [entityName, Json.str?]

theorem of_readEntities {id : String} {value : Json} {entities : Option (Finset String)}
    (read : readEntities id value = .ok entities) :
    ∀ names, entities = some names →
      ∀ name ∈ names, 0 < name.length ∧ name.length ≤ maxEntityLength := by
  cases value with
  | null =>
      simp only [readEntities, Except.ok.injEq] at read
      simp [← read]
  | arr items =>
      simp only [readEntities] at read
      split at read
      · rename_i found foundEq
        rw [Except.ok.injEq] at read
        rintro names rfl name member
        rw [Option.some.injEq] at read
        rw [← read, List.mem_toFinset] at member
        rw [Fallible.optionMapM_eq_some_iff] at foundEq
        obtain ⟨item, -, itemEq⟩ := Fallible.exists_mem_of_forall₂ foundEq member
        exact (entityName_eq_some.mp itemEq).2
      · simp at read
  | _ => simp [readEntities] at read

theorem readEntities_entitiesToJson {id : String} {entities : Option (Finset String)}
    (short : ∀ names, entities = some names →
      ∀ name ∈ names, 0 < name.length ∧ name.length ≤ maxEntityLength) :
    readEntities id (entitiesToJson entities) = .ok entities := by
  cases entities with
  | none => rfl
  | some names =>
      have read : ((sortedNames names).map Json.str).mapM entityName = some (sortedNames names) :=
        Fallible.optionMapM_map_eq_some fun name member =>
          entityName_eq_some.mpr ⟨rfl, short names rfl name (by simpa using member)⟩
      simp [entitiesToJson, readEntities, read]

end Accepted

theorem valid_of_ruleFromJson {data : Json} {index : Nat} {rule : Rule}
    (read : ruleFromJson data index = .ok rule) : rule.Valid := by
  cases data with
  | obj fields =>
      simp only [ruleFromJson, Fallible.bind_eq_ok, Fallible.ensure_eq_ok, pure, Except.pure,
        Except.ok.injEq] at read
      obtain ⟨id, idEq, packs, packsEq, stages, stagesEq, action, -, entities, entitiesEq, style,
        -, -, input, -, approval, restore, -, rfl⟩ := read
      have packsRead := of_readNames packsEq
      refine ⟨(readId_eq_ok.mp idEq).2, ⟨packsRead.1, fun pack member => ?_⟩, ?_,
        of_readEntities entitiesEq, input, approval⟩
      · obtain ⟨text, textEq⟩ := packsRead.2 pack member
        exact (knownPack_eq_some.mp textEq).2
      · exact (List.toFinset_nonempty_iff _).mpr (of_readNames stagesEq).1
  | _ => simp [ruleFromJson] at read

/-- A valid rule is read back as it was written. -/
theorem ruleFromJson_ruleToJson {rule : Rule} (valid : rule.Valid) (index : Nat) :
    ruleFromJson (ruleToJson rule) index = .ok rule := by
  have id : readId index (.str rule.id) = .ok rule.id := readId_eq_ok.mpr ⟨rfl, valid.id⟩
  have packs : readPacks rule.id (.arr (rule.packs.map .str)) = .ok rule.packs :=
    readNames_map valid.packs.1 fun pack member =>
      knownPack_eq_some.mpr ⟨rfl, valid.packs.2 pack member⟩
  have stages : readStages rule.id
      (.arr ((sortedStages rule.stages).map fun stage => .str stage.name)) =
        .ok (sortedStages rule.stages) := by
    refine readNames_map ?_ fun stage _ => Stage.ofName?_name stage
    rw [← List.toFinset_nonempty_iff, toFinset_sortedStages]
    exact valid.stages
  have action : readAction rule.id (.str rule.action.name) = .ok rule.action :=
    readName_str (Action.ofName?_name rule.action)
  have style : readStyle rule.id (.str rule.pseudonymStyle.name) = .ok rule.pseudonymStyle :=
    readName_str (PseudonymStyle.ofName?_name rule.pseudonymStyle)
  have entities : readEntities rule.id (entitiesToJson rule.entities) = .ok rule.entities :=
    readEntities_entitiesToJson valid.entities
  simp only [ruleFromJson, ruleToJson, Fallible.bind_eq_ok, Fallible.ensure_eq_ok, pure,
    Except.pure, Except.ok.injEq]
  refine ⟨rule.id, id, rule.packs, packs, _, stages, rule.action, action, rule.entities,
    entities, rule.pseudonymStyle, style, (), ?_, (), ?_, rule.restoreForTools, rfl, ?_⟩
  · rw [toFinset_sortedStages]
    exact valid.input
  · rw [toFinset_sortedStages]
    exact valid.approval
  · rw [toFinset_sortedStages]

structure ValidRules (rules : List Rule) : Prop where
  count : 0 < rules.length ∧ rules.length ≤ maxRules
  each : ∀ rule ∈ rules, rule.Valid
  ids : (rules.map Rule.id).Nodup

theorem validRules_of_rulesFromJson {items : Json} {rules : List Rule}
    (read : rulesFromJson items = .ok rules) : ValidRules rules := by
  cases items with
  | arr items =>
      simp only [rulesFromJson, Fallible.bind_eq_ok, Fallible.ensure_eq_ok, pure, Except.pure,
        Except.ok.injEq] at read
      obtain ⟨-, count, found, foundEq, -, ids, rfl⟩ := read
      rw [Fallible.mapM_eq_ok_iff] at foundEq
      have lengths := foundEq.length_eq
      rw [List.length_zipIdx] at lengths
      refine ⟨lengths ▸ count, fun rule member => ?_, ids⟩
      obtain ⟨entry, -, entryEq⟩ := Fallible.exists_mem_of_forall₂ foundEq member
      exact valid_of_ruleFromJson entryEq
  | _ => simp [rulesFromJson] at read

/-- A rule list is read back as written exactly when it is valid. -/
theorem rulesFromJson_map_iff {rules : List Rule} :
    rulesFromJson (.arr (rules.map ruleToJson)) = .ok rules ↔ ValidRules rules := by
  refine ⟨validRules_of_rulesFromJson, fun valid => ?_⟩
  have each : ((rules.map ruleToJson).zipIdx).mapM
      (fun entry => ruleFromJson entry.1 entry.2) = .ok rules :=
    Fallible.mapM_zipIdx_map_eq_ok
      (fun rule member => ruleFromJson_ruleToJson (valid.each rule member)) 0
  simp only [rulesFromJson, Fallible.bind_eq_ok, Fallible.ensure_eq_ok, List.length_map, pure,
    Except.pure, Except.ok.injEq]
  exact ⟨(), valid.count, rules, each, (), valid.ids, rfl⟩

theorem snapshotFromJson_rulesToJson_iff {rules : RuleSet} :
    snapshotFromJson (rulesToJson rules) = .ok rules ↔ ValidRules rules.rules := by
  rw [← rulesFromJson_map_iff]
  have snapshot : snapshotFromJson (rulesToJson rules) =
      match rulesFromJson (.arr (rules.rules.map ruleToJson)) with
      | .ok found => .ok { rules with rules := found }
      | .error error => .error (.rules error) :=
    rfl
  rw [snapshot]
  cases rulesFromJson (.arr (rules.rules.map ruleToJson)) with
  | error error => simp
  | ok found =>
      simp only [Except.ok.injEq]
      exact ⟨congrArg RuleSet.rules, fun equal => by rw [equal]⟩

instance (rules : List Rule) : Decidable (ValidRules rules) :=
  decidable_of_iff
    ((0 < rules.length ∧ rules.length ≤ maxRules) ∧ (∀ rule ∈ rules, rule.Valid) ∧
      (rules.map Rule.id).Nodup)
    ⟨fun ⟨count, each, ids⟩ => ⟨count, each, ids⟩,
      fun valid => ⟨valid.count, valid.each, valid.ids⟩⟩

/-- Every built-in template passes the checks made of company templates. -/
theorem validRules_builtin {name : String} {rules : RuleSet} (found : builtin name = some rules) :
    ValidRules rules.rules := by
  have listed : ∀ entry ∈ builtinTemplates, ValidRules entry.2.rules := by decide
  rw [builtin] at found
  split at found
  · simp at found
  · obtain ⟨entry, entryEq, rfl⟩ := Option.map_eq_some_iff.mp found
    exact listed entry (List.mem_of_find?_eq_some entryEq)

end NaturalMold.Guardrails

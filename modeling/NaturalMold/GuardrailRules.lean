import Mathlib.Data.Finset.Sort
import Mathlib.Data.String.Basic

/-!
# Guardrail rule sets

A rule is detector packs, entities, stages and an action.
-/

namespace NaturalMold.Guardrails

/-- Texts are sequences of code points, as Python indexes and slices them. -/
abbrev Text := List Char

/-- Where a text is checked.  `input` is the user's new message, before the
model; `output` is what the model answers. -/
inductive Stage
  | input
  | llmSend
  | toolArgs
  | toolResult
  | output
  deriving DecidableEq, Repr

namespace Stage

def name : Stage → String
  | input => "input"
  | llmSend => "llm_send"
  | toolArgs => "tool_args"
  | toolResult => "tool_result"
  | output => "output"

def all : List Stage := [input, llmSend, toolArgs, toolResult, output]

def ofName? (text : String) : Option Stage :=
  all.find? fun stage => stage.name = text

@[simp]
theorem ofName?_name (stage : Stage) : ofName? stage.name = some stage := by
  cases stage <;> decide

theorem name_injective : Function.Injective name := by
  intro first second equal
  have parsed := congrArg ofName? equal
  simpa using parsed

end Stage

inductive Action
  | block
  | approval
  | redact
  | hash
  | pseudonymize
  | mask
  | warn
  deriving DecidableEq, Repr

namespace Action

def name : Action → String
  | block => "block"
  | approval => "approval"
  | redact => "redact"
  | hash => "hash"
  | pseudonymize => "pseudonymize"
  | mask => "mask"
  | warn => "warn"

def all : List Action := [block, approval, redact, hash, pseudonymize, mask, warn]

def ofName? (text : String) : Option Action :=
  all.find? fun action => action.name = text

@[simp]
theorem ofName?_name (action : Action) : ofName? action.name = some action := by
  cases action <;> decide

end Action

/-- The strongest action wins when rules overlap on one span. -/
def actionStrength : Action → Nat
  | .warn => 0
  | .mask => 1
  | .pseudonymize => 2
  | .hash => 3
  | .redact => 4
  | .approval => 5
  | .block => 6

/-- How a pseudonym looks: a numbered tag or a made-up Korean name. -/
inductive PseudonymStyle
  | tag
  | natural
  deriving DecidableEq, Repr

/-- A rule naming `kr_model` also accepts what its rules fallback found. -/
def packFamily (name : String) : List String :=
  if name = "kr_model" then ["kr_model", "kr"] else [name]

structure Rule where
  id : String
  packs : List String
  stages : Finset Stage
  action : Action
  /-- `none` means every entity the packs report. -/
  entities : Option (Finset String) := none
  restoreForTools : Bool := false
  pseudonymStyle : PseudonymStyle := .tag
  deriving DecidableEq

namespace Rule

def isMatch (rule : Rule) (entity pack : String) (stage : Stage) : Bool :=
  decide (stage ∈ rule.stages) &&
    (match rule.entities with
      | none => true
      | some entities => decide (entity ∈ entities)) &&
    rule.packs.any fun name => decide (pack ∈ packFamily name)

/-- Two rules check the same things in the same places with the same action. -/
def SameProtection (first second : Rule) : Prop :=
  first.packs = second.packs ∧ first.stages = second.stages ∧
    first.entities = second.entities ∧ first.action = second.action

instance (first second : Rule) : Decidable (SameProtection first second) :=
  inferInstanceAs (Decidable (_ ∧ _ ∧ _ ∧ _))

theorem SameProtection.isMatch_eq {first second : Rule} (same : SameProtection first second)
    (entity pack : String) (stage : Stage) :
    first.isMatch entity pack stage = second.isMatch entity pack stage := by
  obtain ⟨packs, stages, entities, -⟩ := same
  rw [isMatch, isMatch, packs, stages, entities]

end Rule

structure RuleSet where
  template : String
  version : Int
  rules : List Rule
  deriving DecidableEq

/-- `sorted` on a set of names. -/
def sortedNames (names : Finset String) : List String :=
  Finset.sort names

@[simp]
theorem mem_sortedNames {names : Finset String} {name : String} :
    name ∈ sortedNames names ↔ name ∈ names :=
  Finset.mem_sort _

@[simp]
theorem toFinset_sortedNames (names : Finset String) : (sortedNames names).toFinset = names :=
  Finset.sort_toFinset names _

namespace RuleSet

def packsFor (ruleSet : RuleSet) (stage : Stage) : List String :=
  sortedNames
    ((ruleSet.rules.filter fun rule => stage ∈ rule.stages).flatMap Rule.packs).toFinset

def pickStronger (entity pack : String) (stage : Stage) (best : Option Rule) (rule : Rule) :
    Option Rule :=
  if rule.isMatch entity pack stage then
    match best with
    | none => some rule
    | some held =>
        if actionStrength held.action < actionStrength rule.action then some rule else best
  else best

/-- The strongest matching rule; ties go to the earlier one. -/
def ruleFor (ruleSet : RuleSet) (entity pack : String) (stage : Stage) : Option Rule :=
  ruleSet.rules.foldl (pickStronger entity pack stage) none

section RuleFor

variable {entity pack : String} {stage : Stage}

theorem pickStronger_of_isMatch {rule : Rule} (matching : rule.isMatch entity pack stage)
    (best : Option Rule) :
    ∃ held, pickStronger entity pack stage best rule = some held ∧
      actionStrength rule.action ≤ actionStrength held.action := by
  cases best with
  | none => exact ⟨rule, by simp [pickStronger, matching], Nat.le_refl _⟩
  | some held =>
      by_cases stronger : actionStrength held.action < actionStrength rule.action
      · exact ⟨rule, by simp [pickStronger, matching, stronger], Nat.le_refl _⟩
      · exact ⟨held, by simp [pickStronger, matching, stronger], Nat.le_of_not_lt stronger⟩

/-- A round never lets go of what is held except for something stronger. -/
theorem pickStronger_of_some (held rule : Rule) :
    ∃ next, pickStronger entity pack stage (some held) rule = some next ∧
      actionStrength held.action ≤ actionStrength next.action := by
  by_cases matching : rule.isMatch entity pack stage
  · by_cases stronger : actionStrength held.action < actionStrength rule.action
    · exact ⟨rule, by simp [pickStronger, matching, stronger], stronger.le⟩
    · exact ⟨held, by simp [pickStronger, matching, stronger], Nat.le_refl _⟩
  · exact ⟨held, by simp [pickStronger, matching], Nat.le_refl _⟩

theorem foldl_pickStronger_of_some (rules : List Rule) (held : Rule) :
    ∃ last, rules.foldl (pickStronger entity pack stage) (some held) = some last ∧
      actionStrength held.action ≤ actionStrength last.action := by
  induction rules generalizing held with
  | nil => exact ⟨held, rfl, Nat.le_refl _⟩
  | cons rule rules ih =>
      obtain ⟨next, nextEq, stronger⟩ : ∃ next,
          pickStronger entity pack stage (some held) rule = some next ∧
            actionStrength held.action ≤ actionStrength next.action :=
        pickStronger_of_some held rule
      obtain ⟨last, lastEq, strongest⟩ := ih next
      exact ⟨last, by rw [List.foldl_cons, nextEq, lastEq], stronger.trans strongest⟩

theorem foldl_pickStronger_of_mem {rules : List Rule} {rule : Rule} (member : rule ∈ rules)
    (matching : rule.isMatch entity pack stage) (best : Option Rule) :
    ∃ last, rules.foldl (pickStronger entity pack stage) best = some last ∧
      actionStrength rule.action ≤ actionStrength last.action := by
  induction rules generalizing best with
  | nil => simp at member
  | cons first rules ih =>
      rw [List.foldl_cons]
      rcases List.mem_cons.mp member with rfl | later
      · obtain ⟨held, heldEq, atLeast⟩ := pickStronger_of_isMatch matching best
        obtain ⟨last, lastEq, stronger⟩ := foldl_pickStronger_of_some rules held
        exact ⟨last, by rw [heldEq, lastEq], atLeast.trans stronger⟩
      · exact ih later _

theorem actionStrength_le_ruleFor {ruleSet : RuleSet} {rule : Rule}
    (member : rule ∈ ruleSet.rules) (matching : rule.isMatch entity pack stage) :
    ∃ chosen, ruleSet.ruleFor entity pack stage = some chosen ∧
      actionStrength rule.action ≤ actionStrength chosen.action :=
  foldl_pickStronger_of_mem member matching none

end RuleFor

end RuleSet

def sendStages : Finset Stage := {.llmSend}
def sendOutStages : Finset Stage := {.llmSend, .output}
def inStages : Finset Stage := {.llmSend, .toolArgs, .toolResult}
def outStages : Finset Stage := {.output}
def allStages : Finset Stage := inStages ∪ outStages
def inputStages : Finset Stage := {.input}

def idEntities : Finset String :=
  {"RRN", "FRN", "PASSPORT", "DRIVER_LICENSE", "CARD", "ACCOUNT", "MEDICAL_INSURANCE"}

def jailbreakRule (action : Action) : Rule where
  id := "jailbreak"
  packs := ["jailbreak"]
  stages := inputStages
  action := action

def secretsRule : Rule where
  id := "secrets"
  packs := ["common"]
  stages := inStages
  action := .block
  entities := some {"SECRET"}

def secretsOutputRule : Rule where
  id := "secrets-output"
  packs := ["common"]
  stages := outStages
  action := .redact
  entities := some {"SECRET"}

def krIdentifiersRule (id : String) (stages : Finset Stage) (action : Action) : Rule where
  id := id
  packs := ["kr_model"]
  stages := stages
  action := action
  entities := some idEntities

def contactsRule (action : Action) : Rule where
  id := "contacts"
  packs := ["common", "kr_model"]
  stages := sendOutStages
  action := action
  entities := some {"PHONE", "EMAIL"}

def peopleRule (style : PseudonymStyle) : Rule where
  id := "people"
  packs := ["kr_model"]
  stages := sendStages
  action := .pseudonymize
  entities := some {"PERSON", "ADDRESS"}
  restoreForTools := true
  pseudonymStyle := style

def peopleOutputRule : Rule where
  id := "people-output"
  packs := ["kr_model"]
  stages := outStages
  action := .warn
  entities := some {"PERSON", "ADDRESS"}

def krDefault : RuleSet where
  template := "kr-default"
  version := 4
  rules := [jailbreakRule .warn, secretsRule, secretsOutputRule,
    krIdentifiersRule "kr-identifiers" allStages .redact, contactsRule .mask,
    peopleRule .tag, peopleOutputRule]

/-- `kr-default` with natural pseudonyms for people. -/
def krNatural : RuleSet where
  template := "kr-natural"
  version := 2
  rules := [jailbreakRule .warn, secretsRule, secretsOutputRule,
    krIdentifiersRule "kr-identifiers" allStages .redact, contactsRule .mask,
    peopleRule .natural, peopleOutputRule]

def krStrict : RuleSet where
  template := "kr-strict"
  version := 1
  rules := [jailbreakRule .block, secretsRule, secretsOutputRule,
    krIdentifiersRule "kr-identifiers" inStages .block,
    krIdentifiersRule "kr-identifiers-output" outStages .redact, contactsRule .redact,
    peopleRule .tag, peopleOutputRule]

def commonBasic : RuleSet where
  template := "common-basic"
  version := 1
  rules := [jailbreakRule .warn, secretsRule, secretsOutputRule,
    { id := "cards", packs := ["common"], stages := allStages, action := .redact,
      entities := some {"CARD"} },
    { id := "contacts", packs := ["common"], stages := sendOutStages, action := .mask,
      entities := some {"EMAIL", "IP"} }]

/-- Observation mode: every finding recorded, nothing changed. -/
def krObserve : RuleSet where
  template := "kr-observe"
  version := 3
  rules := [
    { id := "observe", packs := ["common", "kr_model"], stages := allStages, action := .warn },
    jailbreakRule .warn]

def builtinTemplates : List (String × RuleSet) :=
  [("kr-default", krDefault), ("kr-natural", krNatural), ("kr-strict", krStrict),
    ("common-basic", commonBasic), ("kr-observe", krObserve)]

/-- The built-in template of a name; the empty name has none. -/
def builtin (name : String) : Option RuleSet :=
  if name = "" then none
  else (builtinTemplates.find? fun entry => entry.1 = name).map Prod.snd

end NaturalMold.Guardrails

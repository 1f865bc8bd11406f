import Mathlib.Data.List.Sort
import NaturalMold.CronExpressions
import NaturalMold.GroupedMerges
import NaturalMold.JsonValues

/-! # The model catalog -/

namespace NaturalMold.ModelCatalog

open CronExpressions (Text)
open GroupedMerges (mergeInto)

abbrev Aliases := OrderedDict Text Text

/-- `aliases.get(name, name)`. -/
def aliasOf (aliases : Aliases) (name : Text) : Text :=
  (aliases.get? name).getD name

def applyAliases (modelName : Text) (aliases : Aliases) : Text :=
  if modelName = [] then modelName else aliasOf aliases modelName

def knownProviderSlugs : List Text :=
  ["openai", "azure", "azure_openai", "anthropic", "google", "google_genai", "google_ai_studio",
    "vertex_ai", "openrouter", "bedrock", "fireworks_ai", "together_ai", "cohere", "mistral",
    "groq", "deepseek", "perplexity", "xai", "ollama"].map String.toList

def deploymentTierTokens : List Text :=
  ["turbo", "preview", "latest", "ga", "stable", "experimental", "fast"].map String.toList

def partition (mark : Char) (text : Text) : Text × Text :=
  (text.takeWhile (· ≠ mark), (text.dropWhile (· ≠ mark)).tail)

/-- The loop of `strip_nested_provider_prefixes`, for names up to a length. -/
def stripPrefixes : ℕ → Text → Text
  | 0, name => name
  | fuel + 1, name =>
      if name.contains '/' then
        let (head, rest) := partition '/' name
        if !knownProviderSlugs.contains head then name
        else if rest = [] then name
        else stripPrefixes fuel rest
      else name

def stripNestedProviderPrefixes (modelName : Text) : Text :=
  stripPrefixes modelName.length modelName

def stripDeploymentTierSuffix (modelName : Text) : Text :=
  if modelName.contains ':' then
    let (reversed, before) := partition ':' modelName.reverse
    if before ≠ [] && deploymentTierTokens.contains (reversed.reverse.map Char.toLower) then
      before.reverse
    else modelName
  else modelName

def canonicalizeModelId (modelId : Text) (aliases : Aliases) : Text :=
  if modelId = [] then modelId
  else aliasOf aliases (stripDeploymentTierSuffix (stripNestedProviderPrefixes modelId))

/-- `aliases.setdefault(name, canonical)`. -/
def setDefault (aliases : Aliases) (name canonical : Text) : Aliases :=
  if (aliases.get? name).isSome then aliases else aliases.set name canonical

/-- The models of an ai-model-list: a node that is an object has aliases, some of which are
texts. -/
abbrev AiModelList := List (Text × Option (List (Option Text)))

/-- What an alias of the list is indexed under. -/
def aliasTail (name : Text) : Text :=
  if name.contains '/' then (partition '/' name).2 else name

def deriveAliasesFromAiModelList (models : AiModelList) : Aliases :=
  models.foldl
    (fun derived model =>
      match model.2 with
      | none => derived
      | some names =>
          names.foldl
            (fun derived name =>
              match name with
              | none => derived
              | some name => setDefault derived (aliasTail name) model.1)
            (setDefault derived model.1 model.1))
    OrderedDict.empty

structure Exclusions where
  exactModelIds : List Text
  prefixes : List Text

def isExcluded (modelName : Text) (excluded : Exclusions) : Bool :=
  excluded.exactModelIds.contains modelName ||
    excluded.prefixes.any fun start => start.isPrefixOf modelName

variable {Decimal : Type*}

structure ModelEntry (Decimal : Type*) where
  provider : Option Text
  modelName : Option Text
  displayName : Option Text
  contextWindow : Option ℤ
  maxOutputTokens : Option ℤ
  costPerInputToken : Option Decimal
  costPerOutputToken : Option Decimal
  supportsVision : Option Bool
  supportsFunctionCalling : Option Bool
  supportsReasoning : Option Bool
  inputModalities : Option (List Text)
  outputModalities : Option (List Text)
  rankings : Option (OrderedDict Text ℚ)
  sources : List Text

/-- `base or overlay` of two optional lists. -/
def orElse {Item : Type*} (base overlay : Option (List Item)) : Option (List Item) :=
  if (base.getD []).isEmpty then overlay else base

def pick {Value : Type*} (base overlay : Option Value) : Option Value :=
  base.or overlay

/-- `{**(overlay or {}), **(base or {})}`, when one of them has an entry. -/
def mergeRankings (base overlay : Option (OrderedDict Text ℚ)) : Option (OrderedDict Text ℚ) :=
  let first := (overlay.map (·.entries)).getD []
  let second := (base.map (·.entries)).getD []
  if first.isEmpty && second.isEmpty then none else some (OrderedDict.ofEntries (first ++ second))

def mergeTwoEntries (base overlay : ModelEntry Decimal) : ModelEntry Decimal where
  provider := orElse base.provider overlay.provider
  modelName := orElse base.modelName overlay.modelName
  displayName := orElse base.displayName overlay.displayName
  contextWindow := pick base.contextWindow overlay.contextWindow
  maxOutputTokens := pick base.maxOutputTokens overlay.maxOutputTokens
  costPerInputToken := pick base.costPerInputToken overlay.costPerInputToken
  costPerOutputToken := pick base.costPerOutputToken overlay.costPerOutputToken
  supportsVision := pick base.supportsVision overlay.supportsVision
  supportsFunctionCalling := pick base.supportsFunctionCalling overlay.supportsFunctionCalling
  supportsReasoning := pick base.supportsReasoning overlay.supportsReasoning
  inputModalities := orElse base.inputModalities overlay.inputModalities
  outputModalities := orElse base.outputModalities overlay.outputModalities
  rankings := mergeRankings base.rankings overlay.rankings
  sources := (base.sources ++ overlay.sources).reverse.dedup.reverse

abbrev Row := List (String × Json)

mutual

/-- `_strip_nulls`: without nulls, empty objects and empty lists. -/
def stripNulls : Json → Option Json
  | .null => none
  | .arr items =>
      match stripItems items with
      | [] => none
      | cleaned => some (.arr cleaned)
  | .obj fields =>
      match stripFields fields with
      | [] => none
      | cleaned => some (.obj cleaned)
  | value => some value

def stripItems : List Json → List Json
  | [] => []
  | item :: items =>
      match stripNulls item with
      | none => stripItems items
      | some cleaned => cleaned :: stripItems items

def stripFields : List (String × Json) → List (String × Json)
  | [] => []
  | field :: fields =>
      match stripNulls field.2 with
      | none => stripFields fields
      | some cleaned => (field.1, cleaned) :: stripFields fields

end

def textJson (text : Text) : Json :=
  .str (String.ofList text)

def optionJson {Value : Type*} (encode : Value → Json) : Option Value → Json
  | none => .null
  | some value => encode value

def textsJson (texts : List Text) : Json :=
  .arr (texts.map textJson)

def rankingsJson (rankings : OrderedDict Text ℚ) : Json :=
  .obj (rankings.entries.map fun entry => (String.ofList entry.1, .float entry.2))

/-- `_entry_to_model_dict`; a decimal is written as a text. -/
def entryToModelDict (render : Decimal → Text) (entry : ModelEntry Decimal) : Row :=
  let cost := optionJson fun value : Decimal => textJson (render value)
  stripFields [("display_name", optionJson textJson entry.displayName),
    ("context_window", optionJson .int entry.contextWindow),
    ("max_output_tokens", optionJson .int entry.maxOutputTokens),
    ("cost_per_input_token", cost entry.costPerInputToken),
    ("cost_per_output_token", cost entry.costPerOutputToken),
    ("supports_vision", optionJson .bool entry.supportsVision),
    ("supports_function_calling", optionJson .bool entry.supportsFunctionCalling),
    ("supports_reasoning", optionJson .bool entry.supportsReasoning),
    ("input_modalities", optionJson textsJson entry.inputModalities),
    ("output_modalities", optionJson textsJson entry.outputModalities),
    ("rankings", optionJson rankingsJson entry.rankings),
    ("sources", textsJson entry.sources)]

def entryToProviderModelDict (render : Decimal → Text) (entry : ModelEntry Decimal)
    (modelRef : Text) : Row :=
  let cost := optionJson fun value : Decimal => textJson (render value)
  stripFields [("model_ref", textJson modelRef),
    ("provider_model_id", optionJson textJson entry.modelName),
    ("enabled", .bool true),
    ("context_window", optionJson .int entry.contextWindow),
    ("max_output_tokens", optionJson .int entry.maxOutputTokens),
    ("cost_per_input_token", cost entry.costPerInputToken),
    ("cost_per_output_token", cost entry.costPerOutputToken),
    ("rankings", optionJson rankingsJson entry.rankings),
    ("sources", textsJson entry.sources)]

/-- What the normalizers made of the snapshots, the models of the ai-model-list, the curated
aliases and exclusions, and the static providers; there are no curated overrides. -/
structure CatalogInput (Decimal : Type*) where
  bySource : Text → OrderedDict (Option Text × Option Text) (ModelEntry Decimal)
  aiModelList : AiModelList
  curatedAliases : Aliases
  excluded : Exclusions
  providersMeta : OrderedDict Text Json

structure Catalog where
  providers : OrderedDict Text Json
  models : OrderedDict Text Row
  providerModels : OrderedDict Text Row
  aliases : Aliases

def sourcePriority : List Text :=
  ["ai_model_list", "openrouter", "litellm", "llm_prices", "pydantic_genai"].map String.toList

/-- Texts in the order of their code points. -/
def textLe : Text → Text → Bool
  | [], _ => true
  | _ :: _, [] => false
  | char :: text, other :: others =>
      char.toNat < other.toNat || (char = other && textLe text others)

def pairLe (pair other : Text × Text) : Bool :=
  if pair.1 = other.1 then textLe pair.2 other.2 else textLe pair.1 other.1

namespace CatalogInput

/-- The curated aliases with those that the ai-model-list adds. -/
def aliases (input : CatalogInput Decimal) : Aliases :=
  (deriveAliasesFromAiModelList input.aiModelList).entries.foldl
    (fun aliases derived => setDefault aliases derived.1 derived.2) input.curatedAliases

/-- The rows of a source that are merged, under provider and canonical name. -/
def keyedRows (input : CatalogInput Decimal) (source : Text) :
    List ((Text × Text) × ModelEntry Decimal) :=
  (input.bySource source).entries.filterMap fun row =>
    match row.1 with
    | (some provider, some rawModelName) =>
        if provider = [] || rawModelName = [] then none
        else
          let canonical := applyAliases rawModelName input.aliases
          if isExcluded canonical input.excluded then none
          else some ((provider, canonical), { row.2 with modelName := some canonical })
    | _ => none

/-- All these rows, by priority and then in the order of their source. -/
def rows (input : CatalogInput Decimal) : List ((Text × Text) × ModelEntry Decimal) :=
  sourcePriority.flatMap input.keyedRows

def byProviderModel (input : CatalogInput Decimal) :
    OrderedDict (Text × Text) (ModelEntry Decimal) :=
  input.rows.foldl (mergeInto id mergeTwoEntries) OrderedDict.empty

/-- `sorted(by_provider_model.items())`. -/
def sortedRows (input : CatalogInput Decimal) : List ((Text × Text) × ModelEntry Decimal) :=
  input.byProviderModel.entries.insertionSort fun row other => pairLe row.1 other.1

def modelDefaults (canonical : Text) (entry : ModelEntry Decimal) : ModelEntry Decimal :=
  { entry with
    provider := none
    modelName := some canonical
    rankings := entry.rankings.filter fun rankings => !rankings.entries.isEmpty }

def modelsLayer (input : CatalogInput Decimal) : OrderedDict Text (ModelEntry Decimal) :=
  (input.sortedRows.map fun row => (row.1.2, row)).foldl
    (mergeInto (fun row => modelDefaults row.1.2 row.2) fun entry row =>
      mergeTwoEntries entry row.2)
    OrderedDict.empty

def rowKey (provider name : Text) : Text :=
  provider ++ '/' :: name

def providerModelRows (render : Decimal → Text) (input : CatalogInput Decimal) :
    List (Text × Row) :=
  input.sortedRows.filterMap fun row =>
    match entryToProviderModelDict render row.2 row.1.2 with
    | [] => none
    | fields => some (rowKey row.1.1 row.1.2, fields)

def buildCatalog (render : Decimal → Text) (input : CatalogInput Decimal) : Catalog where
  providers := OrderedDict.ofEntries (input.providersMeta.entries.filterMap fun provider =>
    match provider.2 with
    | .obj fields => (stripNulls (.obj fields)).map fun cleaned => (provider.1, cleaned)
    | _ => none)
  models := OrderedDict.ofEntries ((input.modelsLayer.entries.insertionSort fun model other =>
      textLe model.1 other.1).filterMap fun model =>
    match entryToModelDict render model.2 with
    | [] => none
    | row => some (model.1, row))
  providerModels := OrderedDict.ofEntries (input.providerModelRows render)
  aliases := input.aliases

end CatalogInput

abbrev Base := OrderedDict String Json

def setFields (base : Base) (fields : Row) : Base :=
  fields.foldl
    (fun base field =>
      match field.2 with
      | .null => base
      | value => base.set field.1 value)
    base

/-- The fields of a provider's row that are not laid over the defaults. -/
def keptBack (name : String) : Bool :=
  ["model_ref", "provider_model_id", "enabled"].contains name

def layOver (base : Base) (row : Row) : Base :=
  let base := setFields base (row.filter fun field => !keptBack field.1)
  let id := Json.getField "provider_model_id" .null row
  if id.truthy then base.set "provider_model_id" id else base

namespace Catalog

def defaultsOf (catalog : Catalog) (names : List Text) : Row :=
  (names.findSome? catalog.models.get?).getD []

def overlayKeys (provider modelName canonical : Text) : List Text :=
  CatalogInput.rowKey provider modelName ::
    if canonical ≠ modelName then [CatalogInput.rowKey provider canonical] else []

def resolveModel (catalog : Catalog) (provider : Option Text) (modelName : Text) : Base :=
  if modelName = [] then OrderedDict.empty
  else
    let canonical := canonicalizeModelId modelName catalog.aliases
    let named := provider.filter fun provider => provider ≠ []
    let base : Base :=
      match named.bind catalog.providers.get? with
      | some (.obj fields) => OrderedDict.empty.set "provider" (.obj fields)
      | _ => OrderedDict.empty
    let base := setFields base (catalog.defaultsOf [canonical, modelName])
    match named.bind fun provider =>
        (overlayKeys provider modelName canonical).findSome? catalog.providerModels.get? with
    | some row => layOver base row
    | none => base

end Catalog

def filled {Item : Type*} (list : Option (List Item)) : Option (List Item) :=
  list.filter fun items => !items.isEmpty

/-- Each field is the first that one of the rows has; a ranking is the first under its name,
and the sources are those of all rows. -/
structure MergedFrom (rows : List (ModelEntry Decimal)) (entry : ModelEntry Decimal) : Prop where
  displayName : filled entry.displayName = rows.findSome? fun row => filled row.displayName
  contextWindow : entry.contextWindow = rows.findSome? (·.contextWindow)
  maxOutputTokens : entry.maxOutputTokens = rows.findSome? (·.maxOutputTokens)
  costPerInputToken : entry.costPerInputToken = rows.findSome? (·.costPerInputToken)
  costPerOutputToken : entry.costPerOutputToken = rows.findSome? (·.costPerOutputToken)
  supportsVision : entry.supportsVision = rows.findSome? (·.supportsVision)
  supportsFunctionCalling :
    entry.supportsFunctionCalling = rows.findSome? (·.supportsFunctionCalling)
  supportsReasoning : entry.supportsReasoning = rows.findSome? (·.supportsReasoning)
  inputModalities :
    filled entry.inputModalities = rows.findSome? fun row => filled row.inputModalities
  outputModalities :
    filled entry.outputModalities = rows.findSome? fun row => filled row.outputModalities
  rankings : ∀ name, (entry.rankings.bind fun rankings => rankings.get? name) =
    rows.findSome? fun row => row.rankings.bind fun rankings => rankings.get? name
  sources : ∀ source, source ∈ entry.sources ↔ ∃ row ∈ rows, source ∈ row.sources

namespace CatalogInput

/-- The merged key of a raw row. -/
def canonicalOf (input : CatalogInput Decimal) (rawName : Text) : Text :=
  applyAliases rawName input.aliases

def OwnKey (input : CatalogInput Decimal) (pair : Text × Text) : Prop :=
  ∀ other ∈ input.byProviderModel.keys, other ≠ pair →
    rowKey other.1 other.2 ≠ rowKey pair.1 pair.2

/-- The lookup reads a name as the merge does: the canonical name is the raw one or what the
lookup makes of it, and no other merged row stands under either name. -/
structure ReadsAsMerged (input : CatalogInput Decimal) (provider rawName : Text) : Prop where
  canonical : input.canonicalOf rawName = rawName ∨
    canonicalizeModelId rawName input.aliases = input.canonicalOf rawName
  own : input.OwnKey (provider, input.canonicalOf rawName)
  free : ∀ other ∈ input.byProviderModel.keys, other ≠ (provider, input.canonicalOf rawName) →
    rowKey other.1 other.2 ≠ rowKey provider rawName

/-- The catalog has the merged row of each key and no excluded name, and a lookup of a row
that it reads as the merge does gives the fields of the merged row. -/
structure Answers (render : Decimal → Text) (input : CatalogInput Decimal) : Prop where
  merged : ∀ key entry, input.byProviderModel.get? key = some entry →
    MergedFrom (GroupedMerges.itemsOf key input.rows) entry
  listed : ∀ provider canonical entry,
    input.byProviderModel.get? (provider, canonical) = some entry →
      input.OwnKey (provider, canonical) →
        (input.buildCatalog render).providerModels.get? (rowKey provider canonical) =
          some (entryToProviderModelDict render entry canonical)
  excluded : ∀ canonical, isExcluded canonical input.excluded = true →
    canonical ∉ (input.buildCatalog render).models.keys ∧
      ∀ provider, (provider, canonical) ∉ input.byProviderModel.keys
  resolved : ∀ source ∈ sourcePriority, ∀ provider rawName row,
    ((some provider, some rawName), row) ∈ (input.bySource source).entries →
      provider ≠ [] → rawName ≠ [] →
      isExcluded (input.canonicalOf rawName) input.excluded = false →
      input.ReadsAsMerged provider rawName →
        ∃ entry, input.byProviderModel.get? (provider, input.canonicalOf rawName) = some entry ∧
          (∀ field ∈ entryToProviderModelDict render entry (input.canonicalOf rawName),
            keptBack field.1 = false →
              ((input.buildCatalog render).resolveModel (some provider) rawName).get? field.1 =
                some field.2) ∧
          (input.canonicalOf rawName ≠ [] →
            ((input.buildCatalog render).resolveModel (some provider) rawName).get?
              "provider_model_id" = some (textJson (input.canonicalOf rawName)))

end CatalogInput

end NaturalMold.ModelCatalog

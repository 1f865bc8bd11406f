import NaturalMold.ModelCatalog

/-! # The catalog answers for the models it merged -/

namespace NaturalMold.ModelCatalog

open CronExpressions (Text)
open GroupedMerges (itemsOf mergeAll)

variable {Decimal : Type*} {input : CatalogInput Decimal} (render : Decimal → Text)

theorem filled_orElse {Item : Type*} (base overlay : Option (List Item)) :
    filled (orElse base overlay) = (filled base).or (filled overlay) := by
  rcases base with _ | _ | ⟨item, items⟩ <;> rfl

theorem get?_mergeRankings (base overlay : Option (OrderedDict Text ℚ)) (name : Text) :
    ((mergeRankings base overlay).bind fun rankings => rankings.get? name) =
      (base.bind fun rankings => rankings.get? name).or
        (overlay.bind fun rankings => rankings.get? name) := by
  have entries : ∀ rankings : Option (OrderedDict Text ℚ),
      (OrderedDict.ofEntries ((rankings.map (·.entries)).getD [])).get? name =
        rankings.bind fun rankings => rankings.get? name := by
    rintro (_ | rankings)
    · rfl
    · exact rankings.get?_ofEntries_entries name
  rw [← entries base, ← entries overlay, mergeRankings]
  split
  · rename_i empty
    rw [Bool.and_eq_true, List.isEmpty_iff, List.isEmpty_iff] at empty
    rw [empty.1, empty.2]
    rfl
  · rw [Option.bind_some, OrderedDict.get?_ofEntries_append]

theorem get?_byProviderModel (input : CatalogInput Decimal) (key : Text × Text) :
    input.byProviderModel.get? key = mergeAll id mergeTwoEntries (itemsOf key input.rows) :=
  GroupedMerges.get?_foldl_mergeInto input.rows key

variable {entry : ModelEntry Decimal}

theorem picked {Field : Type*} {rows : List (ModelEntry Decimal)}
    (merged : mergeAll id mergeTwoEntries rows = some entry)
    (field : ModelEntry Decimal → Option Field) (picks : ∀ base overlay : ModelEntry Decimal,
      field (mergeTwoEntries base overlay) = (field base).or (field overlay)) :
    field entry = rows.findSome? field :=
  GroupedMerges.field_eq_findSome? field field (fun _ => rfl) picks merged

theorem mergedFrom {rows : List (ModelEntry Decimal)}
    (merged : mergeAll id mergeTwoEntries rows = some entry) : MergedFrom rows entry where
  displayName := picked merged (fun row => filled row.displayName) fun _ _ => filled_orElse _ _
  contextWindow := picked merged (·.contextWindow) fun _ _ => rfl
  maxOutputTokens := picked merged (·.maxOutputTokens) fun _ _ => rfl
  costPerInputToken := picked merged (·.costPerInputToken) fun _ _ => rfl
  costPerOutputToken := picked merged (·.costPerOutputToken) fun _ _ => rfl
  supportsVision := picked merged (·.supportsVision) fun _ _ => rfl
  supportsFunctionCalling := picked merged (·.supportsFunctionCalling) fun _ _ => rfl
  supportsReasoning := picked merged (·.supportsReasoning) fun _ _ => rfl
  inputModalities :=
    picked merged (fun row => filled row.inputModalities) fun _ _ => filled_orElse _ _
  outputModalities :=
    picked merged (fun row => filled row.outputModalities) fun _ _ => filled_orElse _ _
  rankings := fun name =>
    picked merged (fun row => row.rankings.bind fun rankings => rankings.get? name)
      fun base overlay => get?_mergeRankings base.rankings overlay.rankings name
  sources := by
    refine GroupedMerges.mem_iff_exists_mem (fun entry source => source ∈ entry.sources)
      (fun row source => source ∈ row.sources) (fun _ _ => Iff.rfl) ?_ merged
    intro base overlay source
    change source ∈ (base.sources ++ overlay.sources).reverse.dedup.reverse ↔ _
    rw [List.mem_reverse, List.mem_dedup, List.mem_reverse, List.mem_append]

theorem of_mem_rows {key : Text × Text} {row : ModelEntry Decimal}
    (member : (key, row) ∈ input.rows) :
    isExcluded key.2 input.excluded = false ∧ row.modelName = some key.2 := by
  obtain ⟨source, -, listed⟩ := List.mem_flatMap.mp member
  obtain ⟨⟨⟨provider, rawName⟩, entry⟩, -, kept⟩ := List.mem_filterMap.mp listed
  rcases provider with _ | provider
  · cases kept
  · rcases rawName with _ | rawName
    · cases kept
    · dsimp only at kept
      split at kept
      · cases kept
      · split at kept
        · cases kept
        · rename_i included
          cases kept
          exact ⟨Bool.not_eq_true _ ▸ included, rfl⟩

theorem mem_keys_byProviderModel {key : Text × Text} :
    key ∈ input.byProviderModel.keys ↔ ∃ row, (key, row) ∈ input.rows :=
  GroupedMerges.mem_keys_foldl_mergeInto

theorem mem_sortedRows {key : Text × Text} :
    (key, entry) ∈ input.sortedRows ↔ input.byProviderModel.get? key = some entry := by
  rw [CatalogInput.sortedRows, List.mem_insertionSort, OrderedDict.get?_eq_some_iff]

theorem ne_null_of_mem_stripFields {fields : Row} {field : String × Json}
    (member : field ∈ stripFields fields) : field.2 ≠ .null := by
  induction fields with
  | nil => cases member
  | cons first fields ih =>
      rw [stripFields] at member
      split at member
      · exact ih member
      · rename_i cleaned stripped
        rcases List.mem_cons.mp member with rfl | later
        · rintro rfl
          cases value : first.2 with
          | null | bool | int | float | str => rw [value] at stripped; cases stripped
          | arr items =>
              rw [value, stripNulls] at stripped
              split at stripped <;> cases stripped
          | obj fields =>
              rw [value, stripNulls] at stripped
              split at stripped <;> cases stripped
        · exact ih later

theorem map_fst_stripFields_sublist (fields : Row) :
    ((stripFields fields).map Prod.fst).Sublist (fields.map Prod.fst) := by
  induction fields with
  | nil => exact List.Sublist.refl _
  | cons first fields ih =>
      rw [stripFields]
      split
      · exact ih.cons _
      · exact ih.cons_cons _

/-- The fields of a row have different names. -/
theorem nodup_entryToProviderModelDict (entry : ModelEntry Decimal) (modelRef : Text) :
    ((entryToProviderModelDict render entry modelRef).map Prod.fst).Nodup :=
  List.Nodup.sublist (map_fst_stripFields_sublist _) (by simp)

theorem entryToProviderModelDict_eq_cons (entry : ModelEntry Decimal) (modelRef : Text) :
    ∃ rest, entryToProviderModelDict render entry modelRef =
      ("model_ref", textJson modelRef) :: rest :=
  ⟨_, rfl⟩

theorem getField_providerModelId {modelRef : Text} (named : entry.modelName = some modelRef) :
    Json.getField "provider_model_id" .null (entryToProviderModelDict render entry modelRef) =
      textJson modelRef := by
  have row : ∃ rest, entryToProviderModelDict render entry modelRef =
      ("model_ref", textJson modelRef) :: ("provider_model_id", textJson modelRef) :: rest := by
    rw [entryToProviderModelDict, named]
    exact ⟨_, rfl⟩
  obtain ⟨rest, same⟩ := row
  rw [same]
  simp [Json.getField]

theorem truthy_textJson {text : Text} (nonempty : text ≠ []) : (textJson text).truthy = true := by
  rw [textJson, Json.truthy, decide_eq_true_eq]
  intro empty
  apply nonempty
  have lists := congrArg String.toList empty
  rwa [String.toList_ofList] at lists

theorem get?_setFields_of_notMem {name : String} {fields : Row} (base : Base)
    (absent : name ∉ fields.map Prod.fst) :
    (setFields base fields).get? name = base.get? name := by
  induction fields generalizing base with
  | nil => rfl
  | cons field fields ih =>
      rw [List.map_cons, List.mem_cons, not_or] at absent
      rw [setFields, List.foldl_cons]
      refine (ih _ absent.2).trans ?_
      split
      · rfl
      · exact OrderedDict.get?_set_of_ne _ _ absent.1

theorem get?_setFields_of_mem {fields : Row} (base : Base) (nodup : (fields.map Prod.fst).Nodup)
    {field : String × Json} (member : field ∈ fields) (value : field.2 ≠ .null) :
    (setFields base fields).get? field.1 = some field.2 := by
  induction fields generalizing base with
  | nil => cases member
  | cons first fields ih =>
      rw [List.map_cons, List.nodup_cons] at nodup
      rcases List.mem_cons.mp member with rfl | later
      · rw [setFields, List.foldl_cons]
        refine (get?_setFields_of_notMem _ nodup.1).trans ?_
        split
        · rename_i null
          exact absurd null value
        · exact OrderedDict.get?_set_self _ _ _
      · exact ih _ nodup.2 later

theorem get?_layOver {row : Row} (base : Base) (nodup : (row.map Prod.fst).Nodup)
    {field : String × Json} (member : field ∈ row) (value : field.2 ≠ .null)
    (laid : keptBack field.1 = false) : (layOver base row).get? field.1 = some field.2 := by
  have kept : field ∈ row.filter fun field => !keptBack field.1 :=
    List.mem_filter.mpr ⟨member, by rw [laid]; rfl⟩
  have set := get?_setFields_of_mem base (nodup.sublist (List.filter_sublist.map _)) kept value
  have different : field.1 ≠ "provider_model_id" := by
    intro same
    rw [same] at laid
    exact absurd laid (by decide)
  rw [layOver]
  split
  · rw [OrderedDict.get?_set_of_ne _ _ different]
    exact set
  · exact set

theorem get?_layOver_providerModelId {row : Row} (base : Base)
    (truthy : (Json.getField "provider_model_id" .null row).truthy = true) :
    (layOver base row).get? "provider_model_id" =
      some (Json.getField "provider_model_id" .null row) := by
  rw [layOver, if_pos truthy]
  exact OrderedDict.get?_set_self _ _ _

theorem exists_of_get?_providerModels {key : Text} {row : Row}
    (found : (input.buildCatalog render).providerModels.get? key = some row) :
    ∃ pair entry, input.byProviderModel.get? pair = some entry ∧
      key = CatalogInput.rowKey pair.1 pair.2 ∧
      row = entryToProviderModelDict render entry pair.2 := by
  obtain ⟨⟨pair, entry⟩, listed, written⟩ :=
    List.mem_filterMap.mp (OrderedDict.mem_of_get?_ofEntries found)
  refine ⟨pair, entry, mem_sortedRows.mp listed, ?_⟩
  obtain ⟨rest, same⟩ := entryToProviderModelDict_eq_cons render entry pair.2
  dsimp only at written
  rw [same] at written
  cases written
  exact ⟨rfl, same.symm⟩

variable {provider : Text}

theorem get?_providerModels {canonical : Text}
    (merged : input.byProviderModel.get? (provider, canonical) = some entry)
    (own : input.OwnKey (provider, canonical)) :
    (input.buildCatalog render).providerModels.get? (CatalogInput.rowKey provider canonical) =
      some (entryToProviderModelDict render entry canonical) := by
  have listed : CatalogInput.rowKey provider canonical ∈
      (input.providerModelRows render).map Prod.fst := by
    obtain ⟨rest, same⟩ := entryToProviderModelDict_eq_cons render entry canonical
    refine List.mem_map.mpr ⟨(CatalogInput.rowKey provider canonical,
      entryToProviderModelDict render entry canonical), ?_, rfl⟩
    refine List.mem_filterMap.mpr ⟨((provider, canonical), entry), mem_sortedRows.mpr merged, ?_⟩
    dsimp only
    rw [same]
  obtain ⟨row, found⟩ := OrderedDict.exists_get?_ofEntries listed
  obtain ⟨pair, other, otherMerged, key, rfl⟩ :=
    exists_of_get?_providerModels render found
  have same : pair = (provider, canonical) := by
    by_contra different
    exact own pair (OrderedDict.mem_keys_of_get? otherMerged) different key.symm
  subst same
  rw [merged, Option.some.injEq] at otherMerged
  subst otherMerged
  exact found

theorem get?_providerModels_eq_none {key : Text}
    (free : ∀ pair ∈ input.byProviderModel.keys, CatalogInput.rowKey pair.1 pair.2 ≠ key) :
    (input.buildCatalog render).providerModels.get? key = none := by
  cases found : (input.buildCatalog render).providerModels.get? key with
  | none => rfl
  | some row =>
      obtain ⟨pair, entry, merged, same, -⟩ := exists_of_get?_providerModels render found
      exact absurd same.symm (free pair (OrderedDict.mem_keys_of_get? merged))

theorem notMem_keys_byProviderModel {canonical : Text}
    (excluded : isExcluded canonical input.excluded = true) :
    (provider, canonical) ∉ input.byProviderModel.keys := by
  intro member
  obtain ⟨row, listed⟩ := mem_keys_byProviderModel.mp member
  have included : isExcluded canonical input.excluded = false := (of_mem_rows listed).1
  rw [excluded] at included
  cases included

theorem notMem_keys_models {canonical : Text}
    (excluded : isExcluded canonical input.excluded = true) :
    canonical ∉ (input.buildCatalog render).models.keys := by
  intro member
  obtain ⟨row, found⟩ := OrderedDict.exists_get?_of_mem_keys member
  obtain ⟨⟨name, entry⟩, listed, written⟩ :=
    List.mem_filterMap.mp (OrderedDict.mem_of_get?_ofEntries found)
  have same : name = canonical := by
    dsimp only at written
    split at written
    · cases written
    · cases written
      rfl
  rw [List.mem_insertionSort] at listed
  have merged : name ∈ input.modelsLayer.keys := List.mem_map.mpr ⟨_, listed, rfl⟩
  obtain ⟨item, fromRow⟩ := GroupedMerges.mem_keys_foldl_mergeInto.mp merged
  obtain ⟨⟨pair, stored⟩, sorted, pairName⟩ := List.mem_map.mp fromRow
  have ofPair : pair.2 = name := congrArg Prod.fst pairName
  have known := OrderedDict.mem_keys_of_get? (mem_sortedRows.mp sorted)
  refine notMem_keys_byProviderModel ?_ (show (pair.1, pair.2) ∈ _ from known)
  rw [ofPair, same]
  exact excluded

theorem mem_rows_of_mem_source {source rawName : Text} {row : ModelEntry Decimal}
    (known : source ∈ sourcePriority)
    (member : ((some provider, some rawName), row) ∈ (input.bySource source).entries)
    (hasProvider : provider ≠ []) (hasName : rawName ≠ [])
    (included : isExcluded (input.canonicalOf rawName) input.excluded = false) :
    ∃ stored, ((provider, input.canonicalOf rawName), stored) ∈ input.rows := by
  refine ⟨{ row with modelName := some (input.canonicalOf rawName) }, ?_⟩
  refine List.mem_flatMap.mpr ⟨source, known, List.mem_filterMap.mpr ⟨_, member, ?_⟩⟩
  dsimp only
  rw [if_neg (by simp [hasProvider, hasName]), if_neg]
  · rfl
  · rw [Bool.not_eq_true]
    exact included

theorem modelName_eq {canonical : Text}
    (merged : input.byProviderModel.get? (provider, canonical) = some entry)
    (nonempty : canonical ≠ []) : entry.modelName = some canonical := by
  rw [get?_byProviderModel] at merged
  have first := picked merged (fun row => filled row.modelName) fun _ _ => filled_orElse _ _
  have all : ∀ row ∈ itemsOf (provider, canonical) input.rows,
      filled row.modelName = some canonical := by
    intro row member
    rw [(of_mem_rows (GroupedMerges.mem_itemsOf.mp member)).2, filled, Option.filter_some, if_pos]
    simpa using nonempty
  cases rows : itemsOf (provider, canonical) input.rows with
  | nil =>
      rw [rows] at merged
      cases merged
  | cons row rest =>
      rw [rows, List.findSome?_cons, all row (rows ▸ List.mem_cons_self)] at first
      exact (Option.filter_eq_some_iff.mp first).1

theorem resolveModel_eq_layOver {catalog : Catalog} {rawName : Text} {row : Row}
    (hasProvider : provider ≠ []) (hasName : rawName ≠ [])
    (found : (Catalog.overlayKeys provider rawName
      (canonicalizeModelId rawName catalog.aliases)).findSome? catalog.providerModels.get? =
        some row) : ∃ base, catalog.resolveModel (some provider) rawName = layOver base row := by
  rw [Catalog.resolveModel, if_neg hasName]
  have named : ((some provider).filter fun provider => decide (provider ≠ [])) = some provider := by
    rw [Option.filter_some, if_pos (by simpa using hasProvider)]
  simp only [named, Option.bind_some, found]
  exact ⟨_, rfl⟩

theorem findSome?_overlayKeys {rawName : Text} (reads : input.ReadsAsMerged provider rawName)
    (merged : input.byProviderModel.get? (provider, input.canonicalOf rawName) = some entry) :
    (Catalog.overlayKeys provider rawName (canonicalizeModelId rawName input.aliases)).findSome?
        (input.buildCatalog render).providerModels.get? =
      some (entryToProviderModelDict render entry (input.canonicalOf rawName)) := by
  have stands := get?_providerModels render merged reads.own
  rw [Catalog.overlayKeys, List.findSome?_cons]
  by_cases same : input.canonicalOf rawName = rawName
  · rw [same] at stands ⊢
    rw [stands]
  · have canonical := reads.canonical.resolve_left same
    have none : (input.buildCatalog render).providerModels.get?
        (CatalogInput.rowKey provider rawName) = none := by
      apply get?_providerModels_eq_none render
      intro pair member equal
      by_cases own : pair = (provider, input.canonicalOf rawName)
      · rw [own] at equal
        have names := List.append_cancel_left equal
        exact same (List.cons.inj names).2
      · exact reads.free pair member own equal
    rw [none, canonical, if_pos same, List.findSome?_cons, stands]

/-- The catalog answers for the models it merged. -/
theorem buildCatalog_answers (render : Decimal → Text) (input : CatalogInput Decimal) :
    input.Answers render where
  merged := by
    intro key entry merged
    rw [get?_byProviderModel] at merged
    exact mergedFrom merged
  listed := fun _ _ _ merged own => get?_providerModels render merged own
  excluded := fun _ excluded =>
    ⟨notMem_keys_models render excluded, fun _ => notMem_keys_byProviderModel excluded⟩
  resolved := by
    intro source known provider rawName row member hasProvider hasName included reads
    obtain ⟨stored, listed⟩ :=
      mem_rows_of_mem_source known member hasProvider hasName included
    obtain ⟨entry, merged⟩ :=
      OrderedDict.exists_get?_of_mem_keys (mem_keys_byProviderModel.mpr ⟨stored, listed⟩)
    obtain ⟨base, resolved⟩ := resolveModel_eq_layOver hasProvider hasName
      (findSome?_overlayKeys render reads merged)
    refine ⟨entry, merged, fun field fieldMember laid => ?_, fun nonempty => ?_⟩
    · rw [resolved]
      exact get?_layOver base (nodup_entryToProviderModelDict render entry _) fieldMember
        (ne_null_of_mem_stripFields fieldMember) laid
    · have id := getField_providerModelId render (modelName_eq merged nonempty)
      rw [resolved, get?_layOver_providerModelId base (by rw [id]; exact truthy_textJson nonempty),
        id]

def sharedName : Text := "m".toList

def visionRow (provider source : String) (vision : Option Bool) : ModelEntry ℕ :=
  ⟨some provider.toList, some sharedName, none, none, none, none, none, vision, none, none, none,
    none, none, [source.toList]⟩

/-- Two sources list the model for one provider, and one of them for another. -/
def sharedModel : CatalogInput ℕ where
  bySource := fun source =>
    if source = "openrouter".toList then
      OrderedDict.ofEntries
        [((some "a".toList, some sharedName), visionRow "a" "openrouter" (some true)),
          ((some "b".toList, some sharedName), visionRow "b" "openrouter" (some false))]
    else if source = "litellm".toList then
      OrderedDict.ofEntries
        [((some "a".toList, some sharedName), visionRow "a" "litellm" none)]
    else OrderedDict.empty
  aiModelList := []
  curatedAliases := OrderedDict.empty
  excluded := ⟨[], []⟩
  providersMeta := OrderedDict.empty

/-- The sources of a merged row are not those of its first row, and a field that only the
defaults of the model have is answered from another provider's row. -/
theorem sharedModel_not_first_row :
    ((sharedModel.byProviderModel.get? ("a".toList, sharedName)).map (·.sources) ≠
        (GroupedMerges.itemsOf ("a".toList, sharedName) sharedModel.rows).head?.map (·.sources)) ∧
      ((sharedModel.byProviderModel.get? ("b".toList, sharedName)).bind (·.supportsVision) ≠
        (((sharedModel.buildCatalog (Nat.toDigits 10)).resolveModel (some "b".toList)
          sharedName).get? "supports_vision").map Json.truthy) := by
  decide

end NaturalMold.ModelCatalog

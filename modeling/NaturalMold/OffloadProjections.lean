import NaturalMold.OffloadReferences
import NaturalMold.OrderedDictionaries

/-!
# Projected protocol data

The projection of a nested value goes down its mappings, lists and tuples.
-/

namespace NaturalMold.OffloadProjections

open OffloadReferences

/-- The values that are neither strings nor collections. -/
inductive Scalar
  | none
  | bool (value : Bool)
  | number (value : ℤ)
  deriving DecidableEq

inductive Key
  | scalar (value : Scalar)
  | str (value : Text)
  | tuple (items : List Key)

namespace Key

mutual

def decEq : (first second : Key) → Decidable (first = second)
  | .scalar first, .scalar second =>
      decidable_of_iff (first = second) ⟨congrArg _, Key.scalar.inj⟩
  | .str first, .str second => decidable_of_iff (first = second) ⟨congrArg _, Key.str.inj⟩
  | .tuple first, .tuple second =>
      match decEqItems first second with
      | isTrue same => isTrue (congrArg _ same)
      | isFalse differs => isFalse fun equal => differs (Key.tuple.inj equal)
  | .scalar _, .str _ => isFalse nofun
  | .scalar _, .tuple _ => isFalse nofun
  | .str _, .scalar _ => isFalse nofun
  | .str _, .tuple _ => isFalse nofun
  | .tuple _, .scalar _ => isFalse nofun
  | .tuple _, .str _ => isFalse nofun

def decEqItems : (first second : List Key) → Decidable (first = second)
  | [], [] => isTrue rfl
  | [], _ :: _ => isFalse nofun
  | _ :: _, [] => isFalse nofun
  | key :: first, other :: second =>
      match decEq key other, decEqItems first second with
      | isTrue same, isTrue rest => isTrue (by rw [same, rest])
      | isFalse differs, _ => isFalse fun equal => differs (List.cons.inj equal).1
      | _, isFalse differs => isFalse fun equal => differs (List.cons.inj equal).2

end

instance : DecidableEq Key :=
  decEq

end Key

inductive ProtocolData
  | scalar (value : Scalar)
  | str (value : Text)
  | list (items : List ProtocolData)
  | tuple (items : List ProtocolData)
  | mapping (entries : List (Key × ProtocolData))

abbrev Entries :=
  List (Key × ProtocolData)

@[elab_as_elim]
theorem Key.induct {motive : Key → Prop} (scalar : ∀ value, motive (.scalar value))
    (str : ∀ value, motive (.str value))
    (tuple : ∀ items, (∀ item ∈ items, motive item) → motive (.tuple items)) (key : Key) :
    motive key :=
  @Key.rec motive (fun items => ∀ item ∈ items, motive item) scalar str tuple
    (fun _ member => absurd member List.not_mem_nil)
    (fun _ _ first rest => List.forall_mem_cons.mpr ⟨first, rest⟩) key

@[elab_as_elim]
theorem ProtocolData.induct {motive : ProtocolData → Prop}
    (scalar : ∀ value, motive (.scalar value)) (str : ∀ value, motive (.str value))
    (list : ∀ items, (∀ item ∈ items, motive item) → motive (.list items))
    (tuple : ∀ items, (∀ item ∈ items, motive item) → motive (.tuple items))
    (mapping : ∀ entries : Entries, (∀ entry ∈ entries, motive entry.2) →
      motive (.mapping entries)) (data : ProtocolData) : motive data :=
  @ProtocolData.rec motive (fun items => ∀ item ∈ items, motive item)
    (fun entries => ∀ entry ∈ entries, motive entry.2) (fun entry => motive entry.2)
    scalar str list tuple mapping
    (fun _ member => absurd member List.not_mem_nil)
    (fun _ _ first rest => List.forall_mem_cons.mpr ⟨first, rest⟩)
    (fun _ member => absurd member List.not_mem_nil)
    (fun _ _ first rest => List.forall_mem_cons.mpr ⟨first, rest⟩) (fun _ _ item => item) data

/-- `data.get(name)`. -/
def valueOf (entries : Entries) (name : Text) : Option ProtocolData :=
  (OrderedDict.ofEntries entries).get? (.str name)

def textOf : Option ProtocolData → Option Text
  | some (.str value) => some value
  | _ => none

/-- `value is None`. -/
def isNone : Option ProtocolData → Bool
  | none | some (.scalar .none) => true
  | _ => false

def ProtocolData.isMapping : ProtocolData → Bool
  | .mapping _ => true
  | _ => false

def offloadPathName : Text := "offload_path".toList

def filePathName : Text := "file_path".toList

def summarizationEventName : Text := "_summarization_event".toList

def payloadName : Text := "payload".toList

/-- `f"{kind}_id"`. -/
def idName (kind : OffloadKind) : Text :=
  kind.value ++ "_id".toList

/-- `_RESERVED_OFFLOAD_KEYS`. -/
def isReserved (key : Key) : Bool :=
  key = .str (idName .history) || key = .str (idName .spill)

/-- `_INTERNAL_REDACTION_KEY`. -/
def redactionKey : Key :=
  .str internalReferenceRedacted

/-- `_existing_logical_id`, with the kind of the key. -/
def existingLogicalId (entries : Entries) (pathKey : Text) : Option (OffloadKind × Text) :=
  match [OffloadKind.history, .spill].filter fun kind => (valueOf entries (idName kind)).isSome with
  | [kind] =>
      (textOf (valueOf entries (idName kind))).bind fun value =>
        if isLogicalId kind value ∧ ¬(pathKey = filePathName ∧ kind ≠ .history) then
          some (kind, value)
        else none
  | _ => none

inductive Position
  /-- `_project_value`. -/
  | value
  /-- `_project_tool_content` and `_project_tool_content_block`. -/
  | content (toolCallId : Option Text)
  /-- `_project_structural_mapping` of a summarization event. -/
  | summary
  /-- `_project_compaction_payload`. -/
  | payload

def Position.toolCallId : Position → Option Text
  | .content toolCallId => toolCallId
  | _ => none

inductive MappingKind
  /-- `_project_structural_mapping` with the key `offload_path`. -/
  | offload
  /-- `_project_structural_mapping` with the key `file_path`. -/
  | summary
  /-- `_project_compaction_event`. -/
  | compaction
  /-- `_project_compaction_payload`. -/
  | payload
  /-- The last part of `_project_mapping`, with the mapping's own tool call. -/
  | plain (toolCallId : Option Text)
  /-- `_project_tool_content_block`. -/
  | block (toolCallId : Option Text)

section Projection

variable (token : OffloadKind → Text → Token) (roots : List Text)

def isInternalOffloadPath (entries : Entries) : Bool :=
  (textOf (valueOf entries offloadPathName)).any fun path =>
    (projectStructuralReference token roots path).isSome || containsInternalOffloadMarker path

def isCompactionEvent (entries : Entries) : Bool :=
  textOf (valueOf entries "name".toList) = some "moldy.compaction".toList &&
    (valueOf entries payloadName).any ProtocolData.isMapping

def contentToolCallId (entries : Entries) : Option Text :=
  (textOf (valueOf entries "tool_call_id".toList)).filter fun value => value ≠ []

def kindAt (entries : Entries) : Position → MappingKind
  | .value =>
      if isInternalOffloadPath token roots entries then .offload
      else if isCompactionEvent entries then .compaction
      else .plain (contentToolCallId entries)
  | .content toolCallId => .block toolCallId
  | .summary => .summary
  | .payload => .payload

def drops : MappingKind → Key → Bool
  | .offload, key => key = .str offloadPathName || isReserved key
  | .summary, key => key = .str filePathName || isReserved key
  | .compaction, key => isReserved key
  | .payload, key => isReserved key
  | .plain _, _ => false
  | .block _, _ => false

def childPosition : MappingKind → Key → ProtocolData → Position
  | .offload, key, item | .summary, key, item =>
      if key = .str summarizationEventName ∧ item.isMapping then .summary else .value
  | .compaction, key, _ => if key = .str payloadName then .payload else .value
  | .payload, _, _ => .value
  | .plain toolCallId, key, item =>
      if key = .str summarizationEventName ∧ item.isMapping then .summary
      else if key = .str "content".toList ∨ key = .str "content_blocks".toList then
        .content toolCallId
      else .value
  | .block toolCallId, key, _ =>
      if key = .str "text".toList ∨ key = .str "content".toList then .content toolCallId
      else .value

def referenceOf (entries : Entries) (pathKey : Text) : Option (OffloadKind × Text) :=
  (((textOf (valueOf entries pathKey)).filter fun path => path ≠ []).bind
    (projectStructuralReference token roots)).filter fun reference =>
      !(pathKey = filePathName && reference.1 ≠ .history)

/-- The entry of an id, as `projected[f"{kind}_id"] = logical_id`. -/
def idEntry (id : OffloadKind × Text) : Key × ProtocolData :=
  (.str (idName id.1), .str id.2)

/-- The last entry of `_project_structural_mapping`. -/
def structuralEntry (entries : Entries) (pathKey : Text) : Key × ProtocolData :=
  let existing :=
    if pathKey = filePathName ∧ isNone (valueOf entries pathKey) then
      existingLogicalId entries pathKey
    else none
  match (referenceOf token roots entries pathKey).or existing with
  | some id => idEntry id
  | none => (redactionKey, .scalar (.bool true))

def addition (entries : Entries) : MappingKind → Option (Key × ProtocolData)
  | .offload => some (structuralEntry token roots entries offloadPathName)
  | .summary => some (structuralEntry token roots entries filePathName)
  | .payload =>
      if textOf (valueOf entries "state".toList) = some "done".toList ∧
          valueOf entries filePathName = none ∧ valueOf entries offloadPathName = none then
        (existingLogicalId entries filePathName).map idEntry
      else none
  | _ => none

mutual

def projectKey : Key → Key
  | .scalar value => .scalar value
  | .str value => .str (projectOffloadString token roots none value)
  | .tuple items => .tuple (projectKeys items)

def projectKeys : List Key → List Key
  | [] => []
  | key :: keys => projectKey key :: projectKeys keys

end

mutual

def project : Position → ProtocolData → ProtocolData
  | _, .scalar value => .scalar value
  | position, .str value => .str (projectOffloadString token roots position.toolCallId value)
  | position, .list items => .list (projectItems position items)
  | position, .tuple items => .tuple (projectItems position items)
  | position, .mapping entries =>
      .mapping (OrderedDict.ofEntries
        (projectEntries (kindAt token roots entries position) entries ++
          (addition token roots entries (kindAt token roots entries position)).toList)).entries

def projectItems : Position → List ProtocolData → List ProtocolData
  | _, [] => []
  | position, item :: items => project position item :: projectItems position items

def projectEntries : MappingKind → List (Key × ProtocolData) → List (Key × ProtocolData)
  | _, [] => []
  | kind, (key, item) :: entries =>
      if drops kind key then projectEntries kind entries
      else
        (projectKey token roots key, project (childPosition kind key item) item) ::
          projectEntries kind entries

end

def projectOffloadEgressData (data : ProtocolData) : ProtocolData :=
  project token roots .value data

end Projection

variable {token : OffloadKind → Text → Token} {roots : List Text} {kind : MappingKind}
  {position : Position} {entries : Entries} {key : Key} {item : ProtocolData}

theorem projectKeys_eq_map (keys : List Key) :
    projectKeys token roots keys = keys.map (projectKey token roots) := by
  induction keys with
  | nil => rfl
  | cons key keys ih => rw [projectKeys, ih, List.map_cons]

theorem projectItems_eq_map (position : Position) (items : List ProtocolData) :
    projectItems token roots position items = items.map (project token roots position) := by
  induction items with
  | nil => rfl
  | cons item items ih => rw [projectItems, ih, List.map_cons]

theorem mem_projectEntries {entry : Key × ProtocolData} :
    entry ∈ projectEntries token roots kind entries ↔
      ∃ key item, (key, item) ∈ entries ∧ drops kind key = false ∧
        entry = (projectKey token roots key, project token roots (childPosition kind key item) item)
    := by
  induction entries with
  | nil => simp [projectEntries]
  | cons first entries ih =>
      obtain ⟨key, item⟩ := first
      rw [projectEntries]
      split
      · next dropped =>
          rw [ih]
          constructor
          · rintro ⟨key', item', member, kept, rfl⟩
            exact ⟨key', item', List.mem_cons_of_mem _ member, kept, rfl⟩
          · rintro ⟨key', item', member, kept, rfl⟩
            rcases List.mem_cons.mp member with same | member
            · rw [(Prod.mk.inj same).1, dropped] at kept
              exact absurd kept (by decide)
            · exact ⟨key', item', member, kept, rfl⟩
      · next kept =>
          rw [List.mem_cons, ih]
          constructor
          · rintro (rfl | ⟨key', item', member, kept', rfl⟩)
            · exact ⟨key, item, List.mem_cons_self, by simpa using kept, rfl⟩
            · exact ⟨key', item', List.mem_cons_of_mem _ member, kept', rfl⟩
          · rintro ⟨key', item', member, kept', rfl⟩
            rcases List.mem_cons.mp member with same | member
            · obtain ⟨rfl, rfl⟩ := Prod.mk.inj same
              exact Or.inl rfl
            · exact Or.inr ⟨key', item', member, kept', rfl⟩

def projectMapping (token : OffloadKind → Text → Token) (roots : List Text) (position : Position)
    (entries : Entries) : OrderedDict Key ProtocolData :=
  OrderedDict.ofEntries
    (projectEntries token roots (kindAt token roots entries position) entries ++
      (addition token roots entries (kindAt token roots entries position)).toList)

theorem project_mapping (position : Position) (entries : Entries) :
    project token roots position (.mapping entries) =
      .mapping (projectMapping token roots position entries).entries := by
  rw [project, projectMapping]

theorem mem_projectMapping {entry : Key × ProtocolData}
    (member : entry ∈ (projectMapping token roots position entries).entries) :
    (∃ key item, (key, item) ∈ entries ∧
      drops (kindAt token roots entries position) key = false ∧
        entry = (projectKey token roots key, project token roots
          (childPosition (kindAt token roots entries position) key item) item)) ∨
      addition token roots entries (kindAt token roots entries position) = some entry := by
  have listed := OrderedDict.mem_of_get?_ofEntries (OrderedDict.get?_eq_some_iff.mpr member)
  rw [List.mem_append, Option.mem_toList, mem_projectEntries] at listed
  exact listed

inductive Key.Holds (text : Text) : Key → Prop
  | str : Key.Holds text (.str text)
  | tuple {items : List Key} {item : Key} (member : item ∈ items) (below : item.Holds text) :
      Key.Holds text (.tuple items)

inductive ProtocolData.Holds (text : Text) : ProtocolData → Prop
  | str : ProtocolData.Holds text (.str text)
  | list {items : List ProtocolData} {item : ProtocolData} (member : item ∈ items)
      (below : item.Holds text) : ProtocolData.Holds text (.list items)
  | tuple {items : List ProtocolData} {item : ProtocolData} (member : item ∈ items)
      (below : item.Holds text) : ProtocolData.Holds text (.tuple items)
  | key {entries : Entries} {entry : Key × ProtocolData} (member : entry ∈ entries)
      (below : entry.1.Holds text) : ProtocolData.Holds text (.mapping entries)
  | item {entries : Entries} {entry : Key × ProtocolData} (member : entry ∈ entries)
      (below : entry.2.Holds text) : ProtocolData.Holds text (.mapping entries)

theorem clean_projectKey {text : Text} (holds : (projectKey token roots key).Holds text) :
    containsInternalOffloadMarker text = false := by
  induction key using Key.induct with
  | scalar value => cases holds
  | str value =>
      cases holds
      exact clean_projectOffloadString
  | tuple items ih =>
      rw [projectKey, projectKeys_eq_map] at holds
      cases holds with
      | tuple member below =>
          obtain ⟨item, listed, rfl⟩ := List.mem_map.mp member
          exact ih item listed below

theorem projectKey_of_clean
    (clean : ∀ text, key.Holds text → containsInternalOffloadMarker text = false) :
    projectKey token roots key = key := by
  induction key using Key.induct with
  | scalar value => rfl
  | str value => rw [projectKey, projectOffloadString_of_clean (clean value .str)]
  | tuple items ih =>
      have same : items.map (projectKey token roots) = items := by
        refine (List.map_congr_left fun item member => ?_).trans (List.map_id items)
        exact ih item member fun text below => clean text (.tuple member below)
      rw [projectKey, projectKeys_eq_map, same]

theorem isLogicalId_projectStructuralReference {path : Text} {id : OffloadKind × Text}
    (found : projectStructuralReference token roots path = some id) :
    isLogicalId id.1 id.2 = true := by
  rw [projectStructuralReference] at found
  split at found
  · obtain rfl := Option.some.inj found
    exact isLogicalId_logicalOffloadId _ _
  · split at found
    · obtain rfl := Option.some.inj found
      exact isLogicalId_logicalOffloadId _ _
    · obtain ⟨pattern, _, rfl⟩ := Option.map_eq_some_iff.mp found
      exact isLogicalId_logicalOffloadId _ _

theorem referenceOf_eq_some {pathKey : Text} {id : OffloadKind × Text}
    (found : referenceOf token roots entries pathKey = some id) :
    ∃ path, textOf (valueOf entries pathKey) = some path ∧
      projectStructuralReference token roots path = some id ∧
        (pathKey = filePathName → id.1 = .history) := by
  obtain ⟨bound, kept⟩ := Option.filter_eq_some_iff.mp found
  obtain ⟨path, pathEq, reference⟩ := Option.bind_eq_some_iff.mp bound
  refine ⟨path, (Option.filter_eq_some_iff.mp pathEq).1, reference, fun same => ?_⟩
  simpa [same] using kept

theorem existingLogicalId_eq_some {pathKey : Text} {id : OffloadKind × Text}
    (found : existingLogicalId entries pathKey = some id) :
    textOf (valueOf entries (idName id.1)) = some id.2 ∧ isLogicalId id.1 id.2 = true ∧
      (pathKey = filePathName → id.1 = .history) ∧
        ∀ kind, kind ≠ id.1 → valueOf entries (idName kind) = none := by
  rw [existingLogicalId] at found
  split at found
  · next kind only =>
      obtain ⟨value, valueEq, found⟩ := Option.bind_eq_some_iff.mp found
      split at found
      · next shape =>
          obtain rfl := Option.some.inj found
          refine ⟨valueEq, shape.1, fun same => by_contra fun other => shape.2 ⟨same, other⟩,
            fun kind' other => ?_⟩
          by_contra present
          have listed : kind' ∈ [OffloadKind.history, .spill].filter
              fun kind => (valueOf entries (idName kind)).isSome := by
            apply List.mem_filter.mpr
            refine ⟨by cases kind' <;> simp, ?_⟩
            rwa [Option.isSome_iff_ne_none]
          rw [only, List.mem_singleton] at listed
          exact other listed
      · exact absurd found nofun
  · exact absurd found nofun

theorem addition_eq_some {entry : Key × ProtocolData}
    (added : addition token roots entries kind = some entry) :
    (∃ id, isLogicalId id.1 id.2 = true ∧ entry = idEntry id) ∨
      entry = (redactionKey, .scalar (.bool true)) := by
  have structural : ∀ pathKey, structuralEntry token roots entries pathKey = entry →
      (∃ id, isLogicalId id.1 id.2 = true ∧ entry = idEntry id) ∨
        entry = (redactionKey, .scalar (.bool true)) := by
    rintro pathKey rfl
    rw [structuralEntry]
    split
    · next id found =>
        left
        refine ⟨id, ?_, rfl⟩
        rcases Option.or_eq_some_iff.mp found with reference | ⟨_, existing⟩
        · obtain ⟨path, _, reference, _⟩ := referenceOf_eq_some reference
          exact isLogicalId_projectStructuralReference reference
        · split at existing
          · exact (existingLogicalId_eq_some existing).2.1
          · exact absurd existing nofun
    · exact Or.inr rfl
  cases kind with
  | offload => exact structural _ (Option.some.inj added)
  | summary => exact structural _ (Option.some.inj added)
  | payload =>
      rw [addition] at added
      split at added
      · obtain ⟨id, existing, rfl⟩ := Option.map_eq_some_iff.mp added
        exact Or.inl ⟨id, (existingLogicalId_eq_some existing).2.1, rfl⟩
      · exact absurd added nofun
  | compaction => exact absurd added nofun
  | plain _ => exact absurd added nofun
  | block _ => exact absurd added nofun

theorem clean_idName (kind : OffloadKind) :
    containsInternalOffloadMarker (idName kind) = false := by
  cases kind <;> decide

theorem clean_project {data : ProtocolData} {text : Text}
    (holds : (project token roots position data).Holds text) :
    containsInternalOffloadMarker text = false := by
  induction data using ProtocolData.induct generalizing position with
  | scalar value => cases holds
  | str value =>
      cases holds
      exact clean_projectOffloadString
  | list items ih =>
      rw [project, projectItems_eq_map] at holds
      cases holds with
      | list member below =>
          obtain ⟨item, listed, rfl⟩ := List.mem_map.mp member
          exact ih item listed below
  | tuple items ih =>
      rw [project, projectItems_eq_map] at holds
      cases holds with
      | tuple member below =>
          obtain ⟨item, listed, rfl⟩ := List.mem_map.mp member
          exact ih item listed below
  | mapping entries ih =>
      rw [project_mapping] at holds
      cases holds with
      | key member below =>
          rcases mem_projectMapping member with ⟨key, item, _, _, rfl⟩ | added
          · exact clean_projectKey below
          · rcases addition_eq_some added with ⟨id, _, rfl⟩ | rfl
            · cases below
              exact clean_idName id.1
            · cases below
              exact clean_internalReferenceRedacted
      | item member below =>
          rcases mem_projectMapping member with ⟨key, item, listed, _, rfl⟩ | added
          · exact ih (key, item) listed below
          · rcases addition_eq_some added with ⟨id, shape, rfl⟩ | rfl
            · cases below
              exact clean_of_isLogicalId shape
            · cases below

end NaturalMold.OffloadProjections

import NaturalMold.OffloadProjections

/-! # Replayed projections -/

namespace NaturalMold.OffloadReplays

open OffloadReferences OffloadProjections

variable {token : OffloadKind → Text → Token} {roots : List Text} {kind : MappingKind}
  {position first second : Position} {entries : Entries} {key : Key} {item data : ProtocolData}

def addedAt (token : OffloadKind → Text → Token) (roots : List Text) (entries : Entries)
    (kind : MappingKind) (key : Key) : Option ProtocolData :=
  ((addition token roots entries kind).filter fun entry => entry.1 = key).map Prod.snd

variable {value : ProtocolData}

theorem addedAt_eq_some :
    addedAt token roots entries kind key = some value ↔
      addition token roots entries kind = some (key, value) := by
  rw [addedAt, Option.map_eq_some_iff]
  constructor
  · rintro ⟨⟨key', value'⟩, added, rfl⟩
    obtain ⟨added, same⟩ := Option.filter_eq_some_iff.mp added
    rw [← of_decide_eq_true same]
    exact added
  · intro added
    exact ⟨_, Option.filter_eq_some_iff.mpr ⟨added, decide_eq_true rfl⟩, rfl⟩

theorem get?_addition (key : Key) :
    (OrderedDict.ofEntries (addition token roots entries kind).toList).get? key =
      addedAt token roots entries kind key := by
  rw [addedAt]
  cases addition token roots entries kind with
  | none => rfl
  | some entry =>
      rw [Option.toList_some, OrderedDict.get?_ofEntries_cons, Option.filter_some]
      by_cases same : entry.1 = key
      · simp [same, OrderedDict.ofEntries]
      · simp [same, OrderedDict.ofEntries]

theorem get?_projectEntries
    (exact : ∀ entry ∈ entries, projectKey token roots entry.1 = key ↔ entry.1 = key) :
    (OrderedDict.ofEntries (projectEntries token roots kind entries)).get? key =
      if drops kind key then none
      else ((OrderedDict.ofEntries entries).get? key).map fun item =>
        project token roots (childPosition kind key item) item := by
  induction entries with
  | nil =>
      split <;> rfl
  | cons entry entries ih =>
      obtain ⟨other, item⟩ := entry
      have ih := ih fun entry member => exact entry (List.mem_cons_of_mem _ member)
      have here := exact (other, item) List.mem_cons_self
      rw [projectEntries, OrderedDict.get?_ofEntries_cons]
      dsimp only at here ⊢
      by_cases same : other = key
      · subst same
        split
        · next dropped => rw [ih, if_pos dropped]
        · next kept =>
            rw [OrderedDict.get?_ofEntries_cons, ih, if_neg kept, if_pos (here.mpr rfl),
              if_pos rfl]
            cases (OrderedDict.ofEntries entries).get? other <;> rfl
      · rw [if_neg same, Option.or_none]
        split
        · rw [ih]
        · rw [OrderedDict.get?_ofEntries_cons, ih, if_neg fun equal => same (here.mp equal),
            Option.or_none]

theorem get?_projectMapping
    (exact : ∀ entry ∈ entries, projectKey token roots entry.1 = key ↔ entry.1 = key) :
    (projectMapping token roots position entries).get? key =
      (addedAt token roots entries (kindAt token roots entries position) key).or
        (if drops (kindAt token roots entries position) key then none
        else ((OrderedDict.ofEntries entries).get? key).map fun item => project token roots
          (childPosition (kindAt token roots entries position) key item) item) := by
  rw [projectMapping, OrderedDict.get?_ofEntries_append, get?_addition, get?_projectEntries exact]

structure IsName (name : Text) : Prop where
  short : name.length < 27
  clean : containsInternalOffloadMarker name = false

variable {name : Text}

theorem IsName.project_eq_iff {text : Text} (named : IsName name) {toolCallId : Option Text} :
    projectOffloadString token roots toolCallId text = name ↔ text = name := by
  constructor
  · intro same
    rcases @projectOffloadString_eq_or_long token roots toolCallId text with equal | long
    · rw [← equal, same]
    · rw [same] at long
      exact absurd named.short (by omega)
  · rintro rfl
    exact projectOffloadString_of_clean named.clean

theorem IsName.projectKey_eq_iff (named : IsName name) :
    projectKey token roots key = .str name ↔ key = .str name := by
  cases key with
  | scalar value => exact Iff.of_eq (by rw [projectKey])
  | str value =>
      rw [projectKey, Key.str.injEq, Key.str.injEq]
      exact named.project_eq_iff
  | tuple items =>
      rw [projectKey]
      constructor <;> intro same <;> cases same

theorem isName_idName (kind : OffloadKind) : IsName (idName kind) := by
  cases kind <;> exact ⟨by decide, by decide⟩

theorem isName_offloadPathName : IsName offloadPathName :=
  ⟨by decide, by decide⟩

theorem isName_filePathName : IsName filePathName :=
  ⟨by decide, by decide⟩

theorem isName_summarizationEventName : IsName summarizationEventName :=
  ⟨by decide, by decide⟩

theorem isName_payloadName : IsName payloadName :=
  ⟨by decide, by decide⟩

theorem valueOf_projectMapping (named : IsName name) :
    valueOf (projectMapping token roots position entries).entries name =
      (addedAt token roots entries (kindAt token roots entries position) (.str name)).or
        (if drops (kindAt token roots entries position) (.str name) then none
        else (valueOf entries name).map fun item => project token roots
          (childPosition (kindAt token roots entries position) (.str name) item) item) := by
  rw [valueOf, OrderedDict.get?_ofEntries_entries,
    get?_projectMapping fun entry _ => named.projectKey_eq_iff]
  rfl

/-- Only ids and the redaction are set after a mapping's own entries. -/
theorem addedAt_eq_none (noId : ∀ kind, name ≠ idName kind) (short : name.length < 27) :
    addedAt token roots entries kind (.str name) = none := by
  cases found : addedAt token roots entries kind (.str name) with
  | none => rfl
  | some value =>
      rcases addition_eq_some (addedAt_eq_some.mp found) with ⟨id, _, same⟩ | same
      · exact absurd (Key.str.inj (Prod.mk.inj same).1) (noId id.1)
      · have equal : name = internalReferenceRedacted := Key.str.inj (Prod.mk.inj same).1
        rw [equal] at short
        exact absurd short (by decide)

theorem textOf_project {value : Option ProtocolData} {place : ProtocolData → Position} :
    textOf (value.map fun item => project token roots (place item) item) =
      (textOf value).bind fun text =>
        some (projectOffloadString token roots (place (.str text)).toolCallId text) := by
  cases value with
  | none => rfl
  | some item => cases item <;> simp [project, textOf]

theorem isMapping_project : (project token roots position item).isMapping = item.isMapping := by
  cases item <;> simp [project, ProtocolData.isMapping]

theorem projectStructuralReference_of_clean {path : Text}
    (clean : containsInternalOffloadMarker path = false) :
    projectStructuralReference token roots path = none := by
  have spill : ∀ word : Text,
      word = "/.moldy-offload/".toList ∨ word = "/large_tool_results/".toList →
        PythonText.afterPrefix? word path = none := by
    intro word marker
    cases found : PythonText.afterPrefix? word path with
    | none => rfl
    | some rest =>
        rw [PythonText.afterPrefix?_eq_some_iff.mp found] at clean
        have marked := @markerAt_of_starts none rest word (by
          rcases marker with same | same
          · exact Or.inr (Or.inl same)
          · exact Or.inr (Or.inr ⟨rfl, Or.inr same⟩))
        rw [markerAt_eq_false clean (by rcases marker with rfl | rfl <;> simp)] at marked
        exact absurd marked (by decide)
  rw [projectStructuralReference, if_neg, if_neg, List.find?_eq_none.mpr, Option.map_none]
  · intro pattern _ found
    rw [silent_physicalReference _ _ _ _ clean] at found
    cases of_decide_eq_true found
  · rw [scopedSpillFull, legacySpillFull, spill _ (Or.inl rfl), spill _ (Or.inr rfl)]
    exact fun either => either.elim Bool.false_ne_true Bool.false_ne_true
  · rw [silent_virtualHistory _ _ clean, silent_legacyHistory _ _ clean]
    rintro (found | found) <;> cases found

theorem projectKey_of_mem {entry : Key × ProtocolData}
    (member : entry ∈ (projectMapping token roots position entries).entries) :
    projectKey token roots entry.1 = entry.1 := by
  apply projectKey_of_clean
  intro text holds
  have whole : (project token roots position (.mapping entries)).Holds text := by
    rw [project_mapping]
    exact .key member holds
  exact clean_project whole

theorem clean_textOf {text : Text}
    (found : textOf (valueOf (projectMapping token roots position entries).entries name) =
      some text) : containsInternalOffloadMarker text = false := by
  cases value : valueOf (projectMapping token roots position entries).entries name with
  | none =>
      rw [value] at found
      exact absurd found nofun
  | some item =>
      rw [value] at found
      cases item with
      | str text' =>
          obtain rfl := Option.some.inj found
          have member := OrderedDict.mem_of_get?_ofEntries value
          have holds : (ProtocolData.mapping
              (projectMapping token roots position entries).entries).Holds text' :=
            .item member .str
          rw [← project_mapping] at holds
          exact clean_project holds
      | scalar _ => exact absurd found nofun
      | list _ => exact absurd found nofun
      | tuple _ => exact absurd found nofun
      | mapping _ => exact absurd found nofun

theorem not_isInternalOffloadPath :
    isInternalOffloadPath token roots (projectMapping token roots position entries).entries =
      false := by
  rw [isInternalOffloadPath, Option.any_eq_false_iff_get]
  intro present
  have clean := clean_textOf (Option.some_get present).symm
  rw [projectStructuralReference_of_clean clean, clean]
  rfl

theorem referenceOf_projectMapping {pathKey : Text} :
    referenceOf token roots (projectMapping token roots position entries).entries pathKey =
      none := by
  cases found : referenceOf token roots (projectMapping token roots position entries).entries
      pathKey with
  | none => rfl
  | some id =>
      obtain ⟨path, pathEq, reference, _⟩ := referenceOf_eq_some found
      rw [projectStructuralReference_of_clean (clean_textOf pathEq)] at reference
      exact absurd reference nofun

/-- A position without the tool call. -/
def shape : Position → Position
  | .content _ => .content none
  | position => position

def kindShape : MappingKind → MappingKind
  | .plain _ => .plain none
  | .block _ => .block none
  | kind => kind

theorem drops_kindShape (key : Key) : drops (kindShape kind) key = drops kind key := by
  cases kind <;> rfl

theorem addition_kindShape (entries : Entries) :
    addition token roots entries (kindShape kind) = addition token roots entries kind := by
  cases kind <;> rfl

theorem shape_childPosition (key : Key) (item : ProtocolData) :
    shape (childPosition kind key item) = childPosition (kindShape kind) key item := by
  cases kind <;> simp only [childPosition, kindShape]
  case payload => rfl
  all_goals split_ifs <;> rfl

/-- The function that a projected mapping is given to when it is seen again: no internal path is
left in it. -/
def replayKind (entries : Entries) : Position → MappingKind
  | .value => if isCompactionEvent entries then .compaction else .plain none
  | .content _ => .block none
  | .summary => .summary
  | .payload => .payload

theorem replayKind_shape (entries : Entries) (second : Position) :
    replayKind entries (shape second) = replayKind entries second := by
  cases second <;> rfl

theorem valueOf_name_projectMapping (named : IsName name) (noId : ∀ kind, name ≠ idName kind)
    (noPath : name ≠ offloadPathName ∧ name ≠ filePathName) :
    valueOf (projectMapping token roots position entries).entries name =
      (valueOf entries name).map fun item => project token roots
        (childPosition (kindAt token roots entries position) (.str name) item) item := by
  have kept : drops (kindAt token roots entries position) (.str name) = false := by
    cases kindAt token roots entries position <;>
      simp [drops, isReserved, noPath.1, noPath.2, noId]
  rw [valueOf_projectMapping named, addedAt_eq_none noId named.short, kept, Option.none_or]
  rfl

theorem IsName.textOf_eq_iff (named : IsName name) {value : Option ProtocolData}
    {place : ProtocolData → Position} :
    textOf (value.map fun item => project token roots (place item) item) = some name ↔
      textOf value = some name := by
  rw [textOf_project, Option.bind_eq_some_iff]
  constructor
  · rintro ⟨text, found, same⟩
    rw [found, named.project_eq_iff.mp (Option.some.inj same)]
  · intro found
    exact ⟨name, found, by rw [projectOffloadString_of_clean named.clean]⟩

theorem isCompactionEvent_projectMapping :
    isCompactionEvent (projectMapping token roots position entries).entries =
      isCompactionEvent entries := by
  have nameName : IsName "name".toList := ⟨by decide, by decide⟩
  have eventName : IsName "moldy.compaction".toList := ⟨by decide, by decide⟩
  rw [Bool.eq_iff_iff, isCompactionEvent, isCompactionEvent, Bool.and_eq_true, Bool.and_eq_true,
    decide_eq_true_iff, decide_eq_true_iff,
    valueOf_name_projectMapping nameName (by intro kind; cases kind <;> decide) (by decide),
    valueOf_name_projectMapping isName_payloadName (by intro kind; cases kind <;> decide)
      (by decide), eventName.textOf_eq_iff]
  apply and_congr_right
  intro _
  cases valueOf entries payloadName with
  | none => rfl
  | some item => rw [Option.map_some, Option.any_some, Option.any_some, isMapping_project]

theorem kindShape_kindAt (second : Position) :
    kindShape (kindAt token roots (projectMapping token roots first entries).entries second) =
      replayKind entries second := by
  cases second with
  | value =>
      rw [kindAt, not_isInternalOffloadPath, isCompactionEvent_projectMapping, replayKind,
        if_neg (by decide)]
      split <;> rfl
  | content _ => rfl
  | summary => rfl
  | payload => rfl

theorem childPosition_projectKey (kind : MappingKind) (position : Position) (key : Key)
    (item : ProtocolData) :
    childPosition kind (projectKey token roots key) (project token roots position item) =
      childPosition kind key item := by
  have name : ∀ {name : Text}, IsName name →
      (projectKey token roots key = .str name ↔ key = .str name) :=
    fun named => named.projectKey_eq_iff
  have content : IsName "content".toList := ⟨by decide, by decide⟩
  have blocks : IsName "content_blocks".toList := ⟨by decide, by decide⟩
  have text : IsName "text".toList := ⟨by decide, by decide⟩
  cases kind <;> simp only [childPosition, isMapping_project, name isName_summarizationEventName,
    name isName_payloadName, name content, name blocks, name text]

inductive Same : ProtocolData → ProtocolData → Prop
  | scalar (value : Scalar) : Same (.scalar value) (.scalar value)
  | str (value : Text) : Same (.str value) (.str value)
  | list {first second : List ProtocolData} (items : List.Forall₂ Same first second) :
      Same (.list first) (.list second)
  | tuple {first second : List ProtocolData} (items : List.Forall₂ Same first second) :
      Same (.tuple first) (.tuple second)
  | mapping {first second : Entries} (lookups : ∀ key, Option.Rel Same
      ((OrderedDict.ofEntries first).get? key) ((OrderedDict.ofEntries second).get? key)) :
      Same (.mapping first) (.mapping second)

theorem forall₂_same_iff {items : List ProtocolData} {change keep : ProtocolData → ProtocolData} :
    List.Forall₂ Same (items.map change) (items.map keep) ↔
      ∀ item ∈ items, Same (change item) (keep item) := by
  rw [List.forall₂_map_left_iff, List.forall₂_map_right_iff, List.forall₂_same]

theorem same_mapping_iff {first second : OrderedDict Key ProtocolData} :
    Same (.mapping first.entries) (.mapping second.entries) ↔
      ∀ key, Option.Rel Same (first.get? key) (second.get? key) := by
  constructor
  · intro same key
    cases same with
    | mapping lookups =>
        have looked := lookups key
        rwa [OrderedDict.get?_ofEntries_entries, OrderedDict.get?_ofEntries_entries] at looked
  · intro lookups
    apply Same.mapping
    intro key
    rw [OrderedDict.get?_ofEntries_entries, OrderedDict.get?_ofEntries_entries]
    exact lookups key

section Reading

variable (token : OffloadKind → Text → Token) (roots : List Text)

/-- An entry whose projection is not overwritten by a later one. -/
def Survives (position : Position) (entries : Entries) (key : Key) (item : ProtocolData) : Prop :=
  (∃ earlier later, entries = earlier ++ (key, item) :: later ∧
    ∀ entry ∈ later, drops (kindAt token roots entries position) entry.1 = false →
      projectKey token roots entry.1 ≠ projectKey token roots key) ∧
  drops (kindAt token roots entries position) key = false ∧
  ∀ entry, addition token roots entries (kindAt token roots entries position) = some entry →
    entry.1 ≠ projectKey token roots key

theorem Survives.mem {position : Position} {entries : Entries} {key : Key} {item : ProtocolData}
    (survives : Survives token roots position entries key item) : (key, item) ∈ entries := by
  obtain ⟨⟨earlier, later, rfl, _⟩, _⟩ := survives
  exact List.mem_append_right earlier List.mem_cons_self

/-- A mapping that is part of what is projected, with the positions in which it is read at first
and when the result is projected again. -/
inductive Read : Position → Position → ProtocolData → Position → Position → Entries → Prop
  | mapping (first second : Position) (entries : Entries) :
      Read first second (.mapping entries) first second entries
  | list {first second first' second' : Position} {items : List ProtocolData} {item : ProtocolData}
      {entries : Entries} (member : item ∈ items)
      (below : Read first second item first' second' entries) :
      Read first second (.list items) first' second' entries
  | tuple {first second first' second' : Position} {items : List ProtocolData} {item : ProtocolData}
      {entries : Entries} (member : item ∈ items)
      (below : Read first second item first' second' entries) :
      Read first second (.tuple items) first' second' entries
  | entry {first second first' second' : Position} {entries entries' : Entries} {key : Key}
      {item : ProtocolData} (survives : Survives token roots first entries key item)
      (below : Read (childPosition (kindAt token roots entries first) key item)
        (childPosition (replayKind entries second) key item) item first' second' entries') :
      Read first second (.mapping entries) first' second' entries'

def shown (position : Position) (entries : Entries) (name : Text) : Prop :=
  addedAt token roots entries (kindAt token roots entries position) (.str name) ≠ none ∨
    drops (kindAt token roots entries position) (.str name) = false ∧ valueOf entries name ≠ none

def shownText (position : Position) (entries : Entries) (name : Text) : Option Text :=
  (textOf (addedAt token roots entries (kindAt token roots entries position) (.str name))).or
    (if drops (kindAt token roots entries position) (.str name) then none
    else (textOf (valueOf entries name)).map (projectOffloadString token roots none))

/-- No id is shown. -/
def NoId (position : Position) (entries : Entries) : Prop :=
  ∀ kind, ¬shown token roots position entries (idName kind)

def OnlyHistoryId (position : Position) (entries : Entries) : Prop :=
  ¬shown token roots position entries (idName .spill) ∧
    ∃ id, shownText token roots position entries (idName .history) = some id ∧
      isLogicalId .history id = true

def Redacted (position : Position) (entries : Entries) : Prop :=
  addedAt token roots entries (kindAt token roots entries position) redactionKey ≠ none ∨
    ∃ key, Survives token roots position entries key (.scalar (.bool true)) ∧
      projectKey token roots key = redactionKey

/-- What a mapping shows is kept when it is seen again. -/
def Settled (first second : Position) (entries : Entries) : Prop :=
  match replayKind entries second with
  | .compaction => NoId token roots first entries
  | .payload =>
      NoId token roots first entries ∨
        OnlyHistoryId token roots first entries ∧
          textOf (valueOf entries "state".toList) = some "done".toList ∧
            ¬shown token roots first entries filePathName ∧
              ¬shown token roots first entries offloadPathName
  | .summary =>
      ¬shown token roots first entries filePathName ∧
        (OnlyHistoryId token roots first entries ∨
          NoId token roots first entries ∧ Redacted token roots first entries)
  | _ => True

end Reading

theorem get?_projectEntries_eq_some_iff :
    (OrderedDict.ofEntries (projectEntries token roots kind entries)).get? key = some value ↔
      ∃ key' item, (∃ earlier later, entries = earlier ++ (key', item) :: later ∧
          ∀ entry ∈ later, drops kind entry.1 = false → projectKey token roots entry.1 ≠ key) ∧
        drops kind key' = false ∧ projectKey token roots key' = key ∧
          value = project token roots (childPosition kind key' item) item := by
  induction entries with
  | nil =>
      constructor
      · intro found
        cases found
      · rintro ⟨key', item, ⟨earlier, later, split, _⟩, _⟩
        exact absurd split (by simp)
  | cons entry entries ih =>
      obtain ⟨head, first⟩ := entry
      rw [projectEntries]
      constructor
      · intro found
        split at found
        · obtain ⟨key', item, ⟨earlier, later, split, last⟩, rest⟩ := ih.mp found
          exact ⟨key', item, ⟨(head, first) :: earlier, later, by rw [split]; rfl, last⟩, rest⟩
        · next kept =>
            rw [OrderedDict.get?_ofEntries_cons, Option.or_eq_some_iff] at found
            rcases found with found | ⟨none, found⟩
            · obtain ⟨key', item, ⟨earlier, later, split, last⟩, rest⟩ := ih.mp found
              exact ⟨key', item, ⟨(head, first) :: earlier, later, by rw [split]; rfl, last⟩, rest⟩
            · split at found
              · next same =>
                  refine ⟨head, first, ⟨[], entries, rfl, fun entry member kept equal => ?_⟩,
                    by simpa using kept, same, (Option.some.inj found).symm⟩
                  obtain ⟨value', present⟩ := OrderedDict.exists_get?_ofEntries (List.mem_map.mpr
                    ⟨_, mem_projectEntries.mpr ⟨entry.1, entry.2, member, kept, rfl⟩, equal⟩)
                  rw [none] at present
                  cases present
              · cases found
      · rintro ⟨key', item, ⟨earlier, later, whole, last⟩, kept, rfl, rfl⟩
        cases earlier with
        | nil =>
            obtain ⟨same, rfl⟩ := List.cons.inj whole
            obtain ⟨rfl, rfl⟩ := Prod.mk.inj same
            rw [kept, if_neg (by decide), OrderedDict.get?_ofEntries_cons, if_pos rfl,
              OrderedDict.get?_ofEntries_eq_none, Option.none_or]
            intro entry member
            obtain ⟨key', item', listed, kept', rfl⟩ := mem_projectEntries.mp member
            exact last _ listed kept'
        | cons _ earlier =>
            obtain ⟨_, whole⟩ := List.cons.inj whole
            have found := ih.mpr ⟨key', item, ⟨earlier, later, whole, last⟩, kept, rfl, rfl⟩
            split
            · exact found
            · rw [OrderedDict.get?_ofEntries_cons, found, Option.some_or]

theorem get?_projectMapping_eq_some_iff :
    (projectMapping token roots position entries).get? key = some value ↔
      addedAt token roots entries (kindAt token roots entries position) key = some value ∨
        ∃ key' item, Survives token roots position entries key' item ∧
          projectKey token roots key' = key ∧ value = project token roots
            (childPosition (kindAt token roots entries position) key' item) item := by
  rw [projectMapping, OrderedDict.get?_ofEntries_append, get?_addition, Option.or_eq_some_iff]
  apply or_congr_right
  rw [get?_projectEntries_eq_some_iff]
  constructor
  · rintro ⟨free, key', item, last, kept, rfl, same⟩
    refine ⟨key', item, ⟨last, kept, fun entry added equal => ?_⟩, rfl, same⟩
    rw [addedAt_eq_some.mpr (by rw [added, ← equal])] at free
    cases free
  · rintro ⟨key', item, ⟨last, kept, free⟩, rfl, same⟩
    refine ⟨?_, key', item, last, kept, rfl, same⟩
    cases found : addedAt token roots entries (kindAt token roots entries position)
      (projectKey token roots key') with
    | none => rfl
    | some value' => exact absurd rfl (free _ (addedAt_eq_some.mp found))

theorem get?_replayed (key : Key) :
    (projectMapping token roots second (projectMapping token roots first entries).entries).get?
        key =
      (addedAt token roots (projectMapping token roots first entries).entries
        (replayKind entries second) key).or
        (if drops (replayKind entries second) key then none
        else ((projectMapping token roots first entries).get? key).map fun item =>
          project token roots (childPosition (kindAt token roots
            (projectMapping token roots first entries).entries second) key item) item) := by
  rw [get?_projectMapping fun entry member => by rw [projectKey_of_mem member],
    OrderedDict.get?_ofEntries_entries, ← @kindShape_kindAt token roots first, drops_kindShape,
    addedAt, addedAt, addition_kindShape]

/-- The second projection drops nothing and sets nothing new. -/
structure Kept (token : OffloadKind → Text → Token) (roots : List Text) (first second : Position)
    (entries : Entries) : Prop where
  dropped : ∀ key, drops (replayKind entries second) key = true →
    addedAt token roots (projectMapping token roots first entries).entries
      (replayKind entries second) key = none →
    (projectMapping token roots first entries).get? key = none
  added : ∀ key value, addedAt token roots (projectMapping token roots first entries).entries
      (replayKind entries second) key = some value →
    (projectMapping token roots first entries).get? key = some value

theorem Same.of_addedAt (added : addedAt token roots entries kind key = some value) :
    Same value value := by
  rcases addition_eq_some (addedAt_eq_some.mp added) with ⟨id, _, same⟩ | same
  · rw [(Prod.mk.inj same).2]
    exact .str _
  · rw [(Prod.mk.inj same).2]
    exact .scalar _

theorem Same.eq_of_addedAt {other : ProtocolData}
    (added : addedAt token roots entries kind key = some value) (same : Same value other) :
    value = other := by
  rcases addition_eq_some (addedAt_eq_some.mp added) with ⟨id, _, equal⟩ | equal
  · rw [(Prod.mk.inj equal).2] at same ⊢
    cases same
    rfl
  · rw [(Prod.mk.inj equal).2] at same ⊢
    cases same
    rfl

theorem not_read_of_addedAt {first' second' : Position} {entries' : Entries}
    (added : addedAt token roots entries kind key = some value)
    (same : Same value (project token roots position item)) :
    ¬Read token roots first second item first' second' entries' := by
  intro read
  have equal := same.eq_of_addedAt added
  rcases addition_eq_some (addedAt_eq_some.mp added) with ⟨id, _, entry⟩ | entry
  · rw [(Prod.mk.inj entry).2] at equal
    cases read <;> exact absurd equal (by simp [project])
  · rw [(Prod.mk.inj entry).2] at equal
    cases read <;> exact absurd equal (by simp [project])

theorem project_of_addedAt (added : addedAt token roots entries kind key = some value) :
    project token roots position value = value := by
  rcases addition_eq_some (addedAt_eq_some.mp added) with ⟨id, shape, entry⟩ | entry
  · rw [(Prod.mk.inj entry).2]
    rw [project, projectOffloadString_of_clean (clean_of_isLogicalId shape)]
  · rw [(Prod.mk.inj entry).2]
    rfl

theorem same_entry_of_survives {key : Key}
    (same : ∀ key, Option.Rel Same
      ((projectMapping token roots second (projectMapping token roots first entries).entries).get?
        key) ((projectMapping token roots first entries).get? key))
    (survives : Survives token roots first entries key item) :
    (∃ value, addedAt token roots (projectMapping token roots first entries).entries
        (replayKind entries second) (projectKey token roots key) = some value ∧
      Same value (project token roots
        (childPosition (kindAt token roots entries first) key item) item)) ∨
      Same (project token roots (childPosition (kindAt token roots
            (projectMapping token roots first entries).entries second) key item)
          (project token roots (childPosition (kindAt token roots entries first) key item) item))
        (project token roots (childPosition (kindAt token roots entries first) key item) item) := by
  have shownOnce := get?_projectMapping_eq_some_iff.mpr (Or.inr ⟨key, item, survives, rfl, rfl⟩)
  have looked := same (projectKey token roots key)
  rw [shownOnce, get?_replayed, shownOnce] at looked
  cases found : addedAt token roots (projectMapping token roots first entries).entries
      (replayKind entries second) (projectKey token roots key) with
  | some value =>
      rw [found, Option.some_or] at looked
      cases looked with
      | some same => exact Or.inl ⟨value, rfl, same⟩
  | none =>
      rw [found, Option.none_or] at looked
      split at looked
      · exact nomatch looked
      · rw [Option.map_some, childPosition_projectKey] at looked
        cases looked with
        | some same => exact Or.inr same

theorem kept_of_same
    (same : ∀ key, Option.Rel Same
      ((projectMapping token roots second (projectMapping token roots first entries).entries).get?
        key) ((projectMapping token roots first entries).get? key)) :
    Kept token roots first (shape second) entries := by
  constructor
  · intro key dropped free
    have looked := same key
    rw [replayKind_shape] at dropped free
    rw [get?_replayed, free, Option.none_or, if_pos dropped] at looked
    cases shown : (projectMapping token roots first entries).get? key with
    | none => rfl
    | some value =>
        rw [shown] at looked
        exact nomatch looked
  · intro key value added
    have looked := same key
    rw [replayKind_shape] at added
    rw [get?_replayed, added, Option.some_or] at looked
    cases shown : (projectMapping token roots first entries).get? key with
    | none =>
        rw [shown] at looked
        exact nomatch looked
    | some other =>
        rw [shown] at looked
        cases looked with
        | some same => rw [same.eq_of_addedAt added]

theorem same_of_kept (kept : Kept token roots first (shape second) entries)
    (below : ∀ key item, Survives token roots first entries key item →
      Same (project token roots (childPosition (kindAt token roots
            (projectMapping token roots first entries).entries second) key item)
          (project token roots (childPosition (kindAt token roots entries first) key item) item))
        (project token roots (childPosition (kindAt token roots entries first) key item) item))
    (key : Key) : Option.Rel Same
      ((projectMapping token roots second (projectMapping token roots first entries).entries).get?
        key) ((projectMapping token roots first entries).get? key) := by
  rw [get?_replayed]
  cases found : addedAt token roots (projectMapping token roots first entries).entries
      (replayKind entries second) key with
  | some value =>
      rw [Option.some_or, kept.added key value (by rw [replayKind_shape, found])]
      exact .some (.of_addedAt found)
  | none =>
      rw [Option.none_or]
      split
      · next dropped =>
          rw [kept.dropped key (by rw [replayKind_shape, dropped])
            (by rw [replayKind_shape, found])]
          exact .none
      · cases shown : (projectMapping token roots first entries).get? key with
        | none => exact .none
        | some value =>
            rw [Option.map_some]
            rcases get?_projectMapping_eq_some_iff.mp shown with
              added | ⟨key', item, survives, rfl, rfl⟩
            · rw [project_of_addedAt added]
              exact .some (.of_addedAt added)
            · rw [childPosition_projectKey]
              exact .some (below key' item survives)

/-- Projecting again gives the same data exactly if every mapping that is read keeps what it
shows. -/
theorem same_project_iff :
    Same (project token roots second (project token roots first data))
        (project token roots first data) ↔
      ∀ first' second' entries,
        Read token roots first (shape second) data first' second' entries →
          Kept token roots first' second' entries := by
  induction data using ProtocolData.induct generalizing first second with
  | scalar value => exact ⟨fun _ _ _ _ read => (nomatch read), fun _ => .scalar value⟩
  | str value =>
      refine ⟨fun _ _ _ _ read => (nomatch read), fun _ => ?_⟩
      rw [project, project, projectOffloadString_of_clean clean_projectOffloadString]
      exact .str _
  | list items ih =>
      rw [project, project, projectItems_eq_map, projectItems_eq_map, List.map_map]
      constructor
      · intro same first' second' entries read
        cases same with
        | list same =>
            cases read with
            | list member below =>
                exact (ih _ member).mp (forall₂_same_iff.mp same _ member) _ _ _ below
      · intro kept
        apply Same.list
        rw [forall₂_same_iff]
        exact fun item member => (ih item member).mpr fun first' second' entries below =>
          kept first' second' entries (.list member below)
  | tuple items ih =>
      rw [project, project, projectItems_eq_map, projectItems_eq_map, List.map_map]
      constructor
      · intro same first' second' entries read
        cases same with
        | tuple same =>
            cases read with
            | tuple member below =>
                exact (ih _ member).mp (forall₂_same_iff.mp same _ member) _ _ _ below
      · intro kept
        apply Same.tuple
        rw [forall₂_same_iff]
        exact fun item member => (ih item member).mpr fun first' second' entries below =>
          kept first' second' entries (.tuple member below)
  | mapping entries ih =>
      rw [project_mapping, project_mapping, same_mapping_iff]
      constructor
      · intro same first' second' entries' read
        cases read with
        | mapping => exact kept_of_same same
        | entry survives below =>
            have member := survives.mem
            rcases same_entry_of_survives same survives with ⟨value, added, equal⟩ | equal
            · exact absurd below (not_read_of_addedAt added equal)
            · apply (ih _ member).mp equal
              rwa [shape_childPosition, kindShape_kindAt, ← replayKind_shape]
      · intro kept
        apply same_of_kept (kept _ _ _ (.mapping _ _ _))
        intro key item survives
        apply (ih _ survives.mem).mpr
        intro first' second' entries' read
        rw [shape_childPosition, kindShape_kindAt, ← replayKind_shape] at read
        exact kept _ _ _ (.entry survives read)

theorem isReserved_iff : isReserved key = true ↔ ∃ kind, key = .str (idName kind) := by
  rw [isReserved, Bool.or_eq_true, decide_eq_true_iff, decide_eq_true_iff]
  constructor
  · rintro (same | same)
    · exact ⟨_, same⟩
    · exact ⟨_, same⟩
  · rintro ⟨kind, same⟩
    cases kind
    · exact Or.inl same
    · exact Or.inr same

theorem get?_str (name : Text) :
    (projectMapping token roots position entries).get? (.str name) =
      valueOf (projectMapping token roots position entries).entries name := by
  rw [valueOf, OrderedDict.get?_ofEntries_entries]

theorem shown_iff (named : IsName name) :
    shown token roots position entries name ↔
      valueOf (projectMapping token roots position entries).entries name ≠ none := by
  rw [shown, valueOf_projectMapping named, ne_eq, ne_eq, ne_eq, Option.or_eq_none_iff,
    not_and_or]
  apply or_congr_right
  cases drops (kindAt token roots entries position) (.str name) with
  | true => simp
  | false => simp

theorem noId_iff :
    NoId token roots position entries ↔ ∀ kind, valueOf
      (projectMapping token roots position entries).entries (idName kind) = none := by
  apply forall_congr'
  intro kind
  rw [shown_iff (isName_idName kind), ne_eq, not_not]

theorem textOf_or {first second : Option ProtocolData}
    (text : ∀ value, first = some value → ∃ text, value = .str text) :
    textOf (first.or second) = (textOf first).or (textOf second) := by
  cases first with
  | none => rfl
  | some value =>
      obtain ⟨text, rfl⟩ := text value rfl
      rfl

/-- An id is read as any other value. -/
theorem childPosition_idName (mapping : MappingKind) (kind : OffloadKind) (item : ProtocolData) :
    childPosition mapping (.str (idName kind)) item = .value := by
  have differs : ∀ name ∈ [summarizationEventName, payloadName, "content".toList,
      "content_blocks".toList, "text".toList], Key.str (idName kind) ≠ .str name := by
    intro name listed equal
    rw [← Key.str.inj equal] at listed
    cases kind <;> exact absurd listed (by decide)
  rw [List.forall_mem_cons, List.forall_mem_cons, List.forall_mem_cons, List.forall_mem_cons,
    List.forall_mem_cons] at differs
  obtain ⟨event, payload, content, blocks, text, _⟩ := differs
  cases mapping <;>
    simp only [childPosition, event, payload, content, blocks, text, false_and, or_self, if_false]

theorem shownText_idName (kind : OffloadKind) :
    shownText token roots position entries (idName kind) =
      textOf (valueOf (projectMapping token roots position entries).entries (idName kind)) := by
  rw [shownText, valueOf_projectMapping (isName_idName kind), textOf_or]
  · congr 1
    split
    · rfl
    · rw [textOf_project]
      cases textOf (valueOf entries (idName kind)) with
      | none => rfl
      | some text =>
          rw [Option.map_some, Option.bind_some, childPosition_idName]
          rfl
  · intro value added
    rcases addition_eq_some (addedAt_eq_some.mp added) with ⟨id, _, same⟩ | same
    · exact ⟨id.2, (Prod.mk.inj same).2⟩
    · exact absurd (Key.str.inj (Prod.mk.inj same).1) (by cases kind <;> decide)

theorem existingLogicalId_filePath_iff {id : OffloadKind × Text} :
    existingLogicalId entries filePathName = some id ↔
      id.1 = .history ∧ valueOf entries (idName .spill) = none ∧
        textOf (valueOf entries (idName .history)) = some id.2 ∧
          isLogicalId .history id.2 = true := by
  constructor
  · intro found
    obtain ⟨text, shape, history, others⟩ := existingLogicalId_eq_some found
    have kind := history rfl
    rw [kind] at text shape
    exact ⟨kind, others .spill (by rw [kind]; decide), text, shape⟩
  · rintro ⟨kind, noSpill, text, shape⟩
    have present : (valueOf entries (idName .history)).isSome = true := by
      cases found : valueOf entries (idName .history) with
      | none =>
          rw [found] at text
          exact absurd text nofun
      | some value => rfl
    have only : ([OffloadKind.history, .spill].filter
        fun kind => (valueOf entries (idName kind)).isSome) = [.history] := by
      rw [List.filter_cons, List.filter_cons, if_pos present, noSpill]
      rfl
    rw [existingLogicalId, only]
    dsimp only
    rw [text, Option.bind_some, if_pos ⟨shape, by simp⟩, ← kind]

theorem onlyHistoryId_iff :
    OnlyHistoryId token roots position entries ↔
      ∃ id, existingLogicalId (projectMapping token roots position entries).entries
        filePathName = some id := by
  rw [OnlyHistoryId, shown_iff (isName_idName .spill), ne_eq, not_not, shownText_idName]
  constructor
  · rintro ⟨noSpill, id, text, shape⟩
    exact ⟨(.history, id), existingLogicalId_filePath_iff.mpr ⟨rfl, noSpill, text, shape⟩⟩
  · rintro ⟨id, found⟩
    obtain ⟨_, noSpill, text, shape⟩ := existingLogicalId_filePath_iff.mp found
    exact ⟨noSpill, id.2, text, shape⟩

theorem idName_ne_redaction (kind : OffloadKind) : Key.str (idName kind) ≠ redactionKey := by
  intro equal
  have same := Key.str.inj equal
  cases kind <;> exact absurd same (by decide)

theorem redacted_iff :
    Redacted token roots position entries ↔
      (projectMapping token roots position entries).get? redactionKey =
        some (.scalar (.bool true)) := by
  rw [get?_projectMapping_eq_some_iff, Redacted]
  apply or_congr
  · constructor
    · intro present
      obtain ⟨value, found⟩ := Option.ne_none_iff_exists'.mp present
      rcases addition_eq_some (addedAt_eq_some.mp found) with ⟨id, _, same⟩ | same
      · exact absurd (Prod.mk.inj same).1.symm (idName_ne_redaction id.1)
      · rw [found, (Prod.mk.inj same).2]
    · intro found
      rw [found]
      exact nofun
  · constructor
    · rintro ⟨key, survives, same⟩
      exact ⟨key, _, survives, same, rfl⟩
    · rintro ⟨key, item, survives, same, equal⟩
      cases item with
      | scalar value =>
          rw [project, ProtocolData.scalar.injEq] at equal
          subst equal
          exact ⟨key, survives, same⟩
      | str _ => exact absurd equal (by simp [project])
      | list _ => exact absurd equal (by simp [project])
      | tuple _ => exact absurd equal (by simp [project])
      | mapping _ => exact absurd equal (by simp [project])

section Replays

theorem kept_iff_noId
    (nothing : addition token roots (projectMapping token roots first entries).entries
      (replayKind entries second) = none)
    (ids : ∀ key, drops (replayKind entries second) key = isReserved key) :
    Kept token roots first second entries ↔ NoId token roots first entries := by
  have free : ∀ key, addedAt token roots (projectMapping token roots first entries).entries
      (replayKind entries second) key = none := by
    intro key
    rw [addedAt, nothing]
    rfl
  rw [noId_iff]
  constructor
  · intro kept kind
    rw [← get?_str]
    exact kept.dropped _ (by rw [ids, isReserved_iff]; exact ⟨kind, rfl⟩) (free _)
  · intro none
    constructor
    · intro key dropped _
      rw [ids] at dropped
      obtain ⟨kind, rfl⟩ := isReserved_iff.mp dropped
      rw [get?_str]
      exact none kind
    · intro key value added
      rw [free] at added
      exact absurd added nofun

theorem kept_of_existing {id : OffloadKind × Text}
    (added : addition token roots (projectMapping token roots first entries).entries
      (replayKind entries second) = some (idEntry id))
    (existing : existingLogicalId (projectMapping token roots first entries).entries
      filePathName = some id)
    (ids : ∀ key, drops (replayKind entries second) key = true → isReserved key = true ∨
      (projectMapping token roots first entries).get? key = none) :
    Kept token roots first second entries := by
  obtain ⟨kind, noSpill, text, _⟩ := existingLogicalId_filePath_iff.mp existing
  constructor
  · intro key dropped free
    rcases ids key dropped with reserved | none
    · obtain ⟨other, rfl⟩ := isReserved_iff.mp reserved
      cases other with
      | spill =>
          rw [get?_str]
          exact noSpill
      | history =>
          have set := addedAt_eq_some.mpr (added.trans (by rw [idEntry, kind]))
          rw [set] at free
          exact absurd free nofun
    · exact none
  · intro key value found
    rw [addedAt_eq_some, added, Option.some.injEq, idEntry, Prod.mk.injEq, kind] at found
    obtain ⟨rfl, rfl⟩ := found
    rw [get?_str]
    cases stored : valueOf (projectMapping token roots first entries).entries
        (idName .history) with
    | none =>
        rw [stored] at text
        exact absurd text nofun
    | some item =>
        rw [stored] at text
        cases item with
        | str value => rw [Option.some.inj text]
        | scalar _ => exact absurd text nofun
        | list _ => exact absurd text nofun
        | tuple _ => exact absurd text nofun
        | mapping _ => exact absurd text nofun

theorem textOf_state :
    textOf (valueOf (projectMapping token roots position entries).entries "state".toList) =
        some "done".toList ↔
      textOf (valueOf entries "state".toList) = some "done".toList := by
  have stateName : IsName "state".toList := ⟨by decide, by decide⟩
  have doneName : IsName "done".toList := ⟨by decide, by decide⟩
  rw [valueOf_name_projectMapping stateName (by intro kind; cases kind <;> decide) (by decide),
    doneName.textOf_eq_iff]

theorem kept_payload_iff :
    Kept token roots first .payload entries ↔ Settled token roots first .payload entries := by
  change _ ↔ NoId token roots first entries ∨ OnlyHistoryId token roots first entries ∧ _
  rw [onlyHistoryId_iff, shown_iff isName_filePathName, shown_iff isName_offloadPathName,
    ← @textOf_state token roots first, ne_eq, ne_eq, not_not, not_not]
  by_cases done : textOf (valueOf (projectMapping token roots first entries).entries
      "state".toList) = some "done".toList ∧
      valueOf (projectMapping token roots first entries).entries filePathName = none ∧
        valueOf (projectMapping token roots first entries).entries offloadPathName = none
  · have whole : addition token roots (projectMapping token roots first entries).entries
        (replayKind entries .payload) = _ := if_pos done
    cases existing : existingLogicalId (projectMapping token roots first entries).entries
        filePathName with
    | none =>
        rw [existing] at whole
        rw [kept_iff_noId whole fun _ => rfl]
        constructor
        · exact Or.inl
        · rintro (none | ⟨⟨id, found⟩, _⟩)
          · exact none
          · exact absurd found nofun
    | some id =>
        rw [existing] at whole
        exact ⟨fun _ => Or.inr ⟨⟨id, rfl⟩, done⟩,
          fun _ => kept_of_existing whole existing fun _ => Or.inl⟩
  · have whole : addition token roots (projectMapping token roots first entries).entries
        (replayKind entries .payload) = none := if_neg done
    rw [kept_iff_noId whole fun _ => rfl]
    constructor
    · exact Or.inl
    · rintro (none | ⟨_, other⟩)
      · exact none
      · exact absurd other done

theorem kept_summary_iff :
    Kept token roots first .summary entries ↔ Settled token roots first .summary entries := by
  change _ ↔ ¬shown token roots first entries filePathName ∧
    (OnlyHistoryId token roots first entries ∨ _)
  rw [onlyHistoryId_iff, shown_iff isName_filePathName, ne_eq, not_not, redacted_iff, noId_iff,
    ← get?_str filePathName]
  have noFile : addedAt token roots (projectMapping token roots first entries).entries .summary
      (.str filePathName) = none :=
    addedAt_eq_none (by intro kind; cases kind <;> decide) (by decide)
  have fileDropped : drops (replayKind entries .summary) (.str filePathName) = true := by
    rw [replayKind]
    decide
  have idDropped : ∀ kind, drops (replayKind entries .summary) (.str (idName kind)) = true := by
    intro kind
    rw [replayKind]
    cases kind <;> decide
  have dropped : ∀ key, drops (replayKind entries .summary) key = true →
      key = .str filePathName ∨ isReserved key = true := by
    intro key dropped
    rwa [replayKind, drops, Bool.or_eq_true, decide_eq_true_iff] at dropped
  -- Once the file's path is gone, the entry that is set depends on the ids alone.
  have set : (projectMapping token roots first entries).get? (.str filePathName) = none →
      addition token roots (projectMapping token roots first entries).entries
          (replayKind entries .summary) =
        (existingLogicalId (projectMapping token roots first entries).entries filePathName).elim
          (some (redactionKey, .scalar (.bool true))) (fun id => some (idEntry id)) := by
    intro gone
    rw [get?_str] at gone
    rw [replayKind, addition, structuralEntry, referenceOf_projectMapping, Option.none_or,
      if_pos ⟨rfl, by rw [gone]; rfl⟩]
    cases existingLogicalId (projectMapping token roots first entries).entries filePathName <;> rfl
  constructor
  · intro kept
    have gone := kept.dropped _ fileDropped noFile
    refine ⟨gone, ?_⟩
    have added := set gone
    cases existing : existingLogicalId (projectMapping token roots first entries).entries
        filePathName with
    | some id => exact Or.inl ⟨id, rfl⟩
    | none =>
        rw [existing, Option.elim_none] at added
        right
        constructor
        · intro kind
          rw [← get?_str]
          apply kept.dropped _ (idDropped kind)
          rw [addedAt, added, Option.filter_some,
            if_neg (by rw [decide_eq_true_iff]; exact (idName_ne_redaction kind).symm)]
          rfl
        · exact kept.added _ _ (addedAt_eq_some.mpr added)
  · rintro ⟨gone, shown⟩
    have added := set gone
    cases existing : existingLogicalId (projectMapping token roots first entries).entries
        filePathName with
    | some id =>
        rw [existing, Option.elim_some] at added
        apply kept_of_existing added existing
        intro key left
        rcases dropped key left with rfl | reserved
        · exact Or.inr gone
        · exact Or.inl reserved
    | none =>
        rw [existing, Option.elim_none] at added
        rcases shown with ⟨id, found⟩ | ⟨noIds, redacted⟩
        · rw [existing] at found
          cases found
        · constructor
          · intro key left _
            rcases dropped key left with rfl | reserved
            · exact gone
            · obtain ⟨kind, rfl⟩ := isReserved_iff.mp reserved
              rw [get?_str]
              exact noIds kind
          · intro key value found
            rw [addedAt_eq_some, added] at found
            obtain ⟨rfl, rfl⟩ := Prod.mk.inj (Option.some.inj found)
            exact redacted

theorem kept_iff_settled :
    Kept token roots first second entries ↔ Settled token roots first second entries := by
  have trivially : drops (replayKind entries second) = (fun _ => false) →
      addition token roots (projectMapping token roots first entries).entries
        (replayKind entries second) = none → Kept token roots first second entries := by
    intro all nothing
    constructor
    · intro key dropped
      rw [all] at dropped
      exact absurd dropped Bool.false_ne_true
    · intro key value added
      rw [addedAt_eq_some, nothing] at added
      exact absurd added nofun
  cases second with
  | payload => exact kept_payload_iff
  | summary => exact kept_summary_iff
  | content toolCallId =>
      constructor
      · exact fun _ => trivial
      · exact fun _ => trivially rfl rfl
  | value =>
      by_cases event : isCompactionEvent entries = true
      · have compaction : replayKind entries .value = .compaction := if_pos event
        rw [Settled, compaction]
        apply kept_iff_noId
        · rw [compaction]
          rfl
        · intro key
          rw [compaction]
          rfl
      · have plain : replayKind entries .value = .plain none := if_neg event
        rw [Settled, plain]
        constructor
        · exact fun _ => trivial
        · exact fun _ => trivially (by rw [plain]; rfl) (by rw [plain]; rfl)

end Replays

section Authority

variable (token : OffloadKind → Text → Token) (roots : List Text)

def Own (entries : Entries) (id : OffloadKind × Text) : Prop :=
  ∃ path, (textOf (valueOf entries offloadPathName) = some path ∨
    textOf (valueOf entries filePathName) = some path) ∧
      projectStructuralReference token roots path = some id

/-- A logical id that the caller puts beside an internal path is not shown, or is the id of a path
of the same mapping. -/
def Authoritative (position : Position) (entries : Entries) : Prop :=
  isInternalOffloadPath token roots entries = true → ∀ kind id,
    textOf (valueOf entries (idName kind)) = some id → isLogicalId kind id = true →
      textOf (valueOf (projectMapping token roots position entries).entries (idName kind)) =
        some id →
      Own token roots entries (kind, id)

/-- The ids that the caller puts beside an internal path where the path is not looked at: in a block
of a message, and in an event of a summary without a file. -/
def Trusted (position : Position) (entries : Entries) : Prop :=
  isInternalOffloadPath token roots entries = true →
    match kindAt token roots entries position with
    | .block _ => ∀ kind id, textOf (valueOf entries (idName kind)) = some id →
        isLogicalId kind id = true → Own token roots entries (kind, id)
    | .summary => isNone (valueOf entries filePathName) = true → ∀ id,
        existingLogicalId entries filePathName = some id → Own token roots entries id
    | _ => True

end Authority

theorem textOf_of_isNone {value : Option ProtocolData} (none : isNone value = true) :
    textOf value = Option.none := by
  cases value with
  | none => rfl
  | some item => cases item <;> first | rfl | exact absurd none (by simp [isNone])

/-- Where ids are dropped, the id that is shown is the one that is set last. -/
theorem addition_of_textOf {kind : OffloadKind} {id : Text}
    (dropped : ∀ key, isReserved key = true →
      drops (kindAt token roots entries position) key = true)
    (found : textOf (valueOf (projectMapping token roots position entries).entries
      (idName kind)) = some id) :
    addition token roots entries (kindAt token roots entries position) =
      some (idEntry (kind, id)) := by
  rw [valueOf_projectMapping (isName_idName kind), if_pos (dropped _ (isReserved_iff.mpr
    ⟨kind, rfl⟩)), Option.or_none] at found
  cases added : addedAt token roots entries (kindAt token roots entries position)
      (.str (idName kind)) with
  | none =>
      rw [added] at found
      exact absurd found nofun
  | some value =>
      rw [added] at found
      have set := addedAt_eq_some.mp added
      rcases addition_eq_some set with ⟨id', _, same⟩ | same
      · rw [(Prod.mk.inj same).2] at found
        rw [set, same, ← Option.some.inj found]
        rw [idEntry, Prod.mk.injEq] at same
        rw [idEntry, idEntry, same.1]
      · exact absurd (Prod.mk.inj same).1 (idName_ne_redaction kind)

theorem idEntry_injective {id other : OffloadKind × Text} (same : idEntry id = idEntry other) :
    id = other := by
  obtain ⟨names, values⟩ := Prod.mk.inj same
  have kinds : id.1 = other.1 := by
    have equal := Key.str.inj names
    revert equal
    cases id.1 <;> cases other.1 <;> decide
  exact Prod.ext kinds (ProtocolData.str.inj values)

theorem structuralEntry_eq_idEntry {pathKey : Text} {id : OffloadKind × Text}
    (same : structuralEntry token roots entries pathKey = idEntry id) :
    referenceOf token roots entries pathKey = some id ∨
      pathKey = filePathName ∧ isNone (valueOf entries pathKey) = true ∧
        existingLogicalId entries pathKey = some id := by
  rw [structuralEntry] at same
  split at same
  · next id' found =>
      rw [← idEntry_injective same]
      rcases Option.or_eq_some_iff.mp found with reference | ⟨_, existing⟩
      · exact Or.inl reference
      · split at existing
        · next file => exact Or.inr ⟨file.1, file.2, existing⟩
        · cases existing
  · exact absurd (Prod.mk.inj same).1.symm (idName_ne_redaction id.1)

theorem authoritative_value : Authoritative token roots .value entries := by
  intro internal kind id _ _ shown
  have offload : kindAt token roots entries .value = .offload := if_pos internal
  have added := addition_of_textOf (by
    intro key reserved
    rw [offload, drops, reserved, Bool.or_true]) shown
  rw [offload, addition, Option.some.injEq] at added
  rcases structuralEntry_eq_idEntry added with reference | ⟨file, _⟩
  · obtain ⟨path, pathEq, found, _⟩ := referenceOf_eq_some reference
    exact ⟨path, Or.inl pathEq, found⟩
  · exact absurd file (by decide)

theorem authoritative_payload : Authoritative token roots .payload entries := by
  intro internal kind id _ _ shown
  have added : addition token roots entries (kindAt token roots entries .payload) =
      some (idEntry (kind, id)) := addition_of_textOf (fun key reserved => reserved) shown
  have present : valueOf entries offloadPathName ≠ none := by
    intro absent
    rw [isInternalOffloadPath, absent] at internal
    exact absurd internal Bool.false_ne_true
  rw [kindAt, addition, if_neg fun all => present all.2.2] at added
  cases added

theorem authoritative_summary_iff :
    Authoritative token roots .summary entries ↔ Trusted token roots .summary entries := by
  constructor
  · intro authoritative internal file id existing
    obtain ⟨kind, _, text, shape⟩ := existingLogicalId_filePath_iff.mp existing
    have added : addition token roots entries (kindAt token roots entries .summary) =
        some (idEntry id) := by
      have noReference : referenceOf token roots entries filePathName = none := by
        rw [referenceOf, textOf_of_isNone file]
        rfl
      rw [kindAt, addition, structuralEntry, noReference, Option.none_or, if_pos ⟨rfl, file⟩,
        existing]
    rw [← kind] at text shape
    apply authoritative internal id.1 id.2 text shape
    rw [valueOf_projectMapping (isName_idName _), addedAt_eq_some.mpr added, Option.some_or]
    rfl
  · intro trusted internal kind id _ _ shown
    have added : addition token roots entries (kindAt token roots entries .summary) =
        some (idEntry (kind, id)) := by
      apply addition_of_textOf _ shown
      intro key reserved
      rw [kindAt, drops, reserved, Bool.or_true]
    rw [kindAt, addition, Option.some.injEq] at added
    rcases structuralEntry_eq_idEntry added with reference | ⟨_, file, existing⟩
    · obtain ⟨path, pathEq, found, _⟩ := referenceOf_eq_some reference
      exact ⟨path, Or.inr pathEq, found⟩
    · exact trusted internal file _ existing

theorem authoritative_content_iff {toolCallId : Option Text} :
    Authoritative token roots (.content toolCallId) entries ↔
      Trusted token roots (.content toolCallId) entries := by
  -- A block's own names are kept, and a logical id is not rewritten.
  have shown : ∀ kind id, textOf (valueOf entries (idName kind)) = some id →
      isLogicalId kind id = true →
      textOf (valueOf (projectMapping token roots (.content toolCallId) entries).entries
        (idName kind)) = some id := by
    intro kind id text shape
    rw [valueOf_projectMapping (isName_idName kind)]
    change textOf (Option.map _ (valueOf entries (idName kind))) = some id
    rw [textOf_project, text, Option.bind_some,
      projectOffloadString_of_clean (clean_of_isLogicalId shape)]
  constructor
  · intro authoritative internal kind id text shape
    exact authoritative internal kind id text shape (shown kind id text shape)
  · intro trusted internal kind id text shape _
    exact trusted internal kind id text shape

theorem authoritative_iff_trusted :
    Authoritative token roots position entries ↔ Trusted token roots position entries := by
  cases position with
  | content toolCallId => exact authoritative_content_iff
  | summary => exact authoritative_summary_iff
  | payload => exact ⟨fun _ _ => trivial, fun _ => authoritative_payload⟩
  | value =>
      refine ⟨fun _ internal => ?_, fun _ => authoritative_value⟩
      rw [kindAt, if_pos internal]
      trivial

/-- No string and no key holds a marker or a physical reference. -/
def LeakFree (roots : List Text) (data : ProtocolData) : Prop :=
  ∀ text, data.Holds text →
    containsInternalOffloadMarker text = false ∧ ¬ContainsPhysicalReference roots text

theorem leakFree_project : LeakFree roots (project token roots position data) :=
  fun _ holds => ⟨clean_project holds, not_containsPhysicalReference (clean_project holds)⟩

/-- Nothing leaks from a projected value.  Ids beside internal paths are the paths' own and a second
projection changes nothing exactly if no such id is trusted where the path is not looked at, and if
no mapping is read in a way in which it loses or gains an id when it is seen again. -/
theorem leakFree_authoritative_stable_iff (token : OffloadKind → Text → Token) (roots : List Text)
    (data : ProtocolData) :
    (LeakFree roots (projectOffloadEgressData token roots data) ∧
        (∀ first second entries, Read token roots .value .value data first second entries →
          Authoritative token roots first entries) ∧
        Same (projectOffloadEgressData token roots (projectOffloadEgressData token roots data))
          (projectOffloadEgressData token roots data)) ↔
      ∀ first second entries, Read token roots .value .value data first second entries →
        Trusted token roots first entries ∧ Settled token roots first second entries := by
  have replay := @same_project_iff token roots .value .value data
  rw [projectOffloadEgressData, projectOffloadEgressData, replay]
  constructor
  · rintro ⟨_, authoritative, kept⟩ first second entries read
    exact ⟨authoritative_iff_trusted.mp (authoritative first second entries read),
      kept_iff_settled.mp (kept first second entries read)⟩
  · intro holds
    refine ⟨leakFree_project, fun first second entries read => ?_,
      fun first second entries read => ?_⟩
    · exact authoritative_iff_trusted.mpr (holds first second entries read).1
    · exact kept_iff_settled.mpr (holds first second entries read).2

def zeroToken (_ : OffloadKind) (_ : Text) : Token where
  digits := List.replicate 24 '0'
  length := rfl
  hex char member := by
    rw [List.eq_of_mem_replicate member]
    rfl

def spilledBlock : Entries :=
  [(.str offloadPathName, .str "/large_tool_results/call_1".toList),
    (.str (idName .spill), .str "spill_aaaaaaaaaaaaaaaaaaaaaaaa".toList)]

def spilledMessage : ProtocolData :=
  .mapping [(.str "content".toList, .list [.mapping spilledBlock])]

/-- The id of another spill is shown for the block. -/
theorem not_authoritative_spilledMessage :
    ¬(LeakFree [] (projectOffloadEgressData zeroToken [] spilledMessage) ∧
        (∀ first second entries, Read zeroToken [] .value .value spilledMessage first second
          entries → Authoritative zeroToken [] first entries) ∧
        Same (projectOffloadEgressData zeroToken []
            (projectOffloadEgressData zeroToken [] spilledMessage))
          (projectOffloadEgressData zeroToken [] spilledMessage)) := by
  rintro ⟨_, authoritative, _⟩
  have survives : Survives zeroToken [] .value [(.str "content".toList,
      .list [.mapping spilledBlock])] (.str "content".toList) (.list [.mapping spilledBlock]) :=
    ⟨⟨[], [], rfl, nofun⟩, rfl, nofun⟩
  have read : Read zeroToken [] .value .value spilledMessage (.content none) (.content none)
      spilledBlock := .entry survives (.list List.mem_cons_self (.mapping _ _ _))
  obtain ⟨path, same, own⟩ := authoritative _ _ _ read rfl .spill
    "spill_aaaaaaaaaaaaaaaaaaaaaaaa".toList rfl rfl rfl
  rcases same with same | same
  · obtain rfl : "/large_tool_results/call_1".toList = path := Option.some.inj same
    exact absurd own (by decide)
  · have none : textOf (valueOf spilledBlock filePathName) = none := rfl
    rw [none] at same
    exact absurd same nofun

end NaturalMold.OffloadReplays

import NaturalMold.MergedConditions
import NaturalMold.CronExpressions

/-!
# The expiry of a grant as text

The projection of a grant that expires writes its start as a time and the rest as a length in
seconds, or in microseconds where that is not whole.
-/

namespace NaturalMold.StoredConditions

open Authz (ContextValue GrantRow Tuple TupleError conditionedTuple durationText expiryCondition
  instantText principalTuple runSourceCondition sortedContext)
open Conversations (Time)
open CronExpressions (Digits number)

section Writing

variable (reading : Reading) (value : String → Json)

def valueJson : ContextValue → Json
  | .instant time => .str (instantText time)
  | .duration micros => .str (durationText micros)
  | .strings items => .arr (items.map .str)
  | .json encoded => value encoded

def storedTuple (item : Tuple) : StoredTuple where
  toTupleKey := item.toTupleKey
  condition := item.condition.map fun condition =>
    ⟨condition.name,
      reading.dumps (condition.context.map fun field => (field.1, valueJson value field.2))⟩

def expiryFields (granted length : ℕ) : List (String × Json) :=
  [("grant_duration", .str (durationText length)), ("grant_time", .str (instantText granted))]

theorem storedTuple_expiry {row : GrantRow} {now finish : Time} {produced : List Tuple}
    (expires : row.expiresAt = some finish) (projected : principalTuple row now = .ok produced)
    {item : Tuple} (member : item ∈ produced) :
    row.grantedAt < finish ∧ (storedTuple reading value item).condition =
      some ⟨expiryCondition,
        reading.dumps (expiryFields row.grantedAt (finish - row.grantedAt))⟩ := by
  rw [principalTuple, expires] at projected
  cases named : row.conditionName with
  | some name =>
      rw [named] at projected
      exact absurd projected (by simp)
  | none =>
      rw [named] at projected
      simp only at projected
      split at projected
      · obtain rfl := Except.ok.inj projected
        exact absurd member List.not_mem_nil
      · rename_i later
        obtain rfl := Except.ok.inj projected
        obtain rfl := List.mem_singleton.mp member
        have order : ¬ finish ≤ row.grantedAt := fun early => later (Or.inr early)
        refine ⟨Nat.lt_of_not_le order, ?_⟩
        have sorted : sortedContext [("grant_time", .instant row.grantedAt),
            ("grant_duration", .duration (finish - row.grantedAt))] =
              [("grant_duration", .duration (finish - row.grantedAt)),
                ("grant_time", .instant row.grantedAt)] := by
          have names : ¬ "grant_time" ≤ "grant_duration" := by decide
          rw [sortedContext, List.insertionSort_cons, List.insertionSort_cons,
            List.insertionSort_nil, List.orderedInsert_nil, List.orderedInsert_cons,
            if_neg names, List.orderedInsert_nil]
        rw [storedTuple, conditionedTuple, sorted]
        rfl

end Writing

structure ReadsExpiry (reading : Reading) (model : ConditionModel) (granted length : ℕ) : Prop where
  loads : reading.loads (reading.dumps (expiryFields granted length)) = expiryFields granted length
  start : reading.fromisoformat (instantText granted) = some ⟨granted, some 0⟩
  int : ∀ number : ℕ, reading.int (Nat.toDigits 10 number) = some (number : ℤ)
  timestamp : model.timestamp (.str (instantText granted)) = some ((granted : ℤ) * 1000)
  seconds : ∀ number : ℕ,
    model.duration (.str (toString number ++ "s")) = some ((number : ℤ) * 1000000000)
  micros : ∀ number : ℕ, model.duration (.str (toString number ++ "us")) =
    some ((number : ℤ) * 1000)

theorem toList_toString (number : ℕ) : (toString number).toList = Nat.toDigits 10 number := by
  simp [Nat.repr]

theorem digits_toDigits (number : ℕ) : Digits (Nat.toDigits 10 number) :=
  CronExpressions.digits_of_number (CronExpressions.number_toDigits number)

/-- A length in seconds does not end like one in microseconds. -/
theorem not_us_suffix (number : ℕ) :
    ¬ "us".toList.isSuffixOf (Nat.toDigits 10 number ++ ['s']) := by
  intro ending
  have suffix := List.isSuffixOf_iff_suffix.mp ending
  rw [List.suffix_concat_iff] at suffix
  rcases suffix with empty | ⟨front, frontEq, inDigits⟩
  · exact absurd empty (by decide)
  · have same : front ++ ['s'] = ['u'] ++ ['s'] := frontEq.symm
    obtain rfl := List.append_cancel_right same
    have digit := (digits_toDigits number).2 'u' (inDigits.subset List.mem_cons_self)
    exact absurd digit (by decide)

theorem us_suffix (number : ℕ) :
    "us".toList.isSuffixOf (Nat.toDigits 10 number ++ ['u', 's']) :=
  List.isSuffixOf_iff_suffix.mpr (List.suffix_append _ _)

theorem durationText_cases (length : ℕ) :
    (∃ seconds, length = seconds * 1000000 ∧ durationText length = toString seconds ++ "s") ∨
      durationText length = toString length ++ "us" := by
  rw [durationText]
  split
  · rename_i whole
    exact Or.inl ⟨length / 1000000, by omega, rfl⟩
  · exact Or.inr rfl

section ReadBack

variable {reading : Reading} {model : ConditionModel} {granted length : ℕ} {item : StoredTuple}

theorem contextOf_expiry (reads : ReadsExpiry reading model granted length)
    (written : item.condition =
      some ⟨expiryCondition, reading.dumps (expiryFields granted length)⟩) :
    contextOf reading item = expiryFields granted length := by
  rw [contextOf, written, Option.map_some, Option.getD_some, reads.loads]

theorem lookup_grant_time :
    (expiryFields granted length).lookup "grant_time" = some (.str (instantText granted)) :=
  rfl

theorem lookup_grant_duration :
    (expiryFields granted length).lookup "grant_duration" = some (.str (durationText length)) :=
  rfl

theorem expiryEnd_of_written (strText : ∀ text, reading.str (.str text) = text)
    (reads : ReadsExpiry reading model granted length) (inRange : granted + length < endOfDates)
    (written : item.condition =
      some ⟨expiryCondition, reading.dumps (expiryFields granted length)⟩) :
    expiryEnd reading item = some ⟨granted + length, some 0⟩ := by
  have later : (⟨granted, some 0⟩ : Stamp).plus length = some ⟨granted + length, some 0⟩ := by
    rw [Stamp.plus, if_pos ⟨by simp only; omega, inRange⟩]
  rw [expiryEnd, contextOf_expiry reads written]
  simp only [lookup_grant_time, lookup_grant_duration, strText, reads.start, Option.bind_eq_bind,
    Option.bind_some]
  rcases durationText_cases length with ⟨seconds, lengthEq, text⟩ | text
  · rw [text, String.toList_append, toList_toString]
    have last : "s".toList = ['s'] := rfl
    rw [last, if_neg (not_us_suffix seconds), List.dropLast_concat, reads.int, Option.bind_some]
    have micros : (seconds : ℤ) * 1000000 = length := by
      rw [lengthEq]
      push_cast
      rfl
    rw [micros]
    exact later
  · rw [text, String.toList_append, toList_toString]
    have last : "us".toList = ['u', 's'] := rfl
    have digits : (Nat.toDigits 10 length ++ ['u', 's']).dropLast.dropLast =
        Nat.toDigits 10 length := by simp [List.dropLast_append_of_ne_nil]
    rw [if_pos (by rw [last]; exact us_suffix length), last, digits, reads.int, Option.bind_some]
    exact later

/-- The store reads it too, to the nanosecond. -/
theorem grants_of_written (reads : ReadsExpiry reading model granted length)
    (written : item.condition =
      some ⟨expiryCondition, reading.dumps (expiryFields granted length)⟩) (now : ℤ)
    (source : String) :
    Grants reading model now source item ↔ now < (granted + length) * 1000 := by
  have lengthRead : model.duration (.str (durationText length)) = some ((length : ℤ) * 1000) := by
    rcases durationText_cases length with ⟨seconds, lengthEq, text⟩ | text
    · rw [text, reads.seconds, lengthEq, Option.some.injEq]
      push_cast
      rw [mul_assoc]
      rfl
    · rw [text, reads.micros]
  have finish : grantEnd reading model item = some ((granted + length) * 1000) := by
    rw [grantEnd, contextOf_expiry reads written, lookup_grant_time, lookup_grant_duration]
    simp only [Option.bind_some, reads.timestamp, lengthRead, Option.bind_eq_bind]
    rw [← add_mul]
    rfl
  have only : AllNamed expiryCondition [item] := fun other member =>
    List.mem_singleton.mp member ▸ ⟨_, written, rfl⟩
  rw [grants_expiry only List.mem_cons_self, finish]
  simp

end ReadBack

theorem add_sub_cast {start finish : ℕ} (order : start ≤ finish) :
    (start : ℤ) + ((finish - start : ℕ) : ℤ) = finish := by
  omega

/-- An expiry that the projection of a grant writes ends exactly with the grant, as the
merge reads it and as the store judges it. -/
def ExpiriesDenote (reading : Reading) (model : ConditionModel) : Prop :=
  ∀ (value : String → Json) (row : GrantRow) (now finish : Time) (produced : List Tuple),
    row.expiresAt = some finish → principalTuple row now = .ok produced →
    (finish : ℤ) < endOfDates →
    ReadsExpiry reading model row.grantedAt (finish - row.grantedAt) → ∀ item ∈ produced,
      expiryEnd reading (storedTuple reading value item) = some ⟨finish, some 0⟩ ∧
        ∀ at' source, Grants reading model at' source (storedTuple reading value item) ↔
          at' < (finish : ℤ) * 1000

theorem expiriesDenote {reading : Reading} {model : ConditionModel}
    (strText : ∀ text, reading.str (.str text) = text) : ExpiriesDenote reading model := by
  intro value row now finish produced expires projected inRange reads item member
  obtain ⟨order, written⟩ := storedTuple_expiry reading value expires projected member
  have whole := add_sub_cast order.le
  constructor
  · have ending := expiryEnd_of_written strText reads (by rw [whole]; exact inRange) written
    rwa [whole] at ending
  · intro instant source
    rw [grants_of_written reads written, whole]

/-- Merging a key is taking the union of what its tuples grant if and only if their
contexts are read as meant, and the expiries that grants are projected to end with the
grants. -/
theorem merge_takes_union {reading : Reading} {model : ConditionModel} {items : List StoredTuple}
    (strText : ∀ text, reading.str (.str text) = text)
    (readBack : SourcesReadBack reading items) (ofOne : OfOneKey items) :
    (MergesToUnion reading model items ↔ ReadsAsMeant reading model items) ∧
      ExpiriesDenote reading model :=
  ⟨mergesToUnion_iff_readsAsMeant strText readBack ofOne, expiriesDenote strText⟩

/-- `json.dumps` of texts and whole numbers, and of lists of them. -/
def scalarText : Json → String
  | .str text => Authz.jsonText text
  | .int number => toString number
  | _ => "null"

def valueText : Json → String
  | .arr items => "[" ++ ",".intercalate (items.map scalarText) ++ "]"
  | value => scalarText value

def contextText (context : List (String × Json)) : String :=
  "\x7b" ++ ",".intercalate (context.map fun field =>
    Authz.jsonText field.1 ++ ":" ++ valueText field.2) ++ "\x7d"

/-- Go's reading of a length in microseconds, seconds or hours. -/
def goDuration (text : List Char) : Option ℤ :=
  if "us".toList.isSuffixOf text then
    (number text.dropLast.dropLast).map fun micros => (micros : ℤ) * 1000
  else if text.getLast? = some 's' then
    (number text.dropLast).map fun seconds => (seconds : ℤ) * 1000000000
  else if text.getLast? = some 'h' then
    (number text.dropLast).map fun hours => (hours : ℤ) * 3600000000000
  else none

def givenExpiry (length : String) : List (String × Json) :=
  [("grant_duration", .str length), ("grant_time", .str (instantText 0))]

def mixedSources : List (String × Json) :=
  [("allowed_sources", .arr [.str "CHAT", .int 1])]

/-- The contexts whose texts are read back. -/
def knownContexts : List (List (String × Json)) :=
  [sourcesContext ["CHAT"], sourcesContext ["TRIGGER"], sourcesContext ["CHAT", "TRIGGER"],
    mixedSources, sourcesContext ["CHAT", "TRIGGER", "1"], givenExpiry "2h", givenExpiry "60s",
    expiryFields 0 500000]

def sampleReading : Reading where
  loads text := (knownContexts.find? fun context => contextText context = text).getD []
  dumps := contextText
  str
    | .str text => text
    | .int number => toString number
    | _ => "None"
  fromisoformat text := if text = instantText 0 then some ⟨0, some 0⟩ else none
  int text := (number text).map Int.ofNat

def sampleModel : ConditionModel where
  timestamp
    | .str text => if text = instantText 0 then some 0 else none
    | _ => none
  duration
    | .str text => goDuration text.toList
    | _ => none
  other _ _ := false

theorem sampleReading_str (text : String) : sampleReading.str (.str text) = text :=
  rfl

theorem sampleReading_expiry : ReadsExpiry sampleReading sampleModel 0 500000 where
  loads := by
    rfl
  start := by
    rfl
  int := by
    intro value
    change (number _).map Int.ofNat = _
    rw [CronExpressions.number_toDigits]
    rfl
  timestamp := by
    rfl
  seconds := by
    intro value
    change goDuration (toString value ++ "s").toList = _
    have last : "s".toList = ['s'] := rfl
    rw [goDuration, String.toList_append, toList_toString, last, if_neg (not_us_suffix value),
      if_pos (by simp), List.dropLast_concat, CronExpressions.number_toDigits]
    rfl
  micros := by
    intro value
    change goDuration (toString value ++ "us").toList = _
    have last : "us".toList = ['u', 's'] := rfl
    have digits : (Nat.toDigits 10 value ++ ['u', 's']).dropLast.dropLast =
        Nat.toDigits 10 value := by simp [List.dropLast_append_of_ne_nil]
    rw [goDuration, String.toList_append, toList_toString,
      if_pos (by rw [last]; exact us_suffix value), last, digits, CronExpressions.number_toDigits]
    rfl

/-- A grant on an agent or a server that brings its condition with it. -/
def givenRow (kind : ObjectKind) (principal : Authz.PrincipalType) (name : String)
    (context : List (String × ContextValue)) : GrantRow where
  id := 1
  orgId := 2
  resourceType := kind
  resourceId := 3
  relation := .consumer
  principalType := principal
  principalId := 4
  grantedAt := 0
  state := .active
  grantKind := .share
  conditionName := some name
  conditionContext := some context
  expiresAt := none
  tenantId := none

/-- A user's use of an agent for a given length. -/
def expiryRow (length : String) : GrantRow :=
  givenRow .agent .user expiryCondition
    [("grant_duration", .json ("\"" ++ length ++ "\"")), ("grant_time", .instant 0)]

/-- An agent's use of a server from given sources. -/
def sourceRow (sources : ContextValue) : GrantRow :=
  givenRow .mcpServer .agent runSourceCondition [("allowed_sources", sources)]

def mixedValue : ContextValue :=
  .json "[\"CHAT\",1]"

/-- `json.loads` of the values in these contexts. -/
def sampleValue (encoded : String) : Json :=
  if encoded = "[\"CHAT\",1]" then .arr [.str "CHAT", .int 1]
  else .str (String.ofList encoded.toList.tail.dropLast)

def storedOf (rows : List GrantRow) : List StoredTuple :=
  rows.flatMap fun row =>
    ((Authz.tuplesFor (.grant row) 0).toOption.getD []).map
      (storedTuple sampleReading sampleValue)

def givenExpiries : List StoredTuple :=
  storedOf [expiryRow "2h", expiryRow "60s"]

def givenSources : List StoredTuple :=
  storedOf [sourceRow mixedValue, sourceRow (.strings ["TRIGGER"])]

def listedGrants : List StoredTuple :=
  storedOf [sourceRow (.strings ["TRIGGER"]), sourceRow (.strings ["CHAT"])]

theorem ofOneKey_of_all {items : List StoredTuple}
    (keys : (items.all fun first => items.all fun second =>
      decide (first.toTupleKey = second.toTupleKey)) = true)
    (names : (items.all fun item => item.condition.all fun condition =>
      decide (condition.name ≠ "")) = true) : OfOneKey items where
  oneKey := by
    simpa only [List.all_eq_true, decide_eq_true_eq] using keys
  named := by
    intro item member condition conditionEq
    have named := List.all_eq_true.mp names item member
    rw [conditionEq] at named
    exact of_decide_eq_true named

theorem allNamed_of_all {items : List StoredTuple} {name : String}
    (names : (items.all fun item => item.condition.any fun condition =>
      decide (condition.name = name)) = true) : AllNamed name items := by
  intro item member
  obtain ⟨condition, conditionEq, named⟩ :=
    (Option.any_eq_true _ _).mp (List.all_eq_true.mp names item member)
  exact ⟨condition, conditionEq, of_decide_eq_true named⟩

/-- Two delegations of a server, and a grant that expires within its first second. -/
theorem merge_takes_union_listed :
    (MergesToUnion sampleReading sampleModel listedGrants ↔
        ReadsAsMeant sampleReading sampleModel listedGrants) ∧
      ∀ produced, principalTuple { expiryRow "" with
          conditionName := none, conditionContext := none, expiresAt := some 500000 } 0 =
            .ok produced → ∀ item ∈ produced, ∀ now source,
        Grants sampleReading sampleModel now source (storedTuple sampleReading sampleValue item) ↔
          now < 500000 * 1000 := by
  have readBack : SourcesReadBack sampleReading listedGrants := by rfl
  have ofOne : OfOneKey listedGrants := ofOneKey_of_all (by decide) (by decide)
  have whole : _ ∧ ExpiriesDenote sampleReading sampleModel :=
    merge_takes_union sampleReading_str readBack ofOne
  refine ⟨whole.1, fun produced projected item member => ?_⟩
  exact (whole.2 sampleValue _ 0 500000 produced rfl projected (by decide) sampleReading_expiry item
    member).2

/-- Two hours are read as two seconds: sixty seconds stay of them. -/
theorem givenExpiries_not_union : ¬ MergesToUnion sampleReading sampleModel givenExpiries := by
  intro merges
  have merged : mergeTuples sampleReading givenExpiries = .ok (storedOf [expiryRow "60s"]) := by
    rfl
  have all : AllNamed expiryCondition givenExpiries := allNamed_of_all (by decide)
  have allMerged : AllNamed expiryCondition (storedOf [expiryRow "60s"]) :=
    allNamed_of_all (by decide)
  have first : (givenExpiries.get ⟨0, by decide⟩) ∈ givenExpiries := List.get_mem _ _
  have long : grantEnd sampleReading sampleModel (givenExpiries.get ⟨0, by decide⟩) =
      some 7200000000000 := by rfl
  have short : ((storedOf [expiryRow "60s"]).all fun item =>
      decide (grantEnd sampleReading sampleModel item = some 60000000000)) = true := by
    decide
  obtain ⟨item, member, grants⟩ := (merges.union _ merged 3600000000000 "").mpr
    ⟨_, first, (grants_expiry all first _ _).mpr ⟨_, long, by decide⟩⟩
  obtain ⟨finish, finishEq, later⟩ := (grants_expiry allMerged member _ _).mp grants
  rw [of_decide_eq_true (List.all_eq_true.mp short item member), Option.some.injEq] at finishEq
  omega

/-- A name beside a number is taken for one of the sources. -/
theorem givenSources_not_union : ¬ MergesToUnion sampleReading sampleModel givenSources := by
  intro merges
  have all : AllNamed runSourceCondition givenSources := allNamed_of_all (by decide)
  obtain ⟨merged, mergedEq⟩ : ∃ merged, mergeTuples sampleReading givenSources = .ok [merged] ∧
      AllNamed runSourceCondition [merged] ∧
      allowedNames sampleReading merged = some ["CHAT", "TRIGGER", "1"] :=
    ⟨_, by rfl, allNamed_of_all (by decide), by rfl⟩
  have none : (givenSources.all fun item =>
      decide (allowedNames sampleReading item ∈ [none, some ["TRIGGER"]])) = true := by
    decide
  obtain ⟨item, member, grants⟩ := (merges.union _ mergedEq.1 0 "CHAT").mp
    ⟨merged, List.mem_cons_self,
      (grants_source mergedEq.2.1 List.mem_cons_self _ _).mpr ⟨_, mergedEq.2.2, by decide⟩⟩
  obtain ⟨names, namesEq, listed⟩ := (grants_source all member _ _).mp grants
  have few := of_decide_eq_true (List.all_eq_true.mp none item member)
  rw [namesEq] at few
  rcases List.mem_pair.mp few with absent | single
  · exact absurd absent (by simp)
  · rw [Option.some.inj single] at listed
    exact absurd listed (by decide)

/-- Grants that bring their conditions with them merge into less, and into more, than
they grant. -/
theorem given_not_union :
    (OfOneKey givenExpiries ∧ ¬ MergesToUnion sampleReading sampleModel givenExpiries) ∧
      OfOneKey givenSources ∧ ¬ MergesToUnion sampleReading sampleModel givenSources :=
  ⟨⟨ofOneKey_of_all (by decide) (by decide), givenExpiries_not_union⟩,
    ofOneKey_of_all (by decide) (by decide), givenSources_not_union⟩

end NaturalMold.StoredConditions

import NaturalMold.FirstOccurrences
import NaturalMold.JsonValues
import NaturalMold.TupleMerge

/-!
# Conditions as they are stored

A stored condition is a name and the JSON text of its context, which a grant may bring with it. The
readings that belong to the language are left open.
-/

namespace NaturalMold.StoredConditions

open Authz (TupleError expiryCondition runSourceCondition runSources sortedNames)

/-- A condition: its name and its `context_json`. -/
structure StoredCondition where
  name : String
  contextJson : String
  deriving DecidableEq

abbrev StoredTuple := RelationTuple StoredCondition

/-- A `datetime`: its wall time in microseconds since the year 1, and its offset. -/
structure Stamp where
  wall : ℤ
  offset : Option ℤ
  deriving DecidableEq

def Stamp.instant (stamp : Stamp) : ℤ :=
  stamp.wall - stamp.offset.getD 0

/-- The first microsecond behind the year 9999. -/
def endOfDates : ℤ :=
  315537897600000000

/-- A later `datetime`, if there is one. -/
def Stamp.plus (stamp : Stamp) (micros : ℤ) : Option Stamp :=
  if 0 ≤ stamp.wall + micros ∧ stamp.wall + micros < endOfDates then
    some { stamp with wall := stamp.wall + micros }
  else none

/-- What the language reads and writes: `json.loads` of an object, `json.dumps` with
sorted keys, `str` of a value, `datetime.fromisoformat` and `int`. -/
structure Reading where
  loads : String → List (String × Json)
  dumps : List (String × Json) → String
  str : Json → String
  fromisoformat : String → Option Stamp
  int : List Char → Option ℤ

section Merging

variable (reading : Reading)

/-- `Condition.context`. -/
def contextOf (item : StoredTuple) : List (String × Json) :=
  (item.condition.map fun condition => reading.loads condition.contextJson).getD []

/-- `_expiry_end`; `none` when it raises. -/
def expiryEnd (item : StoredTuple) : Option Stamp := do
  let context := contextOf reading item
  let start ← reading.fromisoformat (reading.str (← context.lookup "grant_time"))
  let duration := (reading.str (← context.lookup "grant_duration")).toList
  if "us".toList.isSuffixOf duration then
    start.plus (← reading.int duration.dropLast.dropLast)
  else
    start.plus ((← reading.int duration.dropLast) * 1000000)

/-- `_sources`. -/
def listedSources (item : StoredTuple) : List String :=
  match (contextOf reading item).lookup "allowed_sources" with
  | some (.arr items) => items.map reading.str
  | _ => []

/-- The order of tuples: object, relation, user, condition. -/
def sortKey (item : StoredTuple) : List String :=
  [item.object.text, item.relation, item.user.text,
    (item.condition.map StoredCondition.name).getD "",
    (item.condition.map StoredCondition.contextJson).getD ""]

def distinctTuples (items : List StoredTuple) : List StoredTuple :=
  items.dedup.insertionSort fun first second => sortKey first ≤ sortKey second

def unitedSources (items : List StoredTuple) : List String :=
  let union := (items.flatMap (listedSources reading)).dedup
  runSources.filter union.contains ++
    (union.filter fun source => !runSources.contains source).insertionSort (· ≤ ·)

def sourcesContext (sources : List String) : List (String × Json) :=
  [("allowed_sources", .arr (sources.map .str))]

/-- The first tuple with the latest end; times with and without an offset do not
compare. -/
def latestExpiry (items : List StoredTuple) : Except TupleError StoredTuple :=
  match items.mapM (expiryEnd reading) with
  | none => .error .value
  | some ends =>
      if ∃ first ∈ ends, ∃ second ∈ ends, first.offset.isSome ≠ second.offset.isSome then
        .error .value
      else
        match items.find? fun item =>
            (expiryEnd reading item).any fun own => ends.all fun other =>
              other.instant ≤ own.instant with
        | some item => .ok item
        | none => .error .value

/-- `_merge_key` for more than one tuple. -/
def mergeSeveral (first : StoredTuple) (distinct : List StoredTuple) :
    Except TupleError StoredTuple :=
  let names := (distinct.filterMap fun item => item.condition.map StoredCondition.name).dedup
  if distinct.any fun item => item.condition.isNone then
    .ok { first with condition := none }
  else if names = [expiryCondition] then latestExpiry reading distinct
  else if names = [runSourceCondition] then
    let context := reading.dumps (sourcesContext (unitedSources reading distinct))
    .ok { first with condition := some ⟨runSourceCondition, context⟩ }
  else
    .error (.rule ("incompatible conditions " ++ sortedNames names ++ " for " ++
      first.user.text ++ " " ++ first.relation ++ " " ++ first.object.text))

/-- `_merge_key`; it is called with the tuples of one key. -/
def mergeKey (items : List StoredTuple) : Except TupleError StoredTuple :=
  match distinctTuples items with
  | [] => .error .value
  | [only] => .ok only
  | first :: second :: others => mergeSeveral reading first (first :: second :: others)

def mergeTuples (items : List StoredTuple) : Except TupleError (List StoredTuple) := do
  let keys := (items.map fun item => item.toTupleKey).eraseDups
  let merged ← keys.mapM fun key =>
    mergeKey reading (items.filter fun item => item.toTupleKey = key)
  return merged.insertionSort fun first second => sortKey first ≤ sortKey second

end Merging

structure OfOneKey (items : List StoredTuple) : Prop where
  oneKey : ∀ first ∈ items, ∀ second ∈ items, first.toTupleKey = second.toTupleKey
  named : ∀ item ∈ items, ∀ condition, item.condition = some condition → condition.name ≠ ""

def Several (items : List StoredTuple) : Prop :=
  ∃ first ∈ items, ∃ second ∈ items, first ≠ second

section Distinct

variable {items other : List StoredTuple}

theorem mem_distinctTuples {item : StoredTuple} : item ∈ distinctTuples items ↔ item ∈ items := by
  rw [distinctTuples, List.mem_insertionSort, List.mem_dedup]

theorem tuple_ext {first second : StoredTuple} (key : first.toTupleKey = second.toTupleKey)
    (condition : first.condition = second.condition) : first = second := by
  cases first
  cases second
  cases key
  cases condition
  rfl

theorem sortKey_injective (ofOne : OfOneKey items) {first second : StoredTuple}
    (firstMember : first ∈ items) (secondMember : second ∈ items)
    (same : sortKey first = sortKey second) : first = second := by
  apply tuple_ext (ofOne.oneKey first firstMember second secondMember)
  simp only [sortKey, List.cons.injEq, and_true] at same
  obtain ⟨_, _, _, name, json⟩ := same
  cases firstEq : first.condition with
  | none =>
      cases secondEq : second.condition with
      | none => rfl
      | some condition =>
          rw [firstEq, secondEq] at name
          exact absurd name.symm (ofOne.named second secondMember condition secondEq)
  | some condition =>
      cases secondEq : second.condition with
      | none =>
          rw [firstEq, secondEq] at name
          exact absurd name (ofOne.named first firstMember condition firstEq)
      | some condition' =>
          rw [firstEq, secondEq] at name json
          cases condition
          cases condition'
          cases name
          cases json
          rfl

/-- The different tuples are strictly in order. -/
theorem distinctTuples_pairwise (ofOne : OfOneKey items) :
    (distinctTuples items).Pairwise fun first second =>
      sortKey first ≤ sortKey second ∧ ¬ sortKey second ≤ sortKey first := by
  have nodup : (distinctTuples items).Nodup :=
    (List.perm_insertionSort _ _).nodup_iff.mpr (List.nodup_dedup items)
  have sorted : (distinctTuples items).Pairwise fun first second =>
      sortKey first ≤ sortKey second := List.pairwise_insertionSort _ _
  apply (sorted.and nodup).imp_of_mem
  intro first second firstMember secondMember both
  refine ⟨both.1, fun back => both.2 ?_⟩
  exact sortKey_injective ofOne (mem_distinctTuples.mp firstMember)
    (mem_distinctTuples.mp secondMember) (le_antisymm both.1 back)

theorem distinctTuples_perm (ofOne : OfOneKey items) (perm : other.Perm items) :
    distinctTuples other = distinctTuples items := by
  apply FirstOccurrences.insertionSort_eq_of_perm
  · exact perm.dedup.trans (List.perm_insertionSort _ _).symm
  · exact distinctTuples_pairwise ofOne

/-- The order of the tuples of one key does not matter. -/
theorem mergeKey_perm (reading : Reading) (ofOne : OfOneKey items) (perm : other.Perm items) :
    mergeKey reading other = mergeKey reading items := by
  rw [mergeKey, mergeKey, distinctTuples_perm ofOne perm]

theorem OfOneKey.perm (ofOne : OfOneKey items) (perm : other.Perm items) : OfOneKey other where
  oneKey := fun first firstMember second secondMember =>
    ofOne.oneKey first (perm.mem_iff.mp firstMember) second (perm.mem_iff.mp secondMember)
  named := fun item member => ofOne.named item (perm.mem_iff.mp member)

theorem mergeTuples_of_oneKey (reading : Reading)
    (oneKey : ∀ first ∈ items, ∀ second ∈ items, first.toTupleKey = second.toTupleKey)
    (present : items ≠ []) :
    mergeTuples reading items = (mergeKey reading items).map fun merged => [merged] := by
  obtain ⟨item, rest, rfl⟩ := List.exists_cons_of_ne_nil present
  have others : ∀ other ∈ item :: rest, other.toTupleKey = item.toTupleKey :=
    fun other member => oneKey other member item List.mem_cons_self
  have keys : ((item :: rest).map fun other => other.toTupleKey).eraseDups =
      [item.toTupleKey] := by
    have same : (rest.map fun other => other.toTupleKey).filter
        (fun key => !key == item.toTupleKey) = [] := by
      rw [List.filter_eq_nil_iff]
      intro key member
      obtain ⟨other, otherMember, rfl⟩ := List.mem_map.mp member
      simp [others other (List.mem_cons_of_mem _ otherMember)]
    rw [List.map_cons, List.eraseDups_cons, same, List.eraseDups_nil]
  have all : (item :: rest).filter (fun other => other.toTupleKey = item.toTupleKey) =
      item :: rest := List.filter_eq_self.mpr fun other member =>
    decide_eq_true (others other member)
  rw [mergeTuples, keys, List.mapM_cons, List.mapM_nil, all]
  cases mergeKey reading (item :: rest) with
  | error error => rfl
  | ok merged => rfl

end Distinct

end NaturalMold.StoredConditions

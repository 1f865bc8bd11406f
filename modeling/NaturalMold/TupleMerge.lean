import NaturalMold.KeyedDifferences
import NaturalMold.TupleProjection
import Mathlib.Data.List.Lex
import Mathlib.Data.String.Basic

/-!
# Merging tuples that share a key

The store keeps one tuple per key while several rows may project it.
-/

namespace NaturalMold.Authz

open Conversations (Time)
open Fallible KeyedDifferences

private def padded (width number : ℕ) : String :=
  String.ofList ((Nat.toDigits 10 number).leftpad width '0')

/-- Year, month and day, for days counted from 0001-01-01. -/
def calendarDate (day : ℕ) : ℕ × ℕ × ℕ :=
  -- Years are counted from March, in eras of four centuries.
  let shifted := day + 306
  let dayOfEra := shifted % 146097
  let yearOfEra := (dayOfEra - dayOfEra / 1460 + dayOfEra / 36524 - dayOfEra / 146096) / 365
  let dayOfYear := dayOfEra - (365 * yearOfEra + yearOfEra / 4 - yearOfEra / 100)
  let march := (5 * dayOfYear + 2) / 153
  let month := if march < 10 then march + 3 else march - 9
  (yearOfEra + shifted / 146097 * 400 + (if month ≤ 2 then 1 else 0), month,
    dayOfYear - (153 * march + 2) / 5 + 1)

/-- `isoformat` of a time in UTC, counted in microseconds, with `Z` for the
offset. -/
def instantText (time : Time) : String :=
  let (year, month, day) := calendarDate (time / 86400000000)
  let seconds := time / 1000000 % 86400
  let micros := time % 1000000
  padded 4 year ++ "-" ++ padded 2 month ++ "-" ++ padded 2 day ++ "T" ++
    padded 2 (seconds / 3600) ++ ":" ++ padded 2 (seconds / 60 % 60) ++ ":" ++
    padded 2 (seconds % 60) ++ (if micros = 0 then "" else "." ++ padded 6 micros) ++ "Z"

/-- `_duration`: in seconds, or in microseconds when that is not whole. -/
def durationText (micros : ℕ) : String :=
  if micros % 1000000 = 0 then toString (micros / 1000000) ++ "s" else toString micros ++ "us"

private def unicodeEscape (code : ℕ) : String :=
  "\\u" ++ String.ofList ((Nat.toDigits 16 code).leftpad 4 '0')

def jsonCharacter (char : Char) : String :=
  match char.toNat with
  | 34 => "\\\""
  | 92 => "\\\\"
  | 10 => "\\n"
  | 13 => "\\r"
  | 9 => "\\t"
  | 12 => "\\f"
  | 8 => "\\b"
  | code =>
      if 32 ≤ code ∧ code < 127 then String.singleton char
      else if code < 65536 then unicodeEscape code
      else
        unicodeEscape (55296 + (code - 65536) / 1024) ++
          unicodeEscape (56320 + (code - 65536) % 1024)

def jsonText (text : String) : String :=
  "\"" ++ String.join (text.toList.map jsonCharacter) ++ "\""

def ContextValue.text : ContextValue → String
  | instant time => jsonText (instantText time)
  | duration micros => jsonText (durationText micros)
  | strings items => "[" ++ ",".intercalate (items.map jsonText) ++ "]"
  | json encoded => encoded

/-- The encoding of the context, its fields being sorted. -/
def Condition.contextJson (condition : Condition) : String :=
  "\x7b" ++ ",".intercalate (condition.context.map fun field =>
    jsonText field.1 ++ ":" ++ field.2.text) ++ "\x7d"

/-- The order of tuples: object, relation, user, condition. -/
def sortKey (item : Tuple) : List String :=
  [item.object.text, item.relation, item.user.text, (item.condition.map Condition.name).getD "",
    (item.condition.map Condition.contextJson).getD ""]

def expiryEnd (item : Tuple) : Except TupleError Time :=
  let context := (item.condition.map Condition.context).getD []
  match context.lookup "grant_time", context.lookup "grant_duration" with
  | some (.instant start), some (.duration micros) => .ok (start + micros)
  | _, _ => .error .value

def allowedSources (item : Tuple) : List String :=
  match ((item.condition.map Condition.context).getD []).lookup "allowed_sources" with
  | some (.strings sources) => sources
  | _ => []

def latestExpiry (items : List Tuple) : Except TupleError Tuple := do
  let ends ← items.mapM expiryEnd
  match (items.zip ends).find? fun entry => entry.2 = ends.foldr max 0 with
  | some entry => return entry.1
  | none => throw .value

/-- All allowed sources, those that the product knows first. -/
def unitedSources (items : List Tuple) : List String :=
  let union := (items.flatMap allowedSources).dedup
  runSources.filter union.contains ++
    (union.filter fun source => !runSources.contains source).insertionSort (· ≤ ·)

/-- `_merge_key`; it is called with the tuples of one key. -/
def mergeKey (items : List Tuple) : Except TupleError Tuple :=
  match items.dedup.insertionSort fun first second => sortKey first ≤ sortKey second with
  | [] => .error .value
  | [only] => .ok only
  | first :: others =>
      let distinct := first :: others
      let names := (distinct.filterMap fun item => item.condition.map Condition.name).dedup
      if distinct.any fun item => item.condition.isNone then
        .ok (plainTuple first.user first.relation first.object)
      else if names = [expiryCondition] then latestExpiry distinct
      else if names = [runSourceCondition] then
        .ok (conditionedTuple first.user first.relation first.object runSourceCondition
          [("allowed_sources", .strings (unitedSources distinct))])
      else
        .error (.rule ("incompatible conditions " ++ sortedNames names ++ " for " ++
          first.user.text ++ " " ++ first.relation ++ " " ++ first.object.text))

/-- Identical tuples collapse to one. -/
theorem mergeKey_of_all_eq {items : List Tuple} {item : Tuple} (present : items ≠ [])
    (all : ∀ other ∈ items, other = item) : mergeKey items = .ok item := by
  have dedupEq : items.dedup = [item] := by
    rw [List.eq_replicate_of_mem all, List.replicate_dedup]
    exact (List.length_pos_iff.mpr present).ne'
  rw [mergeKey, dedupEq]
  rfl

def mergeTuples (items : List Tuple) : Except TupleError (List Tuple) := do
  let keys := (items.map fun item => item.toTupleKey).eraseDups
  let merged ← keys.mapM fun key => mergeKey (items.filter fun item => item.toTupleKey = key)
  return merged.insertionSort fun first second => sortKey first ≤ sortKey second

theorem mergeKey_of_coherent {items : List Tuple}
    (coherent : Coherent RelationTuple.toTupleKey items) {item : Tuple} (member : item ∈ items) :
    mergeKey (items.filter fun other => other.toTupleKey = item.toTupleKey) = .ok item := by
  apply mergeKey_of_all_eq
  · exact List.ne_nil_of_mem (List.mem_filter.mpr ⟨member, by simp⟩)
  · intro other otherMember
    rw [List.mem_filter, decide_eq_true_eq] at otherMember
    exact coherent other otherMember.1 item member otherMember.2

private theorem mapM_mergeKey {items : List Tuple}
    (coherent : Coherent RelationTuple.toTupleKey items) {keys : List TupleKey}
    (taken : ∀ key ∈ keys, ∃ item ∈ items, item.toTupleKey = key) :
    ∃ merged : List Tuple,
      keys.mapM (fun key => mergeKey (items.filter fun item => item.toTupleKey = key)) =
          .ok merged ∧
        ∀ item, item ∈ merged ↔ item ∈ items ∧ item.toTupleKey ∈ keys := by
  induction keys with
  | nil => exact ⟨[], rfl, by simp⟩
  | cons key keys ih =>
      obtain ⟨item, member, rfl⟩ := taken key List.mem_cons_self
      obtain ⟨merged, mergedEq, mem_merged⟩ :=
        ih fun other otherMember => taken other (List.mem_cons_of_mem _ otherMember)
      refine ⟨item :: merged, ?_, ?_⟩
      · rw [List.mapM_cons, mergeKey_of_coherent coherent member, mergedEq]
        rfl
      · intro other
        rw [List.mem_cons, List.mem_cons, mem_merged]
        constructor
        · rintro (rfl | ⟨otherMember, taken⟩)
          · exact ⟨member, .inl rfl⟩
          · exact ⟨otherMember, .inr taken⟩
        · rintro ⟨otherMember, same | taken⟩
          · exact .inl (coherent other otherMember item member same)
          · exact .inr ⟨otherMember, taken⟩

theorem mergeTuples_of_coherent {items : List Tuple}
    (coherent : Coherent RelationTuple.toTupleKey items) :
    ∃ merged, mergeTuples items = .ok merged ∧ ∀ item, item ∈ merged ↔ item ∈ items := by
  have taken : ∀ key ∈ (items.map fun item => item.toTupleKey).eraseDups,
      ∃ item ∈ items, item.toTupleKey = key := by
    intro key member
    exact List.mem_map.mp (List.mem_eraseDups.mp member)
  obtain ⟨merged, mergedEq, mem_merged⟩ := mapM_mergeKey coherent taken
  refine ⟨merged.insertionSort fun first second => sortKey first ≤ sortKey second, ?_, ?_⟩
  · rw [mergeTuples, mergedEq]
    rfl
  · intro item
    rw [List.mem_insertionSort, mem_merged, List.mem_eraseDups]
    exact ⟨And.left, fun member => ⟨member, List.mem_map_of_mem member⟩⟩

theorem lookup_mergeTuples {items merged : List Tuple}
    (coherent : Coherent RelationTuple.toTupleKey items)
    (mergedEq : mergeTuples items = .ok merged) (key : TupleKey) :
    lookup RelationTuple.toTupleKey merged key = lookup RelationTuple.toTupleKey items key := by
  obtain ⟨_, sameEq, mem_merged⟩ := mergeTuples_of_coherent coherent
  obtain rfl := Except.ok.inj (mergedEq.symm.trans sameEq)
  apply lookup_congr _ coherent
  · exact fun item _ => mem_merged item
  · exact coherent.subset fun item => (mem_merged item).mp

end NaturalMold.Authz

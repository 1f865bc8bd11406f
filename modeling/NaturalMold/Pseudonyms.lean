import Mathlib.Data.List.Sort
import NaturalMold.OrderedDictionaries
import NaturalMold.PythonText
import NaturalMold.PseudonymTokens
import NaturalMold.GuardrailActions

/-!
# The pseudonyms of a conversation

A conversation remembers what stands for which value: a numbered token or, for people, a made-up
Korean name.
-/

namespace NaturalMold.Guardrails

/-- `[가-힣]` -/
def isHangul (char : Char) : Bool :=
  '가' ≤ char && char ≤ '힣'

/-- `[가-힣]{2,4}` -/
def IsName (text : Text) : Prop :=
  2 ≤ text.length ∧ text.length ≤ 4 ∧ text.all isHangul

instance (text : Text) : Decidable (IsName text) :=
  inferInstanceAs (Decidable (_ ∧ _ ∧ _))

def surnames : Text := "김이박최정강조윤장임한오서신권황안송류홍".toList

/-- Given names by whether the last syllable has a final consonant. -/
def givenNames : Bool → List Text
  | false => ["준호".toList, "서아".toList, "예주".toList, "지호".toList, "도우".toList,
      "시아".toList, "태오".toList, "윤서".toList, "서후".toList, "아라".toList]
  | true => ["지훈".toList, "현준".toList, "서진".toList, "민준".toList, "하린".toList,
      "예린".toList, "도현".toList, "유진".toList, "태윤".toList, "가온".toList]

def hasBatchim (syllable : Char) : Bool :=
  ((syllable.toNat : Int) - 0xAC00) % 28 ≠ 0

/-- Made-up names shaped like a value, in a stable order. -/
def naturalCandidates (value : Text) : List Text :=
  match value.getLast? with
  | none => []
  | some last =>
      let given := givenNames (hasBatchim last)
      if value.length = 3 then
        given.flatMap fun name => surnames.map fun surname => surname :: name
      else if value.length = 2 then
        given.flatMap fun name => surnames.map fun surname => surname :: name.getLast?.toList
      else []

/-- What may follow a given name that stands as a word. -/
def followers : List Text :=
  ["에게서".toList, "한테서".toList, "이라고".toList, "이라는".toList, "이에요".toList,
    "입니다".toList, "에게".toList, "에서".toList, "한테".toList, "께서".toList, "이랑".toList,
    "하고".toList, "처럼".toList, "같이".toList, "까지".toList, "부터".toList, "보다".toList,
    "마저".toList, "조차".toList, "밖에".toList, "라고".toList, "라는".toList, "이고".toList,
    "이며".toList, "이나".toList, "이든".toList, "이야".toList, "예요".toList, "으로".toList,
    "이요".toList, "씨".toList, "님".toList, "께".toList, "랑".toList, "로".toList, "와".toList,
    "과".toList, "의".toList, "도".toList, "만".toList, "은".toList, "는".toList, "이".toList,
    "가".toList, "을".toList, "를".toList, "나".toList, "야".toList, "아".toList, "에".toList,
    "요".toList]

/-- The lookahead `_WORD_END`. -/
def endsWord : Text → Bool
  | [] => true
  | char :: rest =>
      followers.any (fun follower => follower.isPrefixOf (char :: rest)) ||
        PythonText.isSpace char || ",.!?)]'\"’”:;~".toList.contains char

def givenNameMatcher (given replacement : Text) : TextSubstitution.Matcher Char :=
  fun before text =>
    if before.any isHangul = false ∧ given <+: text ∧ endsWord (text.drop given.length) then
      some (given.length - 1, replacement)
    else none

/-- A stored pseudonym, with its value decrypted. -/
structure PseudonymRow where
  token : Text
  entity : String
  digest : Text
  value : Text
  deriving DecidableEq

/-- The company-keyed digest that finds an existing pseudonym. -/
def valueDigest (hmacHex : Text → Text) (entity : String) (value : Text) : Text :=
  (hmacHex (keyedMessage entity value)).take 16

structure Pseudonyms where
  byDigest : OrderedDict Text Text := .empty
  byToken : OrderedDict Text Text := .empty
  entities : OrderedDict Text String := .empty
  counters : OrderedDict String Nat := .empty
  /-- Made-up names with the values they stand for. -/
  natural : OrderedDict Text Text := .empty
  /-- Issued since the last write. -/
  unsaved : List PseudonymRow := []

namespace Pseudonyms

def count (state : Pseudonyms) (entity : String) : Nat :=
  (state.counters.get? entity).getD 0

def remember (state : Pseudonyms) (row : PseudonymRow) : Pseudonyms :=
  { state with
    byDigest := state.byDigest.set row.digest row.token
    byToken := state.byToken.set row.token row.value
    entities := state.entities.set row.token row.entity
    counters :=
      match fullToken row.token with
      | some parts =>
          state.counters.set row.entity
            (max (state.count row.entity) (Nat.ofDigitChars 10 parts.2 0))
      | none => state.counters
    natural :=
      match fullToken row.token with
      | some _ => state.natural
      | none => state.natural.set row.token row.value }

/-- The map that a conversation's stored rows make. -/
def load (rows : List PseudonymRow) : Pseudonyms :=
  rows.foldl remember {}

/-- Names that a new made-up name must not be. -/
def taken (state : Pseudonyms) (value : Text) : List Text :=
  state.byToken.keys ++ state.byToken.entries.map Prod.snd ++ [value]

/-- A made-up name that is new to the map and to the text. -/
def naturalFor (state : Pseudonyms) (value context : Text) : Option Text :=
  if IsName value then
    let taken := state.taken value
    let given := (taken.filter fun name => name.length = 3).map (List.drop 1)
    (naturalCandidates value).find? fun candidate =>
      !(decide (candidate ∈ taken) || decide (candidate <:+: context)) &&
        !(decide (candidate.length = 3) &&
          (decide (candidate.drop 1 ∈ given) || decide (candidate.drop 1 <:+: context)))
  else none

/-- A new pseudonym and the map that has counted it. -/
def issue (state : Pseudonyms) (style : PseudonymStyle) (context : Text) (entity : String)
    (value : Text) : Text × Pseudonyms :=
  let made :=
    if style = .natural ∧ entity = "PERSON" then state.naturalFor value context else none
  match made with
  | some name => (name, state)
  | none =>
      let number := state.count entity + 1
      (Guardrails.token entity number,
        { state with counters := state.counters.set entity number })

/-- What stands for a value.  A value that is itself a made-up name stays: a
second pass must not replace what the first one put in. -/
def tokenFor (hmacHex : Text → Text) (style : PseudonymStyle) (context : Text)
    (entity : String) (value : Text) (state : Pseudonyms) : Text × Pseudonyms :=
  if value ∈ state.natural.keys then (value, state)
  else
    let digest := valueDigest hmacHex entity value
    match state.byDigest.get? digest with
    | some existing => (existing, state)
    | none =>
        let issued := state.issue style context entity value
        let row : PseudonymRow := ⟨issued.1, entity, digest, value⟩
        let next := issued.2.remember row
        (issued.1, { next with unsaved := next.unsaved ++ [row] })

def keeps (state : Pseudonyms) (keep : String → Bool) (token : Text) : Bool :=
  (state.entities.get? token).any keep

/-- Put the value of one made-up name back, and its given name alone. -/
def restoreName (state : Pseudonyms) (keep : String → Bool) (text : Text)
    (entry : Text × Text) : Text :=
  if state.keeps keep entry.1 then text
  else
    let text := PythonText.replace entry.1 entry.2 text
    if entry.1.length = 3 ∧ entry.2.length = 3 then
      TextSubstitution.substitute (givenNameMatcher (entry.1.drop 1) (entry.2.drop 1)) text
    else text

/-- Longer names come first, names of one length in the order of the map. -/
def namesInOrder (state : Pseudonyms) : List (Text × Text) :=
  state.natural.entries.insertionSort fun first second => second.1.length ≤ first.1.length

def restoreNatural (state : Pseudonyms) (keep : String → Bool) (text : Text) : Text :=
  state.namesInOrder.foldl (state.restoreName keep) text

/-- What a token is replaced by; an unknown one stays. -/
def swap (state : Pseudonyms) (keep : String → Bool) (token : Text) : Text :=
  match state.byToken.get? token with
  | none => token
  | some value => if state.keeps keep token then token else value

/-- Every issued pseudonym back to its value, except for entities that are kept. -/
def restore (state : Pseudonyms) (keep : String → Bool) (text : Text) : Text :=
  let text := state.restoreNatural keep text
  if ['<', '<'] <:+: text then substituteTokens (state.swap keep) text else text

end Pseudonyms

end NaturalMold.Guardrails

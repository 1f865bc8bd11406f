import Mathlib.Data.List.Sort
import Mathlib.Data.Nat.Notation
import NaturalMold.OrderedDictionaries

/-! # JavaScript values -/

namespace NaturalMold

/-- A number is given by the text that JavaScript writes for it. -/
inductive JsValue
  | null
  | bool (value : Bool)
  | number (text : String)
  | string (value : String)
  | array (items : List JsValue)
  | object (fields : List (String × JsValue))

namespace JsValue

def codeUnits (char : Char) : List ℕ :=
  if char.toNat < 0x10000 then [char.toNat]
  else
    [0xD800 + (char.toNat - 0x10000) / 0x400, 0xDC00 + (char.toNat - 0x10000) % 0x400]

def utf16 (text : String) : List ℕ :=
  text.toList.flatMap codeUnits

/-- The order of `<` on strings, of their code units. -/
def notAfter : List ℕ → List ℕ → Bool
  | [], _ => true
  | _ :: _, [] => false
  | first :: firsts, second :: seconds =>
      first < second || (first = second && notAfter firsts seconds)

/-- A character in a string that `JSON.stringify` writes. -/
def quotedChar (char : Char) : String :=
  match char.toNat with
  | 8 => "\\b"
  | 9 => "\\t"
  | 10 => "\\n"
  | 12 => "\\f"
  | 13 => "\\r"
  | 34 => "\\\""
  | 92 => "\\\\"
  | code =>
      if code < 32 then "\\u00" ++ String.ofList [(code / 16).digitChar, (code % 16).digitChar]
      else char.toString

def quoted (text : String) : String :=
  "\"" ++ String.join (text.toList.map quotedChar) ++ "\""

def sortEntries {Value : Type*} (entries : List (String × Value)) : List (String × Value) :=
  entries.insertionSort fun first second => notAfter (utf16 first.1) (utf16 second.1)

mutual

/-- `String(value)`. -/
def toText : JsValue → String
  | null => "null"
  | bool value => if value then "true" else "false"
  | number text => text
  | string value => value
  | array items => String.intercalate "," (itemTexts items)
  | object _ => "[object Object]"

/-- `join` writes nothing for `null`. -/
def itemTexts : List JsValue → List String
  | [] => []
  | null :: items => "" :: itemTexts items
  | item :: items => toText item :: itemTexts items

end

/-- The white space that `trim` removes. -/
def isWhiteSpace (char : Char) : Bool :=
  [9, 10, 11, 12, 13, 32, 160, 5760, 8192, 8193, 8194, 8195, 8196, 8197, 8198, 8199, 8200, 8201,
    8202, 8232, 8233, 8239, 8287, 12288, 65279].contains char.toNat

/-- `value.trim().length > 0`. -/
def hasText (value : String) : Bool :=
  value.toList.any fun char => !isWhiteSpace char

mutual

def same : JsValue → JsValue → Bool
  | null, null => true
  | bool value, bool other => value = other
  | number text, number other => text = other
  | string value, string other => value = other
  | array items, array others => sameItems items others
  | object fields, object others => sameFields fields others
  | _, _ => false

def sameItems : List JsValue → List JsValue → Bool
  | [], [] => true
  | item :: items, other :: others => same item other && sameItems items others
  | _, _ => false

def sameFields : List (String × JsValue) → List (String × JsValue) → Bool
  | [], [] => true
  | (name, value) :: fields, (otherName, other) :: others =>
      name = otherName && same value other && sameFields fields others
  | _, _ => false

end

mutual

theorem eq_of_same : ∀ {value other : JsValue}, same value other = true → value = other
  | null, null, _ => rfl
  | bool _, bool _, equal => congrArg bool (of_decide_eq_true equal)
  | number _, number _, equal => congrArg number (of_decide_eq_true equal)
  | string _, string _, equal => congrArg string (of_decide_eq_true equal)
  | array _, array _, equal => congrArg array (eq_of_sameItems equal)
  | object _, object _, equal => congrArg object (eq_of_sameFields equal)

theorem eq_of_sameItems :
    ∀ {items others : List JsValue}, sameItems items others = true → items = others
  | [], [], _ => rfl
  | item :: items, other :: others, equal => by
      rw [sameItems, Bool.and_eq_true] at equal
      rw [eq_of_same equal.1, eq_of_sameItems equal.2]

theorem eq_of_sameFields :
    ∀ {fields others : List (String × JsValue)}, sameFields fields others = true → fields = others
  | [], [], _ => rfl
  | (name, value) :: fields, (otherName, other) :: others, equal => by
      rw [sameFields, Bool.and_eq_true, Bool.and_eq_true] at equal
      rw [of_decide_eq_true equal.1.1, eq_of_same equal.1.2, eq_of_sameFields equal.2]

end

mutual

theorem same_refl : ∀ value : JsValue, same value value = true
  | null => rfl
  | bool _ => decide_eq_true rfl
  | number _ => decide_eq_true rfl
  | string _ => decide_eq_true rfl
  | array items => sameItems_refl items
  | object fields => sameFields_refl fields

theorem sameItems_refl : ∀ items : List JsValue, sameItems items items = true
  | [] => rfl
  | item :: items => by rw [sameItems, same_refl item, sameItems_refl items]; rfl

theorem sameFields_refl : ∀ fields : List (String × JsValue), sameFields fields fields = true
  | [] => rfl
  | (name, value) :: fields => by
      rw [sameFields, same_refl value, sameFields_refl fields, decide_eq_true rfl]; rfl

end

end JsValue

/-- The own properties of an object. -/
abbrev JsObject := OrderedDict String JsValue

namespace JsObject

/-- `\x7b ...object, ...source \x7d`. -/
def spread (object source : JsObject) : JsObject :=
  source.entries.foldl (fun object entry => object.set entry.1 entry.2) object

theorem spread_get? (object source : JsObject) (key : String) :
    (spread object source).get? key = (source.get? key).or (object.get? key) := by
  have general : ∀ (entries : List (String × JsValue)) (object : JsObject),
      (entries.foldl (fun object entry => object.set entry.1 entry.2) object).get? key =
        (OrderedDict.lookupEntry key entries.reverse).or (object.get? key) := by
    intro entries
    induction entries with
    | nil => exact fun object => rfl
    | cons entry entries ih =>
        intro object
        rw [List.foldl_cons, ih, OrderedDict.get?_set, List.reverse_cons,
          OrderedDict.lookupEntry_append, Option.or_assoc]
        by_cases same : key = entry.1
        · rw [if_pos same, OrderedDict.lookupEntry, if_pos same.symm]
          rfl
        · rw [if_neg same, OrderedDict.lookupEntry, if_neg (Ne.symm same)]
          rfl
  rw [spread, general, ← OrderedDict.get?_ofEntries, OrderedDict.get?_ofEntries_entries]

/-- The fields that a test on the name keeps. -/
def filterKeys (object : JsObject) (keep : String → Bool) : JsObject where
  entries := object.entries.filter fun entry => keep entry.1
  nodup := object.nodup.sublist (List.filter_sublist.map Prod.fst)

def inheritedFunctions : List String :=
  ["constructor", "hasOwnProperty", "isPrototypeOf", "propertyIsEnumerable", "toLocaleString",
    "toString", "valueOf", "__defineGetter__", "__defineSetter__", "__lookupGetter__",
    "__lookupSetter__"]

/-- `object[key] ?? null`, or none for a function, which has no JSON text. -/
def property (object : JsObject) (key : String) : Option JsValue :=
  match object.get? key with
  | some value => some value
  | none =>
      if key ∈ inheritedFunctions then none
      else if key = "__proto__" then some (.object [])
      else some .null

end JsObject

end NaturalMold

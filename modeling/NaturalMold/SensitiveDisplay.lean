import NaturalMold.JavaScriptObjects

/-!
# Redacting what is displayed

The fields with a sensitive name are hidden, and so are the values that a text assigns to a
sensitive name and the tokens behind `Bearer`.
-/

namespace NaturalMold.SensitiveDisplay

/-- The words of a sensitive name, with an optional `_` or `-` before the second. -/
def sensitiveKeySource : List (List Char × Option (List Char)) :=
  [("password".toList, none), ("api".toList, some "key".toList), ("secret".toList, none),
    ("token".toList, none), ("access".toList, some "key".toList),
    ("refresh".toList, some "token".toList), ("client".toList, some "secret".toList),
    ("private".toList, some "key".toList)]

def safeTokenMetricKeys : List String :=
  ["cache_creation_tokens", "cache_read_tokens", "completion_tokens", "estimated_cost",
    "input_token_details", "input_tokens", "output_token_details", "output_tokens",
    "prompt_tokens", "total_tokens", "usage", "usage_metadata"]

def afterWord : List Char → List Char → Option (List Char)
  | [], text => some text
  | _ :: _, [] => none
  | letter :: word, char :: text => if char.toLower = letter then afterWord word text else none

def skipOne (accept : Char → Bool) : List Char → List Char
  | [] => []
  | char :: text => if accept char then text else char :: text

def afterSource (source : List Char × Option (List Char)) (text : List Char) :
    Option (List Char) :=
  match afterWord source.1 text, source.2 with
  | some rest, none => some rest
  | some rest, some word => afterWord word (skipOne (fun char => char = '_' || char = '-') rest)
  | none, _ => none

/-- `SENSITIVE_KEY_PATTERN.test(text)`. -/
def hasSensitiveKey (text : List Char) : Bool :=
  text.tails.any fun tail => sensitiveKeySource.any fun source => (afterSource source tail).isSome

def isSensitiveDisplayKey (key : String) : Bool :=
  !safeTokenMetricKeys.contains key && hasSensitiveKey key.toList

def isQuote (char : Char) : Bool :=
  char = '"' || char = '\''

/-- What `[^"',\x7d\]\s]` matches. -/
def isValueChar (char : Char) : Bool :=
  !(isQuote char || char = ',' || char = '\x7d' || char = ']' || JsValue.isWhiteSpace char)

def isAsciiAlphanumeric (char : Char) : Bool :=
  ('a' ≤ char && char ≤ 'z') || ('A' ≤ char && char ≤ 'Z') || ('0' ≤ char && char ≤ '9')

/-- What `[A-Za-z0-9._~+/=-]` matches. -/
def isTokenChar (char : Char) : Bool :=
  isAsciiAlphanumeric char || ['.', '_', '~', '+', '/', '=', '-'].contains char

/-- What `\w` matches. -/
def isWordChar (char : Char) : Bool :=
  isAsciiAlphanumeric char || char = '_'

/-- The text in which a value is hidden and what follows it, for a value that starts where
`text` has `rest` left. -/
def hideValue (text rest : List Char) (isValue : Char → Bool) :
    Option (List Char × List Char) :=
  if (rest.takeWhile isValue).isEmpty then none
  else some (text.take (text.length - rest.length) ++ "<redacted>".toList, rest.dropWhile isValue)

/-- `SENSITIVE_ASSIGNMENT_PATTERN` at the beginning of a text, with the replacement. -/
def assignmentAt (text : List Char) : Option (List Char × List Char) :=
  sensitiveKeySource.findSome? fun source =>
    match afterSource source text with
    | none => none
    | some name =>
        match (skipOne isQuote name).dropWhile JsValue.isWhiteSpace with
        | [] => none
        | sign :: value =>
            if sign = ':' ∨ sign = '=' then
              hideValue text (skipOne isQuote (value.dropWhile JsValue.isWhiteSpace)) isValueChar
            else none

/-- `BEARER_TOKEN_PATTERN` at the beginning of a text, with the replacement. -/
def bearerAt (text : List Char) : Option (List Char × List Char) :=
  match afterWord "bearer".toList text with
  | none => none
  | some behind =>
      if (behind.takeWhile JsValue.isWhiteSpace).isEmpty then none
      else hideValue text (behind.dropWhile JsValue.isWhiteSpace) isTokenChar

/-- `text.replace(pattern, …)` for a global pattern; `boundary` says whether it may match
behind a character.  A match is not empty, so that there are at most `fuel` steps. -/
def replaceAll (boundary : Option Char → Bool)
    (matchAt : List Char → Option (List Char × List Char)) :
    ℕ → Option Char → List Char → List Char
  | 0, _, text => text
  | _, _, [] => []
  | fuel + 1, previous, char :: text =>
      match if boundary previous then matchAt (char :: text) else none with
      | some (written, rest) =>
          written ++ replaceAll boundary matchAt fuel
            ((char :: text).take (text.length + 1 - rest.length)).getLast? rest
      | none => char :: replaceAll boundary matchAt fuel (some char) text

def redactSensitiveText (text : String) : String :=
  let assigned := replaceAll (fun _ => true) assignmentAt text.length none text.toList
  String.ofList
    (replaceAll (fun previous => !previous.any isWordChar) bearerAt assigned.length none assigned)

mutual

def redactSensitiveValue : JsValue → JsValue
  | .null => .null
  | .bool value => .bool value
  | .number text => .number text
  | .string value => .string (redactSensitiveText value)
  | .array items => .array (redactItems items)
  | .object fields => .object (redactFields fields)

def redactItems : List JsValue → List JsValue
  | [] => []
  | item :: items => redactSensitiveValue item :: redactItems items

def redactFields : List (String × JsValue) → List (String × JsValue)
  | [] => []
  | (name, value) :: fields =>
      (name,
        if isSensitiveDisplayKey name then .string "<redacted>" else redactSensitiveValue value)
        :: redactFields fields

end

theorem redactFields_names (fields : List (String × JsValue)) :
    (redactFields fields).map Prod.fst = fields.map Prod.fst := by
  induction fields with
  | nil => rfl
  | cons field fields ih =>
      rw [redactFields, List.map_cons, List.map_cons, ih]

def redactSensitiveRecord (args : JsObject) : JsObject where
  entries := redactFields args.entries
  nodup := by
    rw [redactFields_names]
    exact args.nodup

end NaturalMold.SensitiveDisplay

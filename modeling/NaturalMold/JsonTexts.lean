import NaturalMold.JavaScriptObjects

/-! # JSON texts -/

namespace NaturalMold.JsonTexts

inductive JsonText where
  | null
  | bool (value : Bool)
  | number (literal : List Char)
  | string (units : List ℕ)
  | array (items : List JsonText)
  | object (members : List (List ℕ × JsonText))

def isBlank (char : Char) : Bool :=
  char == ' ' || char == '\t' || char == '\n' || char == '\r'

def skipBlanks (text : List Char) : List Char :=
  text.dropWhile isBlank

def expect (word : List Char) (text : List Char) : Option (List Char) :=
  if word.isPrefixOf text then some (text.drop word.length) else none

def digits (text : List Char) : Option (List Char × List Char) :=
  match text.span Char.isDigit with
  | ([], _) => none
  | (read, rest) => some (read, rest)

def integer (text : List Char) : Option (List Char × List Char) :=
  match text with
  | '0' :: rest => some (['0'], rest)
  | _ => digits text

def fraction (text : List Char) : Option (List Char × List Char) :=
  match text with
  | '.' :: rest => (digits rest).map fun read => ('.' :: read.1, read.2)
  | _ => some ([], text)

def exponent (text : List Char) : Option (List Char × List Char) :=
  match text with
  | mark :: rest =>
      if mark = 'e' ∨ mark = 'E' then
        match rest with
        | sign :: later =>
            if sign = '+' ∨ sign = '-' then
              (digits later).map fun read => (mark :: sign :: read.1, read.2)
            else (digits rest).map fun read => (mark :: read.1, read.2)
        | [] => none
      else some ([], text)
  | [] => some ([], [])

def number (text : List Char) : Option (JsonText × List Char) :=
  let sign := text.takeWhile fun char => char == '-'
  if 1 < sign.length then none
  else
    match integer (text.drop sign.length) with
    | none => none
    | some (whole, afterWhole) =>
        match fraction afterWhole with
        | none => none
        | some (part, afterPart) =>
            (exponent afterPart).map fun power =>
              (.number (sign ++ whole ++ part ++ power.1), power.2)

def hexDigit (char : Char) : Option ℕ :=
  if char.isDigit then some (char.toNat - '0'.toNat)
  else if 'a' ≤ char ∧ char ≤ 'f' then some (char.toNat - 'a'.toNat + 10)
  else if 'A' ≤ char ∧ char ≤ 'F' then some (char.toNat - 'A'.toNat + 10)
  else none

def escaped (letter : Char) : Option ℕ :=
  match letter with
  | '"' => some 34
  | '\\' => some 92
  | '/' => some 47
  | 'b' => some 8
  | 'f' => some 12
  | 'n' => some 10
  | 'r' => some 13
  | 't' => some 9
  | _ => none

def stringUnits : List Char → Option (List ℕ × List Char)
  | [] => none
  | '"' :: rest => some ([], rest)
  | '\\' :: 'u' :: a :: b :: c :: d :: rest =>
      match [a, b, c, d].mapM hexDigit with
      | none => none
      | some values =>
          (stringUnits rest).map fun read =>
            (values.foldl (fun code value => code * 16 + value) 0 :: read.1, read.2)
  | '\\' :: letter :: rest =>
      match escaped letter with
      | none => none
      | some code => (stringUnits rest).map fun read => (code :: read.1, read.2)
  | char :: rest =>
      if char.toNat < 32 ∨ char = '\\' then none
      else (stringUnits rest).map fun read => (JsValue.codeUnits char ++ read.1, read.2)

mutual

def value : ℕ → List Char → Option (JsonText × List Char)
  | 0, _ => none
  | fuel + 1, text =>
      match skipBlanks text with
      | 'n' :: rest => (expect "ull".toList rest).map fun rest => (.null, rest)
      | 't' :: rest => (expect "rue".toList rest).map fun rest => (.bool true, rest)
      | 'f' :: rest => (expect "alse".toList rest).map fun rest => (.bool false, rest)
      | '"' :: rest => (stringUnits rest).map fun read => (.string read.1, read.2)
      | '[' :: rest =>
          match skipBlanks rest with
          | ']' :: rest => some (.array [], rest)
          | _ => (items fuel rest).map fun read => (.array read.1, read.2)
      | '\x7b' :: rest =>
          match skipBlanks rest with
          | '\x7d' :: rest => some (.object [], rest)
          | _ => (members fuel rest).map fun read => (.object read.1, read.2)
      | other => number other

def items : ℕ → List Char → Option (List JsonText × List Char)
  | 0, _ => none
  | fuel + 1, text =>
      match value fuel text with
      | none => none
      | some (first, rest) =>
          match skipBlanks rest with
          | ']' :: rest => some ([first], rest)
          | ',' :: rest => (items fuel rest).map fun read => (first :: read.1, read.2)
          | _ => none

def members : ℕ → List Char → Option (List (List ℕ × JsonText) × List Char)
  | 0, _ => none
  | fuel + 1, text =>
      match skipBlanks text with
      | '"' :: rest =>
          match stringUnits rest with
          | none => none
          | some (name, rest) =>
              match skipBlanks rest with
              | ':' :: rest =>
                  match value fuel rest with
                  | none => none
                  | some (first, rest) =>
                      match skipBlanks rest with
                      | '\x7d' :: rest => some ([(name, first)], rest)
                      | ',' :: rest =>
                          (members fuel rest).map fun read => ((name, first) :: read.1, read.2)
                      | _ => none
              | _ => none
      | _ => none

end

/-- `JSON.parse(text)`, without a result where it throws. -/
def parse (text : List Char) : Option JsonText :=
  match value (2 * text.length + 2) text with
  | none => none
  | some (read, rest) => if skipBlanks rest = [] then some read else none

example : parse ['[', '-', '1', ']'] = some (.array [.number ['-', '1']]) :=
  rfl

end NaturalMold.JsonTexts

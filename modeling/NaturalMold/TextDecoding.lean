import Mathlib.Data.Nat.Notation
import NaturalMold.Transducers

/-!
# Streaming UTF-8

A decoder reads bytes one at a time and emits characters; a byte that cannot continue a character
makes it emit a replacement character.
-/

namespace NaturalMold.TextDecoding

open Transducers (feed feed_append feed_cons feed_nil)

/-- Where the decoder stands inside a character. -/
structure Utf8 where
  codePoint : ℕ := 0
  bytesSeen : ℕ := 0
  bytesNeeded : ℕ := 0
  lowerBoundary : ℕ := 0x80
  upperBoundary : ℕ := 0xBF
  deriving DecidableEq

def replacement : Char :=
  Char.ofNat 0xFFFD

/-- A byte between two characters. -/
def leadByte (byte : ℕ) : Utf8 × List Char :=
  if byte ≤ 0x7F then ({}, [Char.ofNat byte])
  else if 0xC2 ≤ byte ∧ byte ≤ 0xDF then
    ({ codePoint := byte % 0x20, bytesNeeded := 1 }, [])
  else if 0xE0 ≤ byte ∧ byte ≤ 0xEF then
    ({ codePoint := byte % 0x10
       bytesNeeded := 2
       lowerBoundary := if byte = 0xE0 then 0xA0 else 0x80
       upperBoundary := if byte = 0xED then 0x9F else 0xBF }, [])
  else if 0xF0 ≤ byte ∧ byte ≤ 0xF4 then
    ({ codePoint := byte % 8
       bytesNeeded := 3
       lowerBoundary := if byte = 0xF0 then 0x90 else 0x80
       upperBoundary := if byte = 0xF4 then 0x8F else 0xBF }, [])
  else ({}, [replacement])

def utf8Step (state : Utf8) (byte : UInt8) : Utf8 × List Char :=
  let byte := byte.toNat
  if state.bytesNeeded = 0 then leadByte byte
  else if byte < state.lowerBoundary ∨ state.upperBoundary < byte then
    -- The byte is read again as the first of a character.
    let again := leadByte byte
    (again.1, replacement :: again.2)
  else
    let codePoint := state.codePoint * 64 + byte % 64
    if state.bytesSeen + 1 = state.bytesNeeded then ({}, [Char.ofNat codePoint])
    else
      ({ codePoint
         bytesSeen := state.bytesSeen + 1
         bytesNeeded := state.bytesNeeded }, [])

/-- A byte order mark at the start is not part of the text. -/
def markStep (seen : Bool) (char : Char) : Bool × List Char :=
  (true, if seen = false ∧ char.toNat = 0xFEFF then [] else [char])

/-- `new TextDecoder()`. -/
structure TextDecoder where
  utf8 : Utf8 := {}
  markSeen : Bool := false
  deriving DecidableEq

/-- `decoder.decode(chunk, { stream: true })`. -/
def TextDecoder.decode (decoder : TextDecoder) (chunk : List UInt8) : TextDecoder × List Char :=
  let decoded := feed utf8Step decoder.utf8 chunk
  let shown := feed markStep decoder.markSeen decoded.2
  ({ utf8 := decoded.1, markSeen := shown.1 }, shown.2)

def encode (text : List Char) : List UInt8 :=
  text.flatMap String.utf8EncodeChar

theorem leadByte_two {byte : ℕ} (low : 0xC2 ≤ byte) (high : byte ≤ 0xDF) :
    leadByte byte = ({ codePoint := byte % 0x20, bytesNeeded := 1 }, []) := by
  rw [leadByte, if_neg (by omega), if_pos ⟨low, high⟩]

theorem leadByte_three {byte : ℕ} (low : 0xE0 ≤ byte) (high : byte ≤ 0xEF) :
    leadByte byte =
      ({ codePoint := byte % 0x10
         bytesNeeded := 2
         lowerBoundary := if byte = 0xE0 then 0xA0 else 0x80
         upperBoundary := if byte = 0xED then 0x9F else 0xBF }, []) := by
  rw [leadByte, if_neg (by omega), if_neg (by omega), if_pos ⟨low, high⟩]

theorem leadByte_four {byte : ℕ} (low : 0xF0 ≤ byte) (high : byte ≤ 0xF4) :
    leadByte byte =
      ({ codePoint := byte % 8
         bytesNeeded := 3
         lowerBoundary := if byte = 0xF0 then 0x90 else 0x80
         upperBoundary := if byte = 0xF4 then 0x8F else 0xBF }, []) := by
  rw [leadByte, if_neg (by omega), if_neg (by omega), if_neg (by omega), if_pos ⟨low, high⟩]

theorem utf8Step_lead {byte : ℕ} (bounded : byte < 256) :
    utf8Step {} (UInt8.ofNat byte) = leadByte byte := by
  simp [utf8Step, Nat.mod_eq_of_lt bounded]

/-- A byte within the boundaries that is not the last one of its character. -/
theorem utf8Step_inner {state : Utf8} {byte : ℕ} (bounded : byte < 256)
    (low : state.lowerBoundary ≤ byte) (high : byte ≤ state.upperBoundary)
    (more : state.bytesSeen + 1 < state.bytesNeeded) :
    utf8Step state (UInt8.ofNat byte) =
      ({ codePoint := state.codePoint * 64 + byte % 64
         bytesSeen := state.bytesSeen + 1
         bytesNeeded := state.bytesNeeded }, []) := by
  have read : (UInt8.ofNat byte).toNat = byte := by simp [Nat.mod_eq_of_lt bounded]
  rw [utf8Step, read]
  dsimp only
  rw [if_neg (by omega), if_neg (by omega), if_neg (by omega)]

theorem utf8Step_last {state : Utf8} {byte : ℕ} (bounded : byte < 256)
    (low : state.lowerBoundary ≤ byte) (high : byte ≤ state.upperBoundary)
    (last : state.bytesSeen + 1 = state.bytesNeeded) :
    utf8Step state (UInt8.ofNat byte) =
      ({}, [Char.ofNat (state.codePoint * 64 + byte % 64)]) := by
  have read : (UInt8.ofNat byte).toNat = byte := by simp [Nat.mod_eq_of_lt bounded]
  rw [utf8Step, read]
  dsimp only
  rw [if_neg (by omega), if_neg (by omega), if_pos last]

theorem ofNat_of_eq (char : Char) {code : ℕ} (same : code = char.val.toNat) :
    Char.ofNat code = char := by
  subst same
  exact Char.ofNat_toNat char

theorem feed_utf8EncodeChar (char : Char) :
    feed utf8Step {} (String.utf8EncodeChar char) = ({}, [char]) := by
  have valid := char.valid
  have range : char.val.toNat < 0xD800 ∨
      0xDFFF < char.val.toNat ∧ char.val.toNat < 0x110000 := valid
  rw [String.utf8EncodeChar]
  by_cases one : char.val.toNat ≤ 127
  · rw [if_pos one, feed_cons, utf8Step_lead (by omega), leadByte, if_pos one, feed_nil,
      ofNat_of_eq char rfl]
    rfl
  · rw [if_neg one]
    by_cases two : char.val.toNat ≤ 2047
    · rw [if_pos two, feed_cons, utf8Step_lead (by omega),
        leadByte_two (by omega) (by omega)]
      dsimp only
      rw [feed_cons, utf8Step_last (by omega) (by dsimp only; omega) (by dsimp only; omega) rfl,
        ofNat_of_eq char (by dsimp only; omega)]
      rfl
    · rw [if_neg two]
      by_cases three : char.val.toNat ≤ 65535
      · rw [if_pos three, feed_cons, utf8Step_lead (by omega),
          leadByte_three (by omega) (by omega)]
        dsimp only
        have low : (if char.val.toNat / 4096 % 16 + 224 = 0xE0 then 0xA0 else 0x80) ≤
            char.val.toNat / 64 % 64 + 128 := by
          split <;> omega
        have high : char.val.toNat / 64 % 64 + 128 ≤
            (if char.val.toNat / 4096 % 16 + 224 = 0xED then 0x9F else 0xBF) := by
          split <;> omega
        rw [feed_cons, utf8Step_inner (by omega) low high (by dsimp only; omega)]
        dsimp only
        rw [feed_cons, utf8Step_last (by omega) (by dsimp only; omega) (by dsimp only; omega) rfl,
          ofNat_of_eq char (by dsimp only; omega)]
        rfl
      · rw [if_neg three, feed_cons, utf8Step_lead (by omega),
          leadByte_four (by omega) (by omega)]
        dsimp only
        have low : (if char.val.toNat / 262144 % 8 + 240 = 0xF0 then 0x90 else 0x80) ≤
            char.val.toNat / 4096 % 64 + 128 := by
          split <;> omega
        have high : char.val.toNat / 4096 % 64 + 128 ≤
            (if char.val.toNat / 262144 % 8 + 240 = 0xF4 then 0x8F else 0xBF) := by
          split <;> omega
        rw [feed_cons, utf8Step_inner (by omega) low high (by dsimp only; omega)]
        dsimp only
        rw [feed_cons, utf8Step_inner (by omega) (by dsimp only; omega) (by dsimp only; omega)
          (by dsimp only; omega)]
        dsimp only
        rw [feed_cons, utf8Step_last (by omega) (by dsimp only; omega) (by dsimp only; omega) rfl,
          ofNat_of_eq char (by dsimp only; omega)]
        rfl

theorem feed_encode (text : List Char) : feed utf8Step {} (encode text) = ({}, text) := by
  rw [encode, Transducers.feed_flatMap_of_returns utf8Step feed_utf8EncodeChar]
  simp

theorem feed_markStep_true (text : List Char) : feed markStep true text = (true, text) := by
  induction text with
  | nil => rfl
  | cons char text ih =>
      rw [feed_cons]
      simp [markStep, ih]

/-- A text that does not start with a byte order mark is shown whole. -/
theorem feed_markStep_false {text : List Char}
    (unmarked : ∀ char, text.head? = some char → char.toNat ≠ 0xFEFF) :
    (feed markStep false text).2 = text := by
  cases text with
  | nil => rfl
  | cons char text =>
      have plain := unmarked char rfl
      rw [feed_cons]
      simp [markStep, plain, feed_markStep_true]

theorem decode_encode {text : List Char}
    (unmarked : ∀ char, text.head? = some char → char.toNat ≠ 0xFEFF) :
    (TextDecoder.decode {} (encode text)).2 = text := by
  rw [TextDecoder.decode, feed_encode]
  exact feed_markStep_false unmarked

/-- Two chunks are decoded as the one they make up. -/
theorem decode_append (decoder : TextDecoder) (first second : List UInt8) :
    decoder.decode (first ++ second) =
      (((decoder.decode first).1.decode second).1,
        (decoder.decode first).2 ++ ((decoder.decode first).1.decode second).2) := by
  simp only [TextDecoder.decode, feed_append]

end NaturalMold.TextDecoding

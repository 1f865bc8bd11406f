import Mathlib.Data.List.Basic
import NaturalMold.TextSubstitution

/-! # Python text functions -/

namespace NaturalMold.PythonText

/-- Code points that `str.isspace` accepts, as closed ranges. -/
def spaceRanges : List (Nat × Nat) :=
  [(0x9, 0xd), (0x1c, 0x20), (0x85, 0x85), (0xa0, 0xa0), (0x1680, 0x1680), (0x2000, 0x200a),
    (0x2028, 0x2029), (0x202f, 0x202f), (0x205f, 0x205f), (0x3000, 0x3000)]

def isSpace (char : Char) : Bool :=
  spaceRanges.any fun range => range.1 ≤ char.toNat && char.toNat ≤ range.2

/-- `text.strip()`. -/
def strip (text : List Char) : List Char :=
  ((text.dropWhile isSpace).reverse.dropWhile isSpace).reverse

def afterPrefix? (start text : List Char) : Option (List Char) :=
  if start.isPrefixOf text then some (text.drop start.length) else none

theorem afterPrefix?_eq_some_iff {word text rest : List Char} :
    afterPrefix? word text = some rest ↔ text = word ++ rest := by
  rw [afterPrefix?]
  constructor
  · intro found
    split at found
    · next starts =>
        obtain ⟨rest', rfl⟩ := List.isPrefixOf_iff_prefix.mp starts
        rw [List.drop_left, Option.some.injEq] at found
        rw [found]
    · exact absurd found nofun
  · rintro rfl
    rw [if_pos (List.isPrefixOf_iff_prefix.mpr (List.prefix_append _ _)), List.drop_left]

theorem length_of_afterPrefix? {word text rest : List Char}
    (found : afterPrefix? word text = some rest) :
    text.length = word.length + rest.length := by
  rw [afterPrefix?_eq_some_iff.mp found, List.length_append]

/-- Delete every occurrence of a word, from the left; the counter says how many
code points of an occurrence are still to be skipped. -/
def removeWord (word : List Char) : Nat → List Char → List Char
  | _, [] => []
  | skipped + 1, _ :: text => removeWord word skipped text
  | 0, char :: text =>
      if word.isPrefixOf (char :: text) then removeWord word (word.length - 1) text
      else char :: removeWord word 0 text

/-- `text.replace(old, new)`; an empty `old` stands around every code point. -/
def replace (old new text : List Char) : List Char :=
  if old = [] then text.flatMap (fun char => new ++ [char]) ++ new
  else TextSubstitution.substitute (TextSubstitution.wordMatcher old new) text

def hexValue (char : Char) : Option Nat :=
  if '0' ≤ char ∧ char ≤ '9' then some (char.toNat - '0'.toNat)
  else if 'a' ≤ char ∧ char ≤ 'f' then some (char.toNat - 'a'.toNat + 10)
  else if 'A' ≤ char ∧ char ≤ 'F' then some (char.toNat - 'A'.toNat + 10)
  else none

/-- The 128-bit value of a UUID written in any of the accepted forms. -/
def parseUuid (text : List Char) : Option Nat :=
  let bare := removeWord "uuid:".toList 0 (removeWord "urn:".toList 0 text)
  let isBrace := fun char => char = '\x7b' || char = '\x7d'
  let inner := ((bare.dropWhile isBrace).reverse.dropWhile isBrace).reverse
  let digits := inner.filter fun char => char ≠ '-'
  if digits.length = 32 then
    (digits.mapM hexValue).map fun values => values.foldl (fun total value => 16 * total + value) 0
  else none

/-- A text ends where a character it does not have comes first. -/
theorem append_cons_cancel {mark : Char} {first second before after : List Char}
    (unmarked : mark ∉ first) (unmarked' : mark ∉ second)
    (same : first ++ mark :: before = second ++ mark :: after) :
    first = second ∧ before = after := by
  rcases List.append_eq_append_iff.mp same with ⟨more, rfl, rest⟩ | ⟨more, rfl, rest⟩
  · cases more with
    | nil => exact ⟨(List.append_nil first).symm, (List.cons.inj rest).2⟩
    | cons char more =>
        rw [List.cons_append, List.cons.injEq] at rest
        exact absurd (List.mem_append_right first (rest.1 ▸ List.mem_cons_self)) unmarked'
  · cases more with
    | nil => exact ⟨List.append_nil second, (List.cons.inj rest).2.symm⟩
    | cons char more =>
        rw [List.cons_append, List.cons.injEq] at rest
        exact absurd (List.mem_append_right second (rest.1 ▸ List.mem_cons_self)) unmarked

end NaturalMold.PythonText

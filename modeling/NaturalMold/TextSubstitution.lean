import Mathlib.Data.List.Infix

/-!
# Replacing what a pattern finds, from left to right

A matcher looks at a position of a text: at the symbol before it and at all that follows.
Substitution goes through the text from the left and replaces what the matcher finds; the search
goes on behind what was found.
-/

namespace NaturalMold.TextSubstitution

variable {Symbol : Type*}

/-- What is found at a position, given the symbol before it and the text from it
on: how many symbols after the first belong to it, and its replacement. -/
abbrev Matcher (Symbol : Type*) :=
  Option Symbol → List Symbol → Option (Nat × List Symbol)

def substituteFrom (matcher : Matcher Symbol) :
    Option Symbol → Nat → List Symbol → List Symbol
  | _, _, [] => []
  | _, skipped + 1, symbol :: text => substituteFrom matcher (some symbol) skipped text
  | before, 0, symbol :: text =>
      match matcher before (symbol :: text) with
      | some (more, replacement) =>
          replacement ++ substituteFrom matcher (some symbol) more text
      | none => symbol :: substituteFrom matcher (some symbol) 0 text

/-- Replace everything that the matcher finds. -/
def substitute (matcher : Matcher Symbol) (text : List Symbol) : List Symbol :=
  substituteFrom matcher none 0 text

def endOf : Option Symbol → List Symbol → Option Symbol
  | before, [] => before
  | _, symbol :: piece => endOf (some symbol) piece

theorem endOf_append (before : Option Symbol) (first second : List Symbol) :
    endOf before (first ++ second) = endOf (endOf before first) second := by
  induction first generalizing before with
  | nil => rfl
  | cons symbol first ih => exact ih (some symbol)

/-- Nothing is found at the positions of a piece, with the text after it in place. -/
def QuietIn (matcher : Matcher Symbol) : Option Symbol → List Symbol → List Symbol → Prop
  | _, [], _ => True
  | before, symbol :: piece, rest =>
      matcher before (symbol :: (piece ++ rest)) = none ∧
        QuietIn matcher (some symbol) piece rest

instance decidableQuietIn (matcher : Matcher Symbol) :
    ∀ before piece rest, Decidable (QuietIn matcher before piece rest)
  | _, [], _ => inferInstanceAs (Decidable True)
  | before, symbol :: piece, rest =>
      have := decidableQuietIn matcher (some symbol) piece rest
      have : Decidable (matcher before (symbol :: (piece ++ rest)) = none) :=
        decidable_of_iff _ Option.isNone_iff_eq_none
      inferInstanceAs (Decidable (_ ∧ _))

section Steps

variable {matcher : Matcher Symbol} {before : Option Symbol}

theorem quietIn_of_forall {piece rest : List Symbol}
    (nothing : ∀ first symbol last, piece = first ++ symbol :: last →
      matcher (endOf before first) (symbol :: (last ++ rest)) = none) :
    QuietIn matcher before piece rest := by
  induction piece generalizing before with
  | nil => trivial
  | cons symbol piece ih =>
      refine ⟨nothing [] symbol piece rfl, ih ?_⟩
      intro first next last split
      exact nothing (symbol :: first) next last (by rw [split, List.cons_append])

theorem substituteFrom_skipped (piece rest : List Symbol) :
    substituteFrom matcher before piece.length (piece ++ rest) =
      substituteFrom matcher (endOf before piece) 0 rest := by
  induction piece generalizing before with
  | nil => rfl
  | cons symbol piece ih =>
      rw [List.length_cons, List.cons_append, substituteFrom]
      exact ih

theorem substituteFrom_quiet {piece rest : List Symbol}
    (quiet : QuietIn matcher before piece rest) :
    substituteFrom matcher before 0 (piece ++ rest) =
      piece ++ substituteFrom matcher (endOf before piece) 0 rest := by
  induction piece generalizing before with
  | nil => rfl
  | cons symbol piece ih =>
      rw [List.cons_append, substituteFrom, quiet.1]
      exact congrArg (symbol :: ·) (ih quiet.2)

theorem substituteFrom_found {symbol : Symbol} {piece rest replacement : List Symbol}
    (found : matcher before (symbol :: (piece ++ rest)) = some (piece.length, replacement)) :
    substituteFrom matcher before 0 (symbol :: (piece ++ rest)) =
      replacement ++ substituteFrom matcher (endOf (some symbol) piece) 0 rest := by
  rw [substituteFrom, found]
  exact congrArg (replacement ++ ·) (substituteFrom_skipped piece rest)

end Steps

/-- Finds a word wherever it stands. -/
def wordMatcher [DecidableEq Symbol] (word replacement : List Symbol) : Matcher Symbol :=
  fun _ text => if word <+: text then some (word.length - 1, replacement) else none

/-- A part of a text: what it shows and, where it is found, what replaces it. -/
structure Part (Symbol : Type*) where
  shown : List Symbol
  found : Option (List Symbol)

namespace Part

def replaced (part : Part Symbol) : List Symbol :=
  part.found.getD part.shown

def text (parts : List (Part Symbol)) : List Symbol :=
  parts.flatMap Part.shown

def result (parts : List (Part Symbol)) : List Symbol :=
  parts.flatMap replaced

def Located (matcher : Matcher Symbol) : Option Symbol → List (Part Symbol) → Prop
  | _, [] => True
  | before, part :: parts =>
      (match part.found with
        | none => QuietIn matcher before part.shown (text parts)
        | some replacement =>
            part.shown ≠ [] ∧
              matcher before (part.shown ++ text parts) =
                some (part.shown.length - 1, replacement)) ∧
        Located matcher (endOf before part.shown) parts

instance decidableLocated [DecidableEq Symbol] (matcher : Matcher Symbol) :
    ∀ before parts, Decidable (Located matcher before parts)
  | _, [] => inferInstanceAs (Decidable True)
  | before, ⟨shown, none⟩ :: parts =>
      have := decidableLocated matcher (endOf before shown) parts
      inferInstanceAs (Decidable (QuietIn matcher before shown (text parts) ∧ _))
  | before, ⟨shown, some replacement⟩ :: parts =>
      have := decidableLocated matcher (endOf before shown) parts
      inferInstanceAs (Decidable ((shown ≠ [] ∧ matcher before (shown ++ text parts) =
        some (shown.length - 1, replacement)) ∧ _))

theorem substituteFrom_text {matcher : Matcher Symbol} {before : Option Symbol}
    {parts : List (Part Symbol)} (located : Located matcher before parts) :
    substituteFrom matcher before 0 (text parts) = result parts := by
  induction parts generalizing before with
  | nil => rfl
  | cons part parts ih =>
      obtain ⟨here, later⟩ := located
      have tail := ih later
      obtain ⟨shown, found⟩ := part
      cases found with
      | none =>
          calc
            substituteFrom matcher before 0 (shown ++ text parts)
                = shown ++ substituteFrom matcher (endOf before shown) 0 (text parts) :=
              substituteFrom_quiet here
            _ = shown ++ result parts := by rw [tail]
      | some replacement =>
          obtain ⟨nonempty, matched⟩ := here
          obtain ⟨symbol, piece, rfl⟩ := List.exists_cons_of_ne_nil nonempty
          calc
            substituteFrom matcher before 0 (symbol :: (piece ++ text parts))
                = replacement ++
                    substituteFrom matcher (endOf (some symbol) piece) 0 (text parts) :=
              substituteFrom_found matched
            _ = replacement ++ result parts := congrArg (replacement ++ ·) tail

/-- A text in parts, each quiet or found as a whole, is rewritten part by part. -/
theorem substitute_text {matcher : Matcher Symbol} {parts : List (Part Symbol)}
    (located : Located matcher none parts) : substitute matcher (text parts) = result parts :=
  substituteFrom_text located

end Part

theorem substitute_of_quiet {matcher : Matcher Symbol} {text : List Symbol}
    (quiet : QuietIn matcher none text []) : substitute matcher text = text := by
  have kept := substituteFrom_quiet quiet
  rwa [List.append_nil, substituteFrom, List.append_nil] at kept

end NaturalMold.TextSubstitution

import NaturalMold.TextSubstitution

/-!
# Replacing words by a marker

Every occurrence of a word is replaced by a marker, from left to right.
-/

namespace NaturalMold.MarkedReplacements

open TextSubstitution

variable {Symbol : Type*} {marker word other text : List Symbol}

def Clear (marker word : List Symbol) : Prop :=
  ∀ before after, word <:+: before ++ (marker ++ after) → word <:+: before ∨ word <:+: after

/-- A piece that a separator follows holds a word without the separator whole, or the word starts
behind the separator. -/
theorem infix_or_infix_of_separated {mark : Symbol} {before after : List Symbol}
    (unmarked : mark ∉ word) (found : word <:+: before ++ mark :: after) :
    word <:+: before ∨ word <:+: after := by
  obtain ⟨front, back, split⟩ := found
  rw [List.append_assoc] at split
  rcases List.append_eq_append_iff.mp split with ⟨more, rfl, rest⟩ | ⟨more, rfl, rest⟩
  · -- The word starts within the first piece, so it ends there.
    rcases List.append_eq_append_iff.mp rest with ⟨left, rfl, _⟩ | ⟨left, rfl, tail⟩
    · exact Or.inl ⟨front, left, by simp⟩
    · cases left with
      | nil => exact Or.inl ⟨front, [], by simp⟩
      | cons symbol left =>
          rw [List.cons_append, List.cons.injEq] at tail
          exact absurd (List.mem_append_right more (tail.1 ▸ List.mem_cons_self)) unmarked
  · cases more with
    | nil =>
        cases word with
        | nil => exact Or.inl List.nil_infix
        | cons symbol tail =>
            rw [List.nil_append, List.cons_append, List.cons.injEq] at rest
            exact absurd (rest.1 ▸ List.mem_cons_self) unmarked
    | cons symbol more =>
        rw [List.cons_append, List.cons.injEq] at rest
        exact Or.inr ⟨more, back, by rw [rest.2, List.append_assoc]⟩

theorem clear_of_bracketed {first last : Symbol} {inner : List Symbol} (notFirst : first ∉ word)
    (notLast : last ∉ word) (notInner : ¬word <:+: inner) :
    Clear (first :: (inner ++ [last])) word := by
  intro before after found
  rw [List.cons_append] at found
  rcases infix_or_infix_of_separated notFirst found with left | right
  · exact Or.inl left
  · rw [List.append_assoc] at right
    rcases infix_or_infix_of_separated notLast right with inside | behind
    · exact absurd inside notInner
    · exact Or.inr behind

inductive Rewritten (word marker : List Symbol) : List Symbol → List Symbol → Prop
  | kept {piece : List Symbol} (free : ¬word <:+: piece) : Rewritten word marker piece piece
  | found {piece rest result : List Symbol} (free : ¬word <:+: piece)
      (later : Rewritten word marker rest result) :
      Rewritten word marker (piece ++ (word ++ rest)) (piece ++ (marker ++ result))

theorem not_infix_of_earliest {piece rest : List Symbol} (nonempty : word ≠ [])
    (earliest : ∀ first symbol last, piece = first ++ symbol :: last →
      ¬word <+: symbol :: (last ++ rest)) : ¬word <:+: piece := by
  rintro ⟨front, back, rfl⟩
  obtain ⟨symbol, tail, rfl⟩ := List.exists_cons_of_ne_nil nonempty
  apply earliest front symbol (tail ++ back) (by simp)
  exact ⟨back ++ rest, by simp⟩

theorem Rewritten.exists_piece {result : List Symbol}
    (rewritten : Rewritten word marker text result)
    (clear : Clear marker other) (found : other <:+: result) :
    ∃ piece, other <:+: piece ∧ piece <:+: text ∧ ¬word <:+: piece := by
  induction rewritten with
  | kept free => exact ⟨_, found, List.infix_rfl, free⟩
  | @found piece rest result free _ ih =>
      rcases clear piece result found with inside | behind
      · exact ⟨piece, inside, (List.prefix_append _ _).isInfix, free⟩
      · obtain ⟨kept, present, within, without⟩ := ih behind
        refine ⟨kept, present, within.trans ?_, without⟩
        rw [← List.append_assoc]
        exact (List.suffix_append _ _).isInfix

section Replacement

variable [DecidableEq Symbol]

theorem exists_first_occurrence (present : word <:+: text) :
    ∃ piece rest, text = piece ++ (word ++ rest) ∧
      ∀ first symbol last, piece = first ++ symbol :: last →
        ¬word <+: symbol :: (last ++ (word ++ rest)) := by
  induction text with
  | nil =>
      obtain rfl := List.infix_nil.mp present
      exact ⟨[], [], rfl, by simp⟩
  | cons symbol text ih =>
      by_cases here : word <+: symbol :: text
      · obtain ⟨rest, split⟩ := here
        exact ⟨[], rest, split.symm, by simp⟩
      · have later : word <:+: text := (List.infix_cons_iff.mp present).resolve_left here
        obtain ⟨piece, rest, rfl, earliest⟩ := ih later
        refine ⟨symbol :: piece, rest, rfl, ?_⟩
        intro first next last split
        cases first with
        | nil =>
            rw [List.nil_append, List.cons.injEq] at split
            rwa [← split.1, ← split.2]
        | cons head first =>
            rw [List.cons_append, List.cons.injEq] at split
            exact earliest first next last split.2

theorem quietIn_wordMatcher {before : Option Symbol} {piece rest replacement : List Symbol}
    (earliest : ∀ first symbol last, piece = first ++ symbol :: last →
      ¬word <+: symbol :: (last ++ rest)) :
    QuietIn (wordMatcher word replacement) before piece rest :=
  quietIn_of_forall fun first symbol last split => if_neg (earliest first symbol last split)

/-- The result of a replacement is made of kept pieces and markers. -/
theorem rewritten_substitute (nonempty : word ≠ []) (text : List Symbol)
    (before : Option Symbol) :
    Rewritten word marker text (substituteFrom (wordMatcher word marker) before 0 text) := by
  induction length : text.length using Nat.strong_induction_on generalizing text before with
  | _ size ih =>
      by_cases present : word <:+: text
      · obtain ⟨piece, rest, rfl, earliest⟩ := exists_first_occurrence present
        rw [substituteFrom_quiet (quietIn_wordMatcher earliest)]
        have free := not_infix_of_earliest nonempty earliest
        obtain ⟨symbol, tail, rfl⟩ := List.exists_cons_of_ne_nil nonempty
        have matched : wordMatcher (symbol :: tail) marker (endOf before piece)
            (symbol :: (tail ++ rest)) = some (tail.length, marker) :=
          if_pos ⟨rest, rfl⟩
        rw [List.cons_append, substituteFrom_found matched]
        refine Rewritten.found free (ih rest.length ?_ rest _ rfl)
        rw [← length]
        simp only [List.length_append, List.length_cons]
        omega
      · have quiet : QuietIn (wordMatcher word marker) before text [] := by
          apply quietIn_wordMatcher
          rintro first symbol last rfl start
          apply present
          rw [List.append_nil] at start
          exact start.isInfix.trans (List.suffix_append _ _).isInfix
        have kept := substituteFrom_quiet quiet
        rw [List.append_nil, substituteFrom, List.append_nil] at kept
        rw [kept]
        exact Rewritten.kept present

/-- A replacement brings no new word into a text. -/
theorem not_infix_substitute (nonempty : word ≠ []) (clear : Clear marker other)
    (absent : ¬other <:+: text) :
    ¬other <:+: substitute (wordMatcher word marker) text := by
  intro found
  obtain ⟨piece, inside, within, _⟩ :=
    (rewritten_substitute nonempty text none).exists_piece clear found
  exact absent (inside.trans within)

/-- A replaced word is gone. -/
theorem not_infix_substitute_self (nonempty : word ≠ []) (clear : Clear marker word) :
    ¬word <:+: substitute (wordMatcher word marker) text := by
  intro found
  obtain ⟨piece, inside, _, without⟩ :=
    (rewritten_substitute nonempty text none).exists_piece clear found
  exact without inside

end Replacement

end NaturalMold.MarkedReplacements

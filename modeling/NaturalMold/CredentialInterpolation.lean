import Mathlib.Data.List.Infix
import NaturalMold.NestedValues
import NaturalMold.PythonText

/-!
# Credential interpolation

An expression is a text that starts with `=` and refers to the fields of a credential by
placeholders.
-/

namespace NaturalMold.CredentialInterpolation

open PythonText

abbrev Text := List Char

inductive Scalar (Object : Type) where
  | str (text : Text)
  | none
  | other (object : Object)

abbrev Value (Key Object : Type) := Nested Key (Scalar Object)

abbrev Credentials (Key Object : Type) := Text → Option (Value Key Object)

variable {Key Object : Type}

def isNameStart (char : Char) : Bool :=
  'A' ≤ char && char ≤ 'Z' || 'a' ≤ char && char ≤ 'z' || char = '_'

def isNameChar (char : Char) : Bool :=
  isNameStart char || '0' ≤ char && char ≤ '9'

/-- A match of `_PATTERN` without its first `=`, at the start of a text: the name, and the text
behind the match. -/
def matchBraces (text : Text) : Option (Text × Text) := do
  let opened ← afterPrefix? "\x7b\x7b".toList text
  let named ← afterPrefix? "$credentials.".toList (opened.dropWhile isSpace)
  let behind ← afterPrefix? "\x7d\x7d".toList
    ((named.dropWhile isNameChar).dropWhile isSpace)
  if (named.takeWhile isNameChar).head?.any isNameStart then
    some (named.takeWhile isNameChar, behind)
  else none

/-- `_PATTERN` at the start of a text.  A match is the only one there, so the whole text matches if
nothing is behind it. -/
def matchPattern (text : Text) : Option (Text × Text) :=
  matchBraces (if text.head? = some '=' then text.tail else text)

/-- The text of an `InterpolationError`. -/
def notSet (name : Text) : Text :=
  "credential field '".toList ++ name ++ "' is not set".toList

def lookup (credentials : Credentials Key Object) (name : Text) :
    Except Text (Value Key Object) :=
  (credentials name).elim (.error (notSet name)) .ok

/-- `str`, but nothing for `None`. -/
def asText (str : Value Key Object → Text) : Value Key Object → Text
  | .leaf (.str text) => text
  | .leaf .none => []
  | value => str value

theorem length_of_matchBraces {text : Text} {found : Text × Text}
    (matched : matchBraces text = some found) : found.2.length + 2 ≤ text.length := by
  simp only [matchBraces, Option.bind_eq_bind, Option.bind_eq_some_iff] at matched
  obtain ⟨opened, braces, named, reference, behind, closed, start⟩ := matched
  have first := length_of_afterPrefix? braces
  have second := length_of_afterPrefix? reference
  have third := length_of_afterPrefix? closed
  have spaces : (opened.dropWhile isSpace).length ≤ opened.length :=
    (List.dropWhile_sublist isSpace).length_le
  have rest : ((named.dropWhile isNameChar).dropWhile isSpace).length ≤ named.length :=
    ((List.dropWhile_sublist isSpace).trans (List.dropWhile_sublist isNameChar)).length_le
  have two : "\x7b\x7b".toList.length = 2 := rfl
  split at start
  · obtain rfl := Option.some.inj start
    dsimp only
    omega
  · exact absurd start nofun

theorem length_of_matchPattern {text : Text} {found : Text × Text}
    (matched : matchPattern text = some found) : found.2.length < text.length := by
  have shorter := length_of_matchBraces matched
  split at shorter
  · rw [List.length_tail] at shorter
    omega
  · omega

/-- `_PATTERN.sub(_substitute, template)`. -/
def sub (str : Value Key Object → Text) (credentials : Credentials Key Object) :
    Text → Except Text Text
  | [] => .ok []
  | char :: text =>
      match _matched : matchPattern (char :: text) with
      | some (name, behind) => do
          let value ← lookup credentials name
          let later ← sub str credentials behind
          .ok (asText str value ++ later)
      | none => do
          let later ← sub str credentials text
          .ok (char :: later)
termination_by template => template.length
decreasing_by
  · exact length_of_matchPattern _matched
  · exact Nat.lt_succ_self _

def resolve (str : Value Key Object → Text) (credentials : Credentials Key Object) :
    Value Key Object → Except Text (Value Key Object)
  | .leaf (.str template) =>
      match matchPattern template with
      -- the entire string is a single placeholder
      | some (name, []) => lookup credentials name
      | _ =>
          let containsPlaceholder := template.tails.any fun text => (matchPattern text).isSome
          let body := if containsPlaceholder && template.head? = some '=' then template.tail
            else template
          (sub str credentials body).map fun text => .leaf (.str text)
  | template => .ok template

mutual

def resolveDeep (str : Value Key Object → Text) (credentials : Credentials Key Object) :
    Value Key Object → Except Text (Value Key Object)
  | .dict fields => (resolveFields str credentials fields).map .dict
  | .list items => (resolveItems str credentials items).map .list
  | .tuple items => (resolveItems str credentials items).map .tuple
  | .leaf leaf => resolve str credentials (.leaf leaf)

def resolveItems (str : Value Key Object → Text) (credentials : Credentials Key Object) :
    List (Value Key Object) → Except Text (List (Value Key Object))
  | [] => .ok []
  | item :: items => do
      let resolved ← resolveDeep str credentials item
      let later ← resolveItems str credentials items
      .ok (resolved :: later)

def resolveFields (str : Value Key Object → Text) (credentials : Credentials Key Object) :
    List (Key × Value Key Object) → Except Text (List (Key × Value Key Object))
  | [] => .ok []
  | (key, value) :: fields => do
      let resolved ← resolveDeep str credentials value
      let later ← resolveFields str credentials fields
      .ok ((key, resolved) :: later)

end

/-- A placeholder with any white space inside its braces. -/
structure Placeholder where
  before : Text
  name : Text
  after : Text
  before_space : ∀ char ∈ before, isSpace char = true
  name_start : name.head?.any isNameStart = true
  name_chars : ∀ char ∈ name, isNameChar char = true
  after_space : ∀ char ∈ after, isSpace char = true

def Placeholder.text (placeholder : Placeholder) : Text :=
  "\x7b\x7b".toList ++ (placeholder.before ++ ("$credentials.".toList ++
    (placeholder.name ++ (placeholder.after ++ "\x7d\x7d".toList))))

/-- A text in which no placeholder is opened. -/
structure Literal where
  text : Text
  unopened : ¬"\x7b\x7b".toList <:+: text

/-- Placeholders, each with the literal piece behind it. -/
abbrev Pieces := List (Placeholder × Literal)

/-- What is between a leading `=` and the end of an expression. -/
structure Template where
  first : Literal
  pieces : Pieces
  nonempty : pieces ≠ []

namespace Template

def text (template : Template) : Text :=
  '=' :: (template.first.text ++
    template.pieces.flatMap fun piece => piece.1.text ++ piece.2.text)

def textAt (credentials : Credentials Key Object) (name : Text) : Text :=
  match credentials name with
  | some (.leaf (.str text)) => text
  | _ => []

/-- The literal pieces with the values in place of the placeholders. -/
def filled (credentials : Credentials Key Object) (template : Template) : Text :=
  template.first.text ++
    template.pieces.flatMap fun piece => textAt credentials piece.1.name ++ piece.2.text

def names (template : Template) : List Text :=
  template.pieces.map fun piece => piece.1.name

def missing? (credentials : Credentials Key Object) (template : Template) : Option Text :=
  template.names.find? fun name => (credentials name).isNone

/-- What an expression stands for. -/
def expected (credentials : Credentials Key Object) (template : Template) :
    Except Text (Value Key Object) :=
  (template.missing? credentials).elim (.ok (.leaf (.str (template.filled credentials))))
    fun name => .error (notSet name)

def NamesTexts (credentials : Credentials Key Object) (template : Template) : Prop :=
  ∀ name ∈ template.names, ∀ value, credentials name = some value →
    ∃ text, value = .leaf (.str text)

/-- No literal piece that a placeholder follows ends in `=`. -/
def Unmarked (template : Template) : Prop :=
  ∀ literal ∈ (template.first :: template.pieces.map Prod.snd).dropLast,
    literal.text.getLast? ≠ some '='

end Template

theorem isNameChar_of_isSpace {char : Char} (space : isSpace char = true) :
    isNameChar char = false := by
  rw [Bool.eq_false_iff]
  intro named
  simp only [isSpace, spaceRanges, List.any_cons, List.any_nil, Bool.or_false, Bool.or_eq_true,
    Bool.and_eq_true, decide_eq_true_eq] at space
  simp only [isNameChar, isNameStart, Bool.or_eq_true, Bool.and_eq_true, decide_eq_true_eq,
    Char.le_def, UInt32.le_iff_toNat_le, Char.ext_iff, ← UInt32.toNat_inj] at named
  simp at named space
  omega

theorem span_append {before : Text} (after : Text) {stays : Char → Bool}
    (all : ∀ char ∈ before, stays char = true)
    (stops : after.head?.all fun char => !stays char) :
    (before ++ after).takeWhile stays = before ∧ (before ++ after).dropWhile stays = after := by
  rw [List.takeWhile_append_of_pos all, List.dropWhile_append_of_pos all]
  cases after with
  | nil => simp
  | cons char after =>
      have stop : stays char = false := by simpa using stops
      rw [List.takeWhile_cons_of_neg (by rw [stop]; decide),
        List.dropWhile_cons_of_neg (by rw [stop]; decide), List.append_nil]
      exact ⟨rfl, rfl⟩

theorem matchBraces_placeholder (placeholder : Placeholder) (behind : Text) :
    matchBraces (placeholder.text ++ behind) = some (placeholder.name, behind) := by
  have closing := span_append ('\x7d' :: '\x7d' :: behind) placeholder.after_space rfl
  have naming := span_append (placeholder.after ++ '\x7d' :: '\x7d' :: behind)
    placeholder.name_chars (by
      cases spaces : placeholder.after with
      | nil => rfl
      | cons char rest =>
          have space := placeholder.after_space char (by rw [spaces]; exact List.mem_cons_self)
          simp [isNameChar_of_isSpace space])
  have opening := span_append ("$credentials.".toList ++ (placeholder.name ++
    (placeholder.after ++ '\x7d' :: '\x7d' :: behind))) placeholder.before_space rfl
  simp only [Placeholder.text, List.append_assoc]
  have closed : "\x7d\x7d".toList ++ behind = '\x7d' :: '\x7d' :: behind := rfl
  rw [matchBraces, Option.bind_eq_bind, afterPrefix?_eq_some_iff.mpr rfl, Option.bind_some, closed,
    opening.2, afterPrefix?_eq_some_iff.mpr rfl, Option.bind_some, naming.1, naming.2, closing.2,
    afterPrefix?_eq_some_iff.mpr closed.symm, Option.bind_some, if_pos placeholder.name_start]

theorem matchPattern_placeholder (placeholder : Placeholder) (behind : Text) :
    matchPattern (placeholder.text ++ behind) = some (placeholder.name, behind) :=
  matchBraces_placeholder placeholder behind

theorem matchPattern_marked (placeholder : Placeholder) (behind : Text) :
    matchPattern ('=' :: (placeholder.text ++ behind)) = some (placeholder.name, behind) :=
  matchBraces_placeholder placeholder behind

/-- Nothing is left, or a placeholder is opened. -/
def Opens (behind : Text) : Prop :=
  behind = [] ∨ ∃ rest, behind = '\x7b' :: '\x7b' :: rest

theorem opens_placeholder (placeholder : Placeholder) (behind : Text) :
    Opens (placeholder.text ++ behind) :=
  .inr ⟨_, rfl⟩

theorem matchBraces_literal {literal behind : Text} (unopened : ¬"\x7b\x7b".toList <:+: literal)
    (present : literal ≠ []) (opens : Opens behind) : matchBraces (literal ++ behind) = none := by
  rw [Option.eq_none_iff_forall_ne_some]
  intro found matched
  simp only [matchBraces, Option.bind_eq_bind, Option.bind_eq_some_iff] at matched
  obtain ⟨opened, braces, named, reference, _⟩ := matched
  rw [afterPrefix?_eq_some_iff] at braces reference
  match literal, present with
  | [char], _ =>
      rcases opens with rfl | ⟨rest, rfl⟩
      · exact absurd (congrArg List.length braces) (by simp)
      · obtain ⟨_, _, rfl⟩ : char = '\x7b' ∧ '\x7b' = '\x7b' ∧ '\x7b' :: rest = opened := by
          simpa using braces
        rw [List.dropWhile_cons_of_neg (by decide)] at reference
        exact absurd (List.cons.inj reference).1 (by decide)
  | first :: second :: literal, _ =>
      obtain ⟨rfl, rfl, _⟩ : first = '\x7b' ∧ second = '\x7b' ∧ literal ++ behind = opened := by
        simpa using braces
      exact unopened (List.prefix_append _ literal).isInfix

/-- A literal piece is found only at an `=` directly before a placeholder. -/
theorem matchPattern_literal {char : Char} {literal behind : Text}
    (unopened : ¬"\x7b\x7b".toList <:+: char :: literal)
    (opens : Opens behind) (inside : char = '=' → literal = [] → behind = []) :
    matchPattern (char :: (literal ++ behind)) = none := by
  rw [matchPattern, List.head?_cons, List.tail_cons]
  by_cases marked : char = '='
  · rw [if_pos (congrArg some marked)]
    by_cases present : literal = []
    · rw [present, inside marked present]
      rfl
    · exact matchBraces_literal (fun opened => unopened (List.infix_cons opened)) present opens
  · rw [if_neg (by simpa using marked)]
    exact matchBraces_literal unopened (List.cons_ne_nil _ _) opens

section Substitution

variable {str : Value Key Object → Text} {credentials : Credentials Key Object}

/-- What is left of a literal piece before a placeholder. -/
def trimmed : Text → Text
  | [] => []
  | char :: text => if char = '=' ∧ text = [] then [] else char :: trimmed text

theorem trimmed_eq_self_iff (text : Text) : trimmed text = text ↔ text.getLast? ≠ some '=' := by
  induction text with
  | nil => simp [trimmed]
  | cons char text ih =>
      rw [trimmed]
      cases text with
      | nil =>
          by_cases marked : char = '='
          · simp [marked]
          · simp [marked, trimmed]
      | cons second text =>
          rw [if_neg (by simp), List.cons.injEq, ih, List.getLast?_cons_cons]
          simp

theorem length_trimmed_le (text : Text) : (trimmed text).length ≤ text.length := by
  induction text with
  | nil => exact le_rfl
  | cons char text ih =>
      rw [trimmed]
      split
      · exact Nat.zero_le _
      · exact Nat.succ_le_succ ih

theorem sub_found {char : Char} {text name behind : Text}
    (found : matchPattern (char :: text) = some (name, behind)) :
    sub str credentials (char :: text) = (do
      let value ← lookup credentials name
      let later ← sub str credentials behind
      .ok (asText str value ++ later)) := by
  rw [sub]
  split
  next name' behind' matched =>
      obtain ⟨rfl, rfl⟩ := Prod.mk.inj (Option.some.inj (found.symm.trans matched))
      rfl
  next matched => exact absurd (found.symm.trans matched) nofun

theorem sub_notFound {char : Char} {text : Text} (nothing : matchPattern (char :: text) = none) :
    sub str credentials (char :: text) = (sub str credentials text).map (char :: ·) := by
  rw [sub]
  split
  next matched => exact absurd (nothing.symm.trans matched) nofun
  next => rfl

theorem sub_literal (literal : Text) (unopened : ¬"\x7b\x7b".toList <:+: literal) :
    sub str credentials literal = .ok literal := by
  induction literal with
  | nil => rw [sub]
  | cons char literal ih =>
      have nothing := matchPattern_literal unopened (.inl rfl) fun _ _ => rfl
      rw [List.append_nil] at nothing
      rw [sub_notFound nothing, ih fun opened => unopened (List.infix_cons opened)]
      rfl

theorem sub_placeholder (placeholder : Placeholder) (behind literal : Text)
    (unopened : ¬"\x7b\x7b".toList <:+: literal) :
    sub str credentials (literal ++ (placeholder.text ++ behind)) = (do
      let value ← lookup credentials placeholder.name
      let later ← sub str credentials behind
      .ok (trimmed literal ++ (asText str value ++ later))) := by
  induction literal with
  | nil => exact sub_found (matchPattern_placeholder placeholder behind)
  | cons char literal ih =>
      rw [trimmed, List.cons_append]
      by_cases marked : char = '=' ∧ literal = []
      · obtain ⟨rfl, rfl⟩ := marked
        rw [if_pos ⟨rfl, rfl⟩]
        exact sub_found (matchPattern_marked placeholder behind)
      · have nothing := matchPattern_literal unopened (opens_placeholder placeholder behind)
          fun isMark empty => absurd ⟨isMark, empty⟩ marked
        rw [sub_notFound nothing, ih fun opened => unopened (List.infix_cons opened),
          if_neg marked]
        cases lookup credentials placeholder.name with
        | error _ => rfl
        | ok value => cases sub str credentials behind <;> rfl

def kept (credentials : Credentials Key Object) : Literal → Pieces → Text
  | literal, [] => literal.text
  | literal, (placeholder, next) :: pieces =>
      trimmed literal.text ++
        (Template.textAt credentials placeholder.name ++ kept credentials next pieces)

theorem sub_pieces {pieces : Pieces} (literal : Literal)
    (texts : ∀ name ∈ pieces.map (fun piece => piece.1.name), ∀ value,
      credentials name = some value → ∃ text, value = .leaf (.str text)) :
    sub str credentials
        (literal.text ++ pieces.flatMap fun piece => piece.1.text ++ piece.2.text) =
      ((pieces.map fun piece => piece.1.name).find? fun name => (credentials name).isNone).elim
        (.ok (kept credentials literal pieces)) fun name => .error (notSet name) := by
  induction pieces generalizing literal with
  | nil =>
      rw [List.flatMap_nil, List.append_nil]
      exact sub_literal literal.text literal.unopened
  | cons piece pieces ih =>
      obtain ⟨placeholder, next⟩ := piece
      obtain ⟨here, later⟩ := List.forall_mem_cons.mp texts
      rw [List.flatMap_cons, List.append_assoc, sub_placeholder _ _ _ literal.unopened,
        ih next later, lookup, List.map_cons, List.find?_cons, kept, Template.textAt]
      dsimp only at here ⊢
      cases found : credentials placeholder.name with
      | none => rfl
      | some value =>
          obtain ⟨text, rfl⟩ := here value found
          cases (pieces.map fun piece => piece.1.name).find? fun name =>
              (credentials name).isNone <;> rfl

theorem length_kept_le (literal : Literal) (pieces : Pieces) :
    (kept credentials literal pieces).length ≤ (literal.text ++ pieces.flatMap fun piece =>
      Template.textAt credentials piece.1.name ++ piece.2.text).length := by
  induction pieces generalizing literal with
  | nil => simp [kept]
  | cons piece pieces ih =>
      have shorter := length_trimmed_le literal.text
      have later := ih piece.2
      simp only [kept, List.flatMap_cons, List.length_append] at later ⊢
      omega

theorem kept_eq_iff (literal : Literal) (pieces : Pieces) :
    (kept credentials literal pieces = literal.text ++ pieces.flatMap fun piece =>
        Template.textAt credentials piece.1.name ++ piece.2.text) ↔
      ∀ before ∈ (literal :: pieces.map Prod.snd).dropLast, before.text.getLast? ≠ some '=' := by
  induction pieces generalizing literal with
  | nil => simp [kept]
  | cons piece pieces ih =>
      obtain ⟨placeholder, next⟩ := piece
      rw [kept, List.flatMap_cons, List.map_cons, List.dropLast_cons_cons, List.forall_mem_cons,
        ← ih next, ← trimmed_eq_self_iff, List.append_assoc]
      constructor
      · intro same
        have whole : trimmed literal.text = literal.text := by
          have lengths := congrArg List.length same
          have later := @length_kept_le _ _ credentials next pieces
          have shorter := length_trimmed_le literal.text
          simp only [List.length_append] at lengths later
          exact (List.append_inj same (by omega)).1
        rw [whole] at same
        exact ⟨whole, List.append_cancel_left (List.append_cancel_left same)⟩
      · rintro ⟨whole, later⟩
        rw [whole, later]

end Substitution

/-- A whole expression is one placeholder if nothing else is in it. -/
theorem matchPattern_text (first next : Literal) (placeholder : Placeholder) (behind : Text) :
    matchPattern ('=' :: (first.text ++ (placeholder.text ++ (next.text ++ behind)))) =
      if first.text = [] then some (placeholder.name, next.text ++ behind) else none := by
  split
  next empty =>
      rw [empty]
      exact matchPattern_marked placeholder _
  next present =>
      exact matchBraces_literal first.unopened present (opens_placeholder placeholder _)

theorem containsPlaceholder_text (before : Text) (placeholder : Placeholder) (behind : Text) :
    (before ++ (placeholder.text ++ behind)).tails.any
      (fun text => (matchPattern text).isSome) = true := by
  apply List.any_eq_true.mpr
  refine ⟨placeholder.text ++ behind, (List.mem_tails _ _).mpr (List.suffix_append _ _), ?_⟩
  rw [matchPattern_placeholder]
  rfl

variable {credentials : Credentials Key Object}

theorem resolve_text (str : Value Key Object → Text) {template : Template}
    (texts : template.NamesTexts credentials) :
    resolve str credentials (.leaf (.str template.text)) =
      (template.missing? credentials).elim
        (.ok (.leaf (.str (kept credentials template.first template.pieces))))
        fun name => .error (notSet name) := by
  have substituted := @sub_pieces Key Object str credentials _ template.first texts
  obtain ⟨first, _ | ⟨⟨placeholder, next⟩, pieces⟩, present⟩ := template
  · exact absurd rfl present
  rw [Template.NamesTexts, Template.names, List.map_cons, List.forall_mem_cons] at texts
  have shown : Template.text ⟨first, (placeholder, next) :: pieces, present⟩ =
      '=' :: (first.text ++ (placeholder.text ++ (next.text ++
        pieces.flatMap fun piece => piece.1.text ++ piece.2.text))) := by
    rw [Template.text, List.flatMap_cons, List.append_assoc]
  have contains := containsPlaceholder_text ('=' :: first.text) placeholder
    (next.text ++ pieces.flatMap fun piece => piece.1.text ++ piece.2.text)
  rw [List.cons_append] at contains
  rw [resolve, shown, matchPattern_text]
  split
  next name whole =>
      split at whole
      next empty =>
          obtain ⟨rfl, rest⟩ := Prod.mk.inj (Option.some.inj whole)
          obtain ⟨nothing, last⟩ := List.append_eq_nil_iff.mp rest
          cases pieces with
          | cons piece pieces => exact absurd last nofun
          | nil =>
              rw [Template.missing?, Template.names, List.map_singleton, List.find?_singleton, kept,
                kept, empty, nothing, Template.textAt, lookup]
              dsimp only at texts ⊢
              cases found : credentials placeholder.name with
              | none => rfl
              | some value =>
                  obtain ⟨text, rfl⟩ := texts.1 value found
                  rw [List.append_nil]
                  rfl
      next => exact absurd whole nofun
  next =>
      dsimp only
      rw [contains, List.head?_cons, decide_eq_true rfl, Bool.and_self, if_pos rfl, List.tail_cons]
      rw [List.flatMap_cons, List.append_assoc] at substituted
      rw [substituted, Template.missing?, Template.names]
      cases ((placeholder, next) :: pieces).map (fun piece => piece.1.name) |>.find? fun name =>
        (credentials name).isNone <;> rfl

theorem resolve_eq_expected_iff (str : Value Key Object → Text) {template : Template}
    (texts : template.NamesTexts credentials) :
    resolve str credentials (.leaf (.str template.text)) = template.expected credentials ↔
      template.missing? credentials ≠ none ∨ template.Unmarked := by
  rw [resolve_text str texts, Template.expected]
  cases template.missing? credentials with
  | some name => exact iff_of_true rfl (.inl nofun)
  | none =>
      rw [Option.elim_none, Option.elim_none, Except.ok.injEq, Nested.leaf.injEq, Scalar.str.injEq,
        Template.filled, kept_eq_iff, Template.Unmarked]
      simp

section Nested

open Nested

variable {str : Value Key Object → Text} {credentials : Credentials Key Object}
  {Source : Type} {shown actual : Source → Scalar Object} {failure : Source → Option Text}

def Resolves (str : Value Key Object → Text) (credentials : Credentials Key Object)
    (shown actual : Source → Scalar Object) (failure : Source → Option Text) (leaf : Source) :
    Prop :=
  resolve str credentials (.leaf (shown leaf)) =
    (failure leaf).elim (.ok (.leaf (actual leaf))) fun name => .error (notSet name)

def ResolvesAll (str : Value Key Object → Text) (credentials : Credentials Key Object)
    (shown actual : Source → Scalar Object) (failure : Source → Option Text)
    (value : Nested Key Source) : Prop :=
  (∀ leaf ∈ leaves value, Resolves str credentials shown actual failure leaf) →
    resolveDeep str credentials (map shown value) =
      ((leaves value).findSome? failure).elim (.ok (map actual value))
        fun name => .error (notSet name)

theorem resolveItems_map {items : List (Nested Key Source)}
    (each : ∀ item ∈ items, ResolvesAll str credentials shown actual failure item)
    (resolves : ∀ leaf ∈ leavesOfItems items, Resolves str credentials shown actual failure leaf) :
    resolveItems str credentials (mapItems shown items) =
      ((leavesOfItems items).findSome? failure).elim (.ok (mapItems actual items))
        fun name => .error (notSet name) := by
  induction items with
  | nil => rfl
  | cons item items ih =>
      obtain ⟨here, later⟩ := List.forall_mem_cons.mp each
      obtain ⟨first, rest⟩ := List.forall_mem_append.mp resolves
      rw [mapItems, resolveItems, here first, ih later rest, leavesOfItems, List.findSome?_append,
        mapItems]
      cases (leaves item).findSome? failure with
      | some name => rfl
      | none => cases (leavesOfItems items).findSome? failure <;> rfl

theorem resolveFields_map {fields : List (Key × Nested Key Source)}
    (each : ∀ field ∈ fields, ResolvesAll str credentials shown actual failure field.2)
    (resolves : ∀ leaf ∈ leavesOfFields fields,
      Resolves str credentials shown actual failure leaf) :
    resolveFields str credentials (mapFields shown fields) =
      ((leavesOfFields fields).findSome? failure).elim (.ok (mapFields actual fields))
        fun name => .error (notSet name) := by
  induction fields with
  | nil => rfl
  | cons field fields ih =>
      obtain ⟨here, later⟩ := List.forall_mem_cons.mp each
      obtain ⟨first, rest⟩ := List.forall_mem_append.mp resolves
      rw [mapFields, resolveFields, here first, ih later rest, leavesOfFields,
        List.findSome?_append, mapFields]
      cases (leaves field.2).findSome? failure with
      | some name => rfl
      | none => cases (leavesOfFields fields).findSome? failure <;> rfl

theorem resolvesAll (value : Nested Key Source) :
    ResolvesAll str credentials shown actual failure value := by
  induction value using Nested.induction with
  | leaf leaf =>
      intro resolves
      rw [map, resolveDeep, resolves leaf (List.mem_singleton.mpr rfl), leaves,
        List.findSome?_singleton, map]
  | list items each =>
      intro resolves
      rw [map, resolveDeep, resolveItems_map each resolves, leaves, map]
      cases (leavesOfItems items).findSome? failure <;> rfl
  | tuple items each =>
      intro resolves
      rw [map, resolveDeep, resolveItems_map each resolves, leaves, map]
      cases (leavesOfItems items).findSome? failure <;> rfl
  | dict fields each =>
      intro resolves
      rw [map, resolveDeep, resolveFields_map each resolves, leaves, map]
      cases (leavesOfFields fields).findSome? failure <;> rfl

end Nested

/-- A leaf of a nested value. -/
inductive Source (Object : Type) where
  | template (template : Template)
  | literal (literal : Literal)
  | none
  | other (object : Object)

namespace Source

def shown : Source Object → Scalar Object
  | .template expr => .str expr.text
  | .literal piece => .str piece.text
  | .none => .none
  | .other thing => .other thing

def result (credentials : Credentials Key Object) : Source Object → Scalar Object
  | .template expr => .str (expr.filled credentials)
  | leaf => leaf.shown

def missing? (credentials : Credentials Key Object) : Source Object → Option Text
  | .template expr => expr.missing? credentials
  | _ => Option.none

def NamesTexts (credentials : Credentials Key Object) : Source Object → Prop
  | .template expr => expr.NamesTexts credentials
  | _ => True

def Unmarked : Source Object → Prop
  | .template expr => expr.Unmarked
  | _ => True

def left (credentials : Credentials Key Object) : Source Object → Scalar Object
  | .template expr => .str (kept credentials expr.first expr.pieces)
  | leaf => leaf.shown

end Source

def expectedDeep (credentials : Credentials Key Object)
    (value : Nested Key (Source Object)) : Except Text (Value Key Object) :=
  ((Nested.leaves value).findSome? (Source.missing? credentials)).elim
    (.ok (Nested.map (Source.result credentials) value)) fun name => .error (notSet name)

theorem resolve_literal (str : Value Key Object → Text)
    (credentials : Credentials Key Object) (literal : Literal) :
    resolve str credentials (.leaf (.str literal.text)) = .ok (.leaf (.str literal.text)) := by
  have nothing : ∀ text, text <:+ literal.text → matchPattern text = none := by
    intro text suffix
    have unopened : ¬"\x7b\x7b".toList <:+: text := fun opened =>
      literal.unopened (opened.trans suffix.isInfix)
    cases text with
    | nil => rfl
    | cons char text =>
        have none := matchPattern_literal unopened (.inl rfl) fun _ _ => rfl
        rwa [List.append_nil] at none
  have contains : literal.text.tails.any (fun text => (matchPattern text).isSome) = false := by
    rw [List.any_eq_false]
    intro text member
    rw [nothing text ((List.mem_tails _ _).mp member)]
    decide
  rw [resolve, nothing _ List.suffix_rfl]
  dsimp only
  rw [contains, Bool.false_and, if_neg Bool.false_ne_true, sub_literal _ literal.unopened]
  rfl

theorem resolves_source (str : Value Key Object → Text) {leaf : Source Object}
    (texts : leaf.NamesTexts credentials) :
    Resolves str credentials Source.shown (Source.left credentials)
      (Source.missing? credentials) leaf := by
  cases leaf with
  | template template => exact resolve_text str texts
  | literal literal => exact resolve_literal str credentials literal
  | none => rfl
  | other object => rfl

theorem left_eq_result_iff (credentials : Credentials Key Object)
    (leaf : Source Object) : leaf.left credentials = leaf.result credentials ↔ leaf.Unmarked := by
  cases leaf with
  | template template =>
      rw [Source.left, Source.result, Scalar.str.injEq, Template.filled, kept_eq_iff]
      rfl
  | literal literal => exact iff_of_true rfl trivial
  | none => exact iff_of_true rfl trivial
  | other object => exact iff_of_true rfl trivial

theorem resolveDeep_eq_expectedDeep_iff (str : Value Key Object → Text)
    {value : Nested Key (Source Object)}
    (texts : ∀ leaf ∈ Nested.leaves value, leaf.NamesTexts credentials) :
    resolveDeep str credentials (Nested.map Source.shown value) = expectedDeep credentials value ↔
      (∃ leaf ∈ Nested.leaves value, leaf.missing? credentials ≠ none) ∨
        ∀ leaf ∈ Nested.leaves value, leaf.Unmarked := by
  rw [resolvesAll value fun leaf member => resolves_source str (texts leaf member), expectedDeep]
  cases missing : (Nested.leaves value).findSome? (Source.missing? credentials) with
  | some name =>
      obtain ⟨leaf, member, lacks⟩ := List.exists_of_findSome?_eq_some missing
      exact iff_of_true rfl (.inl ⟨leaf, member, by rw [lacks]; exact nofun⟩)
  | none =>
      have held := List.findSome?_eq_none_iff.mp missing
      have present : ¬∃ leaf ∈ Nested.leaves value, leaf.missing? credentials ≠ none := by
        rintro ⟨leaf, member, lacks⟩
        exact lacks (held leaf member)
      rw [Option.elim_none, Option.elim_none, Except.ok.injEq, Nested.map_eq_map_iff,
        or_iff_right present]
      exact forall₂_congr fun leaf _ => left_eq_result_iff credentials leaf

/-- Texts and nested values are resolved as they should be if a field is missing, or if no `=`
stands before a placeholder. -/
theorem interpolates_iff (str : Value Key Object → Text)
    (credentials : Credentials Key Object) :
    (∀ template : Template, template.NamesTexts credentials →
      (resolve str credentials (.leaf (.str template.text)) = template.expected credentials ↔
        template.missing? credentials ≠ none ∨ template.Unmarked)) ∧
    ∀ value : Nested Key (Source Object),
      (∀ leaf ∈ Nested.leaves value, leaf.NamesTexts credentials) →
      (resolveDeep str credentials (Nested.map Source.shown value) =
          expectedDeep credentials value ↔
        (∃ leaf ∈ Nested.leaves value, leaf.missing? credentials ≠ none) ∨
          ∀ leaf ∈ Nested.leaves value, leaf.Unmarked) :=
  ⟨fun _ texts => resolve_eq_expected_iff str texts,
    fun _ texts => resolveDeep_eq_expectedDeep_iff str texts⟩

def keyPlaceholder : Placeholder where
  before := [' ']
  name := ['k']
  after := [' ']
  before_space := List.forall_mem_singleton.mpr rfl
  name_start := rfl
  name_chars := List.forall_mem_singleton.mpr rfl
  after_space := List.forall_mem_singleton.mpr rfl

/-- `key=` and a field of the credential. -/
def keyTemplate : Template where
  first := ⟨"key=".toList, by decide⟩
  pieces := [(keyPlaceholder, ⟨[], by decide⟩)]
  nonempty := List.cons_ne_nil _ _

def keyCredentials : Credentials ℕ Empty := fun name =>
  if name = ['k'] then some (.leaf (.str "VALUE".toList)) else none

/-- The `=` of a query string is lost. -/
theorem keyTemplate_loses_mark :
    keyTemplate.text = "=key=\x7b\x7b $credentials.k \x7d\x7d".toList ∧
      resolve (fun _ => []) keyCredentials (.leaf (.str keyTemplate.text)) =
        .ok (.leaf (.str "keyVALUE".toList)) ∧
      keyTemplate.expected keyCredentials = .ok (.leaf (.str "key=VALUE".toList)) ∧
      resolve (fun _ => []) keyCredentials (.leaf (.str keyTemplate.text)) ≠
        keyTemplate.expected keyCredentials := by
  have texts : keyTemplate.NamesTexts keyCredentials := by
    intro name named value found
    obtain rfl : name = ['k'] := List.mem_singleton.mp named
    exact ⟨_, (Option.some.inj found).symm⟩
  have resolved := resolve_text (fun _ => []) texts
  refine ⟨rfl, resolved, rfl, ?_⟩
  rw [resolved]
  intro same
  exact absurd (Scalar.str.inj (Nested.leaf.inj (Except.ok.inj same))) (by decide)

end NaturalMold.CredentialInterpolation

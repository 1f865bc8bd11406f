import NaturalMold.PseudonymTokens
import NaturalMold.GuardrailActions
import NaturalMold.PythonText

/-!
# The pieces of a guarded text

A guarded text is the checked text piece by piece: pieces that are kept, values that an action has
changed, and values that a pseudonym stands for.
-/

namespace NaturalMold.Guardrails

inductive Piece
  | kept (text : Text)
  | changed (value shown : Text)
  | stoodIn (value token : Text)
  deriving DecidableEq

namespace Piece

def original : Piece → Text
  | kept text => text
  | changed value _ => value
  | stoodIn value _ => value

def sent : Piece → Text
  | kept text => text
  | changed _ shown => shown
  | stoodIn _ token => token

def restored : Piece → Text
  | kept text => text
  | changed _ shown => shown
  | stoodIn value _ => value

/-- Changed text that no token runs into and that holds none. -/
def IsWall (shown : Text) : Prop :=
  '<' ∉ shown ∧ ∃ char ∈ shown.head?, isBodyChar char = false

/-- Mask a number of digits from the left. -/
def hideDigits : Nat → Text → List Piece
  | _, [] => []
  | 0, text => [kept text]
  | hidden + 1, char :: text =>
      if isDigit char then changed [char] ['*'] :: hideDigits hidden text
      else kept [char] :: hideDigits (hidden + 1) text

def mask (value : Text) (entity : String) : List Piece :=
  if entity = "EMAIL" ∧ '@' ∈ value then
    let localPart := value.takeWhile fun char => char ≠ '@'
    [kept (localPart.take 1),
      changed (localPart.drop 1) (List.replicate (max (localPart.length - 1) 1) '*'),
      kept (value.dropWhile fun char => char ≠ '@')]
  else if value.countP isDigit > 4 then hideDigits (value.countP isDigit - 4) value
  else [kept (value.take 1),
    changed (value.drop 1) (List.replicate (max (value.length - 1) 1) '*')]

def ofSpan (hmacHex : Text → Text) (tokenOf : String → Text → Text) (span : Span)
    (value : Text) : List Piece :=
  match span.rule.action with
  | .warn | .block | .approval => [kept value]
  | .pseudonymize => [stoodIn value (tokenOf span.entity value)]
  | .mask => mask value span.entity
  | action => [changed value (replacement hmacHex value span.entity action)]

def ofSpans (hmacHex : Text → Text) (tokenOf : String → Text → Text) (text : Text) :
    Nat → List Span → List Piece
  | cursor, [] => [kept (text.drop cursor)]
  | cursor, span :: rest =>
      kept ((text.take span.start).drop cursor) ::
        (ofSpan hmacHex tokenOf span ((text.take span.stop).drop span.start) ++
          ofSpans hmacHex tokenOf text span.stop rest)

end Piece

def constantly (tokenOf : String → Text → Text) : Pseudonymizer Unit :=
  fun entity value _ state => (tokenOf entity value, state)

namespace Piece

section Texts

variable {hmacHex : Text → Text} {tokenOf : String → Text → Text}

theorem flatMap_hideDigits (hidden : Nat) (text : Text) :
    (hideDigits hidden text).flatMap original = text ∧
      (hideDigits hidden text).flatMap sent = Guardrails.hideDigits hidden text ∧
      (hideDigits hidden text).flatMap restored = Guardrails.hideDigits hidden text := by
  induction text generalizing hidden with
  | nil => cases hidden <;> simp [hideDigits, Guardrails.hideDigits]
  | cons char text ih =>
      cases hidden with
      | zero => simp [hideDigits, Guardrails.hideDigits, original, sent, restored]
      | succ hidden =>
          rw [hideDigits, Guardrails.hideDigits]
          split
          case isTrue =>
            obtain ⟨originalEq, sentEq, restoredEq⟩ := ih hidden
            simp [original, sent, restored, originalEq, sentEq, restoredEq]
          case isFalse =>
            obtain ⟨originalEq, sentEq, restoredEq⟩ := ih (hidden + 1)
            simp [original, sent, restored, originalEq, sentEq, restoredEq]

private theorem dropWhile_at {value : Text} (member : '@' ∈ value) :
    value.dropWhile (fun char => char ≠ '@') =
      '@' :: (value.dropWhile fun char => char ≠ '@').drop 1 := by
  induction value with
  | nil => simp at member
  | cons char value ih =>
      by_cases same : char = '@'
      · simp [same]
      · have later : '@' ∈ value := by
          rcases List.mem_cons.mp member with first | later
          · exact absurd first.symm same
          · exact later
        simpa [List.dropWhile_cons, same] using ih later

theorem flatMap_mask (value : Text) (entity : String) :
    (mask value entity).flatMap original = value ∧
      (mask value entity).flatMap sent = Guardrails.mask value entity ∧
      (mask value entity).flatMap restored = Guardrails.mask value entity := by
  unfold mask Guardrails.mask
  split
  case isTrue email =>
    have domain := dropWhile_at email.2
    refine ⟨?_, ?_, ?_⟩
    · simp only [List.flatMap_cons, List.flatMap_nil, original, List.append_nil]
      rw [← List.append_assoc, List.take_append_drop, List.takeWhile_append_dropWhile]
    · simp only [List.flatMap_cons, List.flatMap_nil, sent, List.append_nil]
      rw [domain, ← List.append_assoc]
      rfl
    · simp only [List.flatMap_cons, List.flatMap_nil, restored, List.append_nil]
      rw [domain, ← List.append_assoc]
      rfl
  case isFalse =>
    split
    case isTrue => exact flatMap_hideDigits _ value
    case isFalse => cases value <;> simp [original, sent, restored]

theorem flatMap_ofSpan (span : Span) (value : Text) :
    (ofSpan hmacHex tokenOf span value).flatMap original = value ∧
      (ofSpan hmacHex tokenOf span value).flatMap sent =
        (applySpan hmacHex (some (constantly tokenOf)) span value ()).1 ∧
      (ofSpan hmacHex tokenOf span value).flatMap restored =
        (applySpan hmacHex (some (constantly fun _ value => value)) span value ()).1 := by
  obtain ⟨originalEq, sentEq, restoredEq⟩ := flatMap_mask value span.entity
  unfold ofSpan applySpan
  cases span.rule.action <;>
    simp [original, sent, restored, constantly, replacement, originalEq, sentEq, restoredEq]

private theorem applyFrom_unit (pseudonym : Option (Pseudonymizer Unit)) (text : Text)
    (cursor : Nat) (span : Span) (rest : List Span) :
    (applyFrom hmacHex pseudonym text cursor (span :: rest) ()).1 =
      (text.take span.start).drop cursor ++
        (applySpan hmacHex pseudonym span ((text.take span.stop).drop span.start) ()).1 ++
          (applyFrom hmacHex pseudonym text span.stop rest ()).1 :=
  rfl

theorem flatMap_sent_ofSpans (text : Text) (cursor : Nat) (spans : List Span) :
    (ofSpans hmacHex tokenOf text cursor spans).flatMap sent =
      (applyFrom hmacHex (some (constantly tokenOf)) text cursor spans ()).1 := by
  induction spans generalizing cursor with
  | nil => simp [ofSpans, applyFrom, sent]
  | cons span rest ih =>
      rw [ofSpans, List.flatMap_cons, List.flatMap_append, ih, (flatMap_ofSpan _ _).2.1,
        applyFrom_unit, List.append_assoc]
      rfl

theorem flatMap_restored_ofSpans (tokenOf : String → Text → Text) (text : Text) (cursor : Nat)
    (spans : List Span) :
    (ofSpans hmacHex tokenOf text cursor spans).flatMap restored =
      (applyFrom hmacHex (some (constantly fun _ value => value)) text cursor spans ()).1 := by
  induction spans generalizing cursor with
  | nil => simp [ofSpans, applyFrom, restored]
  | cons span rest ih =>
      rw [ofSpans, List.flatMap_cons, List.flatMap_append, ih, (flatMap_ofSpan _ _).2.2,
        applyFrom_unit, List.append_assoc]
      rfl

private theorem drop_eq_slices (text : Text) {cursor start stop : Nat} (first : cursor ≤ start)
    (second : start ≤ stop) :
    text.drop cursor =
      (text.take start).drop cursor ++ ((text.take stop).drop start ++ text.drop stop) := by
  have slice {low high : Nat} (ordered : low ≤ high) :
      text.drop low = (text.take high).drop low ++ text.drop high := by
    conv_lhs => rw [← List.take_append_drop high text]
    rw [List.drop_append]
    by_cases short : text.length ≤ high
    · simp [List.drop_eq_nil_of_le short]
    · have length : (text.take high).length = high := by simp; omega
      rw [length, Nat.sub_eq_zero_of_le ordered, List.drop_zero]
  rw [slice first, slice second]

/-- The pieces are the pieces of the checked text. -/
theorem flatMap_original_ofSpans (hmacHex : Text → Text) (tokenOf : String → Text → Text)
    (text : Text) {cursor : Nat} {spans : List Span}
    (following : Span.Following cursor spans) :
    (ofSpans hmacHex tokenOf text cursor spans).flatMap original = text.drop cursor := by
  induction spans generalizing cursor with
  | nil => simp [ofSpans, original]
  | cons span rest ih =>
      obtain ⟨before, forward, later⟩ := following
      rw [ofSpans, List.flatMap_cons, List.flatMap_append, ih later, (flatMap_ofSpan _ _).1]
      exact (drop_eq_slices text before forward).symm

end Texts

theorem notMem_label (entity : String) : '<' ∉ (label entity).toList := by
  have listed : ∀ entry ∈ labels, '<' ∉ entry.2.toList := by decide
  cases found : labels.lookup entity with
  | none =>
      rw [label, found]
      decide
  | some text =>
      rw [label, found]
      obtain ⟨before, after, split, -⟩ := List.lookup_eq_some_iff.mp found
      exact listed (entity, text) (split ▸ List.mem_append_right _ List.mem_cons_self)

theorem isWall_stars (count : Nat) : IsWall (List.replicate (max count 1) '*') := by
  obtain ⟨more, moreEq⟩ : ∃ more, max count 1 = more + 1 :=
    Nat.exists_eq_add_of_le' (Nat.le_max_right _ _)
  rw [moreEq]
  refine ⟨fun member => absurd (List.eq_of_mem_replicate member) (by decide), '*', ?_, rfl⟩
  rw [List.replicate_succ]
  rfl

/-- The company's keyed digest is hexadecimal. -/
def IsHexDigest (hmacHex : Text → Text) : Prop :=
  ∀ message, ∀ char ∈ hmacHex message, (PythonText.hexValue char).isSome

private theorem isWall_brackets {inside : Text} (free : '<' ∉ inside) :
    IsWall ('[' :: inside ++ [']']) := by
  refine ⟨?_, '[', rfl, rfl⟩
  simp [free]

theorem isWall_replacement {hmacHex : Text → Text} (hex : IsHexDigest hmacHex) (value : Text)
    (entity : String) {action : Action} (notMask : action ≠ .mask) :
    IsWall (replacement hmacHex value entity action) := by
  have digestFree : '<' ∉ (hmacHex (keyedMessage entity value)).take 10 := by
    intro member
    exact absurd (hex _ _ (List.mem_of_mem_take member)) (by decide)
  have labelFree := notMem_label entity
  have hashed : IsWall (hashToken hmacHex value entity) := by
    have inside : '<' ∉ (label entity).toList ++ ':' ::
        (hmacHex (keyedMessage entity value)).take 10 := by
      simp [labelFree, digestFree]
    simpa [hashToken] using isWall_brackets inside
  cases action with
  | mask => exact absurd rfl notMask
  | hash => exact hashed
  | _ => exact isWall_brackets labelFree

def Walled (pieces : List Piece) : Prop :=
  ∀ value shown, changed value shown ∈ pieces → IsWall shown

theorem walled_hideDigits (hidden : Nat) (text : Text) : Walled (hideDigits hidden text) := by
  induction text generalizing hidden with
  | nil => cases hidden <;> simp [Walled, hideDigits]
  | cons char text ih =>
      intro value shown member
      cases hidden with
      | zero => simp [hideDigits] at member
      | succ hidden =>
          rw [hideDigits] at member
          split at member
          case isTrue =>
            rcases List.mem_cons.mp member with first | later
            · obtain ⟨-, rfl⟩ := Piece.changed.inj first
              exact isWall_stars 1
            · exact ih hidden value shown later
          case isFalse =>
            rcases List.mem_cons.mp member with first | later
            · exact absurd first nofun
            · exact ih (hidden + 1) value shown later

theorem walled_mask (value : Text) (entity : String) : Walled (mask value entity) := by
  intro old shown member
  unfold mask at member
  split at member
  case isTrue =>
    obtain ⟨-, rfl⟩ : old = _ ∧ shown = _ := by simpa using member
    exact isWall_stars _
  case isFalse =>
  split at member
  case isTrue => exact walled_hideDigits _ _ old shown member
  case isFalse =>
    obtain ⟨-, rfl⟩ : old = _ ∧ shown = _ := by simpa using member
    exact isWall_stars _

theorem walled_ofSpan {hmacHex : Text → Text} (hex : IsHexDigest hmacHex)
    (tokenOf : String → Text → Text) (span : Span) (value : Text) :
    Walled (ofSpan hmacHex tokenOf span value) := by
  intro old shown member
  unfold ofSpan at member
  cases actionEq : span.rule.action <;> rw [actionEq] at member
  case mask => exact walled_mask _ _ old shown member
  case hash =>
    obtain ⟨-, rfl⟩ := Piece.changed.inj (List.mem_singleton.mp member)
    exact isWall_replacement hex _ _ nofun
  case redact =>
    obtain ⟨-, rfl⟩ := Piece.changed.inj (List.mem_singleton.mp member)
    exact isWall_replacement hex _ _ nofun
  all_goals exact absurd (List.mem_singleton.mp member) nofun

theorem walled_ofSpans {hmacHex : Text → Text} (hex : IsHexDigest hmacHex)
    (tokenOf : String → Text → Text) (text : Text) (cursor : Nat) (spans : List Span) :
    Walled (ofSpans hmacHex tokenOf text cursor spans) := by
  induction spans generalizing cursor with
  | nil =>
      intro old shown member
      exact absurd (List.mem_singleton.mp member) nofun
  | cons span rest ih =>
      intro old shown member
      rcases List.mem_cons.mp member with first | later
      · exact absurd first nofun
      · rcases List.mem_append.mp later with here | further
        · exact walled_ofSpan hex tokenOf span _ old shown here
        · exact ih span.stop old shown further

def Swapped (swap : Text → Text) (pieces : List Piece) : Prop :=
  ∀ value token, stoodIn value token ∈ pieces →
    (fullToken token).isSome ∧ swap token = value

def part : Piece → TextSubstitution.Part Char
  | kept text => ⟨text, none⟩
  | changed _ shown => ⟨shown, none⟩
  | stoodIn value token => ⟨token, some value⟩

theorem text_map_part (pieces : List Piece) :
    TextSubstitution.Part.text (pieces.map part) = pieces.flatMap sent := by
  induction pieces with
  | nil => rfl
  | cons piece pieces ih =>
      rw [List.map_cons, List.flatMap_cons, ← ih]
      cases piece <;> rfl

theorem result_map_part (pieces : List Piece) :
    TextSubstitution.Part.result (pieces.map part) = pieces.flatMap restored := by
  induction pieces with
  | nil => rfl
  | cons piece pieces ih =>
      rw [List.map_cons, List.flatMap_cons, ← ih]
      cases piece <;> rfl

theorem IsWall.endsTokens {shown : Text} (wall : IsWall shown) (rest : Text) :
    EndsTokens (shown ++ rest) := by
  obtain ⟨noBracket, first, firstEq, notBody⟩ := wall
  cases shown with
  | nil => exact absurd firstEq nofun
  | cons char shown =>
      obtain rfl := Option.some.inj firstEq
      refine ⟨notBody, ?_⟩
      rintro rfl
      exact absurd List.mem_cons_self noBracket

theorem findToken_kept {swap : Text → Text} {pieces : List Piece} (walled : Walled pieces)
    (swapped : Swapped swap pieces) {stretch : Text} (nonempty : stretch ≠ [])
    (free : TokenFree (stretch ++ pieces.flatMap original)) :
    findToken (stretch ++ pieces.flatMap sent) = none := by
  induction pieces generalizing stretch with
  | nil => simpa using free.findToken_append
  | cons piece pieces ih =>
      have stretchFree := free.findToken_append
      rw [List.flatMap_cons] at free ⊢
      cases piece with
      | kept text =>
          rw [← List.append_assoc]
          refine ih (fun value shown member => walled value shown (List.mem_cons_of_mem _ member))
            (fun value token member => swapped value token (List.mem_cons_of_mem _ member))
            (by simp [nonempty]) ?_
          rwa [List.append_assoc]
      | changed value shown =>
          have wall := walled value shown List.mem_cons_self
          exact (wall.endsTokens _).findToken_append nonempty stretchFree
      | stoodIn value token =>
          obtain ⟨isToken, -⟩ := swapped value token List.mem_cons_self
          obtain ⟨⟨entity, digits⟩, found⟩ := Option.isSome_iff_exists.mp isToken
          obtain ⟨-, -, rfl⟩ := fullToken_eq_some_iff.mp found
          exact (endsTokens_tokenText _).findToken_append nonempty stretchFree

/-- The tokens of a guarded text are the ones that stand for its values. -/
theorem located_part {swap : Text → Text} {pieces : List Piece} (walled : Walled pieces)
    (swapped : Swapped swap pieces) (free : TokenFree (pieces.flatMap original))
    (before : Option Char) :
    TextSubstitution.Part.Located (tokenMatcher swap) before (pieces.map part) := by
  induction pieces generalizing before with
  | nil => trivial
  | cons piece pieces ih =>
      have walledRest : Walled pieces := fun value shown member =>
        walled value shown (List.mem_cons_of_mem _ member)
      have swappedRest : Swapped swap pieces := fun value token member =>
        swapped value token (List.mem_cons_of_mem _ member)
      rw [List.flatMap_cons] at free
      rw [List.map_cons]
      refine ⟨?_, ih walledRest swappedRest free.of_append _⟩
      rw [text_map_part]
      cases piece with
      | kept text =>
          refine TextSubstitution.quietIn_of_forall ?_
          rintro first char last rfl
          rw [original, List.append_assoc] at free
          have nothing := findToken_kept walledRest swappedRest (List.cons_ne_nil char last)
            free.of_append
          simp only [tokenMatcher, ← List.cons_append, nothing, Option.map_none]
      | changed value shown =>
          refine TextSubstitution.quietIn_of_forall ?_
          rintro first char last rfl
          have differs : char ≠ '<' := by
            rintro rfl
            exact (walled value _ List.mem_cons_self).1
              (List.mem_append_right _ List.mem_cons_self)
          simp only [tokenMatcher, findToken_of_ne differs, Option.map_none]
      | stoodIn value token =>
          obtain ⟨isToken, swapEq⟩ := swapped value token List.mem_cons_self
          obtain ⟨⟨entity, digits⟩, found⟩ := Option.isSome_iff_exists.mp isToken
          obtain ⟨isEntity, isNumber, rfl⟩ := fullToken_eq_some_iff.mp found
          refine ⟨tokenText_ne_nil, ?_⟩
          simp only [part, tokenMatcher, findToken_tokenText isEntity isNumber, Option.map_some,
            swapEq]

/-- Swapping the tokens of a guarded text puts the values back. -/
theorem substituteTokens_sent {swap : Text → Text} {pieces : List Piece} (walled : Walled pieces)
    (swapped : Swapped swap pieces) (free : TokenFree (pieces.flatMap original)) :
    substituteTokens swap (pieces.flatMap sent) = pieces.flatMap restored := by
  rw [← text_map_part, ← result_map_part]
  exact TextSubstitution.Part.substitute_text (located_part walled swapped free none)

end Piece

end NaturalMold.Guardrails

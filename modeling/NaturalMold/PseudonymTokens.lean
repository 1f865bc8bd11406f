import NaturalMold.TextSubstitution
import NaturalMold.GuardrailRules

/-!
# The tokens that stand for values

A token names an entity and a number: `<<PERSON_1>>`.
-/

namespace NaturalMold.Guardrails

/-- `[A-Z_]` -/
def isNameChar (char : Char) : Bool :=
  char.isUpper || char = '_'

/-- `[A-Z][A-Z_]{0,38}[A-Z]` -/
def IsEntity (entity : Text) : Prop :=
  2 ≤ entity.length ∧ entity.length ≤ 40 ∧ entity.all isNameChar ∧
    entity.head?.any Char.isUpper ∧ entity.getLast?.any Char.isUpper

/-- `[1-9][0-9]{0,5}` -/
def IsNumber (digits : Text) : Prop :=
  1 ≤ digits.length ∧ digits.length ≤ 6 ∧ digits.all Char.isDigit ∧
    digits.head?.any fun char => char ≠ '0'

instance (entity : Text) : Decidable (IsEntity entity) :=
  inferInstanceAs (Decidable (_ ∧ _ ∧ _ ∧ _ ∧ _))

instance (digits : Text) : Decidable (IsNumber digits) :=
  inferInstanceAs (Decidable (_ ∧ _ ∧ _ ∧ _))

theorem IsEntity.isNameChar {entity : Text} (isEntity : IsEntity entity) {char : Char}
    (member : char ∈ entity) : isNameChar char :=
  List.all_eq_true.mp isEntity.2.2.1 char member

theorem IsNumber.isDigit {digits : Text} (isNumber : IsNumber digits) {char : Char}
    (member : char ∈ digits) : char.isDigit :=
  List.all_eq_true.mp isNumber.2.2.1 char member

/-- What stands between the opening brackets of a token and its end. -/
def tokenBody (entity digits : Text) : Text :=
  entity ++ '_' :: (digits ++ ['>', '>'])

def tokenText (entity digits : Text) : Text :=
  '<' :: '<' :: tokenBody entity digits

def token (entity : String) (number : Nat) : Text :=
  tokenText entity.toList (Nat.toDigits 10 number)

/-- `TOKEN.match`: the entity and the digits of the token that a text starts with. -/
def findToken : Text → Option (Text × Text)
  | '<' :: '<' :: body =>
      let name := body.takeWhile isNameChar
      let digits := (body.drop name.length).takeWhile Char.isDigit
      if IsEntity name.dropLast ∧ name.getLast? = some '_' ∧ IsNumber digits ∧
          ['>', '>'] <+: body.drop (name.length + digits.length) then
        some (name.dropLast, digits)
      else none
  | _ => none

/-- `TOKEN.fullmatch` -/
def fullToken (text : Text) : Option (Text × Text) :=
  (findToken text).filter fun parts => tokenText parts.1 parts.2 = text

def tokenMatcher (swap : Text → Text) : TextSubstitution.Matcher Char :=
  fun _ text => (findToken text).map fun parts =>
    let found := tokenText parts.1 parts.2
    (found.length - 1, swap found)

/-- `TOKEN.sub(swap, text)` -/
def substituteTokens (swap : Text → Text) (text : Text) : Text :=
  TextSubstitution.substitute (tokenMatcher swap) text

section Grammar

variable {entity digits : Text}

theorem IsNumber.exists_cons (number : IsNumber digits) :
    ∃ first rest, digits = first :: rest ∧ first.isDigit := by
  cases digits with
  | nil => exact absurd number.1 (by decide)
  | cons first rest => exact ⟨first, rest, rfl, number.isDigit List.mem_cons_self⟩

theorem isNameChar_eq_false_of_isDigit {char : Char} (digit : char.isDigit) :
    isNameChar char = false := by
  have digitRange : char.val ≥ '0'.val ∧ char.val ≤ '9'.val := by
    simpa [Char.isDigit] using digit
  rw [isNameChar, Bool.or_eq_false_iff]
  constructor
  · apply Bool.eq_false_of_not_eq_true
    intro isUpper
    have upperRange : char.val ≥ 'A'.val ∧ char.val ≤ 'Z'.val := of_decide_eq_true isUpper
    exact absurd (UInt32.le_trans upperRange.1 digitRange.2) (by decide)
  · apply decide_eq_false
    rintro rfl
    exact absurd digitRange.2 (by decide)

private theorem takeWhile_append_stop {keep : Char → Bool} {first second : Text}
    (kept : ∀ char ∈ first, keep char) (stop : ∀ char ∈ second.head?, keep char = false) :
    (first ++ second).takeWhile keep = first := by
  rw [List.takeWhile_append_of_pos kept]
  cases second with
  | nil => simp
  | cons char second => simp [stop char rfl]

theorem findToken_tokenText (isEntity : IsEntity entity) (isNumber : IsNumber digits)
    (rest : Text) : findToken (tokenText entity digits ++ rest) = some (entity, digits) := by
  have name : (tokenBody entity digits ++ rest).takeWhile isNameChar = entity ++ ['_'] := by
    obtain ⟨first, others, rfl, digit⟩ := isNumber.exists_cons
    have split : tokenBody entity (first :: others) ++ rest =
        (entity ++ ['_']) ++ (first :: (others ++ '>' :: '>' :: rest)) := by
      simp [tokenBody]
    rw [split]
    refine takeWhile_append_stop ?_ ?_
    · intro char member
      rcases List.mem_append.mp member with inEntity | underscore
      · exact isEntity.isNameChar inEntity
      · rw [List.mem_singleton.mp underscore]
        rfl
    · rintro char ⟨⟩
      exact isNameChar_eq_false_of_isDigit digit
  have afterName : (tokenBody entity digits ++ rest).drop (entity ++ ['_']).length =
      digits ++ '>' :: '>' :: rest := by
    have split : tokenBody entity digits ++ rest =
        (entity ++ ['_']) ++ (digits ++ '>' :: '>' :: rest) := by
      simp [tokenBody]
    rw [split, List.drop_left]
  have number : (digits ++ '>' :: '>' :: rest).takeWhile Char.isDigit = digits := by
    refine takeWhile_append_stop (fun _ member => isNumber.isDigit member) ?_
    rintro char ⟨⟩
    rfl
  have afterNumber :
      (tokenBody entity digits ++ rest).drop ((entity ++ ['_']).length + digits.length) =
        '>' :: '>' :: rest := by
    rw [← List.drop_drop, afterName, List.drop_left]
  have closed : ['>', '>'] <+: '>' :: '>' :: rest := ⟨rest, rfl⟩
  rw [tokenText, List.cons_append, List.cons_append]
  simp only [findToken, name, afterName, number, afterNumber, List.dropLast_concat,
    List.getLast?_concat, isEntity, isNumber, closed, and_self, if_true]

/-- A text starts with at most one token, and this one is found. -/
theorem findToken_eq_some_iff {text : Text} :
    findToken text = some (entity, digits) ↔
      IsEntity entity ∧ IsNumber digits ∧ tokenText entity digits <+: text := by
  constructor
  · intro found
    unfold findToken at found
    split at found
    case h_2 => exact absurd found nofun
    case h_1 body =>
    simp only at found
    split at found
    case isFalse => exact absurd found nofun
    case isTrue checks =>
    obtain ⟨isEntity, underscore, isNumber, rest, closed⟩ := checks
    obtain ⟨rfl, rfl⟩ := Prod.mk.inj (Option.some.inj found)
    refine ⟨isEntity, isNumber, rest, ?_⟩
    have nameSplit := List.prefix_iff_eq_append.mp (List.takeWhile_prefix isNameChar (l := body))
    have digitsSplit := List.prefix_iff_eq_append.mp (List.takeWhile_prefix Char.isDigit
      (l := body.drop (body.takeWhile isNameChar).length))
    have lastSplit := List.dropLast_append_getLast? _ underscore
    calc
      _ = '<' :: '<' :: ((body.takeWhile isNameChar).dropLast ++ ['_'] ++
            ((body.drop (body.takeWhile isNameChar).length).takeWhile Char.isDigit ++
              (['>', '>'] ++ rest))) := by
        simp [tokenText, tokenBody]
      _ = '<' :: '<' :: body := by
        rw [lastSplit, closed, ← List.drop_drop, digitsSplit, nameSplit]
  · rintro ⟨isEntity, isNumber, rest, rfl⟩
    exact findToken_tokenText isEntity isNumber rest

theorem tokenText_ne_nil : tokenText entity digits ≠ [] :=
  List.cons_ne_nil _ _

theorem findToken_of_ne {char : Char} (differs : char ≠ '<') (text : Text) :
    findToken (char :: text) = none := by
  rw [Option.eq_none_iff_forall_ne_some]
  rintro ⟨entity, digits⟩ found
  obtain ⟨-, -, rest, starts⟩ := findToken_eq_some_iff.mp found
  exact differs (List.cons.inj starts).1.symm

theorem fullToken_eq_some_iff {text : Text} :
    fullToken text = some (entity, digits) ↔
      IsEntity entity ∧ IsNumber digits ∧ tokenText entity digits = text := by
  rw [fullToken, Option.filter_eq_some_iff, findToken_eq_some_iff, decide_eq_true_eq]
  constructor
  · rintro ⟨⟨isEntity, isNumber, -⟩, whole⟩
    exact ⟨isEntity, isNumber, whole⟩
  · rintro ⟨isEntity, isNumber, whole⟩
    exact ⟨⟨isEntity, isNumber, whole ▸ List.prefix_rfl⟩, whole⟩

def TokenFree (text : Text) : Prop :=
  ∀ first last, first ++ last = text → findToken last = none

theorem tokenFree_iff {text : Text} :
    TokenFree text ↔ ∀ last ∈ text.tails, findToken last = none := by
  simp only [TokenFree, List.mem_tails]
  constructor
  · rintro free last ⟨first, split⟩
    exact free first last split
  · exact fun free first last split => free last ⟨first, split⟩

instance (text : Text) : Decidable (TokenFree text) :=
  have (last : Text) : Decidable (findToken last = none) :=
    decidable_of_iff _ Option.isNone_iff_eq_none
  decidable_of_iff _ tokenFree_iff.symm

theorem TokenFree.of_append {first last : Text} (free : TokenFree (first ++ last)) :
    TokenFree last := by
  intro before after split
  exact free (first ++ before) after (by rw [List.append_assoc, split])

theorem TokenFree.findToken_append {first last : Text} (free : TokenFree (first ++ last)) :
    findToken first = none := by
  rw [Option.eq_none_iff_forall_ne_some]
  rintro ⟨entity, digits⟩ found
  obtain ⟨isEntity, isNumber, starts⟩ := findToken_eq_some_iff.mp found
  have whole := findToken_eq_some_iff.mpr
    ⟨isEntity, isNumber, starts.trans (List.prefix_append first last)⟩
  exact absurd ((free [] _ rfl).symm.trans whole) nofun

theorem TokenFree.of_append_left {first last : Text} (free : TokenFree (first ++ last)) :
    TokenFree first := by
  intro before after split
  subst split
  rw [List.append_assoc] at free
  exact free.of_append.findToken_append

theorem TokenFree.slice {text : Text} (free : TokenFree text) (start stop : Nat) :
    TokenFree ((text.take stop).drop start) := by
  rw [← List.take_append_drop stop text] at free
  have taken := free.of_append_left
  rw [← List.take_append_drop start (text.take stop)] at taken
  exact taken.of_append

/-- Characters of a token after its first two. -/
def isBodyChar (char : Char) : Bool :=
  isNameChar char || char.isDigit || char = '>'

theorem isBodyChar_of_mem_tokenBody (isEntity : IsEntity entity) (isNumber : IsNumber digits)
    {char : Char} (member : char ∈ tokenBody entity digits) : isBodyChar char := by
  simp only [tokenBody, List.mem_append, List.mem_cons, List.not_mem_nil, or_false] at member
  rcases member with inEntity | rfl | inDigits | rfl | rfl
  · simp [isBodyChar, isEntity.isNameChar inEntity]
  · rfl
  · simp [isBodyChar, isNumber.isDigit inDigits]
  · rfl
  · rfl

def EndsTokens : Text → Prop
  | [] => True
  | char :: rest => isBodyChar char = false ∧ (char = '<' → rest.head? = some '<')

theorem endsTokens_tokenText (rest : Text) : EndsTokens (tokenText entity digits ++ rest) :=
  ⟨rfl, fun _ => rfl⟩

theorem EndsTokens.findToken_append {piece rest : Text} (ends : EndsTokens rest)
    (nonempty : piece ≠ []) (free : findToken piece = none) : findToken (piece ++ rest) = none := by
  rw [← Option.not_isSome_iff_eq_none, Option.isSome_iff_exists]
  rintro ⟨⟨entity, digits⟩, found⟩
  obtain ⟨isEntity, isNumber, after, split⟩ := findToken_eq_some_iff.mp found
  rcases List.append_eq_append_iff.mp split with ⟨inside, pieceEq, -⟩ | ⟨beyond, whole, restEq⟩
  · have foundInside : findToken piece = some (entity, digits) :=
      findToken_eq_some_iff.mpr ⟨isEntity, isNumber, inside, pieceEq.symm⟩
    exact absurd (free.symm.trans foundInside) nofun
  · have body {char : Char} (member : char ∈ tokenBody entity digits) : isBodyChar char :=
      isBodyChar_of_mem_tokenBody isEntity isNumber member
    cases beyond with
    | nil =>
        have foundWhole : findToken piece = some (entity, digits) :=
          findToken_eq_some_iff.mpr ⟨isEntity, isNumber, [], by simpa using whole⟩
        exact absurd (free.symm.trans foundWhole) nofun
    | cons char beyond =>
        rw [List.cons_append] at restEq
        subst restEq
        obtain ⟨notBody, doubled⟩ := ends
        match piece, whole with
        | [single], whole =>
            obtain ⟨-, rfl, tailEq⟩ : '<' = single ∧ '<' = char ∧ tokenBody entity digits = beyond := by
              simpa [tokenText] using whole
            have bracket : '<' ∈ tokenBody entity digits := by
              have first := doubled rfl
              rw [← tailEq] at first
              cases bodyEq : tokenBody entity digits with
              | nil => exact absurd bodyEq (by simp [tokenBody])
              | cons head rest =>
                  rw [bodyEq] at first
                  exact (Option.some.inj first) ▸ List.mem_cons_self
            exact absurd (body bracket) (by decide)
        | first :: second :: piece, whole =>
            obtain ⟨-, -, tailEq⟩ : '<' = first ∧ '<' = second ∧
                tokenBody entity digits = piece ++ char :: beyond := by
              simpa [tokenText] using whole
            have member : char ∈ tokenBody entity digits := by simp [tailEq]
            exact absurd (body member) (by simp [notBody])

end Grammar

theorem head?_toDigits_ne_zero {number : Nat} (positive : 0 < number) :
    ∃ char ∈ (Nat.toDigits 10 number).head?, char ≠ '0' := by
  induction number using Nat.strongRecOn with
  | ind number ih =>
      by_cases small : number < 10
      · have nonzero : ∀ digit < 10, 0 < digit → digit.digitChar ≠ '0' := by decide
        exact ⟨number.digitChar, by simp [Nat.toDigits_of_lt_base small],
          nonzero number small positive⟩
      · have split := Nat.toDigits_of_base_le (b := 10) (by decide) (Nat.le_of_not_lt small)
        obtain ⟨char, member, nonzero⟩ := ih (number / 10) (by omega) (by omega)
        refine ⟨char, ?_, nonzero⟩
        rw [split, List.head?_append_of_ne_nil _ Nat.toDigits_ne_nil]
        exact member

theorem isNumber_toDigits {number : Nat} (positive : 0 < number) (bounded : number < 10 ^ 6) :
    IsNumber (Nat.toDigits 10 number) := by
  obtain ⟨first, isFirst, nonzero⟩ := head?_toDigits_ne_zero positive
  refine ⟨Nat.length_toDigits_pos,
    (Nat.length_toDigits_le_iff (by decide) (by decide)).mpr bounded, ?_, ?_⟩
  · rw [List.all_eq_true]
    exact fun char member => Nat.isDigit_of_mem_toDigits (by decide) (by decide) member
  · rw [Option.any_eq_true]
    exact ⟨first, isFirst, decide_eq_true nonzero⟩

theorem fullToken_token {entity : String} {number : Nat} (isEntity : IsEntity entity.toList)
    (positive : 0 < number) (bounded : number < 10 ^ 6) :
    fullToken (token entity number) = some (entity.toList, Nat.toDigits 10 number) :=
  fullToken_eq_some_iff.mpr ⟨isEntity, isNumber_toDigits positive bounded, rfl⟩

theorem token_inj {entity other : String} {number otherNumber : Nat}
    (isEntity : IsEntity entity.toList) (isOther : IsEntity other.toList)
    (positive : 0 < number) (bounded : number < 10 ^ 6) (otherPositive : 0 < otherNumber)
    (otherBounded : otherNumber < 10 ^ 6)
    (equal : token entity number = token other otherNumber) :
    entity = other ∧ number = otherNumber := by
  have parsed := fullToken_token isEntity positive bounded
  rw [equal, fullToken_token isOther otherPositive otherBounded] at parsed
  obtain ⟨entityEq, digitsEq⟩ := Prod.mk.inj (Option.some.inj parsed)
  refine ⟨(String.toList_inj.mp entityEq).symm, ?_⟩
  have numberEq := congrArg (fun digits => Nat.ofDigitChars 10 digits 0) digitsEq
  simpa using numberEq.symm

end NaturalMold.Guardrails

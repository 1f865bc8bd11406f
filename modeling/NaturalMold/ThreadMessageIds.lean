import NaturalMold.CronExpressions

/-! # Thread message ids -/

namespace NaturalMold.ThreadMessageIds

open CronExpressions (Text toDigits_injective)

def splitLast (separator : Text) : Text → Option (Text × Text)
  | [] => none
  | char :: rest =>
      match splitLast separator rest with
      | some (before, after) => some (char :: before, after)
      | none =>
          if separator.isPrefixOf (char :: rest) then
            some ([], (char :: rest).drop separator.length)
          else none

def threadMessageTurnIdSeparator : Text :=
  "::moldy-turn-".toList

/-- An id that is not a string is given as `none`. -/
def sourceMessageIdFromThreadMessageId (messageId : Option Text) : Option Text :=
  match messageId with
  | none => none
  | some [] => none
  | some id =>
      match splitLast threadMessageTurnIdSeparator id with
      | none => some id
      | some (source, suffix) =>
          if suffix ≠ [] ∧ suffix.all Char.isDigit = true then some source else some id

def wholeNumber : ℤ → Text
  | .ofNat value => Nat.toDigits 10 value
  | .negSucc value => '-' :: Nat.toDigits 10 (value + 1)

def threadMessageIdForTurn (sourceId : Text) (turnIndex : ℤ) : Text :=
  sourceId ++ threadMessageTurnIdSeparator ++ wholeNumber turnIndex

def sourceOf (id : Text) : Text :=
  (sourceMessageIdFromThreadMessageId (some id)).getD id

theorem isDigit_of_mem_toDigits {value : ℕ} {char : Char} (member : char ∈ Nat.toDigits 10 value) :
    char.isDigit = true :=
  Nat.isDigit_of_mem_toDigits (by decide) (by decide) member

theorem wholeNumber_injective {first second : ℤ} (same : wholeNumber first = wholeNumber second) :
    first = second := by
  have unsigned (value : ℕ) : '-' ∉ Nat.toDigits 10 value := fun member =>
    absurd (isDigit_of_mem_toDigits member) (by decide)
  cases first with
  | ofNat first =>
      cases second with
      | ofNat second => exact congrArg Int.ofNat (toDigits_injective same)
      | negSucc second =>
          have digits : Nat.toDigits 10 first = '-' :: Nat.toDigits 10 (second + 1) := same
          exact absurd (digits ▸ List.mem_cons_self) (unsigned first)
  | negSucc first =>
      cases second with
      | ofNat second =>
          have digits : Nat.toDigits 10 second = '-' :: Nat.toDigits 10 (first + 1) := same.symm
          exact absurd (digits ▸ List.mem_cons_self) (unsigned second)
      | negSucc second =>
          have digits := toDigits_injective (List.cons.inj same).2
          exact congrArg Int.negSucc (Nat.succ.inj digits)

theorem threadMessageIdForTurn_injective {sourceId : Text} {first second : ℤ}
    (same : threadMessageIdForTurn sourceId first = threadMessageIdForTurn sourceId second) :
    first = second :=
  wholeNumber_injective (List.append_cancel_left same)

/-- A text without the separator's letter has no occurrence of it. -/
theorem splitLast_eq_none {text : Text} (plain : 'm' ∉ text) :
    splitLast threadMessageTurnIdSeparator text = none := by
  induction text with
  | nil => rfl
  | cons char text ih =>
      rw [splitLast, ih (List.not_mem_of_not_mem_cons plain)]
      dsimp only
      rw [if_neg]
      intro start
      have within := (List.isPrefixOf_iff_prefix.mp start).subset
      exact plain (within (by decide))

theorem splitLast_cons_of_none (char : Char) {text : Text}
    (absent : splitLast threadMessageTurnIdSeparator text = none)
    (other : threadMessageTurnIdSeparator.isPrefixOf (char :: text) = false) :
    splitLast threadMessageTurnIdSeparator (char :: text) = none := by
  rw [splitLast, absent]
  dsimp only
  rw [if_neg (by simp [other])]

theorem splitLast_separator {suffix : Text} (plain : 'm' ∉ suffix) :
    splitLast threadMessageTurnIdSeparator (threadMessageTurnIdSeparator ++ suffix) =
      some ([], suffix) := by
  have tail : splitLast threadMessageTurnIdSeparator ("oldy-turn-".toList ++ suffix) = none := by
    apply splitLast_eq_none
    rw [List.mem_append, not_or]
    exact ⟨by decide, plain⟩
  have letter := splitLast_cons_of_none 'm' tail rfl
  have colon := splitLast_cons_of_none ':' letter rfl
  have start : threadMessageTurnIdSeparator.isPrefixOf
      (':' :: ':' :: 'm' :: ("oldy-turn-".toList ++ suffix)) = true :=
    List.isPrefixOf_iff_prefix.mpr ⟨suffix, rfl⟩
  change splitLast threadMessageTurnIdSeparator
    (':' :: ':' :: 'm' :: ("oldy-turn-".toList ++ suffix)) = some ([], suffix)
  rw [splitLast, colon]
  dsimp only
  rw [if_pos start]
  rfl

theorem splitLast_append (source : Text) {text before suffix : Text}
    (found : splitLast threadMessageTurnIdSeparator text = some (before, suffix)) :
    splitLast threadMessageTurnIdSeparator (source ++ text) = some (source ++ before, suffix) := by
  induction source with
  | nil => exact found
  | cons char source ih => rw [List.cons_append, splitLast, ih, List.cons_append]

theorem sourceMessageId_threadMessageIdForTurn (sourceId : Text) (turn : ℕ) :
    sourceMessageIdFromThreadMessageId (some (threadMessageIdForTurn sourceId turn)) =
      some sourceId := by
  have plain : 'm' ∉ Nat.toDigits 10 turn := fun member =>
    absurd (isDigit_of_mem_toDigits member) (by decide)
  have split : splitLast threadMessageTurnIdSeparator (threadMessageIdForTurn sourceId turn) =
      some (sourceId, Nat.toDigits 10 turn) := by
    have found := splitLast_append sourceId (splitLast_separator plain)
    rw [List.append_nil] at found
    rw [← found, threadMessageIdForTurn, List.append_assoc]
    rfl
  have numbered : Nat.toDigits 10 turn ≠ [] ∧ (Nat.toDigits 10 turn).all Char.isDigit = true :=
    ⟨Nat.toDigits_ne_nil, List.all_eq_true.mpr fun _ => isDigit_of_mem_toDigits⟩
  unfold sourceMessageIdFromThreadMessageId
  split
  · next same => cases same
  · next same =>
      rw [Option.some.injEq] at same
      rw [same] at split
      cases split
  · next same =>
      rw [Option.some.injEq] at same
      subst same
      rw [split]
      dsimp only
      rw [if_pos numbered]

theorem sourceOf_threadMessageIdForTurn (sourceId : Text) {turn : ℤ} (counted : 0 ≤ turn) :
    sourceOf (threadMessageIdForTurn sourceId turn) = sourceId := by
  obtain ⟨value, rfl⟩ := Int.eq_ofNat_of_zero_le counted
  rw [sourceOf, sourceMessageId_threadMessageIdForTurn]
  rfl

theorem threadMessageIdForTurn_ne_nil (sourceId : Text) (turn : ℤ) :
    threadMessageIdForTurn sourceId turn ≠ [] := by
  intro empty
  have parts := List.append_eq_nil_iff.mp (List.append_eq_nil_iff.mp empty).1
  exact absurd parts.2 (by decide)

end NaturalMold.ThreadMessageIds

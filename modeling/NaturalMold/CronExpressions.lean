import NaturalMold.PythonText

/-!
# Cron expressions of numbers

An expression is five words; a word is a star or numbers separated by commas.
-/

namespace NaturalMold.CronExpressions

open PythonText (isSpace)

abbrev Text := List Char

/-- `text.split()`. -/
def words (text : Text) : List Text :=
  (text.splitOnP isSpace).filter (· ≠ [])

def number (text : Text) : Option ℕ :=
  if text ≠ [] ∧ text.all Char.isDigit then some (Nat.ofDigitChars 10 text 0) else none

theorem isSpace_of_isDigit {char : Char} (digit : char.isDigit) : isSpace char = false := by
  have bounds : 48 ≤ char.toNat ∧ char.toNat ≤ 57 := by
    rw [Char.isDigit, Bool.and_eq_true, decide_eq_true_eq, decide_eq_true_eq] at digit
    exact ⟨UInt32.le_iff_toNat_le.mp digit.1, UInt32.le_iff_toNat_le.mp digit.2⟩
  rw [isSpace, PythonText.spaceRanges]
  simp only [List.any_cons, List.any_nil, Bool.or_false, Bool.or_eq_false_iff,
    Bool.and_eq_false_iff, decide_eq_false_iff_not]
  omega

theorem ne_comma_of_isDigit {char : Char} (digit : char.isDigit) : char ≠ ',' := by
  rintro rfl
  exact absurd digit (by decide)

def Digits (text : Text) : Prop :=
  text ≠ [] ∧ ∀ char ∈ text, char.isDigit

theorem number_eq_some_iff {text : Text} {value : ℕ} :
    number text = some value ↔ Digits text ∧ Nat.ofDigitChars 10 text 0 = value := by
  rw [number]
  split
  · rename_i digits
    rw [Option.some.injEq, Digits, ← List.all_eq_true]
    exact ⟨fun same => ⟨digits, same⟩, And.right⟩
  · rename_i notDigits
    rw [Digits, ← List.all_eq_true]
    exact ⟨fun none => absurd none (by simp), fun digits => absurd digits.1 notDigits⟩

theorem digits_of_number {text : Text} {value : ℕ} (read : number text = some value) :
    Digits text :=
  (number_eq_some_iff.mp read).1

theorem number_toDigits (value : ℕ) : number (Nat.toDigits 10 value) = some value := by
  refine number_eq_some_iff.mpr ⟨⟨Nat.toDigits_ne_nil, fun char member => ?_⟩, ?_⟩
  · exact Nat.isDigit_of_mem_toDigits (by decide) (by decide) member
  · exact Nat.ofDigitChars_ten_toDigits

theorem toDigits_injective {first second : ℕ}
    (same : Nat.toDigits 10 first = Nat.toDigits 10 second) : first = second := by
  have read := number_toDigits first
  rw [same, number_toDigits] at read
  exact (Option.some.inj read).symm

/-- A word, without spaces. -/
structure Solid (word : Text) : Prop where
  present : word ≠ []
  noSpace : ∀ char ∈ word, isSpace char = false

theorem words_cons {word : Text} (solid : Solid word) (rest : Text) :
    words (word ++ ' ' :: rest) = word :: words rest := by
  rw [words, List.splitOnP_append_cons_of_forall_mem solid.noSpace ' ' (by decide),
    List.filter_cons_of_pos (by simpa using solid.present)]
  rfl

theorem words_singleton {word : Text} (solid : Solid word) : words word = [word] := by
  rw [words, List.splitOnP_eq_singleton solid.noSpace,
    List.filter_cons_of_pos (by simpa using solid.present), List.filter_nil]

theorem solid_of_digits {word : Text} (digits : Digits word) : Solid word :=
  ⟨digits.1, fun _ member => isSpace_of_isDigit (digits.2 _ member)⟩

theorem dropWhile_isSpace_append {word : Text} (solid : Solid word) (rest : Text) :
    (word ++ rest).dropWhile isSpace = word ++ rest := by
  cases word with
  | nil => exact absurd rfl solid.present
  | cons char word =>
      rw [List.cons_append, List.dropWhile_cons, if_neg]
      rw [solid.noSpace char List.mem_cons_self]
      exact Bool.false_ne_true

theorem Solid.reverse {word : Text} (solid : Solid word) : Solid word.reverse :=
  ⟨by simpa using solid.present,
    fun char member => solid.noSpace char (List.mem_reverse.mp member)⟩

/-- Between two words nothing is stripped. -/
theorem strip_between {first last : Text} (firstSolid : Solid first) (lastSolid : Solid last)
    (middle : Text) :
    PythonText.strip (first ++ (middle ++ last)) = first ++ (middle ++ last) := by
  have reversed : (first ++ (middle ++ last)).reverse =
      last.reverse ++ (first ++ middle).reverse := by
    rw [← List.append_assoc, List.reverse_append]
  rw [PythonText.strip, dropWhile_isSpace_append firstSolid, reversed,
    dropWhile_isSpace_append lastSolid.reverse, ← reversed, List.reverse_reverse]

theorem mem_intercalate_comma {char : Char} {texts : List Text}
    (member : char ∈ [','].intercalate texts) :
    char = ',' ∨ ∃ text ∈ texts, char ∈ text := by
  induction texts with
  | nil => exact absurd member List.not_mem_nil
  | cons text texts ih =>
      cases texts with
      | nil => exact .inr ⟨text, List.mem_cons_self, by simpa using member⟩
      | cons next texts =>
          rw [List.intercalate_cons_cons, List.append_assoc] at member
          rcases List.mem_append.mp member with first | later
          · exact .inr ⟨text, List.mem_cons_self, first⟩
          · rcases List.mem_cons.mp later with comma | rest
            · exact .inl comma
            · apply (ih rest).imp_right
              rintro ⟨found, foundMember, inFound⟩
              exact ⟨found, List.mem_cons_of_mem _ foundMember, inFound⟩

theorem star_solid : Solid ['*'] where
  present := nofun
  noSpace := by
    intro char member
    rw [List.mem_singleton.mp member]
    decide

inductive CronField
  | every
  | values (numbers : List ℕ)
  deriving DecidableEq

namespace CronField

def parse (text : Text) : Option CronField :=
  if text = ['*'] then some every else ((text.splitOn ',').mapM number).map values

def Admits : CronField → ℕ → Prop
  | every, _ => True
  | values numbers, value => value ∈ numbers

instance (field : CronField) (value : ℕ) : Decidable (field.Admits value) :=
  match field with
  | every => inferInstanceAs (Decidable True)
  | values numbers => inferInstanceAs (Decidable (value ∈ numbers))

def Within : CronField → ℕ → ℕ → Prop
  | every, _, _ => True
  | values numbers, low, high => ∀ value ∈ numbers, low ≤ value ∧ value ≤ high

theorem parse_star : parse ['*'] = some every :=
  rfl

theorem ne_star_of_digits {text : Text} (digits : Digits text) : text ≠ ['*'] := by
  rintro rfl
  exact absurd (digits.2 '*' List.mem_cons_self) (by decide)

theorem parse_number {text : Text} {value : ℕ} (read : number text = some value) :
    parse text = some (values [value]) := by
  have digits := digits_of_number read
  have noComma : ',' ∉ text := fun member => ne_comma_of_isDigit (digits.2 _ member) rfl
  rw [parse, if_neg (ne_star_of_digits digits), List.splitOn_eq_singleton noComma,
    List.mapM_cons, read]
  rfl

theorem mapM_number_toDigits (numbers : List ℕ) :
    (numbers.map (Nat.toDigits 10)).mapM number = some numbers := by
  induction numbers with
  | nil => rfl
  | cons value numbers ih =>
      rw [List.map_cons, List.mapM_cons, number_toDigits, ih]
      rfl

/-- Numbers that are joined with commas are read back. -/
theorem parse_intercalate {numbers : List ℕ} (present : numbers ≠ []) :
    parse ([','].intercalate (numbers.map (Nat.toDigits 10))) = some (values numbers) := by
  have noComma : ∀ text ∈ numbers.map (Nat.toDigits 10), ',' ∉ text := by
    intro text member comma
    obtain ⟨value, _, rfl⟩ := List.mem_map.mp member
    exact ne_comma_of_isDigit (digits_of_number (number_toDigits value) |>.2 _ comma) rfl
  have split := List.splitOn_intercalate ',' noComma (by simpa using present)
  rw [parse, if_neg, split, mapM_number_toDigits]
  · rfl
  · intro star
    rw [star] at split
    have single : numbers.map (Nat.toDigits 10) = [['*']] := split.symm.trans (by decide)
    have member : ['*'] ∈ numbers.map (Nat.toDigits 10) := by
      rw [single]
      exact List.mem_cons_self
    obtain ⟨value, _, same⟩ := List.mem_map.mp member
    exact ne_star_of_digits (digits_of_number (number_toDigits value)) same

end CronField

structure CronFields where
  minute : CronField
  hour : CronField
  day : CronField
  month : CronField
  dayOfWeek : CronField
  deriving DecidableEq

/-- A wall-clock time; `weekday` is 0 on Monday. -/
structure LocalTime where
  year : ℕ
  month : ℕ
  day : ℕ
  weekday : ℕ
  hour : ℕ
  minute : ℕ
  second : ℕ
  deriving DecidableEq

def crontab (text : Text) : Option CronFields :=
  match words text with
  | [minute, hour, day, month, dayOfWeek] => do
      return ⟨← CronField.parse minute, ← CronField.parse hour, ← CronField.parse day,
        ← CronField.parse month, ← CronField.parse dayOfWeek⟩
  | _ => none

structure CronFields.InRange (fields : CronFields) : Prop where
  minute : fields.minute.Within 0 59
  hour : fields.hour.Within 0 23
  day : fields.day.Within 1 31
  month : fields.month.Within 1 12
  dayOfWeek : fields.dayOfWeek.Within 0 6

/-- The trigger fires at the start of the minutes that all fields admit. -/
structure CronFields.Fires (fields : CronFields) (time : LocalTime) : Prop where
  second : time.second = 0
  minute : fields.minute.Admits time.minute
  hour : fields.hour.Admits time.hour
  day : fields.day.Admits time.day
  month : fields.month.Admits time.month
  dayOfWeek : fields.dayOfWeek.Admits time.weekday

theorem crontab_eq {minute hour day month dayOfWeek : Text} {fields : CronFields}
    (solid : ∀ word ∈ [minute, hour, day, month, dayOfWeek], Solid word)
    (minuteEq : CronField.parse minute = some fields.minute)
    (hourEq : CronField.parse hour = some fields.hour)
    (dayEq : CronField.parse day = some fields.day)
    (monthEq : CronField.parse month = some fields.month)
    (dayOfWeekEq : CronField.parse dayOfWeek = some fields.dayOfWeek) :
    crontab (minute ++ ' ' :: (hour ++ ' ' :: (day ++ ' ' :: (month ++ ' ' :: dayOfWeek)))) =
      some fields := by
  simp only [List.forall_mem_cons, List.not_mem_nil, false_implies, implies_true, and_true] at solid
  obtain ⟨minuteSolid, hourSolid, daySolid, monthSolid, dayOfWeekSolid⟩ := solid
  rw [crontab, words_cons minuteSolid, words_cons hourSolid, words_cons daySolid,
    words_cons monthSolid, words_singleton dayOfWeekSolid]
  simp only [minuteEq, hourEq, dayEq, monthEq, dayOfWeekEq]
  rfl

end NaturalMold.CronExpressions

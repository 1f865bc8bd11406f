import Mathlib.Data.Int.Notation
import Mathlib.Data.List.Range
import Mathlib.Tactic.IntervalCases

/-! # Days and months of the calendar -/

namespace NaturalMold.CalendarMonths

def daysBeforeYear (year : ℤ) : ℤ :=
  (year - 1) * 365 + (year - 1) / 4 - (year - 1) / 100 + (year - 1) / 400

def isLeap (year : ℤ) : Bool :=
  year % 4 = 0 && (year % 100 ≠ 0 || year % 400 = 0)

def daysBeforeMonth (leap : Bool) : ℕ → ℤ
  | 0 => 0
  | 1 => 31
  | 2 => if leap then 60 else 59
  | 3 => if leap then 91 else 90
  | 4 => if leap then 121 else 120
  | 5 => if leap then 152 else 151
  | 6 => if leap then 182 else 181
  | 7 => if leap then 213 else 212
  | 8 => if leap then 244 else 243
  | 9 => if leap then 274 else 273
  | 10 => if leap then 305 else 304
  | 11 => if leap then 335 else 334
  | _ => if leap then 366 else 365

def monthStart (month : ℤ) : ℤ :=
  daysBeforeYear (month / 12 + 1) + daysBeforeMonth (isLeap (month / 12 + 1)) (month % 12).toNat

def yearOf (day : ℤ) : ℤ :=
  let guess := 400 * day / 146097 + 1
  if day < daysBeforeYear guess then guess - 1
  else if daysBeforeYear (guess + 1) ≤ day then guess + 1
  else guess

def monthOf (day : ℤ) : ℤ :=
  let year := yearOf day
  12 * (year - 1) + ((List.range 11).countP fun month =>
    daysBeforeMonth (isLeap year) (month + 1) ≤ day - daysBeforeYear year)

theorem daysBeforeYear_succ (year : ℤ) :
    daysBeforeYear (year + 1) = daysBeforeYear year + if isLeap year then 366 else 365 := by
  have leap : isLeap year = true ↔ year % 4 = 0 ∧ (year % 100 ≠ 0 ∨ year % 400 = 0) := by
    simp [isLeap]
  rw [daysBeforeYear, daysBeforeYear]
  split
  · next isLeapYear =>
      have := leap.mp isLeapYear
      omega
  · next common =>
      have := mt leap.mpr common
      omega

theorem yearOf_spec (day : ℤ) :
    daysBeforeYear (yearOf day) ≤ day ∧ day < daysBeforeYear (yearOf day + 1) := by
  rw [yearOf]
  split
  · next before =>
      rw [daysBeforeYear] at before ⊢
      rw [daysBeforeYear]
      omega
  · next within =>
      split
      · next after =>
          rw [daysBeforeYear] at after ⊢
          rw [daysBeforeYear]
          omega
      · omega

theorem monthInYear_spec (leap : Bool) (day : ℤ) (nonneg : 0 ≤ day)
    (within : day < if leap then 366 else 365) :
    daysBeforeMonth leap ((List.range 11).countP fun month =>
        daysBeforeMonth leap (month + 1) ≤ day) ≤ day ∧
      day < daysBeforeMonth leap (((List.range 11).countP fun month =>
        daysBeforeMonth leap (month + 1) ≤ day) + 1) := by
  have every : ∀ leap : Bool, ∀ day : Fin 366, (day : ℤ) < (if leap then 366 else 365) →
      daysBeforeMonth leap ((List.range 11).countP fun month =>
          daysBeforeMonth leap (month + 1) ≤ day) ≤ day ∧
        day < daysBeforeMonth leap (((List.range 11).countP fun month =>
          daysBeforeMonth leap (month + 1) ≤ day) + 1) := by
    decide +kernel
  have small : day.toNat < 366 := by
    split at within <;> omega
  have same : (day.toNat : ℤ) = day := by omega
  have found := every leap ⟨day.toNat, small⟩
  simp only [same] at found
  exact found within

theorem monthStart_succ (month : ℤ) :
    monthStart (month + 1) = daysBeforeYear (month / 12 + 1) +
      daysBeforeMonth (isLeap (month / 12 + 1)) ((month % 12).toNat + 1) := by
  rw [monthStart]
  by_cases december : month % 12 = 11
  · have year : (month + 1) / 12 + 1 = month / 12 + 1 + 1 := by omega
    have first : ((month + 1) % 12).toNat = 0 := by omega
    have last : (month % 12).toNat + 1 = 12 := by omega
    rw [year, first, last, daysBeforeYear_succ]
    simp [daysBeforeMonth]
  · have year : (month + 1) / 12 = month / 12 := by omega
    have next : ((month + 1) % 12).toNat = (month % 12).toNat + 1 := by omega
    rw [year, next]

/-- A month has between 28 and 31 days. -/
theorem monthStart_add_le (month : ℤ) :
    monthStart month + 28 ≤ monthStart (month + 1) ∧
      monthStart (month + 1) ≤ monthStart month + 31 := by
  have every : ∀ leap : Bool, ∀ month : Fin 12,
      daysBeforeMonth leap month + 28 ≤ daysBeforeMonth leap (month + 1) ∧
        daysBeforeMonth leap (month + 1) ≤ daysBeforeMonth leap month + 31 := by
    decide
  have small : (month % 12).toNat < 12 := by omega
  have lengths := every (isLeap (month / 12 + 1)) ⟨_, small⟩
  rw [monthStart_succ, monthStart]
  dsimp only at lengths
  omega

theorem monthOf_spec (day : ℤ) :
    monthStart (monthOf day) ≤ day ∧ day < monthStart (monthOf day + 1) := by
  obtain ⟨first, last⟩ := yearOf_spec day
  rw [daysBeforeYear_succ] at last
  have within := monthInYear_spec (isLeap (yearOf day)) (day - daysBeforeYear (yearOf day))
    (by omega) (by omega)
  have few := @List.countP_le_length _ (fun month =>
    decide (daysBeforeMonth (isLeap (yearOf day)) (month + 1) ≤
      day - daysBeforeYear (yearOf day))) (List.range 11)
  rw [List.length_range] at few
  have split : ∀ place : ℕ, place ≤ 11 →
      (12 * (yearOf day - 1) + (place : ℤ)) / 12 + 1 = yearOf day ∧
        ((12 * (yearOf day - 1) + (place : ℤ)) % 12).toNat = place := by
    intro place small
    omega
  rw [monthStart_succ, monthStart, monthOf]
  obtain ⟨year, place⟩ := split _ few
  rw [year, place]
  omega

theorem monthStart_lt_of_lt {first second : ℤ} (before : first < second) :
    monthStart first + 28 ≤ monthStart second := by
  obtain ⟨steps, rfl⟩ : ∃ steps : ℕ, second = first + 1 + steps :=
    ⟨(second - first - 1).toNat, by omega⟩
  clear before
  induction steps with
  | zero =>
      rw [Int.natCast_zero, Int.add_zero]
      exact (monthStart_add_le first).1
  | succ steps ih =>
      have next := (monthStart_add_le (first + 1 + steps)).1
      rw [show first + 1 + ((steps + 1 : ℕ) : ℤ) = first + 1 + steps + 1 by omega]
      omega

theorem monthStart_mono {first second : ℤ} (before : first ≤ second) :
    monthStart first ≤ monthStart second := by
  by_cases same : first = second
  · rw [same]
  · have := monthStart_lt_of_lt (show first < second by omega)
    omega

theorem monthOf_eq {day month : ℤ} (first : monthStart month ≤ day)
    (last : day < monthStart (month + 1)) : monthOf day = month := by
  obtain ⟨ownFirst, ownLast⟩ := monthOf_spec day
  by_contra different
  rcases Int.lt_or_gt_of_ne different with before | after
  · have := monthStart_mono (show monthOf day + 1 ≤ month from before)
    omega
  · have := monthStart_mono (show month + 1 ≤ monthOf day from after)
    omega

@[simp]
theorem monthOf_monthStart (month : ℤ) : monthOf (monthStart month) = month := by
  apply monthOf_eq (Int.le_refl _)
  have := (monthStart_add_le month).1
  omega

end NaturalMold.CalendarMonths

import NaturalMold.CalendarMonths

/-! # Billing periods -/

namespace NaturalMold.BillingPeriods

open CalendarMonths

/-- The microseconds of a day; an instant or a wall time counts them from the first day. -/
def dayLength : ℤ :=
  86400000000

/-- The day of an instant or a wall time. -/
def dateOf (moment : ℤ) : ℤ :=
  moment / dayLength

/-- A time zone: its offset at each instant, and the one by which a wall time is converted.  A
wall time that is skipped is converted to a later one. -/
structure Zone where
  utcoffset : ℤ → ℤ
  wallOffset : ℤ → ℤ
  utcoffsetWithinDay : ∀ moment, -dayLength < utcoffset moment ∧ utcoffset moment < dayLength
  wallOffsetWithinDay : ∀ wall, -dayLength < wallOffset wall ∧ wallOffset wall < dayLength
  datesNeverDecrease : ∀ earlier later, earlier ≤ later →
    dateOf (earlier + utcoffset earlier) ≤ dateOf (later + utcoffset later)
  notBeforeWall : ∀ wall,
    wall ≤ wall - wallOffset wall + utcoffset (wall - wallOffset wall)

namespace Zone

variable (zone : Zone)

/-- `moment.astimezone(zone)`. -/
def toLocal (moment : ℤ) : ℤ :=
  moment + zone.utcoffset moment

/-- `wall.astimezone(UTC)`, of a wall time of the zone. -/
def toUtc (wall : ℤ) : ℤ :=
  wall - zone.wallOffset wall

def fixed (offset : ℤ) (within : -dayLength < offset ∧ offset < dayLength) : Zone where
  utcoffset _ := offset
  wallOffset _ := offset
  utcoffsetWithinDay _ := within
  wallOffsetWithinDay _ := within
  datesNeverDecrease earlier later before := by
    apply Int.ediv_le_ediv (by decide)
    omega
  notBeforeWall wall := by omega

end Zone

/-- `date.replace(day=1)`. -/
def replaceDayOne (day : ℤ) : ℤ :=
  monthStart (monthOf day)

def firstOfNext (first : ℤ) : ℤ :=
  replaceDayOne (first + 32)

/-- `f"{first:%Y-%m}"`: the year and the month of a day. -/
structure MonthKey where
  year : ℤ
  month : ℤ
  deriving DecidableEq

def monthKey (first : ℤ) : MonthKey where
  year := monthOf first / 12 + 1
  month := monthOf first % 12 + 1

structure Period where
  start : ℤ
  finish : ℤ
  resetsAt : ℤ
  key : MonthKey
  deriving DecidableEq

/-- `_boundary`: the first UTC day that is counted for the local month from a day on. -/
def boundary (first : ℤ) (zone : Zone) : ℤ :=
  let moment := zone.toUtc (first * dayLength)
  if moment % dayLength = 0 then dateOf moment else dateOf moment + 1

def periodOf (zone : Zone) (now : ℤ) : Period :=
  let today := replaceDayOne (dateOf (zone.toLocal now))
  let first := if dateOf now < boundary today zone then replaceDayOne (today - 1) else today
  { start := boundary first zone
    finish := boundary (firstOfNext first) zone
    resetsAt := boundary (firstOfNext first) zone * dayLength
    key := monthKey first }

/-- A day of spend, as `spend_used` sums it. -/
structure DailySpend where
  date : ℤ
  cost : ℕ

def Period.Counts (period : Period) (day : ℤ) : Prop :=
  period.start ≤ day ∧ day < period.finish

instance (period : Period) (day : ℤ) : Decidable (period.Counts day) :=
  inferInstanceAs (Decidable (_ ∧ _))

/-- `spend_used`, of the rows of one scope. -/
def spendUsed (rows : List DailySpend) (period : Period) : ℕ :=
  rows.foldl (fun total row => if period.Counts row.date then total + row.cost else total) 0

section

variable (zone : Zone)

def firstCounted (month : ℤ) : ℤ :=
  boundary (monthStart month) zone

/-- The first counted midnight is less than a day after the start of the local month. -/
theorem boundary_spec (first : ℤ) :
    zone.toUtc (first * dayLength) ≤ boundary first zone * dayLength ∧
      boundary first zone * dayLength < zone.toUtc (first * dayLength) + dayLength := by
  rw [boundary, dateOf, dayLength]
  split <;> omega

theorem firstOfNext_monthStart (month : ℤ) :
    firstOfNext (monthStart month) = monthStart (month + 1) := by
  have here := monthStart_add_le month
  have next := monthStart_add_le (month + 1)
  have month : monthOf (monthStart month + 32) = month + 1 := by
    apply monthOf_eq <;> omega
  rw [firstOfNext, replaceDayOne, month]

theorem replaceDayOne_pred (month : ℤ) :
    replaceDayOne (monthStart month - 1) = monthStart (month - 1) := by
  have before := monthStart_add_le (month - 1)
  rw [Int.sub_add_cancel] at before
  have month : monthOf (monthStart month - 1) = month - 1 := by
    apply monthOf_eq
    · omega
    · rw [Int.sub_add_cancel]
      omega
  rw [replaceDayOne, month]

theorem firstCounted_lt {first second : ℤ} (before : first < second) :
    firstCounted zone first < firstCounted zone second := by
  have early := (boundary_spec zone (monthStart first)).2
  have late := (boundary_spec zone (monthStart second)).1
  have days := monthStart_lt_of_lt before
  have firstOffset := zone.wallOffsetWithinDay (monthStart first * dayLength)
  have secondOffset := zone.wallOffsetWithinDay (monthStart second * dayLength)
  rw [Zone.toUtc, dayLength] at early late
  rw [dayLength] at firstOffset secondOffset
  rw [firstCounted, firstCounted]
  omega

theorem firstCounted_mono {first second : ℤ} (before : first ≤ second) :
    firstCounted zone first ≤ firstCounted zone second := by
  by_cases same : first = second
  · rw [same]
  · have := firstCounted_lt zone (show first < second by omega)
    omega

theorem month_unique {day first second : ℤ} (firstStart : firstCounted zone first ≤ day)
    (firstEnd : day < firstCounted zone (first + 1)) (secondStart : firstCounted zone second ≤ day)
    (secondEnd : day < firstCounted zone (second + 1)) : first = second := by
  by_contra different
  rcases Int.lt_or_gt_of_ne different with before | after
  · have := firstCounted_mono zone (show first + 1 ≤ second from before)
    omega
  · have := firstCounted_mono zone (show second + 1 ≤ first from after)
    omega

def periodFor (month : ℤ) : Period where
  start := firstCounted zone month
  finish := firstCounted zone (month + 1)
  resetsAt := firstCounted zone (month + 1) * dayLength
  key := { year := month / 12 + 1, month := month % 12 + 1 }

@[simp]
theorem periodFor_start (month : ℤ) : (periodFor zone month).start = firstCounted zone month :=
  rfl

@[simp]
theorem periodFor_finish (month : ℤ) :
    (periodFor zone month).finish = firstCounted zone (month + 1) :=
  rfl

@[simp]
theorem periodFor_resetsAt (month : ℤ) :
    (periodFor zone month).resetsAt = firstCounted zone (month + 1) * dayLength :=
  rfl

def monthAt (now : ℤ) : ℤ :=
  let month := monthOf (dateOf (zone.toLocal now))
  if dateOf now < firstCounted zone month then month - 1 else month

theorem periodOf_eq (now : ℤ) : periodOf zone now = periodFor zone (monthAt zone now) := by
  rw [periodOf, monthAt, replaceDayOne]
  by_cases early : dateOf now < firstCounted zone (monthOf (dateOf (zone.toLocal now)))
  · rw [firstCounted] at early
    rw [if_pos early, replaceDayOne_pred]
    rw [← firstCounted] at early
    simp only [if_pos early, firstOfNext_monthStart, monthKey, monthOf_monthStart]
    rfl
  · rw [firstCounted] at early
    rw [if_neg early]
    rw [← firstCounted] at early
    simp only [if_neg early, firstOfNext_monthStart, monthKey, monthOf_monthStart]
    rfl

theorem dateOf_lt_firstCounted (now : ℤ) :
    dateOf now < firstCounted zone (monthOf (dateOf (zone.toLocal now)) + 1) := by
  by_contra late
  have within := (monthOf_spec (dateOf (zone.toLocal now))).2
  have start := (boundary_spec zone
    (monthStart (monthOf (dateOf (zone.toLocal now)) + 1))).1
  have reached : zone.toUtc
      (monthStart (monthOf (dateOf (zone.toLocal now)) + 1) * dayLength) ≤ now := by
    rw [firstCounted, dateOf, dayLength] at late
    rw [dayLength] at start ⊢
    omega
  -- from the start of the local month on, all local dates are in it or later
  have dates := zone.datesNeverDecrease _ _ reached
  have wall := zone.notBeforeWall
    (monthStart (monthOf (dateOf (zone.toLocal now)) + 1) * dayLength)
  rw [← Zone.toUtc] at wall
  rw [← Zone.toLocal, ← Zone.toLocal] at dates
  rw [← Zone.toLocal] at wall
  have first : monthStart (monthOf (dateOf (zone.toLocal now)) + 1) ≤
      dateOf (zone.toLocal (zone.toUtc
        (monthStart (monthOf (dateOf (zone.toLocal now)) + 1) * dayLength))) := by
    rw [dateOf]
    apply Int.le_ediv_of_mul_le (by decide) wall
  omega

theorem firstCounted_pred_le_dateOf (now : ℤ) :
    firstCounted zone (monthOf (dateOf (zone.toLocal now)) - 1) ≤ dateOf now := by
  have within := (monthOf_spec (dateOf (zone.toLocal now))).1
  have days := (monthStart_add_le (monthOf (dateOf (zone.toLocal now)) - 1)).1
  rw [Int.sub_add_cancel] at days
  have start := (boundary_spec zone
    (monthStart (monthOf (dateOf (zone.toLocal now)) - 1))).2
  have wallOffset := zone.wallOffsetWithinDay
    (monthStart (monthOf (dateOf (zone.toLocal now)) - 1) * dayLength)
  have offset := zone.utcoffsetWithinDay now
  have here : dateOf (zone.toLocal now) * dayLength ≤ now + zone.utcoffset now :=
    Int.ediv_mul_le _ (by decide)
  rw [firstCounted]
  rw [Zone.toUtc] at start
  generalize dateOf (zone.toLocal now) = today at *
  rw [dateOf]
  rw [dayLength] at *
  omega

theorem monthAt_spec (now : ℤ) :
    firstCounted zone (monthAt zone now) ≤ dateOf now ∧
      dateOf now < firstCounted zone (monthAt zone now + 1) := by
  rw [monthAt]
  by_cases early : dateOf now < firstCounted zone (monthOf (dateOf (zone.toLocal now)))
  · simp only [if_pos early, Int.sub_add_cancel]
    exact ⟨firstCounted_pred_le_dateOf zone now, early⟩
  · simp only [if_neg early]
    exact ⟨Int.not_lt.mp early, dateOf_lt_firstCounted zone now⟩

theorem monthAt_eq {now month : ℤ} (start : firstCounted zone month ≤ dateOf now)
    (finish : dateOf now < firstCounted zone (month + 1)) : monthAt zone now = month :=
  month_unique zone (monthAt_spec zone now).1 (monthAt_spec zone now).2 start finish

theorem dateOf_midnight (day : ℤ) : dateOf (day * dayLength) = day :=
  Int.mul_ediv_cancel day (by decide)

end

/-- The periods of a zone are a partition of the days. -/
structure TilesCalendar (zone : Zone) : Prop where
  holds : ∀ now, (periodOf zone now).start ≤ dateOf now ∧ dateOf now < (periodOf zone now).finish
  resets : ∀ now, now < (periodOf zone now).resetsAt
  disjoint : ∀ first second, periodOf zone first = periodOf zone second ∨
    (periodOf zone first).finish ≤ (periodOf zone second).start ∨
    (periodOf zone second).finish ≤ (periodOf zone first).start
  continues : ∀ now, (periodOf zone (periodOf zone now).resetsAt).start = (periodOf zone now).finish
  keys : ∀ first second, (periodOf zone first).key = (periodOf zone second).key →
    periodOf zone first = periodOf zone second
  counted : ∀ day, ∃ now, (periodOf zone now).Counts day ∧
    ∀ other, (periodOf zone other).Counts day → periodOf zone other = periodOf zone now

/-- In every time zone the billing periods tile the calendar. -/
theorem tilesCalendar (zone : Zone) : TilesCalendar zone where
  holds now := by
    rw [periodOf_eq]
    exact monthAt_spec zone now
  resets now := by
    have before := (monthAt_spec zone now).2
    rw [periodOf_eq, periodFor_resetsAt]
    rw [dateOf] at before
    rw [dayLength] at *
    omega
  disjoint first second := by
    rw [periodOf_eq, periodOf_eq]
    rcases Int.lt_trichotomy (monthAt zone first) (monthAt zone second) with before | same | after
    · exact Or.inr (Or.inl (firstCounted_mono zone before))
    · exact Or.inl (congrArg _ same)
    · exact Or.inr (Or.inr (firstCounted_mono zone after))
  continues now := by
    have midnight := dateOf_midnight (firstCounted zone (monthAt zone now + 1))
    have next : monthAt zone (firstCounted zone (monthAt zone now + 1) * dayLength) =
        monthAt zone now + 1 := by
      apply monthAt_eq <;> rw [midnight]
      exact firstCounted_lt zone (Int.lt_succ _)
    rw [periodOf_eq, periodOf_eq zone now, periodFor_resetsAt, next, periodFor_start,
      periodFor_finish]
  keys first second same := by
    rw [periodOf_eq, periodOf_eq zone second] at same ⊢
    obtain ⟨year, month⟩ := MonthKey.mk.inj same
    have months : monthAt zone first = monthAt zone second := by omega
    rw [months]
  counted day := by
    use day * dayLength
    have spec := monthAt_spec zone (day * dayLength)
    rw [dateOf_midnight] at spec
    constructor
    · rw [periodOf_eq]
      exact spec
    · intro other counts
      rw [periodOf_eq] at counts ⊢
      rw [periodOf_eq zone (day * dayLength)]
      exact congrArg _ (month_unique zone counts.1 counts.2 spec.1 spec.2)

/-- In Seoul the period of January 2026 begins at nine o'clock on its first day. -/
example :
    (periodOf (Zone.fixed (9 * 3600000000) (by decide)) (739616 * dayLength)).key =
        { year := 2026, month := 1 } ∧
      (periodOf (Zone.fixed (9 * 3600000000) (by decide)) (739616 * dayLength - 1)).key =
        { year := 2025, month := 12 } := by
  decide

end NaturalMold.BillingPeriods

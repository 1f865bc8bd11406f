import NaturalMold.ConversationTables
import NaturalMold.CronExpressions
import NaturalMold.TupleMerge

/-! # Schedules of the form, and when they run -/

namespace NaturalMold.Schedules

open Conversations (Raised)
open CronExpressions

/-- The types of `ScheduleType` for which the form itself writes a cron expression. -/
inductive ScheduleType
  | daily
  | weekly
  | monthly
  deriving DecidableEq

/-- What `ScheduleFormState` holds for these types; the weekdays are a set, in the order
of their insertion. -/
structure ScheduleFormState where
  type : ScheduleType
  hour : Text
  minute : Text
  weekdays : List ℕ
  monthDay : Text

/-- The number of the weekday whose key stands at an index of `WEEKDAY_KEYS`, which
begins with Monday. -/
def weekdayCron : List ℕ :=
  [1, 2, 3, 4, 5, 6, 0]

/-- `Array.from(form.weekdays).sort()` compares the numbers as texts. -/
def sortedWeekdays (form : ScheduleFormState) : List ℕ :=
  form.weekdays.insertionSort fun first second =>
    ¬ Nat.toDigits 10 second < Nat.toDigits 10 first

/-- `….join(',') || '*'`. -/
def weekdayField (form : ScheduleFormState) : Text :=
  let joined := [','].intercalate ((sortedWeekdays form).map (Nat.toDigits 10))
  if joined = [] then ['*'] else joined

def dayFields (form : ScheduleFormState) : Text × Text :=
  match form.type with
  | .daily => (['*'], ['*'])
  | .weekly => (['*'], weekdayField form)
  | .monthly => (form.monthDay, ['*'])

/-- The cron expression and the time zone of `buildScheduleRequest`. -/
def buildScheduleRequest (form : ScheduleFormState) : Text × String :=
  (form.minute ++ ' ' :: (form.hour ++ ' ' :: ((dayFields form).1 ++ ' ' ::
    (['*'] ++ ' ' :: (dayFields form).2))), "Asia/Seoul")

/-- `normalize_schedule_config` for a cron request: the expression and the time zone that
are stored. -/
def normalizeScheduleConfig (tooFrequent : Text → String → Bool) (request : Text × String) :
    Except Raised (Text × String) :=
  let expr := PythonText.strip request.1
  if expr = [] then .error (.valueError "cron_expression is required")
  else if tooFrequent expr request.2 then
    .error (.valueError "schedule repeats more often than the minimum interval")
  else .ok (expr, request.2)

/-- `add_trigger_job` for a stored cron schedule: the instants at which the trigger that
`CronTrigger.from_crontab` makes of an expression and a time zone fires. -/
def addTriggerJob (fromCrontab : Text → String → ℕ → Prop) (config : Text × String)
    (instant : ℕ) : Prop :=
  fromCrontab config.1 (if config.2 = "" then "Asia/Seoul" else config.2) instant

/-- The wall-clock time in Seoul, nine hours ahead, of an instant in seconds since 1970. -/
def seoulTime (instant : ℕ) : LocalTime :=
  let seconds := instant + 9 * 3600
  let days := seconds / 86400
  let (year, month, day) := Authz.calendarDate (days + 719162)
  { year, month, day
    -- The first day was a Thursday.
    weekday := (days + 3) % 7
    hour := seconds / 3600 % 24
    minute := seconds / 60 % 60
    second := seconds % 60 }

/-- What is assumed of the trigger: the fields reach it unchanged, and it counts the
weekdays from Monday. -/
def CountsFromMonday (fromCrontab : Text → String → ℕ → Prop) : Prop :=
  ∀ text fields, crontab text = some fields → fields.InRange →
    ∀ instant, fromCrontab text "Asia/Seoul" instant ↔ fields.Fires (seoulTime instant)

structure ScheduleFormState.Chosen (form : ScheduleFormState) (hour minute day : ℕ) : Prop where
  hour : number form.hour = some hour ∧ hour ≤ 23
  minute : number form.minute = some minute ∧ minute ≤ 59
  weekdays : form.type = .weekly → form.weekdays ≠ [] ∧ ∀ number ∈ form.weekdays,
    number ∈ weekdayCron
  day : form.type = .monthly → number form.monthDay = some day ∧ 1 ≤ day ∧ day ≤ 31

structure ScheduleFormState.Says (form : ScheduleFormState) (hour minute day : ℕ)
    (time : LocalTime) : Prop where
  second : time.second = 0
  minute : time.minute = minute
  hour : time.hour = hour
  weekday : form.type = .weekly → weekdayCron.getD time.weekday 0 ∈ form.weekdays
  day : form.type = .monthly → time.day = day

def RunsAsSaid (fromCrontab : Text → String → ℕ → Prop) (form : ScheduleFormState)
    (hour minute day : ℕ) (config : Text × String) : Prop :=
  ∀ instant, addTriggerJob fromCrontab config instant ↔
    form.Says hour minute day (seoulTime instant)

variable {form : ScheduleFormState} {hour minute day : ℕ}

def ScheduleFormState.dayValues (form : ScheduleFormState) (day : ℕ) : CronField × CronField :=
  match form.type with
  | .daily => (.every, .every)
  | .weekly => (.every, .values (sortedWeekdays form))
  | .monthly => (.values [day], .every)

def ScheduleFormState.cronFields (form : ScheduleFormState) (hour minute day : ℕ) : CronFields :=
  { minute := .values [minute]
    hour := .values [hour]
    day := (form.dayValues day).1
    month := .every
    dayOfWeek := (form.dayValues day).2 }

theorem mem_sortedWeekdays {number : ℕ} :
    number ∈ sortedWeekdays form ↔ number ∈ form.weekdays := by
  rw [sortedWeekdays, List.mem_insertionSort]

theorem sortedWeekdays_ne_nil (present : form.weekdays ≠ []) : sortedWeekdays form ≠ [] := by
  obtain ⟨number, member⟩ := List.exists_mem_of_ne_nil _ present
  exact List.ne_nil_of_mem (mem_sortedWeekdays.mpr member)

/-- The weekday field holds the chosen numbers and no spaces. -/
theorem weekdayField_spec (present : form.weekdays ≠ []) :
    CronField.parse (weekdayField form) = some (.values (sortedWeekdays form)) ∧
      Solid (weekdayField form) := by
  have parsed := CronField.parse_intercalate (sortedWeekdays_ne_nil present)
  have joined : [','].intercalate ((sortedWeekdays form).map (Nat.toDigits 10)) ≠ [] := by
    intro empty
    rw [empty] at parsed
    have unread : CronField.parse [] = none := by decide
    exact absurd (unread.symm.trans parsed) nofun
  have same : weekdayField form =
      [','].intercalate ((sortedWeekdays form).map (Nat.toDigits 10)) := if_neg joined
  rw [same]
  refine ⟨parsed, joined, fun char member => ?_⟩
  rcases mem_intercalate_comma member with comma | ⟨text, textMember, charMember⟩
  · rw [comma]
    decide
  · obtain ⟨value, _, rfl⟩ := List.mem_map.mp textMember
    exact (solid_of_digits (digits_of_number (number_toDigits value))).noSpace char charMember

/-- The expression is stored as the form writes it. -/
theorem strip_buildScheduleRequest (chosen : form.Chosen hour minute day) :
    PythonText.strip (buildScheduleRequest form).1 = (buildScheduleRequest form).1 := by
  have minuteSolid := solid_of_digits (digits_of_number chosen.minute.1)
  have lastSolid : Solid (dayFields form).2 := by
    rw [dayFields]
    split
    · exact star_solid
    · rename_i weekly
      exact (weekdayField_spec (chosen.weekdays weekly).1).2
    · exact star_solid
  have stripped := strip_between minuteSolid lastSolid
    (' ' :: (form.hour ++ ' ' :: ((dayFields form).1 ++ ' ' :: (['*'] ++ [' ']))))
  simpa only [buildScheduleRequest, List.cons_append, List.append_assoc, List.nil_append]
    using stripped

theorem parse_dayFields (chosen : form.Chosen hour minute day) :
    CronField.parse (dayFields form).1 = some (form.dayValues day).1 ∧
      CronField.parse (dayFields form).2 = some (form.dayValues day).2 := by
  rw [dayFields, ScheduleFormState.dayValues]
  cases kind : form.type with
  | daily => exact ⟨CronField.parse_star, CronField.parse_star⟩
  | weekly => exact ⟨CronField.parse_star, (weekdayField_spec (chosen.weekdays kind).1).1⟩
  | monthly => exact ⟨CronField.parse_number (chosen.day kind).1, CronField.parse_star⟩

theorem dayFields_solid (chosen : form.Chosen hour minute day) :
    Solid (dayFields form).1 ∧ Solid (dayFields form).2 := by
  rw [dayFields]
  cases kind : form.type with
  | daily => exact ⟨star_solid, star_solid⟩
  | weekly => exact ⟨star_solid, (weekdayField_spec (chosen.weekdays kind).1).2⟩
  | monthly => exact ⟨solid_of_digits (digits_of_number (chosen.day kind).1), star_solid⟩

/-- The fields that the trigger gets. -/
theorem crontab_buildScheduleRequest (chosen : form.Chosen hour minute day) :
    crontab (buildScheduleRequest form).1 = some (form.cronFields hour minute day) := by
  have dayParsed := parse_dayFields chosen
  obtain ⟨daySolid, weekdaySolid⟩ := dayFields_solid chosen
  apply crontab_eq
  · simp only [List.forall_mem_cons, List.not_mem_nil, false_implies, implies_true, and_true]
    exact ⟨solid_of_digits (digits_of_number chosen.minute.1),
      solid_of_digits (digits_of_number chosen.hour.1), daySolid, star_solid, weekdaySolid⟩
  · exact CronField.parse_number chosen.minute.1
  · exact CronField.parse_number chosen.hour.1
  · exact dayParsed.1
  · exact CronField.parse_star
  · exact dayParsed.2

theorem cronFields_inRange (chosen : form.Chosen hour minute day) :
    (form.cronFields hour minute day).InRange := by
  constructor
  · rintro value (_ | ⟨_, ⟨⟩⟩)
    exact ⟨Nat.zero_le _, chosen.minute.2⟩
  · rintro value (_ | ⟨_, ⟨⟩⟩)
    exact ⟨Nat.zero_le _, chosen.hour.2⟩
  · show (form.dayValues day).1.Within 1 31
    rw [ScheduleFormState.dayValues]
    cases kind : form.type with
    | daily => trivial
    | weekly => trivial
    | monthly =>
        rintro value (_ | ⟨_, ⟨⟩⟩)
        exact (chosen.day kind).2
  · trivial
  · show (form.dayValues day).2.Within 0 6
    rw [ScheduleFormState.dayValues]
    cases kind : form.type with
    | daily => trivial
    | weekly =>
        intro value member
        have known := (chosen.weekdays kind).2 value (mem_sortedWeekdays.mp member)
        have bounds : ∀ number ∈ weekdayCron, 0 ≤ number ∧ number ≤ 6 := by decide
        exact bounds value known
    | monthly => trivial

variable {fromCrontab : Text → String → ℕ → Prop} {tooFrequent : Text → String → Bool}
  {config : Text × String}

theorem config_eq (chosen : form.Chosen hour minute day)
    (accepted : normalizeScheduleConfig tooFrequent (buildScheduleRequest form) = .ok config) :
    config = buildScheduleRequest form := by
  unfold normalizeScheduleConfig at accepted
  dsimp only at accepted
  rw [strip_buildScheduleRequest chosen] at accepted
  split at accepted
  · cases accepted
  · split at accepted
    · cases accepted
    · exact (Except.ok.inj accepted).symm

theorem addTriggerJob_iff (counts : CountsFromMonday fromCrontab)
    (chosen : form.Chosen hour minute day)
    (accepted : normalizeScheduleConfig tooFrequent (buildScheduleRequest form) = .ok config)
    (instant : ℕ) : addTriggerJob fromCrontab config instant ↔
      (form.cronFields hour minute day).Fires (seoulTime instant) := by
  rw [config_eq chosen accepted]
  exact counts _ _ (crontab_buildScheduleRequest chosen) (cronFields_inRange chosen) instant

theorem admits_weekday_iff (counts : CountsFromMonday fromCrontab)
    (chosen : form.Chosen hour minute day)
    (accepted : normalizeScheduleConfig tooFrequent (buildScheduleRequest form) = .ok config)
    (weekly : form.type = .weekly) (said : RunsAsSaid fromCrontab form hour minute day config)
    {weekday : ℕ} (known : weekday < 7) :
    weekday ∈ form.weekdays ↔ weekdayCron.getD weekday 0 ∈ form.weekdays := by
  -- The instant lies in the second week of 1970.
  let instant := 86400 * (weekday + 4) + 3600 * hour + 60 * minute - 9 * 3600
  have hourBound := chosen.hour.2
  have minuteBound := chosen.minute.2
  have shifted : instant + 9 * 3600 = 86400 * (weekday + 4) + 3600 * hour + 60 * minute := by
    omega
  have atSecond : (seoulTime instant).second = 0 := by
    show (instant + 9 * 3600) % 60 = 0
    omega
  have atMinute : (seoulTime instant).minute = minute := by
    show (instant + 9 * 3600) / 60 % 60 = minute
    omega
  have atHour : (seoulTime instant).hour = hour := by
    show (instant + 9 * 3600) / 3600 % 24 = hour
    omega
  have atWeekday : (seoulTime instant).weekday = weekday := by
    show ((instant + 9 * 3600) / 86400 + 3) % 7 = weekday
    omega
  have fires := (addTriggerJob_iff counts chosen accepted instant).symm.trans (said instant)
  have read : (form.cronFields hour minute day).dayOfWeek = .values (sortedWeekdays form) := by
    rw [ScheduleFormState.cronFields, ScheduleFormState.dayValues, weekly]
  have readDay : (form.cronFields hour minute day).day = .every := by
    rw [ScheduleFormState.cronFields, ScheduleFormState.dayValues, weekly]
  constructor
  · intro member
    have saysSo := fires.mp
      { second := atSecond
        minute := List.mem_singleton.mpr atMinute
        hour := List.mem_singleton.mpr atHour
        day := by rw [readDay]; trivial
        month := trivial
        dayOfWeek := by
          rw [read, atWeekday]
          exact mem_sortedWeekdays.mpr member }
    simpa only [atWeekday] using saysSo.weekday weekly
  · intro member
    have firesSo := fires.mpr
      { second := atSecond
        minute := atMinute
        hour := atHour
        weekday := fun _ => by simpa only [atWeekday] using member
        day := fun monthly => absurd (weekly.symm.trans monthly) nofun }
    have admitted := firesSo.dayOfWeek
    rw [read, atWeekday] at admitted
    exact mem_sortedWeekdays.mp admitted

/-- A set of weekdays that is closed under the next day holds all of them. -/
theorem all_of_next_day {weekdays : List ℕ} (present : weekdays ≠ [])
    (known : ∀ number ∈ weekdays, number ∈ weekdayCron)
    (next : ∀ weekday, weekday < 7 →
      (weekday ∈ weekdays ↔ weekdayCron.getD weekday 0 ∈ weekdays)) :
    ∀ number ∈ weekdayCron, number ∈ weekdays := by
  have zeroOne : 0 ∈ weekdays ↔ 1 ∈ weekdays := next 0 (by decide)
  have oneTwo : 1 ∈ weekdays ↔ 2 ∈ weekdays := next 1 (by decide)
  have twoThree : 2 ∈ weekdays ↔ 3 ∈ weekdays := next 2 (by decide)
  have threeFour : 3 ∈ weekdays ↔ 4 ∈ weekdays := next 3 (by decide)
  have fourFive : 4 ∈ weekdays ↔ 5 ∈ weekdays := next 4 (by decide)
  have fiveSix : 5 ∈ weekdays ↔ 6 ∈ weekdays := next 5 (by decide)
  obtain ⟨number, member⟩ := List.exists_mem_of_ne_nil _ present
  have range := known number member
  simp only [weekdayCron, List.mem_cons, List.not_mem_nil, or_false] at range ⊢
  have one : 1 ∈ weekdays := by
    rcases range with rfl | rfl | rfl | rfl | rfl | rfl | rfl
    · exact member
    · exact oneTwo.mpr member
    · exact oneTwo.mpr (twoThree.mpr member)
    · exact oneTwo.mpr (twoThree.mpr (threeFour.mpr member))
    · exact oneTwo.mpr (twoThree.mpr (threeFour.mpr (fourFive.mpr member)))
    · exact oneTwo.mpr (twoThree.mpr (threeFour.mpr (fourFive.mpr (fiveSix.mpr member))))
    · exact zeroOne.mp member
  have three : 3 ∈ weekdays := twoThree.mp (oneTwo.mp one)
  have five : 5 ∈ weekdays := fourFive.mp (threeFour.mp three)
  rintro other (rfl | rfl | rfl | rfl | rfl | rfl | rfl)
  · exact one
  · exact oneTwo.mp one
  · exact three
  · exact threeFour.mp three
  · exact five
  · exact fiveSix.mp five
  · exact zeroOne.mpr one

theorem admits_days_iff
    (allDays : form.type = .weekly → ∀ number ∈ weekdayCron, number ∈ form.weekdays)
    (time : LocalTime) (known : time.weekday < 7) :
    (form.dayValues day).1.Admits time.day ∧ (form.dayValues day).2.Admits time.weekday ↔
      (form.type = .weekly → weekdayCron.getD time.weekday 0 ∈ form.weekdays) ∧
        (form.type = .monthly → time.day = day) := by
  rw [ScheduleFormState.dayValues]
  cases kind : form.type with
  | daily => exact ⟨fun _ => ⟨nofun, nofun⟩, fun _ => ⟨trivial, trivial⟩⟩
  | weekly =>
      have read : ∀ weekday < 7,
          weekday ∈ weekdayCron ∧ weekdayCron.getD weekday 0 ∈ weekdayCron := by
        decide
      have both := read time.weekday known
      exact ⟨fun _ => ⟨fun _ => allDays kind _ both.2, nofun⟩,
        fun _ => ⟨trivial, mem_sortedWeekdays.mpr (allDays kind _ both.1)⟩⟩
  | monthly =>
      exact ⟨fun admitted => ⟨nofun, fun _ => List.mem_singleton.mp admitted.1⟩,
        fun said => ⟨List.mem_singleton.mpr (said.2 rfl), trivial⟩⟩

/-- A schedule of the form runs as the form says exactly if it is not weekly or names
every day of the week. -/
theorem runsAsSaid_iff (counts : CountsFromMonday fromCrontab)
    (chosen : form.Chosen hour minute day)
    (accepted : normalizeScheduleConfig tooFrequent (buildScheduleRequest form) = .ok config) :
    RunsAsSaid fromCrontab form hour minute day config ↔
      (form.type = .weekly → ∀ number ∈ weekdayCron, number ∈ form.weekdays) := by
  constructor
  · intro said weekly
    obtain ⟨present, known⟩ := chosen.weekdays weekly
    exact all_of_next_day present known fun _ =>
      admits_weekday_iff counts chosen accepted weekly said
  · intro allDays instant
    have days := @admits_days_iff form day allDays (seoulTime instant)
      (Nat.mod_lt _ (by decide))
    rw [addTriggerJob_iff counts chosen accepted]
    constructor
    · intro fires
      have meant := days.mp ⟨fires.day, fires.dayOfWeek⟩
      exact ⟨fires.second, List.mem_singleton.mp fires.minute, List.mem_singleton.mp fires.hour,
        meant.1, meant.2⟩
    · intro spoken
      have admitted := days.mpr ⟨spoken.weekday, spoken.day⟩
      exact ⟨spoken.second, List.mem_singleton.mpr spoken.minute,
        List.mem_singleton.mpr spoken.hour,
        admitted.1, trivial, admitted.2⟩

def seoulTrigger (text : Text) (_timezone : String) (instant : ℕ) : Prop :=
  ∃ fields, crontab text = some fields ∧ fields.Fires (seoulTime instant)

theorem countsFromMonday_seoulTrigger : CountsFromMonday seoulTrigger := by
  intro text fields read _ instant
  constructor
  · rintro ⟨others, readOthers, fires⟩
    have same : fields = others := Option.some.inj (read.symm.trans readOthers)
    exact same ▸ fires
  · exact fun fires => ⟨fields, read, fires⟩

/-- Nine o'clock, on one kind of days. -/
def nineOClock (type : ScheduleType) (weekdays : List ℕ) : ScheduleFormState :=
  { type, hour := ['0', '9'], minute := ['0', '0'], weekdays, monthDay := ['1'] }

theorem chosen_nineOClock (type : ScheduleType) {weekdays : List ℕ} (present : weekdays ≠ [])
    (known : ∀ number ∈ weekdays, number ∈ weekdayCron) :
    (nineOClock type weekdays).Chosen 9 0 1 where
  hour := (by decide : number ['0', '9'] = some 9 ∧ 9 ≤ 23)
  minute := (by decide : number ['0', '0'] = some 0 ∧ 0 ≤ 59)
  weekdays := fun _ => ⟨present, known⟩
  day := fun _ => (by decide : number ['1'] = some 1 ∧ 1 ≤ 1 ∧ 1 ≤ 31)

/-- A daily schedule at nine. -/
theorem runsAsSaid_iff_daily :
    RunsAsSaid seoulTrigger (nineOClock .daily [1]) 9 0 1
        (buildScheduleRequest (nineOClock .daily [1])) ↔
      ((nineOClock .daily [1]).type = .weekly →
        ∀ number ∈ weekdayCron, number ∈ (nineOClock .daily [1]).weekdays) :=
  @runsAsSaid_iff (nineOClock .daily [1]) 9 0 1 seoulTrigger (fun _ _ => false) _
    countsFromMonday_seoulTrigger (chosen_nineOClock .daily (by decide) (by decide)) (by decide)

/-- Mondays at nine: the trigger fires on a Tuesday. -/
theorem monday_runs_on_tuesday :
    normalizeScheduleConfig (fun _ _ => false) (buildScheduleRequest (nineOClock .weekly [1])) =
        .ok ("00 09 * * 1".toList, "Asia/Seoul") ∧
      (seoulTime 432000).weekday = 1 ∧
      addTriggerJob seoulTrigger ("00 09 * * 1".toList, "Asia/Seoul") 432000 ∧
      ¬ RunsAsSaid seoulTrigger (nineOClock .weekly [1]) 9 0 1
        ("00 09 * * 1".toList, "Asia/Seoul") := by
  have fires : addTriggerJob seoulTrigger ("00 09 * * 1".toList, "Asia/Seoul") 432000 := by
    refine ⟨⟨.values [0], .values [9], .every, .every, .values [1]⟩, by decide, ?_⟩
    exact ⟨by decide, by decide, by decide, trivial, trivial, by decide⟩
  refine ⟨by decide, by decide, fires, fun said => ?_⟩
  have weekday := ((said 432000).mp fires).weekday rfl
  exact absurd weekday (by decide)

end NaturalMold.Schedules

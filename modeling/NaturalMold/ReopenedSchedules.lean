import Mathlib.Data.List.TakeWhile
import Mathlib.Order.Interval.Finset.Nat
import NaturalMold.FirstOccurrences
import NaturalMold.JavaScriptObjects
import NaturalMold.ScheduleForms
import NaturalMold.ScheduleGaps

/-!
# Schedules that are opened and saved

The form reads a stored schedule into its own fields and writes a request from them.
-/

namespace NaturalMold.ReopenedSchedules

open BillingPeriods (Zone dayLength)
open Conversations (Raised)
open CronExpressions
open CyclicFirings
open FirstOccurrences (distinctOn)
open ScheduleGaps (minuteLength hourLength shortestGap)

inductive TriggerType
  | interval
  | cron
  | oneTime
  deriving DecidableEq

/-- The type, the configuration and the time zone of a trigger or of a request.  A text that
names an instant is modelled by the instant, in microseconds. -/
structure Schedule where
  triggerType : TriggerType
  intervalMinutes : Option ℤ := none
  cronExpression : Option Text := none
  scheduledAt : Option ℤ := none
  timezone : String

inductive ScheduleType
  | minutes
  | oneTime
  | daily
  | weekly
  | monthly
  | advanced
  deriving DecidableEq

inductive DateTimeLocal
  | empty
  | unreadable
  | minute (wall : ℤ)

/-- A weekday is a number, or `NaN`. -/
structure ScheduleFormState where
  type : ScheduleType
  intervalMinutes : ℤ
  hour : Text
  minute : Text
  weekdays : List (Option ℕ)
  monthDay : Text
  cronExpression : Text
  scheduledAt : DateTimeLocal

/-- A year that `toISOString` writes with four digits. -/
def FourDigits (wall : ℤ) : Prop :=
  dayLength * CalendarMonths.daysBeforeYear 0 ≤ wall ∧
    wall < dayLength * CalendarMonths.daysBeforeYear 10000

instance (wall : ℤ) : Decidable (FourDigits wall) :=
  inferInstanceAs (Decidable (_ ∧ _))

/-- The first sixteen characters that `toISOString` writes of the local time: a date counts
milliseconds, and the text ends with the minute. -/
def toDateTimeLocal (browser : Zone) : Option ℤ → DateTimeLocal
  | none => .empty
  | some value =>
      let wall := browser.toLocal (value / 1000 * 1000)
      if FourDigits wall then .minute (wall / minuteLength * minuteLength) else .unreadable

/-- The next full hour on the wall. -/
def defaultScheduledAt (browser : Zone) (now : ℤ) : DateTimeLocal :=
  toDateTimeLocal browser
    (some (browser.toUtc ((browser.toLocal now / hourLength + 1) * hourLength)))

def getDefaultScheduleFormState (browser : Zone) (now : ℤ) : ScheduleFormState where
  type := .minutes
  intervalMinutes := 10
  hour := ['0', '9']
  minute := ['0', '0']
  weekdays := []
  monthDay := ['1']
  cronExpression := []
  scheduledAt := defaultScheduledAt browser now

/-- `text.trim()`. -/
def trim (text : Text) : Text :=
  ((text.dropWhile JsValue.isWhiteSpace).reverse.dropWhile JsValue.isWhiteSpace).reverse

/-- `text.padStart(2, '0')`. -/
def padStart (text : Text) : Text :=
  text.leftpad 2 '0'

/-- `Number(text)` of a text without a sign, a point, an exponent or a base; nothing is `NaN`. -/
def toNumber (text : Text) : Option ℕ :=
  if trim text = [] then some 0 else number (trim text)

def parseTriggerToForm (browser : Zone) (now : ℤ) (trigger : Schedule) : ScheduleFormState :=
  let form := getDefaultScheduleFormState browser now
  match trigger.triggerType with
  | .oneTime =>
      { form with type := .oneTime, scheduledAt := toDateTimeLocal browser trigger.scheduledAt }
  | .interval =>
      { form with type := .minutes, intervalMinutes := trigger.intervalMinutes.getD 10 }
  | .cron =>
      let cron := trigger.cronExpression.getD []
      match cron.splitOn ' ' with
      | [cronMin, cronHour, cronDom, _, cronDow] =>
          let form := { form with
            hour := padStart cronHour, minute := padStart cronMin, cronExpression := cron }
          if cronDow ≠ ['*'] then
            { form with
              type := .weekly
              weekdays := distinctOn id ((cronDow.splitOn ',').map toNumber) }
          else if cronDom ≠ ['*'] then { form with type := .monthly, monthDay := cronDom }
          else { form with type := .daily }
      | _ => { form with type := .advanced, cronExpression := cron }

def weekdayText : Option ℕ → Text
  | none => ['N', 'a', 'N']
  | some weekday => Nat.toDigits 10 weekday

/-- `Array.from(form.weekdays).sort()` compares the weekdays as texts. -/
def sortedWeekdays (form : ScheduleFormState) : List (Option ℕ) :=
  form.weekdays.insertionSort fun first second => ¬ weekdayText second < weekdayText first

/-- `….join(',') || '*'`. -/
def weekdayField (form : ScheduleFormState) : Text :=
  let joined := [','].intercalate ((sortedWeekdays form).map weekdayText)
  if joined = [] then ['*'] else joined

/-- Five fields, with a space between them. -/
def expression (minute hour day month dayOfWeek : Text) : Text :=
  minute ++ ' ' :: (hour ++ ' ' :: (day ++ ' ' :: (month ++ ' ' :: dayOfWeek)))

def cronRequest (cron : Text) : Schedule :=
  { triggerType := .cron, cronExpression := some cron, timezone := "Asia/Seoul" }

def oneTimeRequest (scheduledAt : ℤ) : Schedule :=
  { triggerType := .oneTime, scheduledAt := some scheduledAt, timezone := "Asia/Seoul" }

/-- `new Date(text)`, of the text of a date and time input. -/
def newDate (browser : Zone) : DateTimeLocal → Option ℤ
  | .empty | .unreadable => none
  | .minute wall => some (browser.toUtc wall)

/-- The type, the configuration and the time zone of the request; there is none where
`toISOString` of an invalid date throws. -/
def buildScheduleRequest (browser : Zone) (form : ScheduleFormState) : Option Schedule :=
  match form.type with
  | .minutes => some
      { triggerType := .interval, intervalMinutes := some form.intervalMinutes
        timezone := "Asia/Seoul" }
  | .oneTime => (newDate browser form.scheduledAt).map oneTimeRequest
  | .daily => some (cronRequest (expression form.minute form.hour ['*'] ['*'] ['*']))
  | .weekly => some (cronRequest
      (expression form.minute form.hour ['*'] ['*'] (weekdayField form)))
  | .monthly => some (cronRequest (expression form.minute form.hour form.monthDay ['*'] ['*']))
  | .advanced => some (cronRequest (trim form.cronExpression))

/-- A form of one of the types that write a cron expression, filled with numbers. -/
def ofChosen (form : Schedules.ScheduleFormState) : ScheduleFormState :=
  { getDefaultScheduleFormState (.fixed 0 (by decide)) 0 with
    type := match form.type with
      | .daily => .daily
      | .weekly => .weekly
      | .monthly => .monthly
    hour := form.hour
    minute := form.minute
    weekdays := form.weekdays.map some
    monthDay := form.monthDay }

/-- For these types the form writes the same expression in both models. -/
theorem buildScheduleRequest_ofChosen (browser : Zone) (form : Schedules.ScheduleFormState) :
    buildScheduleRequest browser (ofChosen form) =
      some (cronRequest (Schedules.buildScheduleRequest form).1) := by
  have sorted : sortedWeekdays (ofChosen form) = (Schedules.sortedWeekdays form).map some := by
    symm
    apply List.map_insertionSort
    exact fun _ _ _ _ => Iff.rfl
  have field : weekdayField (ofChosen form) = Schedules.weekdayField form := by
    rw [weekdayField, Schedules.weekdayField, sorted, List.map_map]
    rfl
  cases kind : form.type with
  | daily => simp [buildScheduleRequest, Schedules.buildScheduleRequest, Schedules.dayFields,
      ofChosen, kind, expression]
  | weekly =>
      rw [Schedules.buildScheduleRequest, Schedules.dayFields, kind, ← field]
      simp [buildScheduleRequest, ofChosen, kind, expression]
  | monthly => simp [buildScheduleRequest, Schedules.buildScheduleRequest, Schedules.dayFields,
      ofChosen, kind, expression]

/-- The instants at which a cron trigger fires, and the next one from an instant on. -/
structure Trigger where
  fires : ℤ → Prop
  getNextFireTime : ℤ → Option ℤ

/-- The zones and triggers of the libraries, and the shortest interval. -/
structure Scheduler where
  zoneInfo : String → Except Raised Zone
  fromCrontab : Text → Zone → Except Raised Trigger
  intervalTrigger : ℤ → Zone → ℤ → Prop
  dateTrigger : ℤ → Zone → ℤ → Prop
  triggerMinIntervalMinutes : ℕ

/-- `_shortest_cron_gap_minutes`; two times of one zone are subtracted on its wall. -/
def shortestCronGapMinutes (trigger : Trigger) (zone : Zone) (now : ℤ) : WithTop ℚ :=
  shortestGap (fun previous current => zone.toLocal current - zone.toLocal previous)
    trigger.getNextFireTime 64 none (trigger.getNextFireTime now) ⊤

def normalizeScheduleConfig (scheduler : Scheduler) (now : ℤ) (request : Schedule) :
    Except Raised Schedule := do
  let tz := if request.timezone = "" then "Asia/Seoul" else request.timezone
  let zone ← scheduler.zoneInfo tz
  match request.triggerType with
  | .interval =>
      match request.intervalMinutes with
      | none => throw (.valueError "interval_minutes must be >= 1")
      | some minutes =>
          if minutes < 1 then throw (.valueError "interval_minutes must be >= 1")
          if minutes < scheduler.triggerMinIntervalMinutes then
            throw (.valueError "schedule repeats more often than the minimum interval")
          return { triggerType := .interval, intervalMinutes := some minutes, timezone := tz }
  | .cron =>
      let expr := PythonText.strip (request.cronExpression.getD [])
      if expr = [] then throw (.valueError "cron_expression is required")
      let trigger ← scheduler.fromCrontab expr zone
      if shortestCronGapMinutes trigger zone now <
          ((scheduler.triggerMinIntervalMinutes : ℚ) : WithTop ℚ) then
        throw (.valueError "schedule repeats more often than the minimum interval")
      return { triggerType := .cron, cronExpression := some expr, timezone := tz }
  | .oneTime =>
      match request.scheduledAt with
      | none => throw (.valueError "scheduled_at is required")
      | some scheduledAt =>
          if scheduledAt ≤ now then throw (.valueError "scheduled_at must be in the future")
          return { triggerType := .oneTime, scheduledAt := some scheduledAt, timezone := tz }

/-- `add_trigger_job`, of the trigger's configuration with its time zone: the instants at which
the job runs. -/
def addTriggerJob (scheduler : Scheduler) (schedule : Schedule) : Except Raised (ℤ → Prop) := do
  let timezoneName := if schedule.timezone = "" then "Asia/Seoul" else schedule.timezone
  let timezone ← scheduler.zoneInfo timezoneName
  match schedule.triggerType with
  | .interval => return scheduler.intervalTrigger (schedule.intervalMinutes.getD 10) timezone
  | .cron =>
      let trigger ← scheduler.fromCrontab
        (schedule.cronExpression.getD ['0', ' ', '*', ' ', '*', ' ', '*', ' ', '*']) timezone
      return trigger.fires
  | .oneTime =>
      match schedule.scheduledAt with
      | none => return fun _ => False
      | some runAt => return scheduler.dateTrigger runAt timezone

def Runs (scheduler : Scheduler) (schedule : Schedule) (instant : ℤ) : Prop :=
  ∃ instants, addTriggerJob scheduler schedule = .ok instants ∧ instants instant

/-- What the form makes of a schedule is accepted and runs at the same instants. -/
def Unchanged (scheduler : Scheduler) (browser : Zone) (now : ℤ) (stored : Schedule) : Prop :=
  ∃ request saved,
    buildScheduleRequest browser (parseTriggerToForm browser now stored) = some request ∧
      normalizeScheduleConfig scheduler now request = .ok saved ∧
      ∀ instant, Runs scheduler saved instant ↔ Runs scheduler stored instant

inductive CronPart
  | minute
  | hour
  | day
  | month
  | dayOfWeek
  deriving DecidableEq

def CronPart.bounds : CronPart → ℕ × ℕ
  | .minute => (0, 59)
  | .hour => (0, 23)
  | .day => (1, 31)
  | .month => (1, 12)
  | .dayOfWeek => (0, 6)

/-- What the five fields of an expression admit. -/
structure CronSets where
  minute : Finset ℕ
  hour : Finset ℕ
  day : Finset ℕ
  month : Finset ℕ
  dayOfWeek : Finset ℕ

/-- How expressions are read: what an item of a comma-separated list admits, and the trigger of
the five fields. -/
structure CronReading where
  item : CronPart → Text → Option (Finset ℕ)
  trigger : CronSets → Zone → Trigger

structure CronReading.Means (reading : CronReading) (part : CronPart) (field : Text)
    (admitted : Finset ℕ) : Prop where
  read : ∀ item ∈ field.splitOn ',', ∃ own, reading.item part item = some own
  admits : ∀ value, value ∈ admitted ↔
    ∃ item ∈ field.splitOn ',', ∃ own, reading.item part item = some own ∧ value ∈ own

/-- The five words of a text, and what they admit. -/
structure CronReading.Reads (reading : CronReading) (text : Text) (sets : CronSets) : Prop where
  words : ∃ minute hour day month dayOfWeek,
    CronExpressions.words text = [minute, hour, day, month, dayOfWeek] ∧
      reading.Means .minute minute sets.minute ∧ reading.Means .hour hour sets.hour ∧
      reading.Means .day day sets.day ∧ reading.Means .month month sets.month ∧
      reading.Means .dayOfWeek dayOfWeek sets.dayOfWeek

/-- What the form relies on: an item is a star, numbers or names, in ASCII; a number admits
itself, also with zeros before it, and a star is not a digit of a number. -/
structure Scheduler.Documented (scheduler : Scheduler) (reading : CronReading) : Prop where
  seoul : scheduler.zoneInfo "Asia/Seoul" = .ok ScheduleGaps.seoul
  fromCrontab : ∀ text zone trigger, scheduler.fromCrontab text zone = .ok trigger ↔
    ∃ sets, reading.Reads text sets ∧ trigger = reading.trigger sets zone
  finds : ∀ sets zone,
    FindsNext (reading.trigger sets zone).fires (reading.trigger sets zone).getNextFireTime
  number : ∀ part item value, number item = some value → reading.item part item =
    if part.bounds.1 ≤ value ∧ value ≤ part.bounds.2 then some {value} else none
  star : ∀ part, ∃ admitted, reading.item part ['*'] = some admitted
  starAfterDigit : ∀ part, reading.item part ['0', '*'] = none
  notANumber : ∀ part, reading.item part ['N', 'a', 'N'] = none
  single : ∀ part char admitted, reading.item part [char] = some admitted →
    char = '*' ∨ char.isDigit
  empty : ∀ part, reading.item part [] = none
  ascii : ∀ part item admitted, reading.item part item = some admitted →
    ∀ char ∈ item, char.toNat < 128
  interval : ∀ minutes zone other,
    scheduler.intervalTrigger minutes zone = scheduler.intervalTrigger minutes other
  date : ∀ runAt zone instant, scheduler.dateTrigger runAt zone instant ↔ instant = runAt

/-- The expression that is left of an expression: all of it if it does not have five parts, else
its minute, its hour and, besides stars, either the day of the month or numbers of weekdays. -/
inductive Keeps (expr : Text) : Text → Prop
  | whole : (expr.splitOn ' ').length ≠ 5 → Keeps expr expr
  | day {minute hour day month : Text} :
      expr.splitOn ' ' = [minute, hour, day, month, ['*']] →
      words expr = expr.splitOn ' ' → minute ≠ ['*'] → hour ≠ ['*'] →
      Keeps expr (expression minute hour day ['*'] ['*'])
  | weekdays {minute hour day month dayOfWeek : Text} :
      expr.splitOn ' ' = [minute, hour, day, month, dayOfWeek] →
      words expr = expr.splitOn ' ' → minute ≠ ['*'] → hour ≠ ['*'] → dayOfWeek ≠ ['*'] →
      (∀ item ∈ dayOfWeek.splitOn ',', Digits item) →
      Keeps expr (expression minute hour ['*'] ['*'] dayOfWeek)

/-- An expression whose trigger in the zone of Seoul runs at the instants of a stored schedule,
and is not refused. -/
def RunsAlike (scheduler : Scheduler) (now : ℤ) (stored : Schedule) (text : Text) : Prop :=
  ∃ trigger, scheduler.fromCrontab text ScheduleGaps.seoul = .ok trigger ∧
    (∀ instant, trigger.fires instant ↔ Runs scheduler stored instant) ∧
    (sample trigger.getNextFireTime 64 now).IsChain
      (ScheduleGaps.Apart scheduler.triggerMinIntervalMinutes)

/-- What is left of a schedule runs at the same instants.  Of a cron schedule that is what is
left of its expression; of one instant, that its minute on the wall of the browser names it. -/
def Kept (scheduler : Scheduler) (browser : Zone) (now : ℤ) (stored : Schedule) : Prop :=
  match stored.triggerType with
  | .interval => True
  | .cron => ∃ expr kept, stored.cronExpression = some expr ∧ Keeps expr kept ∧
      RunsAlike scheduler now stored kept
  | .oneTime => ∃ runAt wall, stored.scheduledAt = some runAt ∧
      toDateTimeLocal browser (some runAt) = .minute wall ∧ browser.toUtc wall = runAt

/-- The parts of a cron expression are its words, if there are five of them. -/
def EvenlySpaced (stored : Schedule) : Prop :=
  ∀ expr, stored.cronExpression = some expr → (expr.splitOn ' ').length = 5 →
    words expr = expr.splitOn ' '

variable {browser : Zone} {now : ℤ} {stored : Schedule} {expr : Text}

def reopenedRequest (browser : Zone) (now : ℤ) (stored : Schedule) : Option Schedule :=
  buildScheduleRequest browser (parseTriggerToForm browser now stored)

theorem reopened_whole (cron : stored.triggerType = .cron)
    (exprEq : stored.cronExpression = some expr) (parts : (expr.splitOn ' ').length ≠ 5) :
    reopenedRequest browser now stored = some (cronRequest (trim expr)) := by
  rw [reopenedRequest, parseTriggerToForm, cron, exprEq]
  simp only [Option.getD_some]
  split
  · next five => exact absurd (by rw [five]; rfl) parts
  · rfl

variable {minute hour day month : Text}

theorem reopened_day (cron : stored.triggerType = .cron)
    (exprEq : stored.cronExpression = some expr)
    (parts : expr.splitOn ' ' = [minute, hour, day, month, ['*']]) :
    reopenedRequest browser now stored = some (cronRequest
      (expression (padStart minute) (padStart hour) day ['*'] ['*'])) := by
  rw [reopenedRequest, parseTriggerToForm, cron, exprEq]
  simp only [Option.getD_some, parts, ne_eq, not_true_eq_false, if_false]
  by_cases star : day = ['*']
  · simp only [star, not_true_eq_false, if_false]
    rfl
  · simp only [star, not_false_eq_true, if_true]
    rfl

/-- The weekdays that the form reads from a field, as it writes them. -/
def reopenedWeekdays (dayOfWeek : Text) : Text :=
  weekdayField { getDefaultScheduleFormState (.fixed 0 (by decide)) 0 with
    weekdays := distinctOn id ((dayOfWeek.splitOn ',').map toNumber) }

variable {dayOfWeek : Text}

theorem reopened_weekdays (cron : stored.triggerType = .cron)
    (exprEq : stored.cronExpression = some expr)
    (parts : expr.splitOn ' ' = [minute, hour, day, month, dayOfWeek])
    (weekly : dayOfWeek ≠ ['*']) :
    reopenedRequest browser now stored = some (cronRequest
      (expression (padStart minute) (padStart hour) ['*'] ['*'] (reopenedWeekdays dayOfWeek))) := by
  rw [reopenedRequest, parseTriggerToForm, cron, exprEq]
  simp only [Option.getD_some, parts, ne_eq, weekly, not_false_eq_true, if_true]
  rfl

theorem distinctOn_mem {Item : Type*} [DecidableEq Item] {items : List Item} {item : Item} :
    item ∈ distinctOn id items ↔ item ∈ items := by
  have keys := @FirstOccurrences.mem_map_distinctOn Item Item _ id items item
  rwa [List.map_id, List.map_id] at keys

theorem noComma_weekdayText (weekday : Option ℕ) : ',' ∉ weekdayText weekday := by
  cases weekday with
  | none => decide
  | some weekday =>
      intro comma
      exact ne_comma_of_isDigit ((digits_of_number (number_toDigits weekday)).2 _ comma) rfl

theorem weekdayText_ne_nil (weekday : Option ℕ) : weekdayText weekday ≠ [] := by
  cases weekday with
  | none => decide
  | some weekday => exact (digits_of_number (number_toDigits weekday)).1

theorem splitOn_weekdayField {form : ScheduleFormState} (present : form.weekdays ≠ []) :
    weekdayField form = [','].intercalate ((sortedWeekdays form).map weekdayText) ∧
      (weekdayField form).splitOn ',' = (sortedWeekdays form).map weekdayText := by
  have sorted : (sortedWeekdays form).map weekdayText ≠ [] := by
    obtain ⟨weekday, member⟩ := List.exists_mem_of_ne_nil _ present
    have sortedMember : weekday ∈ sortedWeekdays form := by
      rwa [sortedWeekdays, List.mem_insertionSort]
    exact List.ne_nil_of_mem (List.mem_map_of_mem sortedMember)
  have noComma : ∀ text ∈ (sortedWeekdays form).map weekdayText, ',' ∉ text := by
    intro text member
    obtain ⟨weekday, _, rfl⟩ := List.mem_map.mp member
    exact noComma_weekdayText weekday
  have split := List.splitOn_intercalate ',' noComma sorted
  have joined : [','].intercalate ((sortedWeekdays form).map weekdayText) ≠ [] := by
    intro empty
    rw [empty, List.splitOn_nil] at split
    have member : [] ∈ (sortedWeekdays form).map weekdayText := by
      rw [← split]
      exact List.mem_singleton_self _
    obtain ⟨weekday, _, same⟩ := List.mem_map.mp member
    exact weekdayText_ne_nil weekday same
  have field : weekdayField form = [','].intercalate ((sortedWeekdays form).map weekdayText) :=
    if_neg joined
  exact ⟨field, by rw [field, split]⟩

theorem mem_splitOn_reopenedWeekdays {item : Text} :
    item ∈ (reopenedWeekdays dayOfWeek).splitOn ',' ↔
      ∃ old ∈ dayOfWeek.splitOn ',', weekdayText (toNumber old) = item := by
  rw [reopenedWeekdays, (splitOn_weekdayField _).2, List.mem_map]
  · simp only [sortedWeekdays, List.mem_insertionSort, distinctOn_mem, List.mem_map]
    constructor
    · rintro ⟨weekday, ⟨old, member, rfl⟩, rfl⟩
      exact ⟨old, member, rfl⟩
    · rintro ⟨old, member, rfl⟩
      exact ⟨_, ⟨old, member, rfl⟩, rfl⟩
  · obtain ⟨old, member⟩ := List.exists_mem_of_ne_nil _ (List.splitOn_ne_nil ',' dayOfWeek)
    exact List.ne_nil_of_mem (distinctOn_mem.mpr (List.mem_map_of_mem member))

theorem reopenedWeekdays_solid (dayOfWeek : Text) : Solid (reopenedWeekdays dayOfWeek) := by
  have present : distinctOn id ((dayOfWeek.splitOn ',').map toNumber) ≠ [] := by
    obtain ⟨old, member⟩ := List.exists_mem_of_ne_nil _ (List.splitOn_ne_nil ',' dayOfWeek)
    exact List.ne_nil_of_mem (distinctOn_mem.mpr (List.mem_map_of_mem member))
  obtain ⟨field, split⟩ := @splitOn_weekdayField
    { getDefaultScheduleFormState (.fixed 0 (by decide)) 0 with
      weekdays := distinctOn id ((dayOfWeek.splitOn ',').map toNumber) } present
  constructor
  · intro empty
    have member : [] ∈ (reopenedWeekdays dayOfWeek).splitOn ',' := by
      rw [empty, List.splitOn_nil]
      exact List.mem_singleton_self _
    obtain ⟨old, _, same⟩ := mem_splitOn_reopenedWeekdays.mp member
    exact weekdayText_ne_nil _ same
  · intro char member
    rw [reopenedWeekdays, field] at member
    rcases mem_intercalate_comma member with comma | ⟨text, textMember, charMember⟩
    · rw [comma]
      decide
    · obtain ⟨weekday, _, rfl⟩ := List.mem_map.mp textMember
      cases weekday with
      | none =>
          simp only [weekdayText, List.mem_cons, List.not_mem_nil, or_false] at charMember
          rcases charMember with rfl | rfl | rfl <;> rfl
      | some weekday =>
          exact isSpace_of_isDigit ((digits_of_number (number_toDigits weekday)).2 _ charMember)

variable {scheduler : Scheduler} {reading : CronReading} {part : CronPart}

variable {field : Text} {admitted : Finset ℕ}

theorem means_of_alike {other : Text}
    (forth : ∀ item ∈ field.splitOn ',', ∃ same ∈ other.splitOn ',',
      reading.item part same = reading.item part item)
    (back : ∀ item ∈ other.splitOn ',', ∃ same ∈ field.splitOn ',',
      reading.item part same = reading.item part item) (means : reading.Means part field admitted) :
    reading.Means part other admitted := by
  constructor
  · intro item member
    obtain ⟨same, sameMember, sameItem⟩ := back item member
    exact sameItem ▸ means.read same sameMember
  · intro value
    rw [means.admits]
    constructor
    · rintro ⟨item, member, own, ownEq, valueMember⟩
      obtain ⟨same, sameMember, sameItem⟩ := forth item member
      exact ⟨same, sameMember, own, sameItem.trans ownEq, valueMember⟩
    · rintro ⟨item, member, own, ownEq, valueMember⟩
      obtain ⟨same, sameMember, sameItem⟩ := back item member
      exact ⟨same, sameMember, own, sameItem.trans ownEq, valueMember⟩

theorem means_congr {other : Text} (forth : ∀ item ∈ field.splitOn ',', ∃ same ∈ other.splitOn ',',
      reading.item part same = reading.item part item)
    (back : ∀ item ∈ other.splitOn ',', ∃ same ∈ field.splitOn ',',
      reading.item part same = reading.item part item) :
    reading.Means part field admitted ↔ reading.Means part other admitted :=
  ⟨means_of_alike forth back, means_of_alike back forth⟩

theorem means_unique {other : Finset ℕ} (means : reading.Means part field admitted)
    (otherMeans : reading.Means part field other) : admitted = other := by
  ext value
  rw [means.admits, otherMeans.admits]

variable {text : Text}

theorem padStart_eq_self (long : 2 ≤ text.length) : padStart text = text := by
  rw [padStart, List.leftpad, Nat.sub_eq_zero_of_le long]
  rfl

variable {char : Char}

/-- A field of one character that is read. -/
theorem isDigit_of_means (documented : scheduler.Documented reading)
    (means : reading.Means part [char] admitted) (different : char ≠ '*') : char.isDigit := by
  by_cases comma : char = ','
  · obtain ⟨own, ownEq⟩ := means.read [] (by rw [comma]; decide)
    rw [documented.empty] at ownEq
    exact absurd ownEq nofun
  · obtain ⟨own, ownEq⟩ := means.read [char] (by
      rw [List.splitOn_eq_singleton (by simpa using fun same => comma same.symm)]
      exact List.mem_singleton_self _)
    exact (documented.single part char own ownEq).resolve_left different

/-- A zero in front of a field does not change what it admits. -/
theorem means_padStart (documented : scheduler.Documented reading) {old : Finset ℕ}
    (oldMeans : reading.Means part field old) (present : field ≠ []) (different : field ≠ ['*']) :
    reading.Means part (padStart field) admitted ↔ reading.Means part field admitted := by
  match field, present with
  | [char], _ =>
      have digit := isDigit_of_means documented oldMeans (fun same => different (by rw [same]))
      have noComma : char ≠ ',' := ne_comma_of_isDigit digit
      have padded : padStart [char] = ['0', char] := rfl
      have single : [char].splitOn ',' = [[char]] :=
        List.splitOn_eq_singleton (by simpa using noComma.symm)
      have paddedSingle : ['0', char].splitOn ',' = [['0', char]] :=
        List.splitOn_eq_singleton (by
          simp only [List.mem_cons, List.not_mem_nil, or_false, not_or]
          exact ⟨by decide, noComma.symm⟩)
      have digits : Digits [char] := ⟨by simp, by simpa using digit⟩
      have paddedDigits : Digits ['0', char] :=
        ⟨by simp, by
          intro other member
          rcases List.mem_cons.mp member with rfl | member
          · rfl
          · rw [List.mem_singleton.mp member]
            exact digit⟩
      have read : number [char] = some (Nat.ofDigitChars 10 [char] 0) :=
        number_eq_some_iff.mpr ⟨digits, rfl⟩
      have paddedRead : number ['0', char] = some (Nat.ofDigitChars 10 [char] 0) :=
        number_eq_some_iff.mpr ⟨paddedDigits, by rfl⟩
      have same : reading.item part ['0', char] = reading.item part [char] := by
        rw [documented.number part _ _ paddedRead, documented.number part _ _ read]
      rw [padded]
      apply means_congr
      · rw [single, paddedSingle]
        simpa using same.symm
      · rw [single, paddedSingle]
        simpa using same
  | _ :: _ :: _, _ => rw [padStart_eq_self (by simp)]

theorem not_means_padStart_star (documented : scheduler.Documented reading) :
    ¬ reading.Means part (padStart ['*']) admitted := by
  intro means
  obtain ⟨own, ownEq⟩ := means.read ['0', '*'] (by decide)
  rw [documented.starAfterDigit] at ownEq
  exact absurd ownEq nofun

theorem solid_padStart (solid : Solid field) : Solid (padStart field) := by
  constructor
  · intro empty
    have length := congrArg List.length empty
    rw [padStart, List.length_leftpad] at length
    simp at length
  · intro char member
    rw [padStart, List.leftpad] at member
    rcases List.mem_append.mp member with zero | own
    · rw [List.eq_of_mem_replicate zero]
      decide
    · exact solid.noSpace char own

theorem isSpace_of_isWhiteSpace (ascii : char.toNat < 128)
    (white : JsValue.isWhiteSpace char = true) : PythonText.isSpace char = true := by
  have codes : char.toNat ∈ [9, 10, 11, 12, 13, 32] := by
    rw [JsValue.isWhiteSpace, List.contains_iff_mem] at white
    simp only [List.mem_cons, List.not_mem_nil, or_false] at white ⊢
    omega
  rw [PythonText.isSpace, PythonText.spaceRanges]
  simp only [List.any_cons, List.any_nil, Bool.or_false, Bool.or_eq_true, Bool.and_eq_true,
    decide_eq_true_eq]
  simp only [List.mem_cons, List.not_mem_nil, or_false] at codes
  omega

theorem trim_eq_self
    (white : ∀ char ∈ text, JsValue.isWhiteSpace char = true → PythonText.isSpace char = true)
    (stripped : PythonText.strip text = text) : trim text = text := by
  have keeps : ∀ {letters : Text}, (∀ char ∈ letters, char ∈ text) →
      letters.dropWhile PythonText.isSpace = letters →
      letters.dropWhile JsValue.isWhiteSpace = letters := by
    intro letters inside same
    rw [List.dropWhile_eq_self_iff] at same ⊢
    intro present isWhite
    exact same present (white _ (inside _ (List.getElem_mem _)) isWhite)
  have front : text.dropWhile PythonText.isSpace = text := by
    apply (List.dropWhile_suffix PythonText.isSpace).eq_of_length_le
    have length := congrArg List.length stripped
    rw [PythonText.strip, List.length_reverse] at length
    have shorter := List.length_dropWhile_le PythonText.isSpace
      (text.dropWhile PythonText.isSpace).reverse
    rw [List.length_reverse] at shorter
    omega
  have back : text.reverse.dropWhile PythonText.isSpace = text.reverse := by
    rw [PythonText.strip, front] at stripped
    rw [← List.reverse_reverse (List.dropWhile _ _), stripped]
  rw [trim, keeps (fun _ member => member) front,
    keeps (fun _ member => List.mem_reverse.mp member) back, List.reverse_reverse]

theorem exists_piece {separator : Char → Bool} {text : Text} {char : Char} (member : char ∈ text)
    (different : separator char = false) : ∃ piece ∈ text.splitOnP separator, char ∈ piece := by
  induction text with
  | nil => exact absurd member List.not_mem_nil
  | cons first text ih =>
      rw [List.splitOnP_cons_eq_if_modifyHead]
      split
      · next separates =>
          rcases List.mem_cons.mp member with rfl | later
          · exact absurd (different.symm.trans separates) (by decide)
          · obtain ⟨piece, pieceMember, inside⟩ := ih later
            exact ⟨piece, List.mem_cons_of_mem _ pieceMember, inside⟩
      · obtain ⟨head, tail, pieces⟩ :=
          List.exists_cons_of_ne_nil (List.splitOnP_ne_nil separator text)
        rw [pieces] at ih ⊢
        rcases List.mem_cons.mp member with rfl | later
        · exact ⟨char :: head, List.mem_cons_self, List.mem_cons_self⟩
        · obtain ⟨piece, pieceMember, inside⟩ := ih later
          rcases List.mem_cons.mp pieceMember with rfl | inTail
          · exact ⟨first :: piece, List.mem_cons_self, List.mem_cons_of_mem _ inside⟩
          · exact ⟨piece, List.mem_cons_of_mem _ inTail, inside⟩

theorem exists_word (member : char ∈ text) (solid : PythonText.isSpace char = false) :
    ∃ word ∈ words text, char ∈ word := by
  obtain ⟨word, wordMember, inside⟩ := exists_piece member solid
  exact ⟨word, List.mem_filter.mpr ⟨wordMember, by simpa using List.ne_nil_of_mem inside⟩, inside⟩

theorem ascii_of_means (documented : scheduler.Documented reading)
    (means : reading.Means part field admitted) (member : char ∈ field) : char.toNat < 128 := by
  by_cases comma : char = ','
  · rw [comma]
    decide
  · obtain ⟨item, itemMember, inside⟩ :=
      @exists_piece (· == ',') field char member (by simpa using comma)
    obtain ⟨own, ownEq⟩ := means.read item itemMember
    exact documented.ascii part item own ownEq char inside

/-- The characters of a piece are those between two separators. -/
theorem of_mem_splitOnP {separator : Char → Bool} {piece : Text}
    (member : piece ∈ text.splitOnP separator) (inside : char ∈ piece) :
    char ∈ text ∧ separator char = false := by
  induction text generalizing piece with
  | nil =>
      rw [List.splitOnP_nil, List.mem_singleton] at member
      rw [member] at inside
      exact absurd inside List.not_mem_nil
  | cons first text ih =>
      rw [List.splitOnP_cons_eq_if_modifyHead] at member
      split at member
      · rcases List.mem_cons.mp member with rfl | later
        · exact absurd inside List.not_mem_nil
        · exact (ih later inside).imp_left (List.mem_cons_of_mem _)
      · next different =>
          obtain ⟨head, tail, pieces⟩ :=
            List.exists_cons_of_ne_nil (List.splitOnP_ne_nil separator text)
          rw [pieces] at ih member
          rcases List.mem_cons.mp member with rfl | later
          · rcases List.mem_cons.mp inside with rfl | inside
            · exact ⟨List.mem_cons_self, by simpa using different⟩
            · exact (ih List.mem_cons_self inside).imp_left (List.mem_cons_of_mem _)
          · exact (ih (List.mem_cons_of_mem _ later) inside).imp_left (List.mem_cons_of_mem _)

theorem solid_of_mem_words {word : Text} (member : word ∈ words text) : Solid word := by
  obtain ⟨piece, present⟩ := List.mem_filter.mp member
  exact ⟨by simpa using present, fun _ inside => (of_mem_splitOnP piece inside).2⟩

theorem mem_of_mem_splitOn {separator : Char} {piece : Text}
    (member : piece ∈ text.splitOn separator) (inside : char ∈ piece) : char ∈ text :=
  (of_mem_splitOnP member inside).1

theorem strip_eq_self (solid : Solid text) : PythonText.strip text = text := by
  have front := dropWhile_isSpace_append solid []
  have back := dropWhile_isSpace_append solid.reverse []
  rw [List.append_nil] at front back
  rw [PythonText.strip, front, back, List.reverse_reverse]

theorem toNumber_eq_number (documented : scheduler.Documented reading) {item : Text}
    (read : reading.item part item = some admitted)
    (noSpace : ∀ char ∈ item, PythonText.isSpace char = false) : toNumber item = number item := by
  have present : item ≠ [] := by
    rintro rfl
    rw [documented.empty] at read
    exact absurd read nofun
  have same : trim item = item := by
    apply trim_eq_self _ (strip_eq_self ⟨present, noSpace⟩)
    intro char member white
    exact isSpace_of_isWhiteSpace (documented.ascii part item admitted read char member) white
  rw [toNumber, same, if_neg present]

theorem means_reopenedWeekdays (documented : scheduler.Documented reading) {old : Finset ℕ}
    (oldMeans : reading.Means .dayOfWeek dayOfWeek old) (solid : Solid dayOfWeek)
    (digits : ∀ item ∈ dayOfWeek.splitOn ',', Digits item) :
    reading.Means .dayOfWeek (reopenedWeekdays dayOfWeek) admitted ↔
      reading.Means .dayOfWeek dayOfWeek admitted := by
  have alike : ∀ item ∈ dayOfWeek.splitOn ',',
      reading.item .dayOfWeek (weekdayText (toNumber item)) = reading.item .dayOfWeek item := by
    intro item member
    obtain ⟨own, ownEq⟩ := oldMeans.read item member
    have value := number_eq_some_iff.mpr ⟨digits item member, rfl⟩
    rw [toNumber_eq_number documented ownEq
      fun char inside => solid.noSpace char (mem_of_mem_splitOn member inside), value,
      documented.number _ _ _ value]
    exact documented.number _ _ _ (number_toDigits _)
  apply means_congr
  · intro item member
    obtain ⟨previous, previousMember, rfl⟩ := mem_splitOn_reopenedWeekdays.mp member
    exact ⟨previous, previousMember, (alike previous previousMember).symm⟩
  · intro item member
    exact ⟨_, mem_splitOn_reopenedWeekdays.mpr ⟨item, member, rfl⟩, alike item member⟩

theorem digits_of_means_reopenedWeekdays (documented : scheduler.Documented reading)
    {old : Finset ℕ} (oldMeans : reading.Means .dayOfWeek dayOfWeek old) (solid : Solid dayOfWeek)
    (means : reading.Means .dayOfWeek (reopenedWeekdays dayOfWeek) admitted) :
    ∀ item ∈ dayOfWeek.splitOn ',', Digits item := by
  intro item member
  obtain ⟨own, ownEq⟩ := oldMeans.read item member
  obtain ⟨now, nowEq⟩ := means.read _ (mem_splitOn_reopenedWeekdays.mpr ⟨item, member, rfl⟩)
  rw [toNumber_eq_number documented ownEq
    fun char inside => solid.noSpace char (mem_of_mem_splitOn member inside)] at nowEq
  cases value : number item with
  | none =>
      rw [value, weekdayText, documented.notANumber] at nowEq
      exact absurd nowEq nofun
  | some weekday => exact digits_of_number value

theorem words_expression (minuteSolid : Solid minute) (hourSolid : Solid hour)
    (daySolid : Solid day) (monthSolid : Solid month) (dayOfWeekSolid : Solid dayOfWeek) :
    words (expression minute hour day month dayOfWeek) =
      [minute, hour, day, month, dayOfWeek] := by
  rw [expression, words_cons minuteSolid, words_cons hourSolid, words_cons daySolid,
    words_cons monthSolid, words_singleton dayOfWeekSolid]

theorem strip_expression (minuteSolid : Solid minute) (dayOfWeekSolid : Solid dayOfWeek) :
    PythonText.strip (expression minute hour day month dayOfWeek) =
      expression minute hour day month dayOfWeek := by
  have stripped := strip_between minuteSolid dayOfWeekSolid
    (' ' :: (hour ++ ' ' :: (day ++ ' ' :: (month ++ [' ']))))
  simpa only [expression, List.cons_append, List.append_assoc, List.nil_append] using stripped

theorem expression_ne_nil : expression minute hour day month dayOfWeek ≠ [] := by
  simp [expression]

variable {sets : CronSets}

theorem reads_iff_of_words (wordsEq : words text = [minute, hour, day, month, dayOfWeek]) :
    reading.Reads text sets ↔
      reading.Means .minute minute sets.minute ∧ reading.Means .hour hour sets.hour ∧
        reading.Means .day day sets.day ∧ reading.Means .month month sets.month ∧
        reading.Means .dayOfWeek dayOfWeek sets.dayOfWeek := by
  constructor
  · rintro ⟨_, _, _, _, _, own, means⟩
    rw [wordsEq] at own
    simp only [List.cons.injEq, and_true] at own
    obtain ⟨rfl, rfl, rfl, rfl, rfl⟩ := own
    exact means
  · exact fun means => ⟨_, _, _, _, _, wordsEq, means⟩

theorem le_shortestCronGapMinutes_iff {trigger : Trigger} {minutes : ℕ} :
    ((minutes : ℚ) : WithTop ℚ) ≤ shortestCronGapMinutes trigger ScheduleGaps.seoul now ↔
      (sample trigger.getNextFireTime 64 now).IsChain (ScheduleGaps.Apart minutes) := by
  have elapsed : (fun previous current : ℤ =>
      ScheduleGaps.seoul.toLocal current - ScheduleGaps.seoul.toLocal previous) =
        fun previous current => current - previous := by
    funext previous current
    show current + 9 * hourLength - (previous + 9 * hourLength) = _
    omega
  rw [shortestCronGapMinutes, elapsed, ScheduleGaps.le_shortestGap_iff]
  exact and_iff_right le_top

theorem runs_cronRequest (documented : scheduler.Documented reading) {trigger : Trigger}
    (triggerEq : scheduler.fromCrontab text ScheduleGaps.seoul = .ok trigger) (instant : ℤ) :
    Runs scheduler (cronRequest text) instant ↔ trigger.fires instant := by
  have job : addTriggerJob scheduler (cronRequest text) = .ok trigger.fires := by
    simp only [addTriggerJob, cronRequest, String.reduceEq, if_false, documented.seoul,
      Option.getD_some, bind, Except.bind, triggerEq, pure, Except.pure]
  constructor
  · rintro ⟨instants, jobEq, runs⟩
    obtain rfl := Except.ok.inj (jobEq.symm.trans job)
    exact runs
  · exact fun fires => ⟨_, job, fires⟩

theorem normalize_cronRequest (documented : scheduler.Documented reading)
    (stripped : PythonText.strip text = text) (present : text ≠ []) {saved : Schedule} :
    normalizeScheduleConfig scheduler now (cronRequest text) = .ok saved ↔
      ∃ trigger, scheduler.fromCrontab text ScheduleGaps.seoul = .ok trigger ∧
        (sample trigger.getNextFireTime 64 now).IsChain
          (ScheduleGaps.Apart scheduler.triggerMinIntervalMinutes) ∧ cronRequest text = saved := by
  have normalized : normalizeScheduleConfig scheduler now (cronRequest text) =
      (scheduler.fromCrontab text ScheduleGaps.seoul).bind fun trigger =>
        if shortestCronGapMinutes trigger ScheduleGaps.seoul now <
            ((scheduler.triggerMinIntervalMinutes : ℚ) : WithTop ℚ) then
          .error (.valueError "schedule repeats more often than the minimum interval")
        else .ok (cronRequest text) := by
    simp only [normalizeScheduleConfig, cronRequest, String.reduceEq, if_false, documented.seoul,
      Option.getD_some, stripped, if_neg present, bind, Except.bind]
    cases scheduler.fromCrontab text ScheduleGaps.seoul with
    | error raised => rfl
    | ok trigger =>
        dsimp only
        split <;> rfl
  rw [normalized]
  constructor
  · intro accepted
    obtain ⟨trigger, triggerEq, accepted⟩ := Fallible.bind_eq_ok.mp accepted
    split at accepted
    · exact absurd accepted nofun
    · next slow =>
        exact ⟨trigger, triggerEq, le_shortestCronGapMinutes_iff.mp (not_lt.mp slow),
          Except.ok.inj accepted⟩
  · rintro ⟨trigger, triggerEq, slow, rfl⟩
    rw [triggerEq]
    exact if_neg (not_lt.mpr (le_shortestCronGapMinutes_iff.mpr slow))

theorem saved_iff (documented : scheduler.Documented reading)
    (stripped : PythonText.strip text = text) (present : text ≠ []) :
    (∃ saved, normalizeScheduleConfig scheduler now (cronRequest text) = .ok saved ∧
        ∀ instant, Runs scheduler saved instant ↔ Runs scheduler stored instant) ↔
      RunsAlike scheduler now stored text := by
  constructor
  · rintro ⟨saved, accepted, same⟩
    obtain ⟨trigger, triggerEq, slow, rfl⟩ :=
      (normalize_cronRequest documented stripped present).mp accepted
    exact ⟨trigger, triggerEq,
      fun instant => (runs_cronRequest documented triggerEq instant).symm.trans (same instant),
      slow⟩
  · rintro ⟨trigger, triggerEq, same, slow⟩
    exact ⟨cronRequest text,
      (normalize_cronRequest documented stripped present).mpr ⟨trigger, triggerEq, slow, rfl⟩,
      fun instant => (runs_cronRequest documented triggerEq instant).trans (same instant)⟩

theorem runsAlike_congr (documented : scheduler.Documented reading) {other : Text}
    (same : ∀ sets, reading.Reads text sets ↔ reading.Reads other sets) :
    RunsAlike scheduler now stored text ↔ RunsAlike scheduler now stored other := by
  have triggers : ∀ trigger, scheduler.fromCrontab text ScheduleGaps.seoul = .ok trigger ↔
      scheduler.fromCrontab other ScheduleGaps.seoul = .ok trigger := by
    intro trigger
    simp only [documented.fromCrontab, same]
  simp only [RunsAlike, triggers]

theorem of_accepted_cron (documented : scheduler.Documented reading)
    (cron : stored.triggerType = .cron)
    (accepted : normalizeScheduleConfig scheduler now stored = .ok stored) :
    ∃ expr sets, stored.cronExpression = some expr ∧ PythonText.strip expr = expr ∧ expr ≠ [] ∧
      reading.Reads expr sets := by
  unfold normalizeScheduleConfig at accepted
  obtain ⟨zone, _, accepted⟩ := Fallible.bind_eq_ok.mp accepted
  rw [cron] at accepted
  dsimp only at accepted
  split at accepted
  · exact absurd accepted nofun
  · next present =>
      obtain ⟨trigger, triggerEq, accepted⟩ := Fallible.bind_eq_ok.mp accepted
      split at accepted
      · exact absurd accepted nofun
      · have exprEq := congrArg Schedule.cronExpression (Except.ok.inj accepted)
        obtain ⟨sets, reads, _⟩ := (documented.fromCrontab _ _ _).mp triggerEq
        dsimp only at exprEq
        have value : stored.cronExpression.getD [] =
            PythonText.strip (stored.cronExpression.getD []) := by
          conv_lhs => rw [← exprEq]
          rfl
        exact ⟨_, sets, exprEq.symm, (congrArg PythonText.strip value).symm, present, reads⟩

theorem unchanged_iff_runsAlike (documented : scheduler.Documented reading)
    (request : reopenedRequest browser now stored = some (cronRequest text))
    (stripped : PythonText.strip text = text) (present : text ≠ []) :
    Unchanged scheduler browser now stored ↔ RunsAlike scheduler now stored text := by
  rw [← saved_iff documented stripped present, Unchanged]
  constructor
  · rintro ⟨own, saved, requestEq, accepted, same⟩
    obtain rfl := Option.some.inj (request.symm.trans requestEq)
    exact ⟨saved, accepted, same⟩
  · rintro ⟨saved, accepted, same⟩
    exact ⟨_, saved, request, accepted, same⟩

theorem unchanged_iff_whole (documented : scheduler.Documented reading)
    (cron : stored.triggerType = .cron) (exprEq : stored.cronExpression = some expr)
    (stripped : PythonText.strip expr = expr) (present : expr ≠ [])
    (reads : reading.Reads expr sets) (parts : (expr.splitOn ' ').length ≠ 5) :
    Unchanged scheduler browser now stored ↔ RunsAlike scheduler now stored expr := by
  have white : ∀ char ∈ expr, JsValue.isWhiteSpace char = true →
      PythonText.isSpace char = true := by
    intro char member white
    cases space : PythonText.isSpace char with
    | true => rfl
    | false =>
        -- Outside of white space all words are read, so their characters are ASCII.
        obtain ⟨word, wordMember, inside⟩ := exists_word member space
        obtain ⟨minute, hour, day, month, dayOfWeek, wordsEq, minuteMeans, hourMeans, dayMeans,
          monthMeans, dayOfWeekMeans⟩ := reads.words
        rw [wordsEq] at wordMember
        simp only [List.mem_cons, List.not_mem_nil, or_false] at wordMember
        have ascii : char.toNat < 128 := by
          rcases wordMember with rfl | rfl | rfl | rfl | rfl
          · exact ascii_of_means documented minuteMeans inside
          · exact ascii_of_means documented hourMeans inside
          · exact ascii_of_means documented dayMeans inside
          · exact ascii_of_means documented monthMeans inside
          · exact ascii_of_means documented dayOfWeekMeans inside
        exact absurd (space.symm.trans (isSpace_of_isWhiteSpace ascii white)) (by decide)
  have request := @reopened_whole browser now stored expr cron exprEq parts
  rw [trim_eq_self white stripped] at request
  exact unchanged_iff_runsAlike documented request stripped present

/-- The five words of an expression, and that they are read. -/
structure Parted (reading : CronReading) (expr minute hour day month dayOfWeek : Text)
    (sets : CronSets) : Prop where
  parts : expr.splitOn ' ' = [minute, hour, day, month, dayOfWeek]
  words : words expr = expr.splitOn ' '
  reads : reading.Reads expr sets

section

variable {minute hour day month dayOfWeek : Text} {sets : CronSets}

theorem Parted.solid (parted : Parted reading expr minute hour day month dayOfWeek sets) :
    Solid minute ∧ Solid hour ∧ Solid day ∧ Solid month ∧ Solid dayOfWeek := by
  have each : ∀ word ∈ [minute, hour, day, month, dayOfWeek], Solid word := by
    intro word member
    rw [← parted.parts, ← parted.words] at member
    exact solid_of_mem_words member
  simpa using each

theorem Parted.means (parted : Parted reading expr minute hour day month dayOfWeek sets) :
    reading.Means .minute minute sets.minute ∧ reading.Means .hour hour sets.hour ∧
      reading.Means .day day sets.day ∧ reading.Means .month month sets.month ∧
      reading.Means .dayOfWeek dayOfWeek sets.dayOfWeek :=
  (reads_iff_of_words (parted.words.trans parted.parts)).mp parted.reads

theorem Parted.reads_iff (parted : Parted reading expr minute hour day month dayOfWeek sets)
    (documented : scheduler.Documented reading) (minuteStar : minute ≠ ['*'])
    (hourStar : hour ≠ ['*']) {keptDay keptWeekdays writtenWeekdays : Text}
    (daySolid : Solid keptDay) (keptSolid : Solid keptWeekdays)
    (writtenSolid : Solid writtenWeekdays)
    (weekdays : ∀ admitted, reading.Means .dayOfWeek writtenWeekdays admitted ↔
      reading.Means .dayOfWeek keptWeekdays admitted) (others : CronSets) :
    reading.Reads (expression (padStart minute) (padStart hour) keptDay ['*'] writtenWeekdays)
        others ↔
      reading.Reads (expression minute hour keptDay ['*'] keptWeekdays) others := by
  obtain ⟨minuteSolid, hourSolid, _⟩ := parted.solid
  obtain ⟨minuteMeans, hourMeans, _⟩ := parted.means
  rw [reads_iff_of_words (words_expression (solid_padStart minuteSolid) (solid_padStart hourSolid)
      daySolid star_solid writtenSolid),
    reads_iff_of_words (words_expression minuteSolid hourSolid daySolid star_solid keptSolid),
    means_padStart documented minuteMeans minuteSolid.present minuteStar,
    means_padStart documented hourMeans hourSolid.present hourStar, weekdays]

theorem Parted.noStars (parted : Parted reading expr minute hour day month dayOfWeek sets)
    (documented : scheduler.Documented reading) {keptDay writtenWeekdays : Text}
    (daySolid : Solid keptDay) (writtenSolid : Solid writtenWeekdays) {others : CronSets}
    (reads : reading.Reads
      (expression (padStart minute) (padStart hour) keptDay ['*'] writtenWeekdays) others) :
    (minute ≠ ['*'] ∧ hour ≠ ['*']) ∧
      reading.Means .dayOfWeek writtenWeekdays others.dayOfWeek := by
  obtain ⟨minuteSolid, hourSolid, _⟩ := parted.solid
  rw [reads_iff_of_words (words_expression (solid_padStart minuteSolid) (solid_padStart hourSolid)
    daySolid star_solid writtenSolid)] at reads
  obtain ⟨minuteMeans, hourMeans, _, _, weekdayMeans⟩ := reads
  refine ⟨⟨?_, ?_⟩, weekdayMeans⟩
  · rintro rfl
    exact not_means_padStart_star documented minuteMeans
  · rintro rfl
    exact not_means_padStart_star documented hourMeans

theorem exists_reads_of_runsAlike (documented : scheduler.Documented reading) {text : Text}
    (alike : RunsAlike scheduler now stored text) : ∃ others, reading.Reads text others := by
  obtain ⟨trigger, triggerEq, _⟩ := alike
  obtain ⟨others, reads, _⟩ := (documented.fromCrontab _ _ _).mp triggerEq
  exact ⟨others, reads⟩

theorem unchanged_iff_day (documented : scheduler.Documented reading)
    (cron : stored.triggerType = .cron) (exprEq : stored.cronExpression = some expr)
    (parted : Parted reading expr minute hour day month ['*'] sets) :
    Unchanged scheduler browser now stored ↔ (minute ≠ ['*'] ∧ hour ≠ ['*']) ∧
      RunsAlike scheduler now stored (expression minute hour day ['*'] ['*']) := by
  obtain ⟨minuteSolid, hourSolid, daySolid, _⟩ := parted.solid
  rw [unchanged_iff_runsAlike documented (reopened_day cron exprEq parted.parts)
    (strip_expression (solid_padStart minuteSolid) star_solid) expression_ne_nil]
  have same : minute ≠ ['*'] ∧ hour ≠ ['*'] →
      (RunsAlike scheduler now stored
          (expression (padStart minute) (padStart hour) day ['*'] ['*']) ↔
        RunsAlike scheduler now stored (expression minute hour day ['*'] ['*'])) := by
    rintro ⟨minuteStar, hourStar⟩
    exact runsAlike_congr documented (parted.reads_iff documented minuteStar hourStar daySolid
      star_solid star_solid fun _ => Iff.rfl)
  constructor
  · intro alike
    obtain ⟨others, reads⟩ := exists_reads_of_runsAlike documented alike
    have noStars := (parted.noStars documented daySolid star_solid reads).1
    exact ⟨noStars, (same noStars).mp alike⟩
  · exact fun ⟨noStars, alike⟩ => (same noStars).mpr alike

theorem unchanged_iff_weekdays (documented : scheduler.Documented reading)
    (cron : stored.triggerType = .cron) (exprEq : stored.cronExpression = some expr)
    (parted : Parted reading expr minute hour day month dayOfWeek sets)
    (weekly : dayOfWeek ≠ ['*']) :
    Unchanged scheduler browser now stored ↔
      ((minute ≠ ['*'] ∧ hour ≠ ['*']) ∧ ∀ item ∈ dayOfWeek.splitOn ',', Digits item) ∧
        RunsAlike scheduler now stored (expression minute hour ['*'] ['*'] dayOfWeek) := by
  obtain ⟨minuteSolid, hourSolid, _, _, dayOfWeekSolid⟩ := parted.solid
  obtain ⟨_, _, _, _, oldMeans⟩ := parted.means
  have writtenSolid := reopenedWeekdays_solid dayOfWeek
  rw [unchanged_iff_runsAlike documented (reopened_weekdays cron exprEq parted.parts weekly)
    (strip_expression (solid_padStart minuteSolid) writtenSolid) expression_ne_nil]
  have same : (minute ≠ ['*'] ∧ hour ≠ ['*']) ∧ (∀ item ∈ dayOfWeek.splitOn ',', Digits item) →
      (RunsAlike scheduler now stored (expression (padStart minute) (padStart hour) ['*'] ['*']
          (reopenedWeekdays dayOfWeek)) ↔
        RunsAlike scheduler now stored (expression minute hour ['*'] ['*'] dayOfWeek)) := by
    rintro ⟨⟨minuteStar, hourStar⟩, digits⟩
    exact runsAlike_congr documented (parted.reads_iff documented minuteStar hourStar star_solid
      dayOfWeekSolid writtenSolid fun _ =>
        means_reopenedWeekdays documented oldMeans dayOfWeekSolid digits)
  constructor
  · intro alike
    obtain ⟨others, reads⟩ := exists_reads_of_runsAlike documented alike
    obtain ⟨noStars, weekdayMeans⟩ := parted.noStars documented star_solid writtenSolid reads
    have digits :=
      digits_of_means_reopenedWeekdays documented oldMeans dayOfWeekSolid weekdayMeans
    exact ⟨⟨noStars, digits⟩, (same ⟨noStars, digits⟩).mp alike⟩
  · exact fun ⟨kept, alike⟩ => (same kept).mpr alike

end

theorem unchanged_iff_kept_cron (documented : scheduler.Documented reading)
    (cron : stored.triggerType = .cron)
    (accepted : normalizeScheduleConfig scheduler now stored = .ok stored) :
    (Kept scheduler browser now stored → Unchanged scheduler browser now stored) ∧
      (EvenlySpaced stored → Unchanged scheduler browser now stored →
        Kept scheduler browser now stored) := by
  obtain ⟨expr, sets, exprEq, stripped, present, reads⟩ :=
    of_accepted_cron documented cron accepted
  have kept_iff : Kept scheduler browser now stored ↔
      ∃ kept, Keeps expr kept ∧ RunsAlike scheduler now stored kept := by
    rw [Kept, cron]
    simp only [exprEq, Option.some.injEq, exists_and_left, exists_eq_left']
  rw [kept_iff]
  constructor
  · rintro ⟨kept, keeps, alike⟩
    cases keeps with
    | whole parts =>
        exact (unchanged_iff_whole documented cron exprEq stripped present reads parts).mpr alike
    | day parts wordsEq minuteStar hourStar =>
        exact (unchanged_iff_day documented cron exprEq ⟨parts, wordsEq, reads⟩).mpr
          ⟨⟨minuteStar, hourStar⟩, alike⟩
    | weekdays parts wordsEq minuteStar hourStar weekly digits =>
        exact (unchanged_iff_weekdays documented cron exprEq ⟨parts, wordsEq, reads⟩ weekly).mpr
          ⟨⟨⟨minuteStar, hourStar⟩, digits⟩, alike⟩
  · intro even unchanged
    by_cases five : (expr.splitOn ' ').length = 5
    · have wordsEq := even expr exprEq five
      obtain ⟨minute, hour, day, month, dayOfWeek, parts⟩ :
          ∃ minute hour day month dayOfWeek,
            expr.splitOn ' ' = [minute, hour, day, month, dayOfWeek] := by
        match expr.splitOn ' ', five with
        | [minute, hour, day, month, dayOfWeek], _ =>
            exact ⟨minute, hour, day, month, dayOfWeek, rfl⟩
      by_cases weekly : dayOfWeek = ['*']
      · rw [weekly] at parts
        obtain ⟨⟨minuteStar, hourStar⟩, alike⟩ :=
          (unchanged_iff_day documented cron exprEq ⟨parts, wordsEq, reads⟩).mp unchanged
        exact ⟨_, .day parts wordsEq minuteStar hourStar, alike⟩
      · obtain ⟨⟨⟨minuteStar, hourStar⟩, digits⟩, alike⟩ :=
          (unchanged_iff_weekdays documented cron exprEq ⟨parts, wordsEq, reads⟩ weekly).mp
            unchanged
        exact ⟨_, .weekdays parts wordsEq minuteStar hourStar weekly digits, alike⟩
    · exact ⟨expr, .whole five,
        (unchanged_iff_whole documented cron exprEq stripped present reads five).mp unchanged⟩

theorem unchanged_interval (documented : scheduler.Documented reading)
    (interval : stored.triggerType = .interval)
    (accepted : normalizeScheduleConfig scheduler now stored = .ok stored) :
    Unchanged scheduler browser now stored := by
  unfold normalizeScheduleConfig at accepted
  obtain ⟨zone, zoneEq, accepted⟩ := Fallible.bind_eq_ok.mp accepted
  rw [interval] at accepted
  cases minutesEq : stored.intervalMinutes with
  | none =>
      rw [minutesEq] at accepted
      exact absurd accepted nofun
  | some minutes =>
      rw [minutesEq] at accepted
      dsimp only at accepted
      split at accepted
      · exact absurd accepted nofun
      · next positive =>
          split at accepted
          · exact absurd accepted nofun
          · next slow =>
              let saved : Schedule :=
                { triggerType := .interval, intervalMinutes := some minutes
                  timezone := "Asia/Seoul" }
              have request : reopenedRequest browser now stored = some saved := by
                rw [reopenedRequest, parseTriggerToForm, interval, minutesEq]
                rfl
              have savedOk : normalizeScheduleConfig scheduler now saved = .ok saved := by
                simp only [normalizeScheduleConfig, saved, String.reduceEq, if_false,
                  documented.seoul, bind, Except.bind, if_neg positive, if_neg slow, pure,
                  Except.pure]
              have savedJob : addTriggerJob scheduler saved =
                  .ok (scheduler.intervalTrigger minutes ScheduleGaps.seoul) := by
                simp only [addTriggerJob, saved, String.reduceEq, if_false, documented.seoul, bind,
                  Except.bind, Option.getD_some, pure, Except.pure]
              have storedJob : addTriggerJob scheduler stored =
                  .ok (scheduler.intervalTrigger minutes zone) := by
                simp only [addTriggerJob, zoneEq, interval, minutesEq, bind, Except.bind,
                  Option.getD_some, pure, Except.pure]
              refine ⟨saved, saved, request, savedOk, fun instant => ?_⟩
              rw [Runs, Runs, savedJob, storedJob,
                documented.interval minutes zone ScheduleGaps.seoul]

theorem normalize_oneTimeRequest (documented : scheduler.Documented reading) {scheduledAt : ℤ}
    {saved : Schedule} :
    normalizeScheduleConfig scheduler now (oneTimeRequest scheduledAt) = .ok saved ↔
      ¬ scheduledAt ≤ now ∧ oneTimeRequest scheduledAt = saved := by
  have normalized : normalizeScheduleConfig scheduler now (oneTimeRequest scheduledAt) =
      if scheduledAt ≤ now then .error (.valueError "scheduled_at must be in the future")
      else .ok (oneTimeRequest scheduledAt) := by
    simp only [normalizeScheduleConfig, oneTimeRequest, String.reduceEq, if_false,
      documented.seoul, bind, Except.bind]
    split <;> rfl
  rw [normalized]
  split
  · next past => exact ⟨nofun, fun future => absurd past future.1⟩
  · next future => exact ⟨fun same => ⟨future, Except.ok.inj same⟩, fun same => by rw [same.2]⟩

theorem runs_oneTimeRequest (documented : scheduler.Documented reading) {scheduledAt : ℤ}
    {instant : ℤ} :
    Runs scheduler (oneTimeRequest scheduledAt) instant ↔ instant = scheduledAt := by
  have job : addTriggerJob scheduler (oneTimeRequest scheduledAt) =
      .ok (scheduler.dateTrigger scheduledAt ScheduleGaps.seoul) := by
    simp only [addTriggerJob, oneTimeRequest, String.reduceEq, if_false, documented.seoul, bind,
      Except.bind, pure, Except.pure]
  rw [Runs, job, ← documented.date scheduledAt ScheduleGaps.seoul]
  simp only [Except.ok.injEq, exists_eq_left']

/-- An instant is kept if its minute on the wall of the browser names it. -/
theorem unchanged_iff_kept_oneTime (documented : scheduler.Documented reading)
    (oneTime : stored.triggerType = .oneTime)
    (accepted : normalizeScheduleConfig scheduler now stored = .ok stored) :
    Unchanged scheduler browser now stored ↔ Kept scheduler browser now stored := by
  unfold normalizeScheduleConfig at accepted
  obtain ⟨zone, zoneEq, accepted⟩ := Fallible.bind_eq_ok.mp accepted
  rw [oneTime] at accepted
  cases runEq : stored.scheduledAt with
  | none =>
      rw [runEq] at accepted
      exact absurd accepted nofun
  | some runAt =>
      rw [runEq] at accepted
      dsimp only at accepted
      split at accepted
      · exact absurd accepted nofun
      · next future =>
          have storedRuns : ∀ instant, Runs scheduler stored instant ↔ instant = runAt := by
            intro instant
            have job : addTriggerJob scheduler stored = .ok (scheduler.dateTrigger runAt zone) := by
              simp only [addTriggerJob, zoneEq, oneTime, runEq, bind, Except.bind, pure,
                Except.pure]
            rw [Runs, job, ← documented.date runAt zone]
            simp only [Except.ok.injEq, exists_eq_left']
          have request : reopenedRequest browser now stored =
              (newDate browser (toDateTimeLocal browser (some runAt))).map oneTimeRequest := by
            rw [reopenedRequest, parseTriggerToForm, oneTime, runEq]
            rfl
          have kept_iff : Kept scheduler browser now stored ↔
              newDate browser (toDateTimeLocal browser (some runAt)) = some runAt := by
            rw [Kept, oneTime]
            simp only [runEq, Option.some.injEq, exists_and_left, exists_eq_left']
            cases toDateTimeLocal browser (some runAt) <;> simp [newDate]
          rw [kept_iff]
          constructor
          · rintro ⟨own, saved, ownEq, savedOk, same⟩
            obtain ⟨again, againEq, rfl⟩ :=
              Option.map_eq_some_iff.mp (request.symm.trans ownEq)
            obtain ⟨_, rfl⟩ := (normalize_oneTimeRequest documented).mp savedOk
            rw [againEq, Option.some.injEq, ← storedRuns again, ← same again,
              runs_oneTimeRequest documented]
          · intro again
            rw [again] at request
            refine ⟨_, _, request,
              (normalize_oneTimeRequest documented).mpr ⟨future, rfl⟩, fun instant => ?_⟩
            rw [runs_oneTimeRequest documented, storedRuns]

/-- A schedule that is opened and saved runs at the same instants if it is kept, and only then
if its parts are its words. -/
theorem unchanged_of_kept_iff (documented : scheduler.Documented reading)
    (accepted : normalizeScheduleConfig scheduler now stored = .ok stored) :
    (Kept scheduler browser now stored → Unchanged scheduler browser now stored) ∧
      (EvenlySpaced stored → Unchanged scheduler browser now stored →
        Kept scheduler browser now stored) := by
  cases kind : stored.triggerType with
  | interval =>
      have kept : Kept scheduler browser now stored := by
        rw [Kept, kind]
        trivial
      exact ⟨fun _ => unchanged_interval documented kind accepted, fun _ _ => kept⟩
  | cron => exact unchanged_iff_kept_cron documented kind accepted
  | oneTime =>
      have same := @unchanged_iff_kept_oneTime browser now stored _ _ documented kind accepted
      exact ⟨same.mpr, fun _ => same.mp⟩

/-- The day, the month and the weekday of a day, which is Monday at first. -/
def CronSets.AdmitsDay (sets : CronSets) (day : ℤ) : Prop :=
  (day - CalendarMonths.monthStart (CalendarMonths.monthOf day) + 1).toNat ∈ sets.day ∧
    (CalendarMonths.monthOf day % 12 + 1).toNat ∈ sets.month ∧ (day % 7).toNat ∈ sets.dayOfWeek

/-- Items are stars and numbers; the trigger runs at the full minutes whose fields on the wall of
its zone are admitted. -/
noncomputable def numberReading : CronReading where
  item part text :=
    if text = ['*'] then some (Finset.Icc part.bounds.1 part.bounds.2)
    else match number text with
      | none => none
      | some value => if part.bounds.1 ≤ value ∧ value ≤ part.bounds.2 then some {value} else none
  trigger sets zone :=
    let wallTrigger := ScheduleGaps.fieldTrigger sets.minute sets.hour sets.AdmitsDay
    { fires := fun instant => wallTrigger.Fires (zone.toLocal instant)
      getNextFireTime := earliest fun instant => wallTrigger.Fires (zone.toLocal instant) }

theorem reads_unique {others : CronSets} (reads : reading.Reads text sets)
    (othersReads : reading.Reads text others) : sets = others := by
  obtain ⟨minute, hour, day, month, dayOfWeek, wordsEq, means⟩ := reads.words
  obtain ⟨minuteMeans, hourMeans, dayMeans, monthMeans, dayOfWeekMeans⟩ := means
  obtain ⟨minuteOther, hourOther, dayOther, monthOther, dayOfWeekOther⟩ :=
    (reads_iff_of_words wordsEq).mp othersReads
  have minuteEq := means_unique minuteMeans minuteOther
  have hourEq := means_unique hourMeans hourOther
  have dayEq := means_unique dayMeans dayOther
  have monthEq := means_unique monthMeans monthOther
  have dayOfWeekEq := means_unique dayOfWeekMeans dayOfWeekOther
  cases sets
  cases others
  simp_all

open Classical in
/-- A scheduler of expressions of stars and numbers. -/
noncomputable def numberScheduler : Scheduler where
  zoneInfo _ := .ok ScheduleGaps.seoul
  fromCrontab text zone :=
    if read : ∃ sets, numberReading.Reads text sets then
      .ok (numberReading.trigger read.choose zone)
    else .error (.valueError "Wrong number of fields")
  intervalTrigger minutes _ instant := 0 < instant ∧ instant % (minutes * minuteLength) = 0
  dateTrigger runAt _ instant := instant = runAt
  triggerMinIntervalMinutes := 15

theorem numberReading_number {part : CronPart} {text : Text} (different : text ≠ ['*']) :
    numberReading.item part text = match number text with
      | none => none
      | some value =>
          if part.bounds.1 ≤ value ∧ value ≤ part.bounds.2 then some {value} else none :=
  if_neg different

theorem numberReading_star (part : CronPart) :
    numberReading.item part ['*'] = some (Finset.Icc part.bounds.1 part.bounds.2) := by
  dsimp only [numberReading]
  rw [if_pos rfl]

theorem documented_numberScheduler : numberScheduler.Documented numberReading where
  seoul := rfl
  fromCrontab := by
    intro text zone trigger
    dsimp only [numberScheduler]
    constructor
    · intro read
      split at read
      · next found => exact ⟨_, found.choose_spec, (Except.ok.inj read).symm⟩
      · exact absurd read nofun
    · rintro ⟨sets, reads, rfl⟩
      have found : ∃ sets, numberReading.Reads text sets := ⟨sets, reads⟩
      simp only [dif_pos found, reads_unique found.choose_spec reads]
  finds _ _ := findsNext_earliest _
  number := by
    intro part text value read
    rw [numberReading_number (CronField.ne_star_of_digits (digits_of_number read)), read]
  star part := ⟨_, numberReading_star part⟩
  starAfterDigit part := by
    rw [numberReading_number (by decide)]
    rfl
  notANumber part := by
    rw [numberReading_number (by decide)]
    rfl
  single := by
    intro part char admitted read
    by_cases star : char = '*'
    · exact Or.inl star
    · right
      rw [numberReading_number (by simpa using star)] at read
      cases value : number [char] with
      | none =>
          rw [value] at read
          exact absurd read nofun
      | some _ => exact (digits_of_number value).2 char List.mem_cons_self
  empty part := by
    rw [numberReading_number (by decide)]
    rfl
  ascii := by
    intro part text admitted read char member
    by_cases star : text = ['*']
    · rw [star, List.mem_singleton] at member
      rw [member]
      decide
    · rw [numberReading_number star] at read
      cases value : number text with
      | none =>
          rw [value] at read
          exact absurd read nofun
      | some _ =>
          have digit := (digits_of_number value).2 char member
          rw [Char.isDigit, Bool.and_eq_true, decide_eq_true_eq, decide_eq_true_eq] at digit
          have below := UInt32.le_iff_toNat_le.mp digit.2
          exact lt_of_le_of_lt below (by decide)
  interval _ _ _ := rfl
  date _ _ _ := Iff.rfl

theorem means_single (read : reading.item part field = some admitted) (noComma : ',' ∉ field) :
    reading.Means part field admitted := by
  have items := List.splitOn_eq_singleton noComma
  constructor
  · intro item member
    rw [items, List.mem_singleton] at member
    exact ⟨admitted, member ▸ read⟩
  · intro value
    simp only [items, List.mem_singleton, exists_eq_left, read, Option.some.injEq,
      exists_eq_left']

theorem means_star (part : CronPart) :
    numberReading.Means part ['*'] (Finset.Icc part.bounds.1 part.bounds.2) :=
  means_single (numberReading_star part) (by decide)

theorem means_number (part : CronPart) {value : ℕ} (read : number field = some value)
    (within : part.bounds.1 ≤ value ∧ value ≤ part.bounds.2) :
    numberReading.Means part field {value} := by
  have digits := digits_of_number read
  apply means_single
  · rw [documented_numberScheduler.number part field value read, if_pos within]
  · exact fun comma => ne_comma_of_isDigit (digits.2 _ comma) rfl

theorem isChain_of_daily {minute hour : ℕ} (minuteEq : sets.minute = {minute})
    (hourEq : sets.hour = {hour}) :
    (sample (numberReading.trigger sets ScheduleGaps.seoul).getNextFireTime 64 now).IsChain
      (ScheduleGaps.Apart 15) := by
  have finds := documented_numberScheduler.finds sets ScheduleGaps.seoul
  have atTime : ∀ {instant}, (numberReading.trigger sets ScheduleGaps.seoul).fires instant →
      (instant + 9 * hourLength) % dayLength = hour * hourLength + minute * minuteLength := by
    intro instant fires
    have wall : (ScheduleGaps.fieldTrigger sets.minute sets.hour _).Fires
        (instant + 9 * hourLength) := fires
    have full := wall.fullMinute
    have minuteOf := wall.minute
    have hourOf := wall.hour
    simp only [ScheduleGaps.fieldTrigger, minuteEq, hourEq, Finset.mem_singleton] at minuteOf hourOf
    simp only [hourLength, minuteLength, dayLength] at full minuteOf hourOf ⊢
    omega
  apply List.Pairwise.isChain
  apply (pairwise_sample finds 64 now).imp_of_mem
  intro first second firstMember secondMember order
  have firstTime := atTime (mem_sample finds firstMember).1
  have secondTime := atTime (mem_sample finds secondMember).1
  simp only [hourLength, minuteLength, dayLength] at firstTime secondTime
  rw [ScheduleGaps.Apart, minuteLength]
  omega

/-- Half past nine on one weekday. -/
theorem weekly_reads : numberReading.Reads "30 9 * * 1".toList
    ⟨{30}, {9}, Finset.Icc 1 31, Finset.Icc 1 12, {1}⟩ :=
  (reads_iff_of_words (show words "30 9 * * 1".toList =
    [['3', '0'], ['9'], ['*'], ['*'], ['1']] by decide)).mpr
    ⟨means_number .minute (by decide) (by decide), means_number .hour (by decide) (by decide),
      means_star .day, means_star .month, means_number .dayOfWeek (by decide) (by decide)⟩

/-- Nine o'clock on the first of some months. -/
theorem yearly_reads {text month : Text} {months : Finset ℕ}
    (wordsEq : words text = [['0'], ['9'], ['1'], month, ['*']])
    (monthMeans : numberReading.Means .month month months) :
    numberReading.Reads text ⟨{0}, {9}, {1}, months, Finset.Icc 0 6⟩ :=
  (reads_iff_of_words wordsEq).mpr
    ⟨means_number .minute (by decide) (by decide), means_number .hour (by decide) (by decide),
      means_number .day (by decide) (by decide), monthMeans, means_star .dayOfWeek⟩

theorem triggerEq_of_reads (reads : numberReading.Reads text sets) :
    numberScheduler.fromCrontab text ScheduleGaps.seoul =
      .ok (numberReading.trigger sets ScheduleGaps.seoul) :=
  (documented_numberScheduler.fromCrontab _ _ _).mpr ⟨sets, reads, rfl⟩

/-- The first of March runs if March is admitted. -/
theorem yearly_fires_march {months : Finset ℕ} :
    (numberReading.trigger ⟨{0}, {9}, {1}, months, Finset.Icc 0 6⟩ ScheduleGaps.seoul).fires
        (dayLength * CalendarMonths.monthStart 24302) ↔ 3 ∈ months := by
  have date : BillingPeriods.dateOf
      (ScheduleGaps.seoul.toLocal (dayLength * CalendarMonths.monthStart 24302)) =
        CalendarMonths.monthStart 24302 := by decide
  have month : CalendarMonths.monthOf (CalendarMonths.monthStart 24302) % 12 + 1 = 3 := by
    rw [CalendarMonths.monthOf_monthStart]
    rfl
  constructor
  · intro fires
    have admitted := (ScheduleGaps.CronTrigger.Fires.day fires).2.1
    rw [date, month] at admitted
    exact admitted
  · intro admitted
    have minute : (ScheduleGaps.seoul.toLocal (dayLength * CalendarMonths.monthStart 24302) /
        minuteLength % 60).toNat ∈ ({0} : Finset ℕ) := by decide
    have hour : (ScheduleGaps.seoul.toLocal (dayLength * CalendarMonths.monthStart 24302) /
        hourLength % 24).toNat ∈ ({9} : Finset ℕ) := by decide
    have weekday : (CalendarMonths.monthStart 24302 % 7).toNat ∈ Finset.Icc 0 6 := by decide
    apply ScheduleGaps.CronTrigger.Fires.mk (by decide) minute hour
    show CronSets.AdmitsDay _ _
    rw [date, CronSets.AdmitsDay, month, CalendarMonths.monthOf_monthStart, Int.sub_self]
    exact ⟨Finset.mem_singleton_self 1, admitted, weekday⟩

/-- The first of February 2026. -/
def openedAt : ℤ :=
  dayLength * ScheduleGaps.february

/-- Mondays at half past nine, which is kept. -/
theorem unchanged_of_kept_iff_weekly :
    (Kept numberScheduler ScheduleGaps.seoul openedAt (cronRequest "30 9 * * 1".toList) →
        Unchanged numberScheduler ScheduleGaps.seoul openedAt (cronRequest "30 9 * * 1".toList)) ∧
      (EvenlySpaced (cronRequest "30 9 * * 1".toList) →
        Unchanged numberScheduler ScheduleGaps.seoul openedAt (cronRequest "30 9 * * 1".toList) →
          Kept numberScheduler ScheduleGaps.seoul openedAt (cronRequest "30 9 * * 1".toList)) :=
  unchanged_of_kept_iff documented_numberScheduler
    ((normalize_cronRequest documented_numberScheduler (by decide) (by decide)).mpr
      ⟨_, triggerEq_of_reads weekly_reads, isChain_of_daily rfl rfl, rfl⟩)

/-- Once a year at nine o'clock: the form writes an expression that runs every month. -/
theorem yearly_not_unchanged :
    normalizeScheduleConfig numberScheduler openedAt (cronRequest "0 9 1 1 *".toList) =
        .ok (cronRequest "0 9 1 1 *".toList) ∧
      buildScheduleRequest ScheduleGaps.seoul (parseTriggerToForm ScheduleGaps.seoul openedAt
        (cronRequest "0 9 1 1 *".toList)) = some (cronRequest "00 09 1 * *".toList) ∧
      ¬ Unchanged numberScheduler ScheduleGaps.seoul openedAt (cronRequest "0 9 1 1 *".toList) := by
  have documented := documented_numberScheduler
  have yearly := @yearly_reads "0 9 1 1 *".toList ['1'] {1} (by decide)
    (means_number .month (by decide) (by decide))
  have parts : "0 9 1 1 *".toList.splitOn ' ' = [['0'], ['9'], ['1'], ['1'], ['*']] := by
    decide
  refine ⟨?_, reopened_day rfl rfl parts, ?_⟩
  · exact (normalize_cronRequest documented (by decide) (by decide)).mpr
      ⟨_, triggerEq_of_reads yearly, isChain_of_daily rfl rfl, rfl⟩
  · intro unchanged
    have kept := (unchanged_iff_day documented rfl rfl
      ⟨parts, by decide, yearly⟩).mp unchanged
    obtain ⟨trigger, triggerEq, same, _⟩ := kept.2
    have monthly := triggerEq_of_reads
      (@yearly_reads (expression ['0'] ['9'] ['1'] ['*'] ['*']) ['*'] _ (by decide)
        (means_star .month))
    obtain rfl := Except.ok.inj (triggerEq.symm.trans monthly)
    have march := (same (dayLength * CalendarMonths.monthStart 24302)).mp
      (yearly_fires_march.mpr (by decide))
    rw [runs_cronRequest documented (triggerEq_of_reads yearly), yearly_fires_march] at march
    exact absurd march (by decide)

end NaturalMold.ReopenedSchedules

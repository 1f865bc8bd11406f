import Mathlib.Algebra.Order.Ring.Rat
import Mathlib.Data.Finset.Prod
import NaturalMold.BillingPeriods
import NaturalMold.ConversationTables
import NaturalMold.CronExpressions
import NaturalMold.CyclicFirings
import NaturalMold.FallibleSteps
import NaturalMold.JsonValues

/-!
# The shortest gap of a cron schedule

A cron schedule is saved if no two of its next sixty-four firings are closer than the shortest
repeat.
-/

namespace NaturalMold.ScheduleGaps

open BillingPeriods (Zone dateOf dayLength)
open Conversations (Raised)
open CronExpressions (Text)
open CyclicFirings
open Fallible (bind_eq_ok)

/-- What `CronTrigger.from_crontab` makes of an expression: the minutes and hours of its fields,
the days that its day, month and weekday admit, and `get_next_fire_time(…, now)`.  Its times are
wall times of its zone, in microseconds. -/
structure CronTrigger where
  minutes : Finset ℕ
  hours : Finset ℕ
  days : ℤ → Prop
  getNextFireTime : ℤ → Option ℤ

def minuteLength : ℤ :=
  60000000

def hourLength : ℤ :=
  3600000000

/-- A firing is at a full minute that the fields admit. -/
structure CronTrigger.Fires (trigger : CronTrigger) (wall : ℤ) : Prop where
  fullMinute : wall % minuteLength = 0
  minute : (wall / minuteLength % 60).toNat ∈ trigger.minutes
  hour : (wall / hourLength % 24).toNat ∈ trigger.hours
  day : trigger.days (dateOf wall)

structure CronTrigger.Documented (trigger : CronTrigger) : Prop where
  minutes : trigger.minutes ⊆ Finset.range 60
  hours : trigger.hours ⊆ Finset.range 24
  finds : FindsNext trigger.Fires trigger.getNextFireTime

/-- The loop of `_shortest_cron_gap_minutes`, of times that are subtracted as wall times; infinity
is the top. -/
def shortestGap (elapsed : ℤ → ℤ → ℤ) (getNextFireTime : ℤ → Option ℤ) :
    ℕ → Option ℤ → Option ℤ → WithTop ℚ → WithTop ℚ
  | 0, _, _, shortest => shortest
  | _ + 1, _, none, shortest => shortest
  | fires + 1, previous, some current, shortest =>
      shortestGap elapsed getNextFireTime fires (some current) (getNextFireTime (current + 1))
        (match previous with
          | none => shortest
          | some previous => min shortest ((elapsed previous current : ℚ) / 60000000 : ℚ))

def shortestCronGapMinutes (trigger : CronTrigger) (wallNow : ℤ) : WithTop ℚ :=
  shortestGap (fun previous current => current - previous) trigger.getNextFireTime 64 none
    (trigger.getNextFireTime wallNow) ⊤

/-- `timezone or str(schedule_config.get("timezone") or DEFAULT_TIMEZONE)`. -/
def timezoneName (str : Json → String) (scheduleConfig : List (String × Json))
    (timezone : Option String) : String :=
  let stored := Json.getField "timezone" .null scheduleConfig
  let own := str (if stored.truthy then stored else .str "Asia/Seoul")
  match timezone with
  | none => own
  | some name => if name = "" then own else name

/-- `schedule_config.get("cron_expression") or schedule_config.get("expression")`. -/
def storedExpression (scheduleConfig : List (String × Json)) : Json :=
  let expression := Json.getField "cron_expression" .null scheduleConfig
  if expression.truthy then expression else Json.getField "expression" .null scheduleConfig

/-- `normalize_schedule_config` for a cron schedule. -/
def normalizeScheduleConfig (str : Json → String) (zoneInfo : String → Except Raised Zone)
    (fromCrontab : Text → Zone → Except Raised CronTrigger) (triggerMinIntervalMinutes : ℕ)
    (now : ℤ) (scheduleConfig : List (String × Json)) (timezone : Option String) :
    Except Raised (List (String × Json) × String) := do
  let tz := timezoneName str scheduleConfig timezone
  let zone ← zoneInfo tz
  match storedExpression scheduleConfig with
  | .str expr =>
      let expr := PythonText.strip expr.toList
      if expr = [] then throw (.valueError "cron_expression is required")
      let trigger ← fromCrontab expr zone
      if shortestCronGapMinutes trigger (zone.toLocal now) <
          ((triggerMinIntervalMinutes : ℚ) : WithTop ℚ) then
        throw (.valueError "schedule repeats more often than the minimum interval")
      return ([("cron_expression", .str (String.ofList expr))], tz)
  | _ => throw (.valueError "cron_expression is required")

variable {next : ℤ → Option ℤ}

def Apart (minutes : ℕ) (earlier later : ℤ) : Prop :=
  minutes * minuteLength ≤ later - earlier

theorem coe_le_gap_iff {minutes : ℕ} {gap : ℤ} :
    ((minutes : ℚ) : WithTop ℚ) ≤ (((gap : ℚ) / 60000000 : ℚ) : WithTop ℚ) ↔
      minutes * minuteLength ≤ gap := by
  rw [WithTop.coe_le_coe, le_div_iff₀ (by norm_num), minuteLength]
  exact_mod_cast Iff.rfl

theorem le_shortestGap_iff {elapsed : ℤ → ℤ → ℤ} {minutes count : ℕ} {previous : Option ℤ}
    {time : ℤ} {shortest : WithTop ℚ} :
    ((minutes : ℚ) : WithTop ℚ) ≤ shortestGap elapsed next count previous (next time) shortest ↔
      ((minutes : ℚ) : WithTop ℚ) ≤ shortest ∧
        (previous.toList ++ sample next count time).IsChain fun earlier later =>
          minutes * minuteLength ≤ elapsed earlier later := by
  induction count generalizing previous time shortest with
  | zero =>
      cases previous <;> simp [shortestGap, sample]
  | succ count ih =>
      rw [sample]
      cases nextEq : next time with
      | none => cases previous <;> simp [shortestGap]
      | some current =>
          cases previous with
          | none =>
              rw [shortestGap, ih]
              exact Iff.rfl
          | some previous =>
              rw [shortestGap, ih, le_min_iff, coe_le_gap_iff, and_assoc]
              apply and_congr_right
              intro _
              simp only [Option.toList_some, List.cons_append, List.nil_append,
                List.isChain_cons_cons]

theorem apart_of_isChain {minutes : ℕ} {times : List ℤ} (increasing : times.Pairwise (· < ·))
    (chain : times.IsChain (Apart minutes)) {first second : ℤ} (firstMember : first ∈ times)
    (secondMember : second ∈ times) (order : first < second) : Apart minutes first second := by
  induction times with
  | nil => exact absurd firstMember List.not_mem_nil
  | cons time times ih =>
      obtain ⟨least, restIncreasing⟩ := List.pairwise_cons.mp increasing
      have rest := ih restIncreasing chain.tail
      rcases List.mem_cons.mp firstMember with rfl | firstLater
      · rcases List.mem_cons.mp secondMember with rfl | secondLater
        · exact absurd order (lt_irrefl _)
        -- The neighbour of the first time is apart, and no later than the second one.
        · cases times with
          | nil => exact absurd secondLater List.not_mem_nil
          | cons neighbour times =>
              have near : Apart minutes first neighbour := (List.isChain_cons_cons.mp chain).1
              rcases List.mem_cons.mp secondLater with rfl | beyond
              · exact near
              · have := (List.pairwise_cons.mp restIncreasing).1 second beyond
                rw [Apart] at near ⊢
                omega
      · apply rest firstLater _
        rcases List.mem_cons.mp secondMember with rfl | secondLater
        · exact absurd (least first firstLater) (by omega)
        · exact secondLater

variable {trigger : CronTrigger}

def CronTrigger.hourResidues (trigger : CronTrigger) : Finset ℤ :=
  trigger.minutes.image fun minute : ℕ => (minute : ℤ) * minuteLength

def CronTrigger.dayResidues (trigger : CronTrigger) : Finset ℤ :=
  (trigger.hours ×ˢ trigger.minutes).image fun time =>
    time.1 * hourLength + time.2 * minuteLength

theorem card_hourResidues (documented : trigger.Documented) : trigger.hourResidues.card ≤ 60 := by
  have minutes := Finset.card_le_card documented.minutes
  rw [Finset.card_range] at minutes
  exact Finset.card_image_le.trans minutes

theorem card_dayResidues : trigger.dayResidues.card ≤ trigger.hours.card * trigger.minutes.card :=
  Finset.card_image_le.trans (Finset.card_product _ _).le

theorem cyclic_hours (documented : trigger.Documented) :
    Cyclic hourLength trigger.hourResidues
      (fun hour => (hour % 24).toNat ∈ trigger.hours ∧ trigger.days (hour / 24)) trigger.Fires := by
  intro wall
  have day : wall / hourLength / 24 = dateOf wall := by
    rw [dateOf, dayLength, hourLength]
    omega
  rw [CronTrigger.hourResidues, Finset.mem_image]
  dsimp only
  rw [day]
  constructor
  · intro fires
    have full := fires.fullMinute
    refine ⟨⟨_, fires.minute, ?_⟩, fires.hour, fires.day⟩
    rw [minuteLength] at full ⊢
    rw [hourLength]
    omega
  · rintro ⟨⟨minute, member, same⟩, hour, days⟩
    have small := Finset.mem_range.mp (documented.minutes member)
    rw [hourLength, minuteLength] at same
    have full : wall % minuteLength = 0 := by
      rw [minuteLength]
      omega
    have own : (wall / minuteLength % 60).toNat = minute := by
      rw [minuteLength]
      omega
    exact ⟨full, own ▸ member, hour, days⟩

theorem cyclic_days (documented : trigger.Documented) :
    Cyclic dayLength trigger.dayResidues trigger.days trigger.Fires := by
  intro wall
  rw [CronTrigger.dayResidues, Finset.mem_image]
  constructor
  · intro fires
    have full := fires.fullMinute
    refine ⟨⟨((wall / hourLength % 24).toNat, (wall / minuteLength % 60).toNat),
      Finset.mem_product.mpr ⟨fires.hour, fires.minute⟩, ?_⟩, fires.day⟩
    dsimp only
    rw [minuteLength] at full
    rw [hourLength, minuteLength, dayLength]
    omega
  · rintro ⟨⟨⟨hour, minute⟩, member, same⟩, days⟩
    obtain ⟨hourMember, minuteMember⟩ := Finset.mem_product.mp member
    have hourSmall := Finset.mem_range.mp (documented.hours hourMember)
    have minuteSmall := Finset.mem_range.mp (documented.minutes minuteMember)
    simp only [hourLength, minuteLength, dayLength] at same hourSmall minuteSmall
    have full : wall % minuteLength = 0 := by
      rw [minuteLength]
      omega
    have ownMinute : (wall / minuteLength % 60).toNat = minute := by
      rw [minuteLength]
      omega
    have ownHour : (wall / hourLength % 24).toNat = hour := by
      rw [hourLength]
      omega
    exact ⟨full, ownMinute ▸ minuteMember, ownHour ▸ hourMember, days⟩

variable {str : Json → String} {zoneInfo : String → Except Raised Zone}
  {fromCrontab : Text → Zone → Except Raised CronTrigger} {triggerMinIntervalMinutes : ℕ}
  {now : ℤ} {scheduleConfig : List (String × Json)} {timezone : Option String}
  {expr tz : String} {zone : Zone}

def CronTrigger.FiresAt (trigger : CronTrigger) (zone : Zone) (instant : ℤ) : Prop :=
  trigger.Fires (zone.toLocal instant)

def NeverCloser (trigger : CronTrigger) (zone : Zone) (now : ℤ) (minutes : ℕ) : Prop :=
  ∀ earlier later, now ≤ earlier → Consecutive (trigger.FiresAt zone) earlier later →
    Apart minutes earlier later

/-- What the next firings of a trigger tell about its consecutive firings at any time. -/
structure Spaced (trigger : CronTrigger) (zone : Zone) (now : ℤ) (minutes : ℕ) : Prop where
  sampled : ∀ earlier later,
    zone.toLocal earlier ∈ sample trigger.getNextFireTime 64 (zone.toLocal now) →
    zone.toLocal later ∈ sample trigger.getNextFireTime 64 (zone.toLocal now) →
    earlier < later → Apart minutes earlier later
  sameHour : ∀ earlier later, now ≤ earlier →
    Consecutive (trigger.FiresAt zone) earlier later →
    zone.toLocal earlier / hourLength = zone.toLocal later / hourLength →
    Apart minutes earlier later
  sameDay : trigger.hours.card * trigger.minutes.card < 64 → ∀ earlier later, now ≤ earlier →
    Consecutive (trigger.FiresAt zone) earlier later →
    dateOf (zone.toLocal earlier) = dateOf (zone.toLocal later) → Apart minutes earlier later
  everyDay : trigger.hours.card * trigger.minutes.card < 64 → ∀ earlier later, now ≤ earlier →
    Consecutive (trigger.FiresAt zone) earlier later →
    (∀ day, dateOf (zone.toLocal now) ≤ day → day ≤ dateOf (zone.toLocal later) →
      trigger.days day) → Apart minutes earlier later

theorem isChain_of_accepted
    (accepted : normalizeScheduleConfig str zoneInfo fromCrontab triggerMinIntervalMinutes now
      scheduleConfig timezone = .ok ([("cron_expression", .str expr)], tz))
    (zoneEq : zoneInfo tz = .ok zone) (triggerEq : fromCrontab expr.toList zone = .ok trigger) :
    (sample trigger.getNextFireTime 64 (zone.toLocal now)).IsChain
      (Apart triggerMinIntervalMinutes) := by
  unfold normalizeScheduleConfig at accepted
  obtain ⟨ownZone, ownZoneEq, accepted⟩ := bind_eq_ok.mp accepted
  cases stored : storedExpression scheduleConfig with
  | str text =>
      rw [stored] at accepted
      dsimp only at accepted
      split at accepted
      · exact absurd accepted nofun
      · obtain ⟨ownTrigger, ownTriggerEq, accepted⟩ := bind_eq_ok.mp accepted
        split at accepted
        · exact absurd accepted nofun
        · next slow =>
            have same := Except.ok.inj accepted
            simp only [Prod.mk.injEq, List.cons.injEq, and_true, true_and, Json.str.injEq]
              at same
            obtain ⟨rfl, rfl⟩ := same
            obtain rfl := Except.ok.inj (ownZoneEq.symm.trans zoneEq)
            rw [String.toList_ofList] at triggerEq
            obtain rfl := Except.ok.inj (ownTriggerEq.symm.trans triggerEq)
            exact (le_shortestGap_iff.mp (not_lt.mp slow)).2
  | _ =>
      rw [stored] at accepted
      exact absurd accepted nofun

variable {offset : ℤ} {within : -dayLength < offset ∧ offset < dayLength}

theorem consecutive_wall {earlier later : ℤ}
    (neighbours : Consecutive (trigger.FiresAt (.fixed offset within)) earlier later) :
    Consecutive trigger.Fires (earlier + offset) (later + offset) where
  first := neighbours.first
  second := neighbours.second
  before := by
    have := neighbours.before
    omega
  between := by
    intro wall fires inside
    apply neighbours.between (wall - offset) _ (by omega)
    show trigger.Fires (wall - offset + offset)
    rwa [Int.sub_add_cancel]

theorem apart_of_sampled {minutes : ℕ} {earlier later time : ℤ} (documented : trigger.Documented)
    (chain : (sample trigger.getNextFireTime 64 time).IsChain (Apart minutes))
    (before : earlier < later)
    (sampled : ∃ first ∈ sample trigger.getNextFireTime 64 time,
      ∃ second ∈ sample trigger.getNextFireTime 64 time,
        second - first = later + offset - (earlier + offset)) : Apart minutes earlier later := by
  obtain ⟨first, firstMember, second, secondMember, same⟩ := sampled
  have increasing := pairwise_sample documented.finds 64 time
  have apart := apart_of_isChain increasing chain firstMember secondMember (by omega)
  rw [Apart] at apart ⊢
  omega

/-- In a zone with one offset, the next firings of an accepted schedule are far enough apart,
and so are all consecutive firings that repeat what these show. -/
theorem spaced_of_accepted (documented : trigger.Documented)
    (accepted : normalizeScheduleConfig str zoneInfo fromCrontab triggerMinIntervalMinutes now
      scheduleConfig timezone = .ok ([("cron_expression", .str expr)], tz))
    (zoneEq : zoneInfo tz = .ok (.fixed offset within))
    (triggerEq : fromCrontab expr.toList (.fixed offset within) = .ok trigger) :
    Spaced trigger (.fixed offset within) now triggerMinIntervalMinutes := by
  have chain := isChain_of_accepted accepted zoneEq triggerEq
  have hourPositive : 0 < hourLength := by decide
  have dayPositive : 0 < dayLength := by decide
  constructor
  · intro earlier later firstMember secondMember before
    exact apart_of_sampled documented chain before ⟨_, firstMember, _, secondMember, rfl⟩
  · intro earlier later after neighbours sameHour
    have few := card_hourResidues documented
    exact apart_of_sampled documented chain neighbours.before
      (sampled_of_sameBlock documented.finds (cyclic_hours documented) hourPositive
        (consecutive_wall neighbours) (Int.add_le_add_right after offset) sameHour (by omega))
  · intro fewer earlier later after neighbours sameDay
    have few := @card_dayResidues trigger
    exact apart_of_sampled documented chain neighbours.before
      (sampled_of_sameBlock documented.finds (cyclic_days documented) dayPositive
        (consecutive_wall neighbours) (Int.add_le_add_right after offset) sameDay (by omega))
  · intro fewer earlier later after neighbours everyDay
    have few := @card_dayResidues trigger
    exact apart_of_sampled documented chain neighbours.before
      (sampled_of_unbroken documented.finds (cyclic_days documented) dayPositive
        (consecutive_wall neighbours) (Int.add_le_add_right after offset) everyDay (by omega))

theorem accepted_of_apart {text : String} (finds : FindsNext trigger.Fires trigger.getNextFireTime)
    (stored : storedExpression scheduleConfig = .str text)
    (stripped : PythonText.strip text.toList = expr.toList) (present : expr.toList ≠ [])
    (zoneEq : zoneInfo (timezoneName str scheduleConfig timezone) = .ok zone)
    (triggerEq : fromCrontab expr.toList zone = .ok trigger)
    (apart : ∀ first ∈ sample trigger.getNextFireTime 64 (zone.toLocal now),
      ∀ second ∈ sample trigger.getNextFireTime 64 (zone.toLocal now), first < second →
        Apart triggerMinIntervalMinutes first second) :
    normalizeScheduleConfig str zoneInfo fromCrontab triggerMinIntervalMinutes now scheduleConfig
      timezone =
        .ok ([("cron_expression", .str expr)], timezoneName str scheduleConfig timezone) := by
  have increasing := pairwise_sample finds 64 (zone.toLocal now)
  have chain : (sample trigger.getNextFireTime 64 (zone.toLocal now)).IsChain
      (Apart triggerMinIntervalMinutes) :=
    (increasing.imp_of_mem fun firstMember secondMember order =>
      apart _ firstMember _ secondMember order).isChain
  have slow : ¬ shortestCronGapMinutes trigger (zone.toLocal now) <
      ((triggerMinIntervalMinutes : ℚ) : WithTop ℚ) :=
    not_lt.mpr (le_shortestGap_iff.mpr ⟨le_top, chain⟩)
  unfold normalizeScheduleConfig
  dsimp only
  rw [zoneEq, stored]
  simp only [bind, Except.bind, stripped, if_neg present, triggerEq, if_neg slow, pure, Except.pure,
    String.ofList_toList]

noncomputable def fieldTrigger (minutes hours : Finset ℕ) (days : ℤ → Prop) : CronTrigger where
  minutes := minutes
  hours := hours
  days := days
  getNextFireTime := earliest (CronTrigger.mk minutes hours days fun _ => none).Fires

theorem fieldTrigger_documented {minutes hours : Finset ℕ} {days : ℤ → Prop}
    (minutesKnown : minutes ⊆ Finset.range 60) (hoursKnown : hours ⊆ Finset.range 24) :
    (fieldTrigger minutes hours days).Documented where
  minutes := minutesKnown
  hours := hoursKnown
  finds := by
    have same : (fieldTrigger minutes hours days).Fires =
        (CronTrigger.mk minutes hours days fun _ => none).Fires := by
      funext wall
      apply propext
      constructor
      · rintro ⟨full, minute, hour, day⟩
        exact ⟨full, minute, hour, day⟩
      · rintro ⟨full, minute, hour, day⟩
        exact ⟨full, minute, hour, day⟩
    rw [same]
    exact findsNext_earliest _

/-- Nine o'clock every day. -/
noncomputable def everyMorning : CronTrigger :=
  fieldTrigger {0} {9} fun _ => True

/-- The first and the fiftieth minute of the first and the last hour of every other day: the days
of a month with an odd number. -/
noncomputable def alternateDays : CronTrigger :=
  fieldTrigger {0, 50} {0, 23} fun day =>
    (day - CalendarMonths.monthStart (CalendarMonths.monthOf day)) % 2 = 0

/-- Eight minutes of every other hour, and of the hour after the last one. -/
noncomputable def alternateHours : CronTrigger :=
  fieldTrigger {0, 7, 14, 21, 28, 35, 42, 59} {0, 2, 4, 6, 8, 10, 12, 14, 16, 18, 20, 21}
    fun _ => True

/-- The triggers of three expressions. -/
noncomputable def crontabs (text : Text) (_zone : Zone) : Except Raised CronTrigger :=
  if text = "0 9 * * *".toList then .ok everyMorning
  else if text = "0,50 0,23 */2 * *".toList then .ok alternateDays
  else if text = "0,7,14,21,28,35,42,59 0-20/2,21 * * *".toList then .ok alternateHours
  else .error (.valueError "Wrong number of fields")

def seoul : Zone :=
  .fixed (9 * hourLength) (by decide)

/-- Saving an expression with a zone of Seoul. -/
noncomputable def savedAt (wall : ℤ) (minutes : ℕ) (expr : String) :
    Except Raised (List (String × Json) × String) :=
  normalizeScheduleConfig (fun value => value.str?.getD "") (fun _ => .ok seoul) crontabs minutes
    (wall - 9 * hourLength) [("cron_expression", .str expr)] none

theorem savedAt_ok {wall : ℤ} {minutes : ℕ} (documented : trigger.Documented)
    (triggerEq : crontabs expr.toList seoul = .ok trigger)
    (stripped : PythonText.strip expr.toList = expr.toList) (present : expr ≠ "")
    (apart : ∀ first ∈ sample trigger.getNextFireTime 64 wall,
      ∀ second ∈ sample trigger.getNextFireTime 64 wall, first < second →
        Apart minutes first second) :
    savedAt wall minutes expr = .ok ([("cron_expression", .str expr)], "Asia/Seoul") := by
  have stored : storedExpression [("cron_expression", .str expr)] = .str expr := by
    simp [storedExpression, Json.getField, Json.truthy, present]
  have back : seoul.toLocal (wall - 9 * hourLength) = wall := Int.sub_add_cancel _ _
  apply accepted_of_apart documented.finds stored stripped (by simpa using present) rfl triggerEq
  rwa [back]

theorem everyMorning_documented : everyMorning.Documented :=
  fieldTrigger_documented (by decide) (by decide)

/-- Two mornings are a day apart. -/
theorem savedAt_everyMorning :
    savedAt 0 15 "0 9 * * *" = .ok ([("cron_expression", .str "0 9 * * *")], "Asia/Seoul") := by
  apply savedAt_ok everyMorning_documented (if_pos rfl) (by decide) (by decide)
  intro first firstMember second secondMember order
  have nine : ∀ {wall}, wall ∈ sample everyMorning.getNextFireTime 64 0 →
      wall % dayLength = 9 * hourLength := by
    intro wall member
    have fires := (mem_sample everyMorning_documented.finds member).1
    obtain ⟨residue, _⟩ := (cyclic_days everyMorning_documented wall).mp fires
    have only : everyMorning.dayResidues = {9 * hourLength} := by decide
    rwa [only, Finset.mem_singleton] at residue
  have firstNine := nine firstMember
  have secondNine := nine secondMember
  rw [dayLength, hourLength] at firstNine secondNine
  rw [Apart, minuteLength]
  omega

/-- An accepted schedule of every morning. -/
theorem spaced_everyMorning : Spaced everyMorning seoul (0 - 9 * hourLength) 15 :=
  spaced_of_accepted everyMorning_documented savedAt_everyMorning rfl (if_pos rfl)

def february : ℤ :=
  CalendarMonths.monthStart 24301

theorem alternateDays_documented : alternateDays.Documented :=
  fieldTrigger_documented (by decide) (by decide)

/-- From the first of February to the end of March every other day is admitted. -/
theorem alternateDays_iff {day : ℤ} (from_first : february ≤ day) (upTo : day < february + 59) :
    alternateDays.days day ↔ (day - february) % 2 = 0 := by
  have start : CalendarMonths.monthStart 24301 = 739647 := by decide
  have nextStart : CalendarMonths.monthStart 24302 = 739675 := by decide
  have lastStart : CalendarMonths.monthStart 24303 = 739706 := by decide
  rw [february, start] at from_first upTo ⊢
  show (day - CalendarMonths.monthStart (CalendarMonths.monthOf day)) % 2 = 0 ↔ _
  by_cases inFebruary : day < 739675
  · have month : CalendarMonths.monthOf day = 24301 :=
      CalendarMonths.monthOf_eq (by omega) (by rw [show (24301 : ℤ) + 1 = 24302 from rfl]; omega)
    rw [month, start]
  · have month : CalendarMonths.monthOf day = 24302 :=
      CalendarMonths.monthOf_eq (by omega) (by rw [show (24302 : ℤ) + 1 = 24303 from rfl]; omega)
    rw [month, nextStart]
    omega

theorem alternateDays_residues : alternateDays.dayResidues =
    {0, 50 * minuteLength, 23 * hourLength, 23 * hourLength + 50 * minuteLength} := by
  decide

noncomputable def februaryFirings : Finset ℤ :=
  (Finset.range 16 ×ˢ alternateDays.dayResidues).image fun firing : ℕ × ℤ =>
    dayLength * (february + 2 + 2 * firing.1) + firing.2

/-- The expression is saved on the second of February: the sample ends before the last of March,
and neighbours in it are fifty minutes apart at least. -/
theorem savedAt_alternateDays : savedAt (dayLength * (february + 1)) 15 "0,50 0,23 */2 * *" =
    .ok ([("cron_expression", .str "0,50 0,23 */2 * *")], "Asia/Seoul") := by
  have documented := alternateDays_documented
  apply savedAt_ok documented ((if_neg (by decide)).trans (if_pos rfl)) (by decide)
    (by decide)
  have residueBounds : ∀ residue ∈ alternateDays.dayResidues,
      0 ≤ residue ∧ residue < dayLength := by
    rw [alternateDays_residues]
    decide
  have early : ∀ firing ∈ februaryFirings, alternateDays.Fires firing ∧
      dayLength * (february + 1) ≤ firing ∧ firing < dayLength * (february + 58) := by
    intro firing member
    obtain ⟨⟨steps, residue⟩, both, rfl⟩ := Finset.mem_image.mp member
    obtain ⟨few, residueMember⟩ := Finset.mem_product.mp both
    have stepsFew := Finset.mem_range.mp few
    obtain ⟨nonneg, small⟩ := residueBounds residue residueMember
    dsimp only at stepsFew nonneg small ⊢
    obtain ⟨div, mod⟩ := @div_emod_of_block dayLength (by decide)
      (february + 2 + 2 * steps) residue nonneg small
    rw [cyclic_days documented, div, mod, alternateDays_iff (by omega) (by omega)]
    rw [dayLength] at small ⊢
    exact ⟨⟨residueMember, by omega⟩, by omega, by omega⟩
  have cards : 64 ≤ februaryFirings.card := by
    decide
  have known : ∀ {wall},
      wall ∈ sample alternateDays.getNextFireTime 64 (dayLength * (february + 1)) →
      wall % dayLength ∈ alternateDays.dayResidues ∧ (wall / dayLength - february) % 2 = 0 := by
    intro wall member
    have before := lt_of_mem_sample documented.finds februaryFirings early cards member
    obtain ⟨fires, after⟩ := mem_sample documented.finds member
    obtain ⟨residue, admitted⟩ := (cyclic_days documented wall).mp fires
    refine ⟨residue, (alternateDays_iff ?_ ?_).mp admitted⟩ <;>
    · rw [dayLength] at before after ⊢
      omega
  intro first firstMember second secondMember order
  obtain ⟨firstResidue, firstDay⟩ := known firstMember
  obtain ⟨secondResidue, secondDay⟩ := known secondMember
  rw [alternateDays_residues] at firstResidue secondResidue
  simp only [Finset.mem_insert, Finset.mem_singleton, dayLength, hourLength, minuteLength]
    at firstResidue secondResidue firstDay secondDay
  rw [Apart, minuteLength]
  omega

/-- On the last of March the schedule runs ten minutes before it runs on the first of April. -/
theorem alternateDays_closer :
    ¬ NeverCloser alternateDays seoul (dayLength * (february + 1) - 9 * hourLength) 15 := by
  intro never
  have documented := alternateDays_documented
  have wallOf : ∀ instant, seoul.toLocal instant = instant + 9 * hourLength := fun _ => rfl
  have lastDay : alternateDays.days (february + 58) :=
    (alternateDays_iff (by omega) (by omega)).mpr (by omega)
  have firstDay : alternateDays.days (february + 59) := by
    have april : february + 59 = CalendarMonths.monthStart 24303 := by decide
    rw [april]
    show (CalendarMonths.monthStart 24303 -
      CalendarMonths.monthStart (CalendarMonths.monthOf (CalendarMonths.monthStart 24303))) % 2 = 0
    rw [CalendarMonths.monthOf_monthStart, Int.sub_self]
    rfl
  have close := never
    (dayLength * (february + 58) + (23 * hourLength + 50 * minuteLength) - 9 * hourLength)
    (dayLength * (february + 59) - 9 * hourLength)
    (by simp only [dayLength, hourLength, minuteLength]; omega) ?_
  · rw [Apart] at close
    simp only [dayLength, hourLength, minuteLength] at close
    omega
  · have fires : ∀ wall, alternateDays.Fires wall ↔ _ := cyclic_days documented
    constructor
    · rw [CronTrigger.FiresAt, wallOf, Int.sub_add_cancel, fires, alternateDays_residues,
        (div_emod_of_block (by decide) (by decide) (by decide)).1,
        (div_emod_of_block (by decide) (by decide) (by decide)).2]
      exact ⟨by decide, lastDay⟩
    · rw [CronTrigger.FiresAt, wallOf, Int.sub_add_cancel, fires, alternateDays_residues]
      rw [Int.mul_ediv_cancel_left _ (by decide), Int.mul_emod_right]
      exact ⟨by decide, firstDay⟩
    · simp only [dayLength, hourLength, minuteLength]
      omega
    · intro instant between inside
      rw [CronTrigger.FiresAt, wallOf, fires, alternateDays_residues] at between
      have residue := between.1
      simp only [Finset.mem_insert, Finset.mem_singleton, dayLength, hourLength, minuteLength]
        at residue inside
      omega

theorem alternateHours_documented : alternateHours.Documented :=
  fieldTrigger_documented (by decide) (by decide)

theorem alternateHours_fires (wall : ℤ) :
    alternateHours.Fires wall ↔ wall % dayLength ∈ alternateHours.dayResidues :=
  (cyclic_days alternateHours_documented wall).trans (and_iff_left trivial)

/-- The residues before eight in the evening are seven minutes apart at least. -/
theorem alternateHours_residues :
    (∀ first ∈ alternateHours.dayResidues, ∀ second ∈ alternateHours.dayResidues,
      first < second → first < 20 * hourLength → 7 * minuteLength ≤ second - first) ∧
      64 ≤ (alternateHours.dayResidues.filter (· < 16 * hourLength)).card := by
  decide +kernel

/-- The expression is saved at midnight, and the sample ends before sixteen o'clock. -/
theorem savedAt_alternateHours : savedAt 0 5 "0,7,14,21,28,35,42,59 0-20/2,21 * * *" =
    .ok ([("cron_expression", .str "0,7,14,21,28,35,42,59 0-20/2,21 * * *")], "Asia/Seoul") := by
  have finds := alternateHours_documented.finds
  apply savedAt_ok alternateHours_documented
    ((if_neg (by decide)).trans ((if_neg (by decide)).trans (if_pos rfl))) (by decide)
    (by decide)
  have nonneg : ∀ residue ∈ alternateHours.dayResidues, 0 ≤ residue ∧ residue < dayLength := by
    decide +kernel
  have early : ∀ firing ∈ alternateHours.dayResidues.filter (· < 16 * hourLength),
      alternateHours.Fires firing ∧ 0 ≤ firing ∧ firing < 16 * hourLength := by
    intro firing member
    obtain ⟨residue, before⟩ := Finset.mem_filter.mp member
    obtain ⟨positive, small⟩ := nonneg firing residue
    rw [alternateHours_fires, Int.emod_eq_of_lt positive small]
    exact ⟨residue, positive, before⟩
  have known : ∀ {wall}, wall ∈ sample alternateHours.getNextFireTime 64 0 →
      wall ∈ alternateHours.dayResidues ∧ wall < 16 * hourLength := by
    intro wall member
    have before := lt_of_mem_sample finds _ early alternateHours_residues.2 member
    obtain ⟨fires, after⟩ := mem_sample finds member
    rw [alternateHours_fires, Int.emod_eq_of_lt after] at fires
    · exact ⟨fires, before⟩
    · rw [hourLength] at before
      rw [dayLength]
      omega
  intro first firstMember second secondMember order
  obtain ⟨firstResidue, firstBefore⟩ := known firstMember
  obtain ⟨secondResidue, _⟩ := known secondMember
  rw [hourLength] at firstBefore
  have far := alternateHours_residues.1 first firstResidue second secondResidue order
    (by rw [hourLength]; omega)
  rw [minuteLength] at far
  rw [Apart, minuteLength]
  omega

/-- In the evening the schedule runs two times within one minute. -/
theorem alternateHours_closer :
    ¬ NeverCloser alternateHours seoul (0 - 9 * hourLength) 5 := by
  intro never
  have wallOf : ∀ instant, seoul.toLocal instant = instant + 9 * hourLength := fun _ => rfl
  have noneBetween : ∀ residue ∈ alternateHours.dayResidues,
      ¬ (20 * hourLength + 59 * minuteLength < residue ∧ residue < 21 * hourLength) := by
    decide +kernel
  have close := never (20 * hourLength + 59 * minuteLength - 9 * hourLength)
    (21 * hourLength - 9 * hourLength) (by decide) ?_
  · exact absurd close (by unfold Apart; decide)
  · constructor
    · rw [CronTrigger.FiresAt, wallOf, Int.sub_add_cancel, alternateHours_fires]
      decide +kernel
    · rw [CronTrigger.FiresAt, wallOf, Int.sub_add_cancel, alternateHours_fires]
      decide +kernel
    · decide
    · intro instant between inside
      rw [CronTrigger.FiresAt, wallOf, alternateHours_fires, Int.emod_eq_of_lt] at between
      · apply noneBetween _ between
        omega
      · simp only [hourLength, minuteLength] at inside ⊢
        omega
      · simp only [hourLength, minuteLength, dayLength] at inside ⊢
        omega

/-- Accepted schedules that run more often later: at the end of a month, and on an evening. -/
theorem accepted_not_neverCloser :
    (savedAt (dayLength * (february + 1)) 15 "0,50 0,23 */2 * *" =
        .ok ([("cron_expression", .str "0,50 0,23 */2 * *")], "Asia/Seoul") ∧
      crontabs "0,50 0,23 */2 * *".toList seoul = .ok alternateDays ∧
      alternateDays.Documented ∧
      ¬ NeverCloser alternateDays seoul (dayLength * (february + 1) - 9 * hourLength) 15) ∧
    savedAt 0 5 "0,7,14,21,28,35,42,59 0-20/2,21 * * *" =
        .ok ([("cron_expression", .str "0,7,14,21,28,35,42,59 0-20/2,21 * * *")], "Asia/Seoul") ∧
      crontabs "0,7,14,21,28,35,42,59 0-20/2,21 * * *".toList seoul = .ok alternateHours ∧
      alternateHours.Documented ∧ ¬ NeverCloser alternateHours seoul (0 - 9 * hourLength) 5 :=
  ⟨⟨savedAt_alternateDays, (if_neg (by decide)).trans (if_pos rfl), alternateDays_documented,
      alternateDays_closer⟩,
    savedAt_alternateHours, (if_neg (by decide)).trans ((if_neg (by decide)).trans (if_pos rfl)),
    alternateHours_documented, alternateHours_closer⟩

end NaturalMold.ScheduleGaps

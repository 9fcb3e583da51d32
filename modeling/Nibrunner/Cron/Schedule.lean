import Mathlib.Data.List.Destutter
import Mathlib.Data.List.Sort
import Nibrunner.ForStd.Fallible
import Nibrunner.ForStd.FirstOf
import Nibrunner.ForStd.TextLines
import Nibrunner.Protocol.Cron

/-!
# Cron schedules

A schedule is five fields or an alias for them. Its occurrences are local times of the host's zone.
A local time that occurs twice counts once, at its first occurrence, and one that a gap leaves out
counts where the gap moves it to.

`nextAfter` goes through the local days from the reading's on, and returns the first occurrence of
the first day that has one after the reading. A gap that spans midnight moves an occurrence into the
next local day, where `nextAfter` no longer looks for it: `nextAfter_first_iff` says **exactly when
it returns the first occurrence after the reading**.

The time zone and the calendar's bounds are the chrono library's. A `TimeZone` is what the code asks
of a zone; instants are nanoseconds and local times seconds since 1970.
-/

namespace Nibrunner.Cron

open Except TextLines

/-! ### Dates and zones -/

abbrev DateTime := ℤ

/-- A day, counted from 1970-01-01. -/
abbrev NaiveDate := ℤ

/-- A second of local time, counted from 1970-01-01. -/
abbrev NaiveDateTime := ℤ

def secondsOfDay : ℤ := 86400

def nanosOfSecond : ℤ := 1000000000

namespace NaiveDate

/-- The last day of the calendar, 262142-12-31. -/
def last : NaiveDate := 95026236

def succ? (date : NaiveDate) : Option NaiveDate := if date < last then some (date + 1) else none

def andHms? (date : NaiveDate) (hour minute : ℕ) : Option NaiveDateTime :=
  if hour < 24 ∧ minute < 60 then some (date * secondsOfDay + hour * 3600 + minute * 60) else none

/-- Days from Sunday. -/
def weekday (date : NaiveDate) : ℕ := ((date + 4) % 7).toNat

/-- The day of the year, from the first of March on, of the year that starts there. -/
def dayFromMarch (date : NaiveDate) : ℕ :=
  let era := ((date + 719468) % 146097).toNat
  let year := (era - era / 1460 + era / 36524 - era / 146096) / 365
  era - (365 * year + year / 4 - year / 100)

def monthFromMarch (date : NaiveDate) : ℕ := (5 * date.dayFromMarch + 2) / 153

def day (date : NaiveDate) : ℕ := date.dayFromMarch - (153 * date.monthFromMarch + 2) / 5 + 1

def month (date : NaiveDate) : ℕ :=
  if date.monthFromMarch < 10 then date.monthFromMarch + 3 else date.monthFromMarch - 9

end NaiveDate

/-- A local time moved by a number of seconds, within the calendar from -262143-01-01 on. -/
def NaiveDateTime.add? (time : NaiveDateTime) (seconds : ℤ) : Option NaiveDateTime :=
  if -96465292 * secondsOfDay ≤ time + seconds ∧
      time + seconds < (NaiveDate.last + 1) * secondsOfDay then
    some (time + seconds)
  else none

/-- An instant as a zone shows it: with its offset, in seconds. -/
structure ZonedDateTime where
  utc : DateTime
  offset : ℤ

/-- What a local time is in a zone. -/
inductive LocalResult where
  | single (value : ZonedDateTime)
  | ambiguous (first second : ZonedDateTime)
  | none

def LocalResult.earliest : LocalResult → Option ZonedDateTime
  | single value => some value
  | ambiguous first _ => some first
  | none => Option.none

structure TimeZone where
  /-- The offset in force at an instant, in seconds. -/
  offsetAt : DateTime → ℤ
  fromLocal : NaiveDateTime → LocalResult

/-- The local day of an instant. -/
def TimeZone.dateOf (zone : TimeZone) (t : DateTime) : NaiveDate :=
  (t + zone.offsetAt t * nanosOfSecond) / (secondsOfDay * nanosOfSecond)

/-! ### Reading a schedule -/

inductive InvalidCronSchedule where
  | expression
  | noOccurrence
deriving DecidableEq

def InvalidCronSchedule.message : InvalidCronSchedule → String
  | expression => "the cron schedule must be a valid five-field expression or supported alias"
  | noOccurrence => "the cron schedule has no occurrence within the next eight years"

def monthNames : List String :=
  ["JANUARY", "FEBRUARY", "MARCH", "APRIL", "MAY", "JUNE", "JULY", "AUGUST", "SEPTEMBER",
    "OCTOBER", "NOVEMBER", "DECEMBER"]

def weekdayNames : List String :=
  ["SUNDAY", "MONDAY", "TUESDAY", "WEDNESDAY", "THURSDAY", "FRIDAY", "SATURDAY"]

structure Field where
  values : List ℕ
  wildcard : Bool
deriving DecidableEq

/-- An 8-bit number with a sign, in decimal. -/
def parseI8 (text : List Char) : Option ℤ :=
  if text.head? = some '-' then
    if text.tail.head? = some '+' then none
    else (parseDecimal? 129 text.tail).map fun n => -(n : ℤ)
  else (parseDecimal? 128 text).map fun n => (n : ℤ)

def eqIgnoreAsciiCase (a b : List Char) : Bool := a.map Char.toLower = b.map Char.toLower

namespace Field

/-- A number of a field, or its name. A negative number is far out of range as an unsigned one. -/
def number (minimum maximum : ℕ) (names : List String) (value : List Char) : Option ℕ :=
  let number :=
    match names.findIdx? fun name =>
        eqIgnoreAsciiCase value name.toList || eqIgnoreAsciiCase value (name.toList.take 3) with
    | some index => some (index + minimum)
    | none => (parseI8 value).map fun n : ℤ => (n % 2 ^ 32).toNat
  number.filter fun n => minimum ≤ n && n ≤ maximum

/-- The first and the last number of a range; with a step, a single number is where one starts. -/
def range (number : List Char → Option ℕ) (minimum maximum : ℕ) (stepped : Bool)
    (range : List Char) : Option (ℕ × ℕ) :=
  let from? := (number range).map fun start => (start, if stepped then maximum else start)
  if range = "*".toList then some (minimum, maximum)
  else if range.head? = some '-' && !range.tail.contains '-' then from?
  else
    match splitOnce '-' range with
    | some (start, stop) => do
      let start ← number start
      let stop ← number stop
      return (start, stop)
    | none => from?

/-- The numbers one part of a field names. -/
def part (minimum maximum : ℕ) (names : List String) (part : List Char) : Option (List ℕ) := do
  let (text, step) ←
    match splitOnce '/' part with
    | some (text, step) => (parseI8 step).map fun step => (text, step)
    | none => some (part, 1)
  if step ≤ 0 then none
  else
    let (start, stop) ←
      range (number minimum maximum names) minimum maximum (splitOnce '/' part).isSome text
    if stop < start then none
    else some (List.range' start ((stop - start) / step.toNat + 1) step.toNat)

/-- Sorted, without repetitions. -/
def normalize (values : List ℕ) : List ℕ := (values.insertionSort (· ≤ ·)).destutter (· ≠ ·)

def parse (text : List Char) (minimum maximum : ℕ) (names : List String) :
    Except InvalidCronSchedule Field := do
  let values ← (text.splitOn ',').mapM fun p =>
    ofOption .expression (part minimum maximum names p)
  return { values := normalize values.flatten, wildcard := text = "*".toList }

def contains (field : Field) (value : ℕ) : Bool := field.values.contains value

end Field

structure ParsedSchedule where
  minute : Field
  hour : Field
  day : Field
  month : Field
  weekday : Field
deriving DecidableEq

namespace ParsedSchedule

/-- The five fields an alias stands for. -/
def expand (expression : String) : String :=
  match expression with
  | "@yearly" | "@annually" => "0 0 1 1 *"
  | "@monthly" => "0 0 1 * *"
  | "@weekly" => "0 0 * * 0"
  | "@daily" | "@midnight" => "0 0 * * *"
  | "@hourly" => "0 * * * *"
  | expression => expression

def parse (expression : String) : Except InvalidCronSchedule ParsedSchedule := do
  refuse (expression.toList.any fun c => isWhitespace c && !isBlank c) .expression
  let normalized := (trim isBlank expression.toList).map Char.toLower
  match words (expand (String.ofList normalized)).toList with
  | [minute, hour, day, month, weekday] =>
    let weekday ← Field.parse weekday 0 7 weekdayNames
    -- Sunday is 0 and 7.
    let values := Field.normalize (weekday.values.map fun value => if value = 7 then 0 else value)
    let minute ← Field.parse minute 0 59 []
    let hour ← Field.parse hour 0 23 []
    let day ← Field.parse day 1 31 []
    let month ← Field.parse month 1 12 monthNames
    return { minute, hour, day, month, weekday := { weekday with values := values } }
  | _ => .error .expression

end ParsedSchedule

/-! ### The next occurrence -/

def searchDays : ℕ := 366 * 8

def maxOffsetGapMinutes : ℕ := 24 * 60

/-- The nearest local times before and after one that a gap leaves out, looked for minute by
minute; the time is moved by the difference of their offsets. -/
def acrossGap (zone : TimeZone) (time : NaiveDateTime) :
    ℕ → ℤ → Option ZonedDateTime → Option ZonedDateTime → Option DateTime
  | 0, _, _, _ => none
  | rounds + 1, minutes, before, after => do
    let before ←
      if before.isNone then
        (time.add? (-(minutes * 60))).map fun t => (zone.fromLocal t).earliest
      else some before
    let after ←
      if after.isNone then (time.add? (minutes * 60)).map fun t => (zone.fromLocal t).earliest
      else some after
    match before, after with
    | some before, some after =>
      let shifted ← time.add? (after.offset - before.offset)
      (zone.fromLocal shifted).earliest.map ZonedDateTime.utc
    | before, after => acrossGap zone time rounds (minutes + 1) before after

def localOccurrence (zone : TimeZone) (time : NaiveDateTime) : Option DateTime :=
  match zone.fromLocal time with
  | .single value => some value.utc
  | .ambiguous first second => some (min first.utc second.utc)
  | .none => acrossGap zone time maxOffsetGapMinutes 1 none none

namespace ParsedSchedule

variable (schedule : ParsedSchedule) (zone : TimeZone) (after : DateTime)

/-- The days of a schedule. A day is named by the month's days or by the week's, and by both where
one of them is open. -/
def matchesDay (date : NaiveDate) : Bool :=
  let day := schedule.day.contains date.day
  let weekday := schedule.weekday.contains date.weekday
  schedule.month.contains date.month &&
    if schedule.day.wildcard || schedule.weekday.wildcard then day && weekday else day || weekday

/-- One minute of a day is looked at. -/
def lookAt (date : NaiveDate) (hour : ℕ) (next : Option DateTime) (minute : ℕ) :
    Except InvalidCronSchedule (Option DateTime) := do
  let time ← ofOption .expression (date.andHms? hour minute)
  return match localOccurrence zone time with
    | some candidate => FirstOf.keepEarlier after next candidate
    | none => next

/-- The first occurrence of a day after the reading. -/
def firstOn (date : NaiveDate) : Except InvalidCronSchedule (Option DateTime) :=
  if schedule.matchesDay date then
    schedule.hour.values.foldlM
      (fun next hour => schedule.minute.values.foldlM (lookAt zone after date hour) next) none
  else .ok none

def search : ℕ → NaiveDate → Except InvalidCronSchedule DateTime
  | 0, _ => .error .noOccurrence
  | days + 1, date => do
    match ← schedule.firstOn zone after date with
    | some next => return next
    | none => search days (← ofOption .noOccurrence date.succ?)

def nextAfter : Except InvalidCronSchedule DateTime :=
  schedule.search zone after searchDays (zone.dateOf after)

/-! ### The first occurrence -/

/-- What a minute of a local day is an occurrence at. -/
def OccursAt (date : NaiveDate) (hour minute : ℕ) (t : DateTime) : Prop :=
  ∃ time, date.andHms? hour minute = some time ∧ localOccurrence zone time = some t

/-- An occurrence that belongs to a local day, also where a gap moves it out of the day. -/
def OccursOn (date : NaiveDate) (t : DateTime) : Prop :=
  schedule.matchesDay date = true ∧ ∃ hour ∈ schedule.hour.values,
    ∃ minute ∈ schedule.minute.values, OccursAt zone date hour minute t

def Occurrence (t : DateTime) : Prop := ∃ date, schedule.OccursOn zone date t

/-- The first local day, from the reading's on, with an occurrence after the reading. -/
structure FirstDay (date : NaiveDate) : Prop where
  dateOf_le : zone.dateOf after ≤ date
  occurs : ∃ t, schedule.OccursOn zone date t ∧ after < t
  before : ∀ d, zone.dateOf after ≤ d → d < date → ∀ t, schedule.OccursOn zone d t → t ≤ after

/-- Nothing after the reading occurs before that day's occurrences. -/
def InOrder : Prop :=
  ∀ date, schedule.FirstDay zone after date → ∀ t, schedule.Occurrence zone t → after < t →
    ∃ u, schedule.OccursOn zone date u ∧ after < u ∧ u ≤ t

variable {schedule zone after} {date : NaiveDate} {hour minute : ℕ}

theorem lookAt_spec {S : Set DateTime} {held next : Option DateTime} (hS : FirstOf S held)
    (h : lookAt zone after date hour held minute = .ok next) :
    FirstOf (S ∪ {t | after < t ∧ OccursAt zone date hour minute t}) next := by
  rw [lookAt, bind_eq_ok_iff] at h
  obtain ⟨time, htime, h⟩ := h
  rw [ofOption_eq_ok_iff] at htime
  cases hocc : localOccurrence zone time with
  | none =>
    have hempty : {t | after < t ∧ OccursAt zone date hour minute t} = ∅ := by
      refine Set.eq_empty_of_forall_notMem ?_
      rintro t ⟨-, time', htime', ht⟩
      rw [htime] at htime'
      obtain rfl := Option.some.inj htime'
      exact absurd (hocc.symm.trans ht) (by simp)
    obtain rfl : held = next := by simpa [hocc, pure, Except.pure] using h
    rwa [hempty, Set.union_empty]
  | some candidate =>
    have hone : {t | after < t ∧ OccursAt zone date hour minute t} =
        {t | after < t ∧ t = candidate} := by
      ext t
      refine and_congr_right fun _ => ⟨?_, ?_⟩
      · rintro ⟨time', htime', ht⟩
        rw [htime] at htime'
        obtain rfl := Option.some.inj htime'
        rw [hocc] at ht
        exact (Option.some.inj ht).symm
      · rintro rfl
        exact ⟨time, htime, hocc⟩
    obtain rfl : FirstOf.keepEarlier after held candidate = next := by
      simpa [hocc, pure, Except.pure] using h
    rw [hone]
    exact hS.union_keepEarlier

/-- The loops over the hours and minutes of a day find its first occurrence after the reading. -/
theorem firstOn_spec {next : Option DateTime} (h : schedule.firstOn zone after date = .ok next) :
    FirstOf {t | after < t ∧ schedule.OccursOn zone date t} next := by
  rw [firstOn] at h
  split at h
  · rename_i hday
    have hloop := FirstOf.foldlM
      (T := fun hour => ⋃ minute ∈ schedule.minute.values,
        {t | after < t ∧ OccursAt zone date hour minute t})
      (fun S held hour next hS hnext => FirstOf.foldlM
        (fun S held minute next hS hnext => lookAt_spec hS hnext) hS hnext)
      FirstOf.nothing h
    have hday' : {t | after < t ∧ schedule.OccursOn zone date t} =
        ∅ ∪ ⋃ hour ∈ schedule.hour.values, ⋃ minute ∈ schedule.minute.values,
          {t | after < t ∧ OccursAt zone date hour minute t} := by
      ext t
      simp only [OccursOn, hday, true_and, Set.mem_ofPred_eq, Set.empty_union, Set.mem_iUnion,
        exists_prop]
      tauto
    rw [hday']
    exact hloop
  · rename_i hday
    obtain rfl : none = next := Except.ok.inj h
    refine Set.eq_empty_of_forall_notMem ?_
    rintro t ⟨-, hmatches, -⟩
    exact hday hmatches

/-- The search ends on the first day with an occurrence after the reading. -/
theorem search_spec {days : ℕ} {next : DateTime}
    (h : schedule.search zone after days date = .ok next) :
    ∃ d, date ≤ d ∧ IsLeast {t | after < t ∧ schedule.OccursOn zone d t} next ∧
      ∀ e, date ≤ e → e < d → ∀ t, schedule.OccursOn zone e t → t ≤ after := by
  induction days generalizing date with
  | zero => simp [search] at h
  | succ days ih =>
    rw [search, bind_eq_ok_iff] at h
    obtain ⟨found, hfound, h⟩ := h
    have hfirst := firstOn_spec hfound
    cases found with
    | some t =>
      obtain rfl : t = next := by simpa [pure, Except.pure] using h
      exact ⟨date, le_rfl, hfirst, fun e hle hlt => absurd hlt (not_lt.mpr hle)⟩
    | none =>
      simp only [bind_eq_ok_iff, ofOption_eq_ok_iff] at h
      obtain ⟨tomorrow, htomorrow, h⟩ := h
      obtain rfl : date + 1 = tomorrow := by
        rw [NaiveDate.succ?] at htomorrow
        split at htomorrow
        · exact Option.some.inj htomorrow
        · exact absurd htomorrow (by simp)
      obtain ⟨d, hle, hleast, hbefore⟩ := ih h
      have hsucc : date < date + 1 := Int.lt_succ date
      refine ⟨d, hsucc.le.trans hle, hleast, fun e he hlt t ht => ?_⟩
      rcases eq_or_lt_of_le he with rfl | hgt
      · have hempty : {t | after < t ∧ schedule.OccursOn zone date t} = ∅ := hfirst
        exact not_lt.mp fun hlt => absurd (hempty ▸ ⟨hlt, ht⟩ : t ∈ (∅ : Set DateTime)) (by simp)
      · exact hbefore e (Int.add_one_le_of_lt hgt) hlt t ht

/-- What `nextAfter` returns is the first occurrence after the reading on the first local day that
has one. -/
theorem exists_firstDay {next : DateTime} (h : schedule.nextAfter zone after = .ok next) :
    ∃ date, schedule.FirstDay zone after date ∧
      IsLeast {t | after < t ∧ schedule.OccursOn zone date t} next := by
  obtain ⟨date, hle, hleast, hbefore⟩ := search_spec h
  exact ⟨date, ⟨hle, ⟨next, hleast.1.2, hleast.1.1⟩, hbefore⟩, hleast⟩

theorem lt_nextAfter {next : DateTime} (h : schedule.nextAfter zone after = .ok next) :
    after < next := by
  obtain ⟨date, -, hleast⟩ := exists_firstDay h
  exact hleast.1.1

/-- **Exactly when it is the first occurrence of all.** -/
theorem nextAfter_first_iff {next : DateTime} (h : schedule.nextAfter zone after = .ok next) :
    IsLeast {t | after < t ∧ schedule.Occurrence zone t} next ↔ schedule.InOrder zone after := by
  obtain ⟨date, hdate, hleast⟩ := exists_firstDay h
  constructor
  · rintro ⟨-, hle⟩ d hd t ht hlt
    have hnext : next ≤ t := hle ⟨hlt, ht⟩
    -- There is one first day.
    obtain rfl : date = d := by
      rcases lt_trichotomy date d with hlt | rfl | hlt
      · have := hd.before date hdate.dateOf_le hlt next hleast.1.2
        exact absurd hleast.1.1 (not_lt.mpr this)
      · rfl
      · obtain ⟨u, hu, hafter⟩ := hd.occurs
        have := hdate.before d hd.dateOf_le hlt u hu
        exact absurd hafter (not_lt.mpr this)
    exact ⟨next, hleast.1.2, hleast.1.1, hnext⟩
  · intro horder
    refine ⟨⟨hleast.1.1, date, hleast.1.2⟩, ?_⟩
    rintro t ⟨hlt, ht⟩
    obtain ⟨u, hu, hafter, hle⟩ := horder date hdate t ht hlt
    exact (hleast.2 ⟨hafter, hu⟩).trans hle

end ParsedSchedule

/-! ### A zone without transitions -/

def TimeZone.utc : TimeZone where
  offsetAt _ := 0
  fromLocal t := .single ⟨t * nanosOfSecond, 0⟩

namespace ParsedSchedule

variable {schedule : ParsedSchedule}

theorem bounds_of_occursOn_utc {date t : ℤ} (h : schedule.OccursOn TimeZone.utc date t) :
    date * 86400000000000 ≤ t ∧ t < (date + 1) * 86400000000000 := by
  obtain ⟨-, hour, -, minute, -, time, htime, ht⟩ := h
  rw [NaiveDate.andHms?] at htime
  split at htime
  · rename_i hbounds
    obtain rfl := Option.some.inj htime
    have ht : (date * 86400 + hour * 3600 + minute * 60) * 1000000000 = t := Option.some.inj ht
    omega
  · exact absurd htime (by simp)

theorem lt_of_occursOn_utc {d e t u : ℤ} (ht : schedule.OccursOn TimeZone.utc d t)
    (hu : schedule.OccursOn TimeZone.utc e u) (hlt : d < e) : t < u := by
  have hbounds := bounds_of_occursOn_utc ht
  have hbounds' := bounds_of_occursOn_utc hu
  omega

/-- An occurrence of an earlier day is not after the reading. -/
theorem le_of_occursOn_utc {d t after : ℤ} (ht : schedule.OccursOn TimeZone.utc d t)
    (hlt : d < TimeZone.utc.dateOf after) : t ≤ after := by
  have hbounds := bounds_of_occursOn_utc ht
  have hof : TimeZone.utc.dateOf after = after / 86400000000000 := by
    simp [TimeZone.dateOf, TimeZone.utc, secondsOfDay, nanosOfSecond]
  rw [hof] at hlt
  omega

/-- Its readings always find the occurrences in order. -/
theorem inOrder_utc (schedule : ParsedSchedule) (after : DateTime) :
    schedule.InOrder TimeZone.utc after := by
  rintro date hdate t ⟨d, hd⟩ hlt
  obtain ⟨u, hu, hafter⟩ := hdate.occurs
  rcases lt_trichotomy d date with hbefore | rfl | hlater
  · refine absurd hlt (not_lt.mpr ?_)
    rcases lt_or_ge d (TimeZone.utc.dateOf after) with hpast | hpresent
    · exact le_of_occursOn_utc hd hpast
    · exact hdate.before d hpresent hbefore t hd
  · exact ⟨t, hd, hlt, le_rfl⟩
  · exact ⟨u, hu, hafter, (lt_of_occursOn_utc hu hd hlater).le⟩

end ParsedSchedule

end Nibrunner.Cron

import Nibrunner.Cron.NextOccurrence

/-!
# Schedules across offset changes

Where the clock jumps over a midnight, the minutes it leaves out are moved into the next local day.
`nextAfter` looks there for the next day's minutes only, and on the day itself takes the moved
minute first. `ParsedSchedule.findsFirst_iff` says **exactly when it finds the first occurrence**,
and that it does wherever the dates of a zone follow each other and keep their minutes
(`TimeZone.KeepsDates`).

A zone is what a table of its offset changes says, and resolves local times as the table has them
(`TimeZone.IsOf`).
-/

namespace Nibrunner.Cron

open Except Calendar

/-! ### Zones by their changes -/

structure OffsetChange where
  instant : DateTime
  offset : ℤ

/-- The changes of a zone's offset, each of less than a day. -/
structure OffsetTable where
  first : ℤ
  changes : List OffsetChange
  sorted : changes.Pairwise (·.instant < ·.instant)
  small : (first :: changes.map OffsetChange.offset).IsChain fun a b => |b - a| < secondsOfDay

/-- The offset of the last change up to an instant. -/
def OffsetTable.offsetAt (table : OffsetTable) (t : DateTime) : ℤ :=
  table.changes.foldl (fun offset change => if change.instant ≤ t then change.offset else offset)
    table.first

namespace TimeZone

/-- The clocks of the zone show the local time at the instant. -/
def Shows (zone : TimeZone) (t : DateTime) (time : NaiveDateTime) : Prop :=
  t + zone.offsetAt t * nanosOfSecond = time * nanosOfSecond

/-- A local time is resolved to the instants at which it is shown. -/
def Resolves (zone : TimeZone) (time : NaiveDateTime) : LocalResult → Prop
  | .none => ∀ t, ¬zone.Shows t time
  | .single value =>
    value.offset = zone.offsetAt value.utc ∧ ∀ t, zone.Shows t time ↔ t = value.utc
  | .ambiguous first second =>
    first.offset = zone.offsetAt first.utc ∧ second.offset = zone.offsetAt second.utc ∧
      first.utc < second.utc ∧ ∀ t, zone.Shows t time ↔ t = first.utc ∨ t = second.utc

/-- A zone is what its table says. -/
structure IsOf (zone : TimeZone) (table : OffsetTable) : Prop where
  offsetAt : ∀ t, zone.offsetAt t = table.offsetAt t
  resolves : ∀ time, zone.Resolves time (zone.fromLocal time)

/-- The dates of a zone follow each other: every minute occurs on its date, when no later date has
been shown, and the clocks go back by a day at most. -/
structure KeepsDates (zone : TimeZone) : Prop where
  occurs : ∀ date hour minute time, NaiveDate.andHms? date hour minute = some time →
    ∃ t, localOccurrence zone time = some t ∧ zone.dateOf t = date ∧ ∀ u ≤ t, zone.dateOf u ≤ date
  back : ∀ t u, t ≤ u → (zone.dateOf t : ℤ) ≤ zone.dateOf u + 1

end TimeZone

/-- The days from -262143-01-01 to the last one. -/
def NaiveDate.InCalendar (date : NaiveDate) : Prop := -96465292 ≤ date ∧ date ≤ NaiveDate.last

instance (date : NaiveDate) : Decidable (NaiveDate.InCalendar date) :=
  inferInstanceAs (Decidable (-96465292 ≤ date ∧ date ≤ NaiveDate.last))

namespace ParsedSchedule

variable {schedule : ParsedSchedule} {fields : Fields} {zone : TimeZone} {after : DateTime}

variable (schedule zone) in
/-- The instants that are assigned to the schedule's local minutes. -/
def Occurs (t : DateTime) : Prop :=
  ∃ date, NaiveDate.InCalendar date ∧ schedule.OccursOn zone date t

variable (schedule zone after) in
/-- What `nextAfter` is for: the first occurrence after the reading, or an error where there is
none. -/
def FindsFirst : Prop :=
  (∀ next, schedule.nextAfter zone after = .ok next ↔
      IsLeast {t | after < t ∧ schedule.Occurs zone t} next) ∧
    (schedule.nextAfter zone after = .error .noOccurrence ↔
      ∀ t, schedule.Occurs zone t → t ≤ after)

/-- The search returns an occurrence of a day that it looks at. -/
theorem search_within {days : ℕ} {date : ℤ} {next : DateTime}
    (h : schedule.search zone after days date = .ok next) :
    ∃ d : ℤ, date ≤ d ∧ d < date + days ∧ (date ≤ NaiveDate.last → d ≤ NaiveDate.last) ∧
      after < next ∧ schedule.OccursOn zone d next := by
  induction days generalizing date with
  | zero => cases h
  | succ days ih =>
    rw [search, bind_eq_ok_iff] at h
    obtain ⟨found, hfound, h⟩ := h
    have hfirst := firstOn_spec hfound
    cases found with
    | some t =>
      obtain rfl := Except.ok.inj h
      exact ⟨date, le_rfl, by omega, id, hfirst.1⟩
    | none =>
      obtain ⟨tomorrow, htomorrow, h⟩ := bind_eq_ok_iff.mp h
      rw [ofOption_eq_ok_iff, NaiveDate.succ?] at htomorrow
      split at htomorrow
      · next hlt =>
        obtain rfl := Option.some.inj htomorrow
        obtain ⟨d, hle, hsoon, hlast, hoccurs⟩ := ih h
        exact ⟨d, by omega, by omega, fun _ => hlast (Int.add_one_le_of_lt hlt), hoccurs⟩
      · cases htomorrow

variable (schedule zone after) in
/-- The first local day with an occurrence after the reading: it is one that is looked at, and no
other day's occurrence comes before all of its own. -/
structure NextDay (date : ℤ) : Prop where
  firstDay : schedule.FirstDay zone after date
  looked_at : date < (zone.dateOf after : ℤ) + searchDays ∧ date ≤ NaiveDate.last
  least : ∀ t, schedule.Occurs zone t → after < t →
    ∃ u, schedule.OccursOn zone date u ∧ after < u ∧ u ≤ t

/-- There is one first day. -/
private theorem FirstDay.le {date d : NaiveDate} {t : DateTime}
    (h : schedule.FirstDay zone after date) (hle : zone.dateOf after ≤ d)
    (ht : schedule.OccursOn zone d t) (hlt : after < t) : date ≤ d :=
  not_lt.mp fun hbefore => absurd (h.before d hle hbefore t ht) (not_le.mpr hlt)

theorem FirstDay.unique {date d : NaiveDate} (h : schedule.FirstDay zone after date)
    (h' : schedule.FirstDay zone after d) : date = d := by
  obtain ⟨t, ht, hlt⟩ := h.occurs
  obtain ⟨t', ht', hlt'⟩ := h'.occurs
  exact le_antisymm (h.le h'.dateOf_le ht' hlt') (h'.le h.dateOf_le ht hlt)

/-- What `nextAfter` returns belongs to a first day that is looked at. -/
theorem exists_firstDay_within (hdate : NaiveDate.InCalendar (zone.dateOf after)) {next : DateTime}
    (h : schedule.nextAfter zone after = .ok next) :
    ∃ date : ℤ, schedule.FirstDay zone after date ∧
      (date < (zone.dateOf after : ℤ) + searchDays ∧ date ≤ NaiveDate.last) ∧
      IsLeast {t | after < t ∧ schedule.OccursOn zone date t} next := by
  obtain ⟨date, hfirst, hleast⟩ := exists_firstDay h
  obtain ⟨d, hle, hsoon, hlast, hlt, hoccurs⟩ := search_within h
  have hdate' := hfirst.le hle hoccurs hlt
  exact ⟨date, hfirst, ⟨hdate'.trans_lt hsoon, hdate'.trans (hlast hdate.2)⟩, hleast⟩

theorem inCalendar_of_le {date : ℤ} (hdate : NaiveDate.InCalendar (zone.dateOf after))
    (hle : zone.dateOf after ≤ date) (hlast : date ≤ NaiveDate.last) : NaiveDate.InCalendar date :=
  ⟨hdate.1.trans hle, hlast⟩

/-- Where it returns an error, it has found the first occurrence just where there is none. -/
private theorem findsFirst_iff_of_error {e : InvalidCronSchedule} (hday : schedule.InDay)
    (hdate : NaiveDate.InCalendar (zone.dateOf after))
    (h : schedule.nextAfter zone after = .error e) :
    schedule.FindsFirst zone after ↔
      (∀ t, schedule.Occurs zone t → t ≤ after) ∨ ∃ date, schedule.NextDay zone after date := by
  obtain ⟨rfl, hdays⟩ := search_error hday hdate.2 h
  have hnone : ¬∃ date, schedule.NextDay zone after date := by
    rintro ⟨date, hnext⟩
    obtain ⟨t, ht, hlt⟩ := hnext.firstDay.occurs
    exact absurd (hdays date hnext.firstDay.dateOf_le hnext.looked_at.1 hnext.looked_at.2 t ht)
      (not_le.mpr hlt)
  rw [or_iff_left hnone, FindsFirst, h]
  refine ⟨fun hfinds => hfinds.2.mp rfl, fun hempty => ⟨fun next => ?_, fun _ => hempty,
    fun _ => rfl⟩⟩
  refine ⟨by rintro ⟨⟩, fun hleast => ?_⟩
  exact absurd (hempty next hleast.1.2) (not_le.mpr hleast.1.1)

/-- Where it returns an occurrence, that is the first just where the day it is of has the first. -/
private theorem findsFirst_iff_of_ok {next : DateTime}
    (hdate : NaiveDate.InCalendar (zone.dateOf after))
    (h : schedule.nextAfter zone after = .ok next) :
    schedule.FindsFirst zone after ↔
      (∀ t, schedule.Occurs zone t → t ≤ after) ∨ ∃ date, schedule.NextDay zone after date := by
  obtain ⟨date, hfirst, hwithin, hleast⟩ := exists_firstDay_within hdate h
  have hoccurs : schedule.Occurs zone next :=
    ⟨date, inCalendar_of_le hdate hfirst.dateOf_le hwithin.2, hleast.1.2⟩
  have hsome : ¬∀ t, schedule.Occurs zone t → t ≤ after :=
    fun hempty => absurd (hempty next hoccurs) (not_le.mpr hleast.1.1)
  rw [or_iff_right hsome]
  constructor
  · intro hfinds
    have hall := (hfinds.1 next).mp h
    exact ⟨date, hfirst, hwithin, fun t ht hlt => ⟨next, hleast.1.2, hleast.1.1, hall.2 ⟨hlt, ht⟩⟩⟩
  · rintro ⟨d, hnext⟩
    obtain rfl : date = d := hfirst.unique hnext.firstDay
    have hall : IsLeast {t | after < t ∧ schedule.Occurs zone t} next := by
      refine ⟨⟨hleast.1.1, hoccurs⟩, ?_⟩
      rintro t ⟨hlt, ht⟩
      obtain ⟨u, hu, hafter, hle⟩ := hnext.least t ht hlt
      exact (hleast.2 ⟨hafter, hu⟩).trans hle
    rw [FindsFirst, h]
    refine ⟨fun next' => ⟨?_, fun hnext' => by rw [hall.unique hnext']⟩, by rintro ⟨⟩, fun hempty =>
      absurd hempty hsome⟩
    rintro ⟨⟩
    exact hall

/-- Where dates are kept, an occurrence is on its date, and no later one has been shown. -/
private theorem dateOf_of_occursOn (hzone : zone.KeepsDates) {date : NaiveDate} {t : DateTime}
    (h : schedule.OccursOn zone date t) : zone.dateOf t = date ∧ ∀ u ≤ t, zone.dateOf u ≤ date := by
  obtain ⟨-, hour, -, minute, -, time, htime, ht⟩ := h
  obtain ⟨t', ht', hdate⟩ := hzone.occurs date hour minute time htime
  rw [ht] at ht'
  rwa [Option.some.inj ht']

/-- Where dates are kept, there is an occurrence after the reading on a day that is looked at. -/
private theorem exists_kept (hholds : schedule.Holds fields) (hzone : zone.KeepsDates)
    {first : ℤ} (hof : zone.dateOf after = first) (hyears : -719528 ≤ first) {t : DateTime} {d : ℤ}
    (ht : schedule.OccursOn zone d t) (hlt : after < t) :
    ∃ (near : ℤ) (u : DateTime), first ≤ near ∧ near < first + searchDays ∧
      schedule.OccursOn zone near u ∧ after < u := by
  have hle : first ≤ d := hof ▸ (dateOf_of_occursOn hzone ht).2 after hlt.le
  have hdays : (1 : ℤ) < searchDays := by decide
  by_cases hsoon : d < first + searchDays
  · exact ⟨d, t, hle, hsoon, ht, hlt⟩
  · -- the clocks may have shown the day after the reading's already, and not the one behind it
    obtain ⟨now, hnow⟩ := NaiveDate.exists_ofDate (d := first + 1) (by omega)
    obtain ⟨date, hdate⟩ := NaiveDate.exists_ofDate (d := d) (by omega)
    obtain ⟨hmatches, hour, hhour, minute, hminute, -⟩ := ht
    rw [← hdate, hholds.matchesDay] at hmatches
    obtain ⟨near, hnear, hafter, hsoon⟩ := hmatches.near now
    have hinDay := hholds.inDay
    have htime : NaiveDate.andHms? (NaiveDate.ofDate near) hour minute = some _ :=
      if_pos ⟨hinDay.hour_lt hour hhour, hinDay.minute_lt minute hminute⟩
    obtain ⟨u, hu, hdateOf, -⟩ := hzone.occurs (NaiveDate.ofDate near) hour minute _ htime
    have hnow : (now.number : ℤ) - epochDays = first + 1 := hnow
    have hlater : first + 1 < (near.number : ℤ) - epochDays := by omega
    refine ⟨(near.number : ℤ) - epochDays, u, by omega, by omega,
      ⟨(hholds.matchesDay near).mpr hnear, hour, hhour, minute, hminute, _, htime, hu⟩, ?_⟩
    refine not_le.mp fun hpast => absurd (hzone.back u after hpast) (not_le.mpr ?_)
    rw [hof, hdateOf]
    exact hlater

/-- Where dates are kept, the first day has the first occurrence of all. -/
theorem findsFirst_of_keepsDates (hholds : schedule.Holds fields) (hzone : zone.KeepsDates)
    (hyears : -719528 ≤ (zone.dateOf after : ℤ))
    (hend : (zone.dateOf after : ℤ) + searchDays ≤ NaiveDate.last) :
    schedule.FindsFirst zone after := by
  have hdate : NaiveDate.InCalendar (zone.dateOf after) :=
    ⟨le_trans (by decide) hyears, le_trans (Int.le_add_of_nonneg_right (by decide)) hend⟩
  cases h : schedule.nextAfter zone after with
  | error e =>
    rw [findsFirst_iff_of_error hholds.inDay hdate h]
    obtain ⟨-, hdays⟩ := search_error hholds.inDay hdate.2 h
    refine .inl ?_
    rintro t ⟨d, -, ht⟩
    refine not_lt.mp fun hlt => ?_
    obtain ⟨near, u, hle, hsoon, hu, hafter⟩ := exists_kept hholds hzone rfl hyears ht hlt
    exact absurd (hdays near hle hsoon (hsoon.le.trans hend) u hu) (not_le.mpr hafter)
  | ok next =>
    rw [findsFirst_iff_of_ok hdate h]
    obtain ⟨date, hfirst, hwithin, hleast⟩ := exists_firstDay_within hdate h
    refine .inr ⟨date, hfirst, hwithin, ?_⟩
    rintro t ⟨d, -, ht⟩ hlt
    have hle : zone.dateOf after ≤ d := (dateOf_of_occursOn hzone ht).2 after hlt.le
    rcases eq_or_lt_of_le (hfirst.le hle ht hlt) with rfl | hlater
    · exact ⟨t, ht, hlt, le_rfl⟩
    · refine ⟨next, hleast.1.2, hleast.1.1, le_of_not_ge fun hge => ?_⟩
      have hback := (dateOf_of_occursOn hzone hleast.1.2).2 t hge
      rw [(dateOf_of_occursOn hzone ht).1] at hback
      exact absurd hback (not_le.mpr hlater)

/-- **Exactly when `nextAfter` finds the first occurrence**: where there is none after the reading,
or the first local day with one is looked at and has the first of all. So it does in every zone
that keeps its dates. -/
theorem findsFirst_iff {expression : String} (h : parse expression = .ok schedule)
    (zone : TimeZone) (after : DateTime) (hdate : NaiveDate.InCalendar (zone.dateOf after)) :
    (schedule.FindsFirst zone after ↔
        (∀ t, schedule.Occurs zone t → t ≤ after) ∨ ∃ date, schedule.NextDay zone after date) ∧
      (zone.KeepsDates → -719528 ≤ (zone.dateOf after : ℤ) →
        (zone.dateOf after : ℤ) + searchDays ≤ NaiveDate.last →
          schedule.FindsFirst zone after) := by
  obtain ⟨fields, -, hholds⟩ := holds_of_parse h
  refine ⟨?_, findsFirst_of_keepsDates hholds⟩
  cases hresult : schedule.nextAfter zone after with
  | error e => exact findsFirst_iff_of_error hholds.inDay hdate hresult
  | ok next => exact findsFirst_iff_of_ok hdate hresult

end ParsedSchedule

/-! ### Clocks that go back -/

/-- The middle of Europe: on 2025-10-26 at 01:00 UTC the clocks go back from three at night to
two. -/
private def autumn : TimeZone where
  offsetAt t := if (1761440400000000000 : ℤ) ≤ t then 3600 else 7200
  fromLocal (time : ℤ) :=
    if time < 1761444000 then .single ⟨(time - 7200) * nanosOfSecond, 7200⟩
    else if time < 1761447600 then
      .ambiguous ⟨(time - 7200) * nanosOfSecond, 7200⟩ ⟨(time - 3600) * nanosOfSecond, 3600⟩
    else .single ⟨(time - 3600) * nanosOfSecond, 3600⟩

private theorem dateOf_autumn (t : ℤ) : autumn.dateOf t =
    (t + (if (1761440400000000000 : ℤ) ≤ t then 3600 else 7200) * 1000000000) / 86400000000000 :=
  rfl

private theorem localOccurrence_autumn (time : ℤ) : localOccurrence autumn time =
    some ((if time < 1761447600 then time - 7200 else time - 3600) * 1000000000 : ℤ) := by
  simp only [localOccurrence, autumn, nanosOfSecond]
  split_ifs
  all_goals simp
  all_goals omega

/-- Clocks that go back within a day keep the dates. -/
private theorem keepsDates_autumn : autumn.KeepsDates := by
  constructor
  · intro (date : ℤ) hour minute time htime
    rw [NaiveDate.andHms?] at htime
    split at htime
    · next hbounds =>
      obtain rfl := Option.some.inj htime
      refine ⟨_, localOccurrence_autumn (date * 86400 + hour * 3600 + minute * 60), ?_,
        fun (u : ℤ) (hle : (u : ℤ) ≤ _) => ?_⟩
      · rw [dateOf_autumn]
        change (_ : ℤ) = date
        split_ifs <;> omega
      · rw [dateOf_autumn]
        change (_ : ℤ) ≤ date
        split_ifs at hle ⊢ <;> omega
    · cases htime
  · intro (t : ℤ) (u : ℤ) (hle : (t : ℤ) ≤ u)
    rw [dateOf_autumn, dateOf_autumn]
    change (_ : ℤ) ≤ _
    split_ifs <;> omega

/-! ### A gap before midnight -/

/-- The west of Greenland: on 2025-03-30 at 01:00 UTC, which is eleven in the evening of Saturday,
the clocks go to midnight. -/
private def nuukTable : OffsetTable where
  first := -7200
  changes := [⟨1743296400 * nanosOfSecond, -3600⟩]
  sorted := List.pairwise_singleton _ _
  small := List.isChain_pair.mpr (by decide)

private def nuukLocal (time : ℤ) : LocalResult :=
  if time + 7200 < 1743296400 then .single ⟨(time + 7200) * nanosOfSecond, -7200⟩
  else if 1743296400 ≤ time + 3600 then .single ⟨(time + 3600) * nanosOfSecond, -3600⟩
  else .none

private def nuukZone : TimeZone := ⟨nuukTable.offsetAt, nuukLocal⟩

private theorem offsetAt_nuuk (t : ℤ) :
    nuukZone.offsetAt t = if (1743296400000000000 : ℤ) ≤ t then -3600 else -7200 := rfl

private theorem shows_nuuk (t time : ℤ) : nuukZone.Shows t time ↔
    t < 1743296400000000000 ∧ t = (time + 7200) * 1000000000 ∨
      1743296400000000000 ≤ t ∧ t = (time + 3600) * 1000000000 := by
  change t + (if (1743296400000000000 : ℤ) ≤ t then -3600 else -7200) * 1000000000 =
    time * 1000000000 ↔ _
  split <;> omega

private theorem isOf_nuukTable : nuukZone.IsOf nuukTable := by
  refine ⟨fun _ => rfl, fun (time : ℤ) => ?_⟩
  change nuukZone.Resolves time (nuukLocal time)
  rw [nuukLocal]
  split
  · next hwinter =>
    have hbefore : ¬(1743296400000000000 : ℤ) ≤ (time + 7200) * 1000000000 := by omega
    refine ⟨((offsetAt_nuuk _).trans (if_neg hbefore)).symm, fun (t : ℤ) => ?_⟩
    rw [shows_nuuk]
    change _ ↔ t = (time + 7200) * 1000000000
    omega
  · split
    · next hsummer =>
      have hfrom : (1743296400000000000 : ℤ) ≤ (time + 3600) * 1000000000 := by omega
      refine ⟨((offsetAt_nuuk _).trans (if_pos hfrom)).symm, fun (t : ℤ) => ?_⟩
      rw [shows_nuuk]
      change _ ↔ t = (time + 3600) * 1000000000
      omega
    · intro (t : ℤ)
      rw [shows_nuuk]
      omega

namespace ParsedSchedule

private def saturdays : ParsedSchedule where
  minute := ⟨[0, 30], false⟩
  hour := ⟨[23], false⟩
  day := ⟨List.range' 1 31, true⟩
  month := ⟨List.range' 1 12, true⟩
  weekday := ⟨[6], false⟩

/-- The clocks go back in the night after the last of one Saturday. -/
theorem findsFirst_saturdays : saturdays.FindsFirst autumn (1761427800 * nanosOfSecond) :=
  (findsFirst_iff (show parse "0,30 23 * * 6" = .ok saturdays by decide +kernel) autumn _
    (by decide +kernel)).2 keepsDates_autumn (by decide +kernel) (by decide +kernel)

/-- Half past eleven on that Saturday is moved to half past midnight on Sunday, and is not found
from midnight on. -/
theorem misses_moved : ¬∀ (table : OffsetTable) (zone : TimeZone), zone.IsOf table →
    ∀ (expression : String) (schedule : ParsedSchedule), parse expression = .ok schedule →
      ∀ after, NaiveDate.InCalendar (zone.dateOf after) → schedule.FindsFirst zone after := by
  intro h
  have hfinds := h nuukTable nuukZone isOf_nuukTable "0,30 23 * * 6" saturdays (by decide +kernel)
    (1743296400 * nanosOfSecond) (by decide +kernel)
  have hnext : saturdays.nextAfter nuukZone (1743296400 * nanosOfSecond) =
      .ok (1743897600 * nanosOfSecond) := by decide +kernel
  have hmoved : saturdays.Occurs nuukZone (1743298200 * nanosOfSecond) :=
    ⟨20176, by decide +kernel, by decide +kernel, 23, by decide, 30, by decide, _, rfl,
      by decide +kernel⟩
  have hle := ((hfinds.1 _).mp hnext).2 ⟨by decide, hmoved⟩
  exact absurd hle (by decide)

end ParsedSchedule

end Nibrunner.Cron

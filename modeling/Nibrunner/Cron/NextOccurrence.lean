import Nibrunner.Cron.Fields

/-!
# What comes next in a zone without transitions

`nextAfter` looks at the days of eight years. In UTC that is enough: the days a schedule names come
again within them from every day on, also a leap day across a century, so that `nextAfter` finds
**the first minute after the reading that the fields of the expression name**, and fails only where
there is none (`ParsedSchedule.nextAfter_utc`).
-/

namespace Nibrunner.Cron

open Except Calendar

namespace ParsedSchedule

/-! ### The days looked at -/

/-- The times of a schedule are times of a day. -/
structure InDay (schedule : ParsedSchedule) : Prop where
  hour_lt : ∀ hour ∈ schedule.hour.values, hour < 24
  minute_lt : ∀ minute ∈ schedule.minute.values, minute < 60

variable {schedule : ParsedSchedule} {fields : Fields} {zone : TimeZone} {after : DateTime}
  {date : ℤ}

theorem Holds.inDay (h : schedule.Holds fields) : schedule.InDay where
  hour_lt hour hmem := Nat.lt_succ_of_le (Field.bounds_of_names ((h.hour hour).mp hmem)).2
  minute_lt minute hmem := Nat.lt_succ_of_le (Field.bounds_of_names ((h.minute minute).mp hmem)).2

theorem exists_firstOn (hday : schedule.InDay) (zone : TimeZone) (after : DateTime)
    (date : NaiveDate) : ∃ next, schedule.firstOn zone after date = .ok next := by
  rw [firstOn]
  split
  · refine exists_foldlM_eq_ok (fun next hour hhour => ?_) none
    refine exists_foldlM_eq_ok (fun next minute hminute => ?_) next
    have htime : date.andHms? hour minute = some _ :=
      if_pos ⟨hday.hour_lt hour hhour, hday.minute_lt minute hminute⟩
    rw [lookAt, htime]
    exact ⟨_, rfl⟩
  · exact ⟨none, rfl⟩

/-- Where the search fails no day of it has an occurrence after the reading. -/
theorem search_error (hday : schedule.InDay) (hlast : date ≤ NaiveDate.last) {days : ℕ}
    {e : InvalidCronSchedule} (h : schedule.search zone after days date = .error e) :
    e = .noOccurrence ∧ ∀ d : ℤ, date ≤ d → d < date + days → d ≤ NaiveDate.last →
      ∀ t, schedule.OccursOn zone d t → t ≤ after := by
  induction days generalizing date with
  | zero =>
    obtain rfl := Except.error.inj h
    exact ⟨rfl, fun d hle hlt => absurd hle (by omega)⟩
  | succ days ih =>
    obtain ⟨found, hfound⟩ := exists_firstOn hday zone after date
    have hfirst := firstOn_spec hfound
    rw [search, hfound] at h
    cases found with
    | some t => cases h
    | none =>
      have hnone (t : DateTime) (ht : schedule.OccursOn zone date t) : t ≤ after := by
        have hempty : {t | after < t ∧ schedule.OccursOn zone date t} = ∅ := hfirst
        exact not_lt.mp fun hlt => Set.notMem_empty t (hempty ▸ ⟨hlt, ht⟩)
      change (ofOption .noOccurrence (NaiveDate.succ? date) >>=
        schedule.search zone after days) = .error e at h
      by_cases hend : date < NaiveDate.last
      · rw [NaiveDate.succ?, if_pos hend] at h
        obtain ⟨herror, hlater⟩ := ih (Int.add_one_le_of_lt hend) h
        refine ⟨herror, fun d hle hlt hd => ?_⟩
        rcases eq_or_lt_of_le hle with rfl | hgt
        · exact hnone
        · exact hlater d (Int.add_one_le_of_lt hgt) (by omega) hd
      · rw [NaiveDate.succ?, if_neg hend] at h
        obtain rfl := Except.error.inj h
        refine ⟨rfl, fun d hle hlt hd => ?_⟩
        obtain rfl : date = d := by omega
        exact hnone

end ParsedSchedule

/-! ### Days that come again -/

namespace Fields

variable {fields : Fields} {date : Date}

/-- A day that the fields name they name again: by its day, or by its day of the week. -/
theorem MatchesDay.again (h : fields.MatchesDay date) :
    (∀ near : Date, near.month = date.month → near.day = date.day → fields.MatchesDay near) ∨
      ∀ near : Date, near.month = date.month → near.weekday = date.weekday →
        fields.MatchesDay near := by
  obtain ⟨hmonth, ⟨hopen, hday, hweekday⟩ | ⟨hclosed, hday | hweekday⟩⟩ := h
  · rcases hopen with hstar | hstar
    · right
      intro near hm hw
      have hnear : fields.NamesDay near.day := by
        rw [NamesDay, hstar]
        exact Field.names_star near.day_pos (near.day_le.trans (daysInMonth_le _ _))
      exact ⟨hm ▸ hmonth, .inl ⟨.inl hstar, hnear, hw ▸ hweekday⟩⟩
    · left
      intro near hm hd
      have hlt : near.weekday < 7 := Nat.mod_lt _ (by decide)
      have hnear : Field.Names 0 7 weekdayNames fields.weekday near.weekday := by
        rw [hstar]
        exact Field.names_star (Nat.zero_le _) hlt.le
      exact ⟨hm ▸ hmonth, .inl ⟨.inr hstar, hd ▸ hday, .inl ⟨hlt, hnear⟩⟩⟩
  · exact .inl fun near hm hd => ⟨hm ▸ hmonth, .inr ⟨hclosed, .inl (hd ▸ hday)⟩⟩
  · exact .inr fun near hm hw => ⟨hm ▸ hmonth, .inr ⟨hclosed, .inr (hw ▸ hweekday)⟩⟩

/-- **Eight years are enough**: where the fields name a day at all, they name one of the days of the
eight years after any day. -/
theorem MatchesDay.near (h : fields.MatchesDay date) (now : Date) :
    ∃ near : Date, fields.MatchesDay near ∧ now.number < near.number ∧
      near.number + 1 < now.number + searchDays := by
  have hdays : searchDays = 2928 := rfl
  rcases h.again with hagain | hagain
  · obtain ⟨near, hmonth, hday, hlt, hle⟩ := Date.exists_same_day now date
    exact ⟨near, hagain near hmonth hday, hlt, by omega⟩
  · obtain ⟨near, hmonth, hweekday, hlt, hle⟩ := Date.exists_same_weekday now date
    exact ⟨near, hagain near hmonth hweekday, hlt, by omega⟩

/-- A minute that the fields name starts at the instant. -/
def NamesInstant (fields : Fields) (t : DateTime) : Prop :=
  ∃ time : CivilTime, fields.Matches time ∧ t = time.epochSeconds * nanosOfSecond

end Fields

/-! ### The next occurrence in UTC -/

namespace ParsedSchedule

variable {schedule : ParsedSchedule} {fields : Fields}

/-- The occurrences of a date are the minutes of it that the fields name. -/
theorem occursOn_ofDate_iff (h : schedule.Holds fields) {date : Date} {t : ℤ} :
    schedule.OccursOn TimeZone.utc (NaiveDate.ofDate date) t ↔
      ∃ time : CivilTime, time.date = date ∧ fields.Matches time ∧
        t = time.epochSeconds * nanosOfSecond := by
  have hday := h.inDay
  constructor
  · rintro ⟨hmatches, hour, hhour, minute, hminute, time, htime, ht⟩
    have hlt := hday.hour_lt hour hhour
    have hlt' := hday.minute_lt minute hminute
    rw [NaiveDate.andHms?, if_pos ⟨hlt, hlt'⟩] at htime
    obtain rfl := Option.some.inj htime
    refine ⟨⟨date, hour, minute, 0, hlt, hlt', by decide⟩, rfl, ?_, ?_⟩
    · exact ⟨rfl, (h.minute minute).mp hminute, (h.hour hour).mp hhour,
        (h.matchesDay date).mp hmatches⟩
    · rw [← Option.some.inj ht, CivilTime.epochSeconds]
      simp [NaiveDate.ofDate, secondsOfDay]
  · rintro ⟨time, rfl, ⟨hsecond, hminute, hhour, hmatches⟩, rfl⟩
    refine ⟨(h.matchesDay _).mpr hmatches, time.hour, (h.hour _).mpr hhour, time.minute,
      (h.minute _).mpr hminute, time.epochSeconds, ?_, rfl⟩
    rw [NaiveDate.andHms?, if_pos ⟨time.hour_lt, time.minute_lt⟩, CivilTime.epochSeconds, hsecond]
    simp [NaiveDate.ofDate, secondsOfDay]

private theorem dateOf_utc (after : ℤ) : TimeZone.utc.dateOf after = after / 86400000000000 := by
  simp [TimeZone.dateOf, TimeZone.utc, secondsOfDay, nanosOfSecond]

/-- From 1970 on the occurrences are the minutes that the fields name. -/
private theorem occurrence_utc_iff (h : schedule.Holds fields) {t : ℤ} (ht : 0 ≤ t) :
    schedule.Occurrence TimeZone.utc t ↔ fields.NamesInstant t := by
  constructor
  · rintro ⟨d, hd⟩
    have hbounds := bounds_of_occursOn_utc hd
    obtain ⟨date, rfl⟩ := NaiveDate.exists_ofDate (d := d) (by omega)
    obtain ⟨time, -, hmatches, heq⟩ := (occursOn_ofDate_iff h).mp hd
    exact ⟨time, hmatches, heq⟩
  · rintro ⟨time, hmatches, heq⟩
    exact ⟨_, (occursOn_ofDate_iff h).mpr ⟨time, rfl, hmatches, heq⟩⟩

/-- **Eight years are enough.** Where there is an occurrence after the reading, there is one on a
day that is looked at. -/
private theorem exists_looked_at (h : schedule.Holds fields) {after t : ℤ} (hafter : 0 ≤ after)
    (hlt : after < t) (ht : schedule.Occurrence TimeZone.utc t) :
    ∃ d u : ℤ, after / 86400000000000 ≤ d ∧ d < after / 86400000000000 + searchDays ∧
      schedule.OccursOn TimeZone.utc d u ∧ after < u := by
  have hzero : (0 : ℤ) < searchDays := by decide
  obtain ⟨(d : ℤ), hd⟩ := ht
  have hbounds := bounds_of_occursOn_utc hd
  by_cases hsame : d = after / 86400000000000
  · exact ⟨d, t, by omega, by omega, hd, hlt⟩
  · obtain ⟨date, rfl⟩ := NaiveDate.exists_ofDate (d := d) (by omega)
    obtain ⟨now, hnow⟩ := NaiveDate.exists_ofDate (d := after / 86400000000000) (by omega)
    obtain ⟨time, hdate, ⟨hsecond, hminute, hhour, hmatches⟩, -⟩ := (occursOn_ofDate_iff h).mp hd
    obtain ⟨near, hnear, hlater, hsoon⟩ := hmatches.near now
    have hfound : schedule.OccursOn TimeZone.utc (NaiveDate.ofDate near) _ :=
      (occursOn_ofDate_iff h).mpr ⟨⟨near, time.hour, time.minute, time.second, time.hour_lt,
        time.minute_lt, time.second_lt⟩, rfl, ⟨hsecond, hminute, hhour, hnear⟩, rfl⟩
    have hbounds' := @bounds_of_occursOn_utc schedule ((near.number : ℤ) - epochDays) _ hfound
    have hnow : (now.number : ℤ) - epochDays = after / 86400000000000 := hnow
    exact ⟨(near.number : ℤ) - epochDays, _, by omega, by omega, hfound, by omega⟩

/-- The search of a reading of these years ends long before the calendar does. -/
private theorem searched_of_years {after : ℤ} {now : CivilTime}
    (hnow : now.epochSeconds = after / nanosOfSecond) (hfrom : 1970 ≤ now.date.year)
    (hto : now.date.year ≤ 9990) :
    0 ≤ after ∧ after / 86400000000000 + searchDays ≤ NaiveDate.last := by
  obtain ⟨hstart, hstop⟩ := now.date.number_bounds
  have hfirst := yearStart_strictMono.monotone hfrom
  have hlast := yearStart_strictMono.monotone (Nat.add_le_add_right hto 1)
  have hepoch : yearStart 1970 = epochDays := by decide
  have hend : yearStart (9990 + 1) = 3649138 := by decide
  have hhour := now.hour_lt
  have hminute := now.minute_lt
  have hsecond := now.second_lt
  rw [CivilTime.epochSeconds, nanosOfSecond] at hnow
  rw [searchDays, NaiveDate.last]
  rw [epochDays] at *
  omega

/-- **In UTC `nextAfter` returns the first minute after the reading that the fields name**, and it
returns an error exactly where there is none. -/
theorem nextAfter_utc {expression : String} (h : parse expression = .ok schedule) :
    ∃ fields : Fields, fieldTexts expression = fields.list ∧
      ∀ (after : DateTime) (now : CivilTime), now.epochSeconds = after / nanosOfSecond →
        1970 ≤ now.date.year → now.date.year ≤ 9990 →
          (∀ next, schedule.nextAfter TimeZone.utc after = .ok next ↔
            IsLeast {t | after < t ∧ fields.NamesInstant t} next) ∧
          (schedule.nextAfter TimeZone.utc after = .error .noOccurrence ↔
            ∀ t, fields.NamesInstant t → t ≤ after) := by
  obtain ⟨fields, htexts, hholds⟩ := holds_of_parse h
  refine ⟨fields, htexts, fun after now hnow hfrom hto => ?_⟩
  obtain ⟨hearly, hlate⟩ := searched_of_years hnow hfrom hto
  have hset : {t | after < t ∧ schedule.Occurrence TimeZone.utc t} =
      {t | after < t ∧ fields.NamesInstant t} := by
    ext t
    exact and_congr_right fun hlt => occurrence_utc_iff hholds (hearly.trans hlt.le)
  have hleast {next : DateTime} (hnext : schedule.nextAfter TimeZone.utc after = .ok next) :
      IsLeast {t | after < t ∧ fields.NamesInstant t} next :=
    hset ▸ (nextAfter_first_iff hnext).mpr (inOrder_utc schedule after)
  have hnone {e : InvalidCronSchedule} (he : schedule.nextAfter TimeZone.utc after = .error e) :
      e = .noOccurrence ∧ ∀ t, fields.NamesInstant t → t ≤ after := by
    rw [nextAfter, dateOf_utc] at he
    obtain ⟨herror, hdays⟩ := search_error hholds.inDay (by omega) he
    refine ⟨herror, fun t ht => not_lt.mp fun hlt => ?_⟩
    obtain ⟨d, u, hle, hsoon, hu, hlater⟩ := exists_looked_at hholds hearly hlt
      ((occurrence_utc_iff hholds (hearly.trans hlt.le)).mpr ht)
    exact absurd (hdays d hle hsoon (by omega) u hu) (not_le.mpr hlater)
  cases hresult : schedule.nextAfter TimeZone.utc after with
  | ok found =>
    have hfound := hleast hresult
    refine ⟨fun next => ⟨?_, fun h => ?_⟩, by rintro ⟨⟩, fun h => ?_⟩
    · rintro ⟨⟩
      exact hfound
    · rw [hfound.unique h]
    · exact absurd (h found hfound.1.2) (not_le.mpr hfound.1.1)
  | error e =>
    obtain ⟨rfl, hempty⟩ := hnone hresult
    refine ⟨fun next => ⟨by rintro ⟨⟩, fun h => ?_⟩, fun _ => hempty, fun _ => rfl⟩
    exact absurd (hempty next h.1.2) (not_le.mpr h.1.1)

private def leapDays : ParsedSchedule where
  minute := ⟨[0], false⟩
  hour := ⟨[0], false⟩
  day := ⟨[29], false⟩
  month := ⟨[2], false⟩
  weekday := ⟨[0, 1, 2, 3, 4, 5, 6], true⟩

/-- The leap day after the one of 2096 is that of 2104: 2100 has none. -/
theorem nextAfter_utc_leapDay :
    ∃ fields : Fields, fieldTexts "0 0 29 2 *" = fields.list ∧
      IsLeast {t | 3981312000 * nanosOfSecond < t ∧ fields.NamesInstant t}
        (4233686400 * nanosOfSecond) := by
  have hschedule : parse "0 0 29 2 *" = .ok leapDays := by decide +kernel
  obtain ⟨fields, htexts, hnext⟩ := nextAfter_utc hschedule
  obtain ⟨hleast, -⟩ := hnext (3981312000 * nanosOfSecond) (.ofEpochSeconds 3981312000)
    (by decide +kernel) (by decide +kernel) (by decide +kernel)
  exact ⟨fields, htexts, (hleast _).mp (by decide +kernel)⟩

end ParsedSchedule

end Nibrunner.Cron

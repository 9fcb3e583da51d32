import Nibrunner.Cron.Schedule
import Nibrunner.ForStd.Calendar

/-!
# The days of a schedule in the calendar

`NaiveDate` finds the day and the month of a day by counting from the first of March, so that the
leap day comes last, and takes the leap days of an era away by divisions. On the days from the year
0 on that is the civil calendar: `day_ofDate`, `month_ofDate` and `weekday_ofDate` say so of the
day of a date.
-/

namespace Nibrunner.Cron.NaiveDate

open Calendar

/-- The day of a date. -/
def ofDate (date : Date) : NaiveDate := (date.number : ℤ) - epochDays

/-- The days from the first of January of the year 0 on have dates. -/
theorem exists_ofDate {d : ℤ} (hd : -719528 ≤ d) : ∃ date : Date, ofDate date = d := by
  have hnumber : (((d + epochDays).toNat : ℕ) : ℤ) - epochDays = d := by
    rw [epochDays]
    omega
  exact ⟨dateOf (d + epochDays).toNat, by rw [ofDate, number_dateOf, hnumber]⟩

/-- The year of a day among the four hundred of an era: the divisions take the leap days of the
years before it away again. -/
private theorem year_of_parts {c a b day : ℕ} (hc : c < 4) (ha : a < 25) (hb : b < 4)
    (hday : day ≤ 365) (hleap : day = 365 → b = 3 ∧ (a = 24 → c = 3)) {era : ℕ}
    (hera : era = 36524 * c + 1461 * a + 365 * b + day) :
    (era - era / 1460 + era / 36524 - era / 146096) / 365 = 100 * c + 4 * a + b := by
  have hrest : 1461 * a + 365 * b + day < 36524 ∨ c = 3 ∧ a = 24 ∧ b = 3 ∧ day = 365 := by omega
  obtain ⟨e, hfour, he, he'⟩ : ∃ e, era / 1460 = 25 * c + a + e ∧ e ≤ day ∧ day ≤ 364 + e := by
    have hsum : era = 1460 * (25 * c + a) + (24 * c + a + 365 * b + day) := by omega
    rw [hsum, Nat.mul_add_div (by decide)]
    by_cases hlate : 24 * c + a + 365 * b + day < 1460
    · refine ⟨0, by rw [Nat.div_eq_of_lt hlate], Nat.zero_le _, ?_⟩
      clear hsum hera hrest
      omega
    · refine ⟨1, ?_, ?_, hday⟩
      · rw [Nat.div_eq_of_lt_le (k := 1) (by omega) (by omega)]
      · clear hsum hera hrest hleap
        omega
  rcases hrest with hlt | ⟨rfl, rfl, rfl, rfl⟩
  · have hcentury : era / 36524 = c := by
      refine Nat.div_eq_of_lt_le ?_ ?_ <;> omega
    have hlast : era / 146096 = 0 := Nat.div_eq_of_lt (by omega)
    rw [hfour, hcentury, hlast]
    refine Nat.div_eq_of_lt_le ?_ ?_ <;> omega
  · rw [hera]

/-- The days of an era before a year that starts in March. -/
private def marchStart (year : ℕ) : ℕ := 365 * year + year / 4 - year / 100

/-- Where a day stands in its era, `dayFromMarch` finds it in its year. -/
private theorem dayFromMarch_eq {date : NaiveDate} (year : ℕ) {day : ℕ} (hyear : year < 400)
    (hday : day ≤ 365) (hleap : day = 365 → isLeap (year + 1) = true)
    (hera : ((date + 719468) % 146097).toNat = marchStart year + day) :
    date.dayFromMarch = day := by
  rw [isLeap, Bool.and_eq_true, Bool.or_eq_true, decide_eq_true_eq, decide_eq_true_eq,
    decide_eq_true_eq] at hleap
  have hparts : (marchStart year + day - (marchStart year + day) / 1460 +
      (marchStart year + day) / 36524 - (marchStart year + day) / 146096) / 365 = year := by
    have hyear' : year = 100 * (year / 100) + 4 * (year % 100 / 4) + year % 4 := by omega
    conv_rhs => rw [hyear']
    refine year_of_parts (by omega) (by omega) (by omega) hday (by omega) ?_
    rw [marchStart]
    omega
  rw [dayFromMarch]
  simp only [hera, hparts]
  rw [marchStart]
  omega

/-- The years of an era repeat. -/
private theorem yearStart_era (era year : ℕ) :
    yearStart (400 * era + year) = 146097 * era + yearStart year := by
  simp only [yearStart]
  omega

/-- The days before a date in the year that starts in March, of which 306 are of one civil year. -/
private def marchDay (leap : Bool) (month day : ℕ) : ℕ :=
  if month < 3 then monthStart leap month + day - 1 + 306
  else monthStart leap month + day - 1 - (yearLength leap - 306)

/-- Where a date stands in its year. -/
private theorem monthStart_bounds (leap : Bool) {month day : ℕ} (hmonth : 1 ≤ month)
    (hyear : month ≤ 12) (hle : day ≤ daysInMonth leap month) :
    (month < 3 → monthStart leap month + day ≤ yearLength leap - 306) ∧
      (3 ≤ month → yearLength leap - 306 ≤ monthStart leap month ∧
        monthStart leap month + day ≤ yearLength leap) := by
  have hwinter : ∀ leap : Bool, ∀ month < 3, 1 ≤ month →
      monthStart leap month + daysInMonth leap month ≤ yearLength leap - 306 := by decide
  have hsummer : ∀ leap : Bool, ∀ month < 13, 3 ≤ month →
      yearLength leap - 306 ≤ monthStart leap month ∧
        monthStart leap month + daysInMonth leap month ≤ yearLength leap := by decide
  constructor
  · intro hlt
    have := hwinter leap month hlt hmonth
    omega
  · intro hge
    have := hsummer leap month (by omega) hge
    omega

private theorem isLeap_era (era year : ℕ) : isLeap (400 * era + year) = isLeap year := by
  have h4 : (400 * era + year) % 4 = year % 4 := by omega
  have h100 : (400 * era + year) % 100 = year % 100 := by omega
  have h400 : (400 * era + year) % 400 = year % 400 := by omega
  rw [isLeap, isLeap, h4, h100, h400]

private theorem yearLength_cases (leap : Bool) :
    yearLength leap = 365 ∧ leap = false ∨ yearLength leap = 366 ∧ leap = true := by
  cases leap with
  | false => exact .inl ⟨rfl, rfl⟩
  | true => exact .inr ⟨rfl, rfl⟩

theorem dayFromMarch_ofDate (date : Date) :
    (ofDate date).dayFromMarch = marchDay (isLeap date.year) date.month date.day := by
  obtain ⟨hwinter, hsummer⟩ :=
    monthStart_bounds (isLeap date.year) date.month_pos date.month_le date.day_le
  obtain ⟨era, s, hyear, hs⟩ : ∃ era s, date.year = 400 * era + s ∧ s < 400 :=
    ⟨date.year / 400, date.year % 400, by omega, by omega⟩
  have hleap : isLeap date.year = isLeap s := by rw [hyear, isLeap_era]
  have hpos := date.day_pos
  have hnumber : date.number = 146097 * era + yearStart s +
      (monthStart (isLeap date.year) date.month + date.day - 1) := by
    rw [Date.number, hyear, yearStart_era]
    omega
  have hlength := yearStart_succ s
  have hcases := yearLength_cases (isLeap date.year)
  rw [← hleap] at hlength
  rw [ofDate, marchDay]
  by_cases hmonth : date.month < 3
  · rw [if_pos hmonth]
    have hlt := hwinter hmonth
    by_cases hfirst : s = 0
    · -- before March the day is of the year that started in the March of the era before
      have hstart : yearStart s = 0 := by
        rw [hfirst]
        rfl
      refine dayFromMarch_eq 399 (by omega) (by omega) (fun _ => by decide) ?_
      rw [hnumber, hstart, marchStart, epochDays]
      omega
    · have hstart : yearStart s = 365 * s + (s - 1) / 4 - (s - 1) / 100 + 1 := by
        rw [yearStart]
        omega
      refine dayFromMarch_eq (s - 1) (by omega) (by omega) (fun h => ?_) ?_
      · rw [Nat.sub_add_cancel (Nat.one_le_iff_ne_zero.mpr hfirst), ← hleap]
        rcases hcases with ⟨hshort, -⟩ | ⟨-, hlong⟩
        · omega
        · exact hlong
      · rw [hnumber, hstart, marchStart, epochDays]
        omega
  · rw [if_neg hmonth]
    obtain ⟨hge, hlt⟩ := hsummer (Nat.le_of_not_lt hmonth)
    have hnext : yearStart (s + 1) = 365 * (s + 1) + s / 4 - s / 100 + 1 := by
      rw [yearStart]
      omega
    refine dayFromMarch_eq s hs (by omega) (fun h => by omega) ?_
    rw [hnumber, marchStart, epochDays]
    omega

/-- What the months and days are of the days of a year that starts in March. -/
private theorem ofMarchDay (leap : Bool) {month day : ℕ} (hmonth : 1 ≤ month) (hyear : month ≤ 12)
    (hpos : 1 ≤ day) (hle : day ≤ daysInMonth leap month) :
    (5 * marchDay leap month day + 2) / 153 = (month + 9) % 12 ∧
      marchDay leap month day - (153 * ((month + 9) % 12) + 2) / 5 + 1 = day := by
  have hall : ∀ leap : Bool, ∀ month < 13, ∀ day < 32,
      1 ≤ month ∧ 1 ≤ day ∧ day ≤ daysInMonth leap month →
        (5 * marchDay leap month day + 2) / 153 = (month + 9) % 12 ∧
          marchDay leap month day - (153 * ((month + 9) % 12) + 2) / 5 + 1 = day := by
    decide +kernel
  have := daysInMonth_le leap month
  exact hall leap month (by omega) day (by omega) ⟨hmonth, hpos, hle⟩

theorem monthFromMarch_ofDate (date : Date) :
    (ofDate date).monthFromMarch = (date.month + 9) % 12 := by
  rw [monthFromMarch, dayFromMarch_ofDate]
  exact (ofMarchDay _ date.month_pos date.month_le date.day_pos date.day_le).1

/-- **The day of a date** is the day of the calendar. -/
theorem day_ofDate (date : Date) : (ofDate date).day = date.day := by
  rw [NaiveDate.day, monthFromMarch_ofDate, dayFromMarch_ofDate]
  exact (ofMarchDay _ date.month_pos date.month_le date.day_pos date.day_le).2

/-- **The month of a date** is the month of the calendar. -/
theorem month_ofDate (date : Date) : (ofDate date).month = date.month := by
  have hmonth := date.month_pos
  have hyear := date.month_le
  rw [NaiveDate.month, monthFromMarch_ofDate]
  split <;> omega

/-- **The day of the week of a date** is that of the calendar. -/
theorem weekday_ofDate (date : Date) : (ofDate date).weekday = date.weekday := by
  rw [NaiveDate.weekday, ofDate, Date.weekday, epochDays]
  omega

end Nibrunner.Cron.NaiveDate

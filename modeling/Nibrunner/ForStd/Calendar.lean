import Mathlib.Algebra.Order.Ring.Nat
import Mathlib.Data.List.GetD
import Mathlib.Data.List.Range
import Mathlib.Order.Monotone.Basic

/-!
# The civil calendar

The proleptic Gregorian calendar from the year 0 on. A `Date` is a day of a month of a year that
has that day, and `Date.number` counts it from the first of January of the year 0, one way only
(`Date.number_injective`); `dateOf` finds the date of a number (`number_dateOf`). A `CivilTime` is a
second of a day, counted from 1970 (`epochSeconds`), and `text` writes it down as ISO 8601 does, up
to its seconds: different seconds have different characters (`chars_injOn`).

A day of a month, and a day of the week in a month, come again within eight years of every day,
also where a century has no leap day (`exists_same_day`, `exists_same_weekday`).
-/

namespace Calendar

/-! ### Years -/

def isLeap (year : ℕ) : Bool := year % 4 = 0 && (year % 100 ≠ 0 || year % 400 = 0)

def yearLength (leap : Bool) : ℕ := if leap then 366 else 365

/-- The days before a year, from the year 0 on. -/
def yearStart (year : ℕ) : ℕ :=
  365 * year + (year + 3) / 4 - (year + 99) / 100 + (year + 399) / 400

theorem yearStart_succ (year : ℕ) :
    yearStart (year + 1) = yearStart year + yearLength (isLeap year) := by
  have h4 : (year + 1 + 3) / 4 = (year + 3) / 4 + if year % 4 = 0 then 1 else 0 := by
    split <;> omega
  have h100 : (year + 1 + 99) / 100 = (year + 99) / 100 + if year % 100 = 0 then 1 else 0 := by
    split <;> omega
  have h400 : (year + 1 + 399) / 400 = (year + 399) / 400 + if year % 400 = 0 then 1 else 0 := by
    split <;> omega
  have hless : (year + 99) / 100 ≤ (year + 3) / 4 := by omega
  rw [yearStart, yearStart, yearLength, isLeap, h4, h100, h400]
  by_cases hfour : year % 4 = 0
  · by_cases hcentury : year % 100 = 0
    · by_cases hera : year % 400 = 0 <;> simp [hfour, hcentury, hera] <;> omega
    · have hera : year % 400 ≠ 0 := by omega
      simp [hfour, hcentury, hera]
      omega
  · have hcentury : year % 100 ≠ 0 := by omega
    have hera : year % 400 ≠ 0 := by omega
    simp [hfour, hcentury, hera]
    omega

theorem yearStart_strictMono : StrictMono yearStart := by
  refine strictMono_nat_of_lt_succ fun year => ?_
  rw [yearStart_succ, yearLength]
  split <;> omega

/-- Eight years have no more than two leap days. -/
theorem yearStart_add_le (year : ℕ) {years : ℕ} (hfew : years ≤ 8) :
    yearStart (year + years) ≤ yearStart year + 365 * years + 2 := by
  have hfour : (year + years + 3) / 4 ≤ (year + 3) / 4 + 2 := by omega
  have hless : (year + 99) / 100 ≤ (year + 3) / 4 := by omega
  have hless' : (year + years + 99) / 100 ≤ (year + years + 3) / 4 := by omega
  have hcentury : (year + 99) / 100 ≤ (year + years + 99) / 100 := by omega
  have hera : (year + years + 399) / 400 + (year + 99) / 100 ≤
      (year + 399) / 400 + (year + years + 99) / 100 := by omega
  rw [yearStart, yearStart]
  omega

/-- A leap year follows within seven years, or within eight on a leap year. -/
theorem exists_isLeap (year : ℕ) :
    ∃ years, 1 ≤ years ∧ years ≤ 8 ∧ isLeap (year + years) = true ∧
      (years = 8 → isLeap year = true) := by
  have hleap (year : ℕ) : isLeap year = true ↔
      year % 4 = 0 ∧ (year % 100 ≠ 0 ∨ year % 400 = 0) := by
    simp [isLeap]
  simp only [hleap]
  by_cases hcentury : (year + (4 - year % 4)) % 100 = 0
  · exact ⟨8 - year % 4, by omega, by omega, by omega, by omega⟩
  · exact ⟨4 - year % 4, by omega, by omega, by omega, by omega⟩

/-- The year of a day: the year at its place among years of mean length, or one beside it. -/
def yearOf (number : ℕ) : ℕ :=
  let near := 400 * number / 146097
  if number < yearStart near then near - 1
  else if yearStart (near + 1) ≤ number then near + 1
  else near

/-- A year starts within two days of its place among years of mean length. -/
private theorem yearStart_near (year : ℕ) :
    146097 * year ≤ 400 * yearStart year + 800 ∧
      400 * yearStart year ≤ 146097 * year + 800 := by
  have hfour : year ≤ 4 * ((year + 3) / 4) ∧ 4 * ((year + 3) / 4) ≤ year + 3 := by omega
  have hcentury : year ≤ 100 * ((year + 99) / 100) ∧ 100 * ((year + 99) / 100) ≤ year + 99 := by
    omega
  have hera : year ≤ 400 * ((year + 399) / 400) ∧ 400 * ((year + 399) / 400) ≤ year + 399 := by
    omega
  rw [yearStart]
  omega

theorem yearOf_bounds (number : ℕ) :
    yearStart (yearOf number) ≤ number ∧ number < yearStart (yearOf number + 1) := by
  rw [yearOf]
  have hnear : 146097 * (400 * number / 146097) ≤ 400 * number ∧
      400 * number < 146097 * (400 * number / 146097) + 146097 := by omega
  generalize 400 * number / 146097 = near at hnear
  obtain ⟨hlow, hhigh⟩ := yearStart_near (near - 1)
  obtain ⟨hlow', hhigh'⟩ := yearStart_near (near + 1 + 1)
  have hzero : yearStart 0 = 0 := rfl
  split
  · rename_i hearly
    have hpos : near ≠ 0 := by
      rintro rfl
      omega
    rw [Nat.sub_add_cancel (Nat.one_le_iff_ne_zero.mpr hpos)]
    omega
  · split
    · omega
    · omega

theorem yearOf_eq {number year : ℕ} (hfrom : yearStart year ≤ number)
    (hto : number < yearStart (year + 1)) : yearOf number = year := by
  obtain ⟨hstart, hstop⟩ := yearOf_bounds number
  have hle := yearStart_strictMono.lt_iff_lt.mp (Nat.lt_of_le_of_lt hstart hto)
  have hge := yearStart_strictMono.lt_iff_lt.mp (Nat.lt_of_le_of_lt hfrom hstop)
  omega

/-! ### Months -/

def monthLengths (leap : Bool) : List ℕ :=
  [31, if leap then 29 else 28, 31, 30, 31, 30, 31, 31, 30, 31, 30, 31]

def daysInMonth (leap : Bool) (month : ℕ) : ℕ := (monthLengths leap).getD (month - 1) 0

theorem daysInMonth_le (leap : Bool) (month : ℕ) : daysInMonth leap month ≤ 31 := by
  have hall : ∀ leap : Bool, ∀ i < 12, (monthLengths leap).getD i 0 ≤ 31 := by decide
  by_cases hmonth : month - 1 < 12
  · exact hall leap _ hmonth
  · rw [daysInMonth, List.getD_eq_default _ _ (Nat.le_of_not_lt hmonth)]
    exact Nat.zero_le _

/-- The days before a month of a year. -/
def monthStart (leap : Bool) (month : ℕ) : ℕ := ((monthLengths leap).take (month - 1)).sum

/-- The month of a day of a year, counted from 0. -/
def monthOf (leap : Bool) (day : ℕ) : ℕ :=
  ((List.range' 1 12).filter fun month => monthStart leap month ≤ day).length

theorem monthOf_bounds (leap : Bool) {day : ℕ} (hday : day < yearLength leap) :
    1 ≤ monthOf leap day ∧ monthOf leap day ≤ 12 ∧ monthStart leap (monthOf leap day) ≤ day ∧
      day < monthStart leap (monthOf leap day) + daysInMonth leap (monthOf leap day) := by
  have hall : ∀ leap : Bool, ∀ day < 366, day < yearLength leap →
      1 ≤ monthOf leap day ∧ monthOf leap day ≤ 12 ∧ monthStart leap (monthOf leap day) ≤ day ∧
        day < monthStart leap (monthOf leap day) + daysInMonth leap (monthOf leap day) := by
    decide +kernel
  refine hall leap day ?_ hday
  rw [yearLength] at hday
  split at hday <;> omega

/-- The months follow one another within the year. -/
theorem monthStart_add_le (leap : Bool) {month later : ℕ} (hmonth : 1 ≤ month)
    (hlater : month < later) (hyear : later ≤ 12) :
    monthStart leap month + daysInMonth leap month ≤ monthStart leap later := by
  have hall : ∀ leap : Bool, ∀ later < 13, ∀ month < later, 1 ≤ month →
      monthStart leap month + daysInMonth leap month ≤ monthStart leap later := by
    decide
  exact hall leap later (by omega) month hlater hmonth

theorem monthStart_add_le_yearLength (leap : Bool) {month : ℕ} (hmonth : 1 ≤ month)
    (hyear : month ≤ 12) : monthStart leap month + daysInMonth leap month ≤ yearLength leap := by
  have hall : ∀ leap : Bool, ∀ month < 13, 1 ≤ month →
      monthStart leap month + daysInMonth leap month ≤ yearLength leap := by
    decide
  exact hall leap month (by omega) hmonth

/-! ### Dates -/

/-- A day of a month of a year. -/
structure Date where
  year : ℕ
  month : ℕ
  day : ℕ
  month_pos : 1 ≤ month
  month_le : month ≤ 12
  day_pos : 1 ≤ day
  day_le : day ≤ daysInMonth (isLeap year) month
deriving DecidableEq

namespace Date

/-- The days before a date, from the first of January of the year 0 on. -/
def number (date : Date) : ℕ :=
  yearStart date.year + (monthStart (isLeap date.year) date.month + (date.day - 1))

/-- Days from Sunday; the first of January of the year 0 was a Saturday. -/
def weekday (date : Date) : ℕ := (date.number + 6) % 7

theorem number_bounds (date : Date) :
    yearStart date.year ≤ date.number ∧ date.number < yearStart (date.year + 1) := by
  have hmonth := monthStart_add_le_yearLength (isLeap date.year) date.month_pos date.month_le
  have hpos := date.day_pos
  have hle := date.day_le
  rw [yearStart_succ, number]
  omega

/-- Different dates have different numbers. -/
theorem number_injective : Function.Injective number := by
  intro a b h
  have hyear : a.year = b.year := by
    obtain ⟨hfrom, hto⟩ := a.number_bounds
    obtain ⟨hfrom', hto'⟩ := b.number_bounds
    rw [← yearOf_eq hfrom hto, h, yearOf_eq hfrom' hto']
  obtain ⟨year, month, day, hmonth, hmonth', hday, hday'⟩ := a
  obtain ⟨year', month', day', hmonth₂, hmonth₂', hday₂, hday₂'⟩ := b
  obtain rfl : year = year' := hyear
  simp only [number] at h
  have hsame : month = month' := by
    rcases Nat.lt_trichotomy month month' with hlt | heq | hgt
    · have := monthStart_add_le (isLeap year) hmonth hlt hmonth₂'
      omega
    · exact heq
    · have := monthStart_add_le (isLeap year) hmonth₂ hgt hmonth'
      omega
  subst hsame
  obtain rfl : day = day' := by omega
  rfl

/-! ### What comes again -/

/-- The days of the seven years after a day come within eight years of it. -/
private theorem number_of_year {now date : Date} {years : ℕ} (hpos : 1 ≤ years) (hfew : years ≤ 7)
    (hyear : date.year = now.year + years) :
    now.number < date.number ∧ date.number < now.number + 2924 := by
  obtain ⟨hstart, hstop⟩ := now.number_bounds
  obtain ⟨hstart', hstop'⟩ := date.number_bounds
  rw [hyear] at hstart' hstop'
  have hnext := yearStart_strictMono.monotone (Nat.add_le_add_left hpos now.year)
  have hlength := yearStart_add_le now.year (Nat.succ_le_succ hfew)
  rw [Nat.succ_eq_add_one, ← Nat.add_assoc] at hlength
  omega

/-- A leap day. -/
private def leapDay (year : ℕ) (hleap : isLeap year = true) : Date where
  year := year
  month := 2
  day := 29
  month_pos := by decide
  month_le := by decide
  day_pos := by decide
  day_le := by rw [hleap]; decide

private theorem number_leapDay (year : ℕ) (hleap : isLeap year = true) :
    (leapDay year hleap).number = yearStart year + 59 := by
  simp only [number, leapDay, hleap]
  rfl

/-- A day of a month comes within eight years, also the leap day across a century. -/
theorem exists_same_day (now date : Date) :
    ∃ near : Date, near.month = date.month ∧ near.day = date.day ∧
      now.number < near.number ∧ near.number < now.number + 2924 := by
  by_cases hday : date.day ≤ daysInMonth (isLeap (now.year + 1)) date.month
  · exact ⟨⟨now.year + 1, date.month, date.day, date.month_pos, date.month_le, date.day_pos, hday⟩,
      rfl, rfl, number_of_year le_rfl (by decide) rfl⟩
  · -- it is the leap day
    obtain ⟨hmonth, hleap⟩ : date.month = 2 ∧ date.day = 29 := by
      have hall : ∀ leap leap' : Bool, ∀ month < 13, 1 ≤ month ∧
          daysInMonth leap month < daysInMonth leap' month →
            month = 2 ∧ daysInMonth leap month = 28 ∧ daysInMonth leap' month = 29 := by
        decide
      have hlt := Nat.lt_of_lt_of_le (Nat.lt_of_not_le hday) date.day_le
      have := hall _ _ date.month (Nat.lt_succ_of_le date.month_le) ⟨date.month_pos, hlt⟩
      have := date.day_le
      omega
    rw [hmonth, hleap]
    obtain ⟨years, hpos, hfew, hyear, height⟩ := exists_isLeap now.year
    by_cases hseven : years ≤ 7
    · exact ⟨leapDay _ hyear, rfl, rfl, number_of_year hpos hseven rfl⟩
    · obtain rfl : years = 8 := by omega
      have hnumber := number_leapDay _ hyear
      have hnumber' := number_leapDay _ (height rfl)
      have hlength := yearStart_add_le now.year le_rfl
      obtain ⟨hstart, -⟩ := now.number_bounds
      by_cases hpast : now.number < yearStart now.year + 59
      · exact ⟨leapDay _ (height rfl), rfl, rfl, by omega, by omega⟩
      · have hlater := yearStart_strictMono.monotone (show now.year + 1 ≤ now.year + 8 by omega)
        have hend := now.number_bounds.2
        exact ⟨leapDay _ hyear, rfl, rfl, by omega, by omega⟩

/-- A day of the week comes in the same month of the next year. -/
theorem exists_same_weekday (now date : Date) :
    ∃ near : Date, near.month = date.month ∧ near.weekday = date.weekday ∧
      now.number < near.number ∧ near.number < now.number + 2924 := by
  have hweek : ∀ leap : Bool, ∀ month < 13, 1 ≤ month → 7 ≤ daysInMonth leap month := by decide
  have hlong := hweek (isLeap (now.year + 1)) date.month (Nat.lt_succ_of_le date.month_le)
    date.month_pos
  have hday (d : ℕ) : ∃ near : Date, near.year = now.year + 1 ∧ near.month = date.month ∧
      near.number = yearStart (now.year + 1) +
        (monthStart (isLeap (now.year + 1)) date.month + d % 7) :=
    ⟨⟨now.year + 1, date.month, d % 7 + 1, date.month_pos, date.month_le, by omega, by omega⟩,
      rfl, rfl, rfl⟩
  obtain ⟨first, -, -, hfirst⟩ := hday 0
  obtain ⟨near, hyear, hmonth, hnear⟩ := hday (date.weekday + 7 - first.weekday)
  refine ⟨near, hmonth, ?_, number_of_year le_rfl (by decide) hyear⟩
  have hsum : near.number = first.number + (date.weekday + 7 - first.weekday) % 7 := by
    rw [hnear, hfirst, Nat.zero_mod]
    omega
  simp only [weekday] at hsum ⊢
  omega

end Date

/-- The days of its year before a day. -/
def dayOfYear (number : ℕ) : ℕ := number - yearStart (yearOf number)

theorem dayOfYear_lt (number : ℕ) : dayOfYear number < yearLength (isLeap (yearOf number)) := by
  have hbounds := yearOf_bounds number
  rw [yearStart_succ] at hbounds
  rw [dayOfYear]
  omega

/-- The date of a number of days. -/
def dateOf (number : ℕ) : Date where
  year := yearOf number
  month := monthOf (isLeap (yearOf number)) (dayOfYear number)
  day := dayOfYear number -
    monthStart (isLeap (yearOf number)) (monthOf (isLeap (yearOf number)) (dayOfYear number)) + 1
  month_pos := (monthOf_bounds _ (dayOfYear_lt number)).1
  month_le := (monthOf_bounds _ (dayOfYear_lt number)).2.1
  day_pos := Nat.le_add_left _ _
  day_le := by
    obtain ⟨-, -, hstart, hstop⟩ := monthOf_bounds _ (dayOfYear_lt number)
    omega

@[simp] theorem number_dateOf (number : ℕ) : (dateOf number).number = number := by
  obtain ⟨-, -, hstart, -⟩ := monthOf_bounds _ (dayOfYear_lt number)
  have hbounds := yearOf_bounds number
  simp only [Date.number, dateOf]
  rw [dayOfYear] at hstart ⊢
  omega

/-! ### Seconds -/

/-- The days before 1970-01-01. -/
def epochDays : ℕ := 719528

/-- A second of a day. -/
structure CivilTime where
  date : Date
  hour : ℕ
  minute : ℕ
  second : ℕ
  hour_lt : hour < 24
  minute_lt : minute < 60
  second_lt : second < 60
deriving DecidableEq

namespace CivilTime

/-- The seconds since 1970-01-01T00:00:00. -/
def epochSeconds (time : CivilTime) : ℤ :=
  ((time.date.number : ℤ) - epochDays) * 86400 + time.hour * 3600 + time.minute * 60 + time.second

theorem epochSeconds_injective : Function.Injective epochSeconds := by
  rintro ⟨date, hour, minute, second, hhour, hminute, hsecond⟩
    ⟨date', hour', minute', second', hhour', hminute', hsecond'⟩ h
  simp only [epochSeconds] at h
  have hnumber : date.number = date'.number := by omega
  obtain rfl := Date.number_injective hnumber
  obtain rfl : hour = hour' := by omega
  obtain rfl : minute = minute' := by omega
  obtain rfl : second = second' := by omega
  rfl

/-- The seconds of the years of four digits, 0000 to 9999. -/
def InYears (seconds : ℤ) : Prop := -62167219200 ≤ seconds ∧ seconds < 253402300800

instance (seconds : ℤ) : Decidable (InYears seconds) :=
  inferInstanceAs (Decidable (-62167219200 ≤ seconds ∧ seconds < 253402300800))

theorem inYears_epochSeconds_iff (time : CivilTime) :
    InYears time.epochSeconds ↔ time.date.year < 10000 := by
  obtain ⟨hfrom, hto⟩ := time.date.number_bounds
  have hlast : yearStart 10000 = 3652425 := by decide
  have hhour := time.hour_lt
  have hminute := time.minute_lt
  have hsecond := time.second_lt
  rw [InYears, epochSeconds, epochDays]
  constructor
  · intro h
    rw [← yearStart_strictMono.lt_iff_lt, hlast]
    omega
  · intro h
    have hyear := yearStart_strictMono.monotone (Nat.succ_le_of_lt h)
    rw [Nat.succ_eq_add_one, hlast] at hyear
    omega

/-- The time of a second from the year 0 on. -/
def ofEpochSeconds (seconds : ℤ) : CivilTime where
  date := dateOf (seconds / 86400 + epochDays).toNat
  hour := (seconds % 86400 / 3600).toNat
  minute := (seconds % 3600 / 60).toNat
  second := (seconds % 60).toNat
  hour_lt := by omega
  minute_lt := by omega
  second_lt := by omega

theorem epochSeconds_ofEpochSeconds {seconds : ℤ} (h : -62167219200 ≤ seconds) :
    (ofEpochSeconds seconds).epochSeconds = seconds := by
  simp only [epochSeconds, ofEpochSeconds, number_dateOf, epochDays]
  omega

end CivilTime

/-! ### Texts -/

/-- The last decimal digits of a number. -/
def digits : ℕ → ℕ → List Char
  | 0, _ => []
  | width + 1, n => digits width (n / 10) ++ [Nat.digitChar (n % 10)]

@[simp] theorem length_digits (width n : ℕ) : (digits width n).length = width := by
  induction width generalizing n with
  | zero => rfl
  | succ width ih => rw [digits, List.length_append, ih]; rfl

/-- A character that is a decimal digit. -/
def IsDigit (c : Char) : Prop := 48 ≤ c.toNat ∧ c.toNat ≤ 57

theorem isDigit_digitChar {d : ℕ} (hd : d < 10) : IsDigit (Nat.digitChar d) := by
  have hall : ∀ d < 10, 48 ≤ (Nat.digitChar d).toNat ∧ (Nat.digitChar d).toNat ≤ 57 := by decide
  exact hall d hd

theorem isDigit_of_mem_digits {width n : ℕ} {c : Char} (hc : c ∈ digits width n) : IsDigit c := by
  induction width generalizing n with
  | zero => cases hc
  | succ width ih =>
    rcases List.mem_append.mp hc with hc | hc
    · exact ih hc
    · rw [List.mem_singleton.mp hc]
      exact isDigit_digitChar (Nat.mod_lt n (by decide))

/-- Numbers of as many digits are told apart by them. -/
theorem digits_injOn {width n m : ℕ} (hn : n < 10 ^ width) (hm : m < 10 ^ width)
    (h : digits width n = digits width m) : n = m := by
  induction width generalizing n m with
  | zero => omega
  | succ width ih =>
    rw [Nat.pow_succ] at hn hm
    obtain ⟨hfront, hlast⟩ := List.append_inj h (by simp)
    have hdiv := ih (Nat.div_lt_of_lt_mul (by omega)) (Nat.div_lt_of_lt_mul (by omega)) hfront
    have hchar : ∀ a < 10, ∀ b < 10, Nat.digitChar a = Nat.digitChar b → a = b := by decide
    have hmod := hchar (n % 10) (Nat.mod_lt n (by decide)) (m % 10) (Nat.mod_lt m (by decide))
      (List.singleton_inj.mp hlast)
    omega

namespace CivilTime

/-- The characters of a time: `0000-01-01T00:00:00`. -/
def chars (time : CivilTime) : List Char :=
  digits 4 time.date.year ++ '-' :: (digits 2 time.date.month ++ '-' :: (digits 2 time.date.day ++
    'T' :: (digits 2 time.hour ++ ':' :: (digits 2 time.minute ++ ':' :: digits 2 time.second))))

def text (time : CivilTime) : String := String.ofList time.chars

@[simp] theorem length_chars (time : CivilTime) : time.chars.length = 19 := by
  simp [chars]

theorem ascii_chars {time : CivilTime} {c : Char} (hc : c ∈ time.chars) : c.toNat < 128 := by
  have hdigit : ∀ {width n : ℕ}, c ∈ digits width n → c.toNat < 128 := fun h => by
    have := (isDigit_of_mem_digits h).2
    omega
  simp only [chars, List.mem_append, List.mem_cons] at hc
  rcases hc with hc | rfl | hc | rfl | hc | rfl | hc | rfl | hc | rfl | hc
  all_goals first | exact hdigit hc | decide

/-- Times of the years of four digits are told apart by their texts. -/
theorem chars_injOn {a b : CivilTime} (ha : a.date.year < 10000) (hb : b.date.year < 10000)
    (h : a.chars = b.chars) : a = b := by
  have hmonth := a.date.month_le
  have hmonth' := b.date.month_le
  have hday := a.date.day_le.trans (daysInMonth_le _ _)
  have hday' := b.date.day_le.trans (daysInMonth_le _ _)
  -- field by field: each has its number of digits, and the same mark behind it
  obtain ⟨hyears, h⟩ := List.append_inj h (by simp)
  obtain ⟨hmonths, h⟩ := List.append_inj (List.cons.inj h).2 (by simp)
  obtain ⟨hdays, h⟩ := List.append_inj (List.cons.inj h).2 (by simp)
  obtain ⟨hhours, h⟩ := List.append_inj (List.cons.inj h).2 (by simp)
  obtain ⟨hminutes, h⟩ := List.append_inj (List.cons.inj h).2 (by simp)
  have hseconds := (List.cons.inj h).2
  have hyear : a.date.year = b.date.year := digits_injOn ha hb hyears
  have hmonth : a.date.month = b.date.month := digits_injOn (by omega) (by omega) hmonths
  have hday : a.date.day = b.date.day := digits_injOn (by omega) (by omega) hdays
  have hhour := digits_injOn (Nat.lt_trans a.hour_lt (by decide))
    (Nat.lt_trans b.hour_lt (by decide)) hhours
  have hminute := digits_injOn (Nat.lt_trans a.minute_lt (by decide))
    (Nat.lt_trans b.minute_lt (by decide)) hminutes
  have hsecond := digits_injOn (Nat.lt_trans a.second_lt (by decide))
    (Nat.lt_trans b.second_lt (by decide)) hseconds
  obtain ⟨⟨year, month, day⟩, hour, minute, second⟩ := a
  obtain ⟨⟨year', month', day'⟩, hour', minute', second'⟩ := b
  simp_all

end CivilTime

end Calendar

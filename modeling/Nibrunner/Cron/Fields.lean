import Nibrunner.Cron.CivilDays

/-!
# What the fields of a schedule name

Each part of a field is for a span of numbers, from a first to a last in steps: `InWords`, `Ranges`
and `Spans` say which, and the field names what one of its parts does (`Field.parse_spec`). Seven is
Sunday as zero is, and of the two ways to name a day both have to where one is open:
`ParsedSchedule.holds_of_parse`.
-/

namespace Nibrunner.Cron

open Except TextLines

/-! ### Spans -/

/-- Numbers from a first to a last, in steps. -/
structure Span where
  first : ℕ
  last : ℕ
  step : ℕ

/-- The number is one of the span. -/
def Span.Has (span : Span) (n : ℕ) : Prop :=
  span.first ≤ n ∧ n ≤ span.last ∧ span.step ∣ n - span.first

/-- The numbers of a span, one after the other. -/
def Span.list (span : Span) : List ℕ :=
  List.range' span.first ((span.last - span.first) / span.step + 1) span.step

/-- **A span has the numbers of its list.** -/
theorem Span.mem_list {span : Span} {n : ℕ} (hle : span.first ≤ span.last)
    (hpos : 0 < span.step) : n ∈ span.list ↔ span.Has n := by
  rw [Span.list, List.mem_range', Span.Has]
  constructor
  · rintro ⟨i, hi, rfl⟩
    have hmul : span.step * i ≤ span.last - span.first :=
      (Nat.mul_le_mul_left _ (Nat.le_of_lt_succ hi)).trans (Nat.mul_div_le _ _)
    exact ⟨Nat.le_add_right _ _, by omega, by rw [Nat.add_sub_cancel_left]; exact ⟨i, rfl⟩⟩
  · rintro ⟨hfirst, hlast, i, hi⟩
    refine ⟨i, Nat.lt_succ_of_le ?_, by omega⟩
    rw [Nat.le_div_iff_mul_le hpos, Nat.mul_comm, ← hi]
    omega

namespace Field

variable {minimum maximum n : ℕ} {names : List String} {word text part : List Char}

/-- The word is a name, or the first three letters of one, in any case. -/
def Calls (word : List Char) (name : String) : Prop :=
  word.map Char.toLower = name.toList.map Char.toLower ∨
    word.map Char.toLower = (name.toList.take 3).map Char.toLower

/-- The word is for a number of the field: by the first name it is, from the least number on, or in
digits. -/
def InWords (minimum maximum : ℕ) (names : List String) (word : List Char) (n : ℕ) : Prop :=
  minimum ≤ n ∧ n ≤ maximum ∧
    ((∃ i name, names[i]? = some name ∧ Calls word name ∧ n = i + minimum ∧
        ∀ j < i, ∀ other, names[j]? = some other → ¬Calls word other) ∨
      (∀ name ∈ names, ¬Calls word name) ∧ parseI8 word = some (n : ℤ))

/-- The text is for the numbers from a first to a last; with a step, a single number is where they
start. -/
inductive Ranges (minimum maximum : ℕ) (names : List String) (stepped : Bool) :
    List Char → ℕ → ℕ → Prop where
  | all : Ranges minimum maximum names stepped ['*'] minimum maximum
  | single {word : List Char} {n : ℕ} (hstar : word ≠ ['*']) (hminus : '-' ∉ word.tail)
    (h : InWords minimum maximum names word n) :
    Ranges minimum maximum names stepped word n (if stepped then maximum else n)
  | between {word word' : List Char} {first last : ℕ} (hminus : '-' ∉ word)
    (hfirst : InWords minimum maximum names word first)
    (hlast : InWords minimum maximum names word' last) :
    Ranges minimum maximum names stepped (word ++ '-' :: word') first last

/-- The part of a field is for the span, with its step behind a slash or in steps of one. -/
def Spans (minimum maximum : ℕ) (names : List String) (part : List Char) (span : Span) : Prop :=
  span.first ≤ span.last ∧
    (('/' ∉ part ∧ span.step = 1 ∧
        Ranges minimum maximum names false part span.first span.last) ∨
      ∃ text step, part = text ++ '/' :: step ∧ '/' ∉ text ∧ parseI8 step = some (span.step : ℤ) ∧
        0 < span.step ∧ Ranges minimum maximum names true text span.first span.last)

theorem lt_of_parseDecimal? {bound : ℕ} (h : parseDecimal? bound text = some n) : n < bound := by
  rw [parseDecimal?] at h
  generalize (if text.head? = some '+' then text.tail else text) = digits at h
  split at h
  · cases h
  · split at h
    · next hlt => exact Option.some.inj h ▸ hlt
    · cases h

theorem bounds_of_parseI8 {k : ℤ} (h : parseI8 word = some k) : -128 ≤ k ∧ k < 128 := by
  have hlt {bound : ℕ} {text : List Char} {k : ℤ}
      (h : (do let a ← parseDecimal? bound text; pure (a : ℤ)) = some k) : 0 ≤ k ∧ k < bound := by
    obtain ⟨m, hm, ⟨⟩⟩ := Option.bind_eq_some_iff.mp h
    exact ⟨Int.natCast_nonneg m, Int.ofNat_lt.mpr (lt_of_parseDecimal? hm)⟩
  rw [parseI8] at h
  split at h
  · split at h
    · cases h
    · obtain ⟨m, hm, rfl⟩ := Option.map_eq_some_iff.mp h
      have hbounds := hlt hm
      omega
  · obtain ⟨m, hm, rfl⟩ := Option.map_eq_some_iff.mp h
    have hbounds := hlt hm
    omega

theorem number_eq_some (hmax : maximum < 128) :
    number minimum maximum names word = some n ↔ InWords minimum maximum names word n := by
  have hcalls (name : String) : (eqIgnoreAsciiCase word name.toList ||
      eqIgnoreAsciiCase word (name.toList.take 3)) = true ↔ Calls word name := by
    simp [eqIgnoreAsciiCase, Calls]
  rw [number, InWords, Option.filter_eq_some_iff, Bool.and_eq_true, decide_eq_true_eq,
    decide_eq_true_eq, and_comm, and_assoc]
  refine and_congr_right fun hmin => and_congr_right fun hle => ?_
  constructor
  · intro h
    split at h
    · next i hfound =>
      obtain rfl := Option.some.inj h
      obtain ⟨hi, hname, hfirst⟩ := List.findIdx?_eq_some_iff_getElem.mp hfound
      refine .inl ⟨i, _, List.getElem?_eq_getElem hi, (hcalls _).mp hname, rfl,
        fun j hj other hother hcalled => hfirst j hj ?_⟩
      obtain ⟨hlt, rfl⟩ := List.getElem?_eq_some_iff.mp hother
      exact (hcalls _).mpr hcalled
    · next hnone =>
      obtain ⟨k, hk, rfl⟩ := Option.map_eq_some_iff.mp h
      have hbounds := bounds_of_parseI8 hk
      obtain ⟨m, rfl⟩ := Int.eq_ofNat_of_zero_le (show 0 ≤ k by omega)
      have hm : ((m : ℤ) % 2 ^ 32).toNat = m := by omega
      rw [hm]
      refine .inr ⟨fun name hname hcalled => ?_, hk⟩
      have hnot := List.findIdx?_eq_none_iff.mp hnone name hname
      rw [(hcalls name).mpr hcalled] at hnot
      cases hnot
  · rintro (⟨i, name, hname, hcalled, rfl, hfirst⟩ | ⟨hnot, hdigits⟩)
    · obtain ⟨hi, rfl⟩ := List.getElem?_eq_some_iff.mp hname
      rw [List.findIdx?_eq_some_iff_getElem.mpr ⟨hi, (hcalls _).mpr hcalled, fun j hj hother =>
        hfirst j hj _ (List.getElem?_eq_getElem _) ((hcalls _).mp hother)⟩]
    · rw [List.findIdx?_eq_none_iff.mpr fun name hname => Bool.not_eq_true _ |>.mp fun hcalled =>
        hnot name hname ((hcalls name).mp hcalled)]
      dsimp only
      rw [hdigits, Option.map_some]
      congr 1
      omega

theorem not_inWords_nil (hnames : "" ∉ names) : ¬InWords minimum maximum names [] n := by
  rintro ⟨-, -, ⟨i, name, hname, hcalled, -⟩ | ⟨-, ⟨⟩⟩⟩
  have hempty : name.toList = [] := by
    rcases hcalled with hcalled | hcalled
    · exact List.map_eq_nil_iff.mp hcalled.symm
    · simpa using hcalled.symm
  exact hnames (String.toList_eq_nil_iff.mp hempty ▸ List.mem_of_getElem? hname)

theorem range_eq_some (hmax : maximum < 128) (hnames : "" ∉ names) {stepped : Bool}
    {first last : ℕ} :
    range (number minimum maximum names) minimum maximum stepped text = some (first, last) ↔
      Ranges minimum maximum names stepped text first last := by
  have hsingle (hstar : text ≠ ['*']) (hminus : '-' ∉ text.tail) :
      (number minimum maximum names text).map
          (fun start => (start, if stepped then maximum else start)) = some (first, last) ↔
        Ranges minimum maximum names stepped text first last := by
    rw [Option.map_eq_some_iff]
    constructor
    · rintro ⟨n, hn, heq⟩
      obtain ⟨rfl, rfl⟩ := Prod.mk.inj heq
      exact .single hstar hminus ((number_eq_some hmax).mp hn)
    · intro h
      cases h with
      | all => exact absurd rfl hstar
      | single _ _ h => exact ⟨_, (number_eq_some hmax).mpr h, rfl⟩
      | @between word _ _ _ hword hfirst hlast =>
        cases word with
        | nil => exact (not_inWords_nil hnames hfirst).elim
        | cons c word => exact absurd (List.mem_append_right word List.mem_cons_self) hminus
  rw [range]
  split
  · next hstar =>
    rw [Option.some.injEq, Prod.mk.injEq]
    constructor
    · rintro ⟨rfl, rfl⟩
      exact hstar ▸ .all
    · intro h
      cases h with
      | all => exact ⟨rfl, rfl⟩
      | single hne => exact absurd hstar hne
      | @between word word' =>
        have hmem : '-' ∈ word ++ '-' :: word' := List.mem_append_right _ List.mem_cons_self
        rw [hstar] at hmem
        exact absurd hmem (by decide)
  · next hstar =>
    split
    · next hminus =>
      rw [Bool.and_eq_true, Bool.not_eq_true', List.contains_eq_mem, decide_eq_false_iff_not]
        at hminus
      exact hsingle hstar hminus.2
    · next hminus =>
      split
      · next start stop hsplit =>
        obtain ⟨rfl, hstart⟩ := splitOnce_eq_some.mp hsplit
        simp only [Option.bind_eq_bind, Option.bind_eq_some_iff, number_eq_some hmax,
          Option.pure_def, Option.some.injEq, Prod.mk.injEq]
        constructor
        · rintro ⟨_, hfirst, _, hlast, rfl, rfl⟩
          exact .between hstart hfirst hlast
        · generalize htext : start ++ '-' :: stop = text at *
          intro h
          cases h with
          | all => exact absurd rfl hstar
          | single _ htail =>
            refine (?_ : False).elim
            cases start with
            | nil => exact hminus (by simpa [← htext] using htail)
            | cons c start => exact htail (htext ▸ List.mem_append_right start List.mem_cons_self)
          | between hword hfirst hlast =>
            rw [splitOnce_append hword] at hsplit
            obtain ⟨rfl, rfl⟩ := Prod.mk.inj (Option.some.inj hsplit)
            exact ⟨_, hfirst, _, hlast, rfl, rfl⟩
      · next hsplit =>
        exact hsingle hstar fun hmem => splitOnce_eq_none.mp hsplit (List.mem_of_mem_tail hmem)

/-- **A part is read as the span it is for.** -/
theorem part_eq_some (hmax : maximum < 128) (hnames : "" ∉ names) {list : List ℕ} :
    Field.part minimum maximum names part = some list ↔
      ∃ span, Spans minimum maximum names part span ∧ span.list = list := by
  have hends (stepped : Bool) (text : List Char) (step : ℤ) :
      (if step ≤ 0 then none
        else (range (number minimum maximum names) minimum maximum stepped text).bind fun ends =>
            if ends.2 < ends.1 then none
            else some (List.range' ends.1 ((ends.2 - ends.1) / step.toNat + 1) step.toNat)) =
          some list ↔
        0 < step ∧ ∃ first last, first ≤ last ∧
          Ranges minimum maximum names stepped text first last ∧
          (Span.mk first last step.toNat).list = list := by
    split
    · next hle => exact iff_of_false nofun fun h => absurd h.1 (not_lt.mpr hle)
    · next hpos =>
      rw [and_iff_right (not_le.mp hpos), Option.bind_eq_some_iff]
      constructor
      · rintro ⟨⟨first, last⟩, hrange, h⟩
        split at h
        · cases h
        · next horder =>
          exact ⟨first, last, not_lt.mp horder, (range_eq_some hmax hnames).mp hrange,
            Option.some.inj h⟩
      · rintro ⟨first, last, hle, hrange, rfl⟩
        exact ⟨(first, last), (range_eq_some hmax hnames).mpr hrange, if_neg (not_lt.mpr hle)⟩
  rw [Field.part]
  cases hsplit : splitOnce '/' part with
  | none =>
    refine (hends false part 1).trans ?_
    have hslash := splitOnce_eq_none.mp hsplit
    constructor
    · rintro ⟨-, first, last, hle, hrange, rfl⟩
      exact ⟨⟨first, last, 1⟩, ⟨hle, .inl ⟨hslash, rfl, hrange⟩⟩, rfl⟩
    · rintro ⟨⟨first, last, step⟩, ⟨hle, ⟨-, rfl, hrange⟩ | ⟨text, step', rfl, -⟩⟩, rfl⟩
      · exact ⟨by decide, first, last, hle, hrange, rfl⟩
      · exact absurd (List.mem_append_right text List.mem_cons_self) hslash
  | some found =>
    obtain ⟨text, word⟩ := found
    obtain ⟨rfl, htext⟩ := splitOnce_eq_some.mp hsplit
    have hspans {span : Span} :
        Spans minimum maximum names (text ++ '/' :: word) span ↔ span.first ≤ span.last ∧
          parseI8 word = some (span.step : ℤ) ∧ 0 < span.step ∧
          Ranges minimum maximum names true text span.first span.last := by
      refine and_congr_right fun _ => ⟨?_, fun h => .inr ⟨text, word, rfl, htext, h⟩⟩
      rintro (⟨hslash, -⟩ | ⟨text', word', heq, htext', h⟩)
      · exact absurd (List.mem_append_right text List.mem_cons_self) hslash
      · rw [heq, splitOnce_append htext'] at hsplit
        obtain ⟨rfl, rfl⟩ := Prod.mk.inj (Option.some.inj hsplit)
        exact h
    simp only [hspans]
    cases hread : parseI8 word with
    | none =>
      refine iff_of_false nofun ?_
      rintro ⟨span, ⟨-, ⟨⟩, -⟩, -⟩
    | some step =>
      refine (hends true text step).trans ?_
      constructor
      · rintro ⟨hpos, first, last, hle, hrange, rfl⟩
        obtain ⟨n, rfl⟩ := Int.eq_ofNat_of_zero_le hpos.le
        exact ⟨⟨first, last, n⟩, ⟨hle, rfl, Int.ofNat_lt.mp hpos, hrange⟩, rfl⟩
      · rintro ⟨⟨first, last, n⟩, ⟨hle, ⟨⟩, hpos, hrange⟩, rfl⟩
        exact ⟨Int.ofNat_lt.mpr hpos, first, last, hle, hrange, rfl⟩

/-- What a part of a field is within. -/
theorem bounds_of_spans {span : Span} (h : Spans minimum maximum names part span) :
    0 < span.step ∧ span.first ≤ span.last ∧ minimum ≤ span.first ∧ span.last ≤ maximum := by
  have hbounds {stepped : Bool} {text : List Char} {first last : ℕ}
      (h : Ranges minimum maximum names stepped text first last) :
      minimum ≤ first ∧ last ≤ maximum := by
    cases h with
    | all => exact ⟨le_rfl, le_rfl⟩
    | single _ _ h =>
      split
      · exact ⟨h.1, le_rfl⟩
      · exact ⟨h.1, h.2.1⟩
    | between _ hfirst hlast => exact ⟨hfirst.1, hlast.2.1⟩
  obtain ⟨hle, ⟨-, hstep, h⟩ | ⟨text, step, -, -, -, hstep, h⟩⟩ := h
  · exact ⟨hstep ▸ Nat.one_pos, hle, hbounds h⟩
  · exact ⟨hstep, hle, hbounds h⟩

/-- The number is named by a field. -/
def Names (minimum maximum : ℕ) (names : List String) (text : List Char) (n : ℕ) : Prop :=
  ∃ part ∈ text.splitOn ',', ∃ span, Spans minimum maximum names part span ∧ span.Has n

theorem mem_destutter {l : List ℕ} {n : ℕ} : n ∈ l.destutter (· ≠ ·) ↔ n ∈ l := by
  have hmem (l : List ℕ) (a : ℕ) : n ∈ l.destutter' (· ≠ ·) a ↔ n ∈ a :: l := by
    induction l generalizing a with
    | nil => exact Iff.rfl
    | cons b l ih =>
      rw [List.destutter'_cons]
      split
      · rw [List.mem_cons, ih, List.mem_cons, List.mem_cons, List.mem_cons]
      · next heq =>
        rw [ih, not_not.mp heq]
        simp
  cases l with
  | nil => exact Iff.rfl
  | cons a l => exact hmem l a

theorem mem_normalize {values : List ℕ} {n : ℕ} : n ∈ normalize values ↔ n ∈ values := by
  rw [normalize, mem_destutter, (List.perm_insertionSort _ _).mem_iff]

/-- **A field holds what its text names**, and it was open when its text is a star. -/
theorem parse_spec (hmax : maximum < 128) (hnames : "" ∉ names) {field : Field}
    (h : Field.parse text minimum maximum names = .ok field) :
    (∀ n, field.contains n = true ↔ Names minimum maximum names text n) ∧
      field.wildcard = decide (text = ['*']) := by
  rw [Field.parse, bind_eq_ok_iff] at h
  obtain ⟨values, hvalues, h⟩ := h
  obtain rfl := Except.ok.inj h
  refine ⟨fun n => ?_, rfl⟩
  have hmem (list : List ℕ) : list ∈ values ↔
      ∃ p ∈ text.splitOn ',', Field.part minimum maximum names p = some list := by
    have hinjective : Function.Injective
        (Except.ok : List ℕ → Except InvalidCronSchedule (List ℕ)) := fun _ _ => Except.ok.inj
    rw [← List.mem_map_of_injective hinjective, ← mapM_eq_ok_iff.mp hvalues, List.mem_map]
    simp only [ofOption_eq_ok_iff]
  rw [contains, List.contains_iff_mem, mem_normalize, List.mem_flatten]
  simp only [hmem, part_eq_some hmax hnames]
  constructor
  · rintro ⟨list, ⟨p, hp, span, hspan, rfl⟩, hn⟩
    obtain ⟨hpos, hle, -, -⟩ := bounds_of_spans hspan
    exact ⟨p, hp, span, hspan, (Span.mem_list hle hpos).mp hn⟩
  · rintro ⟨p, hp, span, hspan, hn⟩
    obtain ⟨hpos, hle, -, -⟩ := bounds_of_spans hspan
    exact ⟨_, ⟨p, hp, span, hspan, rfl⟩, (Span.mem_list hle hpos).mpr hn⟩

/-- A star names all of its field. -/
theorem names_star (hmin : minimum ≤ n) (hmax : n ≤ maximum) :
    Names minimum maximum names ['*'] n :=
  ⟨['*'], List.mem_singleton_self _, ⟨minimum, maximum, 1⟩,
    ⟨hmin.trans hmax, .inl ⟨by decide, rfl, .all⟩⟩, hmin, hmax, Nat.one_dvd _⟩

theorem bounds_of_names (h : Names minimum maximum names text n) :
    minimum ≤ n ∧ n ≤ maximum := by
  obtain ⟨p, -, span, hspan, hfirst, hlast, -⟩ := h
  obtain ⟨-, -, hmin, hmax⟩ := bounds_of_spans hspan
  exact ⟨hmin.trans hfirst, hlast.trans hmax⟩

end Field

/-! ### The fields of an expression -/

/-- The texts of the fields of an expression. -/
structure Fields where
  minute : List Char
  hour : List Char
  day : List Char
  month : List Char
  weekday : List Char

namespace Fields

def list (fields : Fields) : List (List Char) :=
  [fields.minute, fields.hour, fields.day, fields.month, fields.weekday]

variable (fields : Fields)

def NamesMinute (n : ℕ) : Prop := Field.Names 0 59 [] fields.minute n

def NamesHour (n : ℕ) : Prop := Field.Names 0 23 [] fields.hour n

def NamesDay (n : ℕ) : Prop := Field.Names 1 31 [] fields.day n

def NamesMonth (n : ℕ) : Prop := Field.Names 1 12 monthNames fields.month n

/-- A day of the week, from Sunday on; Sunday is 0 or 7. -/
def NamesWeekday (n : ℕ) : Prop :=
  n < 7 ∧ Field.Names 0 7 weekdayNames fields.weekday n ∨
    n = 0 ∧ Field.Names 0 7 weekdayNames fields.weekday 7

/-- The fields name a day by its day and its weekday where one of these is a star, and by one of
them where neither is. -/
def MatchesDay (date : Calendar.Date) : Prop :=
  fields.NamesMonth date.month ∧
    ((fields.day = ['*'] ∨ fields.weekday = ['*']) ∧
        fields.NamesDay date.day ∧ fields.NamesWeekday date.weekday ∨
      ¬(fields.day = ['*'] ∨ fields.weekday = ['*']) ∧
        (fields.NamesDay date.day ∨ fields.NamesWeekday date.weekday))

/-- The first second of a minute that the fields name. -/
def Matches (time : Calendar.CivilTime) : Prop :=
  time.second = 0 ∧ fields.NamesMinute time.minute ∧ fields.NamesHour time.hour ∧
    fields.MatchesDay time.date

end Fields

namespace ParsedSchedule

/-- The texts between the blanks of an expression, or of what it is an alias for. -/
def fieldTexts (expression : String) : List (List Char) :=
  words (expand (String.ofList ((trim isBlank expression.toList).map Char.toLower))).toList

/-- A schedule holds what the fields name. -/
structure Holds (schedule : ParsedSchedule) (fields : Fields) : Prop where
  minute : ∀ n, n ∈ schedule.minute.values ↔ fields.NamesMinute n
  hour : ∀ n, n ∈ schedule.hour.values ↔ fields.NamesHour n
  matchesDay : ∀ date : Calendar.Date,
    schedule.matchesDay (NaiveDate.ofDate date) = true ↔ fields.MatchesDay date

variable {schedule : ParsedSchedule}

/-- The days of the week of a field, once Sunday is 0 alone. -/
private theorem contains_sundays {weekday : Field} {text : List Char}
    (hweekday : ∀ n, weekday.contains n = true ↔ Field.Names 0 7 weekdayNames text n) (n : ℕ) :
    (Field.normalize (weekday.values.map fun value => if value = 7 then 0 else value)).contains n =
        true ↔
      n < 7 ∧ Field.Names 0 7 weekdayNames text n ∨
        n = 0 ∧ Field.Names 0 7 weekdayNames text 7 := by
  rw [List.contains_iff_mem, Field.mem_normalize, List.mem_map]
  have hmem (n : ℕ) : n ∈ weekday.values ↔ Field.Names 0 7 weekdayNames text n := by
    rw [← hweekday, Field.contains, List.contains_iff_mem]
  simp only [hmem]
  constructor
  · rintro ⟨value, hvalue, rfl⟩
    have hle := (Field.bounds_of_names hvalue).2
    split
    · next hseven => exact .inr ⟨rfl, hseven ▸ hvalue⟩
    · exact .inl ⟨by omega, hvalue⟩
  · rintro (⟨hlt, hn⟩ | ⟨rfl, hseven⟩)
    · exact ⟨n, hn, if_neg (by omega)⟩
    · exact ⟨7, hseven, rfl⟩

/-- **An accepted schedule holds what its fields name.** -/
theorem holds_of_parse {expression : String} (h : parse expression = .ok schedule) :
    ∃ fields : Fields, fieldTexts expression = fields.list ∧ schedule.Holds fields := by
  rw [parse, bind_eq_ok_iff] at h
  obtain ⟨-, -, h⟩ := h
  dsimp only at h
  split at h
  · next minute hour day month weekday htexts =>
    simp only [bind_eq_ok_iff] at h
    obtain ⟨w, hw, mi, hmi, ho, hho, d, hd, mo, hmo, h⟩ := h
    obtain rfl := Except.ok.inj h
    refine ⟨⟨minute, hour, day, month, weekday⟩, htexts, ?_⟩
    obtain ⟨hminute, -⟩ := Field.parse_spec (by decide) (by decide) hmi
    obtain ⟨hhour, -⟩ := Field.parse_spec (by decide) (by decide) hho
    obtain ⟨hday, hdays⟩ := Field.parse_spec (by decide) (by decide) hd
    obtain ⟨hmonth, -⟩ := Field.parse_spec (by decide) (by decide) hmo
    obtain ⟨hweekday, hweekdays⟩ := Field.parse_spec (by decide) (by decide) hw
    refine ⟨fun n => ?_, fun n => ?_, fun date => ?_⟩
    · rw [← List.contains_iff_mem]
      exact hminute n
    · rw [← List.contains_iff_mem]
      exact hhour n
    · rw [matchesDay, NaiveDate.day_ofDate, NaiveDate.month_ofDate, NaiveDate.weekday_ofDate,
        Bool.and_eq_true, hmonth, hdays, hweekdays, ← Bool.decide_or, Fields.MatchesDay]
      refine and_congr Iff.rfl ?_
      have hnamed := contains_sundays hweekday date.weekday
      by_cases hopen : day = ['*'] ∨ weekday = ['*']
      · rw [if_pos (decide_eq_true hopen), Bool.and_eq_true, hday]
        exact ⟨fun h => .inl ⟨hopen, h.1, hnamed.mp h.2⟩, fun h => h.elim
          (fun h => ⟨h.2.1, hnamed.mpr h.2.2⟩) fun h => absurd hopen h.1⟩
      · rw [if_neg (by simpa using hopen), Bool.or_eq_true, hday]
        exact ⟨fun h => .inr ⟨hopen, h.imp_right hnamed.mp⟩, fun h => h.elim
          (fun h => absurd h.1 hopen) fun h => h.2.imp_right hnamed.mpr⟩
  · cases h

end ParsedSchedule

end Nibrunner.Cron

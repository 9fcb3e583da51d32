import Nibrunner.Cron.Crontab

/-!
# What the lines of a crontab say

A line is a comment, an assignment or a job. `parseCrontab_lines` says **what is read of a text that
is accepted**: one job for each line that is neither comment nor assignment, in their order, written
as schedule and command in the line, with what the lines above it assign last (`LastAssigned`).
-/

namespace Nibrunner.Cron

open Except Std TextLines

/-! ### Kinds of lines -/

/-- The lines of a text, without their ends and without the space before them. -/
def crontabLines (text : String) : List (List Char) :=
  (splitInclusive text.toList).map fun piece => (stripLineEnd piece).dropWhile crontabWhitespace

/-- A line that says nothing. -/
def IsComment (line : List Char) : Prop :=
  trim crontabWhitespace line = [] ∨ line.head? = some '#'

/-- Letters, digits and underscores, no digit first. -/
def IsName (name : List Char) : Prop :=
  ∃ first rest, name = first :: rest ∧ (first.isAlpha || first = '_') = true ∧
    rest.all isNameCharacter = true

/-- A line that sets a variable: a name, an equals sign and what is written behind it. -/
def SetsTo (line name written : List Char) : Prop :=
  IsName name ∧ ∃ blanks, (∀ c ∈ blanks, isBlank c = true) ∧ line = name ++ blanks ++ '=' :: written

/-- What is written between the spaces is the value, or the value in quotes. -/
def Unquotes (written value : List Char) : Prop :=
  (∃ quote ∈ quotes, trim crontabWhitespace written = quote :: (value ++ [quote])) ∨
    trim crontabWhitespace written = value ∧ ∀ quote ∈ quotes, value.head? ≠ some quote

/-- A line assigns a value to a name. -/
def Assigns (line : List Char) (name value : String) : Prop :=
  ¬IsComment line ∧ ∃ written, SetsTo line name.toList written ∧ Unquotes written value.toList

/-- The last of the lines that assigns to the name assigns the value. -/
def LastAssigned (lines : List (List Char)) (name value : String) : Prop :=
  ∃ before line after, lines = before ++ line :: after ∧ Assigns line name value ∧
    ∀ later ∈ after, ∀ value, ¬Assigns later name value

/-- A line that names a job. -/
def IsJob (line : List Char) : Prop := ¬IsComment line ∧ ∀ name written, ¬SetsTo line name written

/-- Some fields of a line, with blanks behind each, and what is left of it. -/
def FieldsBefore : ℕ → List Char → List Char → Prop
  | 0, line, rest => line = rest
  | n + 1, line, rest => ∃ field blanks next, line = field ++ blanks ++ next ∧
      field ≠ [] ∧ (∀ c ∈ field, isBlank c = false) ∧
      blanks ≠ [] ∧ (∀ c ∈ blanks, isBlank c = true) ∧ (∀ c ∈ next.head?, isBlank c = false) ∧
      FieldsBefore n next rest

/-- A job is written in a line below others. -/
structure WrittenAs (above : List (List Char)) (line : List Char) (job : CronJobDefinition) :
    Prop where
  command : FieldsBefore (if line.head? = some '@' then 1 else 5) line job.command.text.toList
  schedule : ∃ blanks, (∀ c ∈ blanks, isBlank c = true) ∧
    line = job.schedule.text.toList ++ blanks ++ job.command.text.toList ∧
      ∀ c ∈ job.schedule.text.toList.getLast?, isBlank c = false
  environment : ∃ environment, job.environment = some environment ∧ ∀ name value,
    (∃ entry ∈ environment.entries, entry.1 = name ∧ entry.2.text = value) ↔
      LastAssigned above name value

/-! ### Assignments -/

variable {line name written value : List Char} {number : ℕ}

theorem isNameCharacter_of_isName (h : IsName name) {c : Char} (hc : c ∈ name) :
    isNameCharacter c = true := by
  obtain ⟨first, rest, rfl, hfirst, hrest⟩ := h
  rcases List.mem_cons.mp hc with rfl | hc
  · rw [isNameCharacter, Bool.or_eq_true, Char.isAlphanum, Bool.or_eq_true]
    exact (Bool.or_eq_true _ _ ▸ hfirst).imp_left .inl
  · exact List.all_eq_true.mp hrest c hc

private theorem not_isNameCharacter_of_isBlank {c : Char} (h : isBlank c = true) :
    isNameCharacter c = false := by
  rw [isBlank, Bool.or_eq_true, decide_eq_true_eq, decide_eq_true_eq] at h
  rcases h with rfl | rfl <;> decide

/-- Characters of a kind behind others do not matter to what is left without them. -/
theorem rdropWhile_append_of_forall {p : Char → Bool} (front : List Char) {back : List Char}
    (h : ∀ c ∈ back, p c = true) : (front ++ back).rdropWhile p = front.rdropWhile p := by
  induction back using List.reverseRecOn with
  | nil => rw [List.append_nil]
  | append_singleton back c ih =>
    rw [← List.append_assoc, List.rdropWhile_concat_pos _ _ _ (h c (by simp))]
    exact ih fun c hc => h c (List.mem_append_left _ hc)

theorem rdropWhile_of_isName (h : IsName name) : name.rdropWhile isBlank = name := by
  refine List.rdropWhile_eq_self_iff.mpr fun hne hblank => ?_
  have hname := isNameCharacter_of_isName h (List.getLast_mem hne)
  rw [not_isNameCharacter_of_isBlank hblank] at hname
  exact Bool.false_ne_true hname

/-- **An assignment is found where the line is one.** -/
theorem environmentAssignment_eq_some_iff : environmentAssignment line = some (name, value) ↔
    ∃ written, SetsTo line name written ∧ value = written.dropWhile isBlank := by
  constructor
  · intro h
    rw [environmentAssignment] at h
    split at h
    · cases h
    · next front back hsplit =>
      obtain ⟨rfl, -⟩ := splitOnce_eq_some.mp hsplit
      dsimp only at h
      split at h
      · cases h
      · next first rest hfront =>
        split at h
        · next hname =>
          obtain ⟨hsame, rfl⟩ := Prod.mk.inj (Option.some.inj h)
          have hblanks : ∀ c ∈ front.rtakeWhile isBlank, isBlank c = true :=
            fun c hc => List.mem_rtakeWhile_imp hc
          rw [Bool.and_eq_true] at hname
          refine ⟨back, ⟨⟨first, rest, hsame ▸ hfront, hname.1, hname.2⟩, _, hblanks, ?_⟩, rfl⟩
          rw [← hsame, List.rdropWhile_append_rtakeWhile]
        · cases h
  · rintro ⟨written, ⟨hname, blanks, hblanks, rfl⟩, rfl⟩
    have hequals : '=' ∉ name ++ blanks := by
      rintro hmem
      rcases List.mem_append.mp hmem with hmem | hmem
      · exact absurd (isNameCharacter_of_isName hname hmem) (by decide)
      · exact absurd (hblanks _ hmem) (by decide)
    rw [environmentAssignment, splitOnce_append hequals]
    dsimp only
    rw [rdropWhile_append_of_forall name hblanks, rdropWhile_of_isName hname]
    obtain ⟨first, rest, rfl, hfirst, hrest⟩ := hname
    exact if_pos (by rw [hfirst, hrest]; rfl)

theorem environmentAssignment_eq_none_iff :
    environmentAssignment line = none ↔ ∀ name written, ¬SetsTo line name written := by
  rw [Option.eq_none_iff_forall_ne_some]
  constructor
  · exact fun h name written hsets =>
      h (name, _) (environmentAssignment_eq_some_iff.mpr ⟨written, hsets, rfl⟩)
  · rintro h ⟨name, value⟩ hassigns
    obtain ⟨written, hsets, -⟩ := environmentAssignment_eq_some_iff.mp hassigns
    exact h name written hsets

/-- What is trimmed first does not matter to what trims more. -/
theorem trim_dropWhile {p q : Char → Bool} (hpq : ∀ c, p c = true → q c = true) (text : List Char) :
    trim q (text.dropWhile p) = trim q text := by
  rw [trim, trim]
  congr 1
  induction text with
  | nil => rfl
  | cons c text ih =>
    by_cases hc : p c = true
    · rw [List.dropWhile_cons_of_pos hc, List.dropWhile_cons_of_pos (hpq c hc), ih]
    · rw [List.dropWhile_cons_of_neg hc]

theorem environmentValue_eq_ok_iff : environmentValue written number = .ok value ↔
    Unquotes written value := by
  rw [environmentValue, Unquotes]
  generalize trim crontabWhitespace written = text
  cases text with
  | nil =>
    refine ⟨fun h => .inr ⟨Except.ok.inj h, ?_⟩, ?_⟩
    · rw [← Except.ok.inj h]
      exact fun quote _ h => by cases h
    · rintro (⟨quote, -, h⟩ | ⟨rfl, -⟩)
      · cases h
      · rfl
  | cons first rest =>
    dsimp only
    by_cases hquote : quotes.contains first = true
    · -- a quote has to be closed at the end
      have hclosed : (rest ≠ [] && rest.getLast? = some first) = true ↔
          ∃ inner, rest = inner ++ [first] := by
        rw [Bool.and_eq_true, decide_eq_true_eq, decide_eq_true_eq, List.getLast?_eq_some_iff]
        exact ⟨fun h => h.2, fun ⟨inner, h⟩ => ⟨by simp [h], inner, h⟩⟩
      rw [if_pos hquote]
      constructor
      · intro h
        split at h
        · next hends =>
          obtain ⟨inner, rfl⟩ := hclosed.mp hends
          rw [List.dropLast_concat] at h
          exact .inl ⟨first, List.contains_iff_mem.mp hquote, by rw [Except.ok.inj h]⟩
        · cases h
      · rintro (⟨quote, -, h⟩ | ⟨rfl, h⟩)
        · obtain ⟨rfl, rfl⟩ := List.cons.inj h
          rw [if_pos (hclosed.mpr ⟨value, rfl⟩), List.dropLast_concat]
        · exact absurd rfl (h first (List.contains_iff_mem.mp hquote))
    · rw [if_neg hquote]
      constructor
      · intro h
        obtain rfl := Except.ok.inj h
        refine .inr ⟨rfl, ?_⟩
        rintro quote hmem ⟨⟩
        exact hquote (List.contains_iff_mem.mpr hmem)
      · rintro (⟨quote, hmem, h⟩ | ⟨rfl, -⟩)
        · obtain ⟨rfl, -⟩ := List.cons.inj h
          exact absurd (List.contains_iff_mem.mpr hmem) hquote
        · rfl

/-- A line assigns what is read of it as an assignment. -/
theorem assigns_iff (number : ℕ) {line : List Char} {name value : String} :
    Assigns line name value ↔
    ¬IsComment line ∧ ∃ text, environmentAssignment line = some (name.toList, text) ∧
      environmentValue text number = .ok value.toList := by
  have hblank (c : Char) (h : isBlank c = true) : crontabWhitespace c = true := by
    rw [isBlank, Bool.or_eq_true, decide_eq_true_eq, decide_eq_true_eq] at h
    rcases h with rfl | rfl <;> decide
  refine and_congr_right fun _ => ?_
  simp only [environmentAssignment_eq_some_iff, environmentValue_eq_ok_iff]
  constructor
  · rintro ⟨written, hsets, hunquotes⟩
    exact ⟨_, ⟨written, hsets, rfl⟩, by rwa [Unquotes, trim_dropWhile hblank]⟩
  · rintro ⟨text, ⟨written, hsets, rfl⟩, hunquotes⟩
    exact ⟨written, hsets, by rwa [Unquotes, trim_dropWhile hblank] at hunquotes⟩

/-- A line assigns one value to one name. -/
theorem Assigns.unique {line : List Char} {name value name' value' : String}
    (h : Assigns line name value) (h' : Assigns line name' value') :
    name = name' ∧ value = value' := by
  obtain ⟨-, text, hassigns, hvalue⟩ := (assigns_iff 0).mp h
  obtain ⟨-, text', hassigns', hvalue'⟩ := (assigns_iff 0).mp h'
  obtain ⟨hname, rfl⟩ := Prod.mk.inj (Option.some.inj (hassigns.symm.trans hassigns'))
  exact ⟨String.toList_inj.mp hname,
    String.toList_inj.mp (Except.ok.inj (hvalue.symm.trans hvalue'))⟩

/-- What the last of the lines assigns goes before what the others do. -/
theorem lastAssigned_append_singleton {above : List (List Char)} {line : List Char}
    {name value : String} : LastAssigned (above ++ [line]) name value ↔
      Assigns line name value ∨
        (∀ value, ¬Assigns line name value) ∧ LastAssigned above name value := by
  constructor
  · rintro ⟨before, found, after, hlines, hassigns, hlater⟩
    rcases List.eq_nil_or_concat' after with rfl | ⟨after, last, rfl⟩
    · obtain ⟨-, hline⟩ := List.append_inj' hlines rfl
      exact .inl ((List.singleton_inj.mp hline) ▸ hassigns)
    · rw [← List.cons_append, ← List.append_assoc] at hlines
      obtain ⟨rfl, hline⟩ := List.append_inj' hlines rfl
      obtain rfl := List.singleton_inj.mp hline
      exact .inr ⟨hlater line (by simp), before, found, after, rfl, hassigns,
        fun later hmem => hlater later (List.mem_append_left _ hmem)⟩
  · rintro (hassigns | ⟨hnone, before, found, after, rfl, hassigns, hlater⟩)
    · exact ⟨above, line, [], rfl, hassigns, fun later hmem => absurd hmem List.not_mem_nil⟩
    · refine ⟨before, found, after ++ [line], by simp, hassigns, fun later hmem => ?_⟩
      rcases List.mem_append.mp hmem with hmem | hmem
      · exact hlater later hmem
      · exact List.mem_singleton.mp hmem ▸ hnone

/-! ### Jobs -/

instance (line : List Char) : Decidable (IsComment line) :=
  inferInstanceAs (Decidable (trim crontabWhitespace line = [] ∨ line.head? = some '#'))

instance (line : List Char) : Decidable (IsJob line) :=
  decidable_of_iff (¬IsComment line ∧ environmentAssignment line = none)
    (and_congr_right fun _ => environmentAssignment_eq_none_iff)

/-- The lines below others that name jobs, each with all the lines above it. -/
def jobSites : List (List Char) → List (List Char) → List (List (List Char) × List Char)
  | _, [] => []
  | above, line :: lines =>
    if IsJob line then (above, line) :: jobSites (above ++ [line]) lines
    else jobSites (above ++ [line]) lines

theorem fieldsBefore_of_skipFields {fields : ℕ} {rest : List Char}
    (h : skipFields number fields line = .ok rest) : FieldsBefore fields line rest := by
  induction fields generalizing line with
  | zero => exact Except.ok.inj h
  | succ fields ih =>
    rw [skipFields] at h
    split at h
    · cases h
    · next stop hstop =>
      obtain ⟨hlt, hblank, hbefore⟩ := List.findIdx?_eq_some_iff_getElem.mp hstop
      split at h
      · cases h
      · next hne =>
        have hdrop := List.drop_eq_getElem_cons hlt
        refine ⟨line.take stop, (line.drop stop).takeWhile isBlank, _, ?_, ?_, ?_, ?_, ?_, ?_, ih h⟩
        · rw [List.append_assoc, List.takeWhile_append_dropWhile, List.take_append_drop]
        · rw [Ne, List.take_eq_nil_iff]
          rintro (hzero | rfl)
          · exact hne hzero
          · exact absurd hlt (Nat.not_lt_zero _)
        · intro c hc
          obtain ⟨i, hi, rfl⟩ := List.getElem_of_mem hc
          rw [List.length_take] at hi
          rw [List.getElem_take]
          exact Bool.eq_false_of_not_eq_true (hbefore i (by omega))
        · rw [hdrop, List.takeWhile_cons_of_pos hblank]
          exact List.cons_ne_nil _ _
        · exact fun c hc => List.mem_takeWhile_imp hc
        · intro c hc
          have hnot := List.head?_dropWhile_not isBlank (line.drop stop)
          rwa [show ((line.drop stop).dropWhile isBlank).head? = some c from hc] at hnot

theorem FieldsBefore.suffix {fields : ℕ} {rest : List Char} (h : FieldsBefore fields line rest) :
    rest <:+ line := by
  induction fields generalizing line with
  | zero => exact h ▸ List.suffix_refl _
  | succ fields ih =>
    obtain ⟨field, blanks, next, rfl, -, -, -, -, -, hnext⟩ := h
    exact (ih hnext).trans (List.suffix_append _ _)

/-- A job line is its schedule and its command, with blanks between them. -/
theorem jobLine_eq_ok {found : List Char × List Char} (h : jobLine line number = .ok found) :
    FieldsBefore (if line.head? = some '@' then 1 else 5) line found.2 ∧
      ∃ blanks, (∀ c ∈ blanks, isBlank c = true) ∧ line = found.1 ++ blanks ++ found.2 ∧
        ∀ c ∈ found.1.getLast?, isBlank c = false := by
  obtain ⟨remaining, hskip, h⟩ := bind_eq_ok_iff.mp h
  obtain ⟨_, -, h⟩ := bind_eq_ok_iff.mp h
  obtain rfl := Except.ok.inj h
  have hfields := fieldsBefore_of_skipFields hskip
  obtain ⟨front, rfl⟩ := hfields.suffix
  have hfront :
      (front ++ remaining).take ((front ++ remaining).length - remaining.length) = front := by
    rw [List.length_append, Nat.add_sub_cancel, List.take_left]
  dsimp only
  rw [hfront]
  refine ⟨hfields, front.rtakeWhile isBlank, fun c hc => List.mem_rtakeWhile_imp hc, ?_, ?_⟩
  · rw [List.rdropWhile_append_rtakeWhile]
  · intro c hc
    obtain ⟨inner, hinner⟩ := List.getLast?_eq_some_iff.mp hc
    have hnot := List.rdropWhile_last_not isBlank front (by rw [hinner]; simp)
    simp only [hinner, List.getLast_concat] at hnot
    exact Bool.eq_false_of_not_eq_true hnot

/-! ### Reading -/

/-- The variables that are set are those the lines above assign last. -/
def HoldsLast (environment : ExtTreeMap String TenantValue) (above : List (List Char)) : Prop :=
  ∀ name value, (∃ tenantValue, environment[name]? = some tenantValue ∧ tenantValue.text = value) ↔
    LastAssigned above name value

/-- A line that assigns nothing changes nothing. -/
private theorem HoldsLast.skip {environment : ExtTreeMap String TenantValue}
    {above : List (List Char)} {line : List Char} (h : HoldsLast environment above)
    (hnone : ∀ name value, ¬Assigns line name value) : HoldsLast environment (above ++ [line]) := by
  intro name value
  rw [h name value, lastAssigned_append_singleton, or_iff_right (hnone name value),
    and_iff_right (hnone name)]

/-- An assignment goes before the others of its name. -/
private theorem HoldsLast.insert {environment : ExtTreeMap String TenantValue}
    {above : List (List Char)} {line : List Char} {name : String} {tenantValue : TenantValue}
    (h : HoldsLast environment above) (hassigns : Assigns line name tenantValue.text) :
    HoldsLast (environment.insert name tenantValue) (above ++ [line]) := by
  intro name' value
  rw [lastAssigned_append_singleton, ExtTreeMap.getElem?_insert_ite]
  by_cases hname : name = name'
  · subst hname
    rw [if_pos rfl, or_iff_left fun hrest => hrest.1 _ hassigns]
    constructor
    · rintro ⟨_, ⟨⟩, rfl⟩
      exact hassigns
    · exact fun hline => ⟨tenantValue, rfl, (hassigns.unique hline).2⟩
  · have hnone (value : String) : ¬Assigns line name' value :=
      fun hline => hname (hassigns.unique hline).1
    rw [if_neg hname, h name' value, or_iff_right (hnone value), and_iff_right hnone]

theorem entries_of_ofMap? {values : ExtTreeMap String TenantValue} {environment : TenantEnvironment}
    (h : TenantEnvironment.ofMap? values = some environment) :
    environment.entries = values.toList := by
  rw [TenantEnvironment.ofMap?] at h
  split at h
  · rw [← Option.some.inj h]
  · cases h

/-- What one line adds to what has been read. -/
private theorem written_of_readLine {scheduler : Scheduler} {instant : ℤ} {piece : List Char}
    {reading after : Reading} {above : List (List Char)} {line : List Char}
    (hline : (stripLineEnd piece).dropWhile crontabWhitespace = line)
    (hreading : HoldsLast reading.environment above)
    (h : readLine scheduler instant reading number piece = .ok after) :
    HoldsLast after.environment (above ++ [line]) ∧
      ((IsJob line ∧ ∃ job, WrittenAs above line job ∧ after.jobs = reading.jobs ++ [job]) ∨
        ¬IsJob line ∧ after.jobs = reading.jobs) := by
  rw [readLine] at h
  simp only [hline] at h
  split at h
  · next hcomment =>
    have hcomment : IsComment line := by
      simpa only [IsComment, Bool.or_eq_true, decide_eq_true_eq] using hcomment
    obtain rfl := Except.ok.inj h
    exact ⟨hreading.skip fun _ _ hassigns => hassigns.1 hcomment,
      .inr ⟨fun hjob => hjob.1 hcomment, rfl⟩⟩
  · next hcomment =>
    have hcomment : ¬IsComment line := by
      simpa only [IsComment, Bool.or_eq_true, decide_eq_true_eq] using hcomment
    split at h
    · cases h
    · split at h
      · next name text hassigns =>
        obtain ⟨value, tenantValue, hvalue, htenant, rfl, -⟩ := readAssignment_eq_ok h
        obtain ⟨written, hsets, -⟩ := environmentAssignment_eq_some_iff.mp hassigns
        have htext := TenantValue.text_of_parse? htenant
        refine ⟨hreading.insert ((assigns_iff number).mpr ⟨hcomment, text, ?_, ?_⟩),
          .inr ⟨fun hjob => hjob.2 name written hsets, rfl⟩⟩
        · rw [hassigns, String.toList_ofList]
        · rw [hvalue, htext, String.toList_ofList]
      · next hassigns =>
        obtain ⟨fields, schedule, command, environment, hfields, hs, hc, he, rfl⟩ := readJob_eq_ok h
        have hjob : IsJob line := ⟨hcomment, environmentAssignment_eq_none_iff.mp hassigns⟩
        refine ⟨hreading.skip fun name value hline => ?_, .inl ⟨hjob, _, ?_, rfl⟩⟩
        · obtain ⟨-, written, hsets, -⟩ := hline
          exact hjob.2 _ _ hsets
        · obtain ⟨hbefore, blanks, hblanks, hwritten, hlast⟩ := jobLine_eq_ok hfields
          have hschedule := CronSchedule.text_of_parse? hs
          have hcommand := CronCommand.text_of_parse? hc
          refine ⟨?_, ⟨blanks, hblanks, ?_, ?_⟩, environment, rfl, fun name value => ?_⟩
          · rwa [hcommand, String.toList_ofList]
          · rwa [hschedule, hcommand, String.toList_ofList, String.toList_ofList]
          · rwa [hschedule, String.toList_ofList]
          · rw [← hreading name value, entries_of_ofMap? he]
            simp only [Prod.exists, ExtTreeMap.mem_toList_iff_getElem?_eq_some]
            constructor
            · rintro ⟨name, tenantValue, hfound, rfl, hvalue⟩
              exact ⟨tenantValue, hfound, hvalue⟩
            · rintro ⟨tenantValue, hfound, hvalue⟩
              exact ⟨name, tenantValue, hfound, rfl, hvalue⟩

/-- What has been read of a text is one job for each line that names one. -/
theorem written_of_readLines {scheduler : Scheduler} {instant : ℤ} {pieces : List (List Char)}
    {reading after : Reading} {above : List (List Char)}
    (hreading : HoldsLast reading.environment above)
    (h : readLines scheduler instant reading number pieces = .ok after) :
    ∃ jobs, after.jobs = reading.jobs ++ jobs ∧
      List.Forall₂ (fun site job => WrittenAs site.1 site.2 job)
        (jobSites above (pieces.map fun piece => (stripLineEnd piece).dropWhile crontabWhitespace))
        jobs := by
  induction pieces generalizing reading number above with
  | nil =>
    obtain rfl := Except.ok.inj h
    exact ⟨[], (List.append_nil _).symm, .nil⟩
  | cons piece pieces ih =>
    obtain ⟨next, hnext, h⟩ := bind_eq_ok_iff.mp h
    obtain ⟨hholds, hjob⟩ := written_of_readLine rfl hreading hnext
    obtain ⟨jobs, hjobs, hwritten⟩ := ih hholds h
    rw [List.map_cons, jobSites]
    rcases hjob with ⟨hjob, job, hsite, hadds⟩ | ⟨hjob, hadds⟩
    · rw [if_pos hjob]
      exact ⟨job :: jobs, by rw [hjobs, hadds]; simp, .cons hsite hwritten⟩
    · rw [if_neg hjob]
      exact ⟨jobs, by rw [hjobs, hadds], hwritten⟩

/-- **What is read of an accepted text**: one job for each line that names one, in their order, as
it is written there. -/
theorem parseCrontab_lines {scheduler : Scheduler} {text : String} {instant : ℤ}
    {parsed : ParsedCrontab} (h : parseCrontab scheduler text instant = .ok parsed) :
    List.Forall₂ (fun site job => WrittenAs site.1 site.2 job)
      (jobSites [] (crontabLines text)) parsed.jobs := by
  obtain ⟨reading, -, hreading, hjobs⟩ := parseCrontab_eq_ok h
  have hempty : HoldsLast ∅ [] := by
    refine fun name value => iff_of_false ?_ ?_
    · rintro ⟨tenantValue, hfound, -⟩
      rw [ExtTreeMap.getElem?_empty] at hfound
      cases hfound
    · rintro ⟨before, line, after, hlines, -⟩
      exact absurd hlines.symm (by simp)
  obtain ⟨jobs, hadded, hwritten⟩ := written_of_readLines hempty hreading
  rw [hjobs, hadded]
  exact hwritten

end Nibrunner.Cron

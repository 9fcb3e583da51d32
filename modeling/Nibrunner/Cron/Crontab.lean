import Nibrunner.ForStd.Fallible
import Nibrunner.Protocol.Cron

/-!
# Parsing a crontab

A crontab is read line by line: a line is passed over, or sets a variable of the environment of the
jobs after it, or names a job. What is read is the jobs and the text itself.

Whether a schedule can be read and has an occurrence is open: a `Scheduler` says so for the instant
the crontab is registered at, and the time zone of the host goes by its name.

* `parsed_text`, `environment_le`: the text is kept as it is, and no job has more variables than a
  stored one may have.
-/

namespace Nibrunner.Cron

open Except Std

def crontabWhitespace (c : Char) : Bool :=
  let n := c.toNat
  9 ≤ n && n ≤ 13 || n = 0x20 || n = 0xa0 || n = 0x1680 || 0x2000 ≤ n && n ≤ 0x200a ||
    n = 0x2028 || n = 0x2029 || n = 0x202f || n = 0x205f || n = 0x3000 || n = 0xfeff

inductive InvalidCrontab where
  | text
  | line (line : ℕ)
  | quote (line : ℕ)
  | timeZone (line : ℕ)
  | environment (line : ℕ)
  | schedule (line : ℕ)
  | command (line : ℕ)
  | jobLimit
deriving DecidableEq

def InvalidCrontab.message : InvalidCrontab → String
  | text => "the crontab exceeds its byte limit or contains a nul byte"
  | line n => s!"crontab line {n} needs a schedule and a command"
  | quote n => s!"crontab line {n} has an unmatched environment quote"
  | timeZone n => s!"crontab line {n} names a time zone different from the host's cron time zone"
  | environment n => s!"crontab line {n} has an invalid environment assignment"
  | schedule n => s!"crontab line {n} has an invalid schedule or no future occurrence"
  | command n => s!"crontab line {n} has an invalid command"
  | jobLimit => "the crontab names more jobs than the host permits for an app"

structure ParsedCrontab where
  jobs : List CronJobDefinition
  crontab : Crontab
deriving DecidableEq

/-- What the host reads crontabs with: its time zone, how many jobs an app may name, and which
schedules have an occurrence after an instant. -/
structure Scheduler where
  timeZone : String
  maxJobs : ℕ
  occurs : ℤ → String → Bool

/-! ### Lines -/

/-- The pieces of a text, each up to and with its newline. -/
def splitInclusive : List Char → List (List Char)
  | [] => []
  | c :: rest =>
    if c = '\n' then [c] :: splitInclusive rest
    else
      match splitInclusive rest with
      | [] => [[c]]
      | piece :: pieces => (c :: piece) :: pieces

/-- A piece without its newline, and without a return before it. -/
def stripLineEnd (piece : List Char) : List Char :=
  if piece.getLast? = some '\n' then
    let line := piece.dropLast
    if line.getLast? = some '\r' then line.dropLast else line
  else piece

/-- The name and the value of a line that assigns one. -/
def environmentAssignment (line : List Char) : Option (List Char × List Char) :=
  match TextLines.splitOnce '=' line with
  | none => none
  | some (name, value) =>
    let name := name.rdropWhile isBlank
    match name with
    | [] => none
    | first :: rest =>
      if (first.isAlpha || first = '_') && rest.all isNameCharacter then
        some (name, value.dropWhile isBlank)
      else none

/-- A single and a double quote. -/
def quotes : List Char := [Char.ofNat 0x27, Char.ofNat 0x22]

/-- A value as it is written, with or without quotes around it. -/
def environmentValue (text : List Char) (line : ℕ) : Except InvalidCrontab (List Char) :=
  let value := trim crontabWhitespace text
  match value with
  | [] => .ok value
  | first :: rest =>
    if quotes.contains first then
      if rest ≠ [] && rest.getLast? = some first then .ok rest.dropLast else .error (.quote line)
    else .ok value

/-- What is left of a line behind some of its fields. -/
def skipFields (number : ℕ) : ℕ → List Char → Except InvalidCrontab (List Char)
  | 0, remaining => .ok remaining
  | fields + 1, remaining =>
    match remaining.findIdx? isBlank with
    | none => .error (.line number)
    | some stop =>
      if stop = 0 then .error (.line number)
      else skipFields number fields ((remaining.drop stop).dropWhile isBlank)

/-- The schedule and the command of a line. -/
def jobLine (line : List Char) (number : ℕ) : Except InvalidCrontab (List Char × List Char) := do
  let fields := if line.head? = some '@' then 1 else 5
  let remaining ← skipFields number fields line
  refuse (remaining = []) (.line number)
  let commandOffset := line.length - remaining.length
  return ((line.take commandOffset).rdropWhile isBlank, remaining)

/-! ### The crontab -/

/-- What has been read: the variables set so far and the jobs. -/
structure Reading where
  environment : ExtTreeMap String TenantValue
  jobs : List CronJobDefinition

/-- A line sets a variable. -/
def readAssignment (scheduler : Scheduler) (reading : Reading) (number : ℕ)
    (name text : List Char) : Except InvalidCrontab Reading := do
  refuse (isEnvironmentName (String.ofList name) = false) (.environment number)
  let value ← environmentValue text number
  refuse (String.ofList name = "CRON_TZ" ∧ String.ofList value ≠ scheduler.timeZone)
    (.timeZone number)
  let tenantValue ← ofOption (.environment number) (TenantValue.parse? (String.ofList value))
  let environment := reading.environment.insert (String.ofList name) tenantValue
  refuse (maxCronEnvironmentVariables < environment.size) (.environment number)
  return { reading with environment := environment }

/-- A line names a job, which has the variables set so far. -/
def readJob (scheduler : Scheduler) (after : ℤ) (reading : Reading) (number : ℕ)
    (line : List Char) : Except InvalidCrontab Reading := do
  refuse (reading.jobs.length = scheduler.maxJobs) .jobLimit
  let (schedule, command) ← jobLine line number
  refuse (scheduler.occurs after (String.ofList schedule) = false) (.schedule number)
  let cronSchedule ← ofOption (.schedule number) (CronSchedule.parse? (String.ofList schedule))
  let cronCommand ← ofOption (.command number) (CronCommand.parse? (String.ofList command))
  let environment ← ofOption (.environment number) (TenantEnvironment.ofMap? reading.environment)
  let job : CronJobDefinition :=
    { schedule := cronSchedule, command := cronCommand, environment := some environment }
  return { reading with jobs := reading.jobs ++ [job] }

/-- A line is read. -/
def readLine (scheduler : Scheduler) (after : ℤ) (reading : Reading) (number : ℕ)
    (piece : List Char) : Except InvalidCrontab Reading :=
  let line := (stripLineEnd piece).dropWhile crontabWhitespace
  if trim crontabWhitespace line = [] || line.head? = some '#' then .ok reading
  else if line.any fun c => c = '\r' || c.toNat = 0x2028 || c.toNat = 0x2029 then
    .error (.line number)
  else
    match environmentAssignment line with
    | some (name, text) => readAssignment scheduler reading number name text
    | none => readJob scheduler after reading number line

def readLines (scheduler : Scheduler) (after : ℤ) :
    Reading → ℕ → List (List Char) → Except InvalidCrontab Reading
  | reading, _, [] => .ok reading
  | reading, number, piece :: pieces => do
    let reading ← readLine scheduler after reading number piece
    readLines scheduler after reading (number + 1) pieces

def parseCrontab (scheduler : Scheduler) (text : String) (after : ℤ) :
    Except InvalidCrontab ParsedCrontab := do
  let crontab ← ofOption .text (Crontab.parse? text)
  let reading ← readLines scheduler after ⟨∅, []⟩ 1 (splitInclusive text.toList)
  return { jobs := reading.jobs, crontab := crontab }

/-! ### What is read -/

theorem readAssignment_eq_ok {scheduler : Scheduler} {reading after : Reading} {number : ℕ}
    {name text : List Char} (h : readAssignment scheduler reading number name text = .ok after) :
    ∃ value tenantValue, environmentValue text number = .ok value ∧
      TenantValue.parse? (String.ofList value) = some tenantValue ∧
      after = { reading with
        environment := reading.environment.insert (String.ofList name) tenantValue } ∧
      after.environment.size ≤ maxCronEnvironmentVariables := by
  obtain ⟨_, -, h⟩ := bind_eq_ok_iff.mp h
  obtain ⟨value, hvalue, h⟩ := bind_eq_ok_iff.mp h
  obtain ⟨_, -, h⟩ := bind_eq_ok_iff.mp h
  obtain ⟨tenantValue, htenant, h⟩ := bind_eq_ok_iff.mp h
  obtain ⟨_, hsize, h⟩ := bind_eq_ok_iff.mp h
  obtain rfl := Except.ok.inj h
  exact ⟨value, tenantValue, hvalue, ofOption_eq_ok_iff.mp htenant, rfl,
    Nat.le_of_not_lt (refuse_eq_ok_iff.mp hsize)⟩

theorem readJob_eq_ok {scheduler : Scheduler} {instant : ℤ} {reading after : Reading} {number : ℕ}
    {line : List Char} (h : readJob scheduler instant reading number line = .ok after) :
    ∃ fields schedule command environment, jobLine line number = .ok fields ∧
      CronSchedule.parse? (String.ofList fields.1) = some schedule ∧
      CronCommand.parse? (String.ofList fields.2) = some command ∧
      TenantEnvironment.ofMap? reading.environment = some environment ∧
      after = { reading with jobs := reading.jobs ++ [⟨schedule, command, some environment⟩] } := by
  obtain ⟨_, -, h⟩ := bind_eq_ok_iff.mp h
  obtain ⟨fields, hfields, h⟩ := bind_eq_ok_iff.mp h
  obtain ⟨_, -, h⟩ := bind_eq_ok_iff.mp h
  obtain ⟨schedule, hschedule, h⟩ := bind_eq_ok_iff.mp h
  obtain ⟨command, hcommand, h⟩ := bind_eq_ok_iff.mp h
  obtain ⟨environment, henvironment, h⟩ := bind_eq_ok_iff.mp h
  obtain rfl := Except.ok.inj h
  exact ⟨fields, schedule, command, environment, hfields, ofOption_eq_ok_iff.mp hschedule,
    ofOption_eq_ok_iff.mp hcommand, ofOption_eq_ok_iff.mp henvironment, rfl⟩

theorem parseCrontab_eq_ok {scheduler : Scheduler} {text : String} {instant : ℤ}
    {parsed : ParsedCrontab} (h : parseCrontab scheduler text instant = .ok parsed) :
    ∃ reading, Crontab.parse? text = some parsed.crontab ∧
      readLines scheduler instant ⟨∅, []⟩ 1 (splitInclusive text.toList) = .ok reading ∧
      parsed.jobs = reading.jobs := by
  obtain ⟨crontab, hcrontab, h⟩ := bind_eq_ok_iff.mp h
  obtain ⟨reading, hreading, h⟩ := bind_eq_ok_iff.mp h
  obtain rfl := Except.ok.inj h
  exact ⟨reading, ofOption_eq_ok_iff.mp hcrontab, hreading, rfl⟩

theorem parsed_text {scheduler : Scheduler} {text : String} {instant : ℤ} {parsed : ParsedCrontab}
    (h : parseCrontab scheduler text instant = .ok parsed) : parsed.crontab.text = text := by
  obtain ⟨-, hcrontab, -⟩ := parseCrontab_eq_ok h
  exact Crontab.text_of_parse? hcrontab

/-! ### How many variables a job has -/

theorem length_of_ofMap? {values : ExtTreeMap String TenantValue} {environment : TenantEnvironment}
    (h : TenantEnvironment.ofMap? values = some environment) :
    environment.entries.length = values.size := by
  unfold TenantEnvironment.ofMap? at h
  split at h
  · cases h
    exact ExtTreeMap.length_toList
  · cases h

/-- Neither what is set nor what a job has got passes the limit. -/
structure Reading.Within (reading : Reading) : Prop where
  size : reading.environment.size ≤ maxCronEnvironmentVariables
  jobs : ∀ job ∈ reading.jobs, job.Small

theorem within_readLine {scheduler : Scheduler} {instant : ℤ} {reading after : Reading}
    {number : ℕ} {piece : List Char} (hwithin : reading.Within)
    (h : readLine scheduler instant reading number piece = .ok after) : after.Within := by
  unfold readLine at h
  simp only at h
  split at h
  · exact Except.ok.inj h ▸ hwithin
  split at h
  · cases h
  split at h
  next name text hassigns =>
    obtain ⟨value, tenantValue, -, -, rfl, hsize⟩ := readAssignment_eq_ok h
    exact ⟨hsize, hwithin.jobs⟩
  next hassigns =>
    obtain ⟨fields, schedule, command, environment, -, -, -, henvironment, rfl⟩ := readJob_eq_ok h
    refine ⟨hwithin.size, fun job hjob => ?_⟩
    rcases List.mem_append.mp hjob with hjob | hjob
    · exact hwithin.jobs job hjob
    · obtain rfl := List.mem_singleton.mp hjob
      rintro _ ⟨⟩
      exact (length_of_ofMap? henvironment).trans_le hwithin.size

theorem within_readLines {scheduler : Scheduler} {instant : ℤ} {pieces : List (List Char)}
    {reading after : Reading} {number : ℕ} (hwithin : reading.Within)
    (h : readLines scheduler instant reading number pieces = .ok after) : after.Within := by
  induction pieces generalizing reading number with
  | nil => exact Except.ok.inj h ▸ hwithin
  | cons piece pieces ih =>
    obtain ⟨next, hnext, h⟩ := bind_eq_ok_iff.mp h
    exact ih (within_readLine hwithin hnext) h

theorem environment_le {scheduler : Scheduler} {text : String} {instant : ℤ}
    {parsed : ParsedCrontab} (h : parseCrontab scheduler text instant = .ok parsed) :
    ∀ job ∈ parsed.jobs, job.Small := by
  obtain ⟨reading, -, hreading, hjobs⟩ := parseCrontab_eq_ok h
  rw [hjobs]
  exact (within_readLines ⟨by simp, by simp⟩ hreading).jobs

end Nibrunner.Cron

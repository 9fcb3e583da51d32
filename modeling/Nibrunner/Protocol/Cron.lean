import Mathlib.Data.List.DropRight
import Mathlib.Data.List.Sort
import Nibrunner.ForStd.IdMap
import Nibrunner.Protocol.Identifier
import Nibrunner.Protocol.Tenant

/-!
# What a cron table holds

The wire types of a crontab and of the jobs it names. Each is a text with a check; a job also has
the environment its command runs in.
-/

namespace Nibrunner.Cron

open Std

def maxCrontabBytes : ℕ := 65536

def maxCronEnvironmentVariables : ℕ := 256

def maxCronScheduleLength : ℕ := 256

def maxCronCommandLength : ℕ := 4096

def isBlank (c : Char) : Bool := c = ' ' || c = '\t'

/-- A text without the characters of a kind at its ends. -/
def trim (p : Char → Bool) (text : List Char) : List Char := (text.dropWhile p).rdropWhile p

def isNonemptyLine (value : List Char) : Bool :=
  trim isBlank value ≠ [] && !value.any fun c => c = Char.ofNat 0 || c = '\r' || c = '\n'

structure CronSchedule where
  text : String
  length_le : text.length ≤ maxCronScheduleLength
  line : isNonemptyLine text.toList = true
deriving DecidableEq

structure CronCommand where
  text : String
  secret : text.utf8ByteSize ≤ maxSecretLength
  size_le : text.utf8ByteSize ≤ maxCronCommandLength
  line : isNonemptyLine text.toList = true

instance : DecidableEq CronCommand := fun a b =>
  decidable_of_iff (a.text = b.text) (by cases a; cases b; simp)

structure Crontab where
  text : String
  size_le : text.utf8ByteSize ≤ maxCrontabBytes
  nul : Char.ofNat 0 ∉ text.toList
deriving DecidableEq

def CronSchedule.parse? (text : String) : Option CronSchedule :=
  if h : text.length ≤ maxCronScheduleLength ∧ isNonemptyLine text.toList = true then
    some ⟨text, h.1, h.2⟩
  else none

def CronCommand.parse? (text : String) : Option CronCommand :=
  if h : text.utf8ByteSize ≤ maxSecretLength ∧ text.utf8ByteSize ≤ maxCronCommandLength ∧
      isNonemptyLine text.toList = true then
    some ⟨text, h.1, h.2.1, h.2.2⟩
  else none

def Crontab.parse? (text : String) : Option Crontab :=
  if h : text.utf8ByteSize ≤ maxCrontabBytes ∧ Char.ofNat 0 ∉ text.toList then
    some ⟨text, h.1, h.2⟩
  else none

/-- The crontab without a line. -/
def Crontab.empty : Crontab := ⟨"", by decide, by decide⟩

structure CronJobDefinition where
  schedule : CronSchedule
  command : CronCommand
  environment : Option TenantEnvironment
deriving DecidableEq

/-- A job has no more variables than a stored one may have. -/
def CronJobDefinition.Small (job : CronJobDefinition) : Prop :=
  ∀ environment ∈ job.environment, environment.entries.length ≤ maxCronEnvironmentVariables

structure CronTable where
  appId : AppId
  deploymentId : DeploymentId
  jobs : List CronJobDefinition
  crontab : Option Crontab
deriving DecidableEq

@[simp] theorem CronSchedule.parse?_text (schedule : CronSchedule) :
    parse? schedule.text = some schedule := dif_pos ⟨schedule.length_le, schedule.line⟩

@[simp] theorem CronCommand.parse?_text (command : CronCommand) :
    parse? command.text = some command := dif_pos ⟨command.secret, command.size_le, command.line⟩

@[simp] theorem Crontab.parse?_text (crontab : Crontab) : parse? crontab.text = some crontab :=
  dif_pos ⟨crontab.size_le, crontab.nul⟩

theorem CronSchedule.text_of_parse? {text : String} {schedule : CronSchedule}
    (h : parse? text = some schedule) : schedule.text = text := by
  obtain ⟨_, ⟨⟩⟩ := Option.dite_none_right_eq_some.mp h
  rfl

theorem CronCommand.text_of_parse? {text : String} {command : CronCommand}
    (h : parse? text = some command) : command.text = text := by
  obtain ⟨_, ⟨⟩⟩ := Option.dite_none_right_eq_some.mp h
  rfl

theorem Crontab.text_of_parse? {text : String} {crontab : Crontab}
    (h : parse? text = some crontab) : crontab.text = text := by
  obtain ⟨_, ⟨⟩⟩ := Option.dite_none_right_eq_some.mp h
  rfl

end Nibrunner.Cron

namespace Nibrunner

open Std

/-! ### Values and environments -/

def TenantValue.parse? (text : String) : Option TenantValue :=
  if h : text.utf8ByteSize ≤ maxSecretLength ∧ namesOfferedRuntimeValues text.toList = true then
    some ⟨text, h.1, h.2⟩
  else none

@[simp] theorem TenantValue.parse?_text (value : TenantValue) : parse? value.text = some value :=
  dif_pos ⟨value.size_le, value.offered⟩

theorem TenantValue.text_of_parse? {text : String} {value : TenantValue}
    (h : parse? text = some value) : value.text = text := by
  obtain ⟨_, ⟨⟩⟩ := Option.dite_none_right_eq_some.mp h
  rfl

theorem lt_of_compare_eq_lt {a b : String} (h : compare a b = .lt) : a < b := by
  have h : compareOfLessAndEq a b = .lt := h
  unfold compareOfLessAndEq at h
  split at h
  · assumption
  · split at h <;> cases h

/-- The names of a map are in their order. -/
theorem sorted_toList (values : ExtTreeMap String TenantValue) :
    (values.toList.map Prod.fst).Pairwise (· < ·) := by
  rw [List.pairwise_map]
  exact values.ordered_keys_toList.imp lt_of_compare_eq_lt

namespace TenantEnvironment

def ofMap? (values : ExtTreeMap String TenantValue) : Option TenantEnvironment :=
  if h : ∀ entry ∈ values.toList, isEnvironmentName entry.1 = true then
    some ⟨values.toList, sorted_toList values, h⟩
  else none

/-- The map of some entries. -/
def mapOf (entries : List (String × TenantValue)) : ExtTreeMap String TenantValue :=
  entries.foldl (fun values entry => values.insert entry.1 entry.2) ∅

theorem nodup_names (environment : TenantEnvironment) :
    (environment.entries.map Prod.fst).Nodup :=
  environment.sorted.imp fun h => String.ne_of_lt h

theorem toList_mapOf (environment : TenantEnvironment) :
    (mapOf environment.entries).toList = environment.entries := by
  have hsorted : environment.entries.Pairwise fun a b => a.1 < b.1 :=
    List.pairwise_map.mp environment.sorted
  have hmap : (mapOf environment.entries).toList.Pairwise fun a b => a.1 < b.1 :=
    List.pairwise_map.mp (sorted_toList _)
  have : Std.Irrefl fun a b : String × TenantValue => a.1 < b.1 := ⟨fun a => String.lt_irrefl a.1⟩
  have : Std.Antisymm fun a b : String × TenantValue => a.1 < b.1 :=
    ⟨fun a b h h' => absurd (String.lt_trans h h') (String.lt_irrefl a.1)⟩
  refine hmap.eq_of_mem_iff hsorted fun entry => ?_
  rw [ExtTreeMap.mem_toList_iff_getElem?_eq_some]
  constructor
  · intro h
    rcases ExtTreeMap.getElem?_foldl_insert Prod.fst Prod.snd _ _ _ h with ⟨other, hmem, heq⟩ | h
    · exact (Prod.ext heq.1 heq.2 : other = entry) ▸ hmem
    · simp at h
  · intro h
    exact ExtTreeMap.getElem?_foldl_insert_of_mem Prod.fst Prod.snd environment.nodup_names ∅ h

@[simp] theorem ofMap?_mapOf (environment : TenantEnvironment) :
    ofMap? (mapOf environment.entries) = some environment := by
  obtain ⟨entries, sorted, names⟩ := environment
  have hlist := toList_mapOf ⟨entries, sorted, names⟩
  simp only [ofMap?, hlist]
  exact dif_pos names

end TenantEnvironment

end Nibrunner

import Mathlib.Data.List.Pairwise
import Nibrunner.Cron.Schedule
import Nibrunner.ForStd.IdMap
import Nibrunner.ForStd.Run

/-!
# The cron scheduler

A scheduler holds the jobs of the tables it was last given, each with the time of its next run.
`synchronize` takes up tables and carries over the jobs of a table that did not change; `due`
returns the runs whose time has come and moves their jobs on. Both read the clock, which may go
back.

`Scheduling` is a scheduler with a record for every job: when its table was taken up, which reading
its next time was last computed from, and its runs since.

* `runs_exact`: **no run is repeated and none is invented**, in every run whose readings find the
  occurrences in order. Each run of a job is at the first occurrence after the reading its time was
  computed from, and they increase.
* `not_runs_exact`: over a gap that spans midnight a run is skipped.
-/

namespace Nibrunner.Cron

open Except Std

structure JobKey where
  appId : AppId
  deploymentId : DeploymentId
  index : ℕ
deriving DecidableEq

namespace JobKey

instance : Ord JobKey :=
  ⟨compareLex (compareOn appId) (compareLex (compareOn deploymentId) (compareOn index))⟩

instance : TransOrd JobKey :=
  inferInstanceAs (TransCmp
    (compareLex (compareOn appId) (compareLex (compareOn deploymentId) (compareOn index))))

instance : LawfulEqOrd JobKey where
  eq_of_compare {a b} h := by
    have hthen : (compare a.appId b.appId).then
        ((compare a.deploymentId b.deploymentId).then (compare a.index b.index)) = .eq := h
    rw [Ordering.then_eq_eq, Ordering.then_eq_eq] at hthen
    obtain ⟨happ, hdeployment, hindex⟩ := hthen
    obtain ⟨appId, deploymentId, index⟩ := a
    obtain rfl : appId = b.appId := LawfulEqOrd.eq_of_compare happ
    obtain rfl : deploymentId = b.deploymentId := LawfulEqOrd.eq_of_compare hdeployment
    obtain rfl : index = b.index := LawfulEqOrd.eq_of_compare hindex
    rfl

end JobKey

structure ScheduledRun where
  key : JobKey
  job : CronJobDefinition
  scheduledAt : DateTime
deriving DecidableEq

structure ScheduledJob where
  job : CronJobDefinition
  schedule : ParsedSchedule
  next : DateTime
deriving DecidableEq

structure CronScheduler where
  jobs : ExtTreeMap JobKey ScheduledJob
  tables : ExtTreeMap AppId CronTable

/-- A job in its table, by its index. -/
structure TableEntry where
  table : CronTable
  index : ℕ
  job : CronJobDefinition

def TableEntry.key (entry : TableEntry) : JobKey where
  appId := entry.table.appId
  deploymentId := entry.table.deploymentId
  index := entry.index

/-- The jobs of tables, in the order the loops over them go. -/
def tableEntries (tables : List CronTable) : List TableEntry :=
  tables.flatMap fun table => table.jobs.zipIdx.map fun entry => ⟨table, entry.2, entry.1⟩

namespace CronScheduler

def new : CronScheduler := ⟨∅, ∅⟩

variable (zone : TimeZone)

/-- The job an entry is carried over from: one the scheduler holds, of a table that did not
change. -/
def heldFor (s : CronScheduler) (entry : TableEntry) : Option ScheduledJob :=
  if s.tables[entry.table.appId]? = some entry.table then s.jobs[entry.key]? else none

def takeUp (now : DateTime) (job : CronJobDefinition) :
    Except InvalidCronSchedule ScheduledJob := do
  let schedule ← ParsedSchedule.parse job.schedule.text
  let next ← schedule.nextAfter zone now
  return { job, schedule, next }

def schedule (s : CronScheduler) (now : DateTime) (entry : TableEntry) :
    Except InvalidCronSchedule ScheduledJob :=
  match s.heldFor entry with
  | some held => .ok held
  | none => takeUp zone now entry.job

def synchronize (s : CronScheduler) (tables : List CronTable) (now : DateTime) :
    Except InvalidCronSchedule CronScheduler := do
  let jobs ← (tableEntries tables).foldlM
    (fun jobs entry => (s.schedule zone now entry).map (jobs.insert entry.key)) ∅
  return { jobs := jobs, tables := ExtTreeMap.indexBy CronTable.appId tables }

/-- A job after a call of `due`, unless it is no longer held. -/
def move (now : DateTime) (held : ScheduledJob) : Option ScheduledJob :=
  if now < held.next then some held
  else
    match held.schedule.nextAfter zone now with
    | .ok next => some { held with next := next }
    | .error _ => none

/-- The run of a job that a call of `due` returns. -/
def runOf (now : DateTime) (key : JobKey) (held : ScheduledJob) : Option ScheduledRun :=
  if now < held.next then none
  else
    match held.schedule.nextAfter zone now with
    | .ok _ => some { key := key, job := held.job, scheduledAt := held.next }
    | .error _ => none

def due (s : CronScheduler) (now : DateTime) : CronScheduler × List ScheduledRun :=
  ({ s with jobs := s.jobs.filterMap fun _ held => move zone now held },
    s.jobs.toList.filterMap fun held => runOf zone now held.1 held.2)

end CronScheduler

/-! ### Runs of a scheduler -/

/-- A run of a job: the reading it was returned at, and the one its time was computed from. -/
structure Ran where
  scheduledAt : DateTime
  reading : DateTime
  computedFrom : DateTime

/-- What became of a job since its table was taken up. -/
structure JobRecord where
  takenUp : DateTime
  computedFrom : DateTime
  runs : List Ran

namespace JobRecord

def new (now : DateTime) : JobRecord := { takenUp := now, computedFrom := now, runs := [] }

def ran (now : DateTime) (run : ScheduledRun) (record : JobRecord) : JobRecord :=
  { record with
    computedFrom := now
    runs := record.runs ++ [⟨run.scheduledAt, now, record.computedFrom⟩] }

end JobRecord

/-- A call of the scheduler, with its reading of the clock. -/
inductive SchedulerCall where
  | synchronize (tables : List CronTable) (now : DateTime)
  | due (now : DateTime)

structure Scheduling where
  scheduler : CronScheduler
  records : ExtTreeMap JobKey JobRecord

namespace Scheduling

def new : Scheduling := ⟨CronScheduler.new, ∅⟩

/-- The record of an entry: a job that is carried over keeps its own. -/
def recordFor (s : Scheduling) (now : DateTime) (entry : TableEntry) : JobRecord :=
  match s.scheduler.heldFor entry with
  | some _ => (s.records[entry.key]?).getD (JobRecord.new now)
  | none => JobRecord.new now

def takenUp (s : Scheduling) (tables : List CronTable) (now : DateTime) :
    ExtTreeMap JobKey JobRecord :=
  (tableEntries tables).foldl
    (fun records entry => records.insert entry.key (s.recordFor now entry)) ∅

def note (records : ExtTreeMap JobKey JobRecord) (now : DateTime) (runs : List ScheduledRun) :
    ExtTreeMap JobKey JobRecord :=
  runs.foldl (fun records run => records.modify run.key (JobRecord.ran now run)) records

def step (zone : TimeZone) (s : Scheduling) : SchedulerCall → Scheduling
  | .synchronize tables now =>
    match s.scheduler.synchronize zone tables now with
    | .ok scheduler => ⟨scheduler, s.takenUp tables now⟩
    | .error _ => s
  | .due now =>
    let (scheduler, runs) := s.scheduler.due zone now
    ⟨scheduler, note s.records now runs⟩

end Scheduling

/-- What is true of a job that is held. -/
structure JobRecord.Exact (zone : TimeZone) (record : JobRecord) (held : ScheduledJob) : Prop where
  parsed : ParsedSchedule.parse held.job.schedule.text = .ok held.schedule
  /-- Its next time is the first occurrence after the reading it was computed from. -/
  next : IsLeast {t | record.computedFrom < t ∧ held.schedule.Occurrence zone t} held.next
  /-- So was that of each of its runs, which was returned no earlier. -/
  runs : ∀ ran ∈ record.runs, ran.scheduledAt ≤ ran.reading ∧
    IsLeast {t | ran.computedFrom < t ∧ held.schedule.Occurrence zone t} ran.scheduledAt
  /-- The times are computed from the reading the table was taken up at, and then from the one the
  run before was returned at. -/
  chain : record.takenUp :: record.runs.map Ran.reading =
    record.runs.map Ran.computedFrom ++ [record.computedFrom]
  increasing : (record.takenUp :: record.runs.map Ran.scheduledAt ++ [held.next]).Pairwise (· < ·)

namespace Scheduling

def Exact (zone : TimeZone) (s : Scheduling) : Prop :=
  ∀ (key : JobKey) (held : ScheduledJob), s.scheduler.jobs[key]? = some held →
    ∃ record, s.records[key]? = some record ∧ record.Exact zone held

/-- The tables name one table of the app, which is the one the scheduler holds. -/
def Unchanged (s : Scheduling) (tables : List CronTable) (table : CronTable) : Prop :=
  table ∈ tables ∧ (∀ t ∈ tables, t.appId = table.appId → t = table) ∧
    s.scheduler.tables[table.appId]? = some table

/-- What one call does. -/
def CallExact (zone : TimeZone) (s : Scheduling) : SchedulerCall → Prop
  | .synchronize tables now =>
    (∀ e, s.scheduler.synchronize zone tables now = .error e →
      s.step zone (.synchronize tables now) = s) ∧
    ∀ scheduler, s.scheduler.synchronize zone tables now = .ok scheduler →
      ∀ table, s.Unchanged tables table → ∀ (index : ℕ) (held : ScheduledJob) (key : JobKey),
        index < table.jobs.length → key = ⟨table.appId, table.deploymentId, index⟩ →
        s.scheduler.jobs[key]? = some held →
          scheduler.jobs[key]? = some held ∧
            (s.step zone (.synchronize tables now)).records[key]? = s.records[key]?
  | .due now =>
    let s' := s.step zone (.due now)
    let runs := (s.scheduler.due zone now).2
    (runs.map ScheduledRun.key).Nodup ∧
    (∀ run ∈ runs, ∃ record held, s.records[run.key]? = some record ∧
      s.scheduler.jobs[run.key]? = some held ∧ run.job = held.job ∧ run.scheduledAt ≤ now ∧
      IsLeast {t | record.computedFrom < t ∧ held.schedule.Occurrence zone t} run.scheduledAt ∧
      s'.records[run.key]? = some (record.ran now run)) ∧
    ∀ (key : JobKey) (held : ScheduledJob), s'.scheduler.jobs[key]? = some held →
      ∃ record, s'.records[key]? = some record ∧
        IsLeast {t | max now record.computedFrom < t ∧ held.schedule.Occurrence zone t} held.next

/-- The readings that next times are computed from find the occurrences in order. -/
def InOrder (zone : TimeZone) (s : Scheduling) : SchedulerCall → Prop
  | .synchronize tables now => ∀ entry ∈ tableEntries tables, s.scheduler.heldFor entry = none →
    ∀ schedule, ParsedSchedule.parse entry.job.schedule.text = .ok schedule →
      schedule.InOrder zone now
  | .due now => ∀ (key : JobKey) (held : ScheduledJob), s.scheduler.jobs[key]? = some held →
    held.next ≤ now → held.schedule.InOrder zone now

end Scheduling

/-! ### One job -/

variable {zone : TimeZone} {now : DateTime} {held : ScheduledJob} {record : JobRecord}

/-- A job that is taken up. -/
theorem JobRecord.exact_new {job : CronJobDefinition}
    (h : CronScheduler.takeUp zone now job = .ok held)
    (horder : ∀ schedule, ParsedSchedule.parse job.schedule.text = .ok schedule →
      schedule.InOrder zone now) :
    (JobRecord.new now).Exact zone held := by
  simp only [CronScheduler.takeUp, bind_eq_ok_iff] at h
  obtain ⟨schedule, hparse, next, hnext, hheld⟩ := h
  obtain rfl : ⟨job, schedule, next⟩ = held := Except.ok.inj hheld
  exact {
    parsed := hparse
    next := (ParsedSchedule.nextAfter_first_iff hnext).mpr (horder schedule hparse)
    runs := fun ran h => absurd h List.not_mem_nil
    chain := rfl
    increasing := by
      have hlt : now < next := ParsedSchedule.lt_nextAfter hnext
      simpa [JobRecord.new] using hlt }

/-- A job that is run and moved on. -/
theorem JobRecord.Exact.ran (h : record.Exact zone held) {run : ScheduledRun} {next : DateTime}
    (hrun : run.scheduledAt = held.next) (hdue : held.next ≤ now)
    (hnext : held.schedule.nextAfter zone now = .ok next)
    (horder : held.schedule.InOrder zone now) :
    (record.ran now run).Exact zone { held with next := next } where
  parsed := h.parsed
  next := (ParsedSchedule.nextAfter_first_iff hnext).mpr horder
  runs := by
    intro ran hran
    rcases List.mem_append.mp hran with hran | hran
    · exact h.runs ran hran
    · obtain rfl := List.mem_singleton.mp hran
      exact ⟨hrun ▸ hdue, hrun ▸ h.next⟩
  chain := by
    have hchain := congrArg (· ++ [now]) h.chain
    simpa [JobRecord.ran] using hchain
  increasing := by
    have hlt : now < next := ParsedSchedule.lt_nextAfter hnext
    have hlast : ∀ t ∈ record.takenUp :: record.runs.map Ran.scheduledAt ++ [held.next],
        t < next := by
      intro t ht
      rcases List.mem_append.mp ht with ht | ht
      · have := (List.pairwise_append.mp h.increasing).2.2 t ht held.next (by simp)
        exact (this.trans_le hdue).trans hlt
      · obtain rfl := List.mem_singleton.mp ht
        exact hdue.trans_lt hlt
    have hall := List.pairwise_append.mpr ⟨h.increasing, List.pairwise_singleton (· < ·) next,
      fun t ht u hu => List.mem_singleton.mp hu ▸ hlast t ht⟩
    simpa [JobRecord.ran, hrun] using hall

/-! ### Calls -/

namespace CronScheduler

variable (s : CronScheduler)

theorem key_of_runOf {key : JobKey} {run : ScheduledRun}
    (h : runOf zone now key held = some run) : run.key = key := by
  rw [runOf] at h
  split at h
  · exact absurd h (by simp)
  · split at h
    · rw [← Option.some.inj h]
    · exact absurd h (by simp)

/-- The runs that are returned are those of the jobs that are held. -/
theorem mem_due_iff {run : ScheduledRun} :
    run ∈ (s.due zone now).2 ↔
      ∃ held, s.jobs[run.key]? = some held ∧ runOf zone now run.key held = some run := by
  simp only [due, List.mem_filterMap, Prod.exists, ExtTreeMap.mem_toList_iff_getElem?_eq_some]
  constructor
  · rintro ⟨key, held, hheld, hrun⟩
    obtain rfl := key_of_runOf hrun
    exact ⟨held, hheld, hrun⟩
  · rintro ⟨held, hheld, hrun⟩
    exact ⟨run.key, held, hheld, hrun⟩

/-- A job has one run at most. -/
theorem nodup_due : ((s.due zone now).2.map ScheduledRun.key).Nodup := by
  rw [List.Nodup, List.pairwise_map, due, List.pairwise_filterMap]
  refine s.jobs.distinct_keys_toList.imp fun {a b} hne run hrun run' hrun' heq => ?_
  rw [key_of_runOf hrun, key_of_runOf hrun'] at heq
  exact hne (by rw [heq]; exact ReflOrd.compare_self)

theorem getElem?_due (key : JobKey) :
    (s.due zone now).1.jobs[key]? = s.jobs[key]?.bind (move zone now) :=
  ExtTreeMap.getElem?_filterMap'

/-- A job is left alone, or it is run and moved on. -/
theorem move_cases {held' : ScheduledJob} (h : move zone now held = some held') (key : JobKey) :
    (now < held.next ∧ held' = held ∧ runOf zone now key held = none) ∨
      ∃ next, held.next ≤ now ∧ held.schedule.nextAfter zone now = .ok next ∧
        held' = { held with next := next } ∧
        runOf zone now key held = some ⟨key, held.job, held.next⟩ := by
  rw [move] at h
  split at h
  · rename_i hlt
    exact .inl ⟨hlt, (Option.some.inj h).symm, if_pos hlt⟩
  · rename_i hlt
    split at h
    · rename_i next hnext
      refine .inr ⟨next, Int.not_lt.mp hlt, hnext, (Option.some.inj h).symm, ?_⟩
      rw [runOf, if_neg hlt, hnext]
    · exact absurd h (by simp)

theorem cases_of_runOf {key : JobKey} {run : ScheduledRun}
    (h : runOf zone now key held = some run) :
    held.next ≤ now ∧ run.job = held.job ∧ run.scheduledAt = held.next := by
  rw [runOf] at h
  split at h
  · exact absurd h (by simp)
  · rename_i hlt
    split at h
    · rw [← Option.some.inj h]
      exact ⟨Int.not_lt.mp hlt, rfl, rfl⟩
    · exact absurd h (by simp)

end CronScheduler

namespace Scheduling

variable {s : Scheduling} {key : JobKey}

theorem note_of_notMem {records : ExtTreeMap JobKey JobRecord} {runs : List ScheduledRun}
    (h : key ∉ runs.map ScheduledRun.key) : (note records now runs)[key]? = records[key]? := by
  induction runs generalizing records with
  | nil => rfl
  | cons run runs ih =>
    rw [List.map_cons, List.mem_cons, not_or] at h
    rw [note, List.foldl_cons, ← note, ih h.2, ExtTreeMap.getElem?_modify_ite,
      if_neg fun heq => h.1 heq.symm]

theorem note_of_mem {records : ExtTreeMap JobKey JobRecord} {runs : List ScheduledRun}
    (hruns : (runs.map ScheduledRun.key).Nodup) {run : ScheduledRun} (h : run ∈ runs) :
    (note records now runs)[run.key]? = records[run.key]?.map (JobRecord.ran now run) := by
  induction runs generalizing records with
  | nil => exact absurd h List.not_mem_nil
  | cons first runs ih =>
    rw [List.map_cons, List.nodup_cons] at hruns
    rw [note, List.foldl_cons, ← note]
    rcases List.mem_cons.mp h with rfl | h
    · rw [note_of_notMem hruns.1, ExtTreeMap.getElem?_modify_ite, if_pos rfl]
    · rw [ih hruns.2 h, ExtTreeMap.getElem?_modify_ite, if_neg]
      exact fun heq => hruns.1 (heq ▸ List.mem_map_of_mem h)

/-- A job after a call of `due`: it was left alone, or it was run. -/
theorem cases_of_due {held : ScheduledJob}
    (h : (s.step zone (.due now)).scheduler.jobs[key]? = some held) :
    ∃ held₀, s.scheduler.jobs[key]? = some held₀ ∧
      ((now < held₀.next ∧ held = held₀ ∧
          (s.step zone (.due now)).records[key]? = s.records[key]?) ∨
        ∃ next, held₀.next ≤ now ∧ held₀.schedule.nextAfter zone now = .ok next ∧
          held = { held₀ with next := next } ∧
          (s.step zone (.due now)).records[key]? =
            s.records[key]?.map (JobRecord.ran now ⟨key, held₀.job, held₀.next⟩)) := by
  have h : (s.scheduler.due zone now).1.jobs[key]? = some held := h
  rw [CronScheduler.getElem?_due, Option.bind_eq_some_iff] at h
  obtain ⟨held₀, hheld, hmove⟩ := h
  refine ⟨held₀, hheld, ?_⟩
  obtain ⟨hlt, heq, hnone⟩ | ⟨next, hle, hnext, heq, hrun⟩ := CronScheduler.move_cases hmove key
  · refine .inl ⟨hlt, heq, note_of_notMem fun hmem => ?_⟩
    obtain ⟨run, hrun, hkey⟩ := List.mem_map.mp hmem
    obtain ⟨held', hheld', hof⟩ := s.scheduler.mem_due_iff.mp hrun
    rw [hkey] at hheld' hof
    obtain rfl := Option.some.inj (hheld.symm.trans hheld')
    exact absurd (hnone.symm.trans hof) (by simp)
  · refine .inr ⟨next, hle, hnext, heq, ?_⟩
    have hmem : ⟨key, held₀.job, held₀.next⟩ ∈ (s.scheduler.due zone now).2 :=
      s.scheduler.mem_due_iff.mpr ⟨held₀, hheld, hrun⟩
    exact note_of_mem s.scheduler.nodup_due hmem

/-- A job after tables were taken up: it was carried over with its record, or it is new. -/
theorem cases_of_synchronize {tables : List CronTable} {scheduler : CronScheduler}
    (hsync : s.scheduler.synchronize zone tables now = .ok scheduler)
    (h : scheduler.jobs[key]? = some held) :
    ∃ entry ∈ tableEntries tables, entry.key = key ∧
      s.scheduler.schedule zone now entry = .ok held ∧
      (s.takenUp tables now)[key]? = some (s.recordFor now entry) := by
  rw [CronScheduler.synchronize, bind_eq_ok_iff] at hsync
  obtain ⟨jobs, hjobs, hscheduler⟩ := hsync
  obtain rfl := Except.ok.inj hscheduler
  obtain ⟨entry, hentry, hkey, hheld, hrecord⟩ | ⟨-, hempty⟩ :=
    ExtTreeMap.getElem?_foldlM_insert TableEntry.key (s.scheduler.schedule zone now)
      (s.recordFor now) ∅ hjobs h
  · exact ⟨entry, hentry, hkey, hheld, hrecord⟩
  · exact absurd hempty (by simp)

theorem Exact.due (hs : s.Exact zone) (horder : s.InOrder zone (.due now)) :
    (s.step zone (.due now)).Exact zone := by
  intro key held hheld
  obtain ⟨held₀, hheld₀, hcase⟩ := cases_of_due hheld
  obtain ⟨record, hrecord, hexact⟩ := hs key held₀ hheld₀
  obtain ⟨-, rfl, hsame⟩ | ⟨next, hle, hnext, rfl, hran⟩ := hcase
  · exact ⟨record, hsame.trans hrecord, hexact⟩
  · refine ⟨_, hran.trans (congrArg (Option.map _) hrecord), ?_⟩
    exact hexact.ran rfl hle hnext (horder key held₀ hheld₀ hle)

theorem Exact.synchronize (hs : s.Exact zone) {tables : List CronTable}
    (horder : s.InOrder zone (.synchronize tables now)) :
    (s.step zone (.synchronize tables now)).Exact zone := by
  rw [step]
  split
  · rename_i scheduler hsync
    intro key held hheld
    obtain ⟨entry, hentry, rfl, hschedule, hrecord⟩ := cases_of_synchronize hsync hheld
    rw [CronScheduler.schedule] at hschedule
    split at hschedule
    · rename_i held₀ hfor
      obtain rfl := Except.ok.inj hschedule
      -- A job that is carried over is held, and its record is there.
      have hjob := hfor
      rw [CronScheduler.heldFor] at hjob
      split at hjob
      · obtain ⟨record, hkept, hexact⟩ := hs entry.key held₀ hjob
        refine ⟨record, hrecord.trans ?_, hexact⟩
        rw [recordFor, hfor, hkept]
        rfl
      · exact absurd hjob (by simp)
    · rename_i hfor
      refine ⟨JobRecord.new now, hrecord.trans ?_, ?_⟩
      · rw [recordFor, hfor]
      · exact JobRecord.exact_new hschedule (horder entry hentry hfor)
  · exact hs

theorem Exact.step (hs : s.Exact zone) {call : SchedulerCall} (horder : s.InOrder zone call) :
    (s.step zone call).Exact zone := by
  cases call with
  | synchronize tables now => exact hs.synchronize horder
  | due now => exact hs.due horder

theorem exact_run {calls : List SchedulerCall}
    (h : Run.Meets (step zone) (InOrder zone) new calls) :
    (Run.run (step zone) new calls).Exact zone := by
  refine Run.Meets.invariant (I := Exact zone) (fun s call hs horder => hs.step horder) ?_ h
  intro key held hheld
  exact absurd hheld (by simp [new, CronScheduler.new])

/-- The jobs of an unchanged table are carried over. -/
theorem kept_of_unchanged (hs : s.Exact zone) {tables : List CronTable}
    {scheduler : CronScheduler} (hsync : s.scheduler.synchronize zone tables now = .ok scheduler)
    {table : CronTable} (htable : s.Unchanged tables table) {index : ℕ}
    (hindex : index < table.jobs.length) (hkey : key = ⟨table.appId, table.deploymentId, index⟩)
    (hheld : s.scheduler.jobs[key]? = some held) :
    scheduler.jobs[key]? = some held ∧ (s.takenUp tables now)[key]? = s.records[key]? := by
  obtain ⟨hmem, hone, hsame⟩ := htable
  obtain ⟨record, hrecord, -⟩ := hs key held hheld
  have hin : key ∈ (tableEntries tables).map TableEntry.key := by
    refine List.mem_map.mpr ⟨⟨table, index, table.jobs[index]⟩, ?_, hkey.symm⟩
    refine List.mem_flatMap.mpr ⟨table, hmem, ?_⟩
    refine List.mem_map.mpr ⟨(table.jobs[index], index), ?_, rfl⟩
    exact List.mem_zipIdx_iff_getElem?.mpr (List.getElem?_eq_getElem hindex)
  have hsome : scheduler.jobs[key]?.isSome := by
    rw [CronScheduler.synchronize, bind_eq_ok_iff] at hsync
    obtain ⟨jobs, hjobs, hscheduler⟩ := hsync
    obtain rfl := Except.ok.inj hscheduler
    exact ExtTreeMap.isSome_foldlM_insert TableEntry.key (s.scheduler.schedule zone now) hjobs
      (.inl hin)
  obtain ⟨held', hheld'⟩ := Option.isSome_iff_exists.mp hsome
  obtain ⟨entry, hentry, hof, hschedule, htaken⟩ := cases_of_synchronize hsync hheld'
  -- The entry is of the one table the app has.
  have htable : entry.table = table := by
    obtain ⟨t, ht, hjob⟩ := List.mem_flatMap.mp hentry
    obtain ⟨e, -, heq⟩ := List.mem_map.mp hjob
    have ht' : t = entry.table := congrArg TableEntry.table heq
    exact ht' ▸ hone t ht (ht' ▸ congrArg JobKey.appId (hof.trans hkey))
  have hfor : s.scheduler.heldFor entry = some held := by
    rw [CronScheduler.heldFor, htable, if_pos hsame, hof, hheld]
  rw [CronScheduler.schedule, hfor] at hschedule
  obtain rfl := Except.ok.inj hschedule
  refine ⟨hheld', htaken.trans ?_⟩
  rw [recordFor, hfor, hof, hrecord]
  rfl

theorem Exact.call (hs : s.Exact zone) {call : SchedulerCall} (horder : s.InOrder zone call) :
    s.CallExact zone call := by
  cases call with
  | synchronize tables now =>
    constructor
    · intro e he
      rw [Scheduling.step, he]
    · intro scheduler hsync table htable index held key hindex hkey hheld
      rw [Scheduling.step, hsync]
      exact kept_of_unchanged hs hsync htable hindex hkey hheld
  | due now =>
    refine ⟨s.scheduler.nodup_due, fun run hrun => ?_, fun key held hheld => ?_⟩
    · obtain ⟨held, hheld, hof⟩ := s.scheduler.mem_due_iff.mp hrun
      obtain ⟨record, hrecord, hexact⟩ := hs run.key held hheld
      obtain ⟨hdue, hjob, hat⟩ := CronScheduler.cases_of_runOf hof
      refine ⟨record, held, hrecord, hheld, hjob, hat ▸ hdue, hat ▸ hexact.next, ?_⟩
      exact (note_of_mem s.scheduler.nodup_due hrun).trans (congrArg (Option.map _) hrecord)
    · obtain ⟨record, hrecord, hexact⟩ := hs.due horder key held hheld
      refine ⟨record, hrecord, ?_⟩
      -- No occurrence lies between the reading the time was computed from and this one.
      have hlt : now < held.next := by
        obtain ⟨held₀, -, ⟨hlt, rfl, -⟩ | ⟨next, -, hnext, rfl, -⟩⟩ := cases_of_due hheld
        · exact hlt
        · exact ParsedSchedule.lt_nextAfter hnext
      refine ⟨⟨max_lt hlt hexact.next.1.1, hexact.next.1.2⟩, ?_⟩
      rintro t ⟨ht, hoccurs⟩
      exact hexact.next.2 ⟨(le_max_right _ _).trans_lt ht, hoccurs⟩

/-- **No run is repeated and none is invented**, in every run of calls whose readings find the
occurrences in order: of every job that is held, and by every call. -/
theorem runs_exact (zone : TimeZone) (calls : List SchedulerCall) (call : SchedulerCall)
    (h : Run.Meets (step zone) (InOrder zone) new (calls ++ [call])) :
    (Run.run (step zone) new (calls ++ [call])).Exact zone ∧
      (Run.run (step zone) new calls).CallExact zone call := by
  obtain ⟨hcalls, hcall, -⟩ := Run.meets_append.mp h
  exact ⟨exact_run h, (exact_run hcalls).call hcall⟩

/-! ### Twice before midnight on Saturdays -/

private def saturday : CronTable where
  appId := ⟨"app-one"⟩
  deploymentId := ⟨"deployment-one"⟩
  jobs := [{
    schedule := ⟨"0,30 23 * * 6", by decide, by decide⟩
    command := ⟨"backup", by decide, by decide, by decide⟩
    environment := none }]
  crontab := none

private def saturdayKey : JobKey := ⟨⟨"app-one"⟩, ⟨"deployment-one"⟩, 0⟩

/-- The midday of 2025-03-29, in UTC. -/
private def midday : DateTime := 1743249600 * nanosOfSecond

private def minutes (n : ℕ) : ℤ := n * 60 * nanosOfSecond

/-- A host in UTC runs the job at eleven and takes the half hour up next. -/
theorem runs_exact_saturday :
    let calls := [SchedulerCall.synchronize [saturday] midday]
    let call := SchedulerCall.due (midday + minutes 660)
    let s := Run.run (step TimeZone.utc) new (calls ++ [call])
    (s.scheduler.jobs[saturdayKey]?.map ScheduledJob.next = some (midday + minutes 690)) ∧
      s.Exact TimeZone.utc ∧
      (Run.run (step TimeZone.utc) new calls).CallExact TimeZone.utc call := by
  refine ⟨by decide +kernel, runs_exact TimeZone.utc _ _ ⟨?_, ?_, trivial⟩⟩
  · exact fun entry _ _ schedule _ => schedule.inOrder_utc midday
  · exact fun key held _ _ => held.schedule.inOrder_utc _

/-- The west of Greenland in the winter before and the summer after: on 2025-03-29 the clock goes
from eleven in the evening to midnight. -/
private def nuuk : TimeZone where
  offsetAt t := if t < midday + minutes 780 then -7200 else -3600
  fromLocal t :=
    if (t + 7200) * nanosOfSecond < midday + minutes 780 then
      .single ⟨(t + 7200) * nanosOfSecond, -7200⟩
    else if midday + minutes 780 ≤ (t + 3600) * nanosOfSecond then
      .single ⟨(t + 3600) * nanosOfSecond, -3600⟩
    else .none

/-- There both runs are moved to Sunday. When the first is due the second is no longer found. -/
theorem not_runs_exact :
    ¬ ∀ (zone : TimeZone) (calls : List SchedulerCall) (call : SchedulerCall),
      (Run.run (step zone) new (calls ++ [call])).Exact zone ∧
        (Run.run (step zone) new calls).CallExact zone call := by
  intro h
  let s := Run.run (step nuuk) new
    ([.synchronize [saturday] midday] ++ [.due (midday + minutes 780)])
  have hexact : s.Exact nuuk := (h nuuk [.synchronize [saturday] midday] _).1
  have hjob : s.scheduler.jobs[saturdayKey]?.map (fun held => (held.next, held.schedule)) =
      some (midday + minutes 10800,
        ⟨⟨[0, 30], false⟩, ⟨[23], false⟩, ⟨List.range' 1 31, true⟩, ⟨List.range' 1 12, true⟩,
          ⟨[6], false⟩⟩) := by decide +kernel
  have hrecord : s.records[saturdayKey]?.map JobRecord.computedFrom =
      some (midday + minutes 780) := by decide +kernel
  obtain ⟨held, hheld, hnext⟩ := Option.map_eq_some_iff.mp hjob
  obtain ⟨record, hr, hjobExact⟩ := hexact saturdayKey held hheld
  rw [hr] at hrecord
  have hfrom : record.computedFrom = midday + minutes 780 := Option.some.inj hrecord
  have hnextAt := congrArg Prod.fst hnext
  have hschedule := congrArg Prod.snd hnext
  -- The second run belongs to Saturday, and is after the reading.
  have hoccurs : held.schedule.OccursOn nuuk 20176 (midday + minutes 810) := by
    rw [show held.schedule = _ from hschedule]
    exact ⟨by decide +kernel, 23, by decide, 30, by decide, _, rfl, by decide +kernel⟩
  have hle := hjobExact.next.2 ⟨hfrom ▸ by decide, 20176, hoccurs⟩
  rw [show held.next = _ from hnextAt] at hle
  exact absurd hle (by decide)

end Scheduling

end Nibrunner.Cron

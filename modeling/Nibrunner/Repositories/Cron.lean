import Nibrunner.ForStd.Fallible
import Nibrunner.Protocol.Cron
import Nibrunner.Repositories.LastWritten

/-!
# The stored cron tables

Three tables of the host's database hold the cron tables: a row for each, a row for each of their
jobs, and a row for each variable of a job. `replaceAll` is what its transaction leaves, which
begins by deleting every table, and with it the rows that refer to it; `all` puts the tables
together again, and refuses rows no writing leaves.

A table of the database is the list of its rows as they were inserted, and the constraints of the
schema are checked at each insertion. The keys of rows compare as SQLite's do.
-/

namespace Nibrunner.Cron

open Except Std

attribute [local instance] lexOrd

def invalidRegistration : StoreError :=
  .unreadable "a cron registration contains invalid stored fields"

/-- What an insertion against a constraint of the schema fails with. -/
def constraintFailed : StoreError := .unwritable "constraint failed"

structure TableRow where
  appId : String
  deploymentId : String
  crontab : Option String

structure JobRow where
  appId : String
  jobIndex : ℤ
  schedule : String
  command : String
  hasEnvironment : ℤ

structure EnvironmentRow where
  appId : String
  jobIndex : ℤ
  name : String
  value : String

structure CronRows where
  tables : List TableRow
  jobs : List JobRow
  environment : List EnvironmentRow

namespace CronRows

def empty : CronRows := ⟨[], [], []⟩

/-! ### Insertions -/

def insertTable (rows : CronRows) (row : TableRow) : Except StoreError CronRows := do
  refuse (rows.tables.any fun other => other.appId = row.appId) constraintFailed
  return { rows with tables := rows.tables ++ [row] }

def insertJob (rows : CronRows) (row : JobRow) : Except StoreError CronRows := do
  refuse (rows.jobs.any fun other => other.appId = row.appId && other.jobIndex = row.jobIndex)
    constraintFailed
  refuse (¬(rows.tables.any fun table => table.appId = row.appId)) constraintFailed
  refuse (row.jobIndex < 0 ∨ row.hasEnvironment ≠ 0 ∧ row.hasEnvironment ≠ 1) constraintFailed
  return { rows with jobs := rows.jobs ++ [row] }

def insertEnvironment (rows : CronRows) (row : EnvironmentRow) : Except StoreError CronRows := do
  refuse (rows.environment.any fun other =>
    other.appId = row.appId && other.jobIndex = row.jobIndex && other.name = row.name)
    constraintFailed
  refuse (¬(rows.jobs.any fun job => job.appId = row.appId && job.jobIndex = row.jobIndex))
    constraintFailed
  return { rows with environment := rows.environment ++ [row] }

/-! ### Writing -/

def jobRow (appId : AppId) (i : ℕ) (job : CronJobDefinition) : JobRow where
  appId := appId.text
  jobIndex := i
  schedule := job.schedule.text
  command := job.command.text
  hasEnvironment := if job.environment.isSome then 1 else 0

def environmentRow (appId : AppId) (i : ℕ) (entry : String × TenantValue) : EnvironmentRow where
  appId := appId.text
  jobIndex := i
  name := entry.1
  value := entry.2.text

def tableRow (table : CronTable) : TableRow where
  appId := table.appId.text
  deploymentId := table.deploymentId.text
  crontab := table.crontab.map Crontab.text

/-- The variables of a job: none where it has no environment. -/
def entriesOf (job : CronJobDefinition) : List (String × TenantValue) :=
  (job.environment.map TenantEnvironment.entries).getD []

/-- A job and its variables are inserted. -/
def writeJob (appId : AppId) (rows : CronRows) (numbered : CronJobDefinition × ℕ) :
    Except StoreError CronRows := do
  let (job, i) := numbered
  refuse (2 ^ 63 ≤ i) (.unwritable "a cron job index is too large")
  let rows ← rows.insertJob (jobRow appId i job)
  (entriesOf job).foldlM (fun rows entry => rows.insertEnvironment (environmentRow appId i entry))
    rows

/-- A table and its jobs are inserted. -/
def writeTable (rows : CronRows) (table : CronTable) : Except StoreError CronRows := do
  let rows ← rows.insertTable (tableRow table)
  table.jobs.zipIdx.foldlM (writeJob table.appId) rows

def replaceAll (tables : List CronTable) : Except StoreError CronRows :=
  tables.foldlM writeTable empty

/-! ### Reading -/

/-- The variables of each job, by the job's key. -/
abbrev Environments := ExtTreeMap (String × ℤ) (ExtTreeMap String TenantValue)

def readVariable (environments : Environments) (row : EnvironmentRow) :
    Except StoreError Environments := do
  let value ← ofOption invalidRegistration (TenantValue.parse? row.value)
  let values := environments[(row.appId, row.jobIndex)]?.getD ∅
  return environments.insert (row.appId, row.jobIndex) (values.insert row.name value)

/-- The environment of a job, by whether its row says it has one. -/
def readEnvironment (hasEnvironment : ℤ) (values : ExtTreeMap String TenantValue) :
    Except StoreError (Option TenantEnvironment) :=
  if hasEnvironment = 0 ∧ values.isEmpty then .ok none
  else if hasEnvironment = 1 ∧ values.size ≤ maxCronEnvironmentVariables then
    (ofOption invalidRegistration (TenantEnvironment.ofMap? values)).map some
  else .error invalidRegistration

/-- The jobs of each app read so far, and the environments that are left. -/
structure Jobs where
  jobs : ExtTreeMap String (List CronJobDefinition)
  environments : Environments

def readJob (read : Jobs) (row : JobRow) : Except StoreError Jobs := do
  let values := read.environments[(row.appId, row.jobIndex)]?.getD ∅
  let environments := read.environments.erase (row.appId, row.jobIndex)
  let environment ← readEnvironment row.hasEnvironment values
  let definitions := read.jobs[row.appId]?.getD []
  refuse (row.jobIndex ≠ definitions.length) invalidRegistration
  let schedule ← ofOption invalidRegistration (CronSchedule.parse? row.schedule)
  let command ← ofOption invalidRegistration (CronCommand.parse? row.command)
  let job : CronJobDefinition := { schedule, command, environment }
  return { jobs := read.jobs.insert row.appId (definitions ++ [job]), environments := environments }

/-- The crontab of a row. -/
def readCrontab : Option String → Except StoreError (Option Crontab)
  | none => .ok none
  | some text => (ofOption invalidRegistration (Crontab.parse? text)).map some

/-- The tables of some rows, with the jobs that are left. -/
def readTables (jobs : ExtTreeMap String (List CronJobDefinition)) :
    List TableRow → Except StoreError
      (List CronTable × ExtTreeMap String (List CronJobDefinition))
  | [] => .ok ([], jobs)
  | row :: rows => do
    let definitions := jobs[row.appId]?.getD []
    let crontab ← readCrontab row.crontab
    let (tables, left) ← readTables (jobs.erase row.appId) rows
    let table : CronTable :=
      { appId := ⟨row.appId⟩, deploymentId := ⟨row.deploymentId⟩, jobs := definitions, crontab }
    return (table :: tables, left)

def all (rows : CronRows) : Except StoreError (List CronTable) := do
  let tables := rows.tables.mergeSort fun a b => (compare a.appId b.appId).isLE
  let jobs := rows.jobs.mergeSort fun a b =>
    (compare (a.appId, a.jobIndex) (b.appId, b.jobIndex)).isLE
  let environments ← rows.environment.foldlM readVariable ∅
  let read ← jobs.foldlM readJob { jobs := ∅, environments := environments }
  let (tables, left) ← readTables read.jobs tables
  refuse (¬left.isEmpty ∨ ¬read.environments.isEmpty) invalidRegistration
  return tables

end CronRows

end Nibrunner.Cron

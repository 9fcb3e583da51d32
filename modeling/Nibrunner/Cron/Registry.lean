import Nibrunner.ForStd.Run
import Nibrunner.Cron.Crontab
import Nibrunner.Repositories.Cron

/-!
# The cron registry

The registry keeps a cron table for each app: one without jobs from when its deployment is known,
and the one its guest registers. Each operation reads all tables, decides what to write, if
anything, and writes all of them again; the revision then moves on, which is what wakes the
scheduler. One lock is held from the read to the end.

An operation that was called is known by a number, and a step is what it does between two awaits.
A read and a write of the repository may fail, whichever they are. The daemon may also be started
anew at any time, and makes a registry over what is stored by then.

`start` and `log` are a history: what the registry began with, and for each operation that has
returned, in the order they had the lock, what it found, what it answered and what it left.
-/

namespace Nibrunner.Cron

open Except Std

inductive CronRegistryError where
  | deploymentMismatch
  | invalid (e : InvalidCrontab)
  | store (e : StoreError)
  | duplicate
deriving DecidableEq

def CronRegistryError.message : CronRegistryError → String
  | deploymentMismatch => "cron registrations must belong to the current deployment"
  | invalid e => e.message
  | store e => e.message
  | duplicate => "the cron registry contains more than one table for an app"

abbrev CronTables := ExtTreeMap AppId CronTable

namespace CronTables

/-- The tables in the order of their apps. -/
def intoValues (tables : CronTables) : List CronTable := tables.toList.map Prod.snd

/-- Tables by their apps, if no app has two. -/
def collect : CronTables → List CronTable → Except CronRegistryError CronTables
  | tables, [] => .ok tables
  | tables, table :: rest => do
    refuse (tables.contains table.appId) .duplicate
    collect (tables.insert table.appId table) rest

/-! ### Decisions -/

/-- The table of a deployment that nothing was registered for. -/
def emptyTable (appId : AppId) (deploymentId : DeploymentId) : CronTable where
  appId := appId
  deploymentId := deploymentId
  jobs := []
  crontab := none

/-- An app's table, if it is of a deployment. -/
def current (held : CronTables) (appId : AppId) (deploymentId : DeploymentId) : Option CronTable :=
  held[appId]?.filter fun table => table.deploymentId = deploymentId

/-- The table of an app's deployment: the one held for it, or one nothing was registered for. -/
def tableFor (held : CronTables) (appId : AppId) (deploymentId : DeploymentId) : CronTable :=
  (held.current appId deploymentId).getD (emptyTable appId deploymentId)

/-- The tables that are wanted, one deployment after another. -/
def wanted (held : CronTables) :
    CronTables → List (AppId × DeploymentId) → Except CronRegistryError CronTables
  | tables, [] => .ok tables
  | tables, (appId, deploymentId) :: rest => do
    refuse (tables.contains appId) .duplicate
    wanted held (tables.insert appId (held.tableFor appId deploymentId)) rest

end CronTables

inductive CronOperation where
  | synchronize (deployments : List (AppId × DeploymentId))
  | beginDeployment (appId : AppId) (deploymentId : DeploymentId)
  | replace (appId : AppId) (deploymentId : DeploymentId) (text : String) (after : ℤ)
  | list (appId : AppId) (deploymentId : DeploymentId)
  | tables

inductive CronReply where
  | done
  | crontab (crontab : Crontab)
  | tables (tables : List CronTable)
deriving DecidableEq

abbrev CronAnswer := Except CronRegistryError CronReply

/-- What an operation does once it has read the tables: it answers, or it writes some first. -/
inductive Decision where
  | answer (reply : CronReply)
  | persist (tables : CronTables)

namespace CronTables

def synchronize (held : CronTables) (deployments : List (AppId × DeploymentId)) :
    Except CronRegistryError Decision := do
  let wanted ← held.wanted ∅ deployments
  return if wanted ≠ held then .persist wanted else .answer .done

def beginDeployment (held : CronTables) (appId : AppId) (deploymentId : DeploymentId) : Decision :=
  if (held.current appId deploymentId).isSome then .answer .done
  else .persist (held.insert appId (emptyTable appId deploymentId))

def replace (scheduler : Scheduler) (held : CronTables) (appId : AppId)
    (deploymentId : DeploymentId) (text : String) (after : ℤ) :
    Except CronRegistryError Decision := do
  refuse ((held.current appId deploymentId).isNone) .deploymentMismatch
  let parsed ← (parseCrontab scheduler text after).mapError .invalid
  let replacement : CronTable :=
    { appId, deploymentId, jobs := parsed.jobs, crontab := some parsed.crontab }
  return if held[appId]? = some replacement then .answer .done
    else .persist (held.insert appId replacement)

def list (held : CronTables) (appId : AppId) (deploymentId : DeploymentId) :
    Except CronRegistryError Decision := do
  let table ← ofOption .deploymentMismatch (held.current appId deploymentId)
  return .answer (.crontab (table.crontab.getD Crontab.empty))

def decide (scheduler : Scheduler) (held : CronTables) :
    CronOperation → Except CronRegistryError Decision
  | .synchronize deployments => held.synchronize deployments
  | .beginDeployment appId deploymentId => .ok (held.beginDeployment appId deploymentId)
  | .replace appId deploymentId text after =>
    held.replace scheduler appId deploymentId text after
  | .list appId deploymentId => held.list appId deploymentId
  | .tables => .ok (.answer (.tables held.intoValues))

end CronTables

/-! ### The registry -/

/-- What is stored, and the revision watchers see. -/
structure Snapshot where
  rows : CronRows
  revision : UInt64

inductive CronPhase where
  | arrived
  | entered (before : Snapshot)
  | persisting (before : Snapshot) (tables : CronTables)
  | persisted (before : Snapshot)
  | returned (answer : CronAnswer)

structure CronCall where
  operation : CronOperation
  phase : CronPhase

/-- An operation that has returned. -/
structure CronEntry where
  operation : CronOperation
  answer : CronAnswer
  /-- What its read of the repository failed with. -/
  fault : Option StoreError
  before : Snapshot
  after : Snapshot

structure CronRegistry where
  now : Snapshot
  /-- The call that holds the lock. -/
  mutation : Option ℕ
  calls : ExtTreeMap ℕ CronCall
  start : Snapshot
  log : List CronEntry

namespace CronRegistry

def new (rows : CronRows) : CronRegistry where
  now := ⟨rows, 0⟩
  mutation := none
  calls := ∅
  start := ⟨rows, 0⟩
  log := []

/-- The tables as they are stored, by their apps. -/
def read (s : CronRegistry) (fault : Option StoreError) : Except CronRegistryError CronTables :=
  match fault with
  | some e => .error (.store e)
  | none => do
    let tables ← s.now.rows.all.mapError .store
    CronTables.collect ∅ tables

/-! ### Steps -/

/-- A call goes on to a phase. -/
def goTo (s : CronRegistry) (id : ℕ) (operation : CronOperation) (phase : CronPhase) :
    CronRegistry :=
  { s with calls := s.calls.insert id ⟨operation, phase⟩ }

/-- A call returns, and lets go of the lock. -/
def finish (s : CronRegistry) (id : ℕ) (operation : CronOperation) (before : Snapshot)
    (fault : Option StoreError) (answer : CronAnswer) : CronRegistry :=
  let entry : CronEntry := { operation, answer, fault, before, after := s.now }
  { s with mutation := none, log := s.log ++ [entry] }.goTo id operation (.returned answer)

def arrive (s : CronRegistry) (id : ℕ) (operation : CronOperation) : CronRegistry :=
  if s.calls.contains id then s else s.goTo id operation .arrived

/-- A call gets the lock. -/
def enter (s : CronRegistry) (id : ℕ) : CronRegistry :=
  match s.calls[id]? with
  | some ⟨operation, .arrived⟩ =>
    if s.mutation.isSome then s
    else { s with mutation := some id }.goTo id operation (.entered s.now)
  | _ => s

/-- A call reads the tables and decides. -/
def consult (scheduler : Scheduler) (s : CronRegistry) (id : ℕ) (fault : Option StoreError) :
    CronRegistry :=
  match s.calls[id]? with
  | some ⟨operation, .entered before⟩ =>
    match s.read fault >>= fun held => held.decide scheduler operation with
    | .error e => s.finish id operation before fault (.error e)
    | .ok (.answer reply) => s.finish id operation before fault (.ok reply)
    | .ok (.persist tables) => s.goTo id operation (.persisting before tables)
  | _ => s

/-- What a write of tables leaves, if it does not fail. -/
def written (tables : CronTables) (fault : Option StoreError) : Except StoreError CronRows :=
  match fault with
  | some e => .error e
  | none => CronRows.replaceAll tables.intoValues

/-- A call writes its tables. -/
def write (s : CronRegistry) (id : ℕ) (fault : Option StoreError) : CronRegistry :=
  match s.calls[id]? with
  | some ⟨operation, .persisting before tables⟩ =>
    match written tables fault with
    | .error e => s.finish id operation before none (.error (.store e))
    | .ok rows => { s with now := ⟨rows, s.now.revision⟩ }.goTo id operation (.persisted before)
  | _ => s

/-- A call that has written moves the revision on. -/
def notify (s : CronRegistry) (id : ℕ) : CronRegistry :=
  match s.calls[id]? with
  | some ⟨operation, .persisted before⟩ =>
    { s with now := ⟨s.now.rows, s.now.revision + 1⟩ }.finish id operation before none (.ok .done)
  | _ => s

/-- A call goes on to its end: none is dropped on the way, as one is that its caller's time-out
cuts short. -/
inductive Move where
  | arrive (id : ℕ) (operation : CronOperation)
  | enter (id : ℕ)
  | consult (id : ℕ) (fault : Option StoreError)
  | write (id : ℕ) (fault : Option StoreError)
  | notify (id : ℕ)
  | restart

def step (scheduler : Scheduler) (s : CronRegistry) : Move → CronRegistry
  | .arrive id operation => s.arrive id operation
  | .enter id => s.enter id
  | .consult id fault => s.consult scheduler id fault
  | .write id fault => s.write id fault
  | .notify id => s.notify id
  | .restart => new s.now.rows

end CronRegistry

end Nibrunner.Cron

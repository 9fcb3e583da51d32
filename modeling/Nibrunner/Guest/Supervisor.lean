import Nibrunner.ForStd.Run
import Nibrunner.Guest.InstanceEnv
import Nibrunner.Guest.Logs

/-!
# The supervisor of a guest

The first process of a guest starts the program of its tenant, watches it, and starts it again when
it exits, after a pause, until it has used up its restarts. A signal from the host ends this: the
program is asked to stop, and killed if it does not.

The supervisor goes from one system call to the next. In between time passes, its children exit, it
is given others that lost their parent, and the host may signal. A signal that was not yet taken
stays, and a second of its kind adds nothing. `asked`, `restarts` and `lastUptimeMs` are notes:
whether the host ever signalled, the restarts announced, oldest first, and how long the tenant that
exited last had been up.

Times are in nanoseconds; the floating-point numbers are a parameter.
-/

namespace Nibrunner.Supervisor

open InstanceEnv GuestLogs

/-! ### Floating point -/

structure Floats where
  F : Type
  ofNat : ℕ → F
  ofBits : UInt64 → F
  /-- Of so many nanoseconds. -/
  seconds : ℕ → F
  mul : F → F → F
  div : F → F → F
  le : F → F → Bool
  min : F → F → F
  toU32 : F → ℕ
  toU64 : F → ℕ

variable (f : Floats)

/-! ### Restarts -/

inductive Outcome where
  | shutdownRequested
  | restartBudgetExhausted
  | spawnFailed
deriving DecidableEq

def shutdownGraceMs : ℕ := 10000

/-- The pause before the next restart, after so many more factors. -/
def backoffFrom (config : InstanceConfig) (delay : f.F) : ℕ → ℕ
  | 0 => f.toU32 (f.min delay (f.ofNat config.maxBackoffMs))
  | n + 1 =>
    let delay := f.mul delay (f.ofBits config.backoffFactor)
    if f.le (f.ofNat config.maxBackoffMs) delay then config.maxBackoffMs
    else backoffFrom config delay n

def backoffMs (config : InstanceConfig) (restartCount : ℕ) : ℕ :=
  backoffFrom f config (f.ofNat config.initialBackoffMs) restartCount

def budgetResets (config : InstanceConfig) (uptimeMs : ℕ) : Bool := config.resetAfterMs ≤ uptimeMs

/-- The one number a shell reports. -/
def status : TenantExit → Int32
  | .code code => code
  | .signal signal => 128 + signal

/-- A signal that ended a child is told if it has a name, as real-time signals have not. -/
def isTold : TenantExit → Bool
  | .code _ => true
  | .signal signal => 1 ≤ signal ∧ signal ≤ 31

/-- The restarts a tenant has spent. -/
structure Budget where
  spent : ℕ

/-- What is left of the budget when the tenant exits. -/
def Budget.earned (budget : Budget) (config : InstanceConfig) (uptimeMs : ℕ) : ℕ :=
  if budgetResets config uptimeMs then 0 else budget.spent

/-- The restart to report and wait out, if there is one left. -/
def Budget.exited (budget : Budget) (config : InstanceConfig) (uptimeMs : ℕ) (exit : TenantExit)
    (because : String) : Option TenantRestart × Budget :=
  let spent := budget.earned config uptimeMs
  if config.maxRestarts ≤ spent then (none, ⟨spent⟩)
  else
    let backoff := backoffMs f config spent
    (some {
      attempt := UInt32.ofNat (spent + 1)
      budget := UInt32.ofNat config.maxRestarts
      exit := exit
      reason := StateMessage.new ("the tenant exited (" ++ toString (status exit).toInt ++ ")" ++
        because ++ "; restart " ++ toString (spent + 1) ++ " of " ++ toString config.maxRestarts ++
        " in " ++ toString backoff ++ "ms")
      backoffMs := UInt64.ofNat backoff }, ⟨spent + 1⟩)

/-! ### The memory of the tenant -/

def atTheCeilingPercent : ℕ := 90

def thrashingFaultsPerSecond : ℕ := 1000

def strikesBeforeAKill : ℕ := 3

def sampleInterval : ℕ := 1000000000

structure Reading where
  currentBytes : ℕ
  majorFaults : ℕ
  oomKills : ℕ

inductive Verdict where
  | fine
  | thrashing (faultsPerSecond : ℕ)
deriving DecidableEq

/-- The faults a second between two readings, if time passed between them. -/
def faultsPerSecond (before reading : Reading) (elapsed : ℕ) : Option ℕ :=
  if f.le (f.seconds elapsed) (f.ofNat 0) then none
  else some (f.toU64 (f.div (f.ofNat (reading.majorFaults - before.majorFaults))
    (f.seconds elapsed)))

def atTheCeiling (limitBytes : ℕ) (reading : Reading) : Bool :=
  limitBytes * atTheCeilingPercent ≤ reading.currentBytes * 100

structure Watch where
  limitBytes : ℕ
  last : Option (Reading × ℕ)
  strikes : ℕ

def Watch.new (limitBytes : ℕ) : Watch := ⟨limitBytes, none, 0⟩

/-- One reading, judged against the last. -/
def Watch.observe (watch : Watch) (reading : Reading) (now : ℕ) : Verdict × Watch :=
  let seen := { watch with last := some (reading, now) }
  match watch.last with
  | none => (.fine, seen)
  | some (before, since) =>
    match faultsPerSecond f before reading (now - since) with
    | none => (.fine, seen)
    | some faults =>
      let strikes :=
        if atTheCeiling watch.limitBytes reading ∧ thrashingFaultsPerSecond ≤ faults then
          watch.strikes + 1
        else 0
      if strikesBeforeAKill ≤ strikes then (.thrashing faults, { seen with strikes := 0 })
      else (.fine, { seen with strikes := strikes })

def kernelKilledBetween (before after : Reading) : Bool := before.oomKills < after.oomKills

def mib (bytes : ℕ) : ℕ := bytes / (1024 * 1024)

def thrashed (limitBytes faults : ℕ) (reading : Reading) : String :=
  ": killed at its memory ceiling, " ++ toString (mib reading.currentBytes) ++ " of " ++
    toString (mib limitBytes) ++ " MiB and reading its own code back in at " ++ toString faults ++
    " faults a second"

def kernelKilled (limitBytes : ℕ) : String :=
  ": the kernel killed it for running out of memory at its ceiling of " ++
    toString (mib limitBytes) ++ " MiB"

/-! ### The supervisor -/

/-- A child of the first process, until that has waited for it. -/
structure Child where
  pid : ℕ
  /-- Whether the supervisor started it. -/
  tenant : Bool
  exited : Option TenantExit

/-- A tenant that is watched. -/
structure Watching where
  tenant : ℕ
  started : ℕ
  memory : Watch
  atStart : Option Reading
  sampled : ℕ
  killedFor : Option String

/-- Where the supervisor is: at what it asks or does next. -/
inductive Stage where
  | starting
  | spawning (started : ℕ)
  | beginning (tenant started : ℕ)
  | waiting (watching : Watching)
  | looking (watching : Watching)
  | reaping (watching : Watching) (found : Option TenantExit)
  | attributing (watching : Watching) (exit : TenantExit)
  | sampling (watching : Watching)
  | killing (watching : Watching) (because : String)
  | backingOff (backoffMs since : ℕ)
  | terminating (tenant : ℕ)
  | stopping (tenant deadline : ℕ)
  | stopReaping (tenant deadline : ℕ) (found : Option TenantExit)
  | killingTenant (tenant : ℕ)
  | awaiting (tenant : ℕ)
  | ended (outcome : Outcome)

/-- A restart and how long the tenant had been up. -/
structure Announced where
  restart : TenantRestart
  uptimeMs : ℕ

structure Guest where
  now : ℕ
  children : List Child
  /-- The host signalled. -/
  termination : Bool
  /-- A child died. -/
  childDied : Bool
  budget : Budget
  stage : Stage
  asked : Bool
  restarts : List Announced
  lastUptimeMs : ℕ

/-- The process a fork makes and the memory that is read, if this succeeds, and whether a kill
does. -/
structure Reply where
  spawned : Option ℕ
  reading : Option Reading
  works : Bool

inductive Label where
  | pass (nanoseconds : ℕ)
  /-- A process that lost its parent becomes a child of the first. -/
  | adopt (pid : ℕ)
  | exits (pid : ℕ) (exit : TenantExit)
  | terminate
  | proceed (reply : Reply)

namespace Guest

def booted : Guest where
  now := 0
  children := []
  termination := false
  childDied := false
  budget := ⟨0⟩
  stage := .starting
  asked := false
  restarts := []
  lastUptimeMs := 0

variable (config : InstanceConfig) (limitBytes : ℕ) (s : Guest)

def goTo (stage : Stage) : Guest := { s with stage := stage }

def used (pid : ℕ) : Bool := s.children.any fun c => c.pid = pid

def child (pid : ℕ) (tenant : Bool) : Guest :=
  { s with children := s.children ++ [⟨pid, tenant, none⟩] }

/-- A child is waited for, and its number free again. -/
def reap (pid : ℕ) : Guest := { s with children := s.children.filter fun c => c.pid ≠ pid }

/-- A number in use is not one that a fork gives. -/
def spawn (reply : Reply) (started : ℕ) : Guest :=
  match reply.spawned with
  | none => s.goTo (.ended .spawnFailed)
  | some pid =>
    if s.used pid then s.goTo (.ended .spawnFailed)
    else (s.child pid true).goTo (.beginning pid started)

def watch (reply : Reply) (tenant started : ℕ) : Guest :=
  s.goTo (.waiting {
    tenant := tenant
    started := started
    memory := Watch.new limitBytes
    atStart := reply.reading
    sampled := s.now
    killedFor := none })

/-- Of the signals that wait, that of the host is taken first. -/
def look (watching : Watching) : Guest :=
  if s.termination then { s with termination := false }.goTo (.terminating watching.tenant)
  else { s with childDied := false }.goTo (.reaping watching none)

/-- The children that exited are waited for one after another, up to one whose exit is not told. -/
def reapUntil (tenant : ℕ) (found : Option TenantExit) (again : Option TenantExit → Stage)
    (done : Option TenantExit → Stage) : Guest :=
  match s.children.find? fun c => c.exited.isSome with
  | some c =>
    (s.reap c.pid).goTo <|
      if c.exited.any isTold then again (if c.pid = tenant then c.exited else found) else done found
  | none => s.goTo (done found)

def because (reply : Reply) (watching : Watching) : String :=
  watching.killedFor.getD <|
    match watching.atStart, reply.reading with
    | some before, some after =>
      if kernelKilledBetween before after then kernelKilled limitBytes else ""
    | _, _ => ""

def exited (reply : Reply) (watching : Watching) (exit : TenantExit) : Guest :=
  let uptimeMs := (s.now - watching.started) / 1000000
  match s.budget.exited f config uptimeMs exit (because limitBytes reply watching) with
  | (none, budget) =>
    { s with budget := budget, lastUptimeMs := uptimeMs }.goTo (.ended .restartBudgetExhausted)
  | (some restart, budget) =>
    let announced : Announced := { restart := restart, uptimeMs := uptimeMs }
    { s with
      budget := budget
      lastUptimeMs := uptimeMs
      restarts := s.restarts ++ [announced] }.goTo (.backingOff restart.backoffMs.toNat s.now)

def sample (reply : Reply) (watching : Watching) : Guest :=
  if s.now - watching.sampled < sampleInterval ∨ watching.killedFor.isSome then
    s.goTo (.waiting watching)
  else
    let watching := { watching with sampled := s.now }
    match reply.reading with
    | none => s.goTo (.waiting watching)
    | some reading =>
      match watching.memory.observe f reading s.now with
      | (.fine, memory) => s.goTo (.waiting { watching with memory := memory })
      | (.thrashing faults, memory) =>
        s.goTo (.killing { watching with memory := memory } (thrashed limitBytes faults reading))

def kill (reply : Reply) (watching : Watching) (because : String) : Guest :=
  s.goTo (.waiting (if reply.works then { watching with killedFor := some because } else watching))

/-- The pause ends early when a child dies. -/
def backOff (backoffMs since : ℕ) : Guest :=
  if s.termination then { s with termination := false }.goTo (.ended .shutdownRequested)
  else if s.childDied then { s with childDied := false }.goTo .starting
  else if since + backoffMs * 1000000 ≤ s.now then s.goTo .starting
  else s

def stop (tenant deadline : ℕ) : Guest :=
  s.goTo (if s.now < deadline then .stopReaping tenant deadline none else .killingTenant tenant)

def await (tenant : ℕ) : Guest :=
  match s.children.find? fun c => c.pid = tenant with
  | some c => if c.exited.isSome then (s.reap tenant).goTo (.ended .shutdownRequested) else s
  | none => s.goTo (.ended .shutdownRequested)

def proceed (reply : Reply) : Guest :=
  match s.stage with
  | .starting => s.goTo (.spawning s.now)
  | .spawning started => s.spawn reply started
  | .beginning tenant started => s.watch limitBytes reply tenant started
  | .waiting watching => s.goTo (.looking watching)
  | .looking watching => s.look watching
  | .reaping watching found =>
    s.reapUntil watching.tenant found (.reaping watching) fun found =>
      match found with
      | some exit => .attributing watching exit
      | none => .sampling watching
  | .attributing watching exit => s.exited f config limitBytes reply watching exit
  | .sampling watching => s.sample f limitBytes reply watching
  | .killing watching because => s.kill reply watching because
  | .backingOff backoffMs since => s.backOff backoffMs since
  | .terminating tenant => s.goTo (.stopping tenant (s.now + shutdownGraceMs * 1000000))
  | .stopping tenant deadline => s.stop tenant deadline
  | .stopReaping tenant deadline found =>
    s.reapUntil tenant found (.stopReaping tenant deadline) fun found =>
      match found with
      | some _ => .ended .shutdownRequested
      | none => .stopping tenant deadline
  | .killingTenant tenant => s.goTo (.awaiting tenant)
  | .awaiting tenant => s.await tenant
  | .ended _ => s

def adopt (pid : ℕ) : Guest := if s.used pid then s else s.child pid false

/-- A child that runs exits. -/
def exits (pid : ℕ) (exit : TenantExit) : Guest :=
  if s.children.any fun c => c.pid = pid ∧ c.exited = none then
    let exited (c : Child) : Child := if c.pid = pid then { c with exited := some exit } else c
    { s with childDied := true, children := s.children.map exited }
  else s

def step : Label → Guest
  | .pass nanoseconds => { s with now := s.now + nanoseconds }
  | .adopt pid => s.adopt pid
  | .exits pid exit => s.exits pid exit
  | .terminate => { s with termination := true, asked := true }
  | .proceed reply => s.proceed f config limitBytes reply

end Guest

end Nibrunner.Supervisor

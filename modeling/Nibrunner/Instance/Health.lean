import Nibrunner.Vm.Status

/-!
# Health tracking and the lifecycle of an instance

The status loop keeps a `HealthTracker` per instance, applies each probe to it, and reads the
instance's state off the microVM's status, the tracker and what was asked of the instance
(`evaluateInstanceState`).
-/

namespace Nibrunner

open MachineInt

inductive InstanceState where
  | pending
  | starting
  | running
  | unhealthy
  | stopping
  | stopped
  | idle
  | failed
deriving DecidableEq

/-! ### Probes -/

/-- How a probe came back without finding the tenant well. -/
inductive ProbeFailure where
  | refused
  | unreachable (error : String)
  | answered (status : ℕ)
  | dropped (error : String)
  | timedOut (afterMs : ℕ)
deriving DecidableEq

/-- The clause that finishes "the last probe ...". -/
def ProbeFailure.describe [Platform] : ProbeFailure → String
  | refused => "tcp connect refused"
  | unreachable error => s!"could not connect: {error}"
  | answered status =>
    let reason := (Platform.canonicalReason status).elim "" fun known => s!" {known}"
    s!"answered {status}{reason}"
  | dropped error => s!"connected but got no answer: {error}"
  | timedOut afterMs => s!"timed out after {afterMs} ms"

structure HealthTracker where
  consecutiveSuccesses : ℕ
  consecutiveFailures : ℕ
  everHealthy : Bool
  lastHealthyAt : Option ℤ
  /-- How the latest of the failures in a row went. -/
  lastFailure : Option ProbeFailure
deriving DecidableEq

def initialTracker : HealthTracker where
  consecutiveSuccesses := 0
  consecutiveFailures := 0
  everHealthy := false
  lastHealthyAt := none
  lastFailure := none

/-- One probe's outcome applied to the tracker. -/
def applyProbe (tracker : HealthTracker) (outcome : Except ProbeFailure Unit) (now : ℤ)
    (healthyThreshold : ℕ) : HealthTracker :=
  match outcome with
  | .error failure =>
    { tracker with
      consecutiveSuccesses := 0
      consecutiveFailures := wrapU32 (tracker.consecutiveFailures + 1)
      lastFailure := some failure }
  | .ok () =>
    let consecutiveSuccesses := wrapU32 (tracker.consecutiveSuccesses + 1)
    { consecutiveSuccesses := consecutiveSuccesses
      consecutiveFailures := 0
      everHealthy := tracker.everHealthy || healthyThreshold ≤ consecutiveSuccesses
      lastHealthyAt := some now
      lastFailure := none }

/-- A guest is within its grace period before it came up and for `gracePeriodMs` after. -/
def isWithinGracePeriod (check : HealthCheck) (startedAtMs : Option ℤ) (nowMs : ℤ) : Bool :=
  match startedAtMs with
  | none => true
  | some started => nowMs - started < asI64 check.probe.gracePeriodMs

/-- Whether the next probe asks the guest's port. -/
def asksThePort (tracker : HealthTracker) (check : HealthCheck) : Bool :=
  check.probesAPort || !tracker.everHealthy

/-! ### Sentences -/

/-- A message on a record keeps its first 512 characters. -/
def stateMessage (text : String) : String := String.ofList (text.toList.take 512)

def describeInstanceFailure [Platform] (unit : VmStatus) (tracker : HealthTracker)
    (check : HealthCheck) (httpPort : ℕ) (guestVerdict : Option String) : String :=
  if unit.active then
    s!"nothing answered on port {httpPort} inside the guest: " ++
      s!"{tracker.consecutiveFailures} health probes failed after the " ++
      s!"{check.probe.gracePeriodMs}ms grace period"
  else
    match guestVerdict, unit.exit with
    | some verdict, _ => s!"the microVM stopped: {verdict}"
    | none, none => "the microVM exited"
    | none, some exit => s!"the microVM {exit.describe}"

/-- Why an instance that was well reads as unhealthy. -/
def describeUnhealthyInstance [Platform] (tracker : HealthTracker) (check : HealthCheck) : String :=
  let failed := tracker.consecutiveFailures
  let probes := if failed = 1 then "probe" else "probes"
  let path := match check with
    | .http path _ => s!" of {path}"
    | _ => ""
  let sentence := s!"{failed} {check.kind} {probes}{path} failed in a row"
  match tracker.lastFailure with
  | some failure => s!"{sentence}; the last {failure.describe}"
  | none => sentence

/-! ### The lifecycle -/

/-- What the state of an instance is read off. -/
structure LifecycleInputs where
  unit : VmStatus
  tracker : HealthTracker
  healthCheck : HealthCheck
  desiredRunning : Bool
  onRequest : Bool
  stopRequested : Bool
  snapshotting : Bool
  startedAtMs : Option ℤ
  nowMs : ℤ
  current : InstanceState

/-- The state of an instance whose microVM is not up. -/
def evaluateStoppedState (i : LifecycleInputs) : InstanceState :=
  let down := if i.onRequest && i.desiredRunning then .idle else .stopped
  if i.stopRequested || i.snapshotting then down
  -- A start that failed before the microVM came up stays failed, explained.
  else if i.current = .failed ∧ i.startedAtMs = none then .failed
  else if !i.desiredRunning then down
  else if i.startedAtMs.isSome then .failed
  else if i.onRequest ∧ i.current ≠ .pending then down
  else .pending

def evaluateInstanceState (i : LifecycleInputs) : InstanceState :=
  -- A deferred start has no new VMM; an exit still recorded belongs to the previous attempt.
  if ¬ i.unit.active ∧ i.current = .pending ∧ i.startedAtMs = none then evaluateStoppedState i
  else if i.unit.failed then .failed
  else if ¬ i.unit.active then evaluateStoppedState i
  else if i.stopRequested then .stopping
  else if i.healthCheck.probe.healthyThreshold ≤ i.tracker.consecutiveSuccesses then .running
  else if i.healthCheck.probe.unhealthyThreshold ≤ i.tracker.consecutiveFailures ∧
      ¬ isWithinGracePeriod i.healthCheck i.startedAtMs i.nowMs then
    if i.tracker.everHealthy then .unhealthy else .failed
  else if i.tracker.everHealthy then .running else .starting

end Nibrunner

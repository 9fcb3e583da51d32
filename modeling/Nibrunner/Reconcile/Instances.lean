import Nibrunner.Host.Volumes
import Nibrunner.Reconcile.Ingress

/-!
# Operations on one instance

Stopping, suspending, holding, starting and resuming one instance, and settling what the status
loop read of it. Each is a sequence of writes to the record and calls of the adapters; what an
adapter answers is an argument, so an operation is a function of the host and its answers.
-/

namespace Nibrunner

open Std

/-! ### The records an operation leaves -/

/-- What every refusal for want of a slot says. -/
def noSlotLeft : String := "this host has no slot left"

/-- A failed record for a start refused before its app ever held a slot. -/
def noSlotRecord (existing : Option InstanceRecord) (desired : DesiredInstance) :
    InstanceRecord :=
  let fields := recordFieldsWithoutSlot desired
  { (existing.getD (.new fields .failed initialTracker)).adopt fields with
    state := .failed
    message := some noSlotLeft }

/-- The app's record, a new one in `state` where it has none, with the document's fields on it. -/
def adoptedRecord (existing : Option InstanceRecord) (desired : DesiredInstance) (slot : AppSlot)
    (state : InstanceState) : InstanceRecord :=
  let fields := recordFields desired slot
  (existing.getD (.new fields state initialTracker)).adopt fields

def waitingMessage (shortfallMib : ℕ) : String :=
  stateMessage (s!"waiting to be started: its host is {shortfallMib} MiB " ++
    "short of the memory it needs")

/-- A record waiting for room: pending, with nothing spent on it. -/
def waitingRecord (existing : Option InstanceRecord) (desired : DesiredInstance)
    (shortfallMib : ℕ) (slot : AppSlot) : InstanceRecord :=
  { adoptedRecord existing desired slot .pending with
    state := .pending
    stopRequested := false
    startedAt := none
    startAttempts := noStartAttempts
    message := some (waitingMessage shortfallMib) }

/-- The attempts spent on an app, none where it has no record. -/
def spentAttempts (existing : Option InstanceRecord) : AttemptWindow :=
  existing.elim noStartAttempts (·.startAttempts)

/-- A record refused before an attempt was spent on it. -/
def refusedRecord (existing : Option InstanceRecord) (desired : DesiredInstance) (slot : AppSlot)
    (state : InstanceState) : InstanceRecord :=
  { adoptedRecord existing desired slot state with state := .failed, stopRequested := false }

/-- A record with one more attempt spent on it and its boot on the way. -/
def attemptedRecord (existing : Option InstanceRecord) (desired : DesiredInstance)
    (slot : AppSlot) (nowMs : ℤ) : InstanceRecord :=
  { adoptedRecord existing desired slot .pending with
    stopRequested := false
    startAttempts := nextAttemptWindow (spentAttempts existing) nowMs
      desired.config.restartPolicy.resetAfterMs
    state := .pending
    startedAt := none
    health := initialTracker }

namespace Host

def reportNoSlot (h : Host) (desired : DesiredInstance) : Host :=
  h.putRecord (noSlotRecord h.records[desired.appId]? desired)

/-! ### Stopping and sleeping -/

/-- Stop an instance, which the record says it is whatever became of the microVM. -/
def stopInstance (h : Host) (app : AppId) (stop : StopAnswer := .down) : Host :=
  let h := h.updateRecord app fun r => { r with state := .stopping, stopRequested := true }
  let h := h.stopVm app stop
  h.updateRecord app fun r => { r with state := .stopped, startAttempts := noStartAttempts }

/-- Put the microVM to sleep; one with no slot to come back to is stopped instead. -/
def suspendInstance (h : Host) (app : AppId) (answer : SleepAnswer)
    (stop : StopAnswer := .down) : Host :=
  match h.records[app]? with
  | none => h
  | some record =>
    match h.slotOf app with
    | none => h.stopInstance app stop
    | some slot =>
      match h.sleepVm app record.deploymentId slot answer stop with
      | (h, true) =>
        h.updateRecord app fun r =>
          { r with
            state := .idle
            stopRequested := true
            startAttempts := noStartAttempts
            message := none }
      | (h, false) => h

/-- A record for an app that is to be asked for. -/
def sleepInstance (h : Host) (desired : DesiredInstance) : Host :=
  match h.slotFor desired.appId with
  | none => h.reportNoSlot desired
  | some (slot, h) => h.putRecord (adoptedRecord h.records[desired.appId]? desired slot .idle)

/-- A stopped record for an app that arrives already stopped. -/
def holdInstance (h : Host) (desired : DesiredInstance) : Host :=
  match h.slotFor desired.appId with
  | none => h.reportNoSlot desired
  | some (slot, h) => h.putRecord (.new (recordFields desired slot) .stopped initialTracker)

/-- A start this host has no memory for. -/
def waitForRoom (h : Host) (desired : DesiredInstance) (shortfallMib : ℕ) : Host :=
  match h.slotFor desired.appId with
  | none => h.reportNoSlot desired
  | some (slot, h) =>
    h.putRecord (waitingRecord h.records[desired.appId]? desired shortfallMib slot)

end Host

/-! ### Starting -/

/-- Why a start is refused for what was already spent on the app. -/
inductive StartRefused where
  | outOfRestarts (attempted allowed : ℕ)
  | untilTheBackoffIsDone
deriving DecidableEq

def startRefused [Platform] (existing : Option InstanceRecord) (nowMs : ℤ)
    (desired : DesiredInstance) : Option StartRefused :=
  existing.bind fun existing =>
    let policy := desired.config.restartPolicy
    if policy.maxRestarts < existing.startAttempts.attempts then
      some (.outOfRestarts existing.startAttempts.attempts policy.maxRestarts)
    else if isReadyToRetry existing.startAttempts nowMs policy then none
    else some .untilTheBackoffIsDone

def outOfRestartsMessage (attempted allowed : ℕ) : String :=
  stateMessage (s!"out of restarts: {attempted} starts attempted against a budget of {allowed}, " ++
    "and this instance will not be started again until it is deployed afresh")

/-- What the adapters answer one start. -/
structure StartAnswers where
  nowMs : ℤ
  /-- The layers are fetched and packed. -/
  prepare : Except String Unit
  attach : Except String Unit
  boot : Host.BootAnswer
  startedAtMs : ℤ
deriving DecidableEq

namespace Host

/-- Why the volume an instance would boot onto cannot be booted onto, as the pass over the volumes
reported it. -/
def volumeRefusal (h : Host) (volume : VolumeId) : Option String :=
  (h.volumeReports.find? fun r => r.volumeId = volume && r.state = .failed).map fun r =>
    r.message.getD (stateMessage s!"{volume.text} could not be made ready")

/-- A start that came to nothing. -/
def failStart (h : Host) (app : AppId) (reason : String) : Host :=
  h.updateRecord app fun r => { r with state := .failed, message := some (stateMessage reason) }

/-- The part of a start an attempt is spent on: fetch, attach, boot. -/
def attemptStart (h : Host) (desired : DesiredInstance) (slot : AppSlot)
    (existing : Option InstanceRecord) (answers : StartAnswers)
    (stop : StopAnswer := .down) : Host :=
  let app := desired.appId
  let h := h.putRecord (attemptedRecord existing desired slot answers.nowMs)
  match answers.prepare with
  | .error reason => h.failStart app reason
  | .ok () =>
    match h.attach desired.volumeId app answers.attach with
    | .error reason => h.failStart app reason
    | .ok h =>
      match h.bootVm desired slot answers.nowMs answers.boot stop with
      | (h, .busy) =>
        h.updateRecord app fun r =>
          { r with
            state := .pending
            startedAt := none
            health := initialTracker
            startAttempts := spentAttempts existing
            message := some (stateMessage busyMessage) }
      | (h, .failed reason) => h.failStart app reason
      | (h, .booted) =>
        h.updateRecord app fun r =>
          { r with
            startedAt := some answers.startedAtMs
            state := .starting
            health := initialTracker
            restartCount := 0
            message := none }

def startInstance [Platform] (h : Host) (desired : DesiredInstance) (answers : StartAnswers)
    (stop : StopAnswer := .down) : Host :=
  let app := desired.appId
  let existing := h.records[app]?
  match startRefused existing answers.nowMs desired with
  | some (.outOfRestarts attempted allowed) => h.say app (outOfRestartsMessage attempted allowed)
  | some .untilTheBackoffIsDone => h
  | none =>
    match h.slotFor app with
    | none => h.reportNoSlot desired
    | some (slot, h) =>
      -- Before anything is fetched or attached, and before it counts as an attempt.
      match ingressRefusal desired h.config with
      | some refusal =>
        (h.putRecord (refusedRecord existing desired slot .failed)).say app (stateMessage refusal)
      | none =>
        match h.volumeRefusal desired.volumeId with
        | some refusal =>
          (h.putRecord (refusedRecord existing desired slot .pending)).say app refusal
        | none => h.attemptStart desired slot existing answers stop

/-! ### Waking -/

/-- What the adapters answer one wake. -/
structure WakeAnswers where
  attach : Except String Unit
  wake : WakeAnswer
  startedAtMs : ℤ
  /-- The cold boot, where there is nothing to restore from. -/
  start : StartAnswers
deriving DecidableEq

inductive WakeOutcome where
  | restored
  | alreadyRunning
  | coldBoot
deriving DecidableEq

/-- Bring an app back from its snapshot, or cold where it has none. -/
def resumeInstance [Platform] (h : Host) (desired : DesiredInstance) (answers : WakeAnswers)
    (stop : StopAnswer := .down) : Host × Except String WakeOutcome :=
  let app := desired.appId
  match h.slotFor app with
  | none => (h, .error noSlotLeft)
  | some (slot, h) =>
    if h.isUp app then (h, .ok .alreadyRunning)
    else
      match h.attach desired.volumeId app answers.attach with
      | .error reason =>
        (h.updateRecord app fun r => { r with message := some (stateMessage reason) },
          .error reason)
      | .ok h =>
        match h.wakeVm app desired.deploymentId slot.slot answers.wake stop with
        | (h, .restored) =>
          (h.updateRecord app fun r =>
            { r with
              state := .starting
              startedAt := some answers.startedAtMs
              stopRequested := false
              message := none }, .ok .restored)
        | (h, .unusable) =>
          let h := h.startInstance desired answers.start stop
          match h.records[app]? with
          | some r =>
            if r.state = .starting ∨ r.state = .running then (h, .ok .coldBoot)
            else (h, .error (r.message.getD "the cold boot did not start"))
          | none => (h, .error "the cold boot did not start")
        | (h, .failed reason) =>
          (h.updateRecord app fun r => { r with message := some (stateMessage reason) },
            .error reason)

/-- What a request for a sleeping app does: nothing for one the document wants stopped or keeps
up itself, nothing while the host is not isolated, and otherwise a resume where there is room. -/
def wakeApp [Platform] (h : Host) (wanted : DesiredInstance) (answers : WakeAnswers)
    (stop : StopAnswer := .down) : Host :=
  if wanted.desiredState ≠ .onRequest ∨ ¬ h.isolated then h
  else
    let others := h.recordList.filter fun r => r.appId ≠ wanted.appId
    let shortfall := memoryShortfallMib h.config.guestMemoryMib (committedResources others)
      wanted.config.resources
    if 0 < shortfall then
      h.say wanted.appId (stateMessage (s!"{wanted.appId.text} could not be woken: its host is " ++
        s!"{shortfall} MiB short of the memory it needs"))
    else (h.resumeInstance wanted answers stop).1

end Host

/-! ### Settling -/

/-- Whether a record is still the start a reading was taken of. -/
def sameStart (latest observed : InstanceRecord) : Bool :=
  latest.deploymentId = observed.deploymentId && latest.startedAt = observed.startedAt &&
    latest.startAttempts = observed.startAttempts

/-- What the status loop reads of one instance: its record and its microVM's status when the pass
began, and what the probe and the guest answered since. -/
structure Reading where
  record : InstanceRecord
  status : VmStatus
  due : Bool
  snapshotting : Bool
  nowMs : ℤ
  probe : Except ProbeFailure Unit
  probedAtMs : ℤ
  guestVerdict : Option String

namespace Reading

/-- The tracker with the probe on it, where one was due of a microVM that is up. -/
def health (x : Reading) : HealthTracker :=
  if x.status.active && x.due then
    let outcome :=
      if !asksThePort x.record.health x.record.healthCheck then .ok ()
      else if x.record.guestIpv4.isSome then x.probe
      else .error (.unreachable "this instance holds no slot to probe")
    applyProbe x.record.health outcome x.probedAtMs x.record.healthCheck.probe.healthyThreshold
  else x.record.health

def state (x : Reading) : InstanceState :=
  evaluateInstanceState
    { unit := x.status
      tracker := x.health
      healthCheck := x.record.healthCheck
      desiredRunning := x.record.desiredRunning
      onRequest := x.record.onRequest
      stopRequested := x.record.stopRequested
      snapshotting := x.snapshotting
      startedAtMs := x.record.startedAt
      nowMs := x.nowMs
      current := x.record.state }

/-- The sentence an unhealthy instance carries, and nothing for any other state. -/
def unwell [Platform] (x : Reading) : Option String :=
  if x.state = .unhealthy then
    some (stateMessage (describeUnhealthyInstance x.health x.record.healthCheck))
  else none

def verdict [Platform] (x : Reading) : Option String :=
  if x.state ≠ .failed then x.unwell
  else
    let guestVerdict :=
      if x.status.active || x.record.startedAt.isNone then none else x.guestVerdict
    some (stateMessage (describeInstanceFailure x.status x.health x.record.healthCheck
      x.record.httpPort guestVerdict))

/-- The guest exited after staying up for the policy's `resetAfterMs`. -/
def stayedUp (x : Reading) : Bool :=
  x.state = .failed && !x.status.active &&
    x.record.startedAt.any fun started =>
      MachineInt.asI64 x.record.restartPolicy.resetAfterMs ≤ x.nowMs - started

/-- The guarded write a settle ends in: nothing where the record is of another start by then. -/
def settle [Platform] (x : Reading) (latest : InstanceRecord) : InstanceRecord :=
  if !sameStart latest x.record then latest
  else if x.state = x.record.state then
    { latest with
      health := x.health
      message := if x.unwell.isSome then x.unwell else latest.message }
  else
    { latest with
      health := x.health
      state := x.state
      lastExitCode :=
        if x.status.active then latest.lastExitCode
        else
          match x.status.exit with
          | some (.code value) => some value
          | some (.signal _) => none
          | none => latest.lastExitCode
      startAttempts := if x.stayedUp then noStartAttempts else latest.startAttempts
      message := x.verdict }

end Reading

/-- What one refresh reads beside the records and the microVMs themselves. -/
structure RefreshAnswers where
  nowMs : ℤ
  due : AppId → Bool
  probe : AppId → Except ProbeFailure Unit
  probedAtMs : AppId → ℤ
  guestVerdict : AppId → Option String

namespace Host

/-- The reading a refresh takes of an instance nothing else is moving. -/
def reading (h : Host) (answers : RefreshAnswers) (app : AppId) (r : InstanceRecord) : Reading where
  record := r
  status := h.vmStatus app
  due := answers.due app
  snapshotting := false
  nowMs := answers.nowMs
  probe := answers.probe app
  probedAtMs := answers.probedAtMs app
  guestVerdict := answers.guestVerdict app

/-- One pass of the status loop. -/
def refreshStates [Platform] (h : Host) (answers : RefreshAnswers) : Host :=
  { h with records := h.records.map fun app r => (h.reading answers app r).settle r }

/-- A microVM's process ends, or how it ended is written down. -/
def guestExit (h : Host) (app : AppId) (exit : VmExit) : Host :=
  { h with vms := h.vms.modify app (Vm.ended · exit) }

end Host

end Nibrunner

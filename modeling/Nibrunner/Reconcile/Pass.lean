import Nibrunner.Reconcile.InstanceEffects
import Nibrunner.Reconcile.Volumes

/-!
# One pass from the document to the host

`Host.reconcile` observes the host, plans, and applies the plan: the document's fields onto the
records, the stops, the volumes, the sleeps and holds, the starts, the teardowns, the
checkpoints. Every adapter's answer is in the `PassAnswers` of the pass.
-/

namespace Nibrunner

open Std

namespace Host

/-! ### Observing -/

/-- The apps this host has a microVM or a record of, in order. -/
def knownApps (h : Host) : List AppId :=
  (ExtTreeMap.indexBy id (h.vms.keys ++ h.records.keys)).keys

def observeInstance (h : Host) (app : AppId) : ObservedInstance :=
  let status := h.vmStatus app
  let record := h.records[app]?
  { appId := app
    volumeId := record.map (·.volumeId)
    deploymentId := record.map (·.deploymentId)
    present := status.loaded || record.isSome
    running := status.active
    exited := !status.active && status.startedThisBoot &&
      record.any fun r => r.startedAt.isSome && !r.stopRequested
    -- A refusal leaves the record failed, or pending, with nothing spent on it.
    refused := record.any fun r =>
      (r.state = .failed || r.state = .pending) && r.startedAt.isNone &&
        r.startAttempts = noStartAttempts }

def observeCheckpoints (h : Host) (d : HostDesiredState) : List ObservedCheckpoint :=
  (d.checkpoints.filter fun wanted => wanted.checkpointId ∈ h.checkpoints).map fun wanted =>
    { checkpointId := wanted.checkpointId, volumeId := wanted.volumeId }

def observe (h : Host) (d : HostDesiredState) : ObservedState where
  instances := h.knownApps.map h.observeInstance
  volumes := h.observeVolumes (volumeOwners d h.records)
  checkpoints := h.observeCheckpoints d
  exports := []

/-! ### Applying -/

/-- The document's fields a record takes without being started again. -/
def syncFields (wanted : DesiredInstance) (r : InstanceRecord) : InstanceRecord :=
  { r with
    hostnames := wanted.hostnames
    healthCheck := wanted.config.healthCheck
    resources := wanted.config.resources
    restartPolicy := wanted.config.restartPolicy
    desiredRunning := wanted.desiredState ≠ .stopped
    onRequest := wanted.desiredState = .onRequest
    httpPort := wanted.config.httpPort }

def syncDesired (h : Host) (d : HostDesiredState) : Host :=
  d.instances.foldl (fun h wanted => h.updateRecord wanted.appId (syncFields wanted)) h

/-- Stop the instance and drop everything held of it, so that its start is a fresh boot; a process
left up is out of sight then. -/
def clearInstance (h : Host) (app : AppId) (stop : StopAnswer := .down) : Host :=
  ((h.stopInstance app stop).discardVm app).dropRecord app

/-- The stop of an action; `stops` says what becomes of each process that is asked to stop. -/
def applyStopAs (stops : AppId → StopAnswer) (h : Host) : InstancePlan → Host
  | .stop app _ => h.stopInstance app (stops app)
  | .replace desired => h.clearInstance desired.appId (stops desired.appId)
  | .recover desired => h.clearInstance desired.appId (stops desired.appId)
  | .forget app => (h.discardVm app).dropRecord app
  | _ => h

/-- The same where they all go down. -/
abbrev applyStop : Host → InstancePlan → Host := applyStopAs fun _ => .down

def applyStops (h : Host) (plan : ReconcilePlan) (stops : AppId → StopAnswer := fun _ => .down) :
    Host :=
  plan.instances.foldl (applyStopAs stops) h

def applySleep (h : Host) : InstancePlan → Host
  | .sleep desired => h.sleepInstance desired
  | _ => h

def applySleeps (h : Host) (plan : ReconcilePlan) : Host := plan.instances.foldl applySleep h

def applyHold (h : Host) : InstancePlan → Host
  | .hold desired => h.holdInstance desired
  | _ => h

def applyHolds (h : Host) (plan : ReconcilePlan) : Host := plan.instances.foldl applyHold h

end Host

namespace InstancePlan

/-- The app an action is about. -/
def appId : InstancePlan → AppId
  | start desired | replace desired | recover desired | sleep desired | hold desired =>
    desired.appId
  | stop app _ | forget app | none app => app

/-- The instance an action brings up. -/
def broughtUp : InstancePlan → Option DesiredInstance
  | start desired | replace desired | recover desired => some desired
  | _ => Option.none

end InstancePlan

/-- The instances a plan brings up. -/
def startsOf (plan : ReconcilePlan) : List DesiredInstance :=
  plan.instances.filterMap InstancePlan.broughtUp

namespace Host

/-- One start of a wave: measured against the records as the wave has left them, those of the
starts before it read back. -/
def applyStartAs [Platform] (stops : AppId → StopAnswer) (answers : AppId → StartAnswers)
    (wave : Host × List InstanceRecord) (desired : DesiredInstance) :
    Host × List InstanceRecord :=
  let (h, records) := wave
  match memoryShortfallFor h.config.guestMemoryMib records desired.appId
      desired.config.resources with
  | some shortfall => (h.waitForRoom desired shortfall, records)
  | none =>
    let h := h.startInstance desired (answers desired.appId) (stops desired.appId)
    (h, records.filter (·.appId ≠ desired.appId) ++ h.records[desired.appId]?.toList)

/-- The same where they all go down. -/
abbrev applyStart [Platform] : (AppId → StartAnswers) → Host × List InstanceRecord →
    DesiredInstance → Host × List InstanceRecord :=
  applyStartAs fun _ => .down

def applyStarts [Platform] (h : Host) (plan : ReconcilePlan) (answers : AppId → StartAnswers)
    (stops : AppId → StopAnswer := fun _ => .down) : Host :=
  let starts := startsOf plan
  if starts = [] ∨ ¬ h.isolated then h
  else (starts.foldl (applyStartAs stops answers) (h, h.recordList)).1

/-- What the adapters answer about checkpoints. -/
structure CheckpointAnswers where
  created : CheckpointId → Bool
  deleted : CheckpointId → Bool

def applyCheckpoint (answers : CheckpointAnswers) (h : Host) : CheckpointPlan → Host
  | .create desired =>
    if answers.created desired.checkpointId ∧ desired.checkpointId ∉ h.checkpoints then
      { h with checkpoints := h.checkpoints ++ [desired.checkpointId] }
    else h
  | .delete desired =>
    if answers.deleted desired.checkpointId then
      { h with checkpoints := h.checkpoints.filter (· ≠ desired.checkpointId) }
    else h
  | .none _ => h

def applyCheckpoints (h : Host) (plan : ReconcilePlan) (answers : CheckpointAnswers) : Host :=
  plan.checkpoints.foldl (applyCheckpoint answers) h

/-- What the adapters answer one pass. -/
structure PassAnswers where
  trigger : Trigger
  /-- The cron tables could follow the document. -/
  cron : Bool
  provision : VolumeId → ProvisionAnswer
  start : AppId → StartAnswers
  teardown : TeardownAnswers
  checkpoint : CheckpointAnswers
  /-- The isolation ruleset could be loaded, before the starts and at the end. -/
  firewall : Bool
  firewallAfter : Bool

/-- Every adapter does what it is asked, at `nowMs`. -/
def PassAnswers.succeed (trigger : Trigger) (nowMs : ℤ) : PassAnswers where
  trigger := trigger
  cron := true
  provision _ := .ok
  start _ :=
    { nowMs := nowMs, prepare := .ok (), attach := .ok (), boot := .ok, startedAtMs := nowMs }
  teardown := { deleted := fun _ => true, detached := fun _ => true }
  checkpoint := { created := fun _ => true, deleted := fun _ => true }
  firewall := true
  firewallAfter := true

/-- A pass up to its volumes: the document's fields on the records, what is to go stopped, and the
volumes made ready. -/
def madeReady (h : Host) (d : HostDesiredState) (answers : PassAnswers)
    (stops : AppId → StopAnswer := fun _ => .down) : Host :=
  let o := h.observe d
  let plan := planReconcile d o
  let h := h.syncDesired d
  let h := h.applyStops plan stops
  h.applyVolumes plan o d answers.trigger answers.provision

/-- A pass up to its starts. -/
def beforeStarts (h : Host) (d : HostDesiredState) (answers : PassAnswers)
    (stops : AppId → StopAnswer := fun _ => .down) : Host :=
  let plan := planReconcile d (h.observe d)
  let h := h.madeReady d answers stops
  let h := h.applySleeps plan
  let h := h.applyHolds plan
  { h with isolated := answers.firewall }

/-- One pass over the document; `stops` says what becomes of each process it asks to stop. A
document that names an app twice is one the cron tables cannot follow, and is not applied. -/
def reconcileAs [Platform] (stops : AppId → StopAnswer) (h : Host) (d : HostDesiredState)
    (answers : PassAnswers) : Host :=
  if ¬ d.appIds.Nodup ∨ ¬ answers.cron then h
  else
    let plan := planReconcile d (h.observe d)
    let h := h.beforeStarts d answers stops
    let h := h.applyStarts plan answers.start stops
    let h := h.applyTeardowns plan answers.teardown
    let h := h.applyCheckpoints plan answers.checkpoint
    { h with isolated := answers.firewallAfter }

/-- The same where they all go down. -/
abbrev reconcile [Platform] : Host → HostDesiredState → PassAnswers → Host :=
  reconcileAs fun _ => .down

end Host

end Nibrunner

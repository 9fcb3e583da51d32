import Nibrunner.Host.Volumes
import Nibrunner.Reconcile.Plan

/-!
# The volumes of a pass

What a pass observes of the volumes, how it reports them, and how it applies the volume half of
its plan: provisioning before the starts, tearing down and letting go after them. A volume taken
away gives its app's slot back.
-/

namespace Nibrunner

open Std

/-- What a pass was run for. -/
inductive Trigger where
  | change
  | deferred
  | restart
  | tick
deriving DecidableEq

/-! ### Observing and reporting -/

/-- The app each volume is held for: the one recorded on it, and the one the document says where
it lists the volume. -/
def volumeOwners (d : HostDesiredState) (records : ExtTreeMap AppId InstanceRecord) :
    ExtTreeMap VolumeId AppId :=
  d.volumes.foldl (fun owners v => owners.insert v.volumeId v.appId)
    ((records.toList.map (·.2)).foldl (fun owners r => owners.insert r.volumeId r.appId) ∅)

namespace Host

/-- The device of the app's slot serves the volume and answers. -/
def isServed (h : Host) (volume : VolumeId) (app : AppId) : Bool :=
  (h.slotOf app).any fun slot => h.devices[slot]? = some volume

/-- One volume whose file is here, as the host observes it for its owner. -/
def observeVolume (h : Host) (volume : VolumeId) (image : VolumeImage) (app : AppId) :
    ObservedVolume where
  volumeId := volume
  appId := app
  attached := h.isServed volume app
  formatted := h.isServed volume app && image.formatted
  sizeBytes := image.sizeBytes
  storagePrefix := ""
  devicePath := (h.allocator.lookup app).map (·.nbdDevicePath)

/-- The volumes whose files are here and that belong to an app. -/
def observeVolumes (h : Host) (owners : ExtTreeMap VolumeId AppId) : List ObservedVolume :=
  h.images.toList.filterMap fun (volume, image) =>
    owners[volume]?.map (h.observeVolume volume image)

end Host

/-- A volume as the control plane hears of it. -/
def toReportedVolume (o : ObservedVolume) (lastRefusal : Option String) : ReportedVolume :=
  let (state, message) :=
    match o.attached, o.formatted, o.devicePath with
    | true, true, _ => (VolumeState.ready, none)
    | true, false, _ => (.failed, lastRefusal)
    | false, _, some path =>
      (.failed, some (stateMessage s!"{path} is not answering and is being re-attached"))
    | false, _, none => (.detached, none)
  { volumeId := o.volumeId
    appId := o.appId
    state := state
    sizeBytes := o.sizeBytes
    storagePrefix := some o.storagePrefix
    devicePath := o.devicePath
    message := message }

/-- What the last pass left on record against each volume it could not provision. -/
def lastRefusals (reports : List ReportedVolume) : ExtTreeMap VolumeId String :=
  (reports.filter (·.state = .failed)).foldl (fun refusals r =>
    match r.message with
    | some message => refusals.insert r.volumeId message
    | none => refusals) ∅

/-- The reports with the updates in the place of those they are about. -/
def mergeVolumeReports (existing updates : List ReportedVolume) : List ReportedVolume :=
  (ExtTreeMap.indexBy (·.volumeId) (existing ++ updates)).toList.map (·.2)

/-- Whether the host holds the volume's device, answering, with no filesystem on it. -/
def isBare (o : ObservedState) (volume : VolumeId) : Bool :=
  o.volumes.any fun v => v.volumeId = volume && v.attached && !v.formatted

namespace Host

/-! ### Provisioning -/

def reportVolume (h : Host) (report : ReportedVolume) : Host :=
  { h with volumeReports := mergeVolumeReports h.volumeReports [report] }

def provisionVolume (h : Host) (desired : DesiredVolume) (answer : ProvisionAnswer) : Host :=
  match h.provision desired answer with
  | (h, .ok ()) =>
    h.reportVolume
      { volumeId := desired.volumeId
        appId := desired.appId
        state := .ready
        sizeBytes := alignToSector desired.sizeBytes
        storagePrefix := some ""
        devicePath := (h.allocator.lookup desired.appId).map (·.nbdDevicePath)
        message := none }
  | (h, .error reason) =>
    h.reportVolume
      { volumeId := desired.volumeId
        appId := desired.appId
        state := .failed
        sizeBytes := desired.sizeBytes
        storagePrefix := none
        devicePath := none
        message := some (stateMessage reason) }

/-- The volumes a pass provisions. One left bare by a refused seed is not tried again by a tick. -/
def provisions (plan : ReconcilePlan) (o : ObservedState) (trigger : Trigger) :
    List DesiredVolume :=
  plan.volumes.filterMap fun
    | .provision desired =>
      if trigger = .tick ∧ isBare o desired.volumeId then none else some desired
    | _ => none

/-- What was observed goes on record, and what is not ready is provisioned. -/
def applyVolumes (h : Host) (plan : ReconcilePlan) (o : ObservedState) (d : HostDesiredState)
    (trigger : Trigger) (answers : VolumeId → ProvisionAnswer) : Host :=
  let refusals := lastRefusals h.volumeReports
  let deleted := h.deletedVolumes.filter fun volume _ => volume ∈ d.volumeIds
  let existing := o.volumes.map fun v => toReportedVolume v refusals[v.volumeId]?
  let h :=
    { h with
      deletedVolumes := deleted
      volumeReports := mergeVolumeReports existing (deleted.toList.map (·.2)) }
  (provisions plan o trigger).foldl (fun h desired =>
    h.provisionVolume desired (answers desired.volumeId)) h

/-! ### Taking away -/

/-- The slot goes back with everything that comes from it. -/
def giveBackSlot (h : Host) (app : AppId) : Host :=
  { h with allocator := h.allocator.release app }

def tearDownVolume (h : Host) (desired : DesiredVolume) (deleted : Bool) : Host :=
  let h := h.teardown desired.volumeId desired.appId deleted
  if deleted then
    let report : ReportedVolume :=
      { volumeId := desired.volumeId
        appId := desired.appId
        state := .deleted
        sizeBytes := 0
        storagePrefix := none
        devicePath := none
        message := none }
    let h := h.giveBackSlot desired.appId
    { h with deletedVolumes := h.deletedVolumes.insert desired.volumeId report }.reportVolume report
  else h

def detachVolume (h : Host) (volume : VolumeId) (app : AppId) (detached : Bool) : Host :=
  if detached then
    let h := (h.takeDown app).giveBackSlot app
    { h with
      volumeReports := h.volumeReports.map fun r =>
        if r.volumeId = volume then { r with state := .detached, devicePath := none } else r }
  else h

/-- What the adapters answer when volumes are taken away. -/
structure TeardownAnswers where
  deleted : VolumeId → Bool
  detached : VolumeId → Bool

/-- One action of the plan's volume half, applied after the starts. -/
def applyTeardown (answers : TeardownAnswers) (h : Host) : VolumePlan → Host
  | .teardown desired => h.tearDownVolume desired (answers.deleted desired.volumeId)
  | .detach volume app => h.detachVolume volume app (answers.detached volume)
  | _ => h

def applyTeardowns (h : Host) (plan : ReconcilePlan) (answers : TeardownAnswers) : Host :=
  plan.volumes.foldl (applyTeardown answers) h

end Host

end Nibrunner

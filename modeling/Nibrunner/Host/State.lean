import Mathlib.Logic.Function.Basic
import Nibrunner.Instance.Capacity

/-!
# The state of a host

What the daemon keeps and what stands behind it: the instance records, the microVMs and their
snapshots, the slots, and the volumes with the devices that serve them. The operations of this
file are the primitive writes the daemon's own operations are made of (`putRecord`,
`updateRecord`, …) and the calls it makes of the microVM manager (`bootVm`, `wakeVm`, `sleepVm`,
`stopVm`, `discardVm`), each with what the adapter answers as an argument. Whoever asks a process to
stop goes on whatever becomes of it; where nothing is said of that, it goes down.

`boots` is a history variable: nothing reads it, and it says when each app was booted.

`OnlyApp app h h'` is the frame of every operation on one app: the records, microVMs, snapshots,
slots and boots of every other app are what they were.
-/

namespace Nibrunner

open Std

/-! ### What a host holds -/

/-- What the configuration says that the daemon's decisions read. -/
structure HostConfig where
  guestMemoryMib : ℕ
  /-- Whether the host runs an HTTP proxy. -/
  proxyHttp : Bool
  /-- How many raw ports a guest may name, on a host that binds any. -/
  maxPortsPerGuest : Option ℕ
deriving DecidableEq

/-- A guest written out to disk, with what it is stamped with and the memory it comes back with. -/
structure Snapshot where
  deploymentId : DeploymentId
  slot : ℕ
  memoryMib : ℕ
deriving DecidableEq

/-- The file a volume's data is in. -/
structure VolumeImage where
  sizeBytes : ℕ
  formatted : Bool
deriving DecidableEq

inductive VolumeState where
  | ready
  | failed
  | detached
  | deleted
deriving DecidableEq

structure ReportedVolume where
  volumeId : VolumeId
  appId : AppId
  state : VolumeState
  sizeBytes : ℕ
  storagePrefix : Option String
  devicePath : Option String
  message : Option String
deriving DecidableEq

structure Host where
  config : HostConfig
  records : ExtTreeMap AppId InstanceRecord
  vms : ExtTreeMap AppId Vm
  snapshots : ExtTreeMap AppId Snapshot
  allocator : SlotAllocator
  images : ExtTreeMap VolumeId VolumeImage
  /-- The volume each slot's device serves, where it answers. -/
  devices : ExtTreeMap ℕ VolumeId
  volumeReports : List ReportedVolume
  deletedVolumes : ExtTreeMap VolumeId ReportedVolume
  checkpoints : List CheckpointId
  isolated : Bool
  /-- When each app was booted, the latest boot first. -/
  boots : AppId → List ℤ

namespace Host

/-- A host laid out for `maxApps` apps that holds nothing. -/
def fresh (config : HostConfig) (maxApps : ℕ) : Host where
  config := config
  records := ∅
  vms := ∅
  snapshots := ∅
  allocator := { assignments := ∅, cursor := firstSlot, limit := maxApps }
  images := ∅
  devices := ∅
  volumeReports := []
  deletedVolumes := ∅
  checkpoints := []
  isolated := false
  boots := fun _ => []

/-- Whether the app's microVM is up. -/
def isUp (h : Host) (app : AppId) : Bool := h.vms[app]?.any Vm.isUp

def vmStatus (h : Host) (app : AppId) : VmStatus := h.vms[app]?.elim unknownVm Vm.status

/-- The slot an app holds. -/
def slotOf (h : Host) (app : AppId) : Option ℕ := h.allocator.slotOf app

/-- The records, in the order of their apps. -/
def recordList (h : Host) : List InstanceRecord := h.records.toList.map (·.2)

/-! ### Writes -/

def putRecord (h : Host) (r : InstanceRecord) : Host :=
  { h with records := h.records.insert r.appId r }

/-- The record as `change` leaves it, where there is one. -/
def updateRecord (h : Host) (app : AppId) (change : InstanceRecord → InstanceRecord) : Host :=
  { h with records := h.records.modify app change }

def dropRecord (h : Host) (app : AppId) : Host := { h with records := h.records.erase app }

/-- A sentence on the record. -/
def say (h : Host) (app : AppId) (said : String) : Host :=
  h.updateRecord app fun r => { r with message := some said }

/-- The slot of an app, a free one where it holds none. -/
def slotFor (h : Host) (app : AppId) : Option (AppSlot × Host) :=
  (h.allocator.allocate app).map fun (slot, allocator) => (slot, { h with allocator := allocator })

/-! ### The microVM manager -/

def discardSnapshot (h : Host) (app : AppId) : Host :=
  { h with snapshots := h.snapshots.erase app }

/-- Ask the process to stop, and kill it where it does not. -/
def stopProcess (h : Host) (app : AppId) (stop : StopAnswer := .down) : Host :=
  { h with vms := h.vms.modify app (Vm.asked stop) }

def stopVm (h : Host) (app : AppId) (stop : StopAnswer := .down) : Host :=
  (h.discardSnapshot app).stopProcess app stop

/-- Forget everything about the app's microVM. -/
def discardVm (h : Host) (app : AppId) : Host :=
  { h.discardSnapshot app with vms := h.vms.erase app }

/-- The process spawned for an app takes the place of the one before it. -/
def putVm (h : Host) (app : AppId) (vm : Vm) : Host := { h with vms := h.vms.insert app vm }

def putSnapshot (h : Host) (app : AppId) (snapshot : Snapshot) : Host :=
  { h with snapshots := h.snapshots.insert app snapshot }

/-- The history of an app with one more boot in it. -/
def logBoot (h : Host) (app : AppId) (nowMs : ℤ) : Host :=
  { h with boots := Function.update h.boots app (nowMs :: h.boots app) }

/-- How a boot goes once it is past the checks the manager makes itself. -/
inductive BootAnswer where
  | ok
  /-- The host is busy starting other microVMs. -/
  | busy
  /-- Refused on the way, before or after the process was spawned. -/
  | failed (reason : String) (spawned : Bool)
deriving DecidableEq

inductive BootResult where
  | booted
  | busy
  | failed (reason : String)
deriving DecidableEq

/-- What a start turned away at the door is told. -/
def busyMessage : String := "this host is busy starting other microVMs; retry later"

/-- Boot an instance on its slot. A snapshot of the app is discarded first, and a microVM that is
up is not booted over. -/
def bootVm (h : Host) (desired : DesiredInstance) (slot : AppSlot) (nowMs : ℤ)
    (answer : BootAnswer) (stop : StopAnswer := .down) : Host × BootResult :=
  let app := desired.appId
  let vm := Vm.spawned desired.config.resources.memoryMib slot.slot
  let begun := (h.discardSnapshot app).logBoot app nowMs
  match answer with
  | .busy => (h, .busy)
  | .failed reason spawned =>
    if spawned && !h.isUp app then (begun.putVm app (vm.asked stop), .failed reason)
    else (begun, .failed reason)
  | .ok =>
    if h.isUp app then (begun, .failed "a running microVM cannot have its jail rebuilt")
    else (begun.putVm app vm, .booted)

/-- How a restore goes once the snapshot is found loadable. -/
inductive WakeAnswer where
  | ok
  | busy
  | unusable (reason : String) (spawned : Bool)
  | failed (reason : String) (spawned : Bool)
deriving DecidableEq

inductive WakeResult where
  | restored
  | unusable
  | failed (reason : String)
deriving DecidableEq

/-- Why nothing can be restored: there is no snapshot, or it is stamped for another start. -/
def loadable (h : Host) (app : AppId) (deployment : DeploymentId) (slot : ℕ) : Option Snapshot :=
  h.snapshots[app]?.filter fun s => s.deploymentId = deployment && s.slot = slot

/-- What a restore that did not go through leaves: the snapshot used up, and the process it spawned
asked to stop. -/
def afterRestore (h : Host) (app : AppId) (snapshot : Snapshot) (spawned : Bool)
    (stop : StopAnswer := .down) : Host :=
  if spawned then
    (h.discardSnapshot app).putVm app ((Vm.spawned snapshot.memoryMib snapshot.slot).asked stop)
  else h.discardSnapshot app

/-- Restore an app from its snapshot, which is used up whether or not the restore succeeds. -/
def wakeVm (h : Host) (app : AppId) (deployment : DeploymentId) (slot : ℕ) (answer : WakeAnswer)
    (stop : StopAnswer := .down) : Host × WakeResult :=
  match answer, h.loadable app deployment slot with
  | .busy, _ => (h, .failed busyMessage)
  | _, none => (h.discardSnapshot app, .unusable)
  | .unusable _ spawned, some snapshot => (h.afterRestore app snapshot spawned stop, .unusable)
  | .failed reason spawned, some snapshot =>
    (h.afterRestore app snapshot spawned stop, .failed reason)
  | .ok, some snapshot =>
    ((h.discardSnapshot app).putVm app (Vm.spawned snapshot.memoryMib snapshot.slot), .restored)

/-- How a sleep goes once the manager has agreed to it. -/
inductive SleepAnswer where
  | ok
  /-- The disk has no room for the snapshot. -/
  | refused
  /-- The snapshot failed; the guest is resumed, or stopped where it cannot be. -/
  | failed (stopped : Bool)
deriving DecidableEq

/-- Why a microVM must not be snapshotted. -/
def refusalToSleep (subject : Option InstanceRecord) : Option String :=
  match subject with
  | none => some "this host holds no record of it"
  | some r =>
    if r.stopRequested || !r.desiredRunning then some "it has already been asked to stop"
    else if !r.health.everHealthy then
      some "it has never answered, so it may not have finished booting"
    else none

/-- Put the microVM to sleep: its memory is written out under its stamp and the process asked to
stop. Says whether the memory was. -/
def sleepVm (h : Host) (app : AppId) (deployment : DeploymentId) (slot : ℕ)
    (answer : SleepAnswer) (stop : StopAnswer := .down) : Host × Bool :=
  if (refusalToSleep h.records[app]?).isSome || answer = .refused then (h, false)
  else
    match h.vms[app]?.filter Vm.isUp, answer with
    | some vm, .ok =>
      ((h.stopProcess app stop).putSnapshot app
        { deploymentId := deployment, slot := slot, memoryMib := vm.memoryMib }, true)
    | some _, .failed true => ((h.discardSnapshot app).stopProcess app stop, false)
    | _, _ => (h.discardSnapshot app, false)

/-! ### The frame of an operation on one app -/

/-- Nothing of any other app is touched. -/
structure OnlyApp (app : AppId) (h h' : Host) : Prop where
  record : ∀ a, a ≠ app → h'.records[a]? = h.records[a]?
  vm : ∀ a, a ≠ app → h'.vms[a]? = h.vms[a]?
  snapshot : ∀ a, a ≠ app → h'.snapshots[a]? = h.snapshots[a]?
  slot : ∀ a, a ≠ app → h'.slotOf a = h.slotOf a
  boots : ∀ a, a ≠ app → h'.boots a = h.boots a
  config : h'.config = h.config

namespace OnlyApp

variable {app : AppId} {h h' h'' : Host}

protected theorem refl (app : AppId) (h : Host) : OnlyApp app h h :=
  ⟨fun _ _ => rfl, fun _ _ => rfl, fun _ _ => rfl, fun _ _ => rfl, fun _ _ => rfl, rfl⟩

protected theorem trans (h₁ : OnlyApp app h h') (h₂ : OnlyApp app h' h'') : OnlyApp app h h'' where
  record a ha := (h₂.record a ha).trans (h₁.record a ha)
  vm a ha := (h₂.vm a ha).trans (h₁.vm a ha)
  snapshot a ha := (h₂.snapshot a ha).trans (h₁.snapshot a ha)
  slot a ha := (h₂.slot a ha).trans (h₁.slot a ha)
  boots a ha := (h₂.boots a ha).trans (h₁.boots a ha)
  config := h₂.config.trans h₁.config

theorem isUp_eq (h₁ : OnlyApp app h h') {a : AppId} (ha : a ≠ app) : h'.isUp a = h.isUp a := by
  rw [isUp, isUp, h₁.vm a ha]

theorem putRecord (h : Host) {r : InstanceRecord} (hr : r.appId = app) :
    OnlyApp app h (h.putRecord r) := by
  refine { OnlyApp.refl app h with record := fun a ha => ?_ }
  rw [Host.putRecord, ExtTreeMap.getElem?_insert_ite, if_neg]
  rw [hr]
  exact ha.symm

theorem updateRecord (h : Host) (app : AppId) (change : InstanceRecord → InstanceRecord) :
    OnlyApp app h (h.updateRecord app change) := by
  refine { OnlyApp.refl app h with record := fun a ha => ?_ }
  rw [Host.updateRecord, ExtTreeMap.getElem?_modify_ite, if_neg ha.symm]

theorem dropRecord (h : Host) (app : AppId) : OnlyApp app h (h.dropRecord app) := by
  refine { OnlyApp.refl app h with record := fun a ha => ?_ }
  rw [Host.dropRecord, ExtTreeMap.getElem?_erase_ite, if_neg ha.symm]

theorem slotFor {slot : AppSlot} (hs : h.slotFor app = some (slot, h')) : OnlyApp app h h' := by
  simp only [Host.slotFor, Option.map_eq_some_iff, Prod.mk.injEq] at hs
  obtain ⟨⟨slot', allocator⟩, hal, rfl, rfl⟩ := hs
  obtain ⟨-, -, -, hother, -⟩ := SlotAllocator.allocate_spec hal
  exact { OnlyApp.refl app h with slot := fun a ha => hother a ha }

theorem discardSnapshot (h : Host) (app : AppId) : OnlyApp app h (h.discardSnapshot app) := by
  refine { OnlyApp.refl app h with snapshot := fun a ha => ?_ }
  rw [Host.discardSnapshot, ExtTreeMap.getElem?_erase_ite, if_neg ha.symm]

theorem stopProcess (h : Host) (app : AppId) : OnlyApp app h (h.stopProcess app) := by
  refine { OnlyApp.refl app h with vm := fun a ha => ?_ }
  rw [Host.stopProcess, ExtTreeMap.getElem?_modify_ite, if_neg ha.symm]

theorem stopVm (h : Host) (app : AppId) : OnlyApp app h (h.stopVm app) :=
  (discardSnapshot h app).trans (stopProcess _ app)

theorem putVm (h : Host) (app : AppId) (vm : Vm) : OnlyApp app h (h.putVm app vm) := by
  refine { OnlyApp.refl app h with vm := fun a ha => ?_ }
  rw [Host.putVm, ExtTreeMap.getElem?_insert_ite, if_neg ha.symm]

theorem putSnapshot (h : Host) (app : AppId) (snapshot : Snapshot) :
    OnlyApp app h (h.putSnapshot app snapshot) := by
  refine { OnlyApp.refl app h with snapshot := fun a ha => ?_ }
  rw [Host.putSnapshot, ExtTreeMap.getElem?_insert_ite, if_neg ha.symm]

theorem logBoot (h : Host) (app : AppId) (nowMs : ℤ) : OnlyApp app h (h.logBoot app nowMs) :=
  { OnlyApp.refl app h with boots := fun _ ha => Function.update_of_ne ha _ _ }

theorem discardVm (h : Host) (app : AppId) : OnlyApp app h (h.discardVm app) := by
  refine { discardSnapshot h app with vm := fun a ha => ?_ }
  rw [Host.discardVm, ExtTreeMap.getElem?_erase_ite, if_neg ha.symm]

theorem bootVm (h : Host) (desired : DesiredInstance) (slot : AppSlot) (nowMs : ℤ)
    (answer : BootAnswer) :
    OnlyApp desired.appId h (h.bootVm desired slot nowMs answer).1 := by
  have hbegun := (discardSnapshot h desired.appId).trans (logBoot _ desired.appId nowMs)
  unfold Host.bootVm
  cases answer with
  | busy => exact OnlyApp.refl _ h
  | failed reason spawned =>
    dsimp only
    split
    · exact hbegun.trans (putVm _ _ _)
    · exact hbegun
  | ok =>
    dsimp only
    split
    · exact hbegun
    · exact hbegun.trans (putVm _ _ _)

private theorem afterRestore (h : Host) (app : AppId) (snapshot : Snapshot) (spawned : Bool) :
    OnlyApp app h (h.afterRestore app snapshot spawned) := by
  unfold Host.afterRestore
  split
  · exact (discardSnapshot h app).trans (putVm _ _ _)
  · exact discardSnapshot h app

theorem wakeVm (h : Host) (app : AppId) (deployment : DeploymentId) (slot : ℕ)
    (answer : WakeAnswer) : OnlyApp app h (h.wakeVm app deployment slot answer).1 := by
  unfold Host.wakeVm
  split
  · exact OnlyApp.refl app h
  · exact discardSnapshot h app
  · exact afterRestore h app _ _
  · exact afterRestore h app _ _
  · exact (discardSnapshot h app).trans (putVm _ _ _)

theorem sleepVm (h : Host) (app : AppId) (deployment : DeploymentId) (slot : ℕ)
    (answer : SleepAnswer) : OnlyApp app h (h.sleepVm app deployment slot answer).1 := by
  unfold Host.sleepVm
  split
  · exact OnlyApp.refl app h
  · split
    · exact (stopProcess h app).trans (putSnapshot _ app _)
    · exact (discardSnapshot h app).trans (stopProcess _ app)
    · exact discardSnapshot h app

end OnlyApp

end Host

end Nibrunner

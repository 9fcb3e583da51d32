import Mathlib.Data.List.Basic
import Nibrunner.ForStd.IdMap
import Nibrunner.ForStd.Run
import Nibrunner.Host.Volumes
import Nibrunner.Net.Allocator

/-!
# Block devices

A volume is served through the block device of its app's slot. The name of a device belongs to the
slot, while the kernel goes on serving whatever export the device was last attached to, so a device
is formatted or handed out only once it is known to carry the volume: this daemon attached it by
name, or it carries the filesystem of the volume's image.

Calls of `provision`, `attach`, `observe`, `detach` and `teardown` may be under way at once, and a
step is one access of a call to what it shares with others: the files, the allocator, the record of
what was attached, a device. What the commands answer and what the kernel and the storage server do
is in the moves. A device that is attached by name serves that export; one that could not be
attached, or was disconnected, serves what it did or nothing.
-/

namespace Nibrunner.Nbd

open Std

abbrev CallId := ℕ

/-- What is read of a superblock: whether it has the magic of an ext filesystem, and the uuid. -/
structure Superblock where
  magic : Bool
  uuid : BitVec 128
deriving DecidableEq

def Superblock.filesystemUuid (superblock : Superblock) : Option (BitVec 128) :=
  if superblock.magic && superblock.uuid ≠ 0 then some superblock.uuid else none

/-- The file of a volume. -/
structure Image where
  sizeBytes : ℕ
  superblock : Superblock
deriving DecidableEq

def Image.empty : Image := ⟨0, ⟨false, 0⟩⟩

/-- A device the kernel holds a configuration for: its export, its size when it was attached, and
whether reads of it are answered. -/
structure Device where
  exported : VolumeId
  sizeBytes : ℕ
  answers : Bool
deriving DecidableEq

inductive Request where
  | provision (sizeBytes : ℕ)
  | attach
  | observe
  | detach
  | teardown
deriving DecidableEq

def Request.isProvision : Request → Bool
  | provision _ => true
  | _ => false

/-- Where a call is, with the slot it works on. The flag says that a refused attach is tried once
more. -/
inductive Phase where
  | entering
  | lookingUp
  | probing (slot : ℕ)
  | recalling (slot : ℕ)
  | comparing (slot : ℕ)
  | remembering (slot : ℕ)
  | takingDown (slot : ℕ) (again : Bool)
  | looking (slot : ℕ) (again : Bool)
  | forgetting (slot : ℕ) (again : Bool)
  | disconnecting (slot : ℕ) (again : Bool)
  | waiting (slot : ℕ) (again : Bool)
  | attaching (slot : ℕ) (again : Bool)
  | attached (slot : ℕ)
  | proven (slot : ℕ)
  | staging (slot : ℕ)
  | formatting (slot : ℕ)
  | deleting
  | done
deriving DecidableEq

namespace Phase

/-- The slot whose device a call uses. -/
def slot? : Phase → Option ℕ
  | probing slot | recalling slot | comparing slot | remembering slot | takingDown slot _
  | looking slot _ | forgetting slot _ | disconnecting slot _ | waiting slot _ | attaching slot _
  | attached slot | proven slot | staging slot | formatting slot => some slot
  | entering | lookingUp | deleting | done => none

def uses (slot : ℕ) (phase : Phase) : Bool := phase.slot? = some slot

/-- The device is being taken down or attached anew. -/
def isRework : Phase → Bool
  | takingDown _ _ | looking _ _ | forgetting _ _ | disconnecting _ _ | waiting _ _
  | attaching _ _ | attached _ => true
  | _ => false

def reworks (slot : ℕ) (phase : Phase) : Bool := phase.isRework && phase.uses slot

end Phase

structure Call where
  request : Request
  volumeId : VolumeId
  appId : AppId
  phase : Phase
deriving DecidableEq

/-- A device that was returned, and whether it served the volume then. -/
structure HandedOut where
  volumeId : VolumeId
  slot : ℕ
  served : Bool

/-- A run of `mke2fs`: for which volume, whether the device served it, and whether what it served
held a filesystem. -/
structure Formatted where
  volumeId : VolumeId
  served : Bool
  hadFilesystem : Bool

/-- A device that was disconnected or attached anew: whether it had been returned for a volume, and
whether it answered reads. -/
structure TakenDown where
  slot : ℕ
  lent : Bool
  answered : Bool

structure ZerofsVolumes where
  allocator : SlotAllocator
  attachedTo : ExtTreeMap ℕ VolumeId
  images : ExtTreeMap VolumeId Image
  devices : ExtTreeMap ℕ Device
  calls : List Call
  /-- The volumes that devices were returned for, until they are taken down. -/
  lent : ExtTreeMap ℕ VolumeId
  handedOut : List HandedOut
  formatted : List Formatted
  takenDown : List TakenDown

/-- What a step is answered from outside. -/
structure Answer where
  /-- A file could be opened. -/
  opens : Bool
  /-- A command exited well, a read or a resize went through, a seed could be staged. -/
  exitsWell : Bool
  /-- The kernel let go of the device. -/
  letsGo : Bool
  /-- What a format leaves behind. -/
  superblock : Superblock

namespace ZerofsVolumes

def start (allocator : SlotAllocator) (images : ExtTreeMap VolumeId Image)
    (devices : ExtTreeMap ℕ Device) : ZerofsVolumes where
  allocator := allocator
  attachedTo := ∅
  images := images
  devices := devices
  calls := []
  lent := ∅
  handedOut := []
  formatted := []
  takenDown := []

/-! ### What is read of a device -/

def isAttached (s : ZerofsVolumes) (slot : ℕ) : Bool := s.devices[slot]?.isSome

def isUsable (s : ZerofsVolumes) (slot : ℕ) : Bool :=
  s.devices[slot]?.any fun device => device.sizeBytes ≠ 0 && device.answers

/-- The superblock a device shows, which is that of the image it serves. -/
def superblockOf (s : ZerofsVolumes) (slot : ℕ) : Option Superblock :=
  (s.devices[slot]?.filter Device.answers).bind fun device =>
    s.images[device.exported]?.map Image.superblock

def carriesTheImage (s : ZerofsVolumes) (slot : ℕ) (volumeId : VolumeId) : Bool :=
  match s.images[volumeId]?.bind (·.superblock.filesystemUuid) with
  | some carried => (s.superblockOf slot).bind Superblock.filesystemUuid = some carried
  | none => false

/-- The device serves the volume. -/
def serves (s : ZerofsVolumes) (slot : ℕ) (volumeId : VolumeId) : Bool :=
  s.devices[slot]?.any fun device => device.exported = volumeId && device.answers

/-! ### A call -/

def goTo (s : ZerofsVolumes) (id : CallId) (call : Call) (phase : Phase) : ZerofsVolumes :=
  { s with calls := s.calls.set id { call with phase := phase } }

/-- The file of a volume at its size. A file is never made smaller. -/
def ensureDeviceFile (s : ZerofsVolumes) (volumeId : VolumeId) (sizeBytes : ℕ) (answer : Answer) :
    ZerofsVolumes × Bool :=
  let target := alignToSector sizeBytes
  let image := s.images[volumeId]?.getD Image.empty
  if s.images[volumeId]?.isSome && target < image.sizeBytes then (s, false)
  else if s.images[volumeId]?.isSome && image.sizeBytes = target then (s, true)
  else if !answer.opens then (s, false)
  else if answer.exitsWell && target < 2 ^ 63 then
    ({ s with images := s.images.insert volumeId { image with sizeBytes := target } }, true)
  else ({ s with images := s.images.insert volumeId image }, false)

def remember (s : ZerofsVolumes) (slot : ℕ) (volumeId : VolumeId) : ZerofsVolumes :=
  { s with attachedTo := s.attachedTo.insert slot volumeId }

def forget (s : ZerofsVolumes) (slot : ℕ) : ZerofsVolumes :=
  { s with attachedTo := s.attachedTo.erase slot }

/-- The client is run on the device: whoever it was returned to no longer has it. -/
def takeAway (s : ZerofsVolumes) (slot : ℕ) : ZerofsVolumes :=
  { s with
    lent := s.lent.erase slot
    takenDown := s.takenDown ++ [⟨slot, s.lent[slot]?.isSome, s.isUsable slot⟩] }

/-- What becomes of a device the kernel may let go of. -/
def release (s : ZerofsVolumes) (slot : ℕ) (letsGo : Bool) : ZerofsVolumes :=
  if letsGo then { s with devices := s.devices.erase slot } else s

/-- The device serves the volume's export. -/
def connect (s : ZerofsVolumes) (slot : ℕ) (volumeId : VolumeId) : ZerofsVolumes :=
  { s with
    devices := s.devices.insert slot
      ⟨volumeId, (s.images[volumeId]?.map Image.sizeBytes).getD 0, true⟩ }

def handOut (s : ZerofsVolumes) (id : CallId) (call : Call) (slot : ℕ) : ZerofsVolumes :=
  { s with
    handedOut := s.handedOut ++ [HandedOut.mk call.volumeId slot (s.serves slot call.volumeId)]
    lent := s.lent.insert slot call.volumeId }.goTo id call .done

/-- `mke2fs` writes to whatever the device serves. -/
def format (s : ZerofsVolumes) (slot : ℕ) (volumeId : VolumeId) (superblock : Superblock) :
    ZerofsVolumes :=
  let run : Formatted :=
    ⟨volumeId, s.serves slot volumeId, (s.superblockOf slot).any Superblock.magic⟩
  match s.devices[slot]?.filter Device.answers with
  | some device =>
    { s with
      images := s.images.modify device.exported fun image => { image with superblock := superblock }
      formatted := s.formatted ++ [run] }
  | none => { s with formatted := s.formatted ++ [run] }

/-- Where a call goes that finds its device unproven: it re-attaches it, unless it only looks. -/
def unproven (request : Request) (slot : ℕ) : Phase :=
  match request with
  | .observe => .done
  | _ => .takingDown slot false

/-- Where a call goes once the client has disconnected the device. -/
def disconnected (request : Request) (slot : ℕ) (again : Bool) : Phase :=
  match request with
  | .provision _ | .attach => .waiting slot again
  | .teardown => .deleting
  | .observe | .detach => .done

def enter (s : ZerofsVolumes) (id : CallId) (call : Call) (answer : Answer) : ZerofsVolumes :=
  match call.request with
  | .provision sizeBytes =>
    let (s, made) := s.ensureDeviceFile call.volumeId sizeBytes answer
    s.goTo id call (if made then .lookingUp else .done)
  | .attach | .observe =>
    s.goTo id call (if s.images[call.volumeId]?.isSome then .lookingUp else .done)
  | .detach | .teardown => s.goTo id call .lookingUp

/-- The slot of the call's app; provisioning takes one for it. -/
def lookUp (s : ZerofsVolumes) (id : CallId) (call : Call) : ZerofsVolumes :=
  match call.request with
  | .provision _ =>
    match s.allocator.allocate call.appId with
    | some (slot, allocator) => { s with allocator := allocator }.goTo id call (.probing slot.slot)
    | none => s.goTo id call .done
  | .attach | .observe =>
    match s.allocator.slotOf call.appId with
    | some slot => s.goTo id call (.probing slot)
    | none => s.goTo id call .done
  | .detach =>
    match s.allocator.slotOf call.appId with
    | some slot => s.goTo id call (.forgetting slot false)
    | none => s.goTo id call .done
  | .teardown =>
    match s.allocator.slotOf call.appId with
    | some slot => s.goTo id call (.forgetting slot false)
    | none => s.goTo id call .deleting

/-- A device proven to carry its volume is returned; provisioning formats it first, if it holds no
filesystem. -/
def useProven (s : ZerofsVolumes) (id : CallId) (call : Call) (slot : ℕ) (answer : Answer) :
    ZerofsVolumes :=
  match call.request with
  | .provision _ =>
    match (s.superblockOf slot).filter fun _ => answer.exitsWell with
    | some superblock =>
      if superblock.magic then s.handOut id call slot else s.goTo id call (.staging slot)
    | none => s.goTo id call .done
  | .attach => s.handOut id call slot
  | .observe | .detach | .teardown => s.goTo id call .done

/-- The next step of a call. -/
def stepCall (s : ZerofsVolumes) (id : CallId) (call : Call) (answer : Answer) : ZerofsVolumes :=
  match call.phase with
  | .entering => s.enter id call answer
  | .lookingUp => s.lookUp id call
  | .probing slot =>
    s.goTo id call (if s.isUsable slot then .recalling slot else unproven call.request slot)
  | .recalling slot =>
    s.goTo id call
      (if s.attachedTo[slot]? = some call.volumeId then .proven slot else .comparing slot)
  | .comparing slot =>
    s.goTo id call (if s.carriesTheImage slot call.volumeId then .remembering slot
      else unproven call.request slot)
  | .remembering slot | .attached slot =>
    (s.remember slot call.volumeId).goTo id call (.proven slot)
  | .takingDown slot again => (s.forget slot).goTo id call (.looking slot again)
  | .looking slot again =>
    s.goTo id call (if s.isAttached slot then .forgetting slot again else .attaching slot again)
  | .forgetting slot again => (s.forget slot).goTo id call (.disconnecting slot again)
  | .disconnecting slot again =>
    ((s.takeAway slot).release slot answer.letsGo).goTo id call
      (disconnected call.request slot again)
  | .waiting slot again => (s.release slot answer.letsGo).goTo id call (.attaching slot again)
  | .attaching slot again =>
    if answer.exitsWell then
      ((s.takeAway slot).connect slot call.volumeId).goTo id call (.attached slot)
    else
      ((s.takeAway slot).release slot answer.letsGo).goTo id call
        (if again then .done else .takingDown slot true)
  | .proven slot => s.useProven id call slot answer
  | .staging slot => s.goTo id call (if answer.exitsWell then .formatting slot else .done)
  | .formatting slot =>
    let s' := s.format slot call.volumeId answer.superblock
    if answer.exitsWell && (s.superblockOf slot).isSome then s'.handOut id call slot
    else s'.goTo id call .done
  | .deleting =>
    (if answer.exitsWell then { s with images := s.images.erase call.volumeId } else s).goTo id call
      .done
  | .done => s

/-! ### Moves -/

inductive Move where
  | begin (request : Request) (volumeId : VolumeId) (appId : AppId)
  | advance (id : CallId) (answer : Answer)
  | releaseSlot (appId : AppId)
  | allocateSlot (appId : AppId)
  /-- The daemon comes back with the assignments it wrote down, and without what it attached. -/
  | daemonRestarts (allocator : SlotAllocator)
  | storageRestarts
  | guestWrites (volumeId : VolumeId) (superblock : Superblock)

def step (s : ZerofsVolumes) : Move → ZerofsVolumes
  | .begin request volumeId appId =>
    { s with calls := s.calls ++ [⟨request, volumeId, appId, .entering⟩] }
  | .advance id answer =>
    match s.calls[id]? with
    | some call => s.stepCall id call answer
    | none => s
  | .releaseSlot appId => { s with allocator := s.allocator.release appId }
  | .allocateSlot appId =>
    { s with allocator := (s.allocator.allocate appId).elim s.allocator Prod.snd }
  | .daemonRestarts allocator =>
    { s with
      allocator := allocator
      attachedTo := ∅
      lent := ∅
      calls := s.calls.map fun call => { call with phase := .done } }
  | .storageRestarts =>
    { s with devices := s.devices.map fun _ device => { device with answers := false } }
  | .guestWrites volumeId superblock =>
    { s with
      images := s.images.modify volumeId fun image => { image with superblock := superblock } }

end ZerofsVolumes

end Nibrunner.Nbd

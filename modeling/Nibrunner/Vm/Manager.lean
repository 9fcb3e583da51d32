import Nibrunner.ForStd.Interruptible
import Nibrunner.Protocol.Identifier
import Nibrunner.Vm.Status

/-!
# The microVM manager's operations on one app

`boot`, `sleep`, `wake`, `stop` and `discard` of one app, and the reaping of snapshots at the
daemon's start, as programs over the host's effects. Every effect is one action, so that the
daemon may crash between any two of them, and every fallible one is answered by the
environment. A call over the VMM's socket can also be carried out and its answer lost.

What the world holds is what the operations read and leave behind: the app's VMM processes, the
record of the one the daemon started last, the socket that one answers on, and the disk with the
published snapshot, the directory a snapshot is staged in, and the exchange the VMM reads and
writes its own files in.

A guest that runs changes the tenant's filesystem. `clock` counts how often a guest of the app
has executed, and a snapshot file is known by the count it was captured at. `loads` is the
history of snapshots a wake has had loaded.
-/

namespace Nibrunner

/-- The ways a microVM operation fails. -/
inductive VmError where
  | startBusy
  | snapshotUnusable (reason : String)
  | sleepRefused (reason : String)
  | unreachable (socketPath reason : String)
  | rejected (path : String) (status : ℕ) (detail : String)
  | host (message : String)
deriving DecidableEq

def VmError.message : VmError → String
  | startBusy => "this host is busy starting other microVMs; retry later"
  | snapshotUnusable reason => s!"the saved microVM state cannot be restored: {reason}"
  | sleepRefused reason => s!"this microVM must not be snapshotted: {reason}"
  | unreachable socketPath reason => s!"no microVM answered {socketPath}: {reason}"
  | rejected path status detail => s!"the microVM refused {path} with {status}{detail}"
  | host message => message

/-- The app a sleep or a wake is asked for: its deployment and its slot. -/
structure SuspendRequest where
  deploymentId : DeploymentId
  slot : ℕ
deriving DecidableEq

/-! ### Stamps -/

structure SnapshotStamp where
  deploymentId : DeploymentId
  guestImageVersion : Option String
  hostBootId : String
  slot : ℕ
deriving DecidableEq

/-- Why a snapshot stamped `stored` cannot be woken where `expected` is due. -/
def driftFrom (stored expected : SnapshotStamp) : Option String :=
  if stored.deploymentId ≠ expected.deploymentId then
    some "the app has been deployed again since"
  else if stored.guestImageVersion.isNone then
    some "the snapshot's guest image is unknown"
  else if stored.guestImageVersion ≠ expected.guestImageVersion then
    some "the guest image has changed"
  else if stored.hostBootId ≠ expected.hostBootId then
    some "the host has rebooted"
  else if stored.slot ≠ expected.slot then
    some "the app has moved to another slot"
  else
    none

theorem eq_of_driftFrom_eq_none {stored expected : SnapshotStamp}
    (h : driftFrom stored expected = none) : stored = expected := by
  obtain ⟨deployment, image, boot, slot⟩ := stored
  obtain ⟨deployment', image', boot', slot'⟩ := expected
  simp only [driftFrom] at h
  split_ifs at h with h₁ h₂ h₃ h₄ h₅
  simp_all

/-- What one daemon knows of itself from its start to its end: the guest image installed, and
the boot of the host it read. -/
structure VmManager where
  guestImageVersion : String
  bootId : String
deriving DecidableEq

def VmManager.currentStamp (m : VmManager) (request : SuspendRequest) : SnapshotStamp where
  deploymentId := request.deploymentId
  guestImageVersion := some m.guestImageVersion
  hostBootId := m.bootId
  slot := request.slot

/-! ### The disk -/

/-- The two files of a snapshot. -/
inductive SnapshotFile where
  | state
  | memory
deriving DecidableEq

/-- What a snapshot file is called in its directory. -/
def SnapshotFile.filename : SnapshotFile → String
  | state => "vmstate"
  | memory => "memory"

/-- The stamp with what its two files hashed to when they were sealed. A file is known by the
count it was captured at. -/
structure SnapshotManifest where
  stamp : SnapshotStamp
  sealed : SnapshotFile → ℕ

structure SnapshotDirectory where
  files : SnapshotFile → Option ℕ
  manifest : Option SnapshotManifest

/-- The app's part of the snapshot directory: the published snapshot, the one staged, and the
exchange with the boot it was written under. -/
structure SnapshotStorage where
  published : Option SnapshotDirectory
  staged : Option SnapshotDirectory
  exchange : SnapshotFile → Option ℕ
  exchangeBootId : Option String

namespace SnapshotStorage

/-- The stamp the published snapshot carries. -/
def manifest (d : SnapshotStorage) : Option SnapshotManifest := d.published.bind (·.manifest)

def removeStamp (d : SnapshotStorage) : SnapshotStorage :=
  { d with published := d.published.map fun s => { s with manifest := none } }

@[simp] theorem manifest_removeStamp (d : SnapshotStorage) : d.removeStamp.manifest = none := by
  simp [manifest, removeStamp]

def removePublished (d : SnapshotStorage) : SnapshotStorage := { d with published := none }

def stage (d : SnapshotStorage) : SnapshotStorage :=
  { d with staged := some ⟨fun _ => none, none⟩ }

def dropStaged (d : SnapshotStorage) : SnapshotStorage := { d with staged := none }

/-- `publish_snapshot_file`: a file the VMM wrote is renamed out of the exchange. -/
def takeFile (d : SnapshotStorage) (file : SnapshotFile) : SnapshotStorage where
  published := d.published
  staged := d.staged.map fun s =>
    { s with files := Function.update s.files file (d.exchange file) }
  exchange := Function.update d.exchange file none
  exchangeBootId := d.exchangeBootId

def writeStamp (d : SnapshotStorage) (manifest : SnapshotManifest) : SnapshotStorage :=
  { d with staged := d.staged.map fun s => { s with manifest := some manifest } }

/-- The staged directory is renamed onto the published one. -/
def publish (d : SnapshotStorage) : SnapshotStorage :=
  match d.staged with
  | some s => { d with published := some s, staged := none }
  | none => d

def removeExchanged (d : SnapshotStorage) (file : SnapshotFile) : SnapshotStorage :=
  { d with exchange := Function.update d.exchange file none }

def removeExchange (d : SnapshotStorage) : SnapshotStorage :=
  { d with exchange := fun _ => none }

/-- A published file is linked into the exchange. -/
def linkFile (d : SnapshotStorage) (file : SnapshotFile) : SnapshotStorage :=
  { d with exchange := Function.update d.exchange file (d.published.bind (·.files file)) }

/-- Both files stand in the exchange as the VMM is told to write them. -/
def capture (d : SnapshotStorage) (clock : ℕ) : SnapshotStorage :=
  { d with exchange := fun _ => some clock }

end SnapshotStorage

/-! ### The world -/

/-- What a VMM process does with its guest. -/
inductive VmmMode where
  | empty
  | running
  | paused
deriving DecidableEq

structure VmmProcess where
  pid : ℕ
  mode : VmmMode
deriving DecidableEq

/-- The record the daemon writes of the process it started. -/
structure VmRecord where
  pid : ℕ
  hostBootId : String
  guestImageVersion : Option String
  exit : Option VmExit
  stopRequested : Bool
  jailed : Bool
deriving DecidableEq

def VmRecord.status (record : VmRecord) (bootId : String) (alive : Bool) : VmStatus :=
  let startedThisBoot := record.hostBootId = bootId
  let active := startedThisBoot && record.exit.isNone && alive
  { loaded := true
    active := active
    failed := !active && !record.stopRequested && record.exit.any (· ≠ .code 0)
    startedThisBoot := startedThisBoot
    exit := record.exit }

/-- A snapshot a wake had loaded: the request, the stamp the wake checked and the one that was
due, the counts its files were captured at, and the count when it was loaded. -/
structure SnapshotLoad where
  stamp : SnapshotStamp
  expected : SnapshotStamp
  captured : SnapshotFile → ℕ
  clock : ℕ

/-- No guest of the app has executed since the snapshot was captured, and its stamp names what
the request does. -/
def SnapshotLoad.Fresh (l : SnapshotLoad) : Prop :=
  (∀ file, l.captured file = l.clock) ∧ l.stamp = l.expected

structure VmWorld where
  manager : VmManager
  clock : ℕ
  processes : List VmmProcess
  nextPid : ℕ
  socket : Option ℕ
  record : Option VmRecord
  storage : SnapshotStorage
  loads : List SnapshotLoad

namespace VmWorld

variable (w : VmWorld)

/-- No guest of the app is executing. -/
def Quiet : Prop := ∀ p ∈ w.processes, p.mode ≠ .running

def isAlive (pid : ℕ) : Bool := w.processes.any (·.pid = pid)

def setMode (pid : ℕ) (mode : VmmMode) : VmWorld :=
  { w with processes := w.processes.map fun p => if p.pid = pid then { p with mode } else p }

def kill (pid : ℕ) : VmWorld :=
  { w with processes := w.processes.filter (·.pid ≠ pid) }

/-- A VMM started with a configuration boots its guest; one started without waits for a
snapshot to load. The newest one is bound to the app's socket. -/
def startProcess (boot : Bool) : VmWorld :=
  { w with
    processes := w.processes ++ [⟨w.nextPid, if boot then .running else .empty⟩]
    nextPid := w.nextPid + 1
    socket := some w.nextPid }

/-- The process that takes a call at the app's socket, where the caller requires its peer to be
the process of the record. -/
def callee (peer : Option ℕ) : Option VmmProcess :=
  w.processes.find? fun p => w.socket = some p.pid && peer.all (· = p.pid)

/-- The snapshot in the exchange is loaded into the process `pid`. -/
def load (pid : ℕ) (request : SuspendRequest) (stamp : SnapshotStamp)
    (captured : SnapshotFile → ℕ) : VmWorld :=
  { w.setMode pid .paused with
    loads := w.loads ++ [⟨stamp, w.manager.currentStamp request, captured, w.clock⟩] }

end VmWorld

/-! ### Actions -/

/-- Steps of the host that can fail and leave nothing an operation of the app reads again. -/
inductive HostStep where
  | startPermit
  | admitSnapshot
  | stageInputs
  | prepareJail
  | attachChannels
  | grantSocket
  | setTapOwner
  | runtimeDirectory
  | linkSocket
  | openConsole
  | initialized
  | flushVolumes
  | freezeTenant
  | wakeTenant
  | reserveMemory
  | restoreMemory
  | releaseCgroup
  | exchangeDirectory
  | syncStamp
  | syncDirectory
  | readopt
  | ownSnapshot
  | refreshNeighbour
  | listSnapshots
  | fileType
deriving DecidableEq

inductive VmAction where
  | attempt (step : HostStep)
  | readRecord
  | writeRecord (record : VmRecord)
  | forget
  | isAlive (pid : ℕ)
  | kill (pid : ℕ)
  | removeSocket
  | startProcess (boot : Bool)
  | pause (peer : Option ℕ)
  | resume (peer : Option ℕ)
  | createSnapshot (peer : Option ℕ)
  | loadSnapshot (peer : Option ℕ) (request : SuspendRequest) (stamp : SnapshotStamp)
  | removeStamp
  | removePublished
  | readStamp
  | hashFile (file : SnapshotFile)
  | stage
  | takeFile (file : SnapshotFile)
  | sealFile (file : SnapshotFile)
  | writeStamp (manifest : SnapshotManifest)
  | publish
  | dropStaged
  | writeExchangeBootId (bootId : String)
  | readExchangeBootId
  | removeExchanged (file : SnapshotFile)
  | removeExchange
  | linkFile (file : SnapshotFile)

/-- What an action is answered with. -/
@[reducible] def VmAction.Reply : VmAction → Type
  | attempt _ => Except VmError Unit
  | readRecord => Option VmRecord
  | writeRecord _ => Except VmError Unit
  | forget => Unit
  | isAlive _ => Bool
  | kill _ => Unit
  | removeSocket => Unit
  | startProcess _ => Except VmError ℕ
  | pause _ => Except VmError Unit
  | resume _ => Except VmError Unit
  | createSnapshot _ => Except VmError Unit
  | loadSnapshot _ _ _ => Except VmError Unit
  | removeStamp => Unit
  | removePublished => Unit
  | readStamp => Option SnapshotManifest
  | hashFile _ => Except VmError ℕ
  | stage => Except VmError Unit
  | takeFile _ => Except VmError Unit
  | sealFile _ => Except VmError ℕ
  | writeStamp _ => Except VmError Unit
  | publish => Unit
  | dropStaged => Unit
  | writeExchangeBootId _ => Except VmError Unit
  | readExchangeBootId => Option String
  | removeExchanged _ => Unit
  | removeExchange => Unit
  | linkFile _ => Except VmError Unit

/-- How the environment answers an action: it is carried out, or carried out with its answer
lost, or not carried out. -/
inductive Answer where
  | done
  | lost (error : VmError)
  | failed (error : VmError)
deriving DecidableEq

namespace Answer

def carriedOut : Answer → Bool
  | done => true
  | lost _ => true
  | failed _ => false

def reply {α : Type} (a : α) : Answer → Except VmError α
  | done => .ok a
  | lost error => .error error
  | failed error => .error error

/-- A read yields nothing where it fails. -/
def read {α : Type} (a : Option α) : Answer → Option α
  | done => a
  | lost _ => none
  | failed _ => none

end Answer

namespace VmWorld

/-- A fallible action: `after` is the world where it is carried out. -/
def fallible {α : Type} (w after : VmWorld) (c : Answer) (a : α) : VmWorld × Except VmError α :=
  (if c.carriedOut then after else w, c.reply a)

/-- A call over the app's socket, taken by a VMM in one of the modes `takes`. -/
def call (w : VmWorld) (peer : Option ℕ) (c : Answer) (takes : VmmMode → Bool)
    (after : VmmProcess → VmWorld) : VmWorld × Except VmError Unit :=
  match w.callee peer with
  | none =>
    if w.processes.any fun p => w.socket = some p.pid then
      (w, .error (.host "the Firecracker API socket does not belong to the recorded VMM"))
    else
      (w, .error (.unreachable "vm.sock" "nothing is bound to it"))
  | some p =>
    if takes p.mode then w.fallible (after p) c () else (w, .error (.rejected "/vm" 400 ""))

/-- A change of the disk alone. -/
def onStorage (w : VmWorld) (f : SnapshotStorage → SnapshotStorage) : VmWorld :=
  { w with storage := f w.storage }

/-- What an action does under an answer of the environment. Removals and renames succeed. -/
def perform : (e : VmAction) → Answer → VmWorld → VmWorld × e.Reply
  | .attempt _, c, w => (w, c.reply ())
  | .readRecord, c, w => (w, c.read w.record)
  | .writeRecord record, c, w => w.fallible { w with record := some record } c ()
  | .forget, _, w => ({ w with record := none, socket := none }, ())
  | .isAlive pid, _, w => (w, w.isAlive pid)
  | .kill pid, _, w => (w.kill pid, ())
  | .removeSocket, _, w => ({ w with socket := none }, ())
  | .startProcess boot, c, w => w.fallible (w.startProcess boot) c w.nextPid
  | .pause peer, c, w => w.call peer c (· ≠ .empty) fun p => w.setMode p.pid .paused
  | .resume peer, c, w => w.call peer c (· ≠ .empty) fun p => w.setMode p.pid .running
  | .createSnapshot peer, c, w =>
    w.call peer c (· = .paused) fun _ => w.onStorage (·.capture w.clock)
  | .loadSnapshot peer request stamp, c, w =>
    match w.storage.exchange .state, w.storage.exchange .memory with
    | some state, some memory =>
      w.call peer c (· = .empty) fun p =>
        w.load p.pid request stamp fun | .state => state | .memory => memory
    | _, _ => (w, .error (.rejected "/snapshot/load" 400 ""))
  | .removeStamp, _, w => (w.onStorage (·.removeStamp), ())
  | .removePublished, _, w => (w.onStorage (·.removePublished), ())
  | .readStamp, c, w => (w, c.read w.storage.manifest)
  | .hashFile file, c, w =>
    match w.storage.published.bind (·.files file) with
    | some captured => (w, c.reply captured)
    | none => (w, .error (.host "No such file or directory (os error 2)"))
  | .stage, c, w => w.fallible (w.onStorage (·.stage)) c ()
  | .takeFile file, c, w =>
    match w.storage.exchange file with
    | some _ => w.fallible (w.onStorage (·.takeFile file)) c ()
    | none => (w, .error (.host "No such file or directory (os error 2)"))
  | .sealFile file, c, w =>
    match w.storage.staged.bind (·.files file) with
    | some captured => (w, c.reply captured)
    | none => (w, .error (.host "No such file or directory (os error 2)"))
  | .writeStamp manifest, c, w => w.fallible (w.onStorage (·.writeStamp manifest)) c ()
  | .publish, _, w => (w.onStorage (·.publish), ())
  | .dropStaged, _, w => (w.onStorage (·.dropStaged), ())
  | .writeExchangeBootId bootId, c, w =>
    w.fallible (w.onStorage ({ · with exchangeBootId := some bootId })) c ()
  | .readExchangeBootId, c, w => (w, c.read w.storage.exchangeBootId)
  | .removeExchanged file, _, w => (w.onStorage (·.removeExchanged file), ())
  | .removeExchange, _, w => (w.onStorage (·.removeExchange), ())
  | .linkFile file, c, w =>
    match w.storage.published.bind (·.files file) with
    | some _ => w.fallible (w.onStorage (·.linkFile file)) c ()
    | none => (w, .error (.host "No such file or directory (os error 2)"))

end VmWorld

/-! ### Processes -/

/-- A program over the host's effects. -/
abbrev Vmm := Program VmAction VmAction.Reply

/-- One action. -/
def ask (e : VmAction) : Vmm e.Reply := Program.perform e

/-- One fallible step of the host. -/
def attempt (step : HostStep) : Vmm (Except VmError Unit) := ask (.attempt step)

namespace VmProcesses

def status (m : VmManager) : Vmm VmStatus := do
  let some record ← ask .readRecord | return unknownVm
  let alive ← ask (.isAlive record.pid)
  return record.status m.bootId alive

/-- Where the record cannot be read there is nothing to stop. A process that does not go when
asked is killed. -/
def stop : Vmm Unit := do
  let some record ← ask .readRecord | return ()
  let _ ← ask (.writeRecord { record with stopRequested := true })
  if ← ask (.isAlive record.pid) then
    ask (.kill record.pid)

/-- The process is started first and its record written after it. -/
def launch (m : VmManager) (boot : Bool) : Vmm (Except VmError Unit) := do
  if let .error error ← attempt .openConsole then return .error error
  match ← ask (.startProcess boot) with
  | .error error => return .error error
  | .ok pid =>
    ask (.writeRecord
      { pid := pid
        hostBootId := m.bootId
        guestImageVersion := some m.guestImageVersion
        exit := none
        stopRequested := false
        jailed := true })

def spawn (m : VmManager) (boot : Bool) : Vmm (Except VmError Unit) := do
  if let .error error ← attempt .runtimeDirectory then return .error error
  ask .removeSocket
  if let .error error ← attempt .linkSocket then return .error error
  launch m boot

end VmProcesses

/-! ### Snapshots -/

namespace StagedSnapshot

/-- The staged files are sealed and stamped, and the directory is renamed into place. -/
def publish (stamp : SnapshotStamp) : Vmm (Except VmError Unit) := do
  let failed (file : SnapshotFile) (error : VmError) : VmError :=
    .host s!"{file.filename} could not be committed: {error.message}"
  match ← ask (.sealFile .state) with
  | .error error => return .error (failed .state error)
  | .ok state =>
  match ← ask (.sealFile .memory) with
  | .error error => return .error (failed .memory error)
  | .ok memory =>
  let sealed : SnapshotFile → ℕ := fun | .state => state | .memory => memory
  if let .error error ← ask (.writeStamp ⟨stamp, sealed⟩) then return .error error
  if let .error error ← attempt .syncStamp then return .error error
  if let .error error ← attempt .syncDirectory then return .error error
  ask .publish
  attempt .syncDirectory

end StagedSnapshot

def verifyFile (file : SnapshotFile) (expected : ℕ) : Vmm (Except VmError Unit) := do
  match ← ask (.hashFile file) with
  | .ok captured =>
    if captured = expected then
      return .ok ()
    else
      return .error (.snapshotUnusable
        s!"{file.filename} no longer matches its recorded size or SHA-256")
  | .error error =>
    return .error (.snapshotUnusable
      s!"{file.filename} could not be verified: {error.message}")

/-- Whether the published snapshot may be loaded. The stamp that was checked is kept for the
history of loads. -/
def ensureLoadable (expected : SnapshotStamp) : Vmm (Except VmError SnapshotStamp) := do
  let some stored ← ask .readStamp
    | return .error (.snapshotUnusable "this host kept none")
  if let some reason := driftFrom stored.stamp expected then
    return .error (.snapshotUnusable reason)
  let some manifest ← ask .readStamp
    | return .error (.snapshotUnusable "its stamp has no readable integrity record")
  if let .error error ← verifyFile .state (manifest.sealed .state) then return .error error
  if let .error error ← verifyFile .memory (manifest.sealed .memory) then return .error error
  return .ok stored.stamp

/-- The exchange is removed where it was written under another boot of the host. -/
def reapExchange (m : VmManager) : Vmm Unit := do
  if let .ok () ← attempt .fileType then
    if (← ask .readExchangeBootId) ≠ some m.bootId then
      ask .removeExchange

/-- So is a published snapshot not stamped this boot. -/
def reapPublished (m : VmManager) : Vmm Unit := do
  if let .ok () ← attempt .fileType then
    let stamp ← ask .readStamp
    if !stamp.any fun stored => stored.stamp.hostBootId = m.bootId then
      ask .removePublished

/-- What was only staged is always removed. -/
def reapStaged : Vmm Unit := do
  if let .ok () ← attempt .fileType then
    ask .dropStaged

/-- What a daemon does with the snapshots it finds when it starts. -/
def reapStaleSnapshots (m : VmManager) : Vmm (Except VmError Unit) := do
  if let .error error ← attempt .listSnapshots then return .error error
  reapExchange m
  reapPublished m
  reapStaged
  return .ok ()

/-! ### Operations -/

namespace VmManager

variable (m : VmManager)

def discardSnapshot : Vmm Unit := do
  ask .removeStamp
  ask .removePublished

/-- The stamp a sleep writes: the guest image is the one the running guest was booted from. -/
def sleepStamp (request : SuspendRequest) : Vmm SnapshotStamp := do
  let record ← ask .readRecord
  return { m.currentStamp request with guestImageVersion := record.bind (·.guestImageVersion) }

/-- The peer a call over the app's socket requires: the process of a jailed record. -/
def api : Vmm (Option ℕ) := do
  let record ← ask .readRecord
  return record.bind fun record => if record.jailed then some record.pid else none

def prepareJail : Vmm (Except VmError Unit) := do
  if (← VmProcesses.status m).active then
    return .error (.host "a running microVM cannot have its jail rebuilt")
  attempt .prepareJail

def stage : Vmm (Except VmError Unit) := do
  if let .error error ← attempt .stageInputs then return .error error
  if let .error error ← prepareJail m then return .error error
  if let .error error ← attempt .attachChannels then return .error error
  if let .error error ← attempt .grantSocket then return .error error
  if let .error error ← attempt .grantSocket then return .error error
  attempt .setTapOwner

def boot : Vmm (Except VmError Unit) := do
  if let .error _ ← attempt .startPermit then return .error .startBusy
  discardSnapshot
  if let .error error ← stage m then return .error error
  if let .error error ← VmProcesses.spawn m true then return .error (.host error.message)
  if let .error error ← attempt .initialized then
    VmProcesses.stop
    return .error error
  return .ok ()

/-- The VMM writes both files into the exchange, and they are taken out of it. -/
def captureInto : Vmm (Except VmError Unit) := do
  let peer ← api
  if let .error error ← ask (.createSnapshot peer) then return .error error
  if let .error error ← ask (.takeFile .state) then return .error error
  ask (.takeFile .memory)

def createSnapshot : Vmm (Except VmError Unit) := do
  if let .error error ← attempt .exchangeDirectory then return .error error
  if let .error error ← ask (.writeExchangeBootId m.bootId) then return .error error
  if let .error error ← attempt .exchangeDirectory then return .error error
  ask (.removeExchanged .state)
  ask (.removeExchanged .memory)
  let outcome ← captureInto
  ask (.removeExchanged .state)
  ask (.removeExchanged .memory)
  if let .error _ := outcome then
    discardSnapshot
  return outcome

/-- A snapshot is created in the staged directory and published from it. -/
def createAndPublish (stamp : SnapshotStamp) : Vmm (Except VmError Unit) := do
  if let .error error ← createSnapshot m then return .error error
  StagedSnapshot.publish stamp

/-- The staged directory goes with the value that names it, however the attempt ended. -/
def stagedSnapshot (stamp : SnapshotStamp) : Vmm (Except VmError Unit) := do
  if let .error error ← ask .stage then return .error error
  let outcome ← createAndPublish m stamp
  ask .dropStaged
  return outcome

/-- Whether the record names a jail. -/
def jailed : Vmm Bool := do
  let record ← ask .readRecord
  return record.any (·.jailed)

/-- Only a jailed VMM has a ceiling to raise; `true` where one is to be restored. -/
def reserveSnapshotMemory : Vmm (Except VmError Bool) := do
  if !(← jailed) then return .ok false
  if let .error error ← attempt .reserveMemory then
    return .error (.host s!"snapshot memory could not be reserved: {error.message}")
  return .ok true

/-- The paused VMM is stopped where its snapshot was published. -/
def endSnapshot (outcome : Except VmError Unit) : Vmm Unit :=
  if outcome.isOk then VmProcesses.stop else discardSnapshot

/-- The cgroup of a VMM that sleeps is released. -/
def releaseStopped (outcome : Except VmError Unit) : Vmm (Except VmError Unit) := do
  if outcome.isOk then
    if ← jailed then
      if let .error error ← attempt .releaseCgroup then
        return .error (.host
          s!"the sleeping VM's cgroup could not be released: {error.message}")
  return outcome

/-- What follows a snapshot, taken or not: the end of the VMM or of the attempt, its memory
ceiling restored, and its cgroup released. -/
def settleSnapshot (outcome : Except VmError Unit) (reserved : Bool) :
    Vmm (Except VmError Unit) := do
  endSnapshot outcome
  if reserved then
    if let .error error ← attempt .restoreMemory then
      VmProcesses.stop
      return .error (.host
        s!"the VM's memory ceiling could not be restored: {error.message}")
  releaseStopped outcome

def snapshotPausedVm (stamp : SnapshotStamp) : Vmm (Except VmError Unit) := do
  match ← reserveSnapshotMemory with
  | .error error => return .error error
  | .ok reserved =>
    let outcome ← stagedSnapshot m stamp
    settleSnapshot outcome reserved

/-- The VMM runs on and the guest's clock is set, or it is stopped. -/
def resumeAndSync : Vmm (Except VmError Unit) := do
  let peer ← api
  if let .error error ← ask (.resume peer) then return .error error
  attempt .wakeTenant

def resumeFrozenTenant : Vmm Unit := do
  if let .error _ ← resumeAndSync then
    VmProcesses.stop

def sleep (request : SuspendRequest) : Vmm (Except VmError Unit) := do
  if let .error error ← attempt .admitSnapshot then
    return .error (.sleepRefused error.message)
  let stamp ← sleepStamp m request
  let peer ← api
  discardSnapshot
  let _ ← attempt .flushVolumes
  if let .error error ← attempt .freezeTenant then
    let _ ← attempt .wakeTenant
    return .error error
  if let .error error ← ask (.pause peer) then
    resumeFrozenTenant
    return .error error
  if let .error error ← snapshotPausedVm m stamp then
    resumeFrozenTenant
    return .error error
  return .ok ()

def resumeRestoredTenant : Vmm (Except VmError Unit) := do
  let peer ← api
  if let .error error ← ask (.resume peer) then return .error error
  if let .error error ← attempt .wakeTenant then
    return .error (.snapshotUnusable error.message)
  attempt .refreshNeighbour

/-- A published file is made readable to the jail and linked into the exchange. -/
def linkFile (file : SnapshotFile) : Vmm (Except VmError Unit) := do
  ask (.removeExchanged file)
  if let .error error ← attempt .ownSnapshot then return .error error
  if let .error error ← attempt .ownSnapshot then return .error error
  ask (.linkFile file)

/-- The checks of a wake, each of which discards the snapshot where it fails. -/
def checkSnapshot (request : SuspendRequest) : Vmm (Except VmError SnapshotStamp) := do
  match ← ensureLoadable (m.currentStamp request) with
  | .error error =>
    discardSnapshot
    return .error error
  | .ok stamp =>
  if !(← jailed) then
    discardSnapshot
    return .error (.snapshotUnusable "the snapshot was created by a legacy VMM without a jail")
  let asleep ← sleepStamp m request
  if let some reason := driftFrom asleep (m.currentStamp request) then
    discardSnapshot
    return .error (.snapshotUnusable reason)
  return .ok stamp

/-- The jail is rebuilt and the snapshot's files are linked into it. -/
def prepareRestore : Vmm (Except VmError Unit) := do
  if let .error error ← prepareJail m then return .error error
  if let .error error ← attempt .readopt then return .error error
  if let .error error ← attempt .grantSocket then return .error error
  if let .error error ← attempt .grantSocket then return .error error
  if let .error error ← attempt .setTapOwner then return .error error
  if let .error error ← linkFile .state then return .error error
  linkFile .memory

/-- A VMM is started empty, the snapshot loaded into it, and its guest resumed. -/
def restore (request : SuspendRequest) (stamp : SnapshotStamp) :
    Vmm (Except VmError Unit) := do
  if let .error error ← VmProcesses.spawn m false then return .error (.host error.message)
  let peer ← api
  if let .error error ← ask (.loadSnapshot peer request stamp) then return .error error
  resumeRestoredTenant

/-- The snapshot is gone from the published directory and from the exchange. -/
def cleanRestore : Vmm Unit := do
  discardSnapshot
  ask (.removeExchanged .state)
  ask (.removeExchanged .memory)

/-- What follows a restore, whichever way it went. -/
def afterRestore (outcome : Except VmError Unit) : Vmm (Except VmError Unit) := do
  if let .error _ := outcome then
    VmProcesses.stop
  cleanRestore
  return outcome

def wake (request : SuspendRequest) : Vmm (Except VmError Unit) := do
  if let .error _ ← attempt .startPermit then return .error .startBusy
  match ← checkSnapshot m request with
  | .error error => return .error error
  | .ok stamp =>
  ask .removeStamp
  if let .error error ← prepareRestore m then return .error error
  let outcome ← restore m request stamp
  afterRestore outcome

def stop : Vmm (Except VmError Unit) := do
  discardSnapshot
  VmProcesses.stop
  return .ok ()

def discard : Vmm (Except VmError Unit) := do
  discardSnapshot
  ask .forget
  ask .removeExchange
  return .ok ()

end VmManager

/-! ### The host -/

/-- The operations of the manager on the app. -/
inductive VmOperation where
  | boot
  | sleep (request : SuspendRequest)
  | wake (request : SuspendRequest)
  | stop
  | discard

/-- What the host does by itself: a guest executes, or a process ends, which the daemon that
waited for it may note on the record. -/
inductive HostMove where
  | execute
  | exit (pid : ℕ) (exit : VmExit) (noted : Bool)

/-- The daemon goes: it crashes and starts again with the image installed by then, or the host
reboots under it, which takes every process and, where it is kept in memory, the record. -/
inductive Outage where
  | crash (next : VmManager)
  | reboot (next : VmManager) (recordKept : Bool)

namespace VmWorld

variable (w : VmWorld)

/-- How a process ended is written onto the record that names it. -/
def note (pid : ℕ) (exit : VmExit) : VmWorld :=
  { w with record := w.record.map fun record =>
      if record.pid = pid then { record with exit := some exit } else record }

def drift : HostMove → VmWorld → VmWorld
  | .execute, w =>
    if w.processes.any (·.mode = .running) then { w with clock := w.clock + 1 } else w
  | .exit pid exit noted, w =>
    if noted then (w.kill pid).note pid exit else w.kill pid

def cut : Outage → VmWorld → VmWorld
  | .crash next, w => { w with manager := next }
  | .reboot next recordKept, w =>
    { w with
      manager := next
      processes := []
      socket := none
      record := if recordKept then w.record else none }

/-- The condition on the steps of a run. A paused guest runs on only where no snapshot of it is
published, and a snapshot is captured only where no other process of the app runs a guest. -/
def Sound : VmAction → Answer → Prop
  | .resume peer, c =>
    c.carriedOut → ∀ p ∈ w.callee peer, w.storage.manifest = none
  | .createSnapshot peer, c =>
    c.carriedOut → ∀ p ∈ w.callee peer, ∀ q ∈ w.processes, q ≠ p → q.mode ≠ .running
  | _, _ => True

instance (e : VmAction) (c : Answer) : Decidable (w.Sound e c) := by
  unfold Sound
  split <;> infer_instance

end VmWorld

/-- A host that knows nothing of the app. -/
def VmWorld.initial (m : VmManager) : VmWorld where
  manager := m
  clock := 0
  processes := []
  nextPid := 1
  socket := none
  record := none
  storage := ⟨none, none, fun _ => none, none⟩
  loads := []

/-- The program of an operation. -/
def VmManager.program (m : VmManager) : VmOperation → Vmm (Except VmError Unit)
  | .boot => m.boot
  | .sleep request => m.sleep request
  | .wake request => m.wake request
  | .stop => stop
  | .discard => discard

/-- One app's microVM on a host, under every order of operations, failures and crashes. -/
def vmHost : InterruptibleSystem VmAction VmAction.Reply VmWorld Answer HostMove VmOperation
    Outage where
  perform := VmWorld.perform
  drift := VmWorld.drift
  allowed := VmWorld.Sound
  Result := Except VmError Unit
  program := fun w => w.manager.program
  cut := VmWorld.cut
  recovery := fun w => reapStaleSnapshots w.manager

instance (w : VmWorld) (e : VmAction) (c : Answer) : Decidable (vmHost.allowed w e c) :=
  inferInstanceAs (Decidable (w.Sound e c))

/-- One move of the host. -/
abbrev VmMove := InterruptibleSystem.Move Answer HostMove VmOperation Outage

end Nibrunner

import Nibrunner.ForStd.ProgramHistory
import Nibrunner.Protocol.Cron
import Nibrunner.Reconcile.Exports

/-!
# Writing one export

`write` of one export, step by step: the app's crontab is read, its guest frozen, the store flushed,
the checkpoint cut and the lease checked, the checkpoint read through a server and a device of its
own, and what was read bundled and uploaded. Every step is an action the environment answers as it
likes, and five things are held on the way: the connection whose end thaws the guest, the
checkpoint, its server, the reader device and the staging directory.
-/

namespace Nibrunner

/-- What comes of connecting to the guest's socket. -/
inductive GuestConnection where
  | connected
  | denied (error : String)
  | unreachable
deriving DecidableEq

inductive ExportAction where
  | cronTables
  | connectGuest (path : String)
  | writeGuest (bytes : String)
  | readGuest
  /-- A read of the connection that does not wait. -/
  | tryReadGuest
  | hangUp
  | flush
  | createCheckpoint (c : CheckpointId)
  | deleteCheckpoint (c : CheckpointId)
  | startServer (c : CheckpointId)
  | attachReader (v : VolumeId)
  | complained
  | dumpVolume (stagingDir : String)
  | detachReader
  | stopServer (c : CheckpointId)
  | writeBundle (crontab : Option Cron.Crontab) (stagingDir : String)
  | upload (objectKey : String)
  | removeStaging (stagingDir : String)
  | now
deriving DecidableEq

/-- What an action is answered with; a text in an error is its message. -/
@[reducible] def ExportAction.Reply : ExportAction → Type
  | cronTables => Except String (List Cron.CronTable)
  | connectGuest _ => GuestConnection
  | writeGuest _ => Bool
  | readGuest => Option String
  | tryReadGuest => Bool -- the read would have waited
  | hangUp => Unit
  | flush => Except String Unit
  | createCheckpoint _ => Except String Unit
  | deleteCheckpoint _ => Except String Unit
  | startServer _ => Except String Unit
  | attachReader _ => Except String Unit
  | complained => Option String
  | dumpVolume _ => Except String Unit
  | detachReader => Unit
  | stopServer _ => Unit
  | writeBundle _ _ => Except String ℕ -- the size of the bundle
  | upload _ => Except String Unit
  | removeStaging _ => Unit
  | now => ℤ

/-- What the writing of an export reads of the host. -/
structure ExportHost where
  vsockPath : AppId → String
  /-- The host runs a backend whose checkpoints can be served. -/
  servesCheckpoints : Bool
  stagingDir : ExportId → String

inductive FreezeError where
  | silent (socketPath : String)
  | refused (appId : AppId) (reply : String)
  | lost (appId : AppId)
deriving DecidableEq

def FreezeError.message : FreezeError → String
  | silent socketPath => s!"{socketPath} took the request and never answered"
  | refused appId reply =>
    s!"the guest running {appId.text} would not freeze its filesystem: {reply}"
  | lost appId => s!"the guest running {appId.text} thawed before the checkpoint was recorded"

/-- A freeze of the app's guest, held while the connection is; over nothing where no guest runs. -/
structure FreezeLease where
  appId : AppId
  held : Bool
deriving DecidableEq

def guestControlVsockPort : ℕ := 51001

def connectRequest (port : ℕ) : String := s!"CONNECT {port}\n"

def connectAccepted : String := "OK "

def readConnectReply (reply : String) (port : ℕ) : Except String Unit :=
  if connectAccepted.toList.isPrefixOf reply.toList then .ok ()
  else .error s!"nothing in the guest answered vsock port {port}: {reply}"

def freezeRequest : String := "FREEZE\n"

def freezeHeld : String := "OK"

namespace ExportSteps

/-- A program over the steps of an export. -/
abbrev Steps := Program ExportAction ExportAction.Reply

def ask (e : ExportAction) : Steps e.Reply := Program.perform e

/-- The connection ends with the call that opened it. -/
def hungUp {α : Type} (error : FreezeError) : Steps (Except FreezeError α) := do
  ask .hangUp
  return .error error

def frozen (appId : AppId) (vsockPath : String) : Steps (Except FreezeError FreezeLease) := do
  match ← ask (.connectGuest vsockPath) with
  | .denied error => return .error (.refused appId error)
  | .unreachable => return .ok ⟨appId, false⟩
  | .connected =>
  match ← ask (.writeGuest (connectRequest guestControlVsockPort)) with
  | false => hungUp (.silent vsockPath)
  | true =>
  match ← ask .readGuest with
  | none => hungUp (.silent vsockPath)
  | some reply =>
  match readConnectReply reply guestControlVsockPort with
  | .error error => hungUp (.refused appId error)
  | .ok () =>
  match ← ask (.writeGuest freezeRequest) with
  | false => hungUp (.silent vsockPath)
  | true =>
  match ← ask .readGuest with
  | none => hungUp (.silent vsockPath)
  | some reply =>
  if reply ≠ freezeHeld then hungUp (.refused appId reply) else return .ok ⟨appId, true⟩

def assertHeld (lease : FreezeLease) : Steps (Except FreezeError Unit) := do
  if !lease.held then return .ok ()
  match ← ask .tryReadGuest with
  | true => return .ok ()
  | false => return .error (.lost lease.appId)

def dropLease (lease : FreezeLease) : Steps Unit :=
  if lease.held then ask .hangUp else return ()

def registeredCrontab (appId : AppId) : Steps (Except String (Option Cron.Crontab)) := do
  match ← ask .cronTables with
  | .error error => return .error error
  | .ok tables =>
    return .ok
      ((tables.find? fun table => table.appId = appId && !table.jobs.isEmpty).bind (·.crontab))

def readIntoStaging (host : ExportHost) (desired : DesiredExport) (checkpointId : CheckpointId)
    (stagingDir : String) : Steps (Except String Unit) := do
  if !host.servesCheckpoints then return .error "this host serves no checkpoints"
  match ← ask (.startServer checkpointId) with
  | .error error => return .error error
  | .ok () =>
  match ← ask (.attachReader desired.volumeId) with
  | .error error =>
    -- why a server that listens refuses is known to that server alone
    let refused := match ← ask .complained with
      | some said => s!"{error}: the checkpoint server last said: {said}"
      | none => error
    ask (.stopServer checkpointId)
    return .error refused
  | .ok () =>
    let dumped ← ask (.dumpVolume stagingDir)
    ask .detachReader
    ask (.stopServer checkpointId)
    return dumped

/-- What is left once the checkpoint is cut and the guest let go. -/
def bundleCheckpoint (host : ExportHost) (desired : DesiredExport) (checkpointId : CheckpointId)
    (stagingDir : String) (crontab : Option Cron.Crontab) : Steps (Except String ℕ) := do
  let read ← readIntoStaging host desired checkpointId stagingDir
  -- a deletion that fails is logged, and the bundle is made all the same
  let _ ← ask (.deleteCheckpoint checkpointId)
  match read with
  | .error error => return .error error
  | .ok () =>
  match ← ask (.writeBundle crontab stagingDir) with
  | .error error => return .error error
  | .ok sizeBytes =>
  match ← ask (.upload desired.objectKey) with
  | .error error => return .error error
  | .ok () => return .ok sizeBytes

def writeInner (host : ExportHost) (desired : DesiredExport) (checkpointId : CheckpointId)
    (stagingDir : String) : Steps (Except String ℕ) := do
  match ← registeredCrontab desired.appId with
  | .error error => return .error error
  | .ok crontab =>
  match ← frozen desired.appId (host.vsockPath desired.appId) with
  | .error error => return .error error.message
  | .ok lease =>
  match ← ask .flush with
  | .error error =>
    dropLease lease
    return .error error
  | .ok () =>
  match ← ask (.createCheckpoint checkpointId) with
  | .error error =>
    dropLease lease
    return .error error
  | .ok () =>
  match ← assertHeld lease with
  | .error error =>
    let _ ← ask (.deleteCheckpoint checkpointId)
    dropLease lease
    return .error error.message
  | .ok () =>
    dropLease lease
    bundleCheckpoint host desired checkpointId stagingDir crontab

def write (host : ExportHost) (desired : DesiredExport) : Steps ReportedExport := do
  let some checkpointId := exportCheckpointId desired.exportId
    | return .failed desired none "its id does not make a checkpoint name"
  let stagingDir := host.stagingDir desired.exportId
  let written ← writeInner host desired checkpointId stagingDir
  ask (.removeStaging stagingDir)
  match written with
  | .error reason => return .failed desired (some checkpointId) reason
  | .ok sizeBytes =>
    let readyAt ← ask .now
    return {
      exportId := desired.exportId
      checkpointId := some checkpointId
      state := .ready
      sizeBytes := some sizeBytes
      readyAt := some readyAt
      message := none }

end ExportSteps

end Nibrunner

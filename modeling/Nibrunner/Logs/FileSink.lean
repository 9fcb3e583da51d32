import Nibrunner.ForStd.IdMap
import Nibrunner.ForStd.RotatedFile
import Nibrunner.ForStd.Run
import Nibrunner.Protocol.LogEvents

/-!
# The log files of tenants

What tenants print is appended, a line an event, to a file for each app, which is cut when it is
long enough. The files are held open behind buffers, and the buffers of the apps that a batch of
events wrote for are flushed at its end. The batches and the discards of apps are taken one at a
time, under one lock.

What the filesystem answers is given with each event. `disk` has what was written to a file, with
what is still in the buffer of its handle at the end of it; `taken` has all that was written for an
app since it was last discarded, but for what was lost with a daemon.
-/

namespace Nibrunner.TenantLogs

open Std GuestLogs

/-- A file held open: how long it is taken to be, and how much of it is still in the buffer. -/
structure AppLog where
  size : ℕ
  unflushed : ℕ
deriving DecidableEq

structure FileLogSink where
  keepBytesPerApp : ℕ
  writers : ExtTreeMap AppId AppLog
  disk : AppId → RotatedFile UInt8
  taken : AppId → List UInt8

/-- How the filesystem answers the calls for an event. -/
structure EventIo where
  directory : Bool
  opens : Bool
  /-- How many bytes of the line are written, and how many the buffer holds then. -/
  written : ℕ
  buffered : ℕ
  /-- Whether a cut flushes the buffer, and how much is lost with its handle if it does not. -/
  flushes : Bool
  lost : ℕ
  renames : Bool
deriving DecidableEq

/-- How it answers a flush: by how much the buffer still holds. -/
abbrev FlushIo := AppId → ℕ

inductive Label where
  | publish (events : List (TenantLogEvent × EventIo)) (flush : FlushIo)
  /-- The daemon ends, perhaps amid a batch, and another follows it. What the buffers hold is lost
  where it is not flushed as they are let go. -/
  | restart (events : List (TenantLogEvent × EventIo)) (flush : FlushIo)
  | discard (appId : AppId) (lost : ℕ) (current previous : Bool)

namespace FileLogSink

variable (s : FileLogSink)

def setDisk (appId : AppId) (file : RotatedFile UInt8) : FileLogSink :=
  { s with disk := fun other => if other = appId then file else s.disk other }

/-- The file of an app is opened, unless it is held open. -/
def openLog (appId : AppId) (io : EventIo) : Option FileLogSink :=
  if s.writers.contains appId then some s
  else if !io.directory || !io.opens then none
  else
    some { s.setDisk appId (s.disk appId).create with
      writers := s.writers.insert appId ⟨((s.disk appId).current.getD []).length, 0⟩ }

/-- The cut. A handle that is let go with something in its buffer takes it along. -/
def rotate (appId : AppId) (full : AppLog) (io : EventIo) : FileLogSink :=
  let lost := if io.flushes then 0 else min io.lost full.unflushed
  let file := (s.disk appId).truncate lost
  { s.setDisk appId (if io.renames then file.rotate else file) with
    writers := s.writers.erase appId }

/-- Bytes go to the end of an app's file, or to its buffer. -/
def put (appId : AppId) (bytes : List UInt8) (buffered : ℕ) : FileLogSink :=
  { s.setDisk appId ((s.disk appId).append bytes) with
    writers := s.writers.modify appId fun log =>
      ⟨log.size + bytes.length, min buffered (log.unflushed + bytes.length)⟩
    taken := fun other => if other = appId then s.taken appId ++ bytes else s.taken other }

section Publish

-- an event as a line, without its line feed
variable (render : TenantLogEvent → List UInt8)

def line (event : TenantLogEvent) : List UInt8 := render event ++ [newline]

/-- An event is written, and whether all of it was. -/
def writeEvent (event : TenantLogEvent) (io : EventIo) : FileLogSink × Bool :=
  match s.openLog event.appId io with
  | none => (s, false)
  | some s =>
    let line := line render event
    let s := s.put event.appId (line.take io.written) io.buffered
    if io.written < line.length then (s, false)
    else
      match s.writers[event.appId]? with
      | some log =>
        if s.keepBytesPerApp ≤ log.size then (s.rotate event.appId log io, true) else (s, true)
      | none => (s, true)

/-- The events of a batch, and the apps that were written for. -/
def writeEvents : List (TenantLogEvent × EventIo) → FileLogSink → FileLogSink × List AppId
  | [], s => (s, [])
  | (event, io) :: events, s =>
    let (s, written) := s.writeEvent render event io
    let (s, touched) := writeEvents events s
    (s, if written then event.appId :: touched else touched)

/-- The buffers of some apps are flushed. -/
def flushLogs (touched : List AppId) (flush : FlushIo) : FileLogSink :=
  touched.foldl (fun s appId => { s with
    writers := s.writers.modify appId fun log =>
      { log with unflushed := min (flush appId) log.unflushed } }) s

def publish (events : List (TenantLogEvent × EventIo)) (flush : FlushIo) : FileLogSink :=
  let (s, touched) := writeEvents render events s
  s.flushLogs touched flush

end Publish

def unflushed (appId : AppId) : ℕ := s.writers[appId]?.elim 0 AppLog.unflushed

/-- The handles are let go with the daemon. -/
def letGo (flush : FlushIo) : FileLogSink :=
  let lost (appId : AppId) := min (flush appId) (s.unflushed appId)
  { s with
    writers := ∅
    disk := fun appId => (s.disk appId).truncate (lost appId)
    taken := fun appId => (s.taken appId).take ((s.taken appId).length - lost appId) }

/-- The handle goes first, and then the files, where they can be removed. -/
def discard (appId : AppId) (lost : ℕ) (current previous : Bool) : FileLogSink :=
  let file := ((s.disk appId).truncate (min lost (s.unflushed appId))).remove current previous
  { s.setDisk appId file with
    writers := s.writers.erase appId
    taken := fun other => if other = appId then file.kept else s.taken other }

def step (render : TenantLogEvent → List UInt8) (s : FileLogSink) : Label → FileLogSink
  | .publish events flush => s.publish render events flush
  | .restart events flush => (writeEvents render events s).1.letGo flush
  | .discard appId lost current previous => s.discard appId lost current previous

/-- What is on disk of an app, the older file first: all but what the buffer still holds. -/
def flushed (appId : AppId) : List UInt8 :=
  (s.disk appId).kept.take ((s.disk appId).kept.length - s.unflushed appId)

/-- The sink of the first daemon. -/
def new (keepBytesPerApp : ℕ) : FileLogSink where
  keepBytesPerApp := keepBytesPerApp
  writers := ∅
  disk := fun _ => .absent
  taken := fun _ => []

end FileLogSink

end Nibrunner.TenantLogs

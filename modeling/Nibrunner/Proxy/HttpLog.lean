import Nibrunner.ForStd.IdMap
import Nibrunner.ForStd.RotatedFile
import Nibrunner.ForStd.Run
import Nibrunner.Protocol.Identifier
import Nibrunner.Protocol.Wire

/-!
# The log of HTTP requests

A request begins in the scope of its app, which is a flag shared by all requests of the app until
the app is discarded, and hands its record over when it is answered: into a queue of bounded length,
or nowhere. One thread takes the records off the queue in batches and writes those whose flag is
still set. A discard takes the app's flag away, clears it, and sends a command of its own behind the
records; the writer then removes the app's files.

Requests, discards and the writer are interleaved as the labels of a run say, and so are the
answers of the filesystem. A flag is its number in the order they were made in; `tickets` are the
calls of `discard`, each with the number of flags there were when it took its app's. A record has
the number it was queued under. What a file holds is the writes that made it, each as much of its
line as was taken; those of an earlier daemon have no record. The writer's buffer is not modelled:
what of a line ever reaches its file is there at once.
-/

namespace Nibrunner.HttpLog

open Std

def queuedRecords : ℕ := 1024

def batchRecords : ℕ := 128

def keptBytesPerApp : ℕ := 1024 * 1024

structure HttpRequestRecord where
  time : Timestamp
  method : String
  path : String
  status : ℕ
  durationMicros : UInt64
  deploymentId : DeploymentId
deriving DecidableEq

/-- The method and the path of a request, each up to a length. -/
def HttpRequestRecord.new (time : Timestamp) (method path : String) (status : ℕ)
    (durationMicros : UInt64) (deploymentId : DeploymentId) : HttpRequestRecord where
  time := time
  method := String.ofList (method.toList.take 16)
  path := String.ofList (path.toList.take 256)
  status := status
  durationMicros := durationMicros
  deploymentId := deploymentId

structure HttpRequestScope where
  appId : AppId
  active : ℕ
deriving DecidableEq

/-- A record that was handed over, with its number. -/
structure Entry where
  number : ℕ
  scope : HttpRequestScope
  record : HttpRequestRecord
deriving DecidableEq

inductive HttpLogCommand where
  | record (entry : Entry)
  | discard (appId : AppId) (ticket : ℕ)
deriving DecidableEq

/-- A write to a file: of which record, and what of its line. -/
structure Written where
  entry : Option Entry
  bytes : List UInt8
deriving DecidableEq

/-- A discard has taken its app's flag; its command is queued; it is carried out, and both files
were removed or were not. -/
inductive TicketStage where
  | sending
  | queued
  | done (removed : Bool)
deriving DecidableEq

structure Ticket where
  appId : AppId
  /-- How many flags there were. -/
  bound : ℕ
  stage : TicketStage
deriving DecidableEq

/-- How the filesystem answers a write. -/
structure WriteIo where
  opens : Bool
  flushes : Bool
  renames : Bool
  reopens : Bool
  /-- How many bytes of the line are taken. -/
  taken : ℕ
deriving DecidableEq

structure HttpLogState where
  /-- The flag of an app. -/
  apps : ExtTreeMap AppId ℕ
  /-- Every flag, whose it is and whether it is set. -/
  flags : List (AppId × Bool)
  /-- The scopes of requests that are not answered yet. -/
  scopes : List HttpRequestScope
  queue : List HttpLogCommand
  batch : List HttpLogCommand
  /-- Whether the writer works off its batch, and the record whose flag it found set. -/
  working : Bool
  writing : Option Entry
  /-- The files held open, and how long each is taken to be. -/
  files : ExtTreeMap AppId ℕ
  disk : AppId → RotatedFile Written
  tickets : List Ticket
  /-- How many records were queued, and how many were not. -/
  sent : ℕ
  dropped : ℕ

inductive Label where
  | begin_ (appId : AppId)
  /-- A request is answered, and its record handed over, or the request is given up. -/
  | record (scope : HttpRequestScope) (record : HttpRequestRecord)
  | abandon (scope : HttpRequestScope)
  /-- A discard takes its app's flag and clears it. -/
  | discard (appId : AppId)
  /-- The command of a discard finds room in the queue. -/
  | send (ticket : ℕ)
  | take
  | work
  /-- The writer looks at the next command: at the flag of a record, or to remove files. -/
  | next (current previous : Bool)
  | write (io : WriteIo)

namespace HttpLogState

/-- A log over the files an earlier daemon left. -/
def initial (disk : AppId → RotatedFile (List UInt8)) : HttpLogState where
  apps := ∅
  flags := []
  scopes := []
  queue := []
  batch := []
  working := false
  writing := none
  files := ∅
  disk := fun appId => {
    previous := (disk appId).previous.map (·.map (Written.mk none))
    current := (disk appId).current.map (·.map (Written.mk none)) }
  tickets := []
  sent := 0
  dropped := 0

variable (s : HttpLogState)

/-! ### Requests -/

def begin_ (appId : AppId) : HttpLogState :=
  match s.apps[appId]? with
  | some active => { s with scopes := ⟨appId, active⟩ :: s.scopes }
  | none =>
    { s with
      apps := s.apps.insert appId s.flags.length
      flags := s.flags ++ [(appId, true)]
      scopes := ⟨appId, s.flags.length⟩ :: s.scopes }

/-- Hands a record over, if there is room. -/
def record (scope : HttpRequestScope) (record : HttpRequestRecord) : HttpLogState :=
  if scope ∈ s.scopes then
    let s := { s with scopes := s.scopes.erase scope }
    if s.queue.length < queuedRecords then
      { s with queue := s.queue ++ [.record ⟨s.sent, scope, record⟩], sent := s.sent + 1 }
    else { s with dropped := s.dropped + 1 }
  else s

def abandon (scope : HttpRequestScope) : HttpLogState :=
  { s with scopes := s.scopes.erase scope }

/-! ### Discards -/

def discard (appId : AppId) : HttpLogState :=
  let s := { s with tickets := s.tickets ++ [⟨appId, s.flags.length, .sending⟩] }
  match s.apps[appId]? with
  | some active =>
    { s with apps := s.apps.erase appId, flags := s.flags.set active (appId, false) }
  | none => s

def setStage (ticket : ℕ) (stage : TicketStage) : HttpLogState :=
  { s with tickets := s.tickets.modify ticket fun t => { t with stage := stage } }

def send (ticket : ℕ) : HttpLogState :=
  match s.tickets[ticket]? with
  | some ⟨appId, _, .sending⟩ =>
    if s.queue.length < queuedRecords then
      { s.setStage ticket .queued with queue := s.queue ++ [.discard appId ticket] }
    else s
  | _ => s

/-! ### The writer -/

/-- The next command is taken into the batch. -/
def take : HttpLogState :=
  match s.queue with
  | command :: queue =>
    if !s.working && s.batch.length < batchRecords then
      { s with queue := queue, batch := s.batch ++ [command] }
    else s
  | [] => s

/-- The batch is closed. -/
def work : HttpLogState :=
  if s.batch = [] then s else { s with working := true }

/-- The bytes in a file. -/
def length (file : Option (List Written)) : ℕ := ((file.getD []).map fun w => w.bytes.length).sum

def setDisk (appId : AppId) (file : RotatedFile Written) : HttpLogState :=
  { s with disk := fun other => if other = appId then file else s.disk other }

def removeFiles (appId : AppId) (current previous : Bool) : HttpLogState :=
  { s.setDisk appId ((s.disk appId).remove current previous) with files := s.files.erase appId }

def next (current previous : Bool) : HttpLogState :=
  if s.writing.isSome then s
  else
    match s.working, s.batch with
    | true, .record entry :: batch =>
      let s := { s with batch := batch, working := batch ≠ [] }
      if (s.flags[entry.scope.active]?.map Prod.snd).getD false then
        { s with writing := some entry, working := true }
      else s
    | true, .discard appId ticket :: batch =>
      let s := { s with batch := batch, working := batch ≠ [] }
      (s.removeFiles appId current previous).setStage ticket (.done (current && previous))
    | _, _ => s

section Write

-- the line of a record, without its line feed
variable (render : HttpRequestRecord → List UInt8)

def line (record : HttpRequestRecord) : List UInt8 := render record ++ [0x0a]

/-- The file of an app is opened, unless it is held open. -/
def openFile (appId : AppId) (opens : Bool) : Option HttpLogState :=
  if s.files.contains appId then some s
  else if opens then
    some { s.setDisk appId (s.disk appId).create with
      files := s.files.insert appId (length (s.disk appId).current) }
  else none

/-- A file that has no room for a line is cut. Where that fails, the file is not held open. -/
def cut (appId : AppId) (size room : ℕ) (io : WriteIo) : HttpLogState × Bool :=
  if 0 < size ∧ keptBytesPerApp < size + room then
    let s := { s with files := s.files.erase appId }
    if !io.flushes then (s, false)
    else if !io.renames || (s.disk appId).current = none then (s, false)
    else
      let s := s.setDisk appId (s.disk appId).rotate
      match s.openFile appId io.reopens with
      | some s => (s, true)
      | none => (s, false)
  else (s, true)

/-- A line is written behind what is there, or the front of it. -/
def put (written : Written) (appId : AppId) (complete : Bool) : HttpLogState :=
  let s := s.setDisk appId ((s.disk appId).append [written])
  if complete then { s with files := s.files.modify appId (· + written.bytes.length) } else s

def writeRecord (entry : Entry) (io : WriteIo) : HttpLogState :=
  let line := line render entry.record
  let appId := entry.scope.appId
  match s.openFile appId io.opens with
  | none => s
  | some s =>
    let (s, ready) := s.cut appId (s.files.getD appId 0) line.length io
    if ready then s.put ⟨some entry, line.take io.taken⟩ appId (line.length ≤ io.taken)
    else s

def write (io : WriteIo) : HttpLogState :=
  match s.writing with
  | some entry =>
    let s := { s with writing := none, working := s.batch ≠ [] }
    s.writeRecord render entry io
  | none => s

end Write

def step (render : HttpRequestRecord → List UInt8) (s : HttpLogState) : Label → HttpLogState
  | .begin_ appId => s.begin_ appId
  | .record scope record => s.record scope record
  | .abandon scope => s.abandon scope
  | .discard appId => s.discard appId
  | .send ticket => s.send ticket
  | .take => s.take
  | .work => s.work
  | .next current previous => s.next current previous
  | .write io => s.write render io

end HttpLogState

end Nibrunner.HttpLog

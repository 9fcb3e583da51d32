import Nibrunner.Reconcile.Volumes

/-!
# Checkpoints and exports

The halves of a pass that cut and delete checkpoints: the checkpoints the document lists, and those
that exports cut of a volume, read and delete again. Both name their checkpoints in one store, and
an export's are told from the others by the prefix of their name alone.

`CheckpointStore` is what the storage server holds and what the host has on report. Three of its
fields are histories nothing reads: which exports cut a checkpoint here, and what a pass deleted and
created. What each admin command comes to is an argument; a command that fails may have been
carried out all the same.
-/

namespace Nibrunner

open Std

/-! ### Names -/

def exportPrefix : String := "export-"

/-- The checkpoint an export cuts, where its name is not too long for one. -/
def exportCheckpointId (e : ExportId) : Option CheckpointId := Id.parse (exportPrefix ++ e.text)

def isExportCheckpoint (c : CheckpointId) : Bool := exportPrefix.toList.isPrefixOf c.text.toList

/-! ### Reports -/

inductive CheckpointState where
  | pending
  | ready
  | deleted
  | failed
deriving DecidableEq

structure ReportedCheckpoint where
  checkpointId : CheckpointId
  volumeId : VolumeId
  state : CheckpointState
  reference : Option String
  readyAt : Option ℤ
  message : Option String
deriving DecidableEq

inductive ExportState where
  | pending
  | preparing
  | ready
  | failed
  | expired
deriving DecidableEq

structure ReportedExport where
  exportId : ExportId
  checkpointId : Option CheckpointId
  state : ExportState
  sizeBytes : Option ℕ
  readyAt : Option ℤ
  message : Option String
deriving DecidableEq

namespace ReportedCheckpoint

def ready (desired : DesiredCheckpoint) (readyAt : Option ℤ) : ReportedCheckpoint where
  checkpointId := desired.checkpointId
  volumeId := desired.volumeId
  state := .ready
  reference := some (stateMessage desired.checkpointId.text)
  readyAt := readyAt
  message := none

def deleted (desired : DesiredCheckpoint) : ReportedCheckpoint where
  checkpointId := desired.checkpointId
  volumeId := desired.volumeId
  state := .deleted
  reference := none
  readyAt := none
  message := none

def failed (desired : DesiredCheckpoint) (error : String) : ReportedCheckpoint where
  checkpointId := desired.checkpointId
  volumeId := desired.volumeId
  state := .failed
  reference := none
  readyAt := none
  message := some (stateMessage error)

end ReportedCheckpoint

def ReportedExport.failed (desired : DesiredExport) (checkpointId : Option CheckpointId)
    (reason : String) : ReportedExport where
  exportId := desired.exportId
  checkpointId := checkpointId
  state := .failed
  sizeBytes := none
  readyAt := none
  message := some (stateMessage reason)

/-! ### The store -/

/-- What an admin command of the storage server comes to. -/
inductive AdminAnswer where
  | ok
  /-- It failed, and was carried out all the same where `done`. -/
  | failed (reason : String) (done : Bool)
deriving DecidableEq

/-- A call of `deleteCheckpoint`. -/
structure Deletion where
  checkpointId : CheckpointId
  /-- An export of this host had cut a checkpoint of that name. -/
  exported : Bool
deriving DecidableEq

structure CheckpointStore where
  held : List CheckpointId
  checkpointReports : List ReportedCheckpoint
  exportReports : List ReportedExport
  /-- The exports a checkpoint was cut for. -/
  cutFor : List ExportId
  /-- The deletions asked for in this pass, refused ones as well. -/
  deletions : List Deletion
  /-- The checkpoints created in this pass. -/
  created : List CheckpointId
deriving DecidableEq

def unusable (reason : String) : String := "the volume could not be made ready: " ++ reason

/-- What the server answers when a checkpoint is created. -/
structure CreateAnswers where
  /-- Whether it lists what it holds. -/
  listed : Bool
  deleted : AdminAnswer
  /-- What it says of a name it holds already. -/
  overHeld : String
  created : AdminAnswer
deriving DecidableEq

namespace CheckpointStore

/-- Whether an export of this host cut a checkpoint of that name. -/
def isExported (s : CheckpointStore) (c : CheckpointId) : Bool :=
  s.cutFor.any fun e => exportCheckpointId e = some c

/-- What is listed: nothing where the server does not answer. -/
def observeCheckpoints (s : CheckpointStore) (listed : Bool) : List CheckpointId :=
  if listed then s.held else []

def remove (s : CheckpointStore) (c : CheckpointId) : CheckpointStore :=
  { s with held := s.held.filter (· ≠ c) }

def add (s : CheckpointStore) (c : CheckpointId) (cutFor : Option ExportId) : CheckpointStore :=
  { s with
    held := s.held ++ [c]
    cutFor := s.cutFor ++ cutFor.toList
    created := s.created ++ [c] }

def deleteCheckpoint (s : CheckpointStore) (c : CheckpointId) (answer : AdminAnswer) :
    CheckpointStore × Except String Unit :=
  let s := { s with deletions := s.deletions ++ [⟨c, s.isExported c⟩] }
  match answer with
  | .ok => (s.remove c, .ok ())
  | .failed reason done => (if done then s.remove c else s, .error (unusable reason))

/-- Create a checkpoint; one already listed under its name is deleted first, and the server creates
none over one it holds. -/
def createCheckpoint (s : CheckpointStore) (c : CheckpointId) (cutFor : Option ExportId)
    (answers : CreateAnswers) : CheckpointStore × Except String Unit :=
  let cleared :=
    if c ∈ s.observeCheckpoints answers.listed then s.deleteCheckpoint c answers.deleted
    else (s, .ok ())
  match cleared with
  | (s, .error reason) => (s, .error reason)
  | (s, .ok ()) =>
    if c ∈ s.held then (s, .error (unusable answers.overHeld))
    else
      match answers.created with
      | .ok => (s.add c cutFor, .ok ())
      | .failed reason done =>
        (if done then s.add c cutFor else s, .error (unusable reason))

end CheckpointStore

/-! ### The checkpoints of a pass -/

/-- What is answered to one action on a checkpoint. -/
structure CheckpointActionAnswers where
  create : CreateAnswers
  delete : AdminAnswer
  nowMs : ℤ
deriving DecidableEq

namespace CheckpointStore

def observe (s : CheckpointStore) (d : HostDesiredState) (listed : Bool) : ObservedState where
  -- the plans of these two halves read nothing of the instances and the volumes
  instances := []
  volumes := []
  checkpoints :=
    (d.checkpoints.filter fun wanted => wanted.checkpointId ∈ s.observeCheckpoints listed).map
      fun wanted => { checkpointId := wanted.checkpointId, volumeId := wanted.volumeId }
  exports := s.exportReports.map fun report =>
    { exportId := report.exportId, written := report.state = .ready }

def cut (s : CheckpointStore) (desired : DesiredCheckpoint) (answers : CheckpointActionAnswers) :
    CheckpointStore × ReportedCheckpoint :=
  match s.createCheckpoint desired.checkpointId none answers.create with
  | (s, .ok ()) => (s, .ready desired (some answers.nowMs))
  | (s, .error error) => (s, .failed desired error)

def release (s : CheckpointStore) (desired : DesiredCheckpoint) (answer : AdminAnswer) :
    CheckpointStore × ReportedCheckpoint :=
  match s.deleteCheckpoint desired.checkpointId answer with
  | (s, .ok ()) => (s, .deleted desired)
  | (s, .error error) => (s, .failed desired error)

end CheckpointStore

/-- What the document accepted last says of a checkpoint; the pass may be over an earlier one. -/
def planSubject (latest : Option HostDesiredState) (c : CheckpointId) : Option DesiredCheckpoint :=
  latest.bind fun d => d.checkpoints.find? fun wanted => wanted.checkpointId = c

namespace CheckpointStore

/-- One action on a checkpoint, with its report. -/
def applyCheckpoint (latest : Option HostDesiredState) (before : List ReportedCheckpoint)
    (answers : CheckpointActionAnswers) (s : CheckpointStore) :
    CheckpointPlan → CheckpointStore × Option ReportedCheckpoint
  | .create desired => (s.cut desired answers).map id some
  | .delete desired => (s.release desired answers.delete).map id some
  | .none c =>
    (s, (planSubject latest c).map fun wanted =>
      match wanted.desiredState with
      -- when it was cut is on the report of the daemon that cut it
      | .present =>
        .ready wanted ((before.find? (·.checkpointId = c)).bind (·.readyAt))
      | .absent => .deleted wanted)

/-- The actions one after the other, the answers to each in order. -/
def applyCheckpointPlans (latest : Option HostDesiredState) (before : List ReportedCheckpoint) :
    List CheckpointPlan → (ℕ → CheckpointActionAnswers) → CheckpointStore →
      CheckpointStore × List ReportedCheckpoint
  | [], _, s => (s, [])
  | action :: rest, answers, s =>
    let (s, report) := s.applyCheckpoint latest before (answers 0) action
    let (s, reports) := applyCheckpointPlans latest before rest (fun n => answers (n + 1)) s
    (s, report.toList ++ reports)

def applyCheckpoints (s : CheckpointStore) (plan : ReconcilePlan)
    (latest : Option HostDesiredState) (answers : ℕ → CheckpointActionAnswers) : CheckpointStore :=
  let (s, reports) :=
    applyCheckpointPlans latest s.checkpointReports plan.checkpoints answers s
  { s with checkpointReports := reports }

end CheckpointStore

/-! ### The exports of a pass -/

/-- What is answered while one export is written. -/
structure ExportAnswers where
  /-- The crontab is read, the tenant frozen and its volume flushed. -/
  frozen : Except String Unit
  create : CreateAnswers
  /-- The tenant was still frozen when the checkpoint was cut. -/
  assertHeld : Except String Unit
  abandoned : AdminAnswer
  read : Except String Unit
  delete : AdminAnswer
  /-- The bundle is written and uploaded, with its size. -/
  uploaded : Except String ℕ
  readyAt : ℤ

/-- The checkpoints of the exports a plan writes, whether or not this pass writes them. -/
def inFlight (plan : ReconcilePlan) : List CheckpointId :=
  plan.exports.filterMap fun
    | .write desired => exportCheckpointId desired.exportId
    | _ => none

namespace CheckpointStore

def writeInner (s : CheckpointStore) (desired : DesiredExport) (c : CheckpointId)
    (answers : ExportAnswers) : CheckpointStore × Except String ℕ :=
  match answers.frozen with
  | .error reason => (s, .error reason)
  | .ok () =>
    match s.createCheckpoint c (some desired.exportId) answers.create with
    | (s, .error reason) => (s, .error reason)
    | (s, .ok ()) =>
      match answers.assertHeld with
      | .error reason => ((s.deleteCheckpoint c answers.abandoned).1, .error reason)
      | .ok () =>
        -- a deletion that fails is logged, and the bundle is made all the same
        let s := (s.deleteCheckpoint c answers.delete).1
        match answers.read with
        | .error reason => (s, .error reason)
        | .ok () => (s, answers.uploaded)

def write (s : CheckpointStore) (desired : DesiredExport) (answers : ExportAnswers) :
    CheckpointStore × ReportedExport :=
  match exportCheckpointId desired.exportId with
  | none => (s, .failed desired none "its id does not make a checkpoint name")
  | some c =>
    match s.writeInner desired c answers with
    | (s, .ok sizeBytes) =>
      (s,
        { exportId := desired.exportId
          checkpointId := some c
          state := .ready
          sizeBytes := some sizeBytes
          readyAt := some answers.readyAt
          message := none })
    | (s, .error reason) => (s, .failed desired (some c) reason)

/-- The checkpoints of exports that nothing writes any more. -/
def orphans (s : CheckpointStore) (plan : ReconcilePlan) (listed : Bool) : List CheckpointId :=
  ((s.observeCheckpoints listed).filter (isExportCheckpoint ·)).filter (· ∉ inFlight plan)

def reap (s : CheckpointStore) (plan : ReconcilePlan) (listed : Bool)
    (answers : CheckpointId → AdminAnswer) : CheckpointStore :=
  (s.orphans plan listed).foldl (fun s c => (s.deleteCheckpoint c (answers c)).1) s

/-- One action on an export, with the reports as it leaves them. A tick writes none. -/
def applyExport (trigger : Trigger) (answers : ExportAnswers)
    (s : CheckpointStore) : ExportPlan → CheckpointStore
  | .write desired =>
    if trigger = .tick then s
    else
      let (s, report) := s.write desired answers
      { s with
        exportReports := s.exportReports.filter (·.exportId ≠ report.exportId) ++ [report] }
  | .forget e => { s with exportReports := s.exportReports.filter (·.exportId ≠ e) }
  | .none _ => s

/-- The actions one after the other, the answers to each in order. -/
def applyExportPlans (trigger : Trigger) :
    List ExportPlan → (ℕ → ExportAnswers) → CheckpointStore → CheckpointStore
  | [], _, s => s
  | action :: rest, answers, s =>
    applyExportPlans trigger rest (fun n => answers (n + 1))
      (s.applyExport trigger (answers 0) action)

end CheckpointStore

/-- What is answered to the checkpoints and exports of one pass. -/
structure CheckpointPassAnswers where
  /-- The listing the pass plans from is answered. -/
  listed : Bool
  checkpoint : ℕ → CheckpointActionAnswers
  reapListed : Bool
  reaped : CheckpointId → AdminAnswer
  write : ℕ → ExportAnswers

namespace CheckpointStore

def applyExports (s : CheckpointStore) (plan : ReconcilePlan) (trigger : Trigger)
    (answers : CheckpointPassAnswers) : CheckpointStore :=
  applyExportPlans trigger plan.exports answers.write
    (s.reap plan answers.reapListed answers.reaped)

/-- The checkpoints and exports of one pass over `d`, with `latest` the document accepted last. -/
def reconcile (s : CheckpointStore) (d : HostDesiredState) (latest : Option HostDesiredState)
    (trigger : Trigger) (answers : CheckpointPassAnswers) : CheckpointStore :=
  let s := { s with deletions := [], created := [] }
  let plan := planReconcile d (s.observe d answers.listed)
  (s.applyCheckpoints plan latest answers.checkpoint).applyExports plan trigger answers

end CheckpointStore

end Nibrunner

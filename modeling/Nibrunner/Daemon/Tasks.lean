import Nibrunner.Reconcile.System

/-!
# The daemon's tasks

The operations of `Reconcile.Instances` are whole: nothing else happens while one runs. In the
daemon they are tasks that yield to one another wherever they wait. Here each is cut where it
waits, and a daemon is what the tasks share with the tasks in flight.

A step of a task reads what is shared and leaves a list of `Effect`s on it, all of them on the
task's own app; `Daemon.act` says what an effect does. What the adapters answer a task is an
argument of it, as in the whole operations. What depends on the other tasks is not: whether a
start permit is free, whether the app's process is up when it is asked, whose lock the app's
transition is.

A process has a number. The daemon's record of an app's microVM names the process spawned last,
and a live process whose record was replaced or forgotten is a *stray*.
-/

namespace Nibrunner

open Std

/-! ### Where a task stands -/

/-- Where a stop stands. -/
inductive StopPc where
  | begin
  | ask
  | reap (process : Option ℕ)
  | finish

/-- Where a start stands: `existing` is the record it began from. From `enter` to `reap` it is in
the manager's `boot`. -/
inductive StartPc where
  | begin
  | allocate (existing : Option InstanceRecord)
  | decide (existing : Option InstanceRecord) (slot : AppSlot)
  | say (message : String)
  | attach (existing : Option InstanceRecord) (slot : AppSlot)
  | enter (existing : Option InstanceRecord) (slot : AppSlot)
  | check (slot : AppSlot)
  | spawn (slot : AppSlot)
  | initialise
  | reap (process : Option ℕ) (reason : String)
  | busy (existing : Option InstanceRecord)
  | failed (reason : String)
  | booted

/-- Where a start left waiting for room stands. -/
inductive WaitPc where
  | allocate
  | read (slot : AppSlot)
  | write (existing : Option InstanceRecord) (slot : AppSlot)

/-- Where a wake stands: the waker's own checks, then under the app's transition the resume. From
`enter` to `reap` it is in the manager's `wake`; `cold` is the boot an app with nothing to restore
from is given instead. -/
inductive WakePc where
  | room
  | noRoom (shortfallMib : ℕ)
  | lock
  | allocate
  | status (slot : AppSlot)
  | attach (slot : AppSlot)
  | enter (slot : AppSlot)
  | load (slot : AppSlot)
  | check (snapshot : Snapshot)
  | spawn (snapshot : Snapshot)
  | restore
  | reap (process : Option ℕ)
  | restored
  | cold (pc : StartPc)
  | say (reason : String)
  | unlock

/-- Where a sleep stands, from the transition's lock to its release. From `enter` to `recovered`
it is in the manager's `sleep`, and from `create` on it has paused the process `paused`. -/
inductive SuspendPc where
  | lock
  | begin
  | stop (pc : StopPc)
  | enter (deployment : DeploymentId) (slot : ℕ)
  | pause (deployment : DeploymentId) (slot : ℕ)
  | create (deployment : DeploymentId) (slot : ℕ) (paused : ℕ)
  | publish (snapshot : Snapshot) (paused : ℕ)
  | ask (paused : ℕ)
  | reap (process : Option ℕ) (paused : ℕ)
  | idle (paused : ℕ)
  | recover (paused : ℕ)
  | recovered (process : Option ℕ) (paused : ℕ)
  | unlock

/-- Where the discard that follows a stop stands. -/
inductive DiscardPc where
  | forget
  | drop

/-- Where one start of a pass's wave stands; `records` is the wave's own copy. -/
inductive WavePc where
  | measure
  | waiting (shortfallMib : ℕ) (pc : WaitPc)
  | starting (pc : StartPc)
  | reread

/-- What the status loop is answered of one instance. -/
structure SettleAnswers where
  due : Bool
  nowMs : ℤ
  probe : Except ProbeFailure Unit
  probedAtMs : ℤ
  guestVerdict : Option String

/-- Where the settling of one instance stands. -/
inductive SettlePc where
  | snapshot
  | status (record : InstanceRecord) (snapshotting : Bool)
  | write (reading : Reading)

/-- One start of a wave, with what it is answered. -/
abbrev WaveStart := DesiredInstance × StartAnswers

inductive Task where
  | stop (app : AppId) (pc : StopPc)
  | discard (app : AppId) (pc : DiscardPc)
  | suspend (app : AppId) (answer : Host.SleepAnswer) (pc : SuspendPc)
  | wake (wanted : DesiredInstance) (answers : Host.WakeAnswers) (pc : WakePc)
  /-- The starts of a pass, one after the other. -/
  | wave (current : WaveStart) (rest : List WaveStart) (records : List InstanceRecord) (pc : WavePc)
  | settle (app : AppId) (answers : SettleAnswers) (pc : SettlePc)

/-- The app a task works on. -/
def Task.app : Task → AppId
  | stop app _ | discard app _ | suspend app _ _ | settle app _ _ => app
  | wake wanted _ _ => wanted.appId
  | wave current _ _ _ => current.1.appId

/-! ### What the tasks share -/

/-- A live process that no record names any more. -/
structure Stray where
  app : AppId
  process : ℕ
  memoryMib : ℕ
deriving DecidableEq

structure Daemon where
  host : Host
  /-- The process the record of an app's microVM names. -/
  process : AppId → ℕ
  strays : List Stray
  /-- How many more microVMs may be starting at once. -/
  permits : ℕ
  /-- The task that holds the app's transition. -/
  transition : AppId → Option ℕ
  snapshotting : AppId → Bool
  tasks : ℕ → Option Task

namespace Daemon

/-- A daemon with no task in flight. -/
def quiet (h : Host) (permits : ℕ) : Daemon where
  host := h
  process _ := 0
  strays := []
  permits := permits
  transition _ := none
  snapshotting _ := false
  tasks _ := none

/-- The process a stop of the app would signal: the recorded one, where it is alive. -/
def signalled (d : Daemon) (app : AppId) : Option ℕ :=
  (d.host.vms[app]?.filter Vm.alive).map fun _ => d.process app

/-- The live processes of an app. -/
def guests (d : Daemon) (app : AppId) : List ℕ :=
  (if d.host.isUp app then [d.process app] else []) ++
    (d.strays.filter (·.app = app)).map (·.process)

/-- The strays, the app's recorded process among them where it is up and its record goes. -/
def straysWithout (d : Daemon) (app : AppId) : List Stray :=
  match d.host.vms[app]?.filter Vm.isUp with
  | some vm => { app := app, process := d.process app, memoryMib := vm.memoryMib } :: d.strays
  | none => d.strays

end Daemon

/-- What a step of a task does to what the tasks share. -/
inductive Effect where
  | put (r : InstanceRecord)
  | update (change : InstanceRecord → InstanceRecord)
  | drop
  /-- The app is handed a slot, where it holds none. -/
  | allocate
  | attach (volume : VolumeId)
  | discardSnapshot
  | logBoot (nowMs : ℤ)
  | spawn (vm : Vm)
  /-- The app's process is asked to stop. -/
  | ask
  /-- A process asked to stop is gone. -/
  | reap (process : Option ℕ)
  /-- The record of the app's process is deleted. -/
  | forget
  | publish (snapshot : Snapshot)
  | takePermit
  | givePermit
  | acquire (task : ℕ)
  | release
  | mark (snapshotting : Bool)

namespace Daemon

/-- A process is gone: the record that names it says so, and it is no stray. -/
def reaped (d : Daemon) (app : AppId) (process : ℕ) : Daemon :=
  { d with
    host :=
      if d.process app = process then
        { d.host with vms := d.host.vms.modify app fun vm => { vm with alive := false } }
      else d.host
    strays := d.strays.filter fun s => ¬ (s.app = app ∧ s.process = process) }

/-- What an effect on an app does. -/
def act (app : AppId) (d : Daemon) : Effect → Daemon
  | .put r => { d with host := d.host.putRecord r }
  | .update change => { d with host := d.host.updateRecord app change }
  | .drop => { d with host := d.host.dropRecord app }
  | .allocate => { d with host := (d.host.slotFor app).elim d.host (·.2) }
  | .attach volume =>
    { d with host := (d.host.attach volume app (.ok ())).toOption.getD d.host }
  | .discardSnapshot => { d with host := d.host.discardSnapshot app }
  | .logBoot nowMs => { d with host := d.host.logBoot app nowMs }
  | .spawn vm =>
    { d with
      host := d.host.putVm app vm
      process := Function.update d.process app (d.process app + 1)
      strays := d.straysWithout app }
  | .ask =>
    { d with
      host :=
        { d.host with vms := d.host.vms.modify app fun vm => { vm with stopRequested := true } } }
  | .reap process => process.elim d (d.reaped app)
  | .forget =>
    { d with
      host := { d.host with vms := d.host.vms.erase app }
      strays := d.straysWithout app }
  | .publish snapshot => { d with host := d.host.putSnapshot app snapshot }
  | .takePermit => { d with permits := d.permits - 1 }
  | .givePermit => { d with permits := d.permits + 1 }
  | .acquire task => { d with transition := Function.update d.transition app (some task) }
  | .release => { d with transition := Function.update d.transition app none }
  | .mark snapshotting =>
    { d with snapshotting := Function.update d.snapshotting app snapshotting }

def actAll (app : AppId) (d : Daemon) (effects : List Effect) : Daemon := effects.foldl (act app) d

end Daemon

/-! ### The steps -/

/-- What the manager answers for an app whose microVM is up. -/
def jailInUse : String := "a running microVM cannot have its jail rebuilt"

namespace StopPc

def next (d : Daemon) (app : AppId) : StopPc → List Effect × Option StopPc
  | begin =>
    ([.update fun r => { r with state := .stopping, stopRequested := true }], some ask)
  | ask => ([.discardSnapshot, .ask], some (reap (d.signalled app)))
  | reap process => ([.reap process], some finish)
  | finish =>
    ([.update fun r => { r with state := .stopped, startAttempts := noStartAttempts }], none)

end StopPc

namespace StartPc

def next [Platform] (d : Daemon) (desired : DesiredInstance) (answers : StartAnswers) :
    StartPc → List Effect × Option StartPc
  | begin =>
    let existing := d.host.records[desired.appId]?
    match startRefused existing answers.nowMs desired with
    | some (.outOfRestarts attempted allowed) =>
      ([], some (say (outOfRestartsMessage attempted allowed)))
    | some .untilTheBackoffIsDone => ([], none)
    | none => ([], some (allocate existing))
  | allocate existing =>
    match d.host.slotFor desired.appId with
    | none => ([.put (noSlotRecord d.host.records[desired.appId]? desired)], none)
    | some (slot, _) => ([.allocate], some (decide existing slot))
  | decide existing slot =>
    match ingressRefusal desired d.host.config with
    | some refusal =>
      ([.put (refusedRecord existing desired slot .failed)], some (say (stateMessage refusal)))
    | none =>
      match d.host.volumeRefusal desired.volumeId with
      | some refusal =>
        ([.put (refusedRecord existing desired slot .pending)], some (say refusal))
      | none =>
        ([.put (attemptedRecord existing desired slot answers.nowMs)], some (attach existing slot))
  | say message => ([.update fun r => { r with message := some message }], none)
  | attach existing slot =>
    match answers.prepare with
    | .error reason => ([], some (failed reason))
    | .ok () =>
      match d.host.attach desired.volumeId desired.appId answers.attach with
      | .error reason => ([], some (failed reason))
      | .ok _ => ([.attach desired.volumeId], some (enter existing slot))
  | enter existing slot =>
    if d.permits = 0 then ([], some (busy existing))
    else ([.takePermit, .discardSnapshot, .logBoot answers.nowMs], some (check slot))
  | check slot =>
    -- everything from here to the spawn waits on other things than the process
    if d.host.isUp desired.appId then ([.givePermit], some (failed jailInUse))
    else ([], some (spawn slot))
  | spawn slot =>
    match answers.boot with
    | .failed reason false => ([.givePermit], some (failed reason))
    | _ => ([.spawn (Vm.spawned desired.config.resources.memoryMib slot.slot)], some initialise)
  | initialise =>
    match answers.boot with
    | .failed reason _ => ([.ask], some (reap (d.signalled desired.appId) reason))
    | _ => ([.givePermit], some booted)
  | reap process reason => ([.reap process, .givePermit], some (failed reason))
  | busy existing =>
    ([.update fun r =>
      { r with
        state := .pending
        startedAt := none
        health := initialTracker
        startAttempts := spentAttempts existing
        message := some (stateMessage Host.busyMessage) }], none)
  | failed reason =>
    ([.update fun r => { r with state := .failed, message := some (stateMessage reason) }], none)
  | booted =>
    ([.update fun r =>
      { r with
        startedAt := some answers.startedAtMs
        state := .starting
        health := initialTracker
        restartCount := 0
        message := none }], none)

end StartPc

namespace WaitPc

def next (d : Daemon) (desired : DesiredInstance) (shortfallMib : ℕ) :
    WaitPc → List Effect × Option WaitPc
  | allocate =>
    match d.host.slotFor desired.appId with
    | none => ([.put (noSlotRecord d.host.records[desired.appId]? desired)], none)
    | some (slot, _) => ([.allocate], some (read slot))
  | read slot => ([], some (write d.host.records[desired.appId]? slot))
  | write existing slot => ([.put (waitingRecord existing desired shortfallMib slot)], none)

end WaitPc

namespace WakePc

/-- What a request that finds no room leaves on the record. -/
def noRoomMessage (app : AppId) (shortfallMib : ℕ) : String :=
  stateMessage (s!"{app.text} could not be woken: its host is " ++
    s!"{shortfallMib} MiB short of the memory it needs")

def next [Platform] (d : Daemon) (task : ℕ) (wanted : DesiredInstance)
    (answers : Host.WakeAnswers) : WakePc → List Effect × Option WakePc
  | room =>
    if wanted.desiredState ≠ .onRequest ∨ ¬ d.host.isolated then ([], none)
    else
      let others := d.host.recordList.filter fun r => r.appId ≠ wanted.appId
      let shortfall := memoryShortfallMib d.host.config.guestMemoryMib (committedResources others)
        wanted.config.resources
      if 0 < shortfall then ([], some (noRoom shortfall)) else ([], some lock)
  | noRoom shortfall =>
    ([.update fun r => { r with message := some (noRoomMessage wanted.appId shortfall) }], none)
  | lock =>
    -- held by another task, the transition is waited for
    if (d.transition wanted.appId).isSome then ([], some lock) else ([.acquire task], some allocate)
  | allocate =>
    match d.host.slotFor wanted.appId with
    | none => ([], some unlock)
    | some (slot, _) => ([.allocate], some (status slot))
  | status slot =>
    if d.host.isUp wanted.appId then ([], some unlock) else ([], some (attach slot))
  | attach slot =>
    match d.host.attach wanted.volumeId wanted.appId answers.attach with
    | .error reason => ([], some (say reason))
    | .ok _ => ([.attach wanted.volumeId], some (enter slot))
  | enter slot =>
    if d.permits = 0 then ([], some (say Host.busyMessage)) else ([.takePermit], some (load slot))
  | load slot =>
    match answers.wake, d.host.loadable wanted.appId wanted.deploymentId slot.slot with
    | .unusable _ false, _ | _, none => ([.discardSnapshot, .givePermit], some (cold .begin))
    | _, some snapshot => ([], some (check snapshot))
  | check snapshot =>
    -- the stamp goes first, so what is restored from is no snapshot any more
    if d.host.isUp wanted.appId then ([.discardSnapshot, .givePermit], some (say jailInUse))
    else ([.discardSnapshot], some (spawn snapshot))
  | spawn snapshot =>
    match answers.wake with
    | .failed reason false => ([.givePermit], some (say reason))
    | _ => ([.spawn (Vm.spawned snapshot.memoryMib snapshot.slot)], some restore)
  | restore =>
    match answers.wake with
    | .failed _ _ | .unusable _ _ => ([.ask], some (reap (d.signalled wanted.appId)))
    | _ => ([.discardSnapshot, .givePermit], some restored)
  | reap process =>
    match answers.wake with
    | .failed reason _ =>
      ([.reap process, .discardSnapshot, .givePermit], some (say reason))
    | _ => ([.reap process, .discardSnapshot, .givePermit], some (cold .begin))
  | restored =>
    ([.update fun r =>
      { r with
        state := .starting
        startedAt := some answers.startedAtMs
        stopRequested := false
        message := none }], some unlock)
  | cold pc =>
    let (effects, pc) := pc.next d wanted answers.start
    (effects, some (pc.elim unlock cold))
  | say reason =>
    ([.update fun r => { r with message := some (stateMessage reason) }], some unlock)
  | unlock => ([.release], none)

end WakePc

namespace SuspendPc

def next (d : Daemon) (task : ℕ) (app : AppId) (answer : Host.SleepAnswer) :
    SuspendPc → List Effect × Option SuspendPc
  | lock => if (d.transition app).isSome then ([], some lock) else ([.acquire task], some begin)
  | begin =>
    match d.host.records[app]?, d.host.slotOf app with
    | none, _ => ([], some unlock)
    | some _, none => ([], some (stop .begin))
    | some r, some slot => ([.mark true], some (enter r.deploymentId slot))
  | stop pc =>
    let (effects, pc) := pc.next d app
    (effects, some (pc.elim unlock stop))
  | enter deployment slot =>
    if (Host.refusalToSleep d.host.records[app]?).isSome ∨ answer = .refused then
      ([.mark false], some unlock)
    else ([.discardSnapshot], some (pause deployment slot))
  | pause deployment slot =>
    -- a process that is gone answers no freeze
    if d.host.isUp app then ([], some (create deployment slot (d.process app)))
    else ([.mark false], some unlock)
  | create deployment slot paused =>
    match d.host.vms[app]?.filter fun vm => vm.isUp && d.process app = paused, answer with
    | some vm, .ok =>
      ([], some (publish { deploymentId := deployment, slot := slot, memoryMib := vm.memoryMib }
        paused))
    | _, _ => ([.discardSnapshot], some (recover paused))
  | publish snapshot paused => ([.publish snapshot], some (ask paused))
  | ask paused => ([.ask], some (reap (d.signalled app) paused))
  | reap process paused => ([.reap process], some (idle paused))
  | idle _ =>
    ([.update fun r =>
      { r with
        state := .idle
        stopRequested := true
        startAttempts := noStartAttempts
        message := none }, .mark false], some unlock)
  | recover paused =>
    -- a guest that cannot be resumed is stopped
    if answer = .failed true ∨ ¬ d.host.isUp app then
      ([.ask], some (recovered (d.signalled app) paused))
    else ([.mark false], some unlock)
  | recovered process _ => ([.reap process, .mark false], some unlock)
  | unlock => ([.release], none)

end SuspendPc

namespace DiscardPc

def next : DiscardPc → List Effect × Option DiscardPc
  | forget => ([.discardSnapshot, .forget], some drop)
  | drop => ([.drop], none)

end DiscardPc

namespace SettlePc

def next [Platform] (d : Daemon) (app : AppId) (answers : SettleAnswers) :
    SettlePc → List Effect × Option SettlePc
  | snapshot => ([], d.host.records[app]?.map fun r => status r (d.snapshotting app))
  | status record snapshotting =>
    ([], some (write
      { record := record
        status := d.host.vmStatus app
        due := answers.due
        snapshotting := snapshotting
        nowMs := answers.nowMs
        probe := answers.probe
        probedAtMs := answers.probedAtMs
        guestVerdict := answers.guestVerdict }))
  | write reading => ([.update reading.settle], none)

end SettlePc

namespace Task

/-- The next start of a wave. -/
def nextStart (records : List InstanceRecord) : List WaveStart → Option Task
  | [] => none
  | current :: rest => some (wave current rest records .measure)

/-- One step of a task: what it does, and where it then stands. -/
def next [Platform] (d : Daemon) (task : ℕ) : Task → List Effect × Option Task
  | stop app pc =>
    let (effects, pc) := pc.next d app
    (effects, pc.map (stop app))
  | discard app pc =>
    let (effects, pc) := pc.next
    (effects, pc.map (discard app))
  | suspend app answer pc =>
    let (effects, pc) := pc.next d task app answer
    (effects, pc.map (suspend app answer))
  | wake wanted answers pc =>
    let (effects, pc) := pc.next d task wanted answers
    (effects, pc.map (wake wanted answers))
  | settle app answers pc =>
    let (effects, pc) := pc.next d app answers
    (effects, pc.map (settle app answers))
  | wave current rest records .measure =>
    match memoryShortfallFor d.host.config.guestMemoryMib records current.1.appId
        current.1.config.resources with
    | some shortfall => ([], some (wave current rest records (.waiting shortfall .allocate)))
    | none => ([], some (wave current rest records (.starting .begin)))
  | wave current rest records (.waiting shortfall pc) =>
    let (effects, pc) := pc.next d current.1 shortfall
    (effects, pc.elim (nextStart records rest) fun pc =>
      some (wave current rest records (.waiting shortfall pc)))
  | wave current rest records (.starting pc) =>
    let (effects, pc) := pc.next d current.1 current.2
    (effects, some (wave current rest records (pc.elim .reread .starting)))
  | wave current rest records .reread =>
    ([], nextStart
      (records.filter (·.appId ≠ current.1.appId) ++ d.host.records[current.1.appId]?.toList) rest)

end Task

/-! ### Runs -/

/-- An operation a task is begun for. -/
inductive Operation where
  | stop (app : AppId)
  | discard (app : AppId)
  | suspend (app : AppId) (answer : Host.SleepAnswer)
  | wake (wanted : DesiredInstance) (answers : Host.WakeAnswers)
  | starts (current : WaveStart) (rest : List WaveStart)
  | settle (app : AppId) (answers : SettleAnswers)

/-- The task an operation begins as. A wave of starts reads the records once, when it begins. -/
def Operation.task (d : Daemon) : Operation → Option Task
  | stop app => some (.stop app .begin)
  | discard app => some (.discard app .forget)
  | suspend app answer => some (.suspend app answer .lock)
  | wake wanted answers => some (.wake wanted answers .room)
  | starts current rest =>
    if d.host.isolated then some (.wave current rest d.host.recordList .measure) else none
  | settle app answers => some (.settle app answers .snapshot)

/-- What happens next: an operation begins under a free number, a task takes a step, or a
process ends by itself. -/
inductive Move where
  | begin (task : ℕ) (operation : Operation)
  | step (task : ℕ)
  | guestExit (app : AppId) (exit : VmExit)
  | strayExit (app : AppId) (process : ℕ)

namespace Daemon

/-- The task stands at `task`, or is done. -/
def setTask (d : Daemon) (t : ℕ) (task : Option Task) : Daemon :=
  { d with tasks := Function.update d.tasks t task }

def step [Platform] (d : Daemon) : Move → Daemon
  | .begin t operation => if (d.tasks t).isNone then d.setTask t (operation.task d) else d
  | .step t =>
    match d.tasks t with
    | none => d
    | some task =>
      let (effects, task') := task.next d t
      (d.actAll task.app effects).setTask t task'
  | .guestExit app exit => { d with host := d.host.guestExit app exit }
  | .strayExit app process =>
    { d with strays := d.strays.filter fun s => ¬ (s.app = app ∧ s.process = process) }

/-- The daemon a list of moves leads to. -/
abbrev run [Platform] (d : Daemon) (moves : List Move) : Daemon := Run.run Daemon.step d moves

end Daemon

/-! ### A small daemon -/

/-- The app of the small host, brought up when it is asked for. -/
def onRequestInstance : DesiredInstance := { soleInstance with desiredState := .onRequest }

/-- Every probe of a refresh is answered. -/
def refreshWell : RefreshAnswers where
  nowMs := 0
  due _ := true
  probe _ := .ok ()
  probedAtMs _ := 0
  guestVerdict _ := none

/-- The small host after a pass, the app booted and found well. -/
def awakeHost : Host :=
  @Host.run .plain smallHost
    [.pass ⟨[soleVolume], [onRequestInstance], [], []⟩ (.succeed .change 0), .refresh refreshWell]

/-- The small host with the app put to sleep. -/
def asleepHost : Host := @Host.run .plain awakeHost [.suspend ⟨"app-1"⟩ .ok]

/-- Every adapter does what a start asks of it. -/
def startSucceeds : StartAnswers where
  nowMs := 0
  prepare := .ok ()
  attach := .ok ()
  boot := .ok
  startedAtMs := 0

/-- Every adapter does what a wake asks of it. -/
def wakeSucceeds : Host.WakeAnswers where
  attach := .ok ()
  wake := .ok
  startedAtMs := 0
  start := startSucceeds

end Nibrunner

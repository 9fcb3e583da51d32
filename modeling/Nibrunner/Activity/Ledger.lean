import Nibrunner.Activity.Meters
import Nibrunner.ForStd.Run

/-!
# What the daemon watches of its apps

Beside the records the daemon keeps a ledger: when each app was last active, what crossed its tap
when that was last read, and its meters. Several tasks write it, each under the lock of the whole
state and none holding it across an await:

* the activity pass (`record_activity`) reads the clock, takes a copy of the ledger, asks the
  firewall for its counters, and later stores what it made of them and of the copy. The moments
  of activity are replaced whole, off the copy; the meters are added to under the lock;
* a wake, a start, a cron run or an activator marks an app active (`mark_active`): it reads the
  clock and then waits for the lock;
* the measurement pass adds what the guests spent;
* every other task changes the host;
* now and then everything is written down, and a daemon that starts reads it back.

`Watch.step` is one step of one of them.
-/

namespace Nibrunner

open Std

/-! ### Letting an app sleep -/

def minIdleTimeoutMs : ℕ := 60000

def maxIdleTimeoutMs : ℕ := 86400000

def minMaxLifetimeMs : ℕ := 60000

def maxMaxLifetimeMs : ℕ := 604800000

/-- A number of milliseconds within bounds. -/
structure BoundedMs (least most : ℕ) where
  ms : ℕ
  least_le : least ≤ ms
  le_most : ms ≤ most

abbrev IdleTimeoutMs := BoundedMs minIdleTimeoutMs maxIdleTimeoutMs
abbrev MaxLifetimeMs := BoundedMs minMaxLifetimeMs maxMaxLifetimeMs

inductive SleepPolicy where
  | never
  | trafficIdle (timeoutMs : IdleTimeoutMs)
  | maxLifetime (ttlMs : MaxLifetimeMs)

inductive SleepReason where
  | quiet
  | livedLongEnough
deriving DecidableEq

/-- What a pass has observed about an instance since it was last started. -/
structure ActivitySignals where
  lastActiveAtMs : Option ℤ
  measuredAtMs : Option ℤ
  startedAtMs : Option ℤ
  requestsOpen : ℕ

def maxActivityAgeMs : ℤ := 15000

def maxLifetimeDrainMs : ℤ := 30000

/-- Whether what this host last read of the app's traffic still stands for what it is doing. -/
def ActivitySignals.measuredLately (signals : ActivitySignals) (nowMs : ℤ) : Bool :=
  signals.measuredAtMs.any fun measuredAt => nowMs - measuredAt ≤ maxActivityAgeMs

def shouldSleep (policy : SleepPolicy) (record : InstanceRecord) (signals : ActivitySignals)
    (nowMs : ℤ) : Option SleepReason :=
  if ¬record.onRequest ∨ ¬record.desiredRunning ∨ record.state ≠ .running then none
  else
    let answering := 0 < signals.requestsOpen
    match policy with
    | .never => none
    | .trafficIdle timeoutMs =>
      if answering ∨ ¬signals.measuredLately nowMs then none
      else
        signals.lastActiveAtMs.bind fun quietSince =>
          if (timeoutMs.ms : ℤ) ≤ nowMs - quietSince then some .quiet else none
    | .maxLifetime ttlMs =>
      signals.startedAtMs.bind fun upSince =>
        let drainMs := if answering then maxLifetimeDrainMs else 0
        if ttlMs.ms + drainMs ≤ nowMs - upSince then some .livedLongEnough else none

/-! ### One reading of the traffic -/

/-- What a reading of the counters comes to. -/
structure Activity where
  traffic : ExtTreeMap AppId AppTraffic
  lastActiveAtMs : ExtTreeMap AppId ℤ
  lastMeasuredAtMs : ExtTreeMap AppId ℤ
  moved : List AppId

/-- The map with `v` under `k`, where nothing is. -/
def orInsert (m : ExtTreeMap AppId ℤ) (k : AppId) (v : ℤ) : ExtTreeMap AppId ℤ :=
  if m.contains k then m else m.insert k v

theorem getElem?_orInsert (m : ExtTreeMap AppId ℤ) (k : AppId) (v : ℤ) (a : AppId) :
    (orInsert m k v)[a]? = if k = a ∧ m[a]? = none then some v else m[a]? := by
  rw [orInsert, ExtTreeMap.contains_eq_isSome_getElem?]
  by_cases hka : k = a
  · subst hka
    cases hheld : m[k]? with
    | none => simp
    | some held => simp [hheld]
  · split
    · simp [hka]
    · rw [ExtTreeMap.getElem?_insert_ite]
      simp [hka]

/-- What one app's counters come to. An app has moved where more has reached it than before;
what a guest sends of its own accord is not somebody asking for it. -/
def readApp (previousTraffic : ExtTreeMap AppId AppTraffic) (previousMoments : ExtTreeMap AppId ℤ)
    (nowMs : ℤ) (read : Activity) (reading : AppId × AppTraffic) : Activity :=
  let (app, after) := reading
  let before := previousTraffic[app]?
  let recorded := previousMoments[app]?
  let moved :=
    if before.any fun before => before.received.bytes < after.received.bytes then app :: read.moved
    else read.moved
  let moment := if app ∈ moved then nowMs else recorded.getD nowMs
  { traffic := read.traffic.insert app after
    lastActiveAtMs := read.lastActiveAtMs.insert app moment
    lastMeasuredAtMs := read.lastMeasuredAtMs.insert app nowMs
    moved := moved }

/-- What a reading comes to. An app it says nothing about keeps the counters and the moment it
had, and a request the proxy is still answering is somebody asking for the app. -/
def activityAfter (taken previousTraffic : ExtTreeMap AppId AppTraffic)
    (previousMoments previousReadings : ExtTreeMap AppId ℤ) (requestsOpen : ExtTreeMap AppId ℕ)
    (nowMs : ℤ) : Activity :=
  let read := taken.toList.foldl (readApp previousTraffic previousMoments nowMs)
    { traffic := previousTraffic
      lastActiveAtMs := ∅
      lastMeasuredAtMs := previousReadings
      moved := (requestsOpen.toList.filter fun open_ => 0 < open_.2).map (·.1) }
  let moments := read.moved.foldl (fun moments app => orInsert moments app nowMs)
    read.lastActiveAtMs
  { read with
    lastActiveAtMs := previousMoments.toList.foldl
      (fun moments recorded => orInsert moments recorded.1 recorded.2) moments }

/-- What is known of the apps that hold a slot. -/
def ofHeldApps {β : Type} (known : ExtTreeMap AppId β) (held : List AppId) : ExtTreeMap AppId β :=
  known.filter fun app _ => app ∈ held

/-! ### The ledger and its tasks -/

/-- What the daemon watches, with the host it is of. -/
structure Ledger where
  host : Host
  appTraffic : ExtTreeMap AppId AppTraffic
  lastActiveAtMs : ExtTreeMap AppId ℤ
  lastMeasuredAtMs : ExtTreeMap AppId ℤ
  volumeUsage : ExtTreeMap AppId UInt64
  computeTicks : ExtTreeMap AppId MeasuredCompute
  meters : ExtTreeMap AppId UsageMeters
  meteredAtMs : Option ℤ

/-- Where the activity pass is: there is one task that runs it. -/
inductive ActivityPass where
  | resting
  | timed (nowMs : ℤ)
  | measuring (nowMs : ℤ) (snapshot : Ledger)
  | storing (nowMs : ℤ) (next : Activity)

/-- What a table holds of the ledger. -/
structure WrittenDown where
  lastActiveAtMs : ExtTreeMap AppId ℤ
  meters : ExtTreeMap AppId UsageMeters

/-- The ledger, the tasks at work on it, and what is written down of it. -/
structure Watch where
  ledger : Ledger
  clockMs : ℤ
  pass : ActivityPass
  /-- The calls of `mark_active` that have read the clock and wait for the lock. -/
  marks : List (AppId × ℤ)
  /-- The copies that are being written down. -/
  writing : List WrittenDown
  written : WrittenDown

/-- How far a write got before the store failed it. -/
inductive WriteOutcome where
  | failed
  | activityOnly
  | done

inductive WatchMove where
  | tick (ms : ℕ)
  /-- Another task leaves the host so. -/
  | host (h : Host)
  | timePass
  | snapshotPass
  /-- The firewall and the proxy have answered. -/
  | measurePass (taken : ExtTreeMap AppId AppTraffic) (requestsOpen : ExtTreeMap AppId ℕ)
  | storePass
  | callMark (app : AppId)
  | landMark (mark : ℕ)
  /-- The measurement pass stores what the guests answered. -/
  | measure (taken : List (AppId × GuestReading)) (volumeUsage : ExtTreeMap AppId UInt64)
      (computeTicks : ExtTreeMap AppId MeasuredCompute)
  | copyDown
  | writeDown (copy : ℕ) (outcome : WriteOutcome)
  /-- The daemon starts again over the host it finds; a table that cannot be read is empty. -/
  | restart (h : Host) (readable : Bool)

def activityIntervalMs : ℕ := 5000

/-- A counter as the store keeps it: SQLite has no unsigned integers. -/
def asStored (value : UInt64) : UInt64 := UInt64.ofNat (min value.toNat (2 ^ 63 - 1))

def UsageMeters.asStored (m : UsageMeters) : UsageMeters where
  runningMs := Nibrunner.asStored m.runningMs
  idleMs := Nibrunner.asStored m.idleMs
  cpuMs := Nibrunner.asStored m.cpuMs
  rxBytes := Nibrunner.asStored m.rxBytes
  txBytes := Nibrunner.asStored m.txBytes
  diskProvisionedMibSeconds := Nibrunner.asStored m.diskProvisionedMibSeconds
  diskUsedMibSeconds := Nibrunner.asStored m.diskUsedMibSeconds

namespace Ledger

/-- The apps that hold a slot. -/
def heldApps (l : Ledger) : List AppId := l.host.allocator.assignments.keys

/-- What the meters of a pass are metered off, with the traffic it is about to store. -/
def meterInputs (l : Ledger) (nowMs : ℤ) (traffic : ExtTreeMap AppId AppTraffic) : MeterInputs where
  records := l.host.records
  trafficBefore := l.appTraffic
  trafficAfter := traffic
  volumes := l.host.volumeReports
  volumeUsage := l.volumeUsage
  elapsedMs := elapsedSince l.meteredAtMs nowMs activityIntervalMs

/-- The ledger as a pass leaves it: the meters added to, everything else replaced. -/
def store (l : Ledger) (nowMs : ℤ) (next : Activity) : Ledger :=
  { l with
    meters := meteredAfter l.meters (l.meterInputs nowMs next.traffic)
    meteredAtMs := some nowMs
    appTraffic := next.traffic
    lastActiveAtMs := next.lastActiveAtMs
    lastMeasuredAtMs := next.lastMeasuredAtMs }

def markActive (l : Ledger) (app : AppId) (nowMs : ℤ) : Ledger :=
  { l with lastActiveAtMs := l.lastActiveAtMs.insert app nowMs }

def writtenDown (l : Ledger) : WrittenDown where
  lastActiveAtMs := l.lastActiveAtMs
  meters := l.meters.map fun _ => UsageMeters.asStored

/-- The ledger of a daemon that has just come up. -/
def load (h : Host) (written : WrittenDown) : Ledger where
  host := h
  appTraffic := ∅
  lastActiveAtMs := written.lastActiveAtMs
  lastMeasuredAtMs := ∅
  volumeUsage := ∅
  computeTicks := ∅
  meters := written.meters
  meteredAtMs := none

def signals (l : Ledger) (record : InstanceRecord) (requestsOpen : ℕ) : ActivitySignals where
  lastActiveAtMs := l.lastActiveAtMs[record.appId]?
  measuredAtMs := l.lastMeasuredAtMs[record.appId]?
  startedAtMs := record.startedAt
  requestsOpen := requestsOpen

end Ledger

namespace WrittenDown

def empty : WrittenDown := ⟨∅, ∅⟩

/-- What the tables hold after a write of `copy` that got so far. -/
def after (written copy : WrittenDown) : WriteOutcome → WrittenDown
  | .failed => written
  | .activityOnly => { written with lastActiveAtMs := copy.lastActiveAtMs }
  | .done => copy

end WrittenDown

namespace Watch

/-- The pass is carried on from its copy; the slots are read again. -/
def measured (w : Watch) (nowMs : ℤ) (snapshot : Ledger)
    (taken : ExtTreeMap AppId AppTraffic) (requestsOpen : ExtTreeMap AppId ℕ) : Activity :=
  let next := activityAfter taken snapshot.appTraffic snapshot.lastActiveAtMs
    snapshot.lastMeasuredAtMs requestsOpen nowMs
  let held := w.ledger.heldApps
  { traffic := ofHeldApps next.traffic held
    lastActiveAtMs := ofHeldApps next.lastActiveAtMs held
    lastMeasuredAtMs := ofHeldApps next.lastMeasuredAtMs held
    moved := next.moved }

def step (w : Watch) : WatchMove → Watch
  | .tick ms => { w with clockMs := w.clockMs + ms }
  | .host h => { w with ledger := { w.ledger with host := h } }
  | .timePass =>
    match w.pass with
    | .resting => { w with pass := .timed w.clockMs }
    | _ => w
  | .snapshotPass =>
    match w.pass with
    | .timed nowMs => { w with pass := .measuring nowMs w.ledger }
    | _ => w
  | .measurePass taken requestsOpen =>
    match w.pass with
    | .measuring nowMs snapshot =>
      { w with pass := .storing nowMs (w.measured nowMs snapshot taken requestsOpen) }
    | _ => w
  | .storePass =>
    match w.pass with
    | .storing nowMs next => { w with ledger := w.ledger.store nowMs next, pass := .resting }
    | _ => w
  | .callMark app => { w with marks := w.marks ++ [(app, w.clockMs)] }
  | .landMark mark =>
    match w.marks[mark]? with
    | some (app, nowMs) =>
      { w with ledger := w.ledger.markActive app nowMs, marks := w.marks.eraseIdx mark }
    | none => w
  | .measure taken volumeUsage computeTicks =>
    { w with
      ledger := { w.ledger with
        meters := cpuMeteredAfter w.ledger.meters w.ledger.computeTicks taken
        volumeUsage := volumeUsage
        computeTicks := computeTicks } }
  | .copyDown => { w with writing := w.writing ++ [w.ledger.writtenDown] }
  | .writeDown copy outcome =>
    match w.writing[copy]? with
    | some held =>
      { w with written := w.written.after held outcome, writing := w.writing.eraseIdx copy }
    | none => w
  | .restart h readable =>
    { w with
      ledger := .load h (if readable then w.written else .empty)
      pass := .resting
      marks := []
      writing := [] }

end Watch

end Nibrunner

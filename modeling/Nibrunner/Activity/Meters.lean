import Nibrunner.Host.State

/-!
# Usage meters

What an app has used since the host first saw it, in unsigned 64-bit counters that wrap. Two
passes add to them: one meters time, traffic and disk off the host's own observations
(`meteredAfter`), the other what the guests say they spent (`cpuMeteredAfter`).

The first keeps a meter only of an app the host holds a record of or stores bytes for
(`MeterInputs.Counts`); the meter of any other app is gone.

* `meterOf_meteredAfter`: what becomes of a meter, counted or not;
* `meterOf_le_meteredAfter`, `meterOf_le_cpuMeteredAfter`: a meter that is counted and does not
  overflow only grows.
-/

namespace Nibrunner

open Std

/-- What one app's traffic comes to, in one direction. -/
structure Counted where
  packets : UInt64
  bytes : UInt64
deriving DecidableEq

/-- What has crossed an app's tap: what reached the guest, and what the guest put on the wire. -/
structure AppTraffic where
  received : Counted
  sent : Counted
deriving DecidableEq

structure MeasuredCompute where
  cpuBusyTicks : UInt64
deriving DecidableEq

/-- What a guest answered, where it did. -/
structure GuestReading where
  compute : Option MeasuredCompute
deriving DecidableEq

structure UsageMeters where
  runningMs : UInt64
  idleMs : UInt64
  cpuMs : UInt64
  rxBytes : UInt64
  txBytes : UInt64
  diskProvisionedMibSeconds : UInt64
  diskUsedMibSeconds : UInt64
deriving DecidableEq

namespace UsageMeters

/-- The meters of an app nothing is known of. -/
def zero : UsageMeters := ⟨0, 0, 0, 0, 0, 0, 0⟩

instance : Inhabited UsageMeters := ⟨zero⟩

/-- The counters with `b` added to them. -/
def add (a b : UsageMeters) : UsageMeters where
  runningMs := a.runningMs + b.runningMs
  idleMs := a.idleMs + b.idleMs
  cpuMs := a.cpuMs + b.cpuMs
  rxBytes := a.rxBytes + b.rxBytes
  txBytes := a.txBytes + b.txBytes
  diskProvisionedMibSeconds := a.diskProvisionedMibSeconds + b.diskProvisionedMibSeconds
  diskUsedMibSeconds := a.diskUsedMibSeconds + b.diskUsedMibSeconds

/-- No counter of the first is above that of the second. -/
structure Le (a b : UsageMeters) : Prop where
  runningMs : a.runningMs ≤ b.runningMs
  idleMs : a.idleMs ≤ b.idleMs
  cpuMs : a.cpuMs ≤ b.cpuMs
  rxBytes : a.rxBytes ≤ b.rxBytes
  txBytes : a.txBytes ≤ b.txBytes
  diskProvisionedMibSeconds : a.diskProvisionedMibSeconds ≤ b.diskProvisionedMibSeconds
  diskUsedMibSeconds : a.diskUsedMibSeconds ≤ b.diskUsedMibSeconds

/-- Adding `b` makes no counter overflow. -/
structure Fits (a b : UsageMeters) : Prop where
  runningMs : a.runningMs.toNat + b.runningMs.toNat < 2 ^ 64
  idleMs : a.idleMs.toNat + b.idleMs.toNat < 2 ^ 64
  cpuMs : a.cpuMs.toNat + b.cpuMs.toNat < 2 ^ 64
  rxBytes : a.rxBytes.toNat + b.rxBytes.toNat < 2 ^ 64
  txBytes : a.txBytes.toNat + b.txBytes.toNat < 2 ^ 64
  diskProvisionedMibSeconds :
    a.diskProvisionedMibSeconds.toNat + b.diskProvisionedMibSeconds.toNat < 2 ^ 64
  diskUsedMibSeconds : a.diskUsedMibSeconds.toNat + b.diskUsedMibSeconds.toNat < 2 ^ 64

theorem Le.refl (a : UsageMeters) : a.Le a := by
  constructor
  all_goals exact UInt64.le_refl _

theorem Le.trans {a b c : UsageMeters} (hab : a.Le b) (hbc : b.Le c) : a.Le c where
  runningMs := UInt64.le_trans hab.runningMs hbc.runningMs
  idleMs := UInt64.le_trans hab.idleMs hbc.idleMs
  cpuMs := UInt64.le_trans hab.cpuMs hbc.cpuMs
  rxBytes := UInt64.le_trans hab.rxBytes hbc.rxBytes
  txBytes := UInt64.le_trans hab.txBytes hbc.txBytes
  diskProvisionedMibSeconds :=
    UInt64.le_trans hab.diskProvisionedMibSeconds hbc.diskProvisionedMibSeconds
  diskUsedMibSeconds := UInt64.le_trans hab.diskUsedMibSeconds hbc.diskUsedMibSeconds

theorem zero_le (a : UsageMeters) : zero.Le a := by
  constructor
  all_goals exact UInt64.le_iff_toNat_le.mpr (Nat.zero_le _)

private theorem le_add_of_fits {a b : UInt64} (h : a.toNat + b.toNat < 2 ^ 64) : a ≤ a + b := by
  rw [UInt64.le_iff_toNat_le, UInt64.toNat_add, Nat.mod_eq_of_lt h]
  exact Nat.le_add_right _ _

/-- **Counters that do not overflow grow.** -/
theorem Fits.le_add {a b : UsageMeters} (h : a.Fits b) : a.Le (a.add b) where
  runningMs := le_add_of_fits h.runningMs
  idleMs := le_add_of_fits h.idleMs
  cpuMs := le_add_of_fits h.cpuMs
  rxBytes := le_add_of_fits h.rxBytes
  txBytes := le_add_of_fits h.txBytes
  diskProvisionedMibSeconds := le_add_of_fits h.diskProvisionedMibSeconds
  diskUsedMibSeconds := le_add_of_fits h.diskUsedMibSeconds

end UsageMeters

/-- The app's meters, nothing used where there are none. -/
def meterOf (meters : ExtTreeMap AppId UsageMeters) (app : AppId) : UsageMeters :=
  meters[app]?.getD .zero

/-! ### What the host observes -/

/-- A microVM exists and is holding the memory it was promised. -/
def holdsMemory : List InstanceState := [.starting, .running, .unhealthy, .stopping]

/-- A volume that is holding bytes on the backend. -/
def storesBytes : List VolumeState := [.ready, .detached]

def millisPerTick : UInt64 := 10

def latePassAllowance : ℕ := 2

def bytesPerMib : ℕ := 1048576

def millisPerSecond : ℕ := 1000

/-- What a counter that only grows has grown by. A reading below the one before it is a counter
that restarted, and a first reading is not usage. -/
def advanced (before : Option UInt64) (after : UInt64) : UInt64 :=
  match before with
  | none => 0
  | some before => if before ≤ after then after - before else after

/-- The time a pass may bill for, of the time since the one before it. -/
def elapsedSince (before : Option ℤ) (nowMs : ℤ) (intervalMs : ℕ) : UInt64 :=
  match before with
  | none => 0
  | some before => UInt64.ofNat (min (nowMs - before).toNat (intervalMs * latePassAllowance))

/-- What holding a level for a stretch comes to, in mebibyte-seconds; the product saturates. -/
def heldFor (bytes elapsedMs : UInt64) : UInt64 :=
  UInt64.ofNat (min (bytes.toNat / bytesPerMib * elapsedMs.toNat) (2 ^ 64 - 1) / millisPerSecond)

def provisionedBytes (volumes : List ReportedVolume) (app : AppId) : UInt64 :=
  ((volumes.filter fun volume => volume.appId = app ∧ volume.state ∈ storesBytes).map
    fun volume => UInt64.ofNat volume.sizeBytes).foldl (· + ·) 0

structure MeterInputs where
  records : ExtTreeMap AppId InstanceRecord
  trafficBefore : ExtTreeMap AppId AppTraffic
  trafficAfter : ExtTreeMap AppId AppTraffic
  volumes : List ReportedVolume
  volumeUsage : ExtTreeMap AppId UInt64
  elapsedMs : UInt64

namespace MeterInputs

/-- The apps a pass meters: those with a record, and those with a volume that stores bytes. -/
def apps (inputs : MeterInputs) : List AppId :=
  inputs.records.keys ++
    (inputs.volumes.filter fun volume => volume.state ∈ storesBytes).map (·.appId)

/-- The pass meters the app. -/
def Counts (inputs : MeterInputs) (app : AppId) : Prop := app ∈ inputs.apps

instance (inputs : MeterInputs) (app : AppId) : Decidable (inputs.Counts app) :=
  inferInstanceAs (Decidable (app ∈ inputs.apps))

/-- What a pass adds to the meters of an app. -/
def gains (inputs : MeterInputs) (app : AppId) : UsageMeters :=
  let state := inputs.records[app]?.map (·.state)
  let before := inputs.trafficBefore[app]?
  let after := inputs.trafficAfter[app]?
  { runningMs := if state.any (· ∈ holdsMemory) then inputs.elapsedMs else 0
    idleMs := if state = some .idle then inputs.elapsedMs else 0
    cpuMs := 0
    rxBytes := after.elim 0 fun after =>
      advanced (before.map (·.received.bytes)) after.received.bytes
    txBytes := after.elim 0 fun after => advanced (before.map (·.sent.bytes)) after.sent.bytes
    diskProvisionedMibSeconds := heldFor (provisionedBytes inputs.volumes app) inputs.elapsedMs
    diskUsedMibSeconds := inputs.volumeUsage[app]?.elim 0 fun used =>
      heldFor used inputs.elapsedMs }

end MeterInputs

/-- The pass that meters wall time, traffic and what each app is holding on disk. -/
def meteredAfter (previous : ExtTreeMap AppId UsageMeters) (inputs : MeterInputs) :
    ExtTreeMap AppId UsageMeters :=
  inputs.apps.foldl
    (fun metered app => metered.insert app ((meterOf previous app).add (inputs.gains app))) ∅

/-- **What becomes of a meter**: it gains what its app used, or is gone. -/
theorem meterOf_meteredAfter (previous : ExtTreeMap AppId UsageMeters) (inputs : MeterInputs)
    (app : AppId) :
    meterOf (meteredAfter previous inputs) app =
      if inputs.Counts app then (meterOf previous app).add (inputs.gains app) else .zero := by
  rw [meterOf, meteredAfter, ExtTreeMap.getElem?_foldl_insert_key]
  by_cases hcounts : inputs.Counts app
  · rw [if_pos hcounts, if_pos (show app ∈ inputs.apps from hcounts)]
    rfl
  · rw [if_neg hcounts, if_neg (show app ∉ inputs.apps from hcounts)]
    rfl

/-- A meter that is counted and does not overflow grows. -/
theorem meterOf_le_meteredAfter {previous : ExtTreeMap AppId UsageMeters} {inputs : MeterInputs}
    {app : AppId} (hcounts : inputs.Counts app)
    (hfits : (meterOf previous app).Fits (inputs.gains app)) :
    (meterOf previous app).Le (meterOf (meteredAfter previous inputs) app) := by
  rw [meterOf_meteredAfter, if_pos hcounts]
  exact hfits.le_add

/-! ### What the guests answer -/

/-- What a reading of an app's guest adds to its meters. -/
def cpuGains (previousTicks : ExtTreeMap AppId MeasuredCompute) (app : AppId)
    (measured : MeasuredCompute) : UsageMeters :=
  { UsageMeters.zero with
    cpuMs := advanced (previousTicks[app]?.map (·.cpuBusyTicks)) measured.cpuBusyTicks *
      millisPerTick }

/-- One reading metered. -/
def cpuMetered (previousTicks : ExtTreeMap AppId MeasuredCompute)
    (metered : ExtTreeMap AppId UsageMeters) (taken : AppId × GuestReading) :
    ExtTreeMap AppId UsageMeters :=
  match taken.2.compute with
  | none => metered
  | some measured =>
    metered.insert taken.1
      ((meterOf metered taken.1).add (cpuGains previousTicks taken.1 measured))

/-- The pass that meters what the guests said they spent. -/
def cpuMeteredAfter (previous : ExtTreeMap AppId UsageMeters)
    (previousTicks : ExtTreeMap AppId MeasuredCompute) (taken : List (AppId × GuestReading)) :
    ExtTreeMap AppId UsageMeters :=
  taken.foldl (cpuMetered previousTicks) previous

/-- No reading of the app's guest makes its meters overflow. -/
def CpuFits (previousTicks : ExtTreeMap AppId MeasuredCompute) (app : AppId) :
    ExtTreeMap AppId UsageMeters → List (AppId × GuestReading) → Prop
  | _, [] => True
  | metered, reading :: taken =>
    (reading.1 = app → ∀ measured, reading.2.compute = some measured →
      (meterOf metered app).Fits (cpuGains previousTicks app measured)) ∧
    CpuFits previousTicks app (cpuMetered previousTicks metered reading) taken

theorem meterOf_le_cpuMetered {previousTicks : ExtTreeMap AppId MeasuredCompute}
    {metered : ExtTreeMap AppId UsageMeters} {reading : AppId × GuestReading} {app : AppId}
    (hfits : reading.1 = app → ∀ measured, reading.2.compute = some measured →
      (meterOf metered app).Fits (cpuGains previousTicks app measured)) :
    (meterOf metered app).Le (meterOf (cpuMetered previousTicks metered reading) app) := by
  rw [cpuMetered]
  split
  · exact .refl _
  · rename_i measured hmeasured
    by_cases happ : reading.1 = app
    · have hgrown := (hfits happ measured hmeasured).le_add
      rw [meterOf.eq_def (metered.insert _ _), ExtTreeMap.getElem?_insert_ite, if_pos happ, happ]
      exact hgrown
    · rw [meterOf.eq_def (metered.insert _ _), ExtTreeMap.getElem?_insert_ite, if_neg happ]
      exact .refl _

/-- A meter that no reading makes overflow grows. -/
theorem meterOf_le_cpuMeteredAfter {previous : ExtTreeMap AppId UsageMeters}
    {previousTicks : ExtTreeMap AppId MeasuredCompute} {taken : List (AppId × GuestReading)}
    {app : AppId} (hfits : CpuFits previousTicks app previous taken) :
    (meterOf previous app).Le (meterOf (cpuMeteredAfter previous previousTicks taken) app) := by
  induction taken generalizing previous with
  | nil => exact .refl _
  | cons reading taken ih => exact (meterOf_le_cpuMetered hfits.1).trans (ih hfits.2)

end Nibrunner

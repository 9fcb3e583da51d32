import Mathlib.Order.MinMax
import Nibrunner.Activity.HeldRounding
import Nibrunner.Activity.Totals
import Nibrunner.Guest.Filesystem

/-!
# What a guest can do to its meters

The two metering passes with what the guests really send, which is bytes, and the restarts of the
daemon between them. A guest chooses the ticks and the bytes it reports: `cpuMeteredAfter`
multiplies and adds the first without a check, and the activity pass adds up what `heldFor` makes of
the second, which cannot overflow itself (`heldFor_fits`).

`Sound` is a step of which no product and no sum overflows, and which takes nothing from what the
app has used of the processor and the disk. `Bounded` says of the same step, with totals kept in
unbounded numbers of what was read alone, that they fit. `sound_iff` puts the two together, and
`meters_sound_iff` along every run.
-/

namespace Nibrunner

open Std

/-! ### The counters -/

inductive Meter where
  | runningMs
  | idleMs
  | cpuMs
  | rxBytes
  | txBytes
  | diskProvisionedMibSeconds
  | diskUsedMibSeconds
deriving DecidableEq

namespace UsageMeters

def count (m : UsageMeters) : Meter → ℕ
  | .runningMs => m.runningMs.toNat
  | .idleMs => m.idleMs.toNat
  | .cpuMs => m.cpuMs.toNat
  | .rxBytes => m.rxBytes.toNat
  | .txBytes => m.txBytes.toNat
  | .diskProvisionedMibSeconds => m.diskProvisionedMibSeconds.toNat
  | .diskUsedMibSeconds => m.diskUsedMibSeconds.toNat

/-- No counter is above what its type holds. -/
theorem count_lt (m : UsageMeters) (c : Meter) : m.count c < 2 ^ 64 := by
  cases c
  all_goals exact UInt64.toNat_lt _

theorem count_add (a b : UsageMeters) (c : Meter) :
    (a.add b).count c = (a.count c + b.count c) % 2 ^ 64 := by
  cases c
  all_goals exact UInt64.toNat_add _ _

@[simp] theorem count_zero (c : Meter) : zero.count c = 0 := by
  cases c
  all_goals rfl

end UsageMeters

/-! ### The table -/

/-- A counter as it comes back out of the store. -/
def asCounted (value : ℤ) : UInt64 := if 0 ≤ value then UInt64.ofNat value.toNat else 0

def UsageMeters.asCounted (m : UsageMeters) : UsageMeters where
  runningMs := Nibrunner.asCounted m.runningMs.toNat
  idleMs := Nibrunner.asCounted m.idleMs.toNat
  cpuMs := Nibrunner.asCounted m.cpuMs.toNat
  rxBytes := Nibrunner.asCounted m.rxBytes.toNat
  txBytes := Nibrunner.asCounted m.txBytes.toNat
  diskProvisionedMibSeconds := Nibrunner.asCounted m.diskProvisionedMibSeconds.toNat
  diskUsedMibSeconds := Nibrunner.asCounted m.diskUsedMibSeconds.toNat

theorem asCounted_toNat (value : UInt64) : asCounted value.toNat = value := by
  rw [asCounted, if_pos (Int.natCast_nonneg _), Int.toNat_natCast]
  exact UInt64.ofNat_toNat

theorem toNat_asStored (value : UInt64) :
    (asStored value).toNat = min value.toNat (2 ^ 63 - 1) := by
  rw [asStored]
  exact UInt64.toNat_ofNat_of_lt' (Nat.lt_of_le_of_lt (Nat.min_le_right _ _) (by decide))

/-- **What the store makes of a counter**: SQLite's largest number is the most it gives back. -/
theorem count_asCounted_asStored (m : UsageMeters) (c : Meter) :
    m.asStored.asCounted.count c = min (m.count c) (2 ^ 63 - 1) := by
  have hstore : ∀ value : UInt64,
      (asCounted (asStored value).toNat).toNat = min value.toNat (2 ^ 63 - 1) := by
    intro value
    rw [asCounted_toNat, toNat_asStored]
  cases c
  all_goals exact hstore _

/-! ### What the guests send -/

/-- The bodies a guest answers the usage and the compute request with, where it does. -/
structure GuestReplies where
  usage : Option (List UInt8)
  compute : Option (List UInt8)
deriving DecidableEq

namespace GuestReplies

/-- The bytes of its volume a guest says are used. -/
def usedBytes (r : GuestReplies) : Option UInt64 :=
  r.usage.bind fun body =>
    match GuestFilesystem.decodeUsage body with
    | .ok measured => some measured.usedBytes
    | _ => none

def busyTicks (r : GuestReplies) : Option UInt64 :=
  r.compute.bind fun body =>
    match GuestFilesystem.decodeCompute body with
    | .ok measured => some measured.cpuBusyTicks
    | _ => none

/-- What is metered of them. -/
def reading (r : GuestReplies) : GuestReading := ⟨r.busyTicks.map fun ticks => ⟨ticks⟩⟩

end GuestReplies

/-- What is used of each volume: what was measured, or what there was where a guest would not
say. -/
def volumeUsageAfter (taken : List (AppId × Option UInt64))
    (previous : ExtTreeMap AppId UInt64) : ExtTreeMap AppId UInt64 :=
  taken.foldl (fun usage reading =>
    match reading.2.or previous[reading.1]? with
    | some used => usage.insert reading.1 used
    | none => usage) ∅

/-! ### The passes and the restarts -/

inductive BillingMove where
  /-- Another task leaves the host so. -/
  | host (h : Host)
  /-- An activity pass. -/
  | pass (nowMs : ℤ) (taken : ExtTreeMap AppId AppTraffic) (requestsOpen : ExtTreeMap AppId ℕ)
  /-- A measurement pass. -/
  | measure (replies : AppId → GuestReplies)
  /-- The daemon stores its meters, and comes up again over the host it finds. -/
  | restart (h : Host)

namespace Ledger

/-- What an activity pass meters off. -/
def passInputs (l : Ledger) (nowMs : ℤ) (taken : ExtTreeMap AppId AppTraffic)
    (requestsOpen : ExtTreeMap AppId ℕ) : MeterInputs :=
  l.meterInputs nowMs ((Watch.start l nowMs).measured nowMs l taken requestsOpen).traffic

def bill (l : Ledger) : BillingMove → Ledger
  | .host h => { l with host := h }
  | .pass nowMs taken requestsOpen => l.recordActivity nowMs taken requestsOpen
  | .measure replies =>
    l.measure (fun app => (replies app).reading)
      (volumeUsageAfter (l.heldApps.map fun app => (app, (replies app).usedBytes)) l.volumeUsage)
  | .restart h =>
    .load h { l.writtenDown with
      meters := l.writtenDown.meters.map fun _ => UsageMeters.asCounted }

/-- What the app's meters hold. -/
def counted (l : Ledger) (app : AppId) (c : Meter) : ℕ := (meterOf l.meters app).count c

end Ledger

/-! ### Sound steps -/

/-- The products `heldFor` takes for the app. -/
def MeterInputs.HeldFits (inputs : MeterInputs) (app : AppId) : Prop :=
  (provisionedBytes inputs.volumes app).toNat / bytesPerMib * inputs.elapsedMs.toNat < 2 ^ 64 ∧
    ∀ used, inputs.volumeUsage[app]? = some used →
      used.toNat / bytesPerMib * inputs.elapsedMs.toNat < 2 ^ 64

/-- No product and no sum the step takes for the app is above what its type holds. -/
def Unwrapped (app : AppId) (l : Ledger) : BillingMove → Prop
  | .pass nowMs taken requestsOpen =>
    let inputs := l.passInputs nowMs taken requestsOpen
    inputs.Counts app → inputs.HeldFits app ∧
      ∀ c, l.counted app c + (inputs.gains app).count c < 2 ^ 64
  | .measure replies =>
    app ∈ l.heldApps → ∀ measured, (replies app).reading.compute = some measured →
      (advanced (l.computeTicks[app]?.map (·.cpuBusyTicks)) measured.cpuBusyTicks).toNat *
          millisPerTick.toNat < 2 ^ 64 ∧
        l.counted app .cpuMs + (cpuGains l.computeTicks app measured).count .cpuMs < 2 ^ 64
  | .host _ => True
  | .restart _ => True

/-- Nothing overflows, and what the app has used of the processor and the disk does not fall. -/
def Sound (app : AppId) (l : Ledger) (e : BillingMove) : Prop :=
  Unwrapped app l e ∧ l.counted app .cpuMs ≤ (l.bill e).counted app .cpuMs ∧
    l.counted app .diskUsedMibSeconds ≤ (l.bill e).counted app .diskUsedMibSeconds

/-! ### The totals of what was read -/

/-- What a count has grown by; a count below the one before it has started over. -/
def grown (before : Option ℕ) (after : ℕ) : ℕ :=
  before.elim 0 fun before => if before ≤ after then after - before else after

/-- What a level comes to in mebibyte-seconds. -/
def mibSeconds (bytes elapsedMs : ℕ) : ℕ := bytes / bytesPerMib * elapsedMs / millisPerSecond

namespace MeterInputs

/-- What a pass finds an app has used. -/
def used (inputs : MeterInputs) (app : AppId) : Meter → ℕ
  | .runningMs =>
    if (inputs.records[app]?.map (·.state)).any (· ∈ holdsMemory) then inputs.elapsedMs.toNat
    else 0
  | .idleMs =>
    if inputs.records[app]?.map (·.state) = some .idle then inputs.elapsedMs.toNat else 0
  | .cpuMs => 0
  | .rxBytes => inputs.trafficAfter[app]?.elim 0 fun after =>
    grown (inputs.trafficBefore[app]?.map (·.received.bytes.toNat)) after.received.bytes.toNat
  | .txBytes => inputs.trafficAfter[app]?.elim 0 fun after =>
    grown (inputs.trafficBefore[app]?.map (·.sent.bytes.toNat)) after.sent.bytes.toNat
  | .diskProvisionedMibSeconds =>
    mibSeconds (provisionedBytes inputs.volumes app).toNat inputs.elapsedMs.toNat
  | .diskUsedMibSeconds => inputs.volumeUsage[app]?.elim 0 fun used =>
    mibSeconds used.toNat inputs.elapsedMs.toNat

end MeterInputs

/-- The milliseconds a reported count of ticks adds, ten a tick. -/
def spentMs (l : Ledger) (app : AppId) (ticks : UInt64) : ℕ :=
  grown (l.computeTicks[app]?.map (·.cpuBusyTicks.toNat)) ticks.toNat * millisPerTick.toNat

/-- The totals after a step. A pass that finds nothing of the app starts them over, and a restart
leaves no more of them than the store holds. -/
def totalled (app : AppId) (l : Ledger) (totals : Meter → ℕ) : BillingMove → Meter → ℕ
  | .host _ => totals
  | .pass nowMs taken requestsOpen =>
    let inputs := l.passInputs nowMs taken requestsOpen
    if inputs.Counts app then fun c => totals c + inputs.used app c else fun _ => 0
  | .measure replies =>
    match (replies app).busyTicks with
    | some ticks =>
      if app ∈ l.heldApps then
        Function.update totals .cpuMs (totals .cpuMs + spentMs l app ticks)
      else totals
    | none => totals
  | .restart _ => fun c => min (totals c) (2 ^ 63 - 1)

/-- The totals a step makes fit: a counter's type where it is added to, and the store's where it is
stored; and a pass that finds nothing of the app has nothing to forget. -/
def Bounded (app : AppId) (l : Ledger) (totals : Meter → ℕ) : BillingMove → Prop
  | .host _ => True
  | .pass nowMs taken requestsOpen =>
    let inputs := l.passInputs nowMs taken requestsOpen
    if inputs.Counts app then ∀ c, totals c + inputs.used app c < 2 ^ 64
    else totals .cpuMs = 0 ∧ totals .diskUsedMibSeconds = 0
  | .measure replies =>
    app ∈ l.heldApps → ∀ ticks, (replies app).busyTicks = some ticks →
      totals .cpuMs + spentMs l app ticks < 2 ^ 64
  | .restart _ => totals .cpuMs < 2 ^ 63 ∧ totals .diskUsedMibSeconds < 2 ^ 63

/-! ### What is added is what was read -/

theorem toNat_advanced (before : Option UInt64) (after : UInt64) :
    (advanced before after).toNat = grown (before.map (·.toNat)) after.toNat := by
  cases before with
  | none => rfl
  | some before =>
    simp only [advanced, grown, Option.map_some, Option.elim_some, UInt64.le_iff_toNat_le]
    split_ifs with h
    · exact UInt64.toNat_sub_of_le _ _ (UInt64.le_iff_toNat_le.mpr h)
    · rfl

theorem toNat_elapsedSince_le (before : Option ℤ) (nowMs : ℤ) (intervalMs : ℕ) :
    (elapsedSince before nowMs intervalMs).toNat ≤ intervalMs * latePassAllowance := by
  cases before with
  | none => exact Nat.zero_le _
  | some before =>
    rw [elapsedSince, UInt64.toNat_ofNat']
    exact (Nat.mod_le _ _).trans (Nat.min_le_right _ _)

/-- **A level cannot overflow `heldFor`**: there are 2^44 mebibytes, and a pass is of ten seconds
at most. -/
theorem heldFor_fits (l : Ledger) (nowMs : ℤ) (traffic : ExtTreeMap AppId AppTraffic)
    (bytes : UInt64) :
    bytes.toNat / bytesPerMib * (l.meterInputs nowMs traffic).elapsedMs.toNat < 2 ^ 64 := by
  have hbytes : bytes.toNat / bytesPerMib < 2 ^ 44 := by
    have hlt := UInt64.toNat_lt bytes
    rw [bytesPerMib]
    omega
  have helapsed : (l.meterInputs nowMs traffic).elapsedMs.toNat ≤ 10000 :=
    toNat_elapsedSince_le _ _ _
  calc bytes.toNat / bytesPerMib * (l.meterInputs nowMs traffic).elapsedMs.toNat
      ≤ 2 ^ 44 * 10000 := Nat.mul_le_mul hbytes.le helapsed
    _ < 2 ^ 64 := by decide

theorem toNat_heldFor {bytes elapsedMs : UInt64}
    (h : bytes.toNat / bytesPerMib * elapsedMs.toNat < 2 ^ 64) :
    (heldFor bytes elapsedMs).toNat = mibSeconds bytes.toNat elapsedMs.toNat :=
  HeldLevel.held_eq (p := ⟨bytes, elapsedMs⟩) h

theorem toNat_advanced_of (app : AppId) (before : ExtTreeMap AppId AppTraffic)
    (direction : AppTraffic → UInt64) (after : Option AppTraffic) :
    (after.elim 0 fun after => advanced (before[app]?.map direction) (direction after)).toNat =
      after.elim 0 fun after =>
        grown (before[app]?.map fun before => (direction before).toNat)
          (direction after).toNat := by
  cases after with
  | none => rfl
  | some after =>
    simp only [Option.elim_some]
    rw [toNat_advanced, Option.map_map]
    rfl

/-- The gains of a pass are what it finds used. -/
theorem count_gains {inputs : MeterInputs} {app : AppId} (hheld : inputs.HeldFits app)
    (c : Meter) : (inputs.gains app).count c = inputs.used app c := by
  cases c with
  | runningMs | idleMs =>
    simp only [UsageMeters.count, MeterInputs.gains, MeterInputs.used]
    split_ifs
    · rfl
    · rfl
  | cpuMs => rfl
  | rxBytes => exact toNat_advanced_of app inputs.trafficBefore (·.received.bytes) _
  | txBytes => exact toNat_advanced_of app inputs.trafficBefore (·.sent.bytes) _
  | diskProvisionedMibSeconds => exact toNat_heldFor hheld.1
  | diskUsedMibSeconds =>
    simp only [UsageMeters.count, MeterInputs.gains, MeterInputs.used]
    cases hused : inputs.volumeUsage[app]? with
    | none => rfl
    | some used => exact toNat_heldFor (hheld.2 used hused)

variable {app : AppId} {l : Ledger}

theorem toNat_advanced_ticks (ticks : UInt64) :
    (advanced (l.computeTicks[app]?.map (·.cpuBusyTicks)) ticks).toNat * millisPerTick.toNat =
      spentMs l app ticks := by
  rw [spentMs, toNat_advanced, Option.map_map]
  rfl

theorem count_cpuGains (ticks : UInt64) :
    (cpuGains l.computeTicks app ⟨ticks⟩).count .cpuMs = spentMs l app ticks % 2 ^ 64 := by
  rw [← toNat_advanced_ticks]
  exact UInt64.toNat_mul _ _

theorem count_cpuGains_of_ne {ticks : UInt64} {c : Meter} (hc : c ≠ .cpuMs) :
    (cpuGains l.computeTicks app ⟨ticks⟩).count c = 0 := by
  cases c
  case cpuMs => exact absurd rfl hc
  all_goals rfl

/-- The product and the sum of a reading both stay in their types where the total does. -/
theorem fits_cpuGains_iff (ticks : UInt64) {total : ℕ} :
    (advanced (l.computeTicks[app]?.map (·.cpuBusyTicks)) ticks).toNat * millisPerTick.toNat <
          2 ^ 64 ∧ total + (cpuGains l.computeTicks app ⟨ticks⟩).count .cpuMs < 2 ^ 64 ↔
      total + spentMs l app ticks < 2 ^ 64 := by
  rw [toNat_advanced_ticks, count_cpuGains]
  constructor
  · rintro ⟨hproduct, hsum⟩
    rwa [Nat.mod_eq_of_lt hproduct] at hsum
  · intro hsum
    have hproduct : spentMs l app ticks < 2 ^ 64 := Nat.lt_of_le_of_lt (Nat.le_add_left _ _) hsum
    exact ⟨hproduct, by rwa [Nat.mod_eq_of_lt hproduct]⟩

/-! ### One step -/

theorem heldFits_passInputs (nowMs : ℤ) (taken : ExtTreeMap AppId AppTraffic)
    (requestsOpen : ExtTreeMap AppId ℕ) : (l.passInputs nowMs taken requestsOpen).HeldFits app :=
  ⟨heldFor_fits l nowMs _ _, fun _ _ => heldFor_fits l nowMs _ _⟩

theorem counted_pass (nowMs : ℤ) (taken : ExtTreeMap AppId AppTraffic)
    (requestsOpen : ExtTreeMap AppId ℕ) (c : Meter) :
    (l.bill (.pass nowMs taken requestsOpen)).counted app c =
      if (l.passInputs nowMs taken requestsOpen).Counts app then
        (l.counted app c + (l.passInputs nowMs taken requestsOpen).used app c) % 2 ^ 64
      else 0 := by
  rw [Ledger.counted, Ledger.bill, meterOf_recordActivity]
  show ((if (l.passInputs nowMs taken requestsOpen).Counts app then _ else _ :
    UsageMeters).count c) = _
  split_ifs
  · rw [UsageMeters.count_add, ← count_gains (heldFits_passInputs nowMs taken requestsOpen)]
    rfl
  · exact UsageMeters.count_zero c

theorem counted_measure_some {replies : AppId → GuestReplies} {ticks : UInt64}
    (hticks : (replies app).busyTicks = some ticks) (hheld : app ∈ l.heldApps) (c : Meter) :
    (l.bill (.measure replies)).counted app c =
      if c = .cpuMs then (l.counted app c + spentMs l app ticks) % 2 ^ 64
      else l.counted app c := by
  have hadded : (l.bill (.measure replies)).counted app c =
      (l.counted app c + (cpuGains l.computeTicks app ⟨ticks⟩).count c) % 2 ^ 64 := by
    rw [Ledger.counted, Ledger.bill, meterOf_measure, if_pos hheld, GuestReplies.reading, hticks]
    exact UsageMeters.count_add _ _ c
  rw [hadded]
  split_ifs with hc
  · rw [hc, count_cpuGains, Nat.add_mod_mod]
  · rw [count_cpuGains_of_ne hc, Nat.add_zero]
    exact Nat.mod_eq_of_lt (UsageMeters.count_lt _ _)

theorem counted_measure_same {replies : AppId → GuestReplies}
    (h : app ∈ l.heldApps → (replies app).busyTicks = none) (c : Meter) :
    (l.bill (.measure replies)).counted app c = l.counted app c := by
  rw [Ledger.counted, Ledger.bill, meterOf_measure]
  split_ifs with hheld
  · rw [GuestReplies.reading, h hheld]
    rfl
  · rfl

theorem counted_restart (h : Host) (c : Meter) :
    (l.bill (.restart h)).counted app c = min (l.counted app c) (2 ^ 63 - 1) := by
  have hmeters : meterOf (l.bill (.restart h)).meters app =
      (meterOf l.meters app).asStored.asCounted := by
    show meterOf ((l.meters.map fun _ => UsageMeters.asStored).map
      fun _ => UsageMeters.asCounted) app = _
    rw [meterOf, ExtTreeMap.getElem?_map, ExtTreeMap.getElem?_map, meterOf]
    cases l.meters[app]? with
    | none => rfl
    | some meter => rfl
  rw [Ledger.counted, hmeters]
  exact count_asCounted_asStored _ c

/-- **A step is sound exactly where its totals fit.** -/
theorem sound_iff {totals : Meter → ℕ} (ht : ∀ c, l.counted app c = totals c) (e : BillingMove) :
    Sound app l e ↔ Bounded app l totals e := by
  obtain rfl : l.counted app = totals := funext ht
  cases e with
  | host h => exact ⟨fun _ => trivial, fun _ => ⟨trivial, Nat.le_refl _, Nat.le_refl _⟩⟩
  | pass nowMs taken requestsOpen =>
    have hheld := @heldFits_passInputs app l nowMs taken requestsOpen
    simp only [Sound, counted_pass, Unwrapped, Bounded]
    split_ifs with hcounts
    · simp only [count_gains hheld]
      constructor
      · rintro ⟨hfits, -⟩
        exact (hfits hcounts).2
      · intro hfits
        refine ⟨fun _ => ⟨hheld, hfits⟩, ?_, ?_⟩
        · rw [Nat.mod_eq_of_lt (hfits _)]
          exact Nat.le_add_right _ _
        · rw [Nat.mod_eq_of_lt (hfits _)]
          exact Nat.le_add_right _ _
    · rw [Nat.le_zero, Nat.le_zero]
      exact and_iff_right fun hc => absurd hc hcounts
  | measure replies =>
    by_cases hnone : app ∈ l.heldApps → (replies app).busyTicks = none
    · -- the guest is not asked, or says nothing
      have hsame := @counted_measure_same app l replies hnone
      refine iff_of_true ⟨?_, (hsame _).ge, (hsame _).ge⟩ ?_
      · intro hheld measured hmeasured
        rw [GuestReplies.reading, hnone hheld] at hmeasured
        cases hmeasured
      · intro hheld ticks hticks
        rw [hnone hheld] at hticks
        cases hticks
    · obtain ⟨hheld, hanswers⟩ := Classical.not_imp.mp hnone
      obtain ⟨ticks, hticks⟩ := Option.ne_none_iff_exists'.mp hanswers
      have hread : (replies app).reading.compute = some ⟨ticks⟩ := by
        rw [GuestReplies.reading, hticks]
        rfl
      have hfits := @fits_cpuGains_iff app l ticks (l.counted app .cpuMs)
      constructor
      · rintro ⟨hunwrapped, -⟩ _ ticks' hticks'
        obtain rfl : ticks = ticks' := Option.some.inj (hticks.symm.trans hticks')
        exact hfits.mp (hunwrapped hheld _ hread)
      · intro hbounded
        have hgain := hfits.mpr (hbounded hheld ticks hticks)
        refine ⟨?_, ?_, ?_⟩
        · intro _ measured hmeasured
          obtain rfl : ⟨ticks⟩ = measured := Option.some.inj (hread.symm.trans hmeasured)
          exact hgain
        · rw [counted_measure_some hticks hheld, if_pos rfl,
            Nat.mod_eq_of_lt (hbounded hheld ticks hticks)]
          exact Nat.le_add_right _ _
        · rw [counted_measure_some hticks hheld, if_neg (by decide)]
  | restart h =>
    simp only [Sound, counted_restart, Unwrapped, Bounded, true_and]
    omega

/-- A step whose totals fit counts them. -/
theorem counted_bill {totals : Meter → ℕ} (ht : ∀ c, l.counted app c = totals c)
    {e : BillingMove} (hb : Bounded app l totals e) (c : Meter) :
    (l.bill e).counted app c = totalled app l totals e c := by
  obtain rfl : l.counted app = totals := funext ht
  cases e with
  | host h => rfl
  | pass nowMs taken requestsOpen =>
    rw [counted_pass, totalled]
    simp only [Bounded] at hb
    split_ifs at hb ⊢ with hcounts
    · exact Nat.mod_eq_of_lt (hb c)
    · rfl
  | measure replies =>
    cases hticks : (replies app).busyTicks with
    | none =>
      rw [totalled, hticks]
      exact counted_measure_same (fun _ => hticks) c
    | some ticks =>
      rw [totalled, hticks]
      dsimp only
      split_ifs with hheld
      · rw [counted_measure_some hticks hheld, Function.update_apply]
        split_ifs with hc
        · rw [hc]
          exact Nat.mod_eq_of_lt (hb hheld ticks hticks)
        · rfl
      · exact counted_measure_same (fun h => absurd h hheld) c
  | restart h => exact counted_restart h c

/-! ### Runs -/

/-- The ledger, and the totals of what it read of the app. -/
structure Billed where
  ledger : Ledger
  totals : Meter → ℕ

namespace Billed

def step (app : AppId) (s : Billed) (e : BillingMove) : Billed :=
  ⟨s.ledger.bill e, totalled app s.ledger s.totals e⟩

def StepBounded (app : AppId) (s : Billed) (e : BillingMove) : Prop :=
  Bounded app s.ledger s.totals e

end Billed

/-- **No guest wraps its host's meters exactly where the totals fit.** From any ledger and over any
sequence of passes, replies and restarts, every product and sum taken for the app is in its type and
what it has used of the processor and the disk never falls, if and only if the totals of what was
read stay in theirs. -/
theorem meters_sound_iff (app : AppId) (l : Ledger) (es : List BillingMove) :
    Run.Meets Ledger.bill (Sound app) l es ↔
      Run.Meets (Billed.step app) (Billed.StepBounded app) ⟨l, l.counted app⟩ es := by
  suffices h : ∀ totals : Meter → ℕ, (∀ c, l.counted app c = totals c) →
      (Run.Meets Ledger.bill (Sound app) l es ↔
        Run.Meets (Billed.step app) (Billed.StepBounded app) ⟨l, totals⟩ es) from
    h _ fun _ => rfl
  induction es generalizing l with
  | nil => exact fun _ _ => Iff.rfl
  | cons e es ih =>
    intro totals ht
    refine (and_congr_left' (sound_iff ht e)).trans (and_congr_right fun hb => ?_)
    exact ih (l.bill e) _ (counted_bill ht hb)

/-! ### A guest that reports what it likes -/

/-- The body of a compute reply that says nothing but how many ticks were busy. -/
def ticksBody (ticks : ℕ) : List UInt8 := List.replicate 24 0 ++ Bytes.toBe 8 ticks

/-- Every guest answers so. -/
def allAnswer (ticks : ℕ) : AppId → GuestReplies := fun _ => ⟨none, some (ticksBody ticks)⟩

/-- A guest that reports no ticks and then the most a counter holds makes ten times that of them,
and what its app has used of the processor wraps. -/
theorem guest_wraps_meters :
    ¬Run.Meets Ledger.bill (Sound ⟨"app-1"⟩) (.load awakeHost .empty)
      [.measure (allAnswer 0), .measure (allAnswer (2 ^ 64 - 1))] := by
  rintro ⟨-, ⟨hunwrapped, -⟩, -⟩
  have hheld : (⟨"app-1"⟩ : AppId) ∈
      ((Ledger.load awakeHost .empty).bill (.measure (allAnswer 0))).heldApps := by
    decide +kernel
  have hread : (allAnswer (2 ^ 64 - 1) ⟨"app-1"⟩).reading.compute =
      some ⟨18446744073709551615⟩ := by
    decide +kernel
  have hticks : ((Ledger.load awakeHost .empty).bill
      (.measure (allAnswer 0))).computeTicks[(⟨"app-1"⟩ : AppId)]? = some ⟨0⟩ := by
    decide +kernel
  have hproduct := (hunwrapped hheld _ hread).1
  rw [hticks] at hproduct
  exact absurd hproduct (by decide)

end Nibrunner

import Nibrunner.Activity.Kept
import Nibrunner.Activity.Readings

/-!
# Meters against what was really used

A counter is read now and then, it may restart at zero between two readings, and a reading may
miss the app. `Gauge` keeps what the counter has really counted beside what it reads, and
`Metering` is a host with the three gauges of one app: what reached the guest, what it sent, and
the ticks its processor was busy.

* `AtMost`: in every run no meter gains more than the gauges really counted between the
  first reading and the last, and no more time than passed between the first pass and the last;
* `BytesExact`, `TicksExact`: where no counter restarted between two readings, the bytes are exactly
  that if the passes find the app with a slot and something to meter, and the processor time if
  the measurements find it with a slot and awake, from the first reading on.

What such a pass or measurement would be subtracted from is forgotten by any other:
`missed_readings_are_lost`.
-/

namespace Nibrunner

open Std

/-! ### A counter and what it has really counted -/

/-- A counter that only grows, but may restart. -/
structure Gauge where
  value : UInt64
  /-- What it has counted, restarts or not. -/
  total : ℕ
  /-- The totals at the first reading and at the latest. -/
  span : Option (ℕ × ℕ)
  /-- It has restarted since it was last read. -/
  restarted : Bool

namespace Gauge

/-- A counter nobody has read. -/
def unread (value : UInt64) : Gauge := ⟨value, 0, none, false⟩

/-- The counter reaches `value`, where it is not past it. -/
def riseTo (g : Gauge) (value : UInt64) : Gauge :=
  if g.value ≤ value then
    { g with value := value, total := g.total + (value.toNat - g.value.toNat) }
  else g

def restart (g : Gauge) : Gauge := { g with value := 0, restarted := true }

def read (g : Gauge) : Gauge :=
  { g with
    span := some (g.span.elim g.total (·.1), g.total)
    restarted := false }

/-- A reading that misses the app reads nothing. -/
def readIf (g : Gauge) (sees : Bool) : Gauge := if sees then g.read else g

/-- What was really counted between the first reading and the latest. -/
def between (g : Gauge) : ℕ := g.span.elim 0 fun span => span.2 - span.1

/-- No restart fell between the latest reading and now. -/
def Whole (g : Gauge) : Prop := g.span = none ∨ g.restarted = false

instance (g : Gauge) : Decidable g.Whole := inferInstanceAs (Decidable (_ ∨ _))

/-- `held` is what is still known of the latest reading. -/
structure Reads (g : Gauge) (held : Option UInt64) : Prop where
  ordered : ∀ first latest, g.span = some (first, latest) → first ≤ latest ∧ latest ≤ g.total
  since : ∀ r, held = some r → ∃ first latest, g.span = some (first, latest) ∧
    (g.restarted = false → r.toNat ≤ g.value.toNat ∧
      g.value.toNat - r.toNat = g.total - latest) ∧
    (g.restarted = true → g.value.toNat ≤ g.total - latest)

variable {g : Gauge} {held : Option UInt64}

theorem reads_unread (value : UInt64) : (unread value).Reads none :=
  ⟨fun _ _ h => by simp [unread] at h, fun _ h => by simp at h⟩

/-- What is forgotten is not known. -/
theorem Reads.forget (h : g.Reads held) : g.Reads none := ⟨h.ordered, fun _ hr => by simp at hr⟩

theorem Reads.riseTo (h : g.Reads held) (value : UInt64) : (g.riseTo value).Reads held := by
  rw [Gauge.riseTo]
  split
  · rename_i hle
    rw [UInt64.le_iff_toNat_le] at hle
    refine ⟨fun first latest hspan => ?_, fun r hr => ?_⟩
    · have hold := h.ordered first latest hspan
      exact ⟨hold.1, by dsimp only; omega⟩
    · obtain ⟨first, latest, hspan, hrun, hrestart⟩ := h.since r hr
      have hold := h.ordered first latest hspan
      refine ⟨first, latest, hspan, fun hno => ?_, fun hyes => ?_⟩
      · have hsame := hrun hno
        dsimp only
        omega
      · have hbound := hrestart hyes
        dsimp only
        omega
  · exact h

theorem between_riseTo (value : UInt64) : (g.riseTo value).between = g.between := by
  rw [Gauge.riseTo]
  split
  · rfl
  · rfl

theorem span_riseTo (g : Gauge) (value : UInt64) : (g.riseTo value).span = g.span := by
  rw [Gauge.riseTo]
  split
  · rfl
  · rfl

theorem Reads.restart (h : g.Reads held) : g.restart.Reads held := by
  refine ⟨h.ordered, fun r hr => ?_⟩
  obtain ⟨first, latest, hspan, -⟩ := h.since r hr
  exact ⟨first, latest, hspan, fun hno => Bool.noConfusion hno, fun _ => Nat.zero_le _⟩

theorem Reads.read (h : g.Reads held) : g.read.Reads (some g.value) := by
  refine ⟨fun first latest hspan => ?_, fun r hr => ?_⟩
  · obtain ⟨rfl, rfl⟩ := Prod.mk.inj (Option.some.inj hspan)
    refine ⟨?_, Nat.le_refl _⟩
    cases hold : g.span with
    | none => exact Nat.le_refl _
    | some span => exact (h.ordered _ _ hold).1.trans (h.ordered _ _ hold).2
  · obtain rfl := Option.some.inj hr
    exact ⟨_, _, rfl, fun _ => ⟨Nat.le_refl _, by simp [Gauge.read]⟩,
      fun hno => Bool.noConfusion hno⟩

/-- **A reading never adds more than was really counted since the one before.** -/
theorem Reads.between_read_ge (h : g.Reads held) :
    g.between + (advanced held g.value).toNat ≤ g.read.between := by
  have hread : g.read.between = g.total - g.span.elim g.total (·.1) := rfl
  rw [hread, between]
  cases hheld : held with
  | none =>
    have hzero : (advanced none g.value).toNat = 0 := rfl
    rw [hzero]
    cases hspan : g.span with
    | none => simp
    | some span =>
      have hold := h.ordered _ _ hspan
      dsimp only [Option.elim_some]
      omega
  | some r =>
    obtain ⟨first, latest, hspan, hrun, hrestart⟩ := h.since r hheld
    have hold := h.ordered first latest hspan
    have hadvanced : (advanced (some r) g.value).toNat ≤ g.total - latest := by
      rw [advanced.eq_def]
      dsimp only
      cases hre : g.restarted with
      | false =>
        obtain ⟨hle, hsame⟩ := hrun hre
        rw [if_pos (UInt64.le_iff_toNat_le.mpr hle),
          UInt64.toNat_sub_of_le _ _ (UInt64.le_iff_toNat_le.mpr hle)]
        omega
      | true =>
        have hbound := hrestart hre
        split
        · rename_i hle
          rw [UInt64.toNat_sub_of_le _ _ hle]
          omega
        · exact hbound
    rw [hspan]
    dsimp only [Option.elim_some]
    omega

/-- **A reading adds exactly what was counted since the one before**, where that is still known and
the counter has not restarted. -/
theorem Reads.between_read_eq (h : g.Reads held) (hwhole : g.Whole)
    (hknown : held = none → g.span = none) :
    g.read.between = g.between + (advanced held g.value).toNat := by
  have hread : g.read.between = g.total - g.span.elim g.total (·.1) := rfl
  rw [hread, between]
  cases hheld : held with
  | none =>
    rw [hknown hheld]
    simp [advanced.eq_def]
  | some r =>
    obtain ⟨first, latest, hspan, hrun, -⟩ := h.since r hheld
    have hold := h.ordered first latest hspan
    have hno : g.restarted = false := hwhole.resolve_left (by simp [hspan])
    obtain ⟨hle, hsame⟩ := hrun hno
    rw [advanced.eq_def]
    dsimp only
    rw [if_pos (UInt64.le_iff_toNat_le.mpr hle),
      UInt64.toNat_sub_of_le _ _ (UInt64.le_iff_toNat_le.mpr hle), hspan]
    dsimp only [Option.elim_some]
    omega

/-- What a pass adds of a reading. -/
def gain (g : Gauge) (held : Option UInt64) (sees slot : Bool) : UInt64 :=
  if sees && slot then advanced held g.value else 0

/-- What is known of the latest reading behind a pass: nothing of an app without a slot. -/
def known (g : Gauge) (held : Option UInt64) (sees slot : Bool) : Option UInt64 :=
  if slot then (if sees then some g.value else held) else none

theorem between_le_read (h : g.Reads held) : g.between ≤ g.read.between :=
  Nat.le_of_add_right_le h.between_read_ge

theorem Reads.readIf (h : g.Reads held) (sees slot : Bool) :
    (g.readIf sees).Reads (g.known held sees slot) ∧
      g.between + (g.gain held sees slot).toNat ≤ (g.readIf sees).between := by
  cases sees with
  | false => cases slot with
    | false => exact ⟨h.forget, Nat.le_refl _⟩
    | true => exact ⟨h, Nat.le_refl _⟩
  | true => cases slot with
    | false => exact ⟨h.read.forget, between_le_read h⟩
    | true => exact ⟨h.read, h.between_read_ge⟩

theorem Reads.readIf_eq (h : g.Reads held) {sees : Bool} (hwhole : sees = true → g.Whole)
    (hknown : held = none → g.span = none) :
    (g.readIf sees).between = g.between + (g.gain held sees true).toNat ∧
      (g.known held sees true = none → (g.readIf sees).span = none) := by
  cases sees with
  | false => exact ⟨rfl, hknown⟩
  | true => exact ⟨h.between_read_eq (hwhole rfl) hknown, fun hnone => by simp [known] at hnone⟩

end Gauge

/-! ### The two passes over one app -/

/-- One activity pass, nothing else moving while it is under way. -/
def Ledger.recordActivity (l : Ledger) (nowMs : ℤ) (taken : ExtTreeMap AppId AppTraffic)
    (requestsOpen : ExtTreeMap AppId ℕ) : Ledger :=
  l.store nowMs ((Watch.start l nowMs).measured nowMs l taken requestsOpen)

/-- The ticks one reading leaves to be subtracted from: none of an app that is asleep, and those
there were of one that would not answer. -/
def keepTicks (records : ExtTreeMap AppId InstanceRecord)
    (previousTicks ticks : ExtTreeMap AppId MeasuredCompute) (reading : AppId × GuestReading) :
    ExtTreeMap AppId MeasuredCompute :=
  if records[reading.1]?.any fun r => r.state = .idle then ticks
  else
    match reading.2.compute.or previousTicks[reading.1]? with
    | some kept => ticks.insert reading.1 kept
    | none => ticks

def computeTicksAfter (taken : List (AppId × GuestReading))
    (records : ExtTreeMap AppId InstanceRecord)
    (previousTicks : ExtTreeMap AppId MeasuredCompute) : ExtTreeMap AppId MeasuredCompute :=
  taken.foldl (keepTicks records previousTicks) ∅

/-- One measurement pass: every app with a slot is asked once. -/
def Ledger.takeReadings (l : Ledger) (answers : AppId → GuestReading) :
    List (AppId × GuestReading) :=
  l.heldApps.map fun app => (app, answers app)

def Ledger.measure (l : Ledger) (answers : AppId → GuestReading)
    (volumeUsage : ExtTreeMap AppId UInt64) : Ledger :=
  { l with
    meters := cpuMeteredAfter l.meters l.computeTicks (l.takeReadings answers)
    volumeUsage := volumeUsage
    computeTicks := computeTicksAfter (l.takeReadings answers) l.host.records l.computeTicks }

section Passes

variable {l : Ledger} {app : AppId}

theorem meterOf_recordActivity (nowMs : ℤ) (taken : ExtTreeMap AppId AppTraffic)
    (requestsOpen : ExtTreeMap AppId ℕ) :
    let inputs := l.meterInputs nowMs
      ((Watch.start l nowMs).measured nowMs l taken requestsOpen).traffic
    meterOf (l.recordActivity nowMs taken requestsOpen).meters app =
      if inputs.Counts app then (meterOf l.meters app).add (inputs.gains app) else .zero :=
  meterOf_meteredAfter _ _ _

theorem getElem?_appTraffic_recordActivity (nowMs : ℤ) (taken : ExtTreeMap AppId AppTraffic)
    (requestsOpen : ExtTreeMap AppId ℕ) :
    (l.recordActivity nowMs taken requestsOpen).appTraffic[app]? =
      if app ∈ l.heldApps then taken[app]?.or l.appTraffic[app]? else none :=
  getElem?_traffic_measured (Watch.start l nowMs) nowMs l taken requestsOpen app

theorem getElem?_keepTicks_of_ne {records : ExtTreeMap AppId InstanceRecord}
    {previousTicks ticks : ExtTreeMap AppId MeasuredCompute} {reading : AppId × GuestReading}
    (h : reading.1 ≠ app) :
    (keepTicks records previousTicks ticks reading)[app]? = ticks[app]? := by
  rw [keepTicks]
  split
  · rfl
  · split
    · rw [ExtTreeMap.getElem?_insert_ite, if_neg h]
    · rfl

theorem meterOf_cpuMetered_of_ne {previousTicks : ExtTreeMap AppId MeasuredCompute}
    {metered : ExtTreeMap AppId UsageMeters} {reading : AppId × GuestReading}
    (h : reading.1 ≠ app) :
    meterOf (cpuMetered previousTicks metered reading) app = meterOf metered app := by
  rw [cpuMetered]
  split
  · rfl
  · rw [meterOf, ExtTreeMap.getElem?_insert_ite, if_neg h]
    rfl

/-- What a fold over the readings makes of one app is what its own reading makes of it. -/
theorem foldl_takeReadings {β γ : Type} (f : β → AppId × GuestReading → β) (look : β → γ)
    (hother : ∀ b reading, reading.1 ≠ app → look (f b reading) = look b)
    (answers : AppId → GuestReading) (b : β)
    (hread : ∀ b', look b' = look b →
      look (f b' (app, answers app)) = look (f b (app, answers app))) :
    look ((l.takeReadings answers).foldl f b) =
      if app ∈ l.heldApps then look (f b (app, answers app)) else look b := by
  have hskip : ∀ (apps : List AppId) (b : β), app ∉ apps →
      look ((apps.map fun a => (a, answers a)).foldl f b) = look b := by
    intro apps
    induction apps with
    | nil => exact fun b _ => rfl
    | cons a apps ih =>
      intro b hnot
      rw [List.mem_cons, not_or] at hnot
      exact (ih _ hnot.2).trans (hother b (a, answers a) (Ne.symm hnot.1))
  rw [Ledger.takeReadings]
  have hnodup : l.heldApps.Nodup := ExtTreeMap.nodup_keys
  split
  · rename_i hheld
    obtain ⟨before, after, hsplit⟩ := List.append_of_mem hheld
    rw [hsplit, List.nodup_append, List.nodup_cons] at hnodup
    obtain ⟨-, ⟨hafter, -⟩, hbefore⟩ := hnodup
    have hfirst : app ∉ before := fun hin => hbefore app hin app List.mem_cons_self rfl
    rw [hsplit, List.map_append, List.foldl_append, List.map_cons, List.foldl_cons,
      hskip _ _ hafter]
    exact hread _ (hskip _ _ hfirst)
  · rename_i hheld
    exact hskip _ _ hheld

/-- What a measurement makes of the meters of one app. -/
theorem meterOf_measure (answers : AppId → GuestReading) (volumeUsage : ExtTreeMap AppId UInt64) :
    meterOf (l.measure answers volumeUsage).meters app =
      if app ∈ l.heldApps then
        (answers app).compute.elim (meterOf l.meters app) fun measured =>
          (meterOf l.meters app).add (cpuGains l.computeTicks app measured)
      else meterOf l.meters app := by
  have hown : ∀ metered, meterOf (cpuMetered l.computeTicks metered (app, answers app)) app =
      (answers app).compute.elim (meterOf metered app) fun measured =>
        (meterOf metered app).add (cpuGains l.computeTicks app measured) := by
    intro metered
    rw [cpuMetered]
    cases hcompute : (answers app).compute with
    | none => rfl
    | some measured =>
      simp only [Option.elim_some]
      rw [meterOf.eq_def (metered.insert _ _), ExtTreeMap.getElem?_insert_ite, if_pos rfl]
      rfl
  have hfold := @foldl_takeReadings l app _ _ (cpuMetered l.computeTicks)
    (meterOf · app) (fun _ _ h => meterOf_cpuMetered_of_ne h) answers l.meters
    (fun b' hb' => by rw [hown, hown, hb'])
  exact hfold.trans (by rw [hown])

theorem getElem?_computeTicks_measure (answers : AppId → GuestReading)
    (volumeUsage : ExtTreeMap AppId UInt64) :
    (l.measure answers volumeUsage).computeTicks[app]? =
      if app ∈ l.heldApps then
        if l.host.records[app]?.any fun r => r.state = .idle then none
        else (answers app).compute.or l.computeTicks[app]?
      else none := by
  have hown : ∀ ticks : ExtTreeMap AppId MeasuredCompute, ticks[app]? = none →
      (keepTicks l.host.records l.computeTicks ticks (app, answers app))[app]? =
        if l.host.records[app]?.any fun r => r.state = .idle then none
        else (answers app).compute.or l.computeTicks[app]? := by
    intro ticks hticks
    rw [keepTicks]
    split
    · exact hticks
    · cases (answers app).compute.or l.computeTicks[app]? with
      | none => exact hticks
      | some kept => exact ExtTreeMap.getElem?_insert_self
  have hempty : (∅ : ExtTreeMap AppId MeasuredCompute)[app]? = none := ExtTreeMap.getElem?_empty
  have hfold := @foldl_takeReadings l app _ _
    (keepTicks l.host.records l.computeTicks) (·[app]?)
    (fun _ _ h => getElem?_keepTicks_of_ne h) answers ∅
    (fun b' hb' => by rw [hown _ (hb'.trans hempty), hown _ hempty])
  exact hfold.trans (by rw [hown _ hempty, hempty])

end Passes

/-! ### The gauges of one app and the passes that read them -/

/-- A daemon and the gauges of one app. -/
structure Metering where
  ledger : Ledger
  clockMs : ℤ
  received : Gauge
  sent : Gauge
  /-- The ticks the guest's processor was busy. -/
  busy : Gauge
  /-- When the first activity pass was. -/
  firstPass : Option ℤ

inductive MeteringMove where
  | tick (ms : ℕ)
  /-- Another task leaves the host so. -/
  | host (h : Host)
  /-- The counters of the app's tap reach so much. -/
  | crosses (received sent : UInt64)
  /-- The ruleset is reloaded, and with it the counters restart. -/
  | reload
  | spends (ticks : UInt64)
  | reboot
  /-- An activity pass; the reading says something of the app where it `sees` it. -/
  | pass (sees : Bool) (packets : UInt64 × UInt64) (others : ExtTreeMap AppId AppTraffic)
      (requestsOpen : ExtTreeMap AppId ℕ)
  /-- A measurement pass; the app's guest answers where it `sees` it. -/
  | measure (sees : Bool) (others : AppId → GuestReading)
      (volumeUsage : ExtTreeMap AppId UInt64)

namespace Metering

/-- A daemon that has just come up over what was written down. -/
def start (h : Host) (written : WrittenDown) (clockMs : ℤ) (received sent busy : UInt64) :
    Metering where
  ledger := .load h written
  clockMs := clockMs
  received := .unread received
  sent := .unread sent
  busy := .unread busy
  firstPass := none

/-- What the firewall answers. -/
def taken (s : Metering) (app : AppId) (sees : Bool) (packets : UInt64 × UInt64)
    (others : ExtTreeMap AppId AppTraffic) : ExtTreeMap AppId AppTraffic :=
  if sees then
    others.insert app ⟨⟨packets.1, s.received.value⟩, ⟨packets.2, s.sent.value⟩⟩
  else others.erase app

/-- What the guests answer. -/
def answers (s : Metering) (app : AppId) (sees : Bool) (others : AppId → GuestReading) :
    AppId → GuestReading :=
  Function.update others app ⟨if sees then some ⟨s.busy.value⟩ else none⟩

def step (app : AppId) (s : Metering) : MeteringMove → Metering
  | .tick ms => { s with clockMs := s.clockMs + ms }
  | .host h => { s with ledger := { s.ledger with host := h } }
  | .crosses received sent =>
    { s with received := s.received.riseTo received, sent := s.sent.riseTo sent }
  | .reload => { s with received := s.received.restart, sent := s.sent.restart }
  | .spends ticks => { s with busy := s.busy.riseTo ticks }
  | .reboot => { s with busy := s.busy.restart }
  | .pass sees packets others requestsOpen =>
    { s with
      ledger :=
        s.ledger.recordActivity s.clockMs (s.taken app sees packets others) requestsOpen
      received := s.received.readIf sees
      sent := s.sent.readIf sees
      firstPass := some (s.firstPass.getD s.clockMs) }
  | .measure sees others volumeUsage =>
    { s with
      ledger := s.ledger.measure (s.answers app sees others) volumeUsage
      busy := s.busy.readIf sees }

/-- The time between the first activity pass and the latest. -/
def watchedMs (s : Metering) : ℤ := s.ledger.meteredAtMs.getD 0 - s.firstPass.getD 0

/-- The app's meters. -/
def meter (s : Metering) (app : AppId) : UsageMeters := meterOf s.ledger.meters app

/-- What the ledger holds of the readings before. -/
def heldReceived (s : Metering) (app : AppId) : Option UInt64 :=
  s.ledger.appTraffic[app]?.map (·.received.bytes)

def heldSent (s : Metering) (app : AppId) : Option UInt64 :=
  s.ledger.appTraffic[app]?.map (·.sent.bytes)

def heldBusy (s : Metering) (app : AppId) : Option UInt64 :=
  s.ledger.computeTicks[app]?.map (·.cpuBusyTicks)

/-- The app has a slot. -/
def hasSlot (s : Metering) (app : AppId) : Bool := app ∈ s.ledger.heldApps

/-- The app has a record or a volume that stores bytes. -/
def Counts (s : Metering) (app : AppId) : Prop := (s.ledger.meterInputs s.clockMs ∅).Counts app

instance (s : Metering) (app : AppId) : Decidable (s.Counts app) :=
  inferInstanceAs (Decidable ((s.ledger.meterInputs s.clockMs ∅).Counts app))

/-- What a pass adds of the time it is late by. -/
def elapsed (s : Metering) : UInt64 :=
  elapsedSince s.ledger.meteredAtMs s.clockMs activityIntervalMs

variable {app : AppId} {s : Metering}

/-! ### What a pass does to one app -/

section Pass

variable (sees : Bool) (packets : UInt64 × UInt64) (others : ExtTreeMap AppId AppTraffic)
  (requestsOpen : ExtTreeMap AppId ℕ)

theorem getElem?_taken :
    (s.taken app sees packets others)[app]? =
      if sees then some ⟨⟨packets.1, s.received.value⟩, ⟨packets.2, s.sent.value⟩⟩ else none := by
  rw [taken]
  split
  · exact ExtTreeMap.getElem?_insert_self
  · rw [ExtTreeMap.getElem?_erase_ite, if_pos rfl]

/-- What is held of one direction after a pass, where `g` is the gauge of it. -/
theorem held_pass {direction : AppTraffic → UInt64} {g : Gauge}
    (hg : direction ⟨⟨packets.1, s.received.value⟩, ⟨packets.2, s.sent.value⟩⟩ = g.value) :
    (s.step app (.pass sees packets others requestsOpen)).ledger.appTraffic[app]?.map direction =
      g.known (s.ledger.appTraffic[app]?.map direction) sees (s.hasSlot app) := by
  change (Ledger.recordActivity _ _ _ _).appTraffic[app]?.map _ = _
  rw [getElem?_appTraffic_recordActivity, getElem?_taken, Gauge.known, hasSlot]
  cases sees <;> by_cases hslot : app ∈ s.ledger.heldApps <;> simp [hslot, hg]

theorem heldReceived_pass :
    (s.step app (.pass sees packets others requestsOpen)).heldReceived app =
      s.received.known (s.heldReceived app) sees (s.hasSlot app) :=
  held_pass sees packets others requestsOpen rfl

theorem heldSent_pass :
    (s.step app (.pass sees packets others requestsOpen)).heldSent app =
      s.sent.known (s.heldSent app) sees (s.hasSlot app) :=
  held_pass sees packets others requestsOpen rfl

/-- Reading what is held once more is reading nothing. -/
theorem advanced_self (held : Option UInt64) : held.elim 0 (advanced held) = 0 := by
  cases held with
  | none => rfl
  | some r => simp [advanced.eq_def]

/-- What a pass adds to the meters of the app. -/
def gains (s : Metering) (app : AppId) (sees : Bool) (packets : UInt64 × UInt64)
    (others : ExtTreeMap AppId AppTraffic) (requestsOpen : ExtTreeMap AppId ℕ) : UsageMeters :=
  (s.ledger.meterInputs s.clockMs
    ((Watch.start s.ledger s.clockMs).measured s.clockMs s.ledger
      (s.taken app sees packets others) requestsOpen).traffic).gains app

theorem meter_pass :
    (s.step app (.pass sees packets others requestsOpen)).meter app =
      if (s.ledger.meterInputs s.clockMs ∅).Counts app then
        (s.meter app).add (s.gains app sees packets others requestsOpen)
      else .zero :=
  meterOf_recordActivity _ _ _

theorem getElem?_traffic_pass :
    ((Watch.start s.ledger s.clockMs).measured s.clockMs s.ledger
      (s.taken app sees packets others) requestsOpen).traffic[app]? =
        if s.hasSlot app then
          if sees then some ⟨⟨packets.1, s.received.value⟩, ⟨packets.2, s.sent.value⟩⟩
          else s.ledger.appTraffic[app]?
        else none := by
  rw [getElem?_traffic_measured, getElem?_taken, hasSlot]
  change (if app ∈ s.ledger.heldApps then _ else _) = _
  cases sees <;> by_cases hslot : app ∈ s.ledger.heldApps <;> simp [hslot]

/-- What a pass adds of one direction, where `g` is the gauge of it. -/
theorem bytes_gains {direction : AppTraffic → UInt64} {g : Gauge}
    (hg : direction ⟨⟨packets.1, s.received.value⟩, ⟨packets.2, s.sent.value⟩⟩ = g.value) :
    (((Watch.start s.ledger s.clockMs).measured s.clockMs s.ledger
        (s.taken app sees packets others) requestsOpen).traffic[app]?.elim 0 fun after =>
          advanced (s.ledger.appTraffic[app]?.map direction) (direction after)) =
      g.gain (s.ledger.appTraffic[app]?.map direction) sees (s.hasSlot app) := by
  rw [getElem?_traffic_pass, Gauge.gain, ← hg]
  have hself := advanced_self (s.ledger.appTraffic[app]?.map direction)
  rw [Option.elim_map] at hself
  cases s.hasSlot app <;> cases sees
  · rfl
  · rfl
  · exact hself
  · rfl

theorem rxBytes_gains :
    (s.gains app sees packets others requestsOpen).rxBytes =
      s.received.gain (s.heldReceived app) sees (s.hasSlot app) :=
  bytes_gains sees packets others requestsOpen rfl

theorem txBytes_gains :
    (s.gains app sees packets others requestsOpen).txBytes =
      s.sent.gain (s.heldSent app) sees (s.hasSlot app) :=
  bytes_gains sees packets others requestsOpen rfl

/-- A pass has an app running or asleep, and never both. -/
theorem time_gains :
    (s.gains app sees packets others requestsOpen).runningMs.toNat +
      (s.gains app sees packets others requestsOpen).idleMs.toNat ≤ s.elapsed.toNat := by
  have hrunning : (s.gains app sees packets others requestsOpen).runningMs =
      if (s.ledger.host.records[app]?.map (·.state)).any (· ∈ holdsMemory) then s.elapsed
      else 0 := rfl
  have hidle : (s.gains app sees packets others requestsOpen).idleMs =
      if s.ledger.host.records[app]?.map (·.state) = some .idle then s.elapsed else 0 := rfl
  have hzero : (0 : UInt64).toNat = 0 := rfl
  rw [hrunning, hidle]
  by_cases hstate : s.ledger.host.records[app]?.map (·.state) = some .idle
  · have hnot : ((some InstanceState.idle).any (· ∈ holdsMemory)) = false := by decide
    rw [hstate, if_neg (by simp [hnot]), if_pos rfl]
    omega
  · rw [if_neg hstate]
    split
    · omega
    · omega

end Pass

/-! ### What a measurement does to one app -/

section Measure

variable (sees : Bool) (others : AppId → GuestReading) (volumeUsage : ExtTreeMap AppId UInt64)

/-- The app's record is that of an app asleep. -/
def isAsleep (s : Metering) (app : AppId) : Bool :=
  s.ledger.host.records[app]?.any fun r => r.state = .idle

theorem meter_measure :
    (s.step app (.measure sees others volumeUsage)).meter app =
      (s.meter app).add { UsageMeters.zero with
        cpuMs := s.busy.gain (s.heldBusy app) sees (s.hasSlot app) * millisPerTick } := by
  have hzero (m : UsageMeters) :
      m.add { UsageMeters.zero with cpuMs := 0 * millisPerTick } = m := by
    simp [UsageMeters.add, UsageMeters.zero]
  refine (meterOf_measure _ _).trans ?_
  rw [answers, Function.update_self, Gauge.gain, hasSlot]
  by_cases hslot : app ∈ s.ledger.heldApps <;> cases sees
  · simp only [hslot, if_true, decide_true]
    exact (hzero _).symm
  · simp only [hslot, if_true, decide_true]
    rfl
  · simp only [hslot, if_false, decide_false]
    exact (hzero _).symm
  · simp only [hslot, if_false, decide_false]
    exact (hzero _).symm

theorem heldBusy_measure :
    (s.step app (.measure sees others volumeUsage)).heldBusy app =
      s.busy.known (s.heldBusy app) sees (s.hasSlot app && !s.isAsleep app) := by
  change (Ledger.measure _ _ _).computeTicks[app]?.map _ = _
  rw [getElem?_computeTicks_measure, answers, Function.update_self, Gauge.known, hasSlot]
  have hasleep : (s.ledger.host.records[app]?.any fun r => r.state = .idle) = s.isAsleep app := rfl
  rw [hasleep]
  by_cases hslot : app ∈ s.ledger.heldApps <;> cases s.isAsleep app <;> cases sees <;>
    simp [hslot, heldBusy]

end Measure

/-! ### Never more than was used -/

/-- The meters have gained no more than the gauges counted between their readings, and no more
time than passed between the passes. -/
structure AtMost (before : UsageMeters) (app : AppId) (s : Metering) : Prop where
  received : s.received.Reads (s.heldReceived app)
  sent : s.sent.Reads (s.heldSent app)
  busy : s.busy.Reads (s.heldBusy app)
  rxBytes : (s.meter app).rxBytes.toNat ≤ before.rxBytes.toNat + s.received.between
  txBytes : (s.meter app).txBytes.toNat ≤ before.txBytes.toNat + s.sent.between
  cpuMs : (s.meter app).cpuMs.toNat ≤ before.cpuMs.toNat + s.busy.between * millisPerTick.toNat
  passes : s.firstPass = none ↔ s.ledger.meteredAtMs = none
  past : ∀ latest, s.ledger.meteredAtMs = some latest → latest ≤ s.clockMs
  watched : 0 ≤ s.watchedMs
  time : ((s.meter app).runningMs.toNat + (s.meter app).idleMs.toNat : ℤ) ≤
    before.runningMs.toNat + before.idleMs.toNat + s.watchedMs

theorem toNat_add_le (a b : UInt64) : (a + b).toNat ≤ a.toNat + b.toNat := by
  rw [UInt64.toNat_add]
  exact Nat.mod_le _ _

theorem toNat_mul_le (a b : UInt64) : (a * b).toNat ≤ a.toNat * b.toNat := by
  rw [UInt64.toNat_mul]
  exact Nat.mod_le _ _

/-- A pass bills no more time than passed since the one before. -/
theorem AtMost.elapsed_le {before : UsageMeters} (h : s.AtMost before app) (sees : Bool)
    (packets : UInt64 × UInt64) (others : ExtTreeMap AppId AppTraffic)
    (requestsOpen : ExtTreeMap AppId ℕ) :
    s.watchedMs + s.elapsed.toNat ≤
      (s.step app (.pass sees packets others requestsOpen)).watchedMs := by
  change s.ledger.meteredAtMs.getD 0 - s.firstPass.getD 0 + s.elapsed.toNat ≤
    s.clockMs - s.firstPass.getD s.clockMs
  rw [elapsed, elapsedSince.eq_def]
  cases hlatest : s.ledger.meteredAtMs with
  | none =>
    have hzero : (0 : UInt64).toNat = 0 := rfl
    simp only [h.passes.mpr hlatest, Option.getD_none, hzero]
    omega
  | some latest =>
    obtain ⟨first, hfirst⟩ : ∃ first, s.firstPass = some first := by
      rw [← Option.ne_none_iff_exists', ne_eq, h.passes, hlatest]
      exact Option.some_ne_none latest
    have hpast := h.past latest hlatest
    have hmod := Nat.mod_le
      (min (s.clockMs - latest).toNat (activityIntervalMs * latePassAllowance)) (2 ^ 64)
    simp only [hfirst, Option.getD_some, UInt64.toNat_ofNat']
    omega

theorem AtMost.pass {before : UsageMeters} (h : s.AtMost before app) (sees : Bool)
    (packets : UInt64 × UInt64) (others : ExtTreeMap AppId AppTraffic)
    (requestsOpen : ExtTreeMap AppId ℕ) :
    (s.step app (.pass sees packets others requestsOpen)).AtMost before app := by
  obtain ⟨hreceived, hrx⟩ := h.received.readIf sees (s.hasSlot app)
  obtain ⟨hsent, htx⟩ := h.sent.readIf sees (s.hasSlot app)
  rw [← rxBytes_gains sees packets others requestsOpen] at hrx
  rw [← txBytes_gains sees packets others requestsOpen] at htx
  rw [← heldReceived_pass sees packets others requestsOpen] at hreceived
  rw [← heldSent_pass sees packets others requestsOpen] at hsent
  have hmeter := @meter_pass app s sees packets others requestsOpen
  have htime := @time_gains app s sees packets others requestsOpen
  have helapsed := h.elapsed_le sees packets others requestsOpen
  have hcpu : (s.gains app sees packets others requestsOpen).cpuMs.toNat = 0 := rfl
  have hwatched := h.watched
  have hbefore := h.time
  generalize s.gains app sees packets others requestsOpen = gains at hmeter htime hrx htx hcpu
  -- the meter is added to, or dropped with everything on it
  have hadd : ((s.step app (.pass sees packets others requestsOpen)).meter app).rxBytes.toNat ≤
        (s.meter app).rxBytes.toNat + gains.rxBytes.toNat ∧
      ((s.step app (.pass sees packets others requestsOpen)).meter app).txBytes.toNat ≤
        (s.meter app).txBytes.toNat + gains.txBytes.toNat ∧
      ((s.step app (.pass sees packets others requestsOpen)).meter app).cpuMs.toNat ≤
        (s.meter app).cpuMs.toNat + gains.cpuMs.toNat ∧
      ((s.step app (.pass sees packets others requestsOpen)).meter app).runningMs.toNat ≤
        (s.meter app).runningMs.toNat + gains.runningMs.toNat ∧
      ((s.step app (.pass sees packets others requestsOpen)).meter app).idleMs.toNat ≤
        (s.meter app).idleMs.toNat + gains.idleMs.toNat := by
    rw [hmeter]
    split
    · exact ⟨toNat_add_le _ _, toNat_add_le _ _, toNat_add_le _ _, toNat_add_le _ _,
        toNat_add_le _ _⟩
    · have hzero : (0 : UInt64).toNat = 0 := rfl
      simp [UsageMeters.zero, hzero]
  obtain ⟨hrx', htx', hcpu', hrunning', hidle'⟩ := hadd
  refine ⟨hreceived, hsent, h.busy, ?_, ?_, ?_, ?_, ?_, ?_, ?_⟩
  · have hold := h.rxBytes
    exact hrx'.trans (by
      change _ ≤ before.rxBytes.toNat + (s.received.readIf sees).between
      omega)
  · have hold := h.txBytes
    exact htx'.trans (by
      change _ ≤ before.txBytes.toNat + (s.sent.readIf sees).between
      omega)
  · have hold := h.cpuMs
    exact hcpu'.trans (by rw [hcpu]; exact hold)
  · exact iff_of_false (Option.some_ne_none _) (Option.some_ne_none _)
  · intro latest hlatest
    cases hlatest
    exact Int.le_refl _
  · omega
  · omega

theorem AtMost.measure {before : UsageMeters} (h : s.AtMost before app) (sees : Bool)
    (others : AppId → GuestReading) (volumeUsage : ExtTreeMap AppId UInt64) :
    (s.step app (.measure sees others volumeUsage)).AtMost before app := by
  obtain ⟨-, hcpu⟩ := h.busy.readIf sees (s.hasSlot app)
  obtain ⟨hbusy, -⟩ := h.busy.readIf sees (s.hasSlot app && !s.isAsleep app)
  rw [← heldBusy_measure sees others volumeUsage] at hbusy
  have hmeter := @meter_measure app s sees others volumeUsage
  have hadd := toNat_add_le (s.meter app).cpuMs
    (s.busy.gain (s.heldBusy app) sees (s.hasSlot app) * millisPerTick)
  have hmul := toNat_mul_le (s.busy.gain (s.heldBusy app) sees (s.hasSlot app)) millisPerTick
  have hscaled := Nat.mul_le_mul_right millisPerTick.toNat hcpu
  have hold := h.cpuMs
  refine ⟨h.received, h.sent, hbusy, ?_, ?_, ?_, h.passes, h.past, h.watched, ?_⟩
  · rw [hmeter, UsageMeters.add, UsageMeters.zero]
    change _ ≤ before.rxBytes.toNat + s.received.between
    simpa using h.rxBytes
  · rw [hmeter, UsageMeters.add, UsageMeters.zero]
    change _ ≤ before.txBytes.toNat + s.sent.between
    simpa using h.txBytes
  · rw [hmeter]
    refine hadd.trans ?_
    change _ ≤ before.cpuMs.toNat + (s.busy.readIf sees).between * millisPerTick.toNat
    rw [Nat.add_mul] at hscaled
    omega
  · rw [hmeter, UsageMeters.add, UsageMeters.zero]
    change _ ≤ (before.runningMs.toNat + before.idleMs.toNat : ℤ) + s.watchedMs
    simpa using h.time

/-- **No step takes a meter past what was used.** -/
theorem AtMost.step {before : UsageMeters} (h : s.AtMost before app) (e : MeteringMove) :
    (s.step app e).AtMost before app := by
  cases e with
  | tick ms =>
    refine ⟨h.received, h.sent, h.busy, h.rxBytes, h.txBytes, h.cpuMs, h.passes, ?_, h.watched,
      h.time⟩
    intro latest hlatest
    have hpast := h.past latest hlatest
    change latest ≤ s.clockMs + ms
    omega
  | host host =>
    exact ⟨h.received, h.sent, h.busy, h.rxBytes, h.txBytes, h.cpuMs, h.passes, h.past,
      h.watched, h.time⟩
  | crosses received sent =>
    refine ⟨h.received.riseTo received, h.sent.riseTo sent, h.busy, ?_, ?_, h.cpuMs, h.passes,
      h.past, h.watched, h.time⟩
    · exact h.rxBytes.trans_eq (by simp [Metering.step, Gauge.between_riseTo])
    · exact h.txBytes.trans_eq (by simp [Metering.step, Gauge.between_riseTo])
  | reload =>
    exact ⟨h.received.restart, h.sent.restart, h.busy, h.rxBytes, h.txBytes, h.cpuMs, h.passes,
      h.past, h.watched, h.time⟩
  | spends ticks =>
    refine ⟨h.received, h.sent, h.busy.riseTo ticks, h.rxBytes, h.txBytes, ?_, h.passes,
      h.past, h.watched, h.time⟩
    exact h.cpuMs.trans_eq (by simp [Metering.step, Gauge.between_riseTo])
  | reboot =>
    exact ⟨h.received, h.sent, h.busy.restart, h.rxBytes, h.txBytes, h.cpuMs, h.passes, h.past,
      h.watched, h.time⟩
  | pass sees packets others requestsOpen => exact h.pass sees packets others requestsOpen
  | measure sees others volumeUsage => exact h.measure sees others volumeUsage

theorem atMost_start (host : Host) (written : WrittenDown) (clockMs : ℤ)
    (received sent busy : UInt64) :
    (start host written clockMs received sent busy).AtMost (meterOf written.meters app) app where
  received := Gauge.reads_unread received
  sent := Gauge.reads_unread sent
  busy := Gauge.reads_unread busy
  rxBytes := Nat.le_refl _
  txBytes := Nat.le_refl _
  cpuMs := by simp [start, Gauge.between, Gauge.unread, meter, Ledger.load]
  passes := Iff.rfl.trans (by simp [start, Ledger.load])
  past := by simp [start, Ledger.load]
  watched := Int.le_refl _
  time := by simp [start, watchedMs, meter, Ledger.load]

/-! ### Exactly what was used -/

/-- A pass drops nothing from the app's meters: it holds something of the app, or they are zero. -/
def KeepsMeters (app : AppId) (s : Metering) : Prop := s.Counts app ∨ s.meter app = .zero

instance (app : AppId) (s : Metering) : Decidable (s.KeepsMeters app) :=
  inferInstanceAs (Decidable (_ ∨ _))

/-- A pass loses no bytes of the app: it finds it with a slot and with something to meter, and
counters it reads have not restarted since they were last read; or nothing was read of it so far. -/
def BytesFollowed (app : AppId) (s : Metering) : MeteringMove → Prop
  | .pass sees _ _ _ =>
    (s.Counts app ∧ s.hasSlot app = true ∧ (sees = true → s.received.Whole ∧ s.sent.Whole)) ∨
      (s.KeepsMeters app ∧ sees = false ∧ s.received.span = none ∧ s.sent.span = none)
  | _ => True

/-- Neither a pass nor a measurement loses ticks of the app: the pass keeps its meters, and the
measurement finds it with a slot and not asleep, and a counter it reads has not restarted since it
was last read; or no guest of it answered so far. -/
def TicksFollowed (app : AppId) (s : Metering) : MeteringMove → Prop
  | .pass _ _ _ _ => s.KeepsMeters app
  | .measure sees _ _ =>
    (s.hasSlot app = true ∧ s.isAsleep app = false ∧ (sees = true → s.busy.Whole)) ∨
      (sees = false ∧ s.busy.span = none)
  | _ => True

instance (app : AppId) (s : Metering) : (e : MeteringMove) → Decidable (s.BytesFollowed app e)
  | .pass _ _ _ _ => inferInstanceAs (Decidable (_ ∨ _))
  | .measure _ _ _ | .tick _ | .host _ | .crosses _ _ | .reload | .spends _ | .reboot =>
    inferInstanceAs (Decidable True)

instance (app : AppId) (s : Metering) : (e : MeteringMove) → Decidable (s.TicksFollowed app e)
  | .pass _ _ _ _ => inferInstanceAs (Decidable (s.KeepsMeters app))
  | .measure _ _ _ => inferInstanceAs (Decidable (_ ∨ _))
  | .tick _ | .host _ | .crosses _ _ | .reload | .spends _ | .reboot =>
    inferInstanceAs (Decidable True)

/-- The meters have gained exactly the bytes the gauges counted between their readings, in unsigned
64-bit arithmetic. -/
structure BytesExact (before : UsageMeters) (app : AppId) (s : Metering) : Prop where
  atMost : s.AtMost before app
  rxBytes : (s.meter app).rxBytes = before.rxBytes + UInt64.ofNat s.received.between
  txBytes : (s.meter app).txBytes = before.txBytes + UInt64.ofNat s.sent.between
  received : s.heldReceived app = none → s.received.span = none
  sent : s.heldSent app = none → s.sent.span = none

/-- The meters have gained exactly the processor time of the ticks counted between the readings. -/
structure TicksExact (before : UsageMeters) (app : AppId) (s : Metering) : Prop where
  atMost : s.AtMost before app
  cpuMs : (s.meter app).cpuMs = before.cpuMs + UInt64.ofNat s.busy.between * millisPerTick
  busy : s.heldBusy app = none → s.busy.span = none

theorem ofNat_add_toNat (n : ℕ) (a : UInt64) : UInt64.ofNat (n + a.toNat) = UInt64.ofNat n + a := by
  rw [UInt64.ofNat_add, UInt64.ofNat_toNat]

/-- A pass that keeps the meters adds what it gains, and where it does not count the app it gains
nothing. -/
theorem meter_pass_of_keeps {sees : Bool} {packets : UInt64 × UInt64}
    {others : ExtTreeMap AppId AppTraffic} {requestsOpen : ExtTreeMap AppId ℕ}
    (hkeeps : s.KeepsMeters app) :
    (s.step app (.pass sees packets others requestsOpen)).meter app =
        (s.meter app).add (s.gains app sees packets others requestsOpen) ∨
      (s.step app (.pass sees packets others requestsOpen)).meter app = s.meter app := by
  have hmeter := @meter_pass app s sees packets others requestsOpen
  by_cases hcounts : s.Counts app
  · exact .inl (hmeter.trans (if_pos hcounts))
  · exact .inr ((hmeter.trans (if_neg hcounts)).trans (hkeeps.resolve_left hcounts).symm)

/-- A pass that sees nothing of the app adds no bytes to its meters. -/
theorem bytes_pass_unseen {packets : UInt64 × UInt64} {others : ExtTreeMap AppId AppTraffic}
    {requestsOpen : ExtTreeMap AppId ℕ} (hkeeps : s.KeepsMeters app) :
    ((s.step app (.pass false packets others requestsOpen)).meter app).rxBytes =
        (s.meter app).rxBytes ∧
      ((s.step app (.pass false packets others requestsOpen)).meter app).txBytes =
        (s.meter app).txBytes := by
  have hrx := @rxBytes_gains app s false packets others requestsOpen
  have htx := @txBytes_gains app s false packets others requestsOpen
  obtain hmeter | hmeter := meter_pass_of_keeps hkeeps
  · rw [hmeter, UsageMeters.add, hrx, htx]
    exact ⟨UInt64.add_zero _, UInt64.add_zero _⟩
  · rw [hmeter]
    exact ⟨rfl, rfl⟩

theorem BytesExact.pass {before : UsageMeters} (h : s.BytesExact before app) {sees : Bool}
    {packets : UInt64 × UInt64} {others : ExtTreeMap AppId AppTraffic}
    {requestsOpen : ExtTreeMap AppId ℕ}
    (hfollowed : s.BytesFollowed app (.pass sees packets others requestsOpen)) :
    (s.step app (.pass sees packets others requestsOpen)).BytesExact before app := by
  have hatMost := h.atMost.pass sees packets others requestsOpen
  obtain ⟨hcounts, hslot, hwhole⟩ | ⟨hkeeps, rfl, hnoReceived, hnoSent⟩ := hfollowed
  · obtain ⟨hreceived, hknownReceived⟩ :=
      h.atMost.received.readIf_eq (fun hsees => (hwhole hsees).1) h.received
    obtain ⟨hsent, hknownSent⟩ :=
      h.atMost.sent.readIf_eq (fun hsees => (hwhole hsees).2) h.sent
    have hmeter := (@meter_pass app s sees packets others requestsOpen).trans (if_pos hcounts)
    refine ⟨hatMost, ?_, ?_, ?_, ?_⟩
    · rw [hmeter, UsageMeters.add, rxBytes_gains, hslot, h.rxBytes, UInt64.add_assoc,
        ← ofNat_add_toNat, ← hreceived]
      rfl
    · rw [hmeter, UsageMeters.add, txBytes_gains, hslot, h.txBytes, UInt64.add_assoc,
        ← ofNat_add_toNat, ← hsent]
      rfl
    · rw [heldReceived_pass, hslot]
      exact hknownReceived
    · rw [heldSent_pass, hslot]
      exact hknownSent
  · obtain ⟨hrx, htx⟩ := @bytes_pass_unseen app s packets others requestsOpen hkeeps
    exact ⟨hatMost, hrx.trans h.rxBytes, htx.trans h.txBytes, fun _ => hnoReceived,
      fun _ => hnoSent⟩

/-- **A step that follows the app's bytes adds exactly those that crossed.** -/
theorem BytesExact.step {before : UsageMeters} (h : s.BytesExact before app) {e : MeteringMove}
    (hfollowed : s.BytesFollowed app e) : (s.step app e).BytesExact before app := by
  have hatMost := h.atMost.step e
  cases e with
  | tick ms | host host => exact ⟨hatMost, h.rxBytes, h.txBytes, h.received, h.sent⟩
  | crosses received sent =>
    refine ⟨hatMost, ?_, ?_, fun hnone => ?_, fun hnone => ?_⟩
    · exact h.rxBytes.trans (by simp [Metering.step, Gauge.between_riseTo])
    · exact h.txBytes.trans (by simp [Metering.step, Gauge.between_riseTo])
    · exact (s.received.span_riseTo received).trans (h.received hnone)
    · exact (s.sent.span_riseTo sent).trans (h.sent hnone)
  | reload | spends ticks | reboot => exact ⟨hatMost, h.rxBytes, h.txBytes, h.received, h.sent⟩
  | pass sees packets others requestsOpen => exact h.pass hfollowed
  | measure sees others volumeUsage =>
    -- a measurement adds to the processor's meter alone
    have hmeter := @meter_measure app s sees others volumeUsage
    refine ⟨hatMost, ?_, ?_, h.received, h.sent⟩
    · rw [hmeter, UsageMeters.add, UsageMeters.zero]
      exact (UInt64.add_zero _).trans h.rxBytes
    · rw [hmeter, UsageMeters.add, UsageMeters.zero]
      exact (UInt64.add_zero _).trans h.txBytes

theorem TicksExact.measure {before : UsageMeters} (h : s.TicksExact before app) {sees : Bool}
    {others : AppId → GuestReading} {volumeUsage : ExtTreeMap AppId UInt64}
    (hfollowed : s.TicksFollowed app (.measure sees others volumeUsage)) :
    (s.step app (.measure sees others volumeUsage)).TicksExact before app := by
  have hatMost := h.atMost.measure sees others volumeUsage
  have hmeter := @meter_measure app s sees others volumeUsage
  obtain ⟨hslot, hawake, hwhole⟩ | ⟨rfl, hnone⟩ := hfollowed
  · obtain ⟨hbusy, hknown⟩ := h.atMost.busy.readIf_eq hwhole h.busy
    refine ⟨hatMost, ?_, ?_⟩
    · rw [hmeter, UsageMeters.add, hslot, h.cpuMs, UInt64.add_assoc, ← UInt64.add_mul,
        ← ofNat_add_toNat, ← hbusy]
      rfl
    · rw [heldBusy_measure, hslot, hawake]
      exact hknown
  · refine ⟨hatMost, ?_, fun _ => hnone⟩
    have hgain : s.busy.gain (s.heldBusy app) false (s.hasSlot app) * millisPerTick = 0 :=
      UInt64.zero_mul
    rw [hmeter, hgain, UsageMeters.add]
    exact (UInt64.add_zero _).trans h.cpuMs

/-- **A step that follows the app's ticks adds exactly the processor time spent.** -/
theorem TicksExact.step {before : UsageMeters} (h : s.TicksExact before app) {e : MeteringMove}
    (hfollowed : s.TicksFollowed app e) : (s.step app e).TicksExact before app := by
  have hatMost := h.atMost.step e
  cases e with
  | tick ms | host host | crosses received sent | reload => exact ⟨hatMost, h.cpuMs, h.busy⟩
  | spends ticks =>
    refine ⟨hatMost, ?_, fun hnone => ?_⟩
    · exact h.cpuMs.trans (by simp [Metering.step, Gauge.between_riseTo])
    · exact (s.busy.span_riseTo ticks).trans (h.busy hnone)
  | reboot => exact ⟨hatMost, h.cpuMs, h.busy⟩
  | pass sees packets others requestsOpen =>
    refine ⟨hatMost, ?_, h.busy⟩
    obtain hmeter | hmeter :=
      @meter_pass_of_keeps app s sees packets others requestsOpen hfollowed
    · rw [hmeter, UsageMeters.add, show (s.gains app sees packets others requestsOpen).cpuMs = 0
        from rfl, UInt64.add_zero]
      exact h.cpuMs
    · rw [hmeter]
      exact h.cpuMs
  | measure sees others volumeUsage => exact h.measure hfollowed

section Start

variable (host : Host) (written : WrittenDown) (clockMs : ℤ) (received sent busy : UInt64)

theorem bytesExact_start :
    (start host written clockMs received sent busy).BytesExact
      (meterOf written.meters app) app where
  atMost := atMost_start host written clockMs received sent busy
  rxBytes := (UInt64.add_zero _).symm
  txBytes := (UInt64.add_zero _).symm
  received _ := rfl
  sent _ := rfl

theorem ticksExact_start :
    (start host written clockMs received sent busy).TicksExact
      (meterOf written.meters app) app where
  atMost := atMost_start host written clockMs received sent busy
  cpuMs := by
    have hzero : UInt64.ofNat 0 * millisPerTick = 0 := rfl
    exact ((congrArg _ hzero).trans (UInt64.add_zero _)).symm
  busy _ := rfl

/-- **Metering never counts more than was used**, and counts all of it of an app that is followed.
Over every history of the counters, every choice of the passes and of what they see, and every
clock that does not go back, from a daemon that has just come up:

* the received and sent bytes and the processor time the meters gain are at most what was really
  counted between the first reading and the latest, and the time at most that between the first
  pass and the latest;
* where every pass follows the app's bytes they are equal, as 64-bit counters, whatever the
  measurements find;
* where every measurement follows its ticks, and no pass drops its meters, so is the processor
  time, whatever the passes read. -/
theorem metered_totals (app : AppId) (es : List MeteringMove) :
    let s := Run.run (step app) (start host written clockMs received sent busy) es
    let before := meterOf written.meters app
    (s.meter app).rxBytes.toNat ≤ before.rxBytes.toNat + s.received.between ∧
      (s.meter app).txBytes.toNat ≤ before.txBytes.toNat + s.sent.between ∧
      (s.meter app).cpuMs.toNat ≤ before.cpuMs.toNat + s.busy.between * millisPerTick.toNat ∧
      ((s.meter app).runningMs.toNat + (s.meter app).idleMs.toNat : ℤ) ≤
        before.runningMs.toNat + before.idleMs.toNat + s.watchedMs ∧
      (Run.Meets (step app) (BytesFollowed app)
          (start host written clockMs received sent busy) es →
        (s.meter app).rxBytes = before.rxBytes + UInt64.ofNat s.received.between ∧
        (s.meter app).txBytes = before.txBytes + UInt64.ofNat s.sent.between) ∧
      (Run.Meets (step app) (TicksFollowed app)
          (start host written clockMs received sent busy) es →
        (s.meter app).cpuMs =
          before.cpuMs + UInt64.ofNat s.busy.between * millisPerTick) := by
  intro s before
  have hatMost : s.AtMost before app :=
    Run.invariant (fun _ e h => h.step e) (atMost_start host written clockMs received sent busy) es
  refine ⟨hatMost.rxBytes, hatMost.txBytes, hatMost.cpuMs, hatMost.time, fun hfollowed => ?_,
    fun hfollowed => ?_⟩
  · have hexact : s.BytesExact before app :=
      Run.Meets.invariant (fun _ _ h hf => h.step hf)
        (bytesExact_start host written clockMs received sent busy) hfollowed
    exact ⟨hexact.rxBytes, hexact.txBytes⟩
  · have hexact : s.TicksExact before app :=
      Run.Meets.invariant (fun _ _ h hf => h.step hf)
        (ticksExact_start host written clockMs received sent busy) hfollowed
    exact hexact.cpuMs

end Start

/-! ### Readings that are forgotten -/

/-- A daemon that has just come up over an app that is up. -/
def overAwake : Metering := start awakeHost .empty 0 0 0 0

/-- Nobody has asked for the app yet when the first pass misses it; it is booted, read, measured,
put to sleep, measured, woken and read once more. -/
def sleptBetween : List MeteringMove :=
  [.pass false (0, 0) ∅ ∅, .measure false (fun _ => ⟨none⟩) ∅, .host awakeHost,
    .pass true (0, 0) ∅ ∅, .measure true (fun _ => ⟨none⟩) ∅, .tick 5000, .crosses 700 40,
    .spends 100, .measure true (fun _ => ⟨none⟩) ∅, .host asleepHost, .pass false (0, 0) ∅ ∅,
    .measure false (fun _ => ⟨none⟩) ∅, .host awakeHost, .crosses 900 50,
    .pass true (0, 0) ∅ ∅]

/-- What crossed before the app slept and after it woke is on its meters, though a measurement
found it asleep; and so is the processor time up to that measurement. -/
theorem metered_totals_sleptBetween :
    ((Run.run (step ⟨"app-1"⟩) (start smallHost .empty 0 0 0 0) sleptBetween).meter
        ⟨"app-1"⟩).rxBytes = 900 ∧
      ((Run.run (step ⟨"app-1"⟩) (start smallHost .empty 0 0 0 0) (sleptBetween.take 11)).meter
        ⟨"app-1"⟩).cpuMs = 1000 := by
  have hbytes := (metered_totals smallHost .empty 0 0 0 0 ⟨"app-1"⟩ sleptBetween).2.2.2.2.1
    (by decide +kernel)
  have hticks := (metered_totals smallHost .empty 0 0 0 0 ⟨"app-1"⟩
    (sleptBetween.take 11)).2.2.2.2.2 (by decide +kernel)
  exact ⟨hbytes.1.trans (by decide +kernel), hticks.trans (by decide +kernel)⟩

/-- No counter that is read has restarted since it was last read. -/
def Unbroken (s : Metering) : MeteringMove → Prop
  | .pass sees _ _ _ => sees = true → s.received.Whole ∧ s.sent.Whole
  | .measure sees _ _ => sees = true → s.busy.Whole
  | _ => True

/-- The app is read, has no slot at the next pass, is given one again and is read once more. -/
def slotBetween : List MeteringMove :=
  [.pass true (0, 0) ∅ ∅, .host { awakeHost with allocator := smallHost.allocator },
    .pass false (0, 0) ∅ ∅, .host awakeHost, .crosses 700 40, .pass true (0, 0) ∅ ∅]

/-- The app is measured, sleeps through a measurement, is restored from its snapshot with the ticks
it had, spends a hundred more and is measured again. -/
def sleptThrough : List MeteringMove :=
  [.measure true (fun _ => ⟨none⟩) ∅, .host asleepHost, .measure false (fun _ => ⟨none⟩) ∅,
    .host awakeHost, .spends 100, .measure true (fun _ => ⟨none⟩) ∅]

/-- A pass that finds the app without a slot keeps no counters the next one would subtract from, and
a measurement that finds it asleep no ticks a wake would: what is counted up to the next reading is
on no meter, though no counter ever restarted. -/
theorem missed_readings_are_lost :
    (¬ ∀ (host : Host) (written : WrittenDown) (clockMs : ℤ) (received sent busy : UInt64)
        (app : AppId) (es : List MeteringMove),
        Run.Meets (step app) Unbroken (start host written clockMs received sent busy) es →
        ((Run.run (step app) (start host written clockMs received sent busy) es).meter
            app).rxBytes =
          (meterOf written.meters app).rxBytes + UInt64.ofNat
            (Run.run (step app) (start host written clockMs received sent busy)
              es).received.between) ∧
      ¬ ∀ (host : Host) (written : WrittenDown) (clockMs : ℤ) (received sent busy : UInt64)
        (app : AppId) (es : List MeteringMove),
        Run.Meets (step app) Unbroken (start host written clockMs received sent busy) es →
        ((Run.run (step app) (start host written clockMs received sent busy) es).meter app).cpuMs =
          (meterOf written.meters app).cpuMs + UInt64.ofNat
            (Run.run (step app) (start host written clockMs received sent busy) es).busy.between *
              millisPerTick := by
  constructor
  · intro h
    have hunbroken : Run.Meets (step ⟨"app-1"⟩) Unbroken overAwake slotBetween :=
      ⟨fun _ => ⟨.inl rfl, .inl rfl⟩, trivial, fun hsees => Bool.noConfusion hsees, trivial,
        trivial, fun _ => ⟨.inr rfl, .inr rfl⟩, trivial⟩
    have hequal := h awakeHost .empty 0 0 0 0 ⟨"app-1"⟩ slotBetween hunbroken
    revert hequal
    decide +kernel
  · intro h
    have hunbroken : Run.Meets (step ⟨"app-1"⟩) Unbroken overAwake sleptThrough :=
      ⟨fun _ => .inl rfl, trivial, fun hsees => Bool.noConfusion hsees, trivial, trivial,
        fun _ => .inr rfl, trivial⟩
    have hequal := h awakeHost .empty 0 0 0 0 ⟨"app-1"⟩ sleptThrough hunbroken
    revert hequal
    decide +kernel

end Metering

end Nibrunner

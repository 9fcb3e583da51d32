import Nibrunner.Activity.Ledger
import Nibrunner.Daemon.Tasks

/-!
# What is kept of an app's activity

The moments of activity are replaced whole by an activity pass, off a copy of the ledger it took
before it asked the firewall for anything. A mark that lands in between is not in the copy, and
what the pass stores puts the moment from before it back: `mark_lost_to_pass`. Likewise a mark
that read the clock before another and lands after it puts an earlier moment in its place.

Where neither happens (`MarksApart`) no moment is ever replaced by an earlier one, no mark is
lost, and an app that was marked active less than its timeout ago is not put to sleep for being
quiet: `activity_kept`.
-/

namespace Nibrunner

open Std

/-! ### What a reading makes of a moment -/

section Reading

variable {taken previousTraffic : ExtTreeMap AppId AppTraffic}
  {previousMoments previousReadings : ExtTreeMap AppId ℤ} {requestsOpen : ExtTreeMap AppId ℕ}
  {nowMs : ℤ} {app : AppId}

/-- The moment of the app is the time of the reading, or the one recorded before it. -/
def FromReading (previousMoments : ExtTreeMap AppId ℤ) (nowMs : ℤ) (app : AppId)
    (moments : ExtTreeMap AppId ℤ) : Prop :=
  ∀ moment, moments[app]? = some moment → moment = nowMs ∨ previousMoments[app]? = some moment

theorem FromReading.orInsert {moments : ExtTreeMap AppId ℤ} {other : AppId} {v : ℤ}
    (h : FromReading previousMoments nowMs app moments)
    (hv : other = app → v = nowMs ∨ previousMoments[app]? = some v) :
    FromReading previousMoments nowMs app (orInsert moments other v) := by
  intro moment hmoment
  rw [getElem?_orInsert] at hmoment
  split at hmoment
  · rename_i hother
    rw [← Option.some.inj hmoment]
    exact hv hother.1
  · exact h moment hmoment

theorem fromReading_readApp {read : Activity} {reading : AppId × AppTraffic}
    (h : FromReading previousMoments nowMs app read.lastActiveAtMs) :
    FromReading previousMoments nowMs app
      (readApp previousTraffic previousMoments nowMs read reading).lastActiveAtMs := by
  have hwritten (moved : Prop) [Decidable moved] :
      (if moved then nowMs else previousMoments[app]?.getD nowMs) = nowMs ∨
        previousMoments[app]? =
          some (if moved then nowMs else previousMoments[app]?.getD nowMs) := by
    split
    · exact .inl rfl
    · cases previousMoments[app]? with
      | none => exact .inl rfl
      | some recorded => exact .inr rfl
  intro moment hmoment
  rw [readApp, ExtTreeMap.getElem?_insert_ite] at hmoment
  split at hmoment
  · rename_i happ
    rw [happ, Option.some.injEq] at hmoment
    rw [← hmoment]
    exact hwritten _
  · exact h moment hmoment

/-- **What a reading makes of a moment**: its own time, or the moment there was. -/
theorem fromReading_activityAfter (taken previousTraffic : ExtTreeMap AppId AppTraffic)
    (previousMoments previousReadings : ExtTreeMap AppId ℤ) (requestsOpen : ExtTreeMap AppId ℕ)
    (nowMs : ℤ) (app : AppId) :
    FromReading previousMoments nowMs app
      (activityAfter taken previousTraffic previousMoments previousReadings requestsOpen
        nowMs).lastActiveAtMs := by
  -- through the counters, through the open requests, and through the moments there were
  refine List.foldlRecOn _ _ (List.foldlRecOn _ _ ?_ ?_) ?_
  · refine List.foldlRecOn (motive := fun read : Activity =>
      FromReading previousMoments nowMs app read.lastActiveAtMs) _ _ ?_
      fun read hread reading _ => fromReading_readApp hread
    intro moment hmoment
    rw [ExtTreeMap.getElem?_empty] at hmoment
    cases hmoment
  · exact fun moments hmoments other _ => hmoments.orInsert fun _ => .inl rfl
  intro moments hmoments recorded hrecorded
  refine hmoments.orInsert fun happ => .inr ?_
  rw [← happ]
  exact ExtTreeMap.mem_toList_iff_getElem?_eq_some.mp hrecorded

theorem ne_none_foldl_orInsert {l : List (AppId × ℤ)} {moments : ExtTreeMap AppId ℤ}
    (h : app ∈ l.map Prod.fst ∨ moments[app]? ≠ none) :
    (l.foldl (fun moments recorded => orInsert moments recorded.1 recorded.2) moments)[app]? ≠
      none := by
  induction l generalizing moments with
  | nil => exact h.resolve_left List.not_mem_nil
  | cons recorded l ih =>
    refine ih ?_
    rw [getElem?_orInsert, List.map_cons, List.mem_cons] at *
    by_cases hfirst : recorded.1 = app ∧ moments[app]? = none
    · exact .inr (by simp [hfirst])
    · rw [if_neg hfirst]
      rcases h with (hsame | hlater) | hheld
      · exact .inr fun hnone => hfirst ⟨hsame.symm, hnone⟩
      · exact .inl hlater
      · exact .inr hheld

/-- A moment that was recorded is not dropped by a reading. -/
theorem exists_moment_activityAfter {recorded : ℤ} (h : previousMoments[app]? = some recorded) :
    ∃ moment, (activityAfter taken previousTraffic previousMoments previousReadings requestsOpen
      nowMs).lastActiveAtMs[app]? = some moment := by
  refine Option.ne_none_iff_exists'.mp (ne_none_foldl_orInsert (.inl ?_))
  exact List.mem_map.mpr
    ⟨(app, recorded), ExtTreeMap.mem_toList_iff_getElem?_eq_some.mpr h, rfl⟩

end Reading

namespace Watch

/-- The moment the app was last active. -/
def moment (w : Watch) (app : AppId) : Option ℤ := w.ledger.lastActiveAtMs[app]?

/-- The app keeps its slot and the daemon stays up. -/
def KeepsSlot (app : AppId) : WatchMove → Prop
  | .host h => h.slotOf app ≠ none
  | .restart _ _ => False
  | _ => True

/-- No mark of the app lands while an activity pass is between its reading of the clock and its
write, or in the place of a later moment. -/
def MarksApart (app : AppId) (w : Watch) : WatchMove → Prop
  | .landMark mark => ∀ nowMs, w.marks[mark]? = some (app, nowMs) →
    w.pass = .resting ∧ ∀ moment, w.moment app = some moment → moment ≤ nowMs
  | _ => True

/-- What the pass holds of the app leads on from what the ledger holds of it. -/
def PassFits (app : AppId) (w : Watch) : Prop :=
  match w.pass with
  | .resting => True
  | .timed nowMs => nowMs ≤ w.clockMs ∧ ∀ moment, w.moment app = some moment → moment ≤ nowMs
  | .measuring nowMs snapshot =>
    nowMs ≤ w.clockMs ∧ (∀ moment, w.moment app = some moment → moment ≤ nowMs) ∧
      snapshot.lastActiveAtMs[app]? = w.moment app
  | .storing nowMs next =>
    nowMs ≤ w.clockMs ∧
      (∀ moment, next.lastActiveAtMs[app]? = some moment → moment ≤ nowMs) ∧
      ∀ moment, w.moment app = some moment →
        ∃ later, next.lastActiveAtMs[app]? = some later ∧ moment ≤ later

/-- Nothing the tasks hold of the app is from the future, and the pass leads on. -/
structure Timely (app : AppId) (w : Watch) : Prop where
  slot : w.ledger.host.slotOf app ≠ none
  past : ∀ moment, w.moment app = some moment → moment ≤ w.clockMs
  marks : ∀ nowMs, (app, nowMs) ∈ w.marks → nowMs ≤ w.clockMs
  pass : w.PassFits app

/-- The moment of the app is not replaced by an earlier one. -/
def Later (app : AppId) (w w' : Watch) : Prop :=
  ∀ moment, w.moment app = some moment → ∃ later, w'.moment app = some later ∧ moment ≤ later

theorem Later.refl (app : AppId) (w : Watch) : Later app w w :=
  fun moment h => ⟨moment, h, Int.le_refl _⟩

theorem Later.trans {app : AppId} {w w' w'' : Watch} (h : Later app w w')
    (h' : Later app w' w'') : Later app w w'' := by
  intro moment hmoment
  obtain ⟨mid, hmid, hle⟩ := h moment hmoment
  obtain ⟨later, hlater, hle'⟩ := h' mid hmid
  exact ⟨later, hlater, hle.trans hle'⟩

theorem Later.of_eq {app : AppId} {w w' : Watch} (h : w'.moment app = w.moment app) :
    Later app w w' :=
  fun moment hmoment => ⟨moment, h.trans hmoment, Int.le_refl _⟩

section Step

variable {app : AppId} {w w' : Watch}

/-- What leaves the moment and the pass alone leaves them fitting. -/
theorem PassFits.of_eq (h : w.PassFits app) (hmoment : w'.moment app = w.moment app)
    (hclock : w.clockMs ≤ w'.clockMs) (hpass : w'.pass = w.pass) : w'.PassFits app := by
  rw [PassFits] at h ⊢
  rw [hpass, hmoment]
  split at h
  · trivial
  · exact ⟨h.1.trans hclock, h.2⟩
  · exact ⟨h.1.trans hclock, h.2⟩
  · exact ⟨h.1.trans hclock, h.2⟩

theorem Timely.of_eq (hw : w.Timely app) (hslot : w'.ledger.host.slotOf app ≠ none)
    (hmoment : w'.moment app = w.moment app) (hclock : w.clockMs ≤ w'.clockMs)
    (hpass : w'.pass = w.pass) (hmarks : w'.marks = w.marks) : w'.Timely app where
  slot := hslot
  past moment h := (hw.past moment (hmoment ▸ h)).trans hclock
  marks nowMs h := (hw.marks nowMs (hmarks ▸ h)).trans hclock
  pass := hw.pass.of_eq hmoment hclock hpass

/-- What a pass is about to store of an app that holds a slot. -/
theorem getElem?_measured (hslot : w.ledger.host.slotOf app ≠ none) (nowMs : ℤ)
    (snapshot : Ledger) (taken : ExtTreeMap AppId AppTraffic)
    (requestsOpen : ExtTreeMap AppId ℕ) :
    (w.measured nowMs snapshot taken requestsOpen).lastActiveAtMs[app]? =
      (activityAfter taken snapshot.appTraffic snapshot.lastActiveAtMs
        snapshot.lastMeasuredAtMs requestsOpen nowMs).lastActiveAtMs[app]? := by
  have hheld : app ∈ w.ledger.heldApps := by
    rw [Ledger.heldApps, ExtTreeMap.mem_keys, ExtTreeMap.mem_iff_isSome_getElem?]
    exact Option.isSome_iff_ne_none.mpr hslot
  change (ofHeldApps _ w.ledger.heldApps)[app]? = _
  rw [ofHeldApps, ExtTreeMap.getElem?_filter']
  cases (activityAfter taken snapshot.appTraffic snapshot.lastActiveAtMs
    snapshot.lastMeasuredAtMs requestsOpen nowMs).lastActiveAtMs[app]? with
  | none => rfl
  | some moment => simp [hheld]

/-- The pass carries on from a copy that is still what the ledger holds of the app. -/
theorem Timely.measurePass (hw : w.Timely app) (taken : ExtTreeMap AppId AppTraffic)
    (requestsOpen : ExtTreeMap AppId ℕ) :
    (w.step (.measurePass taken requestsOpen)).Timely app := by
  have hpass := hw.pass
  rw [PassFits] at hpass
  rw [step]
  split
  · rename_i nowMs snapshot heq
    rw [heq] at hpass
    obtain ⟨hclock, hbefore, hcopy⟩ := hpass
    have hreading := fromReading_activityAfter taken snapshot.appTraffic snapshot.lastActiveAtMs
      snapshot.lastMeasuredAtMs requestsOpen nowMs app
    refine ⟨hw.slot, hw.past, hw.marks, hclock, fun moment hmoment => ?_, fun moment hmoment => ?_⟩
    · rw [getElem?_measured hw.slot] at hmoment
      rcases hreading moment hmoment with rfl | hrecorded
      · exact Int.le_refl _
      · exact hbefore moment (hcopy ▸ hrecorded)
    · have hrecorded : snapshot.lastActiveAtMs[app]? = some moment := hcopy.trans hmoment
      obtain ⟨later, hlater⟩ : ∃ later, (activityAfter taken snapshot.appTraffic
          snapshot.lastActiveAtMs snapshot.lastMeasuredAtMs requestsOpen
          nowMs).lastActiveAtMs[app]? = some later := exists_moment_activityAfter hrecorded
      refine ⟨later, (getElem?_measured hw.slot ..).trans hlater, ?_⟩
      rcases hreading later hlater with rfl | hsame
      · exact hbefore moment hmoment
      · rw [hrecorded] at hsame
        rw [Option.some.inj hsame]
  · exact hw

/-- A pass that has not been overtaken stores no earlier moment. -/
theorem Timely.storePass (hw : w.Timely app) :
    (w.step .storePass).Timely app ∧ Later app w (w.step .storePass) := by
  have hpass := hw.pass
  rw [PassFits] at hpass
  rw [step]
  split
  · rename_i nowMs next heq
    rw [heq] at hpass
    obtain ⟨hclock, hnext, hlater⟩ := hpass
    refine ⟨⟨hw.slot, fun moment hmoment => (hnext moment hmoment).trans hclock, hw.marks, ?_⟩,
      hlater⟩
    trivial
  · exact ⟨hw, .refl app w⟩

/-- A mark that lands apart from any pass, and not in the place of a later moment. -/
theorem Timely.landMark (hw : w.Timely app) {mark : ℕ}
    (hapart : MarksApart app w (.landMark mark)) :
    (w.step (.landMark mark)).Timely app ∧ Later app w (w.step (.landMark mark)) := by
  rw [step]
  split
  · rename_i other nowMs hmark
    have hmem : (other, nowMs) ∈ w.marks := List.mem_of_getElem? hmark
    have hmoment : ({ w with
        ledger := w.ledger.markActive other nowMs
        marks := w.marks.eraseIdx mark } : Watch).moment app =
          if other = app then some nowMs else w.moment app :=
      ExtTreeMap.getElem?_insert_ite _ _ _ _
    have hmarks : ∀ nowMs, (app, nowMs) ∈ w.marks.eraseIdx mark → nowMs ≤ w.clockMs :=
      fun nowMs h => hw.marks nowMs (List.mem_of_mem_eraseIdx h)
    -- a mark of another app leaves this one's moment alone
    by_cases hother : other = app
    · subst hother
      obtain ⟨hresting, hlater⟩ := hapart nowMs hmark
      rw [if_pos rfl] at hmoment
      refine ⟨⟨hw.slot, fun moment h => ?_, hmarks, ?_⟩, fun moment h => ?_⟩
      · rw [hmoment] at h
        rw [← Option.some.inj h]
        exact hw.marks nowMs hmem
      · simp only [PassFits, hresting]
      · exact ⟨nowMs, hmoment, hlater moment h⟩
    · rw [if_neg hother] at hmoment
      refine ⟨⟨hw.slot, fun moment h => hw.past moment (hmoment ▸ h), hmarks, ?_⟩, .of_eq hmoment⟩
      exact hw.pass.of_eq hmoment (Int.le_refl _) rfl
  · exact ⟨hw, .refl app w⟩

/-- **One step keeps what is known of the app's activity.** -/
theorem Timely.step (hw : w.Timely app) {e : WatchMove} (hslot : KeepsSlot app e)
    (hapart : MarksApart app w e) : (w.step e).Timely app ∧ Later app w (w.step e) := by
  -- only an activity pass and a mark write moments; no other step changes the app's
  cases e with
  | tick ms =>
    have hclock : w.clockMs ≤ w.clockMs + ms := by omega
    exact ⟨hw.of_eq hw.slot rfl hclock rfl rfl, .of_eq rfl⟩
  | host h => exact ⟨hw.of_eq hslot rfl (Int.le_refl _) rfl rfl, .of_eq rfl⟩
  | timePass =>
    rw [Watch.step]
    split
    · exact ⟨⟨hw.slot, hw.past, hw.marks, Int.le_refl _, hw.past⟩, .of_eq rfl⟩
    · exact ⟨hw, .refl app w⟩
  | snapshotPass =>
    have hpass := hw.pass
    rw [PassFits] at hpass
    rw [Watch.step]
    split
    · rename_i nowMs heq
      rw [heq] at hpass
      exact ⟨⟨hw.slot, hw.past, hw.marks, hpass.1, hpass.2, rfl⟩, .of_eq rfl⟩
    · exact ⟨hw, .refl app w⟩
  | measurePass taken requestsOpen =>
    refine ⟨hw.measurePass taken requestsOpen, ?_⟩
    rw [Watch.step]
    split
    · exact .of_eq rfl
    · exact .refl app w
  | storePass => exact hw.storePass
  | callMark other =>
    refine ⟨⟨hw.slot, hw.past, fun nowMs h => ?_, hw.pass.of_eq rfl (Int.le_refl _) rfl⟩,
      .of_eq rfl⟩
    rcases List.mem_append.mp h with h | h
    · exact hw.marks nowMs h
    · rw [List.mem_singleton, Prod.mk.injEq] at h
      exact Int.le_of_eq h.2
  | landMark mark => exact hw.landMark hapart
  | measure taken volumeUsage computeTicks =>
    exact ⟨hw.of_eq hw.slot rfl (Int.le_refl _) rfl rfl, .of_eq rfl⟩
  | copyDown => exact ⟨hw.of_eq hw.slot rfl (Int.le_refl _) rfl rfl, .of_eq rfl⟩
  | writeDown copy outcome =>
    rw [Watch.step]
    split
    · exact ⟨hw.of_eq hw.slot rfl (Int.le_refl _) rfl rfl, .of_eq rfl⟩
    · exact ⟨hw, .refl app w⟩
  | restart h readable => exact hslot.elim

end Step

/-- Every step keeps the app's slot, and no mark is overtaken. -/
def Keeps (app : AppId) (w : Watch) (e : WatchMove) : Prop := KeepsSlot app e ∧ MarksApart app w e

theorem Timely.run {app : AppId} {w : Watch} (hw : w.Timely app) {es : List WatchMove}
    (hes : Run.Meets Watch.step (Keeps app) w es) :
    (Run.run Watch.step w es).Timely app ∧ Later app w (Run.run Watch.step w es) := by
  induction es generalizing w with
  | nil => exact ⟨hw, .refl app w⟩
  | cons e es ih =>
    obtain ⟨hstep, hlater⟩ := hw.step hes.1.1 hes.1.2
    obtain ⟨hrun, hlater'⟩ := ih hstep hes.2
    exact ⟨hrun, hlater.trans hlater'⟩

/-- A daemon that has just loaded its ledger. -/
def start (l : Ledger) (clockMs : ℤ) : Watch where
  ledger := l
  clockMs := clockMs
  pass := .resting
  marks := []
  writing := []
  written := .empty

theorem timely_start {l : Ledger} {clockMs : ℤ} {app : AppId} (hslot : l.host.slotOf app ≠ none)
    (hpast : ∀ moment, l.lastActiveAtMs[app]? = some moment → moment ≤ clockMs) :
    (start l clockMs).Timely app :=
  ⟨hslot, hpast, fun _ h => absurd h List.not_mem_nil, trivial⟩

/-- An app is let sleep for being quiet only once its timeout is over since it was active. -/
theorem le_of_shouldSleep {l : Ledger} {record : InstanceRecord} {requestsOpen : ℕ}
    {timeoutMs : IdleTimeoutMs} {nowMs moment : ℤ} {reason : SleepReason}
    (h : shouldSleep (.trafficIdle timeoutMs) record (l.signals record requestsOpen) nowMs =
      some reason)
    (hmoment : l.lastActiveAtMs[record.appId]? = some moment) :
    (timeoutMs.ms : ℤ) ≤ nowMs - moment := by
  simp only [shouldSleep, Ledger.signals, hmoment, Option.bind_some] at h
  split at h
  · cases h
  · split at h
    · cases h
    · split at h
      · assumption
      · cases h

/-- **Activity is kept.** In every run from a ledger without moments of the future, in which the
app keeps its slot and no mark of it lands while an activity pass is between its reading of the
clock and its write, or in the place of a later moment: the app's moment is never replaced by an
earlier one or dropped, a mark that landed is not lost, and as long as the app's timeout is not
over since a mark no pass may put it to sleep for being quiet. -/
theorem activity_kept {l : Ledger} {clockMs : ℤ} {app : AppId}
    (hslot : l.host.slotOf app ≠ none)
    (hpast : ∀ moment, l.lastActiveAtMs[app]? = some moment → moment ≤ clockMs)
    {es : List WatchMove} (hes : Run.Meets step (Keeps app) (start l clockMs) es) :
    (∀ before after, es = before ++ after →
      Later app (Run.run step (start l clockMs) before) (Run.run step (start l clockMs) es)) ∧
    ∀ before mark after markMs, es = before ++ .landMark mark :: after →
      (Run.run step (start l clockMs) before).marks[mark]? = some (app, markMs) →
      (∃ moment, (Run.run step (start l clockMs) es).moment app = some moment ∧
        markMs ≤ moment) ∧
      ∀ record requestsOpen timeoutMs nowMs, record.appId = app →
        nowMs - markMs < (timeoutMs : IdleTimeoutMs).ms →
        shouldSleep (.trafficIdle timeoutMs) record
          ((Run.run step (start l clockMs) es).ledger.signals record requestsOpen) nowMs =
            none := by
  have hlater : ∀ before after, es = before ++ after →
      Later app (Run.run step (start l clockMs) before) (Run.run step (start l clockMs) es) := by
    rintro before after rfl
    rw [Run.meets_append] at hes
    rw [Run.run_append]
    exact (((timely_start hslot hpast).run hes.1).1.run hes.2).2
  refine ⟨hlater, fun before mark after markMs hsplit hmark => ?_⟩
  -- right behind the mark the moment is the mark's, and from there on it only gets later
  have hlanded : (Run.run step (start l clockMs) (before ++ [.landMark mark])).moment app =
      some markMs := by
    rw [Run.run_append, Run.run_cons, Run.run_nil, step, hmark]
    exact ExtTreeMap.getElem?_insert_self
  obtain ⟨moment, hmoment, hle⟩ :=
    hlater (before ++ [.landMark mark]) after (by rw [hsplit]; simp) markMs hlanded
  refine ⟨⟨moment, hmoment, hle⟩, fun record requestsOpen timeoutMs nowMs happ hrecent => ?_⟩
  subst happ
  cases hsleep : shouldSleep (.trafficIdle timeoutMs) record
    ((Run.run step (start l clockMs) es).ledger.signals record requestsOpen) nowMs with
  | none => rfl
  | some reason =>
    have hover := le_of_shouldSleep hsleep hmoment
    omega

/-- No traffic at all. -/
def noTraffic : AppTraffic := ⟨⟨0, 0⟩, ⟨0, 0⟩⟩

/-- The ledger of the small host, its app last active at the very beginning. -/
def quietLedger : Ledger where
  host := awakeHost
  appTraffic := (∅ : ExtTreeMap AppId AppTraffic).insert ⟨"app-1"⟩ noTraffic
  lastActiveAtMs := (∅ : ExtTreeMap AppId ℤ).insert ⟨"app-1"⟩ 0
  lastMeasuredAtMs := ∅
  volumeUsage := ∅
  computeTicks := ∅
  meters := ∅
  meteredAtMs := none

/-- The firewall's counters have not moved. -/
def unmoved : WatchMove :=
  .measurePass ((∅ : ExtTreeMap AppId AppTraffic).insert ⟨"app-1"⟩ noTraffic) ∅

/-- A mark that lands before a pass reads the clock. -/
theorem activity_kept_before_pass :
    (quietLedger.host.slotOf ⟨"app-1"⟩ ≠ none ∧
      Run.Meets step (Keeps ⟨"app-1"⟩) (start quietLedger 100000)
        [.callMark ⟨"app-1"⟩, .landMark 0, .timePass, .snapshotPass, unmoved, .storePass]) ∧
    ∃ moment, (Run.run step (start quietLedger 100000)
      [.callMark ⟨"app-1"⟩, .landMark 0, .timePass, .snapshotPass, unmoved,
        .storePass]).moment ⟨"app-1"⟩ = some moment ∧ 100000 ≤ moment := by
  have hslot : quietLedger.host.slotOf ⟨"app-1"⟩ ≠ none := by decide +kernel
  have hmoment : quietLedger.lastActiveAtMs[(⟨"app-1"⟩ : AppId)]? = some 0 := by decide +kernel
  have hpast : ∀ moment, quietLedger.lastActiveAtMs[(⟨"app-1"⟩ : AppId)]? = some moment →
      moment ≤ 100000 := by
    intro moment h
    rw [hmoment, Option.some.injEq] at h
    omega
  have hmeets : Run.Meets step (Keeps ⟨"app-1"⟩) (start quietLedger 100000)
      [.callMark ⟨"app-1"⟩, .landMark 0, .timePass, .snapshotPass, unmoved, .storePass] := by
    refine ⟨⟨trivial, trivial⟩, ⟨trivial, ?_⟩, ⟨trivial, trivial⟩, ⟨trivial, trivial⟩,
      ⟨trivial, trivial⟩, ⟨trivial, trivial⟩, trivial⟩
    rintro nowMs ⟨⟩
    exact ⟨rfl, hpast⟩
  exact ⟨⟨hslot, hmeets⟩,
    ((activity_kept hslot hpast hmeets).2 [.callMark ⟨"app-1"⟩] 0 _ 100000 rfl rfl).1⟩

/-- A wake marks the app active while a pass waits for the firewall; the pass then puts the
moment from before the mark back, and the app is due to sleep at once. -/
theorem mark_lost_to_pass :
    quietLedger.host.slotOf ⟨"app-1"⟩ ≠ none ∧
    (Run.run step (start quietLedger 100000)
      [.timePass, .snapshotPass, .callMark ⟨"app-1"⟩, .landMark 0]).moment ⟨"app-1"⟩ =
        some 100000 ∧
    (Run.run step (start quietLedger 100000)
      [.timePass, .snapshotPass, .callMark ⟨"app-1"⟩, .landMark 0, unmoved,
        .storePass]).moment ⟨"app-1"⟩ = some 0 ∧
    (awakeHost.records[(⟨"app-1"⟩ : AppId)]?.map fun record =>
      shouldSleep (.trafficIdle ⟨60000, by decide, by decide⟩) record
        ((Run.run step (start quietLedger 100000)
          [.timePass, .snapshotPass, .callMark ⟨"app-1"⟩, .landMark 0, unmoved,
            .storePass]).ledger.signals record 0) 100000) = some (some .quiet) := by
  refine ⟨?_, ?_, ?_, ?_⟩
  all_goals decide +kernel

end Watch

end Nibrunner

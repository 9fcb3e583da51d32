import Nibrunner.Activity.Ledger
import Nibrunner.Daemon.Tasks

/-!
# What one reading of the counters is taken for

A pass reads the traffic of every app once and makes two things of it: what it bills
(`meteredAfter`) and what it takes for somebody asking for the app (`activityAfter`). The first
knows that a counter that reads lower has restarted and bills all it holds; the second only sees
a counter that has not risen. An app that is used across a reload of the ruleset is billed for
it and read as quiet: `billed_is_activity_iff`.

* `getElem?_traffic_activityAfter`, `mem_moved_activityAfter`, `getElem?_lastActive_of_moved`: what
  a reading makes of one app.
-/

namespace Nibrunner

open Std

/-- More has reached the app than had at the reading before. -/
def Rose (before after : Option AppTraffic) : Prop :=
  ∃ b ∈ before, ∃ a ∈ after, b.received.bytes < a.received.bytes

/-- The proxy is still answering a request for the app. -/
def IsAnswering (requestsOpen : ExtTreeMap AppId ℕ) (app : AppId) : Prop :=
  ∃ n ∈ requestsOpen[app]?, 0 < n

/-! ### One app of a reading -/

section Reading

variable {taken previousTraffic : ExtTreeMap AppId AppTraffic}
  {previousMoments previousReadings : ExtTreeMap AppId ℤ} {requestsOpen : ExtTreeMap AppId ℕ}
  {nowMs : ℤ} {app : AppId}

/-- Two states of a reading that say the same of the app. -/
structure SameOf (app : AppId) (read read' : Activity) : Prop where
  traffic : read'.traffic[app]? = read.traffic[app]?
  lastActive : read'.lastActiveAtMs[app]? = read.lastActiveAtMs[app]?
  moved : app ∈ read'.moved ↔ app ∈ read.moved

/-- The counters of another app leave this one alone. -/
theorem sameOf_readApp {reading : AppId × AppTraffic} (h : reading.1 ≠ app) (read : Activity) :
    SameOf app read (readApp previousTraffic previousMoments nowMs read reading) := by
  refine ⟨?_, ?_, ?_⟩
  · rw [readApp, ExtTreeMap.getElem?_insert_ite, if_neg h]
  · rw [readApp, ExtTreeMap.getElem?_insert_ite, if_neg h]
  · rw [readApp]
    split
    · simp [Ne.symm h]
    · exact Iff.rfl

theorem sameOf_foldl_readApp {l : List (AppId × AppTraffic)} (h : app ∉ l.map Prod.fst)
    (read : Activity) :
    SameOf app read (l.foldl (readApp previousTraffic previousMoments nowMs) read) := by
  induction l generalizing read with
  | nil => exact ⟨rfl, rfl, Iff.rfl⟩
  | cons reading l ih =>
    rw [List.map_cons, List.mem_cons, not_or] at h
    have hfirst : SameOf app read (readApp previousTraffic previousMoments nowMs read reading) :=
      sameOf_readApp (Ne.symm h.1) read
    have hrest := ih h.2 (readApp previousTraffic previousMoments nowMs read reading)
    exact ⟨hrest.traffic.trans hfirst.traffic, hrest.lastActive.trans hfirst.lastActive,
      hrest.moved.trans hfirst.moved⟩

/-- The counters of one app, read once. -/
theorem foldl_readApp_of_some {after : AppTraffic} (h : taken[app]? = some after)
    (read : Activity) :
    let read' := taken.toList.foldl (readApp previousTraffic previousMoments nowMs) read
    read'.traffic[app]? = some after ∧
      (app ∈ read'.moved ↔ app ∈ read.moved ∨ Rose previousTraffic[app]? (some after)) ∧
      read'.lastActiveAtMs[app]? =
        some (if app ∈ read'.moved then nowMs else previousMoments[app]?.getD nowMs) := by
  have hmem : (app, after) ∈ taken.toList := ExtTreeMap.mem_toList_iff_getElem?_eq_some.mpr h
  have hnodup : (taken.toList.map Prod.fst).Nodup := by
    rw [ExtTreeMap.map_fst_toList_eq_keys]
    exact ExtTreeMap.nodup_keys
  obtain ⟨l₁, l₂, hl⟩ := List.append_of_mem hmem
  rw [hl, List.map_append, List.map_cons, List.nodup_append] at hnodup
  obtain ⟨-, hafter, hbefore⟩ := hnodup
  have h₁ : app ∉ l₁.map Prod.fst := fun hin => hbefore app hin app List.mem_cons_self rfl
  have h₂ : app ∉ l₂.map Prod.fst := (List.nodup_cons.mp hafter).1
  intro read'
  -- the apps before it and after it in the reading leave it alone
  have hread' : read' = l₂.foldl (readApp previousTraffic previousMoments nowMs)
      (readApp previousTraffic previousMoments nowMs
        (l₁.foldl (readApp previousTraffic previousMoments nowMs) read) (app, after)) := by
    rw [show read' = taken.toList.foldl _ read from rfl, hl, List.foldl_append, List.foldl_cons]
  have hsame₁ : SameOf app read (l₁.foldl (readApp previousTraffic previousMoments nowMs) read) :=
    sameOf_foldl_readApp h₁ read
  generalize l₁.foldl (readApp previousTraffic previousMoments nowMs) read = mid at hsame₁ hread'
  have hsame₂ : SameOf app (readApp previousTraffic previousMoments nowMs mid (app, after))
      (l₂.foldl (readApp previousTraffic previousMoments nowMs)
        (readApp previousTraffic previousMoments nowMs mid (app, after))) :=
    sameOf_foldl_readApp h₂ _
  rw [← hread'] at hsame₂
  have hmoved : app ∈ (readApp previousTraffic previousMoments nowMs mid (app, after)).moved ↔
      app ∈ mid.moved ∨ Rose previousTraffic[app]? (some after) := by
    rw [readApp, Rose]
    cases previousTraffic[app]? with
    | none => simp
    | some before =>
      by_cases hrose : before.received.bytes < after.received.bytes <;> simp [hrose]
  refine ⟨?_, ?_, ?_⟩
  · rw [hsame₂.traffic, readApp, ExtTreeMap.getElem?_insert_ite, if_pos rfl]
  · rw [hsame₂.moved, hmoved, hsame₁.moved]
  · rw [hsame₂.lastActive, readApp, ExtTreeMap.getElem?_insert_ite, if_pos rfl]
    refine congrArg some (if_congr ?_ rfl rfl)
    rw [hsame₂.moved]
    rfl

theorem mem_answering_iff :
    app ∈ (requestsOpen.toList.filter fun open_ => 0 < open_.2).map (·.1) ↔
      IsAnswering requestsOpen app := by
  simp only [List.mem_map, List.mem_filter, decide_eq_true_eq, IsAnswering, Option.mem_def]
  constructor
  · rintro ⟨⟨a, n⟩, ⟨hmem, hn⟩, rfl⟩
    exact ⟨n, ExtTreeMap.mem_toList_iff_getElem?_eq_some.mp hmem, hn⟩
  · rintro ⟨n, hn, hpos⟩
    exact ⟨(app, n), ⟨ExtTreeMap.mem_toList_iff_getElem?_eq_some.mpr hn, hpos⟩, rfl⟩

/-- An app that a reading says nothing about keeps the counters it had. -/
theorem getElem?_traffic_activityAfter :
    (activityAfter taken previousTraffic previousMoments previousReadings requestsOpen
      nowMs).traffic[app]? = taken[app]?.or previousTraffic[app]? := by
  rw [activityAfter]
  cases htaken : taken[app]? with
  | none =>
    refine (sameOf_foldl_readApp (fun hmem => ?_) _).traffic
    rw [ExtTreeMap.map_fst_toList_eq_keys, ExtTreeMap.mem_keys,
      ExtTreeMap.mem_iff_isSome_getElem?, htaken] at hmem
    exact Bool.noConfusion hmem
  | some after => exact (foldl_readApp_of_some htaken _).1

/-- An app has moved where more has reached it than before, or the proxy is answering it. -/
theorem mem_moved_activityAfter {after : AppTraffic} (h : taken[app]? = some after) :
    app ∈ (activityAfter taken previousTraffic previousMoments previousReadings requestsOpen
        nowMs).moved ↔
      IsAnswering requestsOpen app ∨ Rose previousTraffic[app]? (some after) := by
  rw [activityAfter, ← mem_answering_iff]
  exact (foldl_readApp_of_some h _).2.1

/-- What is there is not replaced. -/
theorem getElem?_foldl_orInsert_of_some {γ : Type} (key : γ → AppId) (value : γ → ℤ) {l : List γ}
    {moments : ExtTreeMap AppId ℤ} {moment : ℤ} (h : moments[app]? = some moment) :
    (l.foldl (fun moments x => orInsert moments (key x) (value x)) moments)[app]? =
      some moment := by
  refine List.foldlRecOn (motive := fun moments : ExtTreeMap AppId ℤ =>
    moments[app]? = some moment) l _ h fun moments hmoments x _ => ?_
  rw [getElem?_orInsert, if_neg (by simp [hmoments]), hmoments]

/-- An app that has moved was active when it was read. -/
theorem getElem?_lastActive_of_moved {after : AppTraffic} (h : taken[app]? = some after)
    (hmoved : app ∈ (activityAfter taken previousTraffic previousMoments previousReadings
      requestsOpen nowMs).moved) :
    (activityAfter taken previousTraffic previousMoments previousReadings requestsOpen
      nowMs).lastActiveAtMs[app]? = some nowMs := by
  rw [activityAfter] at hmoved ⊢
  have hread := (@foldl_readApp_of_some taken previousTraffic previousMoments nowMs app after h
    { traffic := previousTraffic
      lastActiveAtMs := ∅
      lastMeasuredAtMs := previousReadings
      moved := (requestsOpen.toList.filter fun open_ => 0 < open_.2).map (·.1) }).2.2
  rw [if_pos hmoved] at hread
  exact getElem?_foldl_orInsert_of_some _ _ (getElem?_foldl_orInsert_of_some id _ hread)

end Reading

/-! ### What a pass bills -/

/-- What the pass adds to what the app is billed for having received. -/
def Ledger.billed (l : Ledger) (nowMs : ℤ) (next : Activity) (app : AppId) : UInt64 :=
  if (l.meterInputs nowMs next.traffic).Counts app then
    ((l.meterInputs nowMs next.traffic).gains app).rxBytes
  else 0

theorem advanced_pos_iff {before : Option UInt64} {after : UInt64} :
    0 < advanced before after ↔ ∃ b ∈ before, b < after ∨ (after < b ∧ 0 < after) := by
  rw [advanced.eq_def]
  cases before with
  | none => simp
  | some b =>
    simp only [Option.mem_def, Option.some.injEq, exists_eq_left']
    split
    · rename_i hle
      rw [UInt64.lt_iff_toNat_lt, UInt64.lt_iff_toNat_lt, UInt64.toNat_sub_of_le _ _ hle,
        UInt64.lt_iff_toNat_lt]
      rw [UInt64.le_iff_toNat_le] at hle
      have hzero : (0 : UInt64).toNat = 0 := rfl
      omega
    · rename_i hnot
      have hlt : after < b := UInt64.not_le.mp hnot
      constructor
      · exact fun hpos => .inr ⟨hlt, hpos⟩
      · rintro (hrise | ⟨-, hpos⟩)
        · exact absurd hrise (UInt64.not_lt.mpr (UInt64.le_of_lt hlt))
        · exact hpos

/-- The counter of the app has restarted since the reading before and not caught up with it. -/
def Restarted (before after : Option AppTraffic) : Prop :=
  ∃ b ∈ before, ∃ a ∈ after, a.received.bytes < b.received.bytes ∧ 0 < a.received.bytes

theorem getElem?_traffic_measured (w : Watch) (nowMs : ℤ) (snapshot : Ledger)
    (taken : ExtTreeMap AppId AppTraffic) (requestsOpen : ExtTreeMap AppId ℕ) (app : AppId) :
    (w.measured nowMs snapshot taken requestsOpen).traffic[app]? =
      if app ∈ w.ledger.heldApps then taken[app]?.or snapshot.appTraffic[app]? else none := by
  change (ofHeldApps _ w.ledger.heldApps)[app]? = _
  rw [ofHeldApps, ExtTreeMap.getElem?_filter', getElem?_traffic_activityAfter]
  split
  · rename_i hheld
    cases taken[app]?.or snapshot.appTraffic[app]? <;> simp [hheld]
  · rename_i hheld
    cases taken[app]?.or snapshot.appTraffic[app]? <;> simp [hheld]

/-- An app is billed for what its counter rose by, or for all of it where it has restarted. -/
theorem billed_pos_iff (w : Watch) (snapshot l : Ledger) (taken : ExtTreeMap AppId AppTraffic)
    (requestsOpen : ExtTreeMap AppId ℕ) (nowMs : ℤ) (app : AppId) :
    let next := w.measured nowMs snapshot taken requestsOpen
    let stored := { l with appTraffic := snapshot.appTraffic }
    0 < stored.billed nowMs next app ↔
      ((stored.meterInputs nowMs next.traffic).Counts app ∧ app ∈ w.ledger.heldApps) ∧
        (Rose snapshot.appTraffic[app]? taken[app]? ∨
          Restarted snapshot.appTraffic[app]? taken[app]?) := by
  intro next stored
  have htraffic := getElem?_traffic_measured w nowMs snapshot taken requestsOpen app
  rw [Ledger.billed]
  split
  · rename_i hcounts
    rw [and_iff_right hcounts]
    change 0 < (next.traffic[app]?).elim 0 (fun after =>
      advanced (snapshot.appTraffic[app]?.map (·.received.bytes)) after.received.bytes) ↔ _
    rw [show next.traffic[app]? = _ from htraffic]
    by_cases hheld : app ∈ w.ledger.heldApps
    · rw [if_pos hheld, and_iff_right hheld, Rose, Restarted]
      cases htaken : taken[app]? with
      | none =>
        -- an app that was not read is billed for nothing
        cases hbefore : snapshot.appTraffic[app]? with
        | none => simp
        | some before => simp [advanced_pos_iff]
      | some after =>
        cases hbefore : snapshot.appTraffic[app]? with
        | none => simp [advanced_pos_iff]
        | some before => simp [advanced_pos_iff]
    · simp [hheld]
  · rename_i hcounts
    simp [hcounts]

namespace Watch

/-- The copy a pass goes on from holds the traffic the ledger holds. -/
def CopiesTraffic (w : Watch) : Prop :=
  ∀ nowMs snapshot, w.pass = .measuring nowMs snapshot →
    snapshot.appTraffic = w.ledger.appTraffic

/-- Only the one pass that reads the traffic writes it. -/
theorem CopiesTraffic.step {w : Watch} (hw : w.CopiesTraffic) (e : WatchMove) :
    (w.step e).CopiesTraffic := by
  cases e with
  | snapshotPass =>
    rw [Watch.step]
    split
    · intro nowMs snapshot hpass
      cases hpass
      rfl
    · exact hw
  | timePass | measurePass _ _ | storePass =>
    rw [Watch.step]
    split
    · simp [CopiesTraffic]
    · exact hw
  | landMark _ | writeDown _ _ =>
    rw [Watch.step]
    split <;> exact hw
  | restart h readable => simp [CopiesTraffic, Watch.step]
  | tick _ | host _ | callMark _ | measure _ _ _ | copyDown => exact hw

/-- Along every run the traffic of the copy is the traffic of the ledger. -/
theorem CopiesTraffic.run {w : Watch} (hw : w.CopiesTraffic) (es : List WatchMove) :
    (Run.run Watch.step w es).CopiesTraffic :=
  Run.invariant (fun _ e h => h.step e) hw es

end Watch

/-- **What is billed is read as activity**, of every app whose counter has not restarted and been
read below where it was while nobody's request for it was open. `snapshot` is the ledger the pass
took its copy of, `w` the daemon as it reads the slots, and `l` the ledger as the pass stores it:
the traffic of the reading before is written by no other task. -/
theorem billed_is_activity_iff (w : Watch) (snapshot l : Ledger)
    (taken : ExtTreeMap AppId AppTraffic) (requestsOpen : ExtTreeMap AppId ℕ) (nowMs : ℤ)
    (app : AppId) :
    let reading := activityAfter taken snapshot.appTraffic snapshot.lastActiveAtMs
      snapshot.lastMeasuredAtMs requestsOpen nowMs
    let next := w.measured nowMs snapshot taken requestsOpen
    let stored := { l with appTraffic := snapshot.appTraffic }
    (0 < stored.billed nowMs next app →
        app ∈ reading.moved ∧ reading.lastActiveAtMs[app]? = some nowMs) ↔
      ((stored.meterInputs nowMs next.traffic).Counts app → app ∈ w.ledger.heldApps →
        Restarted snapshot.appTraffic[app]? taken[app]? → IsAnswering requestsOpen app) := by
  intro reading next stored
  have hbilled := billed_pos_iff w snapshot l taken requestsOpen nowMs app
  have hnotBoth : Restarted snapshot.appTraffic[app]? taken[app]? →
      ¬ Rose snapshot.appTraffic[app]? taken[app]? := by
    rintro ⟨b, hb, a, ha, hlt, -⟩ ⟨b', hb', a', ha', hrise⟩
    obtain rfl := Option.mem_unique hb hb'
    obtain rfl := Option.mem_unique ha ha'
    exact UInt64.lt_asymm hlt hrise
  constructor
  · intro h hcounts hheld hrestarted
    obtain ⟨hmoved, -⟩ := h (hbilled.mpr ⟨⟨hcounts, hheld⟩, .inr hrestarted⟩)
    obtain ⟨b, hb, a, ha, -⟩ := id hrestarted
    have hread := (mem_moved_activityAfter ha).mp hmoved
    rw [← ha] at hread
    exact hread.resolve_right (hnotBoth hrestarted)
  · intro h hpos
    obtain ⟨⟨hcounts, hheld⟩, hread⟩ := hbilled.mp hpos
    obtain ⟨after, hafter⟩ : ∃ after, taken[app]? = some after := by
      rcases hread with ⟨-, -, a, ha, -⟩ | ⟨-, -, a, ha, -⟩
      · exact ⟨a, ha⟩
      · exact ⟨a, ha⟩
    have hmoved : app ∈ reading.moved := by
      rw [mem_moved_activityAfter hafter, ← hafter]
      exact hread.symm.imp_left (h hcounts hheld)
    exact ⟨hmoved, getElem?_lastActive_of_moved hafter hmoved⟩

/-! ### A ruleset that was reloaded -/

/-- Traffic of which so much has reached the guest. -/
def receivedBytes (bytes : UInt64) : AppTraffic := ⟨⟨1, bytes⟩, ⟨0, 0⟩⟩

/-- An app that is up, nine million bytes on its counter when that was last read. -/
def readOnce : Ledger :=
  { Ledger.load awakeHost .empty with
    appTraffic := (∅ : ExtTreeMap AppId AppTraffic).insert ⟨"app-1"⟩ (receivedBytes 9000000)
    lastActiveAtMs := (∅ : ExtTreeMap AppId ℤ).insert ⟨"app-1"⟩ 0 }

def readOnceWatch : Watch where
  ledger := readOnce
  clockMs := 0
  pass := .resting
  marks := []
  writing := []
  written := .empty

/-- The reading after the ruleset was reloaded: sixteen bytes have reached the guest since. -/
def readAfterReload : ExtTreeMap AppId AppTraffic :=
  (∅ : ExtTreeMap AppId AppTraffic).insert ⟨"app-1"⟩ (receivedBytes 16)

/-- The app is billed for the sixteen bytes and is not seen to have moved. -/
theorem billed_is_not_activity :
    ¬ ∀ (w : Watch) (snapshot l : Ledger) (taken : ExtTreeMap AppId AppTraffic)
      (requestsOpen : ExtTreeMap AppId ℕ) (nowMs : ℤ) (app : AppId),
      0 < Ledger.billed { l with appTraffic := snapshot.appTraffic } nowMs
          (w.measured nowMs snapshot taken requestsOpen) app →
        app ∈ (activityAfter taken snapshot.appTraffic snapshot.lastActiveAtMs
            snapshot.lastMeasuredAtMs requestsOpen nowMs).moved ∧
          (activityAfter taken snapshot.appTraffic snapshot.lastActiveAtMs
            snapshot.lastMeasuredAtMs requestsOpen nowMs).lastActiveAtMs[app]? = some nowMs := by
  intro h
  have hbilled : 0 < Ledger.billed { readOnce with appTraffic := readOnce.appTraffic } 5000
      (readOnceWatch.measured 5000 readOnce readAfterReload ∅) ⟨"app-1"⟩ := by decide +kernel
  obtain ⟨hmoved, -⟩ := h readOnceWatch readOnce readOnce readAfterReload ∅ 5000 ⟨"app-1"⟩ hbilled
  revert hmoved
  decide +kernel

end Nibrunner

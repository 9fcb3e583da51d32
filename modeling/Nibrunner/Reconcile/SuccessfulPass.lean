import Nibrunner.ForStd.KeyedSum
import Nibrunner.Reconcile.Storage

/-!
# A pass whose adapters all succeed

What a pass over a document does on a host that has the slots, the memory and the disk for it, when
every adapter does what it is asked.

* `StorageReady`: from the start of its wave on, every volume the document lists as present is
  ready;
* `WaveReady.foldl`: the wave finds room for everything it starts, and what it starts is booted
  unless what was already spent on the app forbids it;
* `namedEffect_reconcile`: what the pass leaves of an app the document names;
* `Ready.reconcile`: the host is as ready for the next pass.
-/

namespace Nibrunner

open Std

/-! ### What a host has to have -/

namespace Host

/-- **The host has what the document asks for**: a slot for every listed volume, memory for every
instance, no record on another volume than the one listed for its app, and nothing to refuse an
instance it is to bring up for. -/
structure Ready (d : HostDesiredState) (h : Host) : Prop where
  keyed : h.Keyed
  laid : h.Laid d
  deleted : h.DeletedOnReport
  oneVolume : ∀ v ∈ d.volumes, ∀ r, (h.view v.appId).record = some r → r.volumeId = v.volumeId
  memory : (d.instances.map fun i => i.config.resources.memoryMib).sum ≤ h.config.guestMemoryMib
  ingress : ∀ wanted ∈ d.instances, wanted.desiredState ≠ .stopped →
    ingressRefusal wanted h.config = none

/-- Every volume listed as present is ready or can be made so by a pass run for `trigger`: a tick
leaves a bare volume as it is. -/
def Fillable (d : HostDesiredState) (trigger : Trigger) (h : Host) : Prop :=
  ∀ v ∈ d.volumes, v.desiredState = .present →
    h.Serves v ∨ h.CanHold v ∧ (trigger = .tick → isBare (h.observe d) v.volumeId = false)

theorem AllServed.fillable {d : HostDesiredState} {h : Host} (hs : h.AllServed d)
    (trigger : Trigger) : h.Fillable d trigger := fun v hv hpresent => .inl (hs v hv hpresent)

/-! ### The storage of a pass -/

/-- The storage the starts of a pass find and leave: every volume listed as present is ready and not
reported failed, and what else there was is there. -/
structure StorageReady (d : HostDesiredState) (h h' : Host) : Prop where
  laid : h'.Laid d
  served : h'.AllServed d
  notFailed : ∀ v ∈ d.volumes, v.desiredState = .present → h'.NotFailed v.volumeId
  images : ∀ volume, (∀ v ∈ d.volumes, v.desiredState = .present → v.volumeId ≠ volume) →
    h'.images[volume]? = h.images[volume]?
  deleted : h'.DeletedOnReport
  checkpoints : h'.checkpoints = h.checkpoints
  config : h'.config = h.config

theorem StorageReady.onlyInstances {d : HostDesiredState} {h h' h'' : Host}
    (hs : StorageReady d h h') (hi : OnlyInstances h' h'') : StorageReady d h h'' where
  laid := hi.laid hs.laid
  served v hv hpresent := hi.serves (hs.served v hv hpresent)
  notFailed v hv hpresent := hi.notFailed (hs.notFailed v hv hpresent)
  images volume hnot := by rw [hi.images, hs.images volume hnot]
  deleted volume r hr := hs.deleted volume r (by rw [← hi.deletedVolumes, hr])
  checkpoints := hi.checkpoints.trans hs.checkpoints
  config := hi.config.trans hs.config

section Storage

variable {d : HostDesiredState} (hd : d.Consistent) {h : Host} (hr : h.Ready d) {trigger : Trigger}
  (hfill : h.Fillable d trigger) (nowMs : ℤ)
include hd hr hfill

theorem storageReady_madeReady :
    StorageReady d h (h.madeReady d (.succeed trigger nowMs)) := by
  have hsame : OnlyInstances h
      ((h.syncDesired d).applyStops (planReconcile d (h.observe d))) :=
    (OnlyInstances.syncDesired h d).trans (.applyStops _ _)
  have hready := volumesReady_applyVolumes hd hsame hr.laid hr.deleted hfill
  have hdeleted : ((h.syncDesired d).applyStops
      (planReconcile d (h.observe d))).DeletedOnReport := fun volume r hreported =>
    hr.deleted volume r (by rw [← hsame.deletedVolumes, hreported])
  exact
    { laid := hready.laid
      served := hready.serves
      notFailed := hready.notFailed
      images := fun volume hnot => (hready.images volume hnot).trans (by rw [hsame.images])
      deleted := hready.deleted hdeleted
      checkpoints := hready.checkpoints.trans hsame.checkpoints
      config := hready.only.config.trans hsame.config }

theorem storageReady_beforeStarts :
    StorageReady d h (h.beforeStarts d (.succeed trigger nowMs)) := by
  have hready := storageReady_madeReady hd hr hfill nowMs
  have hbegun := hready.onlyInstances (@OnlyInstances.sleepsAndHolds _ hd h _ hready.served)
  exact ⟨⟨hbegun.laid.injective, hbegun.laid.enough⟩, hbegun.served, hbegun.notFailed,
    hbegun.images, hbegun.deleted, hbegun.checkpoints, hbegun.config⟩

end Storage

end Host

/-! ### One start -/

/-- Every adapter of a start does what it is asked. -/
def StartAnswers.succeed (nowMs : ℤ) : StartAnswers where
  nowMs := nowMs
  prepare := .ok ()
  attach := .ok ()
  boot := .ok
  startedAtMs := nowMs

/-- What a start leaves where every adapter succeeds: the app booted, or at most another sentence on
a record that forbids the start. -/
inductive Started [Platform] (desired : DesiredInstance) (nowMs : ℤ) (v : AppView) :
    AppView → Prop where
  | booted (href : startRefused v.record nowMs desired = none) (slot : ℕ)
      (hslot : v.slot = some slot) :
      Started desired nowMs v (v.booted desired slot (.succeed nowMs))
  | refused (r : InstanceRecord) (said : Option String) (hr : v.record = some r)
      (href : startRefused v.record nowMs desired ≠ none) :
      Started desired nowMs v { v with record := some { r with message := said } }

namespace Host

/-- What a start nothing stands in the way of does: it boots the app on the slot it holds. -/
theorem startInstance_eq_of_ready [Platform] {h : Host} {desired : DesiredInstance} {slot : ℕ}
    {image : VolumeImage} {nowMs : ℤ}
    (href : startRefused h.records[desired.appId]? nowMs desired = none)
    (hslot : h.slotOf desired.appId = some slot)
    (hdevice : h.devices[slot]? = some desired.volumeId)
    (himage : h.images[desired.volumeId]? = some image)
    (hreport : h.volumeRefusal desired.volumeId = none)
    (hingress : ingressRefusal desired h.config = none) (hdown : h.isUp desired.appId = false) :
    h.startInstance desired (.succeed nowMs) =
      ((((h.putRecord (attemptedRecord h.records[desired.appId]? desired
        (describeSlot slot desired.appId) nowMs)).discardSnapshot desired.appId).logBoot
        desired.appId nowMs).putVm desired.appId
        (Vm.spawned desired.config.resources.memoryMib slot)).updateRecord desired.appId
        fun r =>
          { r with
            startedAt := some nowMs
            state := .starting
            health := initialTracker
            restartCount := 0
            message := none } := by
  -- the volume is served already, so attaching it changes nothing
  have hattach : (h.putRecord (attemptedRecord h.records[desired.appId]? desired
      (describeSlot slot desired.appId) nowMs)).attach desired.volumeId desired.appId (.ok ()) =
      .ok (h.putRecord (attemptedRecord h.records[desired.appId]? desired
        (describeSlot slot desired.appId) nowMs)) := attach_of_served hslot hdevice himage
  unfold startInstance
  dsimp only [StartAnswers.succeed]
  rw [href, slotFor_of_held hslot]
  dsimp only
  rw [hingress]
  dsimp only
  rw [hreport]
  dsimp only [attemptStart]
  rw [hattach]
  dsimp only [bootVm]
  rw [if_neg]
  · rfl
  · show ¬ h.isUp desired.appId = true
    rw [hdown]
    exact Bool.false_ne_true

section Start

variable [Platform] {h : Host} {desired : DesiredInstance} {slot : ℕ} {image : VolumeImage}
  (hk : h.Keyed) (hslot : h.slotOf desired.appId = some slot)
  (hdevice : h.devices[slot]? = some desired.volumeId)
  (himage : h.images[desired.volumeId]? = some image)
  (hreport : h.volumeRefusal desired.volumeId = none)
  (hingress : ingressRefusal desired h.config = none) (hdown : h.isUp desired.appId = false)
  (nowMs : ℤ)
include hk hslot hdevice himage hreport hingress hdown

/-- **A start on a ready host**: the storage is what it was, and the app is booted unless what was
spent on it forbids it. -/
theorem started_startInstance :
    OnlyInstances h (h.startInstance desired (.succeed nowMs)) ∧
      Started desired nowMs (h.view desired.appId)
        ((h.startInstance desired (.succeed nowMs)).view desired.appId) := by
  have heffect := view_startInstance (hk desired.appId) (.succeed nowMs)
  cases href : startRefused h.records[desired.appId]? nowMs desired with
  | some refusal =>
    constructor
    · unfold startInstance
      dsimp only [StartAnswers.succeed]
      rw [href]
      cases refusal with
      | outOfRestarts attempted allowed => exact ⟨rfl, rfl, rfl, rfl, rfl, rfl, rfl, rfl⟩
      | untilTheBackoffIsDone => exact .refl h
    · have hne : startRefused (h.view desired.appId).record nowMs desired ≠ none := by
        rw [show (h.view desired.appId).record = h.records[desired.appId]? from rfl, href]
        exact Option.some_ne_none _
      generalize (h.startInstance desired (.succeed nowMs)).view desired.appId = v' at heffect
      cases heffect with
      | refused r said hr href => exact .refused r said hr hne
      | noSlot href | turnedDown href | notBooted href | bootFailed href | busy href
        | booted href => exact absurd href hne
  | none =>
    have hstart := startInstance_eq_of_ready href hslot hdevice himage hreport hingress hdown
    have happ : (attemptedRecord h.records[desired.appId]? desired
        (describeSlot slot desired.appId) nowMs).appId = desired.appId :=
      appId_adoptedRecord (hk desired.appId) (describeSlot slot desired.appId) .pending
    refine ⟨by rw [hstart]; exact ⟨rfl, rfl, rfl, rfl, rfl, rfl, rfl, rfl⟩, ?_⟩
    have hview : (h.startInstance desired (.succeed nowMs)).view desired.appId =
        (h.view desired.appId).booted desired slot (.succeed nowMs) := by
      rw [hstart, view_updateRecord, view_putVm, view_logBoot, view_discardSnapshot,
        view_putRecord h happ]
      simp only [Option.map_some, AppView.booted, bootedRecord, AppView.mk.injEq, true_and]
      exact ⟨rfl, hslot, rfl⟩
    rw [hview]
    exact .booted href slot hslot

end Start

end Host

/-! ### The wave of starts -/

/-- A record a start leaves has the memory the document gives the instance. -/
theorem Started.resources [Platform] {desired : DesiredInstance} {nowMs : ℤ} {v v' : AppView}
    (hs : Started desired nowMs v v')
    (hv : ∀ r, v.record = some r → r.resources = desired.config.resources) :
    ∀ r, v'.record = some r → r.resources = desired.config.resources := by
  intro r hr
  cases hs with
  | booted href slot hslot =>
    cases hr
    rfl
  | refused r' said hr' href =>
    cases hr
    exact hv r' hr'

namespace Host

/-- The wave finds the storage ready, and in the records it has read only instances of the document
hold memory: what the document gives them. -/
structure WaveReady (d : HostDesiredState) (h : Host) (w : Wave) : Prop where
  keyed : w.1.Keyed
  storage : StorageReady d h w.1
  resources : ∀ wanted ∈ d.instances, ∀ r, (w.1.view wanted.appId).record = some r →
    r.resources = wanted.config.resources
  nodup : (w.2.map (·.appId)).Nodup
  held : ∀ r ∈ w.2, holdsSomething r = true →
    ∃ wanted ∈ d.instances, wanted.appId = r.appId ∧ r.resources = wanted.config.resources

namespace WaveReady

variable {d : HostDesiredState} {h : Host} {w : Wave} {desired : DesiredInstance}

/-- **There is room**: the others and the instance are instances of the document, each counted
once. -/
theorem shortfallIn_eq_none (hw : WaveReady d h w) (hr : h.Ready d)
    (hmem : desired ∈ d.instances) : shortfallIn w desired = none := by
  rw [shortfallIn, memoryShortfallFor_eq_none_iff, hw.storage.config]
  have hsum : (((desired.appId, desired.config.resources.memoryMib) ::
      (w.2.filter fun r => r.appId ≠ desired.appId && holdsSomething r).map fun r =>
        (r.appId, r.resources.memoryMib)).map Prod.snd).sum ≤
      (d.instances.map fun i => i.config.resources.memoryMib).sum :=
    KeyedSum.sum_le_sum_of_keyed Prod.fst DesiredInstance.appId _ _ ?_ ?_
  · simp only [List.map_cons, List.sum_cons, List.map_map, Function.comp_def] at hsum
    have hmemory := hr.memory
    rw [committedMemoryMib, List.map_map, Function.comp_def]
    omega
  · rw [List.map_cons, List.map_map, List.nodup_cons]
    refine ⟨fun hin => ?_, hw.nodup.sublist (List.filter_sublist.map _)⟩
    obtain ⟨r, hrmem, happ⟩ := List.mem_map.mp hin
    have hcond := (List.mem_filter.mp hrmem).2
    rw [Bool.and_eq_true, decide_eq_true_eq] at hcond
    exact hcond.1 happ
  · intro x hx
    rcases List.mem_cons.mp hx with rfl | hx
    · exact ⟨desired, hmem, rfl, le_rfl⟩
    · obtain ⟨r, hrmem, rfl⟩ := List.mem_map.mp hx
      obtain ⟨hin, hcond⟩ := List.mem_filter.mp hrmem
      rw [Bool.and_eq_true] at hcond
      obtain ⟨wanted, hwanted, happ, hresources⟩ := hw.held r hin hcond.2
      exact ⟨wanted, hwanted, happ, by rw [hresources]⟩

variable [Platform]

/-- **One start of the wave** is made, and leaves the wave as ready for the next. -/
theorem applyStart (hw : WaveReady d h w) (hd : d.Consistent) (hr : h.Ready d)
    (hmem : desired ∈ d.instances) (hwanted : desired.desiredState ≠ .stopped)
    (hdown : w.1.isUp desired.appId = false) (nowMs : ℤ) :
    WaveReady d h (Host.applyStart (fun _ => .succeed nowMs) w desired) ∧
      Started desired nowMs (w.1.view desired.appId)
        ((Host.applyStart (fun _ => .succeed nowMs) w desired).1.view desired.appId) := by
  obtain ⟨v, hv, hvolume, -, hpresent⟩ := hd.instances desired hmem
  obtain ⟨slot, image, hslot, hdevice, himage⟩ := hw.storage.served.exists_slot hd hmem
  have hreport := (hw.storage.notFailed v hv hpresent).volumeRefusal
  rw [hvolume] at hreport
  have hingress : ingressRefusal desired w.1.config = none := by
    rw [hw.storage.config]
    exact hr.ingress desired hmem hwanted
  obtain ⟨honly, hstarted⟩ :=
    started_startInstance hw.keyed hslot hdevice himage hreport hingress hdown nowMs
  have hkeyed := (local_start fun _ => StartAnswers.succeed nowMs).keeps w desired hw.keyed
  have hframe := OnlyApp.applyStart (fun _ => StartAnswers.succeed nowMs) hw.keyed desired
  have hstep : Host.applyStart (fun _ => .succeed nowMs) w desired =
      (w.1.startInstance desired (.succeed nowMs), w.2.filter (·.appId ≠ desired.appId) ++
        ((w.1.startInstance desired (.succeed nowMs)).view desired.appId).record.toList) := by
    have hroom := hw.shortfallIn_eq_none hr hmem
    unfold Host.applyStart Host.applyStartAs
    dsimp only
    rw [show memoryShortfallFor _ _ _ _ = none from hroom]
    rfl
  rw [hstep] at hkeyed hframe ⊢
  have hresources := hstarted.resources (hw.resources desired hmem)
  refine ⟨⟨hkeyed, hw.storage.onlyInstances honly, fun wanted hmem' r hrecord => ?_, ?_,
    fun r hrmem hholds => ?_⟩, hstarted⟩
  · by_cases happ : wanted.appId = desired.appId
    · obtain rfl := List.inj_on_of_nodup_map hd.apps hmem' hmem happ
      exact hresources r hrecord
    · rw [hframe.view happ] at hrecord
      exact hw.resources wanted hmem' r hrecord
  · -- what is read back is of the app that was left out
    rw [List.map_append, List.nodup_append]
    refine ⟨hw.nodup.sublist (List.filter_sublist.map _), ?_, ?_⟩
    · cases ((w.1.startInstance desired (.succeed nowMs)).view desired.appId).record <;> simp
    · intro a ha b hb heq
      obtain ⟨r, hrmem, rfl⟩ := List.mem_map.mp ha
      obtain ⟨r', hrmem', rfl⟩ := List.mem_map.mp hb
      have happ := hkeyed desired.appId r' (Option.mem_toList.mp hrmem')
      exact of_decide_eq_true (List.mem_filter.mp hrmem).2 (heq.trans happ)
  · rcases List.mem_append.mp hrmem with hin | hin
    · exact hw.held r (List.mem_filter.mp hin).1 hholds
    · have hrecord := Option.mem_toList.mp hin
      exact ⟨desired, hmem, (hkeyed desired.appId r hrecord).symm, hresources r hrecord⟩

/-- **The whole wave**: everything it is to start is started. -/
theorem foldl {l : List DesiredInstance} (hw : WaveReady d h w) (hd : d.Consistent)
    (hr : h.Ready d) (hl : ∀ i ∈ l, i ∈ d.instances ∧ i.desiredState ≠ .stopped)
    (hnodup : (l.map (·.appId)).Nodup) (hdown : ∀ i ∈ l, w.1.isUp i.appId = false) (nowMs : ℤ) :
    WaveReady d h (l.foldl (Host.applyStart fun _ => .succeed nowMs) w) ∧
      ∀ i ∈ l, Started i nowMs (w.1.view i.appId)
        ((l.foldl (Host.applyStart fun _ => .succeed nowMs) w).1.view i.appId) := by
  induction l generalizing w with
  | nil => exact ⟨hw, fun i hi => absurd hi List.not_mem_nil⟩
  | cons x l ih =>
    obtain ⟨hmem, hwanted⟩ := hl x List.mem_cons_self
    obtain ⟨hnot, hrest⟩ := List.nodup_cons.mp hnodup
    obtain ⟨hw', hstarted⟩ := hw.applyStart hd hr hmem hwanted (hdown x List.mem_cons_self) nowMs
    have hlocal := local_start fun _ => StartAnswers.succeed nowMs
    -- the starts after it are of other apps, so each side sees the other's untouched
    have hother : ∀ i ∈ l,
        (Host.applyStart (fun _ => .succeed nowMs) w x).1.view i.appId = w.1.view i.appId :=
      fun i hi => hlocal.frame w x i.appId hw.keyed fun happ =>
        hnot (List.mem_map.mpr ⟨i, hi, happ⟩)
    obtain ⟨hlast, hall⟩ := ih hw' (fun i hi => hl i (List.mem_cons_of_mem x hi)) hrest
      fun i hi => by
        rw [← isUp_view, hother i hi]
        exact hdown i (List.mem_cons_of_mem x hi)
    refine ⟨hlast, fun i hi => ?_⟩
    rcases List.mem_cons.mp hi with rfl | hi
    · have hsame := hlocal.part_foldl_of_notMem (s := Host.applyStart _ w i) hw'.keyed hnot
      rw [List.foldl_cons, show Host.view _ i.appId = _ from hsame]
      exact hstarted
    · rw [List.foldl_cons, ← hother i hi]
      exact hall i hi

end WaveReady

/-! ### The wave of a pass -/

theorem exists_of_mem_recordList {h : Host} {r : InstanceRecord} (hr : r ∈ h.recordList) :
    ∃ app, (h.view app).record = some r := by
  obtain ⟨⟨app, r'⟩, hmem, rfl⟩ := List.mem_map.mp hr
  exact ⟨app, ExtTreeMap.mem_toList_iff_getElem?_eq_some.mp hmem⟩

theorem Keyed.nodup_recordList {h : Host} (hk : h.Keyed) :
    (h.recordList.map (·.appId)).Nodup := by
  have hkeys : h.recordList.map (·.appId) = h.records.toList.map (·.1) := by
    rw [recordList, List.map_map]
    refine List.map_congr_left fun x hx => ?_
    exact hk x.1 x.2 (ExtTreeMap.mem_toList_iff_getElem?_eq_some.mp hx)
  rw [hkeys, ExtTreeMap.map_fst_toList_eq_keys]
  exact ExtTreeMap.nodup_keys

section Begun

variable {d : HostDesiredState} (hd : d.appIds.Nodup) {h : Host} (hk : h.Keyed)
  (answers : PassAnswers)
include hd hk

/-- Before its starts a pass has put the document's resources on the records of its instances. -/
theorem resources_beforeStarts {wanted : DesiredInstance} (hw : wanted ∈ d.instances) :
    ∀ r, ((h.beforeStarts d answers).view wanted.appId).record = some r →
      r.resources = wanted.config.resources := by
  have hp := (mem_planInstances_iff h d _).mpr (.inl ⟨wanted, hw, rfl⟩)
  have happ : (h.actionFor d wanted).appId = wanted.appId := appId_planInstance _ _ _
  -- the sync puts them there, and what comes behind keeps or rewrites the record with them
  have hsynced : ∀ r, ((h.view wanted.appId).synced d wanted.appId).record = some r →
      r.resources = wanted.config.resources := by
    intro r hr
    rw [AppView.synced_of_mem hd hw] at hr
    obtain ⟨r', -, rfl⟩ := Option.map_eq_some_iff.mp hr
    rfl
  have hready : ∀ r, ((h.madeReady d answers).view wanted.appId).record = some r →
      r.resources = wanted.config.resources := by
    intro r hr
    have hgain := view_madeReady hk answers hd hp
    rw [happ] at hgain
    obtain ⟨slot, hview, -⟩ := hgain
    rw [hview] at hr
    cases haction : h.actionFor d wanted <;> rw [haction] at hr
    case stop app reason =>
      obtain ⟨r', hr', rfl⟩ := Option.map_eq_some_iff.mp hr
      exact hsynced r' hr'
    case start | sleep | hold | none => exact hsynced r hr
    case replace | recover | forget => cases hr
  have hidle := view_beforeStarts_of_idle hk answers hd hp
  have hdesired : ∀ desired, (h.actionFor d wanted).desired? = some desired → desired = wanted :=
    fun desired => desired_planInstance
  rw [happ] at hidle
  intro r hr
  cases haction : h.actionFor d wanted <;> rw [haction] at hidle hp
  case sleep desired =>
    obtain rfl := hdesired desired (by rw [haction]; rfl)
    have heffect := view_beforeStarts_of_sleep hk answers hd hp
    generalize (h.beforeStarts d answers).view desired.appId = v' at heffect hr
    cases heffect <;>
    · cases hr
      rfl
  case hold desired =>
    obtain rfl := hdesired desired (by rw [haction]; rfl)
    have heffect := view_beforeStarts_of_hold hk answers hd hp
    generalize (h.beforeStarts d answers).view desired.appId = v' at heffect hr
    cases heffect <;>
    · cases hr
      rfl
  all_goals
    rw [hidle (fun _ => rfl) fun _ => rfl] at hr
    exact hready r hr

/-- Before its starts a pass has stopped or forgotten what the document does not name. -/
theorem holdsNothing_beforeStarts {app : AppId} (hnot : app ∉ d.appIds) :
    ∀ r, ((h.beforeStarts d answers).view app).record = some r → holdsSomething r = false := by
  intro r hr
  by_cases hmem : app ∈ (planReconcile d (h.observe d)).instances.map (·.appId)
  · obtain ⟨p, hp, rfl⟩ := List.mem_map.mp hmem
    have hready := view_madeReady hk answers hd hp
    have hidle := view_beforeStarts_of_idle hk answers hd hp
    rcases (mem_planInstances_iff h d p).mp hp with ⟨wanted, hw, rfl⟩ | ⟨a, -, -, rfl⟩
    · exact absurd (List.mem_map.mpr ⟨wanted, hw, (appId_planInstance _ _ _).symm⟩) hnot
    · cases hup : (h.observeInstance a).running <;> rw [planUnnamed, hup] at hr hready hidle
      · -- forgotten
        obtain ⟨slot, hview, -⟩ := hready
        rw [hidle (fun _ => rfl) fun _ => rfl, hview] at hr
        cases hr
      · obtain ⟨slot, hview, -⟩ := hready
        rw [hidle (fun _ => rfl) fun _ => rfl, hview] at hr
        obtain ⟨r', -, rfl⟩ := Option.map_eq_some_iff.mp hr
        rfl
  · obtain ⟨slot, hview⟩ := view_beforeStarts_of_notMem hk answers hmem hnot
    have hunknown : (h.view app).record = none := by
      by_contra hsome
      refine hmem (List.mem_map.mpr ⟨planUnnamed (h.observeInstance app), ?_, appId_planUnnamed _⟩)
      exact (mem_planInstances_iff h d _).mpr
        (.inr ⟨app, mem_knownApps.mpr (.inr hsome), hnot, rfl⟩)
    rw [hview] at hr
    cases hunknown.symm.trans hr

end Begun

/-- A pass whose adapters all succeed, up to what it takes away. -/
def afterStarts [Platform] (h : Host) (d : HostDesiredState) (trigger : Trigger) (nowMs : ℤ) :
    Host :=
  (h.beforeStarts d (.succeed trigger nowMs)).applyStarts (planReconcile d (h.observe d))
    fun _ => .succeed nowMs

/-- The rest of such a pass. -/
theorem reconcile_succeed [Platform] (h : Host) {d : HostDesiredState} (hd : d.appIds.Nodup)
    (trigger : Trigger) (nowMs : ℤ) :
    h.reconcile d (.succeed trigger nowMs) =
      { ((h.afterStarts d trigger nowMs).applyTeardowns (planReconcile d (h.observe d))
          .succeed).applyCheckpoints (planReconcile d (h.observe d)) .succeed with
        isolated := true } := by
  rw [reconcile, reconcileAs, if_neg (by simp [hd, PassAnswers.succeed])]
  rfl

section Wave

variable {d : HostDesiredState} (hd : d.Consistent) {h : Host} (hr : h.Ready d) {trigger : Trigger}
  (hfill : h.Fillable d trigger) (nowMs : ℤ)
include hd hr hfill

theorem waveReady_beforeStarts :
    WaveReady d h (h.beforeStarts d (.succeed trigger nowMs),
      (h.beforeStarts d (.succeed trigger nowMs)).recordList) := by
  have hkeyed := hr.keyed.beforeStarts (d := d) (.succeed trigger nowMs)
  refine ⟨hkeyed, storageReady_beforeStarts hd hr hfill nowMs,
    fun wanted hw => resources_beforeStarts hd.apps hr.keyed _ hw, hkeyed.nodup_recordList,
    fun r hmem hholds => ?_⟩
  obtain ⟨app, hrecord⟩ := exists_of_mem_recordList hmem
  have happ := hkeyed app r hrecord
  by_cases hnamed : app ∈ d.appIds
  · obtain ⟨wanted, hw, rfl⟩ := List.mem_map.mp hnamed
    exact ⟨wanted, hw, happ.symm, resources_beforeStarts hd.apps hr.keyed _ hw r hrecord⟩
  · have hnothing := holdsNothing_beforeStarts hd.apps hr.keyed _ hnamed r hrecord
    rw [hnothing] at hholds
    cases hholds

variable [Platform]

/-- **The starts of a pass are made.** -/
theorem started_afterStarts :
    StorageReady d h (h.afterStarts d trigger nowMs) ∧
      ∀ i ∈ startsOf (planReconcile d (h.observe d)),
        Started i nowMs ((h.beforeStarts d (.succeed trigger nowMs)).view i.appId)
          ((h.afterStarts d trigger nowMs).view i.appId) := by
  have hw := waveReady_beforeStarts hd hr hfill nowMs
  unfold afterStarts applyStarts
  dsimp only
  split
  · rename_i hnone
    have hnil : startsOf (planReconcile d (h.observe d)) = [] :=
      hnone.resolve_right fun hnot => hnot rfl
    refine ⟨hw.storage, fun i hi => ?_⟩
    rw [hnil] at hi
    exact absurd hi List.not_mem_nil
  · have hwave := hw.foldl hd hr (l := startsOf (planReconcile d (h.observe d))) ?_
      ((nodup_planInstances hd.apps h).sublist (sublist_startsOf _))
      (fun i hi => isUp_beforeStarts_of_mem hr.keyed hd.apps _ hi) nowMs
    · exact ⟨hwave.1.storage, hwave.2⟩
    · intro i hi
      obtain ⟨p, hp, hup⟩ := List.mem_filterMap.mp hi
      rcases (mem_planInstances_iff h d p).mp hp with ⟨wanted, hwanted, rfl⟩ | ⟨a, -, -, rfl⟩
      · obtain rfl := broughtUp_actionFor hup
        exact ⟨hwanted, (isKeptUp_of_broughtUp hup).1⟩
      · unfold planUnnamed at hup
        split at hup <;> cases hup

end Wave

/-! ### What a pass takes away -/

/-- A volume that is let go of is unlisted, and the app it is let go of for is recorded on it. -/
theorem record_of_detach {h : Host} (hk : h.Keyed) {d : HostDesiredState} {volume : VolumeId}
    {app : AppId} (hmem : .detach volume app ∈ (planReconcile d (h.observe d)).volumes) :
    volume ∉ d.volumeIds ∧ ∃ r, (h.view app).record = some r ∧ r.volumeId = volume := by
  simp only [planReconcile, planVolumes, List.mem_append, List.mem_map, List.mem_filter,
    Bool.and_eq_true, decide_eq_true_eq] at hmem
  rcases hmem with ⟨v, -, hplan⟩ | ⟨c, ⟨hc, ⟨-, hunlisted⟩, -⟩, hplan⟩
  · unfold planVolume at hplan
    dsimp only at hplan
    repeat' split at hplan
    all_goals cases hplan
  · cases hplan
    obtain ⟨image, app, -, howner, heq⟩ := mem_observeVolumes_iff.mp hc
    have happ : c.appId = app := by rw [heq]; rfl
    refine ⟨hunlisted, ?_⟩
    rcases mem_of_volumeOwners howner with ⟨v, hv, hvolume, -⟩ | ⟨a, r, hr, hvolume, hrapp⟩
    · exact absurd (List.mem_map.mpr ⟨v, hv, hvolume⟩) hunlisted
    · refine ⟨r, ?_, hvolume⟩
      rw [happ, ← hrapp, hk a r hr]
      exact hr

/-- What is torn down is a volume listed as absent. -/
theorem absent_of_teardown {d : HostDesiredState} {o : ObservedState} {desired : DesiredVolume}
    (hmem : .teardown desired ∈ (planReconcile d o).volumes) :
    desired ∈ d.volumes ∧ desired.desiredState = .absent := by
  simp only [planReconcile, planVolumes, List.mem_append, List.mem_map] at hmem
  rcases hmem with ⟨v, hv, hplan⟩ | ⟨c, -, hplan⟩
  · unfold planVolume at hplan
    dsimp only at hplan
    split at hplan
    · rename_i habsent
      repeat' split at hplan
      all_goals cases hplan
      exact ⟨hv, habsent⟩
    · split at hplan <;> cases hplan
  · cases hplan

/-- **A pass spares the volumes listed as present**: it takes no volume of theirs away, and nothing
of their apps. -/
theorem Ready.spares {d : HostDesiredState} (hd : d.Consistent) {h : Host} (hr : h.Ready d) :
    ∀ p ∈ (planReconcile d (h.observe d)).volumes, p.Spares d := by
  intro p hp
  cases p with
  | teardown desired =>
    obtain ⟨hmem, habsent⟩ := absent_of_teardown hp
    intro v hv hpresent
    have hne : v ≠ desired := by
      rintro rfl
      rw [hpresent] at habsent
      cases habsent
    exact ⟨fun heq => hne (List.inj_on_of_nodup_map hd.owners hv hmem heq),
      fun heq => hne (List.inj_on_of_nodup_map hd.volumes hv hmem heq)⟩
  | detach volume app =>
    obtain ⟨hunlisted, r, hrecord, hvolume⟩ := record_of_detach hr.keyed hp
    rintro v hv - rfl
    refine hunlisted (List.mem_map.mpr ⟨v, hv, ?_⟩)
    rw [← hvolume, hr.oneVolume v hv r hrecord]
  | provision desired => trivial
  | blocked desired blockedBy => trivial
  | none volume => trivial

/-- Taking and deleting checkpoints moves nothing else. -/
theorem applyCheckpoints_eq (h : Host) (plan : ReconcilePlan) (answers : CheckpointAnswers) :
    ∃ checkpoints, h.applyCheckpoints plan answers = { h with checkpoints := checkpoints } := by
  refine Frame.foldl_rel
    (R := fun h h' : Host => ∃ checkpoints, h' = { h with checkpoints := checkpoints })
    (fun h => ⟨h.checkpoints, rfl⟩) ?_ plan.checkpoints (fun h p _ => ?_) h
  · rintro h₁ h₂ h₃ ⟨cs, rfl⟩ ⟨cs', rfl⟩
    exact ⟨cs', rfl⟩
  · cases p <;> simp only [applyCheckpoint]
    all_goals try split
    all_goals exact ⟨_, rfl⟩

/-- The storage a pass leaves. -/
structure StorageSettled (d : HostDesiredState) (h h' : Host) : Prop where
  laid : h'.Laid d
  served : h'.AllServed d
  deleted : h'.DeletedOnReport
  config : h'.config = h.config
  checkpoints : ∀ c ∈ d.checkpoints, h'.HasCheckpoint c
  gone : ∀ v ∈ d.volumes, v.desiredState = .absent →
    h.images[v.volumeId]? = none ∨ .teardown v ∈ (planReconcile d (h.observe d)).volumes →
    h'.images[v.volumeId]? = none

/-- **The storage after a pass**: what is listed as present is ready, and what was to be deleted is
gone. -/
theorem storageSettled_reconcile [Platform] {d : HostDesiredState} (hd : d.Consistent) {h : Host}
    (hr : h.Ready d) {trigger : Trigger} (hfill : h.Fillable d trigger) (nowMs : ℤ) :
    StorageSettled d h (h.reconcile d (.succeed trigger nowMs)) := by
  have hready := (started_afterStarts hd hr hfill nowMs).1
  obtain ⟨htaken, hdeleted⟩ :=
    takenAway_applyTeardowns (hr.spares hd) (h.afterStarts d trigger nowMs)
  have hcheckpoints := @settled_applyCheckpoints _ hd h _
    (htaken.checkpoints.trans hready.checkpoints)
  obtain ⟨checkpoints, heq⟩ := applyCheckpoints_eq
    ((h.afterStarts d trigger nowMs).applyTeardowns (planReconcile d (h.observe d)) .succeed)
    (planReconcile d (h.observe d)) .succeed
  have hlaid := htaken.laid hready.laid
  rw [reconcile_succeed h hd.apps]
  refine ⟨?_, ?_, ?_, ?_, hcheckpoints, fun v hv habsent hgone => ?_⟩
  all_goals rw [heq]
  · exact ⟨hlaid.injective, hlaid.enough⟩
  · exact htaken.served hready.laid hready.served
  · exact htaken.deleted hready.deleted
  · exact htaken.only.config.trans hready.config
  · rcases hgone with hnone | hplanned
    · refine htaken.images _ ((hready.images _ fun u hu hpresent heq => ?_).trans hnone)
      rw [List.inj_on_of_nodup_map hd.volumes hu hv heq, habsent] at hpresent
      cases hpresent
    · exact hdeleted v hplanned

end Host

/-! ### What a pass leaves of an app -/

/-- What a pass leaves of an app the document names, from where the stop of its action left it. -/
inductive NamedEffect [Platform] (wanted : DesiredInstance) (nowMs : ℤ) (v : AppView) :
    InstancePlan → AppView → Prop where
  | stop (app : AppId) (reason : InstanceStopReason) :
      NamedEffect wanted nowMs v (.stop app reason) v
  | leftAlone (app : AppId) : NamedEffect wanted nowMs v (.none app) v
  | sleep (slot : ℕ) (hslot : v.slot = some slot) :
      NamedEffect wanted nowMs v (.sleep wanted)
        { v with
          record := some
            (adoptedRecord v.record wanted (describeSlot slot wanted.appId) .idle) }
  | hold (slot : ℕ) (hslot : v.slot = some slot) :
      NamedEffect wanted nowMs v (.hold wanted)
        { v with
          record := some (.new (recordFields wanted (describeSlot slot wanted.appId)) .stopped
            initialTracker) }
  | started (p : InstancePlan) (hp : p.broughtUp = some wanted) (v' : AppView)
      (he : Started wanted nowMs v v') : NamedEffect wanted nowMs v p v'

/-- No instance of the document is forgotten. -/
theorem planInstance_ne_forget (wanted : DesiredInstance) (current : Option ObservedInstance)
    (volumeLost : Bool) (app : AppId) : planInstance wanted current volumeLost ≠ .forget app := by
  rcases present_or_absent current with ⟨c, rfl, hp⟩ | ⟨hnone, -⟩
  · rw [planInstance_of_present wanted hp, planPresentInstance]
    repeat' split
    all_goals exact InstancePlan.noConfusion
  · rw [planInstance_of_absent wanted hnone]
    split <;> exact InstancePlan.noConfusion

/-- An app that holds a slot is written a record on it. -/
theorem SlotEffect.eq_of_held {desired : DesiredInstance} {write : AppSlot → InstanceRecord}
    {v v' : AppView} (he : SlotEffect desired write v v') {slot : ℕ} (hslot : v.slot = some slot) :
    v' = { v with record := some (write (describeSlot slot desired.appId)) } := by
  cases he with
  | written slot' hslot' =>
    obtain rfl : slot = slot' := by
      rw [hslot] at hslot'
      exact Option.some.inj (hslot'.resolve_left (Option.some_ne_none slot))
    rw [← hslot]
  | noSlot hnone =>
    rw [hslot] at hnone
    cases hnone

namespace Host

section Effects

variable [Platform] {d : HostDesiredState} (hd : d.Consistent) {h : Host} (hr : h.Ready d)
  {trigger : Trigger} (hfill : h.Fillable d trigger) (nowMs : ℤ)
include hd hr

/-- A pass takes no slot from an app the document names. -/
theorem view_reconcile_of_named (trigger : Trigger) {app : AppId} (happ : app ∈ d.appIds) :
    (h.reconcile d (.succeed trigger nowMs)).view app =
      (h.afterStarts d trigger nowMs).view app := by
  obtain ⟨slot, hview, rfl | ⟨-, p, hp, htakes⟩⟩ :=
    losesSlot_reconcile (h := h) (.succeed trigger nowMs) hd.apps rfl app
  · exact hview
  · obtain ⟨volume, hvolume, hvapp, habsent, -⟩ :=
      exists_removed_of_takesSlotOf hr.keyed happ hp htakes
    exact absurd (hvapp ▸ happ) (hd.absent volume hvolume habsent)

include hfill

omit [Platform] in
/-- An app the document names holds a slot once its volume is ready. -/
theorem view_madeReady_of_named {wanted : DesiredInstance} (hw : wanted ∈ d.instances) :
    ∃ slot, (h.madeReady d (.succeed trigger nowMs)).view wanted.appId =
      (((h.view wanted.appId).synced d wanted.appId).afterStop (h.actionFor d wanted)).withSlot
        (some slot) := by
  have hp := (mem_planInstances_iff h d _).mpr (.inl ⟨wanted, hw, rfl⟩)
  obtain ⟨slot, -, hslot, -⟩ := (storageReady_madeReady hd hr hfill nowMs).served.exists_slot hd hw
  obtain ⟨slot', hview, -⟩ := view_madeReady hr.keyed (.succeed trigger nowMs) hd.apps hp
  rw [show (h.actionFor d wanted).appId = wanted.appId from appId_planInstance _ _ _] at hview
  have hheld : slot' = some slot := (congrArg AppView.slot hview).symm.trans hslot
  exact ⟨slot, by rw [hview, hheld]⟩

/-- The wave starts what a pass is to bring up. -/
theorem started_of_broughtUp {wanted : DesiredInstance} (hw : wanted ∈ d.instances)
    (hup : (h.actionFor d wanted).broughtUp = some wanted) :
    Started wanted nowMs ((h.madeReady d (.succeed trigger nowMs)).view wanted.appId)
      ((h.afterStarts d trigger nowMs).view wanted.appId) := by
  have hp := (mem_planInstances_iff h d _).mpr (.inl ⟨wanted, hw, rfl⟩)
  have hidle := view_beforeStarts_of_idle hr.keyed (.succeed trigger nowMs) hd.apps hp
  have hstarted := (started_afterStarts hd hr hfill nowMs).2 wanted
    (List.mem_filterMap.mpr ⟨_, hp, hup⟩)
  rw [show (h.actionFor d wanted).appId = wanted.appId from appId_planInstance _ _ _] at hidle
  rw [← hidle]
  · exact hstarted
  all_goals
    intro h'
    cases haction : h.actionFor d wanted <;> rw [haction] at hup <;> first | rfl | cases hup

/-- **What a pass does to an app the document names** where everything succeeds. -/
theorem namedEffect_reconcile {wanted : DesiredInstance} (hw : wanted ∈ d.instances) :
    ∃ slot, NamedEffect wanted nowMs
      ((((h.view wanted.appId).synced d wanted.appId).afterStop (h.actionFor d wanted)).withSlot
        (some slot))
      (h.actionFor d wanted)
      ((h.reconcile d (.succeed trigger nowMs)).view wanted.appId) := by
  have hp := (mem_planInstances_iff h d _).mpr (.inl ⟨wanted, hw, rfl⟩)
  obtain ⟨slot, hready⟩ := view_madeReady_of_named hd hr hfill nowMs hw
  refine ⟨slot, ?_⟩
  have hslot := congrArg AppView.slot hready
  have hstarted := started_of_broughtUp hd hr hfill nowMs hw
  have heffect := actionEffect_applyStarts hr.keyed (.succeed trigger nowMs) hd.apps hp
  rw [show (h.actionFor d wanted).appId = wanted.appId from appId_planInstance _ _ _] at heffect
  change ActionEffect _ _ _ _ ((h.afterStarts d trigger nowMs).view wanted.appId) at heffect
  rw [view_reconcile_of_named hd hr nowMs trigger (List.mem_map_of_mem hw), ← hready]
  generalize (h.madeReady d (.succeed trigger nowMs)).view wanted.appId = v at *
  generalize (h.afterStarts d trigger nowMs).view wanted.appId = v' at *
  have hdesired : ∀ desired, (h.actionFor d wanted).desired? = some desired → desired = wanted :=
    fun desired => desired_planInstance
  have hbrought : ∀ desired, (h.actionFor d wanted).broughtUp = some desired →
      NamedEffect wanted nowMs v (h.actionFor d wanted) v' := by
    intro desired hup
    obtain rfl := broughtUp_actionFor hup
    exact .started _ hup v' (hstarted hup)
  -- a start is made by the wave; the other actions are read off what an action can do
  generalize haction : h.actionFor d wanted = p at *
  cases heffect with
  | stop app reason => exact .stop app reason
  | forget app => exact absurd haction (planInstance_ne_forget _ _ _ app)
  | leftAlone app => exact .leftAlone app
  | sleep desired v' he =>
    obtain rfl := hdesired desired rfl
    rw [he.eq_of_held hslot]
    exact .sleep slot hslot
  | hold desired v' he =>
    obtain rfl := hdesired desired rfl
    rw [he.eq_of_held hslot]
    exact .hold slot hslot
  | notIsolated p desired hup | waiting p desired hup
  | started p desired hup => exact hbrought desired hup

end Effects

end Host

/-- The record is on the volume, where there is one. -/
def AppView.RecordedOn (v : AppView) (volume : VolumeId) : Prop :=
  ∀ r, v.record = some r → r.volumeId = volume

namespace AppView.RecordedOn

variable {v v' : AppView} {volume : VolumeId}

theorem map_record (hv : v.RecordedOn volume) {f : InstanceRecord → InstanceRecord}
    (hf : ∀ r, (f r).volumeId = r.volumeId) (hr : v'.record = v.record.map f) :
    v'.RecordedOn volume := by
  intro r hr'
  rw [hr] at hr'
  obtain ⟨r', hr'', rfl⟩ := Option.map_eq_some_iff.mp hr'
  rw [hf, hv r' hr'']

theorem synced (hv : v.RecordedOn volume) (d : HostDesiredState) (app : AppId) :
    (v.synced d app).RecordedOn volume := by
  refine hv.map_record (f := fun r => (d.instances.find? fun wanted => wanted.appId = app).elim r
    (Host.syncFields · r)) (fun r => ?_) rfl
  cases d.instances.find? fun wanted => wanted.appId = app <;> rfl

theorem afterStop (hv : v.RecordedOn volume) (p : InstancePlan) :
    (v.afterStop p).RecordedOn volume := by
  cases p with
  | stop app reason =>
    refine hv.map_record (f := fun r =>
      { r with state := .stopped, stopRequested := true, startAttempts := noStartAttempts })
      (fun _ => rfl) rfl
  | replace desired | recover desired | forget app => exact fun r hr => by cases hr
  | start desired | sleep desired | hold desired | none app => exact hv

theorem namedEffect [Platform] {wanted : DesiredInstance} {nowMs : ℤ} {p : InstancePlan}
    (hv : v.RecordedOn wanted.volumeId) (he : NamedEffect wanted nowMs v p v') :
    v'.RecordedOn wanted.volumeId := by
  cases he with
  | stop app reason => exact hv
  | leftAlone app => exact hv
  | sleep slot hslot | hold slot hslot =>
    intro r hr
    cases hr
    rfl
  | started p hp v' he =>
    intro r hr
    cases he with
    | booted href slot hslot =>
      cases hr
      rfl
    | refused r' said hr' href =>
      cases hr
      exact hv r' hr'

end AppView.RecordedOn

namespace Host

section Again

variable [Platform] {d : HostDesiredState} (hd : d.Consistent) {h : Host} (hr : h.Ready d)
  {trigger : Trigger} (hfill : h.Fillable d trigger) (nowMs : ℤ)
include hd hr hfill

/-- No pass moves a record to another volume than the one listed for its app. -/
theorem recordedOn_reconcile {v : DesiredVolume} (hv : v ∈ d.volumes) :
    ((h.reconcile d (.succeed trigger nowMs)).view v.appId).RecordedOn v.volumeId := by
  have hon : (h.view v.appId).RecordedOn v.volumeId := hr.oneVolume v hv
  by_cases happ : v.appId ∈ d.appIds
  · obtain ⟨wanted, hw, heq⟩ := List.mem_map.mp happ
    obtain ⟨u, hu, hvolume, huapp, -⟩ := hd.instances wanted hw
    obtain rfl := List.inj_on_of_nodup_map hd.owners hu hv (huapp.trans heq)
    obtain ⟨slot, heffect⟩ := namedEffect_reconcile hd hr hfill nowMs hw
    rw [huapp, hvolume] at hon ⊢
    have hstopped := (hon.synced d wanted.appId).afterStop (h.actionFor d wanted)
    exact AppView.RecordedOn.namedEffect (v := AppView.withSlot _ (some slot)) hstopped heffect
  · have heffect := h.view_reconcile hr.keyed d (.succeed trigger nowMs) v.appId
    generalize (h.reconcile d (.succeed trigger nowMs)).view v.appId = v' at heffect
    cases heffect with
    | skipped => exact hon
    | named hd hcron wanted hw heq => exact absurd (heq ▸ List.mem_map_of_mem hw) happ
    | stopped hd hcron hnot hup slot => exact hon.afterStop (.stop v.appId .notDesired)
    | forgotten hd hcron hnot hdown slot => exact hon.afterStop (.forget v.appId)
    | unknown hd hcron hnot hvm hrecord slot => exact hon

/-- **The host is as ready for the next pass.** -/
theorem Ready.reconcile : (h.reconcile d (.succeed trigger nowMs)).Ready d := by
  have hstorage := storageSettled_reconcile hd hr hfill nowMs
  exact
    { keyed := hr.keyed.reconcile d _
      laid := hstorage.laid
      deleted := hstorage.deleted
      oneVolume := fun v hv => recordedOn_reconcile hd hr hfill nowMs hv
      memory := by
        rw [hstorage.config]
        exact hr.memory
      ingress := by
        rw [hstorage.config]
        exact hr.ingress }

end Again

end Host

end Nibrunner

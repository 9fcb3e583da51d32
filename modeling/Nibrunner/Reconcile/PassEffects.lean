import Nibrunner.ForStd.Frame
import Nibrunner.Reconcile.Pass

/-!
# What a pass can do to one app

A pass applies its plan in phases, each a loop over the whole plan. An app is named by at most one
action of a plan, and every phase touches of an app only what that action says, so a whole pass
does to one app what the phases of its own action do to it: `view_reconcile` says what that is.

* The document's fields go onto the record (`AppView.synced`);
* the action's stop is applied (`AppView.afterStop`);
* a volume provisioned for the app may hand it a slot (`AppView.GainsSlot`);
* the action's sleep, hold or start is applied (`ActionEffect`);
* a volume taken away may give its slot back (`AppView.LosesSlot`).
-/

namespace Nibrunner

open Std

/-! ### The plan's actions, one for each app -/

@[simp] theorem appId_planInstance (wanted : DesiredInstance) (current : Option ObservedInstance)
    (volumeLost : Bool) : (planInstance wanted current volumeLost).appId = wanted.appId := by
  rcases present_or_absent current with ⟨c, rfl, hp⟩ | ⟨hnone, -⟩
  · rw [planInstance_of_present wanted hp, planPresentInstance]
    repeat' split
    all_goals rfl
  · rw [planInstance_of_absent wanted hnone]
    split <;> rfl

@[simp] theorem appId_planUnnamed (current : ObservedInstance) :
    (planUnnamed current).appId = current.appId := by
  unfold planUnnamed
  split <;> rfl

/-- One action for each app of the document, in its order, and one for each app beside it. -/
theorem appIds_planInstances (d : HostDesiredState) (o : ObservedState) :
    (planInstances d o).map (·.appId) =
      d.appIds ++ (o.instances.filter (·.appId ∉ d.appIds)).map (·.appId) := by
  simp only [planInstances, List.map_append, List.map_map, Function.comp_def, appId_planInstance,
    appId_planUnnamed]
  rfl

/-- Distinct names, and behind them what is observed under none of them, are distinct. -/
theorem nodup_named_append {α β : Type} {named : List β} {l : List α} {id : α → β}
    (hnamed : named.Nodup) (hl : (l.map id).Nodup) {p : α → Bool}
    (hp : ∀ x ∈ l, p x = true → id x ∉ named) : (named ++ (l.filter p).map id).Nodup := by
  refine List.nodup_append'.mpr ⟨hnamed, hl.sublist (List.filter_sublist.map _), ?_⟩
  intro i hi hmem
  obtain ⟨x, hx, rfl⟩ := List.mem_map.mp hmem
  exact hp x (List.mem_filter.mp hx).1 (List.mem_filter.mp hx).2 hi

theorem nodup_appIds_planInstances {d : HostDesiredState} (hd : d.appIds.Nodup)
    {o : ObservedState} (ho : (o.instances.map (·.appId)).Nodup) :
    ((planInstances d o).map (·.appId)).Nodup := by
  rw [appIds_planInstances]
  exact nodup_named_append hd ho fun _ _ h => of_decide_eq_true h

/-- An action that brings an instance up is about that instance's app. -/
theorem InstancePlan.appId_of_broughtUp {p : InstancePlan} {desired : DesiredInstance}
    (h : p.broughtUp = some desired) : desired.appId = p.appId := by
  cases p <;> cases h <;> rfl

namespace Host

theorem mem_knownApps {h : Host} {app : AppId} :
    app ∈ h.knownApps ↔ (h.view app).vm ≠ none ∨ (h.view app).record ≠ none := by
  have hkeys : ∀ {β : Type} (m : ExtTreeMap AppId β), app ∈ m.keys ↔ m[app]? ≠ none := fun m => by
    rw [ExtTreeMap.mem_keys, ExtTreeMap.mem_iff_isSome_getElem?, Option.isSome_iff_ne_none]
  rw [knownApps, hkeys, Ne, ExtTreeMap.getElem?_indexBy_eq_none_iff]
  simp only [view, ne_eq, id_eq, List.mem_append, hkeys, not_forall, not_not, exists_prop,
    exists_eq_right]

theorem nodup_knownApps (h : Host) : h.knownApps.Nodup := ExtTreeMap.nodup_keys

theorem appIds_observe (h : Host) (d : HostDesiredState) :
    (h.observe d).instances.map (·.appId) = h.knownApps := by
  simp only [observe, List.map_map]
  exact List.map_id _

/-- What a host observes of an app it knows is found under the app, and nothing else is. -/
theorem instancesById_observe (h : Host) (d : HostDesiredState) (app : AppId) :
    (h.observe d).instancesById[app]? =
      if app ∈ h.knownApps then some (h.observeInstance app) else none := by
  have hnodup : ((h.observe d).instances.map (·.appId)).Nodup := by
    rw [appIds_observe]
    exact h.nodup_knownApps
  split
  · rename_i hmem
    exact ExtTreeMap.getElem?_indexBy_of_mem hnodup (List.mem_map_of_mem hmem)
  · rename_i hnot
    rw [ObservedState.instancesById, ExtTreeMap.getElem?_indexBy_eq_none_iff]
    intro i hi happ
    refine hnot ?_
    rw [← appIds_observe h d, ← happ]
    exact List.mem_map_of_mem hi

/-- What a pass plans for an instance the document names. -/
def actionFor (h : Host) (d : HostDesiredState) (wanted : DesiredInstance) : InstancePlan :=
  planInstance wanted (some (h.observeInstance wanted.appId))
    (wanted.volumeId ∈ (h.observe d).lostVolumes)

/-- An app the host does not know is planned as one observed absent. -/
theorem planInstance_observe (h : Host) (d : HostDesiredState) (wanted : DesiredInstance) :
    planInstance wanted (h.observe d).instancesById[wanted.appId]?
      (wanted.volumeId ∈ (h.observe d).lostVolumes) = h.actionFor d wanted := by
  rw [actionFor, instancesById_observe]
  split
  · rfl
  · rename_i hnot
    rw [mem_knownApps, not_or, ne_eq, not_not, ne_eq, not_not] at hnot
    obtain ⟨hvm, hrecord⟩ := hnot
    have habsent : (h.observeInstance wanted.appId).present = false := by
      simp only [view] at hvm hrecord
      simp [observeInstance, vmStatus, hvm, hrecord, unknownVm]
    rw [planInstance_of_absent wanted rfl, planInstance_of_absent wanted]
    simp [habsent]

/-- The actions of a pass: one for each instance of the document, and one for each app the host
knows beside them. -/
theorem mem_planInstances_iff (h : Host) (d : HostDesiredState) (p : InstancePlan) :
    p ∈ (planReconcile d (h.observe d)).instances ↔
      (∃ wanted ∈ d.instances, p = h.actionFor d wanted) ∨
        ∃ app ∈ h.knownApps, app ∉ d.appIds ∧ p = planUnnamed (h.observeInstance app) := by
  simp only [planReconcile, planInstances, List.mem_append, List.mem_map, List.mem_filter,
    planInstance_observe]
  refine or_congr ?_ ?_
  · exact ⟨fun ⟨w, hw, heq⟩ => ⟨w, hw, heq.symm⟩, fun ⟨w, hw, heq⟩ => ⟨w, hw, heq.symm⟩⟩
  · constructor
    · rintro ⟨i, ⟨hi, hnot⟩, rfl⟩
      obtain ⟨app, happ, rfl⟩ := List.mem_map.mp hi
      exact ⟨app, happ, of_decide_eq_true hnot, rfl⟩
    · rintro ⟨app, happ, hnot, rfl⟩
      exact ⟨_, ⟨List.mem_map_of_mem happ, decide_eq_true hnot⟩, rfl⟩

/-- No app is named by two actions of a plan. -/
theorem nodup_planInstances {d : HostDesiredState} (hd : d.appIds.Nodup) (h : Host) :
    ((planReconcile d (h.observe d)).instances.map (·.appId)).Nodup := by
  refine nodup_appIds_planInstances hd ?_
  rw [appIds_observe]
  exact h.nodup_knownApps

/-! ### The phases before the starts -/

/-- Every record is under the app it is of. -/
def Keyed (h : Host) : Prop := ∀ app, (h.view app).Keyed app

theorem Keyed.of_onlyApp {h h' : Host} (hk : h.Keyed) {app : AppId} (hf : OnlyApp app h h')
    (happ : (h'.view app).Keyed app) : h'.Keyed := by
  intro a
  by_cases ha : a = app
  · subst ha
    exact happ
  · rw [hf.view ha]
    exact hk a

end Host

namespace AppView

/-- The document's fields on the record, where the document names the app. -/
def synced (d : HostDesiredState) (app : AppId) (v : AppView) : AppView :=
  { v with
    record := v.record.map fun r =>
      (d.instances.find? fun wanted => wanted.appId = app).elim r (Host.syncFields · r) }

/-- The same app on another slot, or on none. -/
def withSlot (v : AppView) (slot : Option ℕ) : AppView := { v with slot := slot }

@[simp] theorem isUp_withSlot (v : AppView) (slot : Option ℕ) : (v.withSlot slot).isUp = v.isUp :=
  rfl

/-- Nothing is held of the app but its slot. -/
def cleared (v : AppView) : AppView := { v with record := none, vm := none, snapshot := none }

/-- What the stop of an action leaves. -/
def afterStop (v : AppView) : InstancePlan → AppView
  | .stop .. => v.stop
  | .replace _ | .recover _ | .forget _ => v.cleared
  | _ => v

/-- The app may have been handed a slot where it held none. -/
def GainsSlot (v v' : AppView) : Prop :=
  ∃ slot, v' = v.withSlot slot ∧ (v.slot = none ∨ slot = v.slot)

theorem GainsSlot.refl (v : AppView) : GainsSlot v v := ⟨v.slot, rfl, .inr rfl⟩

theorem GainsSlot.trans {v v' v'' : AppView} (h₁ : GainsSlot v v') (h₂ : GainsSlot v' v'') :
    GainsSlot v v'' := by
  obtain ⟨slot₁, rfl, hs₁⟩ := h₁
  obtain ⟨slot₂, rfl, hs₂⟩ := h₂
  refine ⟨slot₂, rfl, ?_⟩
  rcases hs₁ with hs₁ | rfl
  · exact .inl hs₁
  · exact hs₂

theorem synced_of_notMem {d : HostDesiredState} {app : AppId} (hnot : app ∉ d.appIds)
    (v : AppView) : v.synced d app = v := by
  have hfind : (d.instances.find? fun wanted => wanted.appId = app) = none := by
    rw [List.find?_eq_none]
    intro wanted hw happ
    exact hnot (List.mem_map.mpr ⟨wanted, hw, of_decide_eq_true happ⟩)
  simp [synced, hfind]

/-- In a document that names no app twice, what is taken onto a record are its own instance's
fields. -/
theorem synced_of_mem {d : HostDesiredState} (hd : d.appIds.Nodup) {wanted : DesiredInstance}
    (hw : wanted ∈ d.instances) (v : AppView) :
    v.synced d wanted.appId = { v with record := v.record.map (Host.syncFields wanted) } := by
  have hfind : (d.instances.find? fun i => i.appId = wanted.appId) = some wanted := by
    cases hfound : d.instances.find? fun i => i.appId = wanted.appId with
    | none => exact absurd (decide_eq_true rfl) (List.find?_eq_none.mp hfound wanted hw)
    | some i =>
      have happ : i.appId = wanted.appId := by simpa using List.find?_some hfound
      rw [List.inj_on_of_nodup_map hd (List.mem_of_find?_eq_some hfound) hw happ]
  simp [synced, hfind]

theorem Keyed.synced {app : AppId} {v : AppView} (hk : v.Keyed app) (d : HostDesiredState) :
    (v.synced d app).Keyed app := by
  intro r hr
  obtain ⟨r', hr', rfl⟩ := Option.map_eq_some_iff.mp hr
  cases d.instances.find? fun wanted => wanted.appId = app with
  | none => exact hk r' hr'
  | some wanted => exact hk r' hr'

theorem Keyed.afterStop {app : AppId} {v : AppView} (hk : v.Keyed app) (p : InstancePlan) :
    (v.afterStop p).Keyed app := by
  have hcleared : v.cleared.Keyed app := fun r hr => by cases hr
  cases p with
  | stop a reason =>
    intro r hr
    obtain ⟨r', hr', rfl⟩ := Option.map_eq_some_iff.mp hr
    exact hk r' hr'
  | replace desired | recover desired | forget a => exact hcleared
  | start desired | sleep desired | hold desired | none a => exact hk

end AppView

namespace Host

open Frame

theorem local_sync :
    Local Keyed view DesiredInstance.appId
      fun (h : Host) wanted => h.updateRecord wanted.appId (syncFields wanted) where
  keeps h wanted hk := by
    refine hk.of_onlyApp (.updateRecord h _ _) ?_
    rw [view_updateRecord]
    intro r hr
    obtain ⟨r', hr', rfl⟩ := Option.map_eq_some_iff.mp hr
    exact hk _ r' hr'
  frame h wanted _ _ ha := OnlyApp.view (.updateRecord h _ _) ha

/-- The document's fields go onto the records of the apps it names, and nothing else moves. -/
theorem view_syncDesired {h : Host} (hk : h.Keyed) {d : HostDesiredState} (hd : d.appIds.Nodup)
    (app : AppId) : (h.syncDesired d).view app = (h.view app).synced d app := by
  unfold AppView.synced
  cases hfind : d.instances.find? fun wanted => wanted.appId = app with
  | none =>
    have hnot : app ∉ d.instances.map (·.appId) := by
      rw [List.find?_eq_none] at hfind
      intro hmem
      obtain ⟨wanted, hw, rfl⟩ := List.mem_map.mp hmem
      exact hfind wanted hw (decide_eq_true rfl)
    rw [syncDesired, local_sync.part_foldl_of_notMem hk hnot]
    simp
  | some wanted =>
    have hw := List.mem_of_find?_eq_some hfind
    obtain rfl : wanted.appId = app := by simpa using List.find?_some hfind
    obtain ⟨before, after, -, -, hsame, hstep⟩ := local_sync.part_foldl_of_mem hk hd hw
    rw [syncDesired, hstep, view_updateRecord, hsame]
    rfl

theorem Keyed.syncDesired {h : Host} (hk : h.Keyed) (d : HostDesiredState) :
    (h.syncDesired d).Keyed := local_sync.keeps_foldl hk d.instances

theorem view_clearInstance (h : Host) (app : AppId) :
    (h.clearInstance app).view app = (h.view app).cleared := by
  rw [clearInstance, view_dropRecord, view_discardVm, view_stopInstance]
  rfl

/-- What the stop of an action does to its app. -/
theorem view_applyStop (h : Host) (p : InstancePlan) :
    (h.applyStop p).view p.appId = (h.view p.appId).afterStop p := by
  cases p with
  | stop app reason => exact view_stopInstance h app
  | replace desired | recover desired => exact view_clearInstance h desired.appId
  | forget app =>
    simp only [applyStop, applyStopAs, InstancePlan.appId]
    rw [view_dropRecord, view_discardVm]
    rfl
  | start desired => rfl
  | sleep desired => rfl
  | hold desired => rfl
  | none app => rfl

theorem OnlyApp.applyStop (h : Host) (p : InstancePlan) : OnlyApp p.appId h (h.applyStop p) := by
  have hforget : ∀ (h : Host) app, OnlyApp app h ((h.discardVm app).dropRecord app) :=
    fun h app => (OnlyApp.discardVm h app).trans (.dropRecord _ app)
  cases p with
  | stop app reason => exact .stopInstance h app
  | replace desired
  | recover desired => exact (OnlyApp.stopInstance h desired.appId).trans (hforget _ _)
  | forget app => exact hforget h app
  | start desired | sleep desired | hold desired | none app => exact .refl _ h

theorem local_stop : Local Keyed view InstancePlan.appId applyStop where
  keeps h p hk := by
    refine hk.of_onlyApp (.applyStop h p) ?_
    rw [view_applyStop]
    exact (hk p.appId).afterStop p
  frame h p _ _ ha := (OnlyApp.applyStop h p).view ha

/-- A host whose records are what they were, and whose slots are those there were and new ones. -/
def OnlySlots (h h' : Host) : Prop := ∀ app, AppView.GainsSlot (h.view app) (h'.view app)

theorem OnlySlots.refl (h : Host) : OnlySlots h h := fun _ => .refl _

theorem OnlySlots.trans {h h' h'' : Host} (h₁ : OnlySlots h h') (h₂ : OnlySlots h' h'') :
    OnlySlots h h'' := fun app => (h₁ app).trans (h₂ app)

theorem OnlySlots.keyed {h h' : Host} (hs : OnlySlots h h') (hk : h.Keyed) : h'.Keyed := by
  intro app
  obtain ⟨slot, hview, -⟩ := hs app
  rw [hview]
  exact hk app

theorem OnlySlots.of_allocator {h h' : Host} (hv : OnlyVolumes h h')
    (hal : ∀ app, h.slotOf app = none ∨ h'.slotOf app = h.slotOf app) : OnlySlots h h' := by
  refine fun app => ⟨h'.slotOf app, ?_, hal app⟩
  simp only [view, hv.records, hv.vms, hv.snapshots, hv.boots]
  rfl

theorem OnlySlots.slotFor {h h' : Host} {app : AppId} {slot : AppSlot}
    (hs : h.slotFor app = some (slot, h')) : OnlySlots h h' := by
  refine .of_allocator (.slotFor hs) fun a => ?_
  cases hheld : h.slotOf a with
  | none => exact .inl rfl
  | some held => exact .inr (slotOf_slotFor_of_held hs hheld)

/-- Writing files, devices and reports moves nothing of any app. -/
private theorem OnlySlots.of_eq {h h' : Host} (hv : OnlyVolumes h h')
    (hal : h'.allocator = h.allocator) : OnlySlots h h' :=
  .of_allocator hv fun app => .inr (by rw [slotOf, slotOf, hal])

private theorem allocator_ensureDeviceFile {h h' : Host} {volume : VolumeId} {sizeBytes : ℕ}
    (hf : h.ensureDeviceFile volume sizeBytes = .ok h') : h'.allocator = h.allocator := by
  unfold Host.ensureDeviceFile at hf
  dsimp only at hf
  split at hf
  · cases hf
  · split at hf <;> cases hf
    rfl

/-- A provision does what writing files, devices and reports does, and hands its app a slot. -/
theorem provisionVolume_rel {R : Host → Host → Prop} {desired : DesiredVolume}
    (htrans : ∀ {h h' h''}, R h h' → R h' h'' → R h h'')
    (hfiles : ∀ {h h' : Host}, OnlyVolumes h h' → h'.allocator = h.allocator → R h h')
    (hslot : ∀ {h h' : Host} {slot : AppSlot},
      h.slotFor desired.appId = some (slot, h') → R h h')
    (h : Host) (answer : ProvisionAnswer) : R h (h.provisionVolume desired answer) := by
  have hprovision : R h (h.provision desired answer).1 := by
    unfold Host.provision
    cases hfile : h.ensureDeviceFile desired.volumeId desired.sizeBytes with
    | error reason => exact hfiles ⟨rfl, rfl, rfl, rfl, rfl⟩ rfl
    | ok h₁ =>
      have hfiled : R h h₁ := hfiles (.ensureDeviceFile hfile) (allocator_ensureDeviceFile hfile)
      dsimp only
      cases hheld : h₁.slotFor desired.appId with
      | none => exact hfiled
      | some held =>
        obtain ⟨slot, h₂⟩ := held
        have hheld := htrans hfiled (hslot hheld)
        cases answer with
        | ok => exact htrans hheld (hfiles ⟨rfl, rfl, rfl, rfl, rfl⟩ rfl)
        | deviceFailed reason => exact hheld
        | formatFailed reason =>
          dsimp only
          split <;> exact htrans hheld (hfiles ⟨rfl, rfl, rfl, rfl, rfl⟩ rfl)
  unfold Host.provisionVolume
  split
  all_goals
    rename_i h' heq
    rw [heq] at hprovision
    exact htrans hprovision (hfiles ⟨rfl, rfl, rfl, rfl, rfl⟩ rfl)

theorem OnlySlots.provisionVolume (h : Host) (desired : DesiredVolume)
    (answer : ProvisionAnswer) : OnlySlots h (h.provisionVolume desired answer) :=
  provisionVolume_rel (R := OnlySlots) OnlySlots.trans OnlySlots.of_eq OnlySlots.slotFor h answer

/-- Making the volumes ready moves nothing of any app but the slot it may be handed. -/
theorem OnlySlots.applyVolumes (h : Host) (plan : ReconcilePlan) (o : ObservedState)
    (d : HostDesiredState) (trigger : Trigger) (answers : VolumeId → ProvisionAnswer) :
    OnlySlots h (h.applyVolumes plan o d trigger answers) := by
  unfold Host.applyVolumes
  refine OnlySlots.trans (.of_eq ⟨rfl, rfl, rfl, rfl, rfl⟩ rfl) ?_
  exact foldl_rel OnlySlots.refl OnlySlots.trans _
    (fun h desired _ => OnlySlots.provisionVolume h desired _) _

end Host

/-! ### Records stay under their apps -/

theorem SlotEffect.isUp_eq {desired : DesiredInstance} {write : AppSlot → InstanceRecord}
    {v v' : AppView} (he : SlotEffect desired write v v') : v'.isUp = v.isUp := by
  cases he <;> rfl

section Keyed

variable {desired : DesiredInstance} {v v' : AppView}

theorem SlotEffect.keyed {write : AppSlot → InstanceRecord} (he : SlotEffect desired write v v')
    (hk : v.Keyed desired.appId) (hwrite : ∀ slot, (write slot).appId = desired.appId) :
    v'.Keyed desired.appId := by
  cases he with
  | written slot hslot =>
    intro r hr
    cases hr
    exact hwrite _
  | noSlot hslot =>
    intro r hr
    cases hr
    exact appId_noSlotRecord hk

theorem StartEffect.keyed [Platform] {answers : StartAnswers}
    (he : StartEffect desired answers v v') (hk : v.Keyed desired.appId) :
    v'.Keyed desired.appId := by
  have hadopted : ∀ slot state, (adoptedRecord v.record desired slot state).appId = desired.appId :=
    appId_adoptedRecord hk
  cases he with
  | refused r said hr href =>
    intro r' hr'
    cases hr'
    exact hk r hr
  | noSlot href hslot =>
    intro r hr
    cases hr
    exact appId_noSlotRecord hk
  | turnedDown | notBooted | bootFailed | busy | booted =>
    intro r hr
    cases hr
    exact hadopted _ .pending

theorem ResumeEffect.keyed [Platform] {answers : Host.WakeAnswers}
    (he : ResumeEffect desired answers v v') (hk : v.Keyed desired.appId) :
    v'.Keyed desired.appId := by
  have hmap : ∀ f : InstanceRecord → InstanceRecord, (∀ r, (f r).appId = r.appId) →
      ∀ r, v.record.map f = some r → r.appId = desired.appId := by
    intro f hf r hr
    obtain ⟨r', hr', rfl⟩ := Option.map_eq_some_iff.mp hr
    rw [hf]
    exact hk r' hr'
  cases he with
  | noSlot => exact hk
  | kept slot hslot said | notRestored slot hslot hdown said vm hvm
  | restored slot hslot hdown s hs hdeployment hstamp hok => exact hmap _ fun _ => rfl
  | cold slot hslot hdown vm hvm v' hstart => exact hstart.keyed hk

end Keyed

/-! ### The starts -/

/-- What an action's sleep, hold or start does to its app. `room` says that the wave of starts
finds room for it. -/
inductive ActionEffect [Platform] (answers : StartAnswers) (room : Prop) (v : AppView) :
    InstancePlan → AppView → Prop where
  | stop (app : AppId) (reason : InstanceStopReason) :
      ActionEffect answers room v (.stop app reason) v
  | forget (app : AppId) : ActionEffect answers room v (.forget app) v
  | leftAlone (app : AppId) : ActionEffect answers room v (.none app) v
  | sleep (desired : DesiredInstance) (v' : AppView)
      (he : SlotEffect desired (adoptedRecord v.record desired · .idle) v v') :
      ActionEffect answers room v (.sleep desired) v'
  | hold (desired : DesiredInstance) (v' : AppView)
      (he : SlotEffect desired
        (fun slot => .new (recordFields desired slot) .stopped initialTracker)
        v v') :
      ActionEffect answers room v (.hold desired) v'
  /-- The isolation ruleset is not in place, and nothing is started. -/
  | notIsolated (p : InstancePlan) (desired : DesiredInstance) (hp : p.broughtUp = some desired) :
      ActionEffect answers room v p v
  | waiting (p : InstancePlan) (desired : DesiredInstance) (hp : p.broughtUp = some desired)
      (hroom : ¬ room) (shortfallMib : ℕ) (v' : AppView)
      (he : SlotEffect desired (waitingRecord v.record desired shortfallMib) v v') :
      ActionEffect answers room v p v'
  | started (p : InstancePlan) (desired : DesiredInstance) (hp : p.broughtUp = some desired)
      (v' : AppView) (he : StartEffect desired answers v v') : ActionEffect answers room v p v'

namespace Host

open Frame

theorem local_sleep : Local Keyed view InstancePlan.appId applySleep where
  keeps h p hk := by
    cases p with
    | sleep desired =>
      refine hk.of_onlyApp (.sleepInstance (hk _)) ?_
      exact (view_sleepInstance (hk _)).keyed (hk _) fun _ => appId_adoptedRecord (hk _) _ _
    | _ => exact hk
  frame h p _ hk ha := by
    cases p with
    | sleep desired => exact (OnlyApp.sleepInstance (hk _)).view ha
    | _ => rfl

theorem local_hold : Local Keyed view InstancePlan.appId applyHold where
  keeps h p hk := by
    cases p with
    | hold desired =>
      refine hk.of_onlyApp (.holdInstance (hk _)) ?_
      exact (view_holdInstance (hk _)).keyed (hk _) fun _ => rfl
    | _ => exact hk
  frame h p _ hk ha := by
    cases p with
    | hold desired => exact (OnlyApp.holdInstance (hk _)).view ha
    | _ => rfl

/-- The records a wave of starts has read, and the host as it has left it. -/
abbrev Wave := Host × List InstanceRecord

/-- What a wave is short of taking one more instance. -/
def shortfallIn (w : Wave) (desired : DesiredInstance) : Option ℕ :=
  memoryShortfallFor w.1.config.guestMemoryMib w.2 desired.appId desired.config.resources

section Wave

variable [Platform] (answers : AppId → StartAnswers)

theorem OnlyApp.applyStart {w : Wave} (hk : w.1.Keyed) (desired : DesiredInstance) :
    OnlyApp desired.appId w.1 (applyStart answers w desired).1 := by
  unfold Host.applyStart Host.applyStartAs
  dsimp only
  split
  · exact .waitForRoom (hk _) _
  · exact .startInstance (hk _) _

/-- A start of the wave is put off where there is no room, and made where there is. -/
theorem view_applyStart {w : Wave} (hk : w.1.Keyed) (desired : DesiredInstance) :
    (∃ shortfallMib, shortfallIn w desired = some shortfallMib ∧
      SlotEffect desired
        (waitingRecord (w.1.view desired.appId).record desired shortfallMib)
        (w.1.view desired.appId) ((applyStart answers w desired).1.view desired.appId)) ∨
      (shortfallIn w desired = none ∧
        StartEffect desired (answers desired.appId) (w.1.view desired.appId)
          ((applyStart answers w desired).1.view desired.appId)) := by
  unfold Host.applyStart Host.applyStartAs
  dsimp only
  split
  · rename_i shortfallMib hshort
    exact .inl ⟨shortfallMib, hshort, view_waitForRoom (hk _) shortfallMib⟩
  · rename_i hroom
    exact .inr ⟨hroom, view_startInstance (hk _) _⟩

/-- The records a start of the wave leaves: those before it, and where it was made, the one it
touched read back. -/
theorem applyStart_snd (w : Wave) (desired : DesiredInstance) :
    (applyStart answers w desired).2 =
      if shortfallIn w desired = none then
        w.2.filter (·.appId ≠ desired.appId) ++
          ((applyStart answers w desired).1.view desired.appId).record.toList
      else w.2 := by
  unfold Host.applyStart Host.applyStartAs shortfallIn
  dsimp only
  split
  · rename_i shortfallMib hshort
    rw [if_neg (by rw [hshort]; exact Option.some_ne_none _)]
  · rename_i hroom
    rw [if_pos hroom]
    rfl

theorem local_start :
    Local (fun w : Wave => w.1.Keyed) (fun w => w.1.view) DesiredInstance.appId
      (applyStart answers) where
  keeps w desired hk := by
    refine hk.of_onlyApp (.applyStart answers hk desired) ?_
    rcases view_applyStart answers hk desired with ⟨shortfallMib, -, he⟩ | ⟨-, he⟩
    · exact he.keyed (hk _) fun _ => appId_adoptedRecord (hk _) _ _
    · exact he.keyed (hk _)
  frame w desired _ hk ha := (OnlyApp.applyStart answers hk desired).view ha

end Wave

/-- The wave of a pass once the starts of `before` are made. -/
def wave [Platform] (h : Host) (d : HostDesiredState) (answers : PassAnswers)
    (before : List DesiredInstance) (stops : AppId → StopAnswer := fun _ => .down) : Wave :=
  let begun := h.beforeStarts d answers stops
  before.foldl (applyStartAs stops answers.start) (begun, begun.recordList)

/-- The pass finds room for the app when its turn comes, where it brings it up at all. -/
def RoomFor [Platform] (h : Host) (d : HostDesiredState) (answers : PassAnswers) (app : AppId) :
    Prop :=
  ∀ before desired after, startsOf (planReconcile d (h.observe d)) = before ++ desired :: after →
    desired.appId = app → shortfallIn (h.wave d answers before) desired = none

/-- A pass that starts one instance finds room for everything it starts where it finds room for
that one. -/
theorem roomFor_of_startsOf_eq [Platform] {h : Host} {d : HostDesiredState} {answers : PassAnswers}
    {desired : DesiredInstance} (hstarts : startsOf (planReconcile d (h.observe d)) = [desired])
    (hroom : shortfallIn (h.wave d answers []) desired = none) (app : AppId) :
    h.RoomFor d answers app := by
  intro before x after hsplit _
  rw [hstarts] at hsplit
  cases before with
  | nil =>
    obtain rfl : desired = x := (List.cons.inj hsplit).1
    exact hroom
  | cons y before =>
    have hlength := congrArg List.length hsplit
    simp at hlength

end Host

/-- The action gives the app's slot back. -/
def VolumePlan.TakesSlotOf (answers : Host.TeardownAnswers) (app : AppId) : VolumePlan → Prop
  | teardown desired => desired.appId = app ∧ answers.deleted desired.volumeId = true
  | detach volume owner => owner = app ∧ answers.detached volume = true
  | _ => False

/-- The app may have lost its slot, to an action of the plan that takes a volume of it away. -/
def AppView.LosesSlot (plan : ReconcilePlan) (answers : Host.TeardownAnswers) (app : AppId)
    (v v' : AppView) : Prop :=
  ∃ slot, v' = v.withSlot slot ∧
    (slot = v.slot ∨ slot = none ∧ ∃ p ∈ plan.volumes, p.TakesSlotOf answers app)

namespace Host

open Frame

private theorem view_takeDown (h : Host) (app a : AppId) : (h.takeDown app).view a = h.view a := by
  have hv := OnlyVolumes.takeDown h app
  have hal : (h.takeDown app).allocator = h.allocator := by
    unfold takeDown
    split <;> rfl
  simp only [view, hv.records, hv.vms, hv.snapshots, hv.boots, slotOf, hal]

private theorem view_giveBackSlot (h : Host) (app a : AppId) :
    (h.giveBackSlot app).view a =
      { h.view a with slot := if app = a then none else (h.view a).slot } := by
  simp only [view, giveBackSlot, slotOf, SlotAllocator.slotOf_release]

/-- What taking a volume away does to an app. -/
private theorem view_applyTeardown (answers : TeardownAnswers) (h : Host) (p : VolumePlan)
    (a : AppId) :
    ∃ slot, (applyTeardown answers h p).view a = { h.view a with slot := slot } ∧
      (slot = (h.view a).slot ∨ slot = none ∧ p.TakesSlotOf answers a) := by
  have hsame : ∃ slot, h.view a = { h.view a with slot := slot } ∧
      (slot = (h.view a).slot ∨ slot = none ∧ p.TakesSlotOf answers a) := ⟨_, rfl, .inl rfl⟩
  -- the slot goes where the action is about the app, and stays otherwise
  have hgives : ∀ app, (app = a → p.TakesSlotOf answers a) →
      ∃ slot, (h.giveBackSlot app).view a = { h.view a with slot := slot } ∧
        (slot = (h.view a).slot ∨ slot = none ∧ p.TakesSlotOf answers a) := by
    intro app htakes
    refine ⟨_, view_giveBackSlot h app a, ?_⟩
    by_cases ha : app = a
    · exact .inr ⟨if_pos ha, htakes ha⟩
    · exact .inl (if_neg ha)
  have hdown : ∀ app, ((h.takeDown app).giveBackSlot app).view a = (h.giveBackSlot app).view a := by
    intro app
    rw [view_giveBackSlot, view_giveBackSlot, view_takeDown]
  cases p with
  | teardown desired =>
    simp only [applyTeardown, tearDownVolume, teardown]
    split
    · rename_i hdeleted
      obtain ⟨slot, hview, hslot⟩ := hgives desired.appId fun ha => ⟨ha, hdeleted⟩
      refine ⟨slot, ?_, hslot⟩
      rw [← hview, ← hdown]
      rfl
    · rw [view_takeDown]
      exact hsame
  | detach volume app =>
    simp only [applyTeardown, detachVolume]
    split
    · rename_i hdetached
      obtain ⟨slot, hview, hslot⟩ := hgives app fun ha => ⟨ha, hdetached⟩
      refine ⟨slot, ?_, hslot⟩
      rw [← hview, ← hdown]
      rfl
    · exact hsame
  | provision desired | blocked desired blockedBy | none volume => exact hsame

/-- Taking volumes away moves nothing of any app but the slot it may lose. -/
theorem losesSlot_applyTeardowns (h : Host) (plan : ReconcilePlan) (answers : TeardownAnswers)
    (app : AppId) :
    AppView.LosesSlot plan answers app (h.view app) ((h.applyTeardowns plan answers).view app) := by
  refine foldl_rel (R := fun h h' => AppView.LosesSlot plan answers app (h.view app) (h'.view app))
    (fun h => ⟨_, rfl, .inl rfl⟩) ?_ plan.volumes ?_ h
  · rintro h₁ h₂ h₃ ⟨slot, hview, hslot⟩ ⟨slot', hview', hslot'⟩
    refine ⟨slot', by rw [hview', hview]; rfl, ?_⟩
    rcases hslot' with rfl | hlost
    · rw [hview]
      exact hslot
    · exact .inr hlost
  · intro h p hp
    obtain ⟨slot, hview, hslot⟩ := view_applyTeardown answers h p app
    exact ⟨slot, hview, hslot.imp_right fun ⟨hnone, htakes⟩ => ⟨hnone, p, hp, htakes⟩⟩

theorem view_applyCheckpoints (h : Host) (plan : ReconcilePlan) (answers : CheckpointAnswers)
    (app : AppId) : (h.applyCheckpoints plan answers).view app = h.view app := by
  refine foldl_rel (R := fun h h' => h'.view app = h.view app) (fun h => rfl)
    ?_ plan.checkpoints ?_ h
  · intro h₁ h₂ h₃ h₁₂ h₂₃
    exact h₂₃.trans h₁₂
  intro h p _
  cases p <;> simp only [applyCheckpoint]
  all_goals try split
  all_goals rfl

/-! ### The whole pass -/

theorem sublist_startsOf (plan : ReconcilePlan) :
    List.Sublist ((startsOf plan).map (·.appId)) (plan.instances.map (·.appId)) := by
  unfold startsOf
  induction plan.instances with
  | nil => exact List.Sublist.refl _
  | cons p l ih =>
    cases hup : p.broughtUp with
    | none =>
      rw [List.filterMap_cons_none hup]
      exact ih.cons _
    | some desired =>
      rw [List.filterMap_cons_some hup, List.map_cons, List.map_cons,
        InstancePlan.appId_of_broughtUp hup]
      exact ih.cons_cons _

/-- An action that brings nothing up keeps its app out of the starts. -/
private theorem notMem_startsOf {h : Host} {d : HostDesiredState} (hd : d.appIds.Nodup)
    {p : InstancePlan} (hp : p ∈ (planReconcile d (h.observe d)).instances)
    (hnone : p.broughtUp = none) :
    p.appId ∉ (startsOf (planReconcile d (h.observe d))).map (·.appId) := by
  intro hmem
  obtain ⟨desired, hdesired, happ⟩ := List.mem_map.mp hmem
  obtain ⟨q, hq, hup⟩ := List.mem_filterMap.mp hdesired
  have hsame := List.inj_on_of_nodup_map (nodup_planInstances hd h) hq hp
    ((InstancePlan.appId_of_broughtUp hup).symm.trans happ)
  rw [hsame, hnone] at hup
  cases hup

section Pass

variable {h : Host} (hk : h.Keyed) {d : HostDesiredState} (answers : PassAnswers)
include hk

theorem Keyed.madeReady : (h.madeReady d answers).Keyed :=
  (OnlySlots.applyVolumes _ _ _ d answers.trigger answers.provision).keyed
    (local_stop.keeps_foldl (hk.syncDesired d) _)

theorem Keyed.beforeStarts : (h.beforeStarts d answers).Keyed :=
  local_hold.keeps_foldl (local_sleep.keeps_foldl (hk.madeReady answers) _) _

variable (hd : d.appIds.Nodup)
include hd

/-- The first phases of a pass do to an app what the stop of its action does, and may hand it a
slot. -/
theorem view_madeReady {p : InstancePlan}
    (hp : p ∈ (planReconcile d (h.observe d)).instances) :
    AppView.GainsSlot (((h.view p.appId).synced d p.appId).afterStop p)
      ((h.madeReady d answers).view p.appId) := by
  obtain ⟨before, after, -, -, hsame, hstep⟩ :=
    local_stop.part_foldl_of_mem (hk.syncDesired d) (nodup_planInstances hd h) hp
  rw [view_applyStop, hsame, view_syncDesired hk hd] at hstep
  rw [← hstep]
  exact OnlySlots.applyVolumes _ _ _ d answers.trigger answers.provision p.appId

/-- The sleeps and holds of a pass, on the app of an action that is neither. -/
theorem view_beforeStarts_of_idle {p : InstancePlan}
    (hp : p ∈ (planReconcile d (h.observe d)).instances)
    (hsleep : ∀ h : Host, h.applySleep p = h) (hhold : ∀ h : Host, h.applyHold p = h) :
    (h.beforeStarts d answers).view p.appId = (h.madeReady d answers).view p.appId := by
  have hkready := hk.madeReady (d := d) answers
  have hnodup := nodup_planInstances hd h
  have hslept := local_sleep.part_foldl_of_idle hkready hnodup hp hsleep
  have hheld := local_hold.part_foldl_of_idle
    (local_sleep.keeps_foldl hkready (planReconcile d (h.observe d)).instances) hnodup hp hhold
  exact hheld.trans hslept

/-- What the sleep of an action does to its app. -/
theorem view_beforeStarts_of_sleep {desired : DesiredInstance}
    (hp : .sleep desired ∈ (planReconcile d (h.observe d)).instances) :
    SlotEffect desired
      (adoptedRecord ((h.madeReady d answers).view desired.appId).record desired · .idle)
      ((h.madeReady d answers).view desired.appId)
      ((h.beforeStarts d answers).view desired.appId) := by
  have hkready := hk.madeReady (d := d) answers
  have hnodup := nodup_planInstances hd h
  obtain ⟨before, after, -, hkeyed, hsame, hstep⟩ := local_sleep.part_foldl_of_mem hkready hnodup hp
  have hheld := local_hold.part_foldl_of_idle
    (local_sleep.keeps_foldl hkready (planReconcile d (h.observe d)).instances) hnodup hp
    fun _ => rfl
  have he := view_sleepInstance (hkeyed desired.appId)
  rw [show (h.beforeStarts d answers).view desired.appId = _ from hheld.trans hstep]
  rwa [show (before.foldl applySleep (h.madeReady d answers)).view desired.appId = _ from hsame]
    at he

/-- What the hold of an action does to its app. -/
theorem view_beforeStarts_of_hold {desired : DesiredInstance}
    (hp : .hold desired ∈ (planReconcile d (h.observe d)).instances) :
    SlotEffect desired (fun slot => .new (recordFields desired slot) .stopped initialTracker)
      ((h.madeReady d answers).view desired.appId)
      ((h.beforeStarts d answers).view desired.appId) := by
  have hkready := hk.madeReady (d := d) answers
  have hnodup := nodup_planInstances hd h
  have hslept := local_sleep.part_foldl_of_idle hkready hnodup hp fun _ => rfl
  obtain ⟨before, after, -, hkeyed, hsame, hstep⟩ := local_hold.part_foldl_of_mem
    (local_sleep.keeps_foldl hkready (planReconcile d (h.observe d)).instances) hnodup hp
  have he := view_holdInstance (hkeyed desired.appId)
  rw [show (h.beforeStarts d answers).view desired.appId = _ from hstep]
  rwa [show Host.view _ desired.appId = _ from hsame.trans hslept] at he

variable [Platform]

/-- What the start of an action does to its app. -/
private theorem view_applyStarts_of_mem {p : InstancePlan} {desired : DesiredInstance}
    (hp : p ∈ (planReconcile d (h.observe d)).instances) (hup : p.broughtUp = some desired) :
    ActionEffect (answers.start p.appId) (h.RoomFor d answers p.appId)
      ((h.beforeStarts d answers).view p.appId) p
      (((h.beforeStarts d answers).applyStarts
        (planReconcile d (h.observe d)) answers.start).view p.appId) := by
  have happ := InstancePlan.appId_of_broughtUp hup
  have hmem : desired ∈ startsOf (planReconcile d (h.observe d)) :=
    List.mem_filterMap.mpr ⟨p, hp, hup⟩
  have hnodup : ((startsOf (planReconcile d (h.observe d))).map (·.appId)).Nodup :=
    (nodup_planInstances hd h).sublist (sublist_startsOf _)
  unfold applyStarts
  dsimp only
  split
  · exact .notIsolated p desired hup
  · obtain ⟨before, after, hsplit, hkeyed, hsame, hstep⟩ :=
      (local_start answers.start).part_foldl_of_mem
        (s := (h.beforeStarts d answers, (h.beforeStarts d answers).recordList))
        (hk.beforeStarts answers) hnodup hmem
    rw [happ] at hsame hstep
    rw [hstep, ← hsame]
    rcases view_applyStart answers.start hkeyed desired with
      ⟨shortfallMib, hshort, he⟩ | ⟨hroom, he⟩
    all_goals rw [happ] at he
    · refine .waiting p desired hup (fun hroom => ?_) shortfallMib _ he
      exact Option.some_ne_none _ (hshort.symm.trans (hroom before desired after hsplit happ))
    · exact .started p desired hup _ he

omit hd in
/-- The starts of a pass leave an app they do not name alone. -/
theorem view_applyStarts_of_notMem {app : AppId}
    (happ : app ∉ (startsOf (planReconcile d (h.observe d))).map (·.appId)) :
    ((h.beforeStarts d answers).applyStarts (planReconcile d (h.observe d)) answers.start).view app
      = (h.beforeStarts d answers).view app := by
  unfold applyStarts
  dsimp only
  split
  · rfl
  · exact (local_start answers.start).part_foldl_of_notMem
      (s := (h.beforeStarts d answers, (h.beforeStarts d answers).recordList))
      (hk.beforeStarts answers) happ

/-- What the sleep, hold or start of an action does to its app. -/
theorem actionEffect_applyStarts {p : InstancePlan}
    (hp : p ∈ (planReconcile d (h.observe d)).instances) :
    ActionEffect (answers.start p.appId) (h.RoomFor d answers p.appId)
      ((h.madeReady d answers).view p.appId) p
      (((h.beforeStarts d answers).applyStarts
        (planReconcile d (h.observe d)) answers.start).view p.appId) := by
  have hquiet : p.broughtUp = none → _ := fun hnone =>
    view_applyStarts_of_notMem hk answers (notMem_startsOf hd hp hnone)
  have hidle := view_beforeStarts_of_idle hk answers hd hp
  have hstart : ∀ desired, p.broughtUp = some desired → _ := fun desired hup =>
    view_applyStarts_of_mem hk answers hd hp hup
  -- three actions bring up, two write a record, and for the others the starts do nothing
  cases p with
  | start desired | replace desired | recover desired =>
    rw [← hidle (fun _ => rfl) fun _ => rfl]
    exact hstart desired rfl
  | sleep desired =>
    rw [hquiet rfl]
    exact .sleep desired _ (view_beforeStarts_of_sleep hk answers hd hp)
  | hold desired =>
    rw [hquiet rfl]
    exact .hold desired _ (view_beforeStarts_of_hold hk answers hd hp)
  | stop app reason =>
    rw [hquiet rfl, hidle (fun _ => rfl) fun _ => rfl]
    exact .stop app reason
  | forget app =>
    rw [hquiet rfl, hidle (fun _ => rfl) fun _ => rfl]
    exact .forget app
  | none app =>
    rw [hquiet rfl, hidle (fun _ => rfl) fun _ => rfl]
    exact .leftAlone app

omit hk in
/-- The last phases of a pass leave an app what the starts left it but for its slot. -/
theorem losesSlot_reconcile (hcron : answers.cron = true) (app : AppId) :
    AppView.LosesSlot (planReconcile d (h.observe d)) answers.teardown app
      (((h.beforeStarts d answers).applyStarts
        (planReconcile d (h.observe d)) answers.start).view app)
      ((h.reconcile d answers).view app) := by
  have hlose := losesSlot_applyTeardowns ((h.beforeStarts d answers).applyStarts
    (planReconcile d (h.observe d)) answers.start) (planReconcile d (h.observe d))
    answers.teardown app
  have hsame := view_applyCheckpoints (((h.beforeStarts d answers).applyStarts
    (planReconcile d (h.observe d)) answers.start).applyTeardowns (planReconcile d (h.observe d))
    answers.teardown) (planReconcile d (h.observe d)) answers.checkpoint app
  rw [← hsame] at hlose
  rw [reconcile, reconcileAs, if_neg (by simp [hd, hcron])]
  exact hlose

/-- **What a pass does to an app its plan names.** -/
private theorem view_reconcile_of_mem (hcron : answers.cron = true) {p : InstancePlan}
    (hp : p ∈ (planReconcile d (h.observe d)).instances) :
    ∃ v₁ v₂,
      AppView.GainsSlot (((h.view p.appId).synced d p.appId).afterStop p) v₁ ∧
      ActionEffect (answers.start p.appId) (h.RoomFor d answers p.appId) v₁ p v₂ ∧
      AppView.LosesSlot (planReconcile d (h.observe d)) answers.teardown p.appId v₂
        ((h.reconcile d answers).view p.appId) :=
  ⟨_, _, view_madeReady hk answers hd hp, actionEffect_applyStarts hk answers hd hp,
    losesSlot_reconcile answers hd hcron p.appId⟩

omit hd [Platform] in
/-- Up to its starts, a pass leaves an app it neither names nor knows what it was but for its
slot. -/
theorem view_beforeStarts_of_notMem {app : AppId}
    (happ : app ∉ (planReconcile d (h.observe d)).instances.map (·.appId))
    (hnot : app ∉ d.appIds) :
    ∃ slot, (h.beforeStarts d answers).view app = (h.view app).withSlot slot := by
  have hkready := hk.madeReady (d := d) answers
  have hsynced : (h.syncDesired d).view app = h.view app :=
    local_sync.part_foldl_of_notMem hk hnot
  have hstopped : ((h.syncDesired d).applyStops (planReconcile d (h.observe d))).view app = _ :=
    local_stop.part_foldl_of_notMem (hk.syncDesired d) happ
  obtain ⟨slot, hready, -⟩ := OnlySlots.applyVolumes
    ((h.syncDesired d).applyStops (planReconcile d (h.observe d))) (planReconcile d (h.observe d))
    (h.observe d) d answers.trigger answers.provision app
  have hslept := local_sleep.part_foldl_of_notMem hkready happ
  have hheld := local_hold.part_foldl_of_notMem
    (local_sleep.keeps_foldl hkready (planReconcile d (h.observe d)).instances) happ
  have hbefore : (h.beforeStarts d answers).view app = _ := (hheld.trans hslept).trans hready
  exact ⟨slot, by rw [hbefore, hstopped, hsynced]⟩

/-- A pass leaves an app it neither names nor knows what it was but for its slot. -/
theorem view_reconcile_of_notMem (hcron : answers.cron = true) {app : AppId}
    (happ : app ∉ (planReconcile d (h.observe d)).instances.map (·.appId))
    (hnot : app ∉ d.appIds) :
    ∃ slot, (h.reconcile d answers).view app = (h.view app).withSlot slot := by
  obtain ⟨slot₁, hbefore⟩ := view_beforeStarts_of_notMem hk answers happ hnot
  have hstarts := view_applyStarts_of_notMem hk answers fun hmem =>
    happ ((sublist_startsOf _).subset hmem)
  obtain ⟨slot, hlast, -⟩ := losesSlot_reconcile (h := h) answers hd hcron app
  refine ⟨slot, ?_⟩
  rw [hlast, hstarts, hbefore]
  rfl

omit [Platform] in
/-- The sleeps and holds of a pass bring nothing up and down. -/
private theorem isUp_beforeStarts {p : InstancePlan}
    (hp : p ∈ (planReconcile d (h.observe d)).instances) :
    (h.beforeStarts d answers).isUp p.appId =
      (((h.view p.appId).synced d p.appId).afterStop p).isUp := by
  obtain ⟨slot, hready, -⟩ := view_madeReady hk answers hd hp
  have hsame : (h.beforeStarts d answers).isUp p.appId = (h.madeReady d answers).isUp p.appId := by
    have hidle := view_beforeStarts_of_idle hk answers hd hp
    cases p with
    | sleep desired => exact (view_beforeStarts_of_sleep hk answers hd hp).isUp_eq
    | hold desired => exact (view_beforeStarts_of_hold hk answers hd hp).isUp_eq
    | _ => exact congrArg AppView.isUp (hidle (fun _ => rfl) fun _ => rfl)
  rw [hsame, ← isUp_view, hready]
  rfl

end Pass

end Host

/-- **What a pass can do to one app**, listed or not. -/
inductive PassEffect [Platform] (h : Host) (d : HostDesiredState) (answers : Host.PassAnswers)
    (app : AppId) : AppView → Prop where
  /-- The cron tables could not follow the document, and nothing is applied. -/
  | skipped : PassEffect h d answers app (h.view app)
  | named (hd : d.appIds.Nodup) (hcron : answers.cron = true) (wanted : DesiredInstance)
      (hw : wanted ∈ d.instances) (happ : wanted.appId = app) (v₁ v₂ v' : AppView)
      (hgain : AppView.GainsSlot
        (((h.view app).synced d app).afterStop (h.actionFor d wanted)) v₁)
      (hact : ActionEffect (answers.start app) (h.RoomFor d answers app) v₁
        (h.actionFor d wanted) v₂)
      (hlose : AppView.LosesSlot (planReconcile d (h.observe d)) answers.teardown app v₂ v') :
      PassEffect h d answers app v'
  /-- An app the document does not name is stopped where it is up. -/
  | stopped (hd : d.appIds.Nodup) (hcron : answers.cron = true) (hnot : app ∉ d.appIds)
      (hup : h.isUp app = true) (slot : Option ℕ) :
      PassEffect h d answers app ((h.view app).stop.withSlot slot)
  /-- An app the document does not name is forgotten once it is down. -/
  | forgotten (hd : d.appIds.Nodup) (hcron : answers.cron = true) (hnot : app ∉ d.appIds)
      (hdown : h.isUp app = false) (slot : Option ℕ) :
      PassEffect h d answers app ((h.view app).cleared.withSlot slot)
  /-- The host knows nothing of the app. -/
  | unknown (hd : d.appIds.Nodup) (hcron : answers.cron = true) (hnot : app ∉ d.appIds)
      (hvm : (h.view app).vm = none) (hrecord : (h.view app).record = none) (slot : Option ℕ) :
      PassEffect h d answers app ((h.view app).withSlot slot)

namespace Host

theorem running_observeInstance (h : Host) (app : AppId) :
    (h.observeInstance app).running = h.isUp app := by
  simp only [observeInstance, vmStatus, isUp]
  cases h.vms[app]? <;> rfl

/-- **What a pass does to an app the document does not name**: it is stopped where it is up, and
forgotten once it is down; one the host knows nothing of is left alone. -/
theorem view_reconcile_of_unnamed [Platform] {h : Host} (hk : h.Keyed) {d : HostDesiredState}
    (answers : PassAnswers) (hd : d.appIds.Nodup) (hcron : answers.cron = true) {app : AppId}
    (happ : app ∉ d.appIds) :
    ∃ slot,
      h.isUp app = true ∧ (h.reconcile d answers).view app = (h.view app).stop.withSlot slot ∨
      h.isUp app = false ∧
        (h.reconcile d answers).view app = (h.view app).cleared.withSlot slot ∨
      ((h.view app).vm = none ∧ (h.view app).record = none) ∧
        (h.reconcile d answers).view app = (h.view app).withSlot slot := by
  by_cases hknown : app ∈ h.knownApps
  · have hp := (mem_planInstances_iff h d _).mpr (.inr ⟨app, hknown, happ, rfl⟩)
    obtain ⟨v₁, v₂, hgain, hact, hlose⟩ := view_reconcile_of_mem hk answers hd hcron hp
    rw [appId_planUnnamed, show (h.observeInstance app).appId = app from rfl] at hgain hact hlose
    rw [AppView.synced_of_notMem happ] at hgain
    obtain ⟨slot, hview, -⟩ := hlose
    obtain ⟨slot₁, rfl, -⟩ := hgain
    refine ⟨slot, ?_⟩
    cases hup : h.isUp app with
    | true =>
      rw [planUnnamed, if_pos ((h.running_observeInstance app).trans hup)] at hact
      cases hact with
      | stop => exact .inl ⟨rfl, hview⟩
      | notIsolated | waiting | started => contradiction
    | false =>
      have hdown : ¬ (h.observeInstance app).running = true := by
        rw [running_observeInstance, hup]
        exact Bool.false_ne_true
      rw [planUnnamed, if_neg hdown] at hact
      cases hact with
      | forget => exact .inr (.inl ⟨rfl, hview⟩)
      | notIsolated | waiting | started => contradiction
  -- what the host knows nothing of gets no action
  · have hnone := hknown
    rw [mem_knownApps, not_or, ne_eq, not_not, ne_eq, not_not] at hnone
    have hnot : app ∉ (planReconcile d (h.observe d)).instances.map (·.appId) := by
      intro hmem
      obtain ⟨p, hp, hpapp⟩ := List.mem_map.mp hmem
      rcases (mem_planInstances_iff h d p).mp hp with ⟨wanted, hw, rfl⟩ | ⟨a, ha, -, rfl⟩
      · rw [actionFor, appId_planInstance] at hpapp
        exact happ (List.mem_map.mpr ⟨wanted, hw, hpapp⟩)
      · rw [appId_planUnnamed] at hpapp
        exact hknown (hpapp ▸ ha)
    obtain ⟨slot, hview⟩ := view_reconcile_of_notMem hk answers hd hcron hnot happ
    exact ⟨slot, .inr (.inr ⟨hnone, hview⟩)⟩

theorem view_reconcile [Platform] {h : Host} (hk : h.Keyed) (d : HostDesiredState)
    (answers : PassAnswers) (app : AppId) :
    PassEffect h d answers app ((h.reconcile d answers).view app) := by
  by_cases hskip : ¬ d.appIds.Nodup ∨ ¬ answers.cron = true
  · rw [reconcile, reconcileAs, if_pos hskip]
    exact .skipped
  · obtain ⟨hd, hcron⟩ := not_or.mp hskip
    rw [not_not] at hd hcron
    by_cases happ : app ∈ d.appIds
    · obtain ⟨wanted, hw, rfl⟩ := List.mem_map.mp happ
      have hp := (mem_planInstances_iff h d _).mpr (.inl ⟨wanted, hw, rfl⟩)
      obtain ⟨v₁, v₂, hgain, hact, hlose⟩ := view_reconcile_of_mem hk answers hd hcron hp
      rw [actionFor, appId_planInstance] at hgain hact hlose
      exact .named hd hcron wanted hw rfl v₁ v₂ _ hgain hact hlose
    · obtain ⟨slot, ⟨hup, hview⟩ | ⟨hdown, hview⟩ | ⟨⟨hvm, hrecord⟩, hview⟩⟩ :=
        view_reconcile_of_unnamed hk answers hd hcron happ
      all_goals rw [hview]
      · exact .stopped hd hcron happ hup slot
      · exact .forgotten hd hcron happ hdown slot
      · exact .unknown hd hcron happ hvm hrecord slot

/-! ### Reading a pass back -/

/-- What is planned for an app that is up. -/
theorem actionFor_of_up {h : Host} {wanted : DesiredInstance} (hup : h.isUp wanted.appId = true)
    (d : HostDesiredState) :
    h.actionFor d wanted =
      if wanted.desiredState = .stopped then .stop wanted.appId .desiredStopped
      else if (h.view wanted.appId).record.map (·.deploymentId) ≠ some wanted.deploymentId then
        .replace wanted
      else if wanted.volumeId ∈ (h.observe d).lostVolumes then .recover wanted
      else .none wanted.appId := by
  have hrun : (h.observeInstance wanted.appId).running = true := by
    rw [running_observeInstance, hup]
  have hpresent : (h.observeInstance wanted.appId).present = true := by
    unfold isUp at hup
    cases hvm : h.vms[wanted.appId]? with
    | none => simp [hvm] at hup
    | some vm => simp [observeInstance, vmStatus, hvm, Vm.status]
  have hdeployment : (h.observeInstance wanted.appId).deploymentId =
      (h.view wanted.appId).record.map (·.deploymentId) := rfl
  rw [actionFor, planInstance_of_present wanted hpresent, planPresentInstance]
  cases wanted.desiredState <;> simp [hrun, hdeployment]

end Host

namespace AppView

/-- A stop brings nothing up. -/
theorem isUp_afterStop_of_down {v : AppView} (hdown : v.isUp = false) (p : InstancePlan) :
    (v.afterStop p).isUp = false := by
  cases p with
  | stop app reason => exact isUp_stop v
  | replace desired => rfl
  | recover desired => rfl
  | forget app => rfl
  | start desired | sleep desired | hold desired | none app => exact hdown

end AppView

theorem ActionEffect.keyed [Platform] {answers : StartAnswers} {room : Prop} {p : InstancePlan}
    {v v' : AppView} (he : ActionEffect answers room v p v') {app : AppId} (happ : p.appId = app)
    (hk : v.Keyed app) : v'.Keyed app := by
  subst happ
  cases he with
  | stop app reason => exact hk
  | forget app => exact hk
  | leftAlone app => exact hk
  | sleep desired v' he => exact he.keyed hk fun _ => appId_adoptedRecord hk _ _
  | hold desired v' he => exact he.keyed hk fun _ => rfl
  | notIsolated p desired hp => exact hk
  | waiting p desired hp hroom shortfallMib v' he =>
    rw [← InstancePlan.appId_of_broughtUp hp] at hk ⊢
    exact he.keyed hk fun _ => appId_adoptedRecord hk _ _
  | started p desired hp v' he =>
    rw [← InstancePlan.appId_of_broughtUp hp] at hk ⊢
    exact he.keyed hk

theorem Host.Keyed.reconcile [Platform] {h : Host} (hk : h.Keyed) (d : HostDesiredState)
    (answers : Host.PassAnswers) : (h.reconcile d answers).Keyed := by
  intro app
  have hstopped : (h.view app).stop.Keyed app := (hk app).afterStop (.stop app .notDesired)
  have hcleared : (h.view app).cleared.Keyed app := (hk app).afterStop (.forget app)
  have heffect := h.view_reconcile hk d answers app
  generalize (h.reconcile d answers).view app = v' at heffect
  cases heffect with
  | skipped => exact hk app
  | named hd hcron wanted hw happ v₁ v₂ v' hgain hact hlose =>
    obtain ⟨slot₁, rfl, -⟩ := hgain
    obtain ⟨slot, rfl, -⟩ := hlose
    subst happ
    have hready := ((hk wanted.appId).synced d).afterStop (h.actionFor d wanted)
    exact hact.keyed (appId_planInstance _ _ _) hready
  | stopped hd hcron hnot hup slot => exact hstopped
  | forgotten hd hcron hnot hdown slot => exact hcleared
  | unknown hd hcron hnot hvm hrecord slot => exact hk app

/-! ### What is up after a pass -/

/-- What a boot leaves of an app: the microVM it spawned on the slot it was handed. -/
def AppView.booted (v : AppView) (desired : DesiredInstance) (slot : ℕ) (answers : StartAnswers) :
    AppView where
  record := some (bootedRecord v.record desired (describeSlot slot desired.appId) answers)
  vm := some (Vm.spawned desired.config.resources.memoryMib slot)
  snapshot := none
  slot := some slot
  boots := answers.nowMs :: v.boots

/-- A start of an app that is down leaves it down, or booted. -/
theorem StartEffect.isUp_cases [Platform] {desired : DesiredInstance} {answers : StartAnswers}
    {v v' : AppView} (he : StartEffect desired answers v v') (hdown : v.isUp = false)
    (hup : v'.isUp = true) :
    ∃ slot, v' = v.booted desired slot answers ∧
      startRefused v.record answers.nowMs desired = none := by
  have hcontra : v.isUp = true → ∃ slot, v' = v.booted desired slot answers ∧
      startRefused v.record answers.nowMs desired = none := fun h => by
    rw [hdown] at h
    cases h
  cases he with
  | refused | noSlot | turnedDown | notBooted => exact hcontra hup
  | bootFailed href slot hslot said vm hvm =>
    rcases hvm with rfl | ⟨-, rfl⟩
    · exact hcontra hup
    · rw [AppView.isUp, Option.any_some, Vm.isUp_stopped] at hup
      cases hup
  | busy => exact hcontra hup
  | booted href slot hslot hd => exact ⟨slot, rfl, href⟩

/-- What is brought up by the action planned for an instance is that instance. -/
theorem Host.broughtUp_actionFor {h : Host} {d : HostDesiredState}
    {wanted desired : DesiredInstance}
    (hup : (h.actionFor d wanted).broughtUp = some desired) : desired = wanted := by
  unfold Host.actionFor at hup
  rcases present_or_absent (some (h.observeInstance wanted.appId)) with ⟨c, hc, hp⟩ | ⟨hnone, -⟩
  · rw [hc, planInstance_of_present wanted hp, planPresentInstance] at hup
    revert hup
    repeat' split
    all_goals
      intro hup
      cases hup
      try rfl
  · rw [planInstance_of_absent wanted hnone] at hup
    revert hup
    split
    all_goals
      intro hup
      cases hup
      try rfl

/-- An action on an app that is down leaves it down, or boots it. -/
theorem ActionEffect.isUp_cases [Platform] {answers : StartAnswers} {room : Prop}
    {p : InstancePlan} {v v' : AppView} (he : ActionEffect answers room v p v')
    (hdown : v.isUp = false) (hup : v'.isUp = true) :
    ∃ desired slot, p.broughtUp = some desired ∧ v' = v.booted desired slot answers ∧
      startRefused v.record answers.nowMs desired = none := by
  have hne : v'.isUp ≠ v.isUp := by
    rw [hdown, hup]
    decide
  cases he with
  | stop | forget | leftAlone | notIsolated => exact absurd rfl hne
  | sleep desired v' he | hold desired v' he
  | waiting p desired hp hroom shortfallMib v' he => exact absurd he.isUp_eq hne
  | started p desired hp v' he =>
    obtain ⟨slot, hv, href⟩ := he.isUp_cases hdown hup
    exact ⟨desired, slot, hp, hv, href⟩

/-- An app is up after its action's stop only where the action is to leave it alone. -/
theorem Host.actionFor_eq_none_of_up {h : Host} {d : HostDesiredState} {wanted : DesiredInstance}
    (hup : (((h.view wanted.appId).synced d wanted.appId).afterStop (h.actionFor d wanted)).isUp =
      true) :
    h.isUp wanted.appId = true ∧ h.actionFor d wanted = .none wanted.appId := by
  cases hwas : h.isUp wanted.appId with
  | false =>
    have hdown := AppView.isUp_afterStop_of_down
      (v := (h.view wanted.appId).synced d wanted.appId) hwas (h.actionFor d wanted)
    rw [hdown] at hup
    cases hup
  | true =>
    refine ⟨rfl, ?_⟩
    rw [h.actionFor_of_up hwas d] at hup ⊢
    revert hup
    -- stopped and cleared apps are down
    repeat' split
    · intro hup
      rw [AppView.afterStop, AppView.isUp_stop] at hup
      cases hup
    · exact fun hup => by cases hup
    · exact fun hup => by cases hup
    · exact fun _ => rfl

/-- **What is up after a pass** was left alone by it, taking the document's fields, or was booted
by it. -/
theorem PassEffect.isUp_cases [Platform] {h : Host} {d : HostDesiredState}
    {answers : Host.PassAnswers} {app : AppId} {v' : AppView} (he : PassEffect h d answers app v')
    (hup : v'.isUp = true) :
    v' = h.view app ∨
      (d.appIds.Nodup ∧ answers.cron = true ∧ ∃ wanted ∈ d.instances, wanted.appId = app ∧
        h.isUp app = true ∧ h.actionFor d wanted = .none app ∧
        ∃ v₁, AppView.GainsSlot ((h.view app).synced d app) v₁ ∧
          AppView.LosesSlot (planReconcile d (h.observe d)) answers.teardown app v₁ v') ∨
      ∃ wanted ∈ d.instances, wanted.appId = app ∧
        (h.actionFor d wanted).broughtUp = some wanted ∧
        ∃ (v₁ : AppView) (slot : ℕ),
          AppView.LosesSlot (planReconcile d (h.observe d)) answers.teardown app
            (v₁.booted wanted slot (answers.start app)) v' := by
  cases he with
  | skipped => exact .inl rfl
  | stopped hd hcron hnot hup' slot =>
    rw [AppView.isUp_withSlot, AppView.isUp_stop] at hup
    cases hup
  | forgotten hd hcron hnot hdown slot => cases hup
  | unknown hd hcron hnot hvm hrecord slot =>
    rw [AppView.isUp_withSlot, AppView.isUp, hvm] at hup
    cases hup
  | named hd hcron wanted hw happ v₁ v₂ v' hgain hact hlose =>
    have hup₂ : v₂.isUp = true := by
      obtain ⟨slot, rfl, -⟩ := hlose
      exact hup
    refine .inr ?_
    rw [← happ] at hgain
    -- it was up when the starts began, or a start brought it up
    cases hready : v₁.isUp with
    | true =>
      obtain ⟨hwas, haction⟩ : h.isUp wanted.appId = true ∧
          h.actionFor d wanted = .none wanted.appId := by
        obtain ⟨slot₁, rfl, -⟩ := hgain
        exact Host.actionFor_eq_none_of_up hready
      rw [haction] at hgain hact
      rw [happ] at hgain hwas haction
      refine .inl ⟨hd, hcron, wanted, hw, happ, hwas, haction, v₁, hgain, ?_⟩
      cases hact with
      | leftAlone => exact hlose
      | notIsolated p desired hp => cases hp
      | waiting p desired hp => cases hp
      | started p desired hp => cases hp
    | false =>
      obtain ⟨desired, slot, hbrought, rfl, -⟩ := hact.isUp_cases hready hup₂
      obtain rfl := Host.broughtUp_actionFor hbrought
      exact .inr ⟨desired, hw, happ, hbrought, v₁, slot, hlose⟩

namespace Host

/-- An app that is up has an action. -/
private theorem mem_planInstances_of_up {h : Host} {d : HostDesiredState} {app : AppId}
    (hup : h.isUp app = true) : app ∈ (planReconcile d (h.observe d)).instances.map (·.appId) := by
  by_cases happ : app ∈ d.appIds
  · obtain ⟨wanted, hw, rfl⟩ := List.mem_map.mp happ
    exact List.mem_map.mpr ⟨h.actionFor d wanted, (mem_planInstances_iff h d _).mpr
      (.inl ⟨wanted, hw, rfl⟩), appId_planInstance _ _ _⟩
  · have hknown : app ∈ h.knownApps := by
      refine mem_knownApps.mpr (.inl fun hnone => ?_)
      rw [← isUp_view, AppView.isUp, hnone] at hup
      cases hup
    exact List.mem_map.mpr ⟨planUnnamed (h.observeInstance app), (mem_planInstances_iff h d _).mpr
      (.inr ⟨app, hknown, happ, rfl⟩), appId_planUnnamed _⟩

/-- **What is up when the starts of a pass begin** is what the plan leaves alone. -/
theorem beforeStarts_of_up {h : Host} (hk : h.Keyed) {d : HostDesiredState} (hd : d.appIds.Nodup)
    {answers : PassAnswers} {app : AppId} (hup : (h.beforeStarts d answers).isUp app = true) :
    ∃ wanted ∈ d.instances, wanted.appId = app ∧ h.isUp app = true ∧
      h.actionFor d wanted = .none app ∧
      AppView.GainsSlot ((h.view app).synced d app) ((h.beforeStarts d answers).view app) := by
  by_cases happ : app ∈ (planReconcile d (h.observe d)).instances.map (·.appId)
  · obtain ⟨p, hp, rfl⟩ := List.mem_map.mp happ
    have hidle := view_beforeStarts_of_idle hk answers hd hp
    have hready := view_madeReady hk answers hd hp
    rw [isUp_beforeStarts hk answers hd hp] at hup
    rcases (mem_planInstances_iff h d p).mp hp with ⟨wanted, hw, rfl⟩ | ⟨a, ha, hnot, rfl⟩
    · have happ : (h.actionFor d wanted).appId = wanted.appId := appId_planInstance _ _ _
      rw [happ] at hup hidle hready ⊢
      obtain ⟨hwas, haction⟩ := actionFor_eq_none_of_up hup
      rw [haction] at hidle hready
      refine ⟨wanted, hw, rfl, hwas, haction, ?_⟩
      rw [hidle (fun _ => rfl) fun _ => rfl]
      exact hready
    -- what the document does not name is stopped, or down anyway
    · exfalso
      unfold planUnnamed at hup
      split at hup
      · rw [AppView.afterStop, AppView.isUp_stop] at hup
        cases hup
      · cases hup
  · have hnot : app ∉ d.appIds := fun hmem => by
      obtain ⟨wanted, hw, rfl⟩ := List.mem_map.mp hmem
      exact happ (List.mem_map.mpr ⟨h.actionFor d wanted, (mem_planInstances_iff h d _).mpr
        (.inl ⟨wanted, hw, rfl⟩), appId_planInstance _ _ _⟩)
    obtain ⟨slot, hview⟩ := view_beforeStarts_of_notMem hk answers happ hnot
    rw [← isUp_view, hview] at hup
    exact absurd (mem_planInstances_of_up hup) happ

/-- The apps a pass starts are down when its starts begin. -/
theorem isUp_beforeStarts_of_mem {h : Host} (hk : h.Keyed) {d : HostDesiredState}
    (hd : d.appIds.Nodup) (answers : PassAnswers) {desired : DesiredInstance}
    (hmem : desired ∈ startsOf (planReconcile d (h.observe d))) :
    (h.beforeStarts d answers).isUp desired.appId = false := by
  cases hup : (h.beforeStarts d answers).isUp desired.appId with
  | false => rfl
  | true =>
    obtain ⟨wanted, hw, happ, -, haction, -⟩ := beforeStarts_of_up hk hd hup
    have hp := (mem_planInstances_iff h d _).mpr (.inl ⟨wanted, hw, rfl⟩)
    have hnot := notMem_startsOf hd hp (by rw [haction]; rfl)
    rw [haction] at hnot
    exact absurd (List.mem_map_of_mem hmem) hnot

end Host

end Nibrunner

import Nibrunner.Reconcile.Instances

/-!
# What an operation on one instance can do

For each operation of `Reconcile.Instances`, two facts: that it touches nothing of any other app
(`OnlyApp`), and what it leaves of its own app. The second is an equation where the operation has
one outcome and an inductive predicate with one constructor per exit where it has several
(`SuspendEffect`, `StartEffect`, `ResumeEffect`). Everything proved of runs is proved from these;
no later file unfolds an operation.
-/

namespace Nibrunner

open Std

namespace Host

/-! ### Reading back the writes -/

@[simp] theorem getElem?_putRecord (h : Host) (r : InstanceRecord) (a : AppId) :
    (h.putRecord r).records[a]? = if r.appId = a then some r else h.records[a]? :=
  ExtTreeMap.getElem?_insert_ite h.records r.appId a r

@[simp] theorem getElem?_updateRecord (h : Host) (app a : AppId)
    (change : InstanceRecord → InstanceRecord) :
    (h.updateRecord app change).records[a]? =
      if app = a then h.records[a]?.map change else h.records[a]? :=
  ExtTreeMap.getElem?_modify_ite h.records app a change

@[simp] theorem getElem?_dropRecord (h : Host) (app a : AppId) :
    (h.dropRecord app).records[a]? = if app = a then none else h.records[a]? :=
  ExtTreeMap.getElem?_erase_ite h.records app a

/-- What a slot handed out leaves of the host. -/
theorem slotFor_eq {h h' : Host} {app : AppId} {slot : AppSlot}
    (hs : h.slotFor app = some (slot, h')) :
    ∃ allocator, h.allocator.allocate app = some (slot, allocator) ∧
      h' = { h with allocator := allocator } := by
  simp only [slotFor, Option.map_eq_some_iff, Prod.mk.injEq] at hs
  obtain ⟨⟨slot', allocator⟩, hal, rfl, rfl⟩ := hs
  exact ⟨allocator, hal, rfl⟩

/-- Being handed a slot keeps the slot of an app that holds one. -/
theorem slotOf_slotFor_of_held {h h' : Host} {app other : AppId} {slot : AppSlot} {held : ℕ}
    (hs : h.slotFor app = some (slot, h')) (hheld : h.slotOf other = some held) :
    h'.slotOf other = some held := by
  obtain ⟨allocator, hal, rfl⟩ := slotFor_eq hs
  exact SlotAllocator.slotOf_allocate_of_held hal hheld

end Host

/-! ### One app's share of the host -/

/-- Everything an operation on an app may touch of it. -/
structure AppView where
  record : Option InstanceRecord
  vm : Option Vm
  snapshot : Option Snapshot
  slot : Option ℕ
  boots : List ℤ

namespace AppView

/-- The app's microVM is up. -/
def isUp (v : AppView) : Bool := v.vm.any Vm.isUp

/-- The record under an app's name is the app's. -/
def Keyed (app : AppId) (v : AppView) : Prop := ∀ r, v.record = some r → r.appId = app

/-- What a stop leaves: the microVM down, its snapshot gone, the record stopped with nothing
spent. -/
def stop (v : AppView) : AppView :=
  { v with
    record := v.record.map fun r =>
      { r with state := .stopped, stopRequested := true, startAttempts := noStartAttempts }
    vm := v.vm.map Vm.stopped
    snapshot := none }

@[simp] theorem isUp_stop (v : AppView) : v.stop.isUp = false := by
  simp only [isUp, stop]
  cases v.vm <;> simp

end AppView

namespace Host

def view (h : Host) (app : AppId) : AppView where
  record := h.records[app]?
  vm := h.vms[app]?
  snapshot := h.snapshots[app]?
  slot := h.slotOf app
  boots := h.boots app

@[simp] theorem isUp_view (h : Host) (app : AppId) : (h.view app).isUp = h.isUp app := rfl

theorem OnlyApp.view {app : AppId} {h h' : Host} (hf : OnlyApp app h h') {a : AppId}
    (ha : a ≠ app) : h'.view a = h.view a := by
  simp only [Host.view, hf.record a ha, hf.vm a ha, hf.snapshot a ha, hf.slot a ha, hf.boots a ha]

/-- Everything the volume backend may touch is outside the apps' views but for their slots. -/
theorem OnlyVolumes.onlyApp {h h' : Host} (hv : OnlyVolumes h h') {app : AppId}
    (hslot : ∀ a, a ≠ app → h'.slotOf a = h.slotOf a) : OnlyApp app h h' where
  record a _ := by rw [hv.records]
  vm a _ := by rw [hv.vms]
  snapshot a _ := by rw [hv.snapshots]
  slot := hslot
  boots a _ := by rw [hv.boots]
  config := hv.config

theorem view_attach {h h' : Host} {volume : VolumeId} {app : AppId} {answer : Except String Unit}
    (ha : h.attach volume app answer = .ok h') (a : AppId) : h'.view a = h.view a := by
  obtain ⟨hv, hal⟩ := OnlyVolumes.attach ha
  simp only [Host.view, hv.records, hv.vms, hv.snapshots, hv.boots, slotOf, hal]

theorem OnlyApp.attach {h h' : Host} {volume : VolumeId} {app : AppId}
    {answer : Except String Unit} (ha : h.attach volume app answer = .ok h') :
    OnlyApp app h h' := by
  obtain ⟨hv, hal⟩ := OnlyVolumes.attach ha
  exact hv.onlyApp fun a _ => by rw [slotOf, slotOf, hal]

theorem view_putRecord (h : Host) {r : InstanceRecord} {app : AppId} (hr : r.appId = app) :
    (h.putRecord r).view app = { h.view app with record := some r } := by
  have hrecord : (h.putRecord r).records[app]? = some r := by rw [getElem?_putRecord, if_pos hr]
  simp only [Host.view, hrecord]
  rfl

theorem view_updateRecord (h : Host) (app : AppId) (change : InstanceRecord → InstanceRecord) :
    (h.updateRecord app change).view app =
      { h.view app with record := (h.view app).record.map change } := by
  have hrecord : (h.updateRecord app change).records[app]? = h.records[app]?.map change := by
    rw [getElem?_updateRecord, if_pos rfl]
  simp only [Host.view, hrecord]
  rfl

/-- Being handed a slot changes the app's slot and nothing else, and a slot it holds is the one
it is handed. -/
theorem view_slotFor {h h' : Host} {app : AppId} {slot : AppSlot}
    (hs : h.slotFor app = some (slot, h')) :
    h'.view app = { h.view app with slot := some slot.slot } ∧
      slot = describeSlot slot.slot app ∧
      ((h.view app).slot = none ∨ (h.view app).slot = some slot.slot) := by
  obtain ⟨allocator, hal, rfl⟩ := slotFor_eq hs
  obtain ⟨hdescribe, -, hheld, -, hcases⟩ := SlotAllocator.allocate_spec hal
  refine ⟨?_, hdescribe, ?_⟩
  · simp only [Host.view, slotOf, hheld]
  · exact hcases.elim (fun hc => .inr hc.1) (fun hc => .inl hc.1)

/-- An app that is handed no slot holds none. -/
theorem slot_eq_none_of_slotFor {h : Host} {app : AppId} (hs : h.slotFor app = none) :
    (h.view app).slot = none := by
  cases hslot : (h.view app).slot with
  | none => rfl
  | some slot =>
    have hheld : h.allocator.slotOf app = some slot := hslot
    rw [slotFor, SlotAllocator.allocate_of_held hheld] at hs
    cases hs

/-! ### The calls of the microVM manager, on the app's share -/

theorem view_discardSnapshot (h : Host) (app : AppId) :
    (h.discardSnapshot app).view app = { h.view app with snapshot := none } := by
  have hsnapshot : (h.discardSnapshot app).snapshots[app]? = none := by
    rw [discardSnapshot, ExtTreeMap.getElem?_erase_ite, if_pos rfl]
  simp only [Host.view, hsnapshot]
  rfl

theorem view_stopProcess (h : Host) (app : AppId) :
    (h.stopProcess app).view app = { h.view app with vm := (h.view app).vm.map Vm.stopped } := by
  have hvm : (h.stopProcess app).vms[app]? = h.vms[app]?.map Vm.stopped := by
    rw [stopProcess, ExtTreeMap.getElem?_modify_ite, if_pos rfl]
  simp only [Host.view, hvm]
  rfl

theorem view_putVm (h : Host) (app : AppId) (vm : Vm) :
    (h.putVm app vm).view app = { h.view app with vm := some vm } := by
  have hvm : (h.putVm app vm).vms[app]? = some vm := by
    rw [putVm, ExtTreeMap.getElem?_insert_ite, if_pos rfl]
  simp only [Host.view, hvm]
  rfl

theorem view_putSnapshot (h : Host) (app : AppId) (snapshot : Snapshot) :
    (h.putSnapshot app snapshot).view app = { h.view app with snapshot := some snapshot } := by
  have hsnapshot : (h.putSnapshot app snapshot).snapshots[app]? = some snapshot := by
    rw [putSnapshot, ExtTreeMap.getElem?_insert_ite, if_pos rfl]
  simp only [Host.view, hsnapshot]
  rfl

theorem view_logBoot (h : Host) (app : AppId) (nowMs : ℤ) :
    (h.logBoot app nowMs).view app = { h.view app with boots := nowMs :: (h.view app).boots } := by
  have hboots : (h.logBoot app nowMs).boots app = nowMs :: h.boots app :=
    Function.update_self app _ h.boots
  simp only [Host.view, hboots]
  rfl

theorem view_dropRecord (h : Host) (app : AppId) :
    (h.dropRecord app).view app = { h.view app with record := none } := by
  have hrecord : (h.dropRecord app).records[app]? = none := by
    rw [getElem?_dropRecord, if_pos rfl]
  simp only [Host.view, hrecord]
  rfl

theorem view_discardVm (h : Host) (app : AppId) :
    (h.discardVm app).view app = { h.view app with vm := none, snapshot := none } := by
  have hvm : (h.discardVm app).vms[app]? = none := by
    rw [discardVm, ExtTreeMap.getElem?_erase_ite, if_pos rfl]
  have hsnapshot : (h.discardVm app).snapshots[app]? = none := by
    rw [discardVm, discardSnapshot, ExtTreeMap.getElem?_erase_ite, if_pos rfl]
  simp only [Host.view, hvm, hsnapshot]
  rfl

/-! ### Stopping -/

theorem OnlyApp.stopInstance (h : Host) (app : AppId) : OnlyApp app h (h.stopInstance app) :=
  ((OnlyApp.updateRecord h app _).trans (OnlyApp.stopVm _ app)).trans
    (OnlyApp.updateRecord _ app _)

theorem view_stopInstance (h : Host) (app : AppId) :
    (h.stopInstance app).view app = (h.view app).stop := by
  unfold Host.stopInstance stopVm
  dsimp only
  rw [view_updateRecord, view_stopProcess, view_discardSnapshot, view_updateRecord]
  simp only [AppView.stop, Option.map_map]
  rfl

/-! ### Sleeping -/

end Host

/-- The record of an app put to sleep. -/
def sleptRecord (r : InstanceRecord) : InstanceRecord :=
  { r with
    state := .idle
    stopRequested := true
    startAttempts := noStartAttempts
    message := none }

/-- The exits of a suspension. -/
inductive SuspendEffect (v : AppView) : AppView → Prop where
  /-- There is no record, or the microVM must not be snapshotted. -/
  | nothing : SuspendEffect v v
  /-- There is no slot to come back to. -/
  | stopped : SuspendEffect v v.stop
  /-- The snapshot failed and the guest runs on. -/
  | failed : SuspendEffect v { v with snapshot := none }
  /-- The snapshot failed and the guest could not be resumed. -/
  | lost : SuspendEffect v { v with snapshot := none, vm := v.vm.map Vm.stopped }
  | slept (r : InstanceRecord) (vm : Vm) (slot : ℕ) (hr : v.record = some r) (hvm : v.vm = some vm)
      (hup : vm.isUp = true) (hslot : v.slot = some slot) :
      SuspendEffect v
        { v with
          record := some (sleptRecord r)
          vm := some vm.stopped
          snapshot := some
            { deploymentId := r.deploymentId, slot := slot, memoryMib := vm.memoryMib } }

namespace Host

/-- The four ways a sleep goes: not at all, failed with the guest up or down, or through. -/
private theorem sleepVm_cases (h : Host) (app : AppId) (deployment : DeploymentId) (slot : ℕ)
    (answer : SleepAnswer) :
    h.sleepVm app deployment slot answer = (h, false) ∨
      h.sleepVm app deployment slot answer = (h.discardSnapshot app, false) ∨
      h.sleepVm app deployment slot answer = ((h.discardSnapshot app).stopProcess app, false) ∨
      ∃ vm, h.vms[app]? = some vm ∧ vm.isUp = true ∧
        h.sleepVm app deployment slot answer =
          ((h.stopProcess app).putSnapshot app
            { deploymentId := deployment, slot := slot, memoryMib := vm.memoryMib }, true) := by
  unfold sleepVm
  split
  · exact .inl rfl
  · split
    · rename_i vm hvm _
      rw [Option.filter_eq_some_iff] at hvm
      exact .inr (.inr (.inr ⟨vm, hvm.1, hvm.2, rfl⟩))
    · exact .inr (.inr (.inl rfl))
    · exact .inr (.inl rfl)

theorem OnlyApp.suspendInstance (h : Host) (app : AppId) (answer : SleepAnswer) :
    OnlyApp app h (h.suspendInstance app answer) := by
  unfold Host.suspendInstance
  cases hr : h.records[app]? with
  | none => exact .refl app h
  | some r =>
    dsimp only
    cases hslot : h.slotOf app with
    | none => exact .stopInstance h app
    | some slot =>
      have hsleep := OnlyApp.sleepVm h app r.deploymentId slot answer
      rcases sleepVm_cases h app r.deploymentId slot answer with heq | heq | heq | ⟨vm, -, -, heq⟩
      all_goals
        dsimp only
        rw [heq] at hsleep ⊢
      · exact hsleep
      · exact hsleep
      · exact hsleep
      · exact hsleep.trans (.updateRecord _ app _)

theorem view_suspendInstance (h : Host) (app : AppId) (answer : SleepAnswer) :
    SuspendEffect (h.view app) ((h.suspendInstance app answer).view app) := by
  unfold Host.suspendInstance
  cases hr : h.records[app]? with
  | none => exact .nothing
  | some r =>
    dsimp only
    cases hslot : h.slotOf app with
    | none =>
      dsimp only
      rw [view_stopInstance]
      exact .stopped
    | some slot =>
      dsimp only
      -- it is not up, the snapshot failed, the guest was lost, or it sleeps
      rcases sleepVm_cases h app r.deploymentId slot answer with heq | heq | heq |
        ⟨vm, hvm, hup, heq⟩
      all_goals rw [heq]
      · exact .nothing
      · dsimp only
        rw [view_discardSnapshot]
        exact .failed
      · dsimp only
        rw [view_stopProcess, view_discardSnapshot]
        exact .lost
      · dsimp only
        rw [view_updateRecord, view_putSnapshot, view_stopProcess]
        have hslept := SuspendEffect.slept (v := h.view app) r vm slot hr hvm hup hslot
        have hr' : (h.view app).record = some r := hr
        have hvm' : (h.view app).vm = some vm := hvm
        rw [hr', hvm']
        exact hslept

end Host

/-! ### Records written without a microVM -/

/-- The exits of an operation that takes a slot and writes a record for it. -/
inductive SlotEffect (desired : DesiredInstance) (write : AppSlot → InstanceRecord) (v : AppView) :
    AppView → Prop where
  | written (slot : ℕ) (hslot : v.slot = none ∨ v.slot = some slot) :
      SlotEffect desired write v
        { v with record := some (write (describeSlot slot desired.appId)), slot := some slot }
  | noSlot (hslot : v.slot = none) :
      SlotEffect desired write v { v with record := some (noSlotRecord v.record desired) }

theorem appId_adoptedRecord {existing : Option InstanceRecord} {desired : DesiredInstance}
    (h : ∀ r, existing = some r → r.appId = desired.appId) (slot : AppSlot)
    (state : InstanceState) :
    (adoptedRecord existing desired slot state).appId = desired.appId := by
  cases existing with
  | none => rfl
  | some r => exact h r rfl

theorem appId_refusedRecord {existing : Option InstanceRecord} {desired : DesiredInstance}
    (h : ∀ r, existing = some r → r.appId = desired.appId) (slot : AppSlot)
    (state : InstanceState) : (refusedRecord existing desired slot state).appId = desired.appId :=
  appId_adoptedRecord h slot state

theorem appId_noSlotRecord {existing : Option InstanceRecord} {desired : DesiredInstance}
    (h : ∀ r, existing = some r → r.appId = desired.appId) :
    (noSlotRecord existing desired).appId = desired.appId := by
  cases existing with
  | none => rfl
  | some r => exact h r rfl

namespace Host

section SlotEffects

variable {h : Host} {desired : DesiredInstance} (hk : (h.view desired.appId).Keyed desired.appId)
include hk

theorem OnlyApp.reportNoSlot : OnlyApp desired.appId h (h.reportNoSlot desired) :=
  .putRecord h (appId_noSlotRecord hk)

theorem view_reportNoSlot :
    (h.reportNoSlot desired).view desired.appId =
      { h.view desired.appId with
        record := some (noSlotRecord (h.view desired.appId).record desired) } :=
  view_putRecord h (appId_noSlotRecord hk)

/-- Taking a slot and writing a record on it touches one app. -/
private theorem OnlyApp.slotThenPut {f : Host → AppSlot → InstanceRecord}
    (hf : ∀ h' : Host, (h'.view desired.appId).Keyed desired.appId → ∀ slot,
      (f h' slot).appId = desired.appId) :
    OnlyApp desired.appId h
      (match h.slotFor desired.appId with
        | none => h.reportNoSlot desired
        | some (slot, h') => h'.putRecord (f h' slot)) := by
  cases hs : h.slotFor desired.appId with
  | none => exact .reportNoSlot hk
  | some held =>
    obtain ⟨slot, h'⟩ := held
    have hview := (view_slotFor hs).1
    refine (OnlyApp.slotFor hs).trans (.putRecord h' (hf h' ?_ slot))
    rw [hview]
    exact hk

private theorem view_slotThenPut {f : Host → AppSlot → InstanceRecord}
    (hf : ∀ h' : Host, (h'.view desired.appId).Keyed desired.appId → ∀ slot,
      (f h' slot).appId = desired.appId)
    (hsame : ∀ h' : Host, h'.records[desired.appId]? = h.records[desired.appId]? → ∀ slot,
      f h' slot = f h slot) :
    SlotEffect desired (f h) (h.view desired.appId)
      ((match h.slotFor desired.appId with
        | none => h.reportNoSlot desired
        | some (slot, h') => h'.putRecord (f h' slot)).view desired.appId) := by
  cases hs : h.slotFor desired.appId with
  | none =>
    dsimp only
    rw [view_reportNoSlot hk]
    exact .noSlot (slot_eq_none_of_slotFor hs)
  | some held =>
    obtain ⟨slot, h'⟩ := held
    obtain ⟨hview, hdescribe, hslot⟩ := view_slotFor hs
    have hk' : (h'.view desired.appId).Keyed desired.appId := by
      rw [hview]
      exact hk
    have hrecords : h'.records[desired.appId]? = h.records[desired.appId]? :=
      congrArg AppView.record hview
    dsimp only
    rw [view_putRecord h' (hf h' hk' slot), hview, hsame h' hrecords slot]
    have hwritten : SlotEffect desired (f h) (h.view desired.appId) _ := .written slot.slot hslot
    rwa [← hdescribe] at hwritten

theorem OnlyApp.holdInstance : OnlyApp desired.appId h (h.holdInstance desired) :=
  OnlyApp.slotThenPut (f := fun _ slot => .new (recordFields desired slot) .stopped initialTracker)
    hk fun _ _ _ => rfl

theorem view_holdInstance :
    SlotEffect desired (fun slot => .new (recordFields desired slot) .stopped initialTracker)
      (h.view desired.appId) ((h.holdInstance desired).view desired.appId) :=
  view_slotThenPut (f := fun _ slot => .new (recordFields desired slot) .stopped initialTracker)
    hk (fun _ _ _ => rfl) fun _ _ _ => rfl

theorem OnlyApp.sleepInstance : OnlyApp desired.appId h (h.sleepInstance desired) :=
  OnlyApp.slotThenPut
    (f := fun h slot => adoptedRecord h.records[desired.appId]? desired slot .idle)
    hk fun _ hk' _ => appId_adoptedRecord hk' _ _

theorem view_sleepInstance :
    SlotEffect desired (adoptedRecord (h.view desired.appId).record desired · .idle)
      (h.view desired.appId) ((h.sleepInstance desired).view desired.appId) :=
  view_slotThenPut
    (f := fun h slot => adoptedRecord h.records[desired.appId]? desired slot .idle)
    hk (fun _ hk' _ => appId_adoptedRecord hk' _ _) fun _ hr _ => by rw [hr]

theorem OnlyApp.waitForRoom (shortfallMib : ℕ) :
    OnlyApp desired.appId h (h.waitForRoom desired shortfallMib) :=
  OnlyApp.slotThenPut
    (f := fun h slot => waitingRecord h.records[desired.appId]? desired shortfallMib slot)
    hk fun _ hk' _ => appId_adoptedRecord hk' _ _

theorem view_waitForRoom (shortfallMib : ℕ) :
    SlotEffect desired (waitingRecord (h.view desired.appId).record desired shortfallMib)
      (h.view desired.appId) ((h.waitForRoom desired shortfallMib).view desired.appId) :=
  view_slotThenPut
    (f := fun h slot => waitingRecord h.records[desired.appId]? desired shortfallMib slot)
    hk (fun _ hk' _ => appId_adoptedRecord hk' _ _) fun _ hr _ => by rw [hr]

end SlotEffects

end Host

/-! ### Starting -/

/-- The record of a start that came to nothing after its attempt was spent. -/
def failedStartRecord (existing : Option InstanceRecord) (desired : DesiredInstance)
    (slot : AppSlot) (nowMs : ℤ) (said : String) : InstanceRecord :=
  { attemptedRecord existing desired slot nowMs with state := .failed, message := some said }

/-- The record of a start turned away because the host was busy with others: what was spent
before is given back. -/
def busyRecord (existing : Option InstanceRecord) (desired : DesiredInstance) (slot : AppSlot)
    (nowMs : ℤ) : InstanceRecord :=
  { attemptedRecord existing desired slot nowMs with
    startAttempts := spentAttempts existing
    message := some (stateMessage Host.busyMessage) }

/-- The record of an app whose microVM was just booted. -/
def bootedRecord (existing : Option InstanceRecord) (desired : DesiredInstance) (slot : AppSlot)
    (answers : StartAnswers) : InstanceRecord :=
  { attemptedRecord existing desired slot answers.nowMs with
    startedAt := some answers.startedAtMs
    state := .starting
    restartCount := 0
    message := none }

/-- The record of a start refused before an attempt was spent on it. -/
def turnedDownRecord (existing : Option InstanceRecord) (desired : DesiredInstance)
    (slot : AppSlot) (said : String) : InstanceRecord :=
  { refusedRecord existing desired slot .pending with message := some said }

/-- The exits of a start. -/
inductive StartEffect [Platform] (desired : DesiredInstance) (answers : StartAnswers)
    (v : AppView) : AppView → Prop where
  /-- Out of restarts, or waiting out the backoff: at most the sentence changes. -/
  | refused (r : InstanceRecord) (said : Option String) (hr : v.record = some r)
      (href : startRefused v.record answers.nowMs desired ≠ none) :
      StartEffect desired answers v { v with record := some { r with message := said } }
  | noSlot (href : startRefused v.record answers.nowMs desired = none) (hslot : v.slot = none) :
      StartEffect desired answers v { v with record := some (noSlotRecord v.record desired) }
  /-- The host cannot put it within reach, or its volume is not ready. -/
  | turnedDown (href : startRefused v.record answers.nowMs desired = none) (slot : ℕ)
      (hslot : v.slot = none ∨ v.slot = some slot) (said : String) :
      StartEffect desired answers v
        { v with
          record := some
            (turnedDownRecord v.record desired (describeSlot slot desired.appId) said)
          slot := some slot }
  /-- The layers or the device would not come. -/
  | notBooted (href : startRefused v.record answers.nowMs desired = none) (slot : ℕ)
      (hslot : v.slot = none ∨ v.slot = some slot) (said : String) :
      StartEffect desired answers v
        { v with
          record := some (failedStartRecord v.record desired (describeSlot slot desired.appId)
            answers.nowMs said)
          slot := some slot }
  /-- The boot failed, before or after the process was spawned. -/
  | bootFailed (href : startRefused v.record answers.nowMs desired = none) (slot : ℕ)
      (hslot : v.slot = none ∨ v.slot = some slot) (said : String) (vm : Option Vm)
      (hvm : vm = v.vm ∨ v.isUp = false ∧
        vm = some (Vm.spawned desired.config.resources.memoryMib slot).stopped) :
      StartEffect desired answers v
        { record := some (failedStartRecord v.record desired (describeSlot slot desired.appId)
            answers.nowMs said)
          vm := vm
          snapshot := none
          slot := some slot
          boots := answers.nowMs :: v.boots }
  | busy (href : startRefused v.record answers.nowMs desired = none) (slot : ℕ)
      (hslot : v.slot = none ∨ v.slot = some slot) (hbusy : answers.boot = .busy) :
      StartEffect desired answers v
        { v with
          record := some
            (busyRecord v.record desired (describeSlot slot desired.appId) answers.nowMs)
          slot := some slot }
  | booted (href : startRefused v.record answers.nowMs desired = none) (slot : ℕ)
      (hslot : v.slot = none ∨ v.slot = some slot) (hdown : v.isUp = false) :
      StartEffect desired answers v
        { record := some
            (bootedRecord v.record desired (describeSlot slot desired.appId) answers)
          vm := some (Vm.spawned desired.config.resources.memoryMib slot)
          snapshot := none
          slot := some slot
          boots := answers.nowMs :: v.boots }

namespace Host

section Start

variable {h : Host} {desired : DesiredInstance}

/-- The ways a boot goes, and what each leaves of the app. -/
theorem bootVm_cases (h : Host) (desired : DesiredInstance) (slot : AppSlot) (nowMs : ℤ)
    (answer : BootAnswer) :
    (answer = .busy ∧ h.bootVm desired slot nowMs answer = (h, .busy)) ∨
      (∃ h' reason vm, h.bootVm desired slot nowMs answer = (h', .failed reason) ∧
        (vm = (h.view desired.appId).vm ∨ (h.view desired.appId).isUp = false ∧
          vm = some (Vm.spawned desired.config.resources.memoryMib slot.slot).stopped) ∧
        h'.view desired.appId =
          { h.view desired.appId with
            vm := vm
            snapshot := none
            boots := nowMs :: (h.view desired.appId).boots }) ∨
      (∃ h', h.bootVm desired slot nowMs answer = (h', .booted) ∧
        h.isUp desired.appId = false ∧
        h'.view desired.appId =
          { h.view desired.appId with
            vm := some (Vm.spawned desired.config.resources.memoryMib slot.slot)
            snapshot := none
            boots := nowMs :: (h.view desired.appId).boots }) := by
  have hbegun : ((h.discardSnapshot desired.appId).logBoot desired.appId nowMs).view desired.appId =
      { h.view desired.appId with
        snapshot := none
        boots := nowMs :: (h.view desired.appId).boots } := by
    rw [view_logBoot, view_discardSnapshot]
  unfold bootVm
  -- a boot that fails may have spawned a process, which is stopped, unless one was up
  cases answer with
  | busy => exact .inl ⟨rfl, rfl⟩
  | failed reason spawned =>
    refine .inr (.inl ?_)
    dsimp only
    split
    · rename_i hcond
      rw [Bool.and_eq_true, Bool.not_eq_true'] at hcond
      refine ⟨_, _, _, rfl, .inr ⟨hcond.2, rfl⟩, ?_⟩
      rw [view_putVm, hbegun]
    · exact ⟨_, _, _, rfl, .inl rfl, hbegun⟩
  | ok =>
    refine .inr ?_
    dsimp only
    split
    · exact .inl ⟨_, _, _, rfl, .inl rfl, hbegun⟩
    · rename_i hdown
      refine .inr ⟨_, rfl, by simpa using hdown, ?_⟩
      rw [view_putVm, hbegun]

section Attempt

variable {v : AppView} (hk : v.Keyed desired.appId) (slot : AppSlot) (answers : StartAnswers)
include hk

private theorem appId_attemptedRecord :
    (attemptedRecord v.record desired slot answers.nowMs).appId = desired.appId :=
  appId_adoptedRecord hk slot .pending

private theorem OnlyApp.attemptStart :
    OnlyApp desired.appId h (h.attemptStart desired slot v.record answers) := by
  have hput := OnlyApp.putRecord h (appId_attemptedRecord hk slot answers)
  unfold Host.attemptStart
  dsimp only
  cases hprep : answers.prepare with
  | error reason => exact hput.trans (.updateRecord _ _ _)
  | ok =>
    dsimp only
    split
    · exact hput.trans (.updateRecord _ _ _)
    · rename_i h₁ hatt
      have hboot := OnlyApp.bootVm h₁ desired slot answers.nowMs answers.boot
      split
      all_goals
        rename_i h₂ hb
        rw [hb] at hboot
        exact ((hput.trans (.attach hatt)).trans hboot).trans (.updateRecord _ _ _)

/-- What the part of a start an attempt is spent on leaves of the app, once it was handed its
slot. -/
private theorem view_attemptStart [Platform]
    (hview : h.view desired.appId = { v with slot := some slot.slot })
    (hdescribe : slot = describeSlot slot.slot desired.appId)
    (hslot : v.slot = none ∨ v.slot = some slot.slot)
    (href : startRefused v.record answers.nowMs desired = none) :
    StartEffect desired answers v
      ((h.attemptStart desired slot v.record answers).view desired.appId) := by
  have hput := view_putRecord h (appId_attemptedRecord hk slot answers)
  rw [hview] at hput
  -- every exit after the attempt was written ends in one update of the record
  have hfail : ∀ (h' : Host) (said : String),
      (h'.view desired.appId).record =
        some (attemptedRecord v.record desired slot answers.nowMs) →
      (h'.failStart desired.appId said).view desired.appId =
        { h'.view desired.appId with
          record := some (failedStartRecord v.record desired slot answers.nowMs
            (stateMessage said)) } := by
    intro h' said hr
    rw [failStart, view_updateRecord, hr]
    rfl
  have hnotBooted : ∀ said, StartEffect desired answers v
      { v with
        record := some (failedStartRecord v.record desired slot answers.nowMs said)
        slot := some slot.slot } := by
    intro said
    have heffect := StartEffect.notBooted href slot.slot hslot said
    rwa [← hdescribe] at heffect
  unfold Host.attemptStart
  dsimp only
  cases hprep : answers.prepare with
  | error reason =>
    dsimp only
    rw [hfail _ reason (congrArg AppView.record hput), hput]
    exact hnotBooted _
  | ok =>
    dsimp only
    cases hatt : (h.putRecord (attemptedRecord v.record desired slot answers.nowMs)).attach
        desired.volumeId desired.appId answers.attach with
    | error reason =>
      dsimp only
      rw [hfail _ reason (congrArg AppView.record hput), hput]
      exact hnotBooted _
    | ok h₁ =>
      have hview₁ := (view_attach hatt desired.appId).trans hput
      dsimp only
      rcases bootVm_cases h₁ desired slot answers.nowMs answers.boot with
        ⟨hbusy, heq⟩ | ⟨h₂, reason, vm, heq, hvm, hview₂⟩ | ⟨h₂, heq, hdown, hview₂⟩
      · rw [heq]
        dsimp only
        rw [view_updateRecord, hview₁]
        have heffect := StartEffect.busy href slot.slot hslot hbusy
        rwa [← hdescribe] at heffect
      · rw [heq]
        dsimp only
        rw [hview₁] at hview₂ hvm
        rw [hfail _ reason (congrArg AppView.record hview₂), hview₂]
        have heffect := StartEffect.bootFailed href slot.slot hslot (stateMessage reason) vm hvm
        rwa [← hdescribe] at heffect
      · rw [heq]
        dsimp only
        rw [hview₁] at hview₂
        rw [view_updateRecord, hview₂]
        have hdown' : v.isUp = false := by
          rw [← isUp_view, hview₁] at hdown
          exact hdown
        have heffect := StartEffect.booted href slot.slot hslot hdown'
        rwa [← hdescribe] at heffect

end Attempt

variable [Platform] (hk : (h.view desired.appId).Keyed desired.appId)
include hk

theorem OnlyApp.startInstance (answers : StartAnswers) :
    OnlyApp desired.appId h (h.startInstance desired answers) := by
  unfold Host.startInstance
  dsimp only
  split
  · exact .updateRecord h _ _
  · exact .refl _ h
  · cases hs : h.slotFor desired.appId with
    | none => exact .reportNoSlot hk
    | some held =>
      obtain ⟨slot, h₁⟩ := held
      have hslot := OnlyApp.slotFor hs
      have hrefused : ∀ state said, OnlyApp desired.appId h₁
          ((h₁.putRecord (refusedRecord h.records[desired.appId]? desired slot state)).say
            desired.appId said) := fun state said =>
        (OnlyApp.putRecord h₁ (appId_refusedRecord hk slot state)).trans (.updateRecord _ _ _)
      dsimp only
      split
      · exact hslot.trans (hrefused _ _)
      · split
        · exact hslot.trans (hrefused _ _)
        · exact hslot.trans (.attemptStart hk slot answers)

/-- **What a start can do** to the app it starts. -/
theorem view_startInstance (answers : StartAnswers) :
    StartEffect desired answers (h.view desired.appId)
      ((h.startInstance desired answers).view desired.appId) := by
  -- a start that is refused for its restarts only says so
  have hrefuse : ∀ (refusal : StartRefused) (said : InstanceRecord → Option String),
      startRefused h.records[desired.appId]? answers.nowMs desired = some refusal →
      ∃ r, h.records[desired.appId]? = some r ∧
        StartEffect desired answers (h.view desired.appId)
          { h.view desired.appId with record := some { r with message := said r } } := by
    intro refusal said href
    cases hr : h.records[desired.appId]? with
    | none =>
      rw [hr] at href
      cases href
    | some r =>
      refine ⟨r, rfl, .refused r (said r) hr ?_⟩
      rw [show (h.view desired.appId).record = h.records[desired.appId]? from rfl, href]
      exact Option.some_ne_none _
  unfold Host.startInstance
  dsimp only
  split
  · rename_i attempted allowed href
    obtain ⟨r, hr, heffect⟩ :=
      hrefuse _ (fun _ => some (outOfRestartsMessage attempted allowed)) href
    rw [say, view_updateRecord, show (h.view desired.appId).record = some r from hr]
    exact heffect
  · rename_i href
    obtain ⟨r, hr, heffect⟩ := hrefuse _ (fun r => r.message) href
    have hsame : { h.view desired.appId with record := some r } = h.view desired.appId := by
      simp only [Host.view, hr]
    rwa [hsame] at heffect
  · rename_i href
    cases hs : h.slotFor desired.appId with
    | none =>
      dsimp only
      rw [view_reportNoSlot hk]
      exact .noSlot href (slot_eq_none_of_slotFor hs)
    | some held =>
      obtain ⟨slot, h₁⟩ := held
      obtain ⟨hview, hdescribe, hslot⟩ := view_slotFor hs
      -- one the host turns down is on the record with what turned it down
      have hturned : ∀ state said, StartEffect desired answers (h.view desired.appId)
          (((h₁.putRecord (refusedRecord h.records[desired.appId]? desired slot state)).say
            desired.appId said).view desired.appId) := by
        intro state said
        have heffect := StartEffect.turnedDown (v := h.view desired.appId) href slot.slot hslot said
        rw [← hdescribe] at heffect
        have hput := view_putRecord h₁
          (r := refusedRecord h.records[desired.appId]? desired slot state)
          (appId_refusedRecord hk slot state)
        rw [say, view_updateRecord, hput, hview]
        cases hr : h.records[desired.appId]? <;>
          simpa [turnedDownRecord, refusedRecord, adoptedRecord, Host.view, hr,
            InstanceRecord.adopt, InstanceRecord.new] using heffect
      dsimp only
      split
      · exact hturned _ _
      · split
        · exact hturned _ _
        · exact view_attemptStart hk slot answers hview hdescribe hslot href

end Start

end Host

/-! ### Waking -/

/-- The record of an app whose microVM was just restored. -/
def resumedRecord (answers : Host.WakeAnswers) (r : InstanceRecord) : InstanceRecord :=
  { r with
    state := .starting
    startedAt := some answers.startedAtMs
    stopRequested := false
    message := none }

/-- What a restore that did not go through leaves of the microVM: what was there, or the process
it spawned, stopped. -/
def LeftDown (v : AppView) (slot : ℕ) (vm : Option Vm) : Prop :=
  vm = v.vm ∨ ∃ memoryMib, vm = some (Vm.spawned memoryMib slot).stopped

theorem LeftDown.any_isUp {v : AppView} {slot : ℕ} {vm : Option Vm} (h : LeftDown v slot vm)
    (hdown : v.isUp = false) : vm.any Vm.isUp = false := by
  rcases h with rfl | ⟨memoryMib, rfl⟩
  · exact hdown
  · simp

/-- The exits of a resume. -/
inductive ResumeEffect [Platform] (desired : DesiredInstance) (answers : Host.WakeAnswers)
    (v : AppView) : AppView → Prop where
  | noSlot : ResumeEffect desired answers v v
  /-- It is up already, its volume is not usable, or the host is busy with others. -/
  | kept (slot : ℕ) (hslot : v.slot = none ∨ v.slot = some slot)
      (said : InstanceRecord → Option String) :
      ResumeEffect desired answers v
        { v with
          record := v.record.map fun r => { r with message := said r }
          slot := some slot }
  /-- The restore failed, and the snapshot is used up. -/
  | notRestored (slot : ℕ) (hslot : v.slot = none ∨ v.slot = some slot) (hdown : v.isUp = false)
      (said : InstanceRecord → Option String) (vm : Option Vm) (hvm : LeftDown v slot vm) :
      ResumeEffect desired answers v
        { v with
          record := v.record.map fun r => { r with message := said r }
          vm := vm
          snapshot := none
          slot := some slot }
  | restored (slot : ℕ) (hslot : v.slot = none ∨ v.slot = some slot) (hdown : v.isUp = false)
      (s : Snapshot) (hs : v.snapshot = some s)
      (hdeployment : s.deploymentId = desired.deploymentId)
      (hstamp : s.slot = slot) (hok : answers.wake = .ok) :
      ResumeEffect desired answers v
        { v with
          record := v.record.map (resumedRecord answers)
          vm := some (Vm.spawned s.memoryMib slot)
          snapshot := none
          slot := some slot }
  /-- There is nothing to restore from, and it is booted instead. -/
  | cold (slot : ℕ) (hslot : v.slot = none ∨ v.slot = some slot) (hdown : v.isUp = false)
      (vm : Option Vm) (hvm : LeftDown v slot vm) (v' : AppView)
      (hstart : StartEffect desired answers.start
        { v with vm := vm, snapshot := none, slot := some slot } v') :
      ResumeEffect desired answers v v'

namespace Host

private theorem view_afterRestore (h : Host) (app : AppId) (s : Snapshot) (spawned : Bool) :
    ∃ vm, LeftDown (h.view app) s.slot vm ∧
      (h.afterRestore app s spawned).view app = { h.view app with vm := vm, snapshot := none } := by
  cases spawned with
  | true =>
    refine ⟨_, .inr ⟨s.memoryMib, rfl⟩, ?_⟩
    rw [afterRestore, if_pos rfl, view_putVm, view_discardSnapshot]
  | false =>
    refine ⟨_, .inl rfl, ?_⟩
    rw [afterRestore, if_neg Bool.false_ne_true, view_discardSnapshot]

/-- The ways a restore goes, and what each leaves of the app. -/
theorem wakeVm_cases (h : Host) (app : AppId) (deployment : DeploymentId) (slot : ℕ)
    (answer : WakeAnswer) :
    (∃ reason, h.wakeVm app deployment slot answer = (h, .failed reason)) ∨
      (∃ h' result vm, h.wakeVm app deployment slot answer = (h', result) ∧ result ≠ .restored ∧
        LeftDown (h.view app) slot vm ∧
        h'.view app = { h.view app with vm := vm, snapshot := none }) ∨
      (∃ h' s, h.wakeVm app deployment slot answer = (h', .restored) ∧ answer = .ok ∧
        (h.view app).snapshot = some s ∧ s.deploymentId = deployment ∧ s.slot = slot ∧
        h'.view app =
          { h.view app with vm := some (Vm.spawned s.memoryMib slot), snapshot := none }) := by
  -- what is loaded is the snapshot of this deployment on this slot
  have hload : ∀ s, h.loadable app deployment slot = some s →
      (h.view app).snapshot = some s ∧ s.deploymentId = deployment ∧ s.slot = slot := by
    intro s hs
    rw [loadable, Option.filter_eq_some_iff] at hs
    exact ⟨hs.1, by simpa using hs.2⟩
  unfold wakeVm
  split
  · exact .inl ⟨_, rfl⟩
  · refine .inr (.inl ⟨_, _, _, rfl, WakeResult.noConfusion, .inl rfl, ?_⟩)
    rw [view_discardSnapshot]
  · rename_i spawned s hs
    obtain ⟨-, -, rfl⟩ := hload s hs
    obtain ⟨vm, hvm, hview⟩ := view_afterRestore h app s spawned
    exact .inr (.inl ⟨_, _, vm, rfl, WakeResult.noConfusion, hvm, hview⟩)
  · rename_i spawned s hs
    obtain ⟨-, -, rfl⟩ := hload s hs
    obtain ⟨vm, hvm, hview⟩ := view_afterRestore h app s spawned
    exact .inr (.inl ⟨_, _, vm, rfl, WakeResult.noConfusion, hvm, hview⟩)
  · rename_i s hs
    obtain ⟨hsnapshot, hdeployment, rfl⟩ := hload s hs
    refine .inr (.inr ⟨_, s, rfl, rfl, hsnapshot, hdeployment, rfl, ?_⟩)
    rw [view_putVm, view_discardSnapshot]

section Resume

variable [Platform] {h : Host} {desired : DesiredInstance}
  (hk : (h.view desired.appId).Keyed desired.appId)
include hk

theorem OnlyApp.resumeInstance (answers : WakeAnswers) :
    OnlyApp desired.appId h (h.resumeInstance desired answers).1 := by
  unfold Host.resumeInstance
  dsimp only
  cases hs : h.slotFor desired.appId with
  | none => exact .refl _ h
  | some held =>
    obtain ⟨slot, h₁⟩ := held
    obtain ⟨hview, -, -⟩ := view_slotFor hs
    have hslot := OnlyApp.slotFor hs
    dsimp only
    split
    · exact hslot
    · cases hatt : h₁.attach desired.volumeId desired.appId answers.attach with
      | error reason => exact hslot.trans (.updateRecord _ _ _)
      | ok h₂ =>
        have hready := hslot.trans (.attach hatt)
        have hwake := OnlyApp.wakeVm h₂ desired.appId desired.deploymentId slot.slot answers.wake
        dsimp only
        split
        · rename_i h₃ heq
          rw [heq] at hwake
          exact (hready.trans hwake).trans (.updateRecord _ _ _)
        · rename_i h₃ heq
          rw [heq] at hwake
          -- an unusable snapshot is dropped and the app booted instead, its record still its own
          have hk₃ : (h₃.view desired.appId).Keyed desired.appId := by
            rcases wakeVm_cases h₂ desired.appId desired.deploymentId slot.slot answers.wake with
              ⟨reason, heq'⟩ | ⟨h', result, vm, heq', -, -, hview'⟩ | ⟨h', s, heq', -⟩
            · cases heq.symm.trans heq'
            · obtain ⟨rfl, -⟩ := Prod.mk.inj (heq.symm.trans heq')
              rw [hview', view_attach hatt, hview]
              exact hk
            · cases heq.symm.trans heq'
          have hstart := (hready.trans hwake).trans (OnlyApp.startInstance hk₃ answers.start)
          split
          · split <;> exact hstart
          · exact hstart
        · rename_i h₃ reason heq
          rw [heq] at hwake
          exact (hready.trans hwake).trans (.updateRecord _ _ _)

/-- **What a resume can do** to the app it resumes. -/
theorem view_resumeInstance (answers : WakeAnswers) :
    ResumeEffect desired answers (h.view desired.appId)
      ((h.resumeInstance desired answers).1.view desired.appId) := by
  unfold Host.resumeInstance
  dsimp only
  cases hs : h.slotFor desired.appId with
  | none => exact .noSlot
  | some held =>
    obtain ⟨slot, h₁⟩ := held
    obtain ⟨hview, -, hslot⟩ := view_slotFor hs
    have hkept : ∀ said : InstanceRecord → Option String,
        ResumeEffect desired answers (h.view desired.appId)
          { h.view desired.appId with
            record := (h.view desired.appId).record.map fun r => { r with message := said r }
            slot := some slot.slot } := fun said => .kept slot.slot hslot said
    dsimp only
    split
    · have hsaid := hkept fun r => r.message
      rw [Option.map_id'] at hsaid
      rw [hview]
      exact hsaid
    · rename_i hnot
      have hdown : (h.view desired.appId).isUp = false := by
        rw [Bool.not_eq_true, ← isUp_view, hview] at hnot
        exact hnot
      cases hatt : h₁.attach desired.volumeId desired.appId answers.attach with
      | error reason =>
        dsimp only
        rw [view_updateRecord, hview]
        exact hkept fun _ => some (stateMessage reason)
      | ok h₂ =>
        have hview₂ := (view_attach hatt desired.appId).trans hview
        dsimp only
        -- the manager is busy, nothing is restored, or the app is up from its snapshot
        rcases wakeVm_cases h₂ desired.appId desired.deploymentId slot.slot answers.wake with
          ⟨reason, heq⟩ | ⟨h₃, result, vm, heq, hne, hvm, hview₃⟩ |
          ⟨h₃, s, heq, hok, hsnapshot, hdeployment, hstamp, hview₃⟩
        · rw [heq]
          dsimp only
          rw [view_updateRecord, hview₂]
          exact hkept fun _ => some (stateMessage reason)
        · rw [hview₂] at hview₃ hvm
          rw [heq]
          cases result with
          | restored => exact absurd rfl hne
          | failed reason =>
            dsimp only
            rw [view_updateRecord, hview₃]
            exact .notRestored slot.slot hslot hdown (fun _ => some (stateMessage reason)) vm hvm
          | unusable =>
            have hk₃ : (h₃.view desired.appId).Keyed desired.appId := by
              rw [hview₃]
              exact hk
            have hstart := view_startInstance hk₃ answers.start
            rw [hview₃] at hstart
            have heffect : ResumeEffect desired answers (h.view desired.appId)
                ((h₃.startInstance desired answers.start).view desired.appId) :=
              .cold slot.slot hslot hdown vm hvm _ hstart
            dsimp only
            split
            · split <;> exact heffect
            · exact heffect
        · rw [hview₂] at hview₃ hsnapshot
          rw [heq]
          dsimp only
          rw [view_updateRecord, hview₃]
          exact .restored slot.slot hslot hdown s hsnapshot hdeployment hstamp hok

/-- A request for an app leaves at most a sentence on its record, or does what a resume does. -/
theorem view_wakeApp (answers : WakeAnswers) :
    (∃ said : InstanceRecord → Option String,
      (h.wakeApp desired answers).view desired.appId =
        { h.view desired.appId with
          record := (h.view desired.appId).record.map fun r => { r with message := said r } }) ∨
      ResumeEffect desired answers (h.view desired.appId)
        ((h.wakeApp desired answers).view desired.appId) := by
  unfold Host.wakeApp
  split
  · refine .inl ⟨fun r => r.message, ?_⟩
    rw [Option.map_id']
  · dsimp only
    split
    · exact .inl ⟨_, by rw [say, view_updateRecord]⟩
    · exact .inr (view_resumeInstance hk answers)

theorem OnlyApp.wakeApp (answers : WakeAnswers) :
    OnlyApp desired.appId h (h.wakeApp desired answers) := by
  unfold Host.wakeApp
  split
  · exact .refl _ h
  · dsimp only
    split
    · exact .updateRecord _ _ _
    · exact .resumeInstance hk answers

end Resume

/-! ### The status loop, and what guests do by themselves -/

theorem view_refreshStates [Platform] (h : Host) (answers : RefreshAnswers) (app : AppId) :
    (h.refreshStates answers).view app =
      { h.view app with
        record := (h.view app).record.map fun r => (h.reading answers app r).settle r } := by
  have hrecord : (h.refreshStates answers).records[app]? =
      h.records[app]?.map fun r => (h.reading answers app r).settle r := by
    rw [refreshStates, ExtTreeMap.getElem?_map]
  simp only [Host.view, hrecord]
  rfl

theorem OnlyApp.guestExit (h : Host) (app : AppId) (exit : VmExit) :
    OnlyApp app h (h.guestExit app exit) := by
  refine { OnlyApp.refl app h with vm := fun a ha => ?_ }
  rw [Host.guestExit, ExtTreeMap.getElem?_modify_ite, if_neg ha.symm]

theorem view_guestExit (h : Host) (app : AppId) (exit : VmExit) :
    (h.guestExit app exit).view app =
      { h.view app with vm := (h.view app).vm.map (Vm.ended · exit) } := by
  have hvm : (h.guestExit app exit).vms[app]? = h.vms[app]?.map (Vm.ended · exit) := by
    rw [guestExit, ExtTreeMap.getElem?_modify_ite, if_pos rfl]
  simp only [Host.view, hvm]
  rfl

end Host

end Nibrunner

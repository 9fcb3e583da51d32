import Nibrunner.Reconcile.PlanSafety
import Nibrunner.Reconcile.System

/-!
# A live microVM keeps its slot

A slot belongs to an app and is given back when a volume of the app is taken away, whichever
volume that is. `AppView.OnItsSlot` says that an app that is up holds the slot its microVM was
booted on: its tap, its address and its block device are the app's and nobody else's.

The invariant holds along every run whose passes tear no volume down for an app they leave up or
bring up (`onItsSlot_run`). It does not hold along every run: a document that lists a second
volume of an app as absent takes the slot from under its running microVM
(`not_onItsSlot_of_second_volume`).
-/

namespace Nibrunner

open Std

/-- **The app holds the slot its microVM was booted on**, where it is up. -/
def AppView.OnItsSlot (v : AppView) : Prop :=
  ∀ vm, v.vm = some vm → vm.isUp = true → v.slot = some vm.slot

/-- The pass leaves the instance up, or brings it up. -/
def IsKeptUp (o : ObservedState) (wanted : DesiredInstance) : Prop :=
  wanted.desiredState ≠ .stopped ∧ (IsLeftAlone o wanted ∨ IsBooted o wanted)

/-- The event takes no volume away from an app it keeps up: a pass that deletes a volume does not
keep up the app it is listed for. -/
def SparesSlots (h : Host) : Event → Prop
  | .pass d answers =>
    ∀ volume ∈ d.volumes, volume.desiredState = .absent →
      IsRemoved d (h.observe d) volume.volumeId →
      answers.teardown.deleted volume.volumeId = true →
      ∀ wanted ∈ d.instances, wanted.appId = volume.appId → ¬ IsKeptUp (h.observe d) wanted
  | _ => True

/-! ### Who a volume is held for -/

/-- A volume's owner is the app the document lists it for, or the app recorded on it. -/
theorem mem_of_volumeOwners {d : HostDesiredState} {records : ExtTreeMap AppId InstanceRecord}
    {volume : VolumeId} {app : AppId} (h : (volumeOwners d records)[volume]? = some app) :
    (∃ v ∈ d.volumes, v.volumeId = volume ∧ v.appId = app) ∨
      ∃ (a : AppId) (r : InstanceRecord),
        records[a]? = some r ∧ r.volumeId = volume ∧ r.appId = app := by
  unfold volumeOwners at h
  rcases ExtTreeMap.getElem?_foldl_insert DesiredVolume.volumeId DesiredVolume.appId d.volumes _
      volume h with hv | hr
  · exact .inl hv
  · rcases ExtTreeMap.getElem?_foldl_insert (fun r : InstanceRecord => r.volumeId)
      (fun r => r.appId) _ _ volume hr with
      ⟨r, hmem, hvolume, happ⟩ | hnone
    · obtain ⟨⟨a, r'⟩, hmem', rfl⟩ := List.mem_map.mp hmem
      exact .inr ⟨a, r', ExtTreeMap.mem_toList_iff_getElem?_eq_some.mp hmem', hvolume, happ⟩
    · simp at hnone

/-- A pass detaches no volume from an app the document names. -/
private theorem not_detach_of_named {h : Host} (hk : h.Keyed) {d : HostDesiredState} {app : AppId}
    (happ : app ∈ d.appIds) (volume : VolumeId) :
    VolumePlan.detach volume app ∉ (planReconcile d (h.observe d)).volumes := by
  intro hmem
  simp only [planReconcile, planVolumes, List.mem_append, List.mem_map, List.mem_filter,
    Bool.and_eq_true, decide_eq_true_eq] at hmem
  rcases hmem with ⟨v, -, hplan⟩ | ⟨c, ⟨hc, ⟨hattached, hunlisted⟩, hfree⟩, hplan⟩
  · unfold planVolume at hplan
    dsimp only at hplan
    repeat' split at hplan
    all_goals cases hplan
  · cases hplan
    obtain ⟨⟨volume, image⟩, -, hobserved⟩ := List.mem_filterMap.mp hc
    obtain ⟨app, howner, rfl⟩ := Option.map_eq_some_iff.mp hobserved
    -- the volume is unlisted, so its owner is the app recorded on it, and it is kept for that app
    rcases mem_of_volumeOwners howner with ⟨v, hv, hvolume, -⟩ | ⟨a, r, hr, hvolume, hrapp⟩
    · exact hunlisted (List.mem_map.mpr ⟨v, hv, hvolume⟩)
    · obtain rfl : a = app := (hk a r hr).symm.trans hrapp
      refine hfree (List.mem_filterMap.mpr ⟨h.observeInstance a, ?_, ?_⟩)
      · refine List.mem_filter.mpr ⟨List.mem_map_of_mem ?_, ?_⟩
        · refine Host.mem_knownApps.mpr (.inr ?_)
          rw [show (h.view a).record = some r from hr]
          exact Option.some_ne_none r
        · rw [Bool.or_eq_true]
          exact .inr (decide_eq_true happ)
      · show h.records[a]?.map (·.volumeId) = some volume
        rw [hr]
        exact congrArg some hvolume

/-- An app the document names loses its slot only to a volume the document lists for it and the
pass deletes. -/
theorem exists_removed_of_takesSlotOf {h : Host} (hk : h.Keyed) {d : HostDesiredState} {app : AppId}
    (happ : app ∈ d.appIds) {answers : Host.TeardownAnswers} {p : VolumePlan}
    (hp : p ∈ (planReconcile d (h.observe d)).volumes) (htakes : p.TakesSlotOf answers app) :
    ∃ volume ∈ d.volumes, volume.appId = app ∧ volume.desiredState = .absent ∧
      IsRemoved d (h.observe d) volume.volumeId ∧ answers.deleted volume.volumeId = true := by
  -- a teardown takes the slot of its volume's app; a detach takes none of a named app
  cases p with
  | teardown desired =>
    obtain ⟨hdesired, hdeleted⟩ := htakes
    have hlisted : ∃ wanted ∈ d.volumes, planVolume d (h.observe d) wanted = .teardown desired := by
      simp only [planReconcile, planVolumes, List.mem_append, List.mem_map] at hp
      rcases hp with hp | ⟨c, -, hplan⟩
      · exact hp
      · cases hplan
    obtain ⟨wanted, hw, hplan⟩ := hlisted
    have hsame : desired = wanted := by
      unfold planVolume at hplan
      dsimp only at hplan
      repeat' split at hplan
      all_goals
        cases hplan
        try rfl
    subst hsame
    have htaken : (planVolume d (h.observe d) desired).TakesAway desired.volumeId := by
      rw [hplan]
      rfl
    obtain ⟨-, habsent, hobserved, hfree⟩ := (planVolume_takesAway_iff d _ _ _).mp htaken
    exact ⟨desired, hw, hdesired, habsent, ⟨⟨desired, hw, rfl, habsent⟩, hobserved, hfree⟩,
      hdeleted⟩
  | detach volume owner =>
    obtain ⟨rfl, -⟩ := htakes
    exact absurd hp (not_detach_of_named hk happ volume)
  | provision desired | blocked desired blockedBy | none volume => exact htakes.elim

/-! ### What a pass keeps up -/

/-- An instance that is up and planned to be left alone is one the pass keeps up. -/
theorem isKeptUp_of_none {h : Host} {d : HostDesiredState} {wanted : DesiredInstance}
    (hup : h.isUp wanted.appId = true) (haction : h.actionFor d wanted = .none wanted.appId) :
    IsKeptUp (h.observe d) wanted := by
  have hleft := haction
  rw [← Host.planInstance_observe, planInstance_eq_none_iff] at hleft
  refine ⟨fun hstopped => ?_, .inl hleft.1⟩
  rw [h.actionFor_of_up hup, if_pos hstopped] at haction
  cases haction

/-- An instance that is planned to be brought up is one the pass keeps up. -/
theorem isKeptUp_of_broughtUp {h : Host} {d : HostDesiredState} {wanted : DesiredInstance}
    (hup : (h.actionFor d wanted).broughtUp = some wanted) : IsKeptUp (h.observe d) wanted := by
  have hboots : (h.actionFor d wanted).BootsOnto wanted.volumeId := by
    cases haction : h.actionFor d wanted with
    | start desired | replace desired | recover desired =>
      rw [haction] at hup
      cases hup
      rfl
    | _ =>
      rw [haction] at hup
      cases hup
  rw [← Host.planInstance_observe, planInstance_bootsOnto_iff] at hboots
  exact ⟨hboots.1.1, .inr hboots.1⟩

/-! ### One event -/

namespace AppView.OnItsSlot

variable {v v' : AppView}

theorem of_down (hdown : v.isUp = false) : v.OnItsSlot := by
  intro vm hvm hup
  rw [AppView.isUp, hvm, Option.any_some, hup] at hdown
  cases hdown

/-- Being handed a slot takes no slot away. -/
theorem of_slot (hs : v.OnItsSlot) {slot : ℕ} (hslot : v.slot = none ∨ v.slot = some slot)
    (hvm : v'.vm = v.vm) (hslot' : v'.slot = some slot) : v'.OnItsSlot := by
  intro vm hv hup
  have hheld := hs vm (hvm ▸ hv) hup
  rcases hslot with hnone | hsome
  · rw [hnone] at hheld
    cases hheld
  · rw [hslot', ← hsome, hheld]

theorem slotEffect (hs : v.OnItsSlot) {desired : DesiredInstance}
    {write : AppSlot → InstanceRecord} (he : SlotEffect desired write v v') : v'.OnItsSlot := by
  cases he with
  | written slot hslot => exact hs.of_slot hslot rfl rfl
  | noSlot hslot => exact hs

theorem booted (v : AppView) (desired : DesiredInstance) (slot : ℕ) (answers : StartAnswers) :
    (v.booted desired slot answers).OnItsSlot := by
  intro vm hvm _
  cases hvm
  rfl

theorem startEffect [Platform] {desired : DesiredInstance} {answers : StartAnswers}
    (he : StartEffect desired answers v v') (hdown : v.isUp = false) : v'.OnItsSlot := by
  cases hup : v'.isUp with
  | false => exact of_down hup
  | true =>
    obtain ⟨slot, rfl, -⟩ := he.isUp_cases hdown hup
    exact booted v desired slot answers

theorem suspendEffect (hs : v.OnItsSlot) (he : SuspendEffect v v') : v'.OnItsSlot := by
  have hstopped : (v.vm.map Vm.stopped).any Vm.isUp = false := AppView.isUp_stop v
  cases he with
  | nothing => exact hs
  | stopped => exact of_down (AppView.isUp_stop v)
  | failed => exact hs
  | lost => exact of_down hstopped
  | slept r vm slot hr hvm hup hslot => exact of_down (Vm.isUp_stopped vm)

theorem resumeEffect [Platform] (hs : v.OnItsSlot) {desired : DesiredInstance}
    {answers : Host.WakeAnswers} (he : ResumeEffect desired answers v v') : v'.OnItsSlot := by
  cases he with
  | noSlot => exact hs
  | kept slot hslot said => exact hs.of_slot hslot rfl rfl
  | notRestored slot hslot hdown said vm hvm => exact of_down (hvm.any_isUp hdown)
  | restored slot hslot hdown snapshot hsnapshot hdeployment hstamp hok =>
    intro vm hvm _
    cases hvm
    rfl
  | cold slot hslot hdown vm hvm v' hstart => exact startEffect hstart (hvm.any_isUp hdown)

/-- A pass that spares the slots keeps every app that is up after it on its slot. -/
theorem passEffect [Platform] {h : Host} (hk : h.Keyed) {app : AppId}
    (hs : (h.view app).OnItsSlot) {d : HostDesiredState} {answers : Host.PassAnswers}
    (hspares : SparesSlots h (.pass d answers)) (he : PassEffect h d answers app v') :
    v'.OnItsSlot := by
  -- a slot is only lost to a volume of an app that is not kept up
  have hkept : ∀ wanted ∈ d.instances, wanted.appId = app → IsKeptUp (h.observe d) wanted →
      ∀ v, v.OnItsSlot →
        AppView.LosesSlot (planReconcile d (h.observe d)) answers.teardown app v v' →
        v'.OnItsSlot := by
    rintro wanted hw happ hkeep v hv ⟨slot, rfl, rfl | ⟨-, p, hp, htakes⟩⟩
    · exact hv
    · have hnamed : app ∈ d.appIds := List.mem_map.mpr ⟨wanted, hw, happ⟩
      obtain ⟨volume, hvolume, hvapp, habsent, hremoved, hdeleted⟩ :=
        exists_removed_of_takesSlotOf hk hnamed hp htakes
      exact absurd hkeep (hspares volume hvolume habsent hremoved hdeleted wanted hw
        (happ.trans hvapp.symm))
  cases hup : v'.isUp with
  | false => exact of_down hup
  | true =>
    rcases he.isUp_cases hup with rfl | ⟨-, -, wanted, hw, rfl, hwas, haction, v₁, hgain, hlose⟩ |
      ⟨wanted, hw, happ, hbrought, v₁, slot, hlose⟩
    · exact hs
    · refine hkept wanted hw rfl (isKeptUp_of_none hwas haction) v₁ ?_ hlose
      obtain ⟨slot₁, rfl, hslot⟩ := hgain
      intro vm hvm hvmup
      have hheld : (h.view wanted.appId).slot = some vm.slot := hs vm hvm hvmup
      rcases hslot with hnone | hsame
      · rw [show (h.view wanted.appId).slot = none from hnone] at hheld
        cases hheld
      · exact hsame.trans hheld
    · exact hkept wanted hw happ (isKeptUp_of_broughtUp hbrought) _
        (booted v₁ wanted slot (answers.start app)) hlose

end AppView.OnItsSlot

/-- **One event** that spares the slots keeps every live microVM on its slot. -/
theorem onItsSlot_step [Platform] {h : Host} (hk : h.Keyed)
    (hs : ∀ app, (h.view app).OnItsSlot) {e : Event} (hspares : SparesSlots h e) (app : AppId) :
    ((h.step e).view app).OnItsSlot := by
  have heffect := h.view_step hk e app
  generalize (h.step e).view app = v' at heffect
  cases heffect with
  | same e => exact hs app
  | passed d answers v' he => exact .passEffect hk (hs app) hspares he
  | refreshed answers => exact hs app
  | suspended answer v' he => exact (hs app).suspendEffect he
  | said wanted answers said => exact hs app
  | woken wanted happ answers v' he => exact (hs app).resumeEffect he
  | exited exit =>
    refine .of_down ?_
    rw [AppView.isUp, Option.any_map]
    cases (h.view app).vm <;> simp
  | stopped => exact .of_down (AppView.isUp_stop _)
  | slept desired happ hdown v' he | held desired happ hdown v' he
  | waiting desired happ hdown shortfallMib v' he => exact (hs app).slotEffect he
  | started desired happ hdown answers v' he => exact .startEffect he hdown

/-- **A live microVM keeps its slot** along every run, from a host that holds nothing, whose
passes delete no volume of an app they keep up. -/
theorem onItsSlot_run [Platform] (config : HostConfig) (maxApps : ℕ) (events : List Event)
    (hspares : Run.Meets Host.step SparesSlots (Host.fresh config maxApps) events) (app : AppId) :
    (((Host.fresh config maxApps).run events).view app).OnItsSlot := by
  have hinv := Run.Meets.invariant
    (I := fun h : Host => h.Keyed ∧ ∀ app, (h.view app).OnItsSlot)
    (fun h e hI hc => ⟨hI.1.step e, onItsSlot_step hI.1 hI.2 hc⟩) ⟨Host.keyed_fresh _ _, ?_⟩ hspares
  · exact hinv.2 app
  · intro a
    exact .of_down (by simp [AppView.isUp, Host.view, Host.fresh])

/-- One pass brings an app up, on the slot it holds afterwards. -/
theorem onItsSlot_run_soleBroughtUp :
    (@Host.run .plain smallHost soleBroughtUp).isUp soleInstance.appId = true ∧
      ((@Host.run .plain smallHost soleBroughtUp).view soleInstance.appId).OnItsSlot := by
  refine ⟨by decide +kernel,
    @onItsSlot_run .plain smallHost.config 4 soleBroughtUp (And.intro ?_ trivial) _⟩
  intro volume hvolume habsent
  obtain rfl := List.mem_singleton.mp hvolume
  cases habsent

/-- A volume of an app beside the one its instance is on. -/
def secondVolume (state : DesiredPresence) : DesiredVolume :=
  { soleVolume with volumeId := ⟨"vol-2"⟩, desiredState := state }

/-- The app is brought up with a second volume beside its own, and the next document removes the
second volume. -/
def secondVolumeRemoved : List Event :=
  [.pass ⟨[soleVolume, secondVolume .present], [soleInstance], [], []⟩ (.succeed .change 0),
    .pass ⟨[soleVolume, secondVolume .absent], [soleInstance], [], []⟩ (.succeed .change 1000)]

/-- Removing a second volume of an app takes the slot from under its running microVM. -/
theorem not_onItsSlot_of_second_volume :
    ¬ ∀ (_ : Platform) (config : HostConfig) (maxApps : ℕ) (events : List Event) (app : AppId),
      (((Host.fresh config maxApps).run events).view app).OnItsSlot := by
  intro h
  have hslot := h .plain smallHost.config 4 secondVolumeRemoved soleInstance.appId
  have hvm : (@Host.run .plain smallHost secondVolumeRemoved).vms[soleInstance.appId]? =
      some (Vm.spawned defaultInstanceResources.memoryMib 0) := by decide +kernel
  have hnone : (@Host.run .plain smallHost secondVolumeRemoved).slotOf soleInstance.appId =
      none := by decide +kernel
  exact Option.some_ne_none _ ((hslot _ hvm rfl).symm.trans hnone)

end Nibrunner

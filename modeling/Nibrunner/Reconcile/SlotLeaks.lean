import Nibrunner.Reconcile.PlanCoverage
import Nibrunner.Reconcile.Restarts
import Nibrunner.Reconcile.SuccessfulPass

/-!
# Whether a slot comes back

An app that no document names any more is stopped by the first pass and forgotten by the next. Its
slot goes back with its volume, in the pass that detaches it, and a pass only detaches the volume
of a record it still has, from a device that serves it. So the slot comes back in the pass that
forgets the app or not at all.

* `Host.LetsGo`: the pass over a document finds what it detaches the app's volume by;
* `Installation.Gone`: nothing is left of the app, on the host or in the store;
* `Installation.slot_comes_back`: two passes give the slot and the tap back, where each pass that
  finds the app down lets it go;
* `Installation.slot_leaks`: an app whose device was never made keeps its slot for good.
-/

namespace Nibrunner

open Std Frame

/-! ### Documents that leave an app out -/

/-- The document names the app neither among its instances nor for one of its volumes. -/
structure HostDesiredState.Omits (d : HostDesiredState) (app : AppId) : Prop where
  instances : app ∉ d.appIds
  volumes : ∀ v ∈ d.volumes, v.appId ≠ app

/-- The action is about other apps, or it stops or gives back. -/
def PassAction.Spares (app : AppId) : PassAction → Prop
  | .sync wanted => wanted.appId ≠ app
  | .provision desired => desired.appId ≠ app
  | .sleep p => ∀ desired, p = .sleep desired → desired.appId ≠ app
  | .hold p => ∀ desired, p = .hold desired → desired.appId ≠ app
  | .start desired => desired.appId ≠ app
  | _ => True

namespace Host

variable {h : Host} {d : HostDesiredState} {answers : PassAnswers} {app : AppId}

/-- What a pass plans for an app the document does not name is to stop it or to forget it. -/
theorem eq_planUnnamed_of_omits (homits : d.Omits app) {p : InstancePlan}
    (hp : p ∈ (planReconcile d (h.observe d)).instances) (happ : p.appId = app) :
    p = planUnnamed (h.observeInstance app) := by
  rcases (mem_planInstances_iff h d p).mp hp with ⟨wanted, hw, rfl⟩ | ⟨a, -, -, rfl⟩
  · rw [actionFor, appId_planInstance] at happ
    exact absurd (List.mem_map.mpr ⟨wanted, hw, happ⟩) homits.instances
  · rw [appId_planUnnamed] at happ
    rw [← happ]
    rfl

/-- A pass over a document that leaves the app out does nothing for it but stop it and give back
what it holds. -/
theorem spares_of_mem_passActions (homits : d.Omits app) {a : PassAction}
    (ha : a ∈ h.passActions d answers) : a.Spares app := by
  have hother : ∀ wanted ∈ d.instances, wanted.appId ≠ app := fun wanted hw happ =>
    homits.instances (List.mem_map.mpr ⟨wanted, hw, happ⟩)
  have hleaves : ∀ p ∈ (planReconcile d (h.observe d)).instances, p.appId = app →
      p.broughtUp = none ∧ (∀ desired, p ≠ .sleep desired) ∧ ∀ desired, p ≠ .hold desired := by
    intro p hp happ
    rw [eq_planUnnamed_of_omits homits hp happ, planUnnamed]
    split
    all_goals
      refine ⟨rfl, fun desired h => ?_, fun desired h => ?_⟩
      · cases h
      · cases h
  simp only [passActions, actionsBeforeStarts, List.mem_append, List.mem_map, List.mem_cons,
    List.not_mem_nil, or_false] at ha
  rcases ha with (((((((((⟨w, hw, rfl⟩ | ⟨p, -, rfl⟩) | rfl | ⟨v, hv, rfl⟩) | ⟨p, hp, rfl⟩) |
    ⟨p, hp, rfl⟩) | rfl) | ⟨desired, hs, rfl⟩) | ⟨p, -, rfl⟩) | ⟨p, -, rfl⟩) | rfl)
  · exact hother w hw
  · trivial
  · trivial
  · exact homits.volumes v (mem_provisions_iff.mp hv).1
  · intro desired heq happ
    subst heq
    exact (hleaves _ hp happ).2.1 desired rfl
  · intro desired heq happ
    subst heq
    exact (hleaves _ hp happ).2.2 desired rfl
  · trivial
  · intro happ
    obtain ⟨p, hp, hup⟩ := List.mem_filterMap.mp hs
    have hnone := (hleaves p hp ((InstancePlan.appId_of_broughtUp hup).symm.trans happ)).1
    rw [hnone] at hup
    cases hup
  · trivial
  · trivial
  · trivial

end Host

/-! ### What one action can do to the app -/

namespace Host

/-- Files, devices and reports are no app's. -/
private theorem OnlyApp.of_allocator {h h' : Host} {app : AppId} (hv : OnlyVolumes h h')
    (hal : h'.allocator = h.allocator) : OnlyApp app h h' :=
  hv.onlyApp fun a _ => by rw [slotOf, slotOf, hal]

/-- A provision hands a slot to the volume's app alone. -/
theorem OnlyApp.provisionVolume (h : Host) (desired : DesiredVolume) (answer : ProvisionAnswer) :
    OnlyApp desired.appId h (h.provisionVolume desired answer) :=
  provisionVolume_rel (R := OnlyApp desired.appId) OnlyApp.trans OnlyApp.of_allocator
    OnlyApp.slotFor h answer

end Host

/-- **What actions of a pass that leaves the app out can do to it**: its microVM may go, its slot
may go with its tap where it is taken, and nothing comes. -/
structure Releases (deleted : ℕ → Bool) (taken : Prop) (app : AppId) (s s' : PassState) :
    Prop where
  keyed : s'.host.Keyed
  down : s.host.isUp app = false → s'.host.isUp app = false
  slot : s'.host.slotOf app = s.host.slotOf app ∨ s'.host.slotOf app = none ∧ taken
  tap : ∀ slot : ℕ, s'.taps[slot]? = some app → s.taps[slot]? = some app
  withTap : ∀ slot : ℕ, s.host.slotOf app = some slot → s'.host.slotOf app = none →
    deleted slot = true → s'.taps[slot]? ≠ some app

namespace Releases

variable {deleted : ℕ → Bool} {taken : Prop} {app : AppId} {s s' s'' : PassState}

theorem slot_eq_none (h : Releases deleted taken app s s') (hs : s.host.slotOf app = none) :
    s'.host.slotOf app = none := by
  rcases h.slot with hsame | ⟨hnone, -⟩
  · rw [hsame, hs]
  · exact hnone

theorem mono {taken' : Prop} (h : Releases deleted taken app s s') (himp : taken → taken') :
    Releases deleted taken' app s s' :=
  { h with slot := h.slot.imp_right fun ⟨hnone, htaken⟩ => ⟨hnone, himp htaken⟩ }

/-- An action that leaves the app and the taps alone. -/
theorem of_view (hk : s'.host.Keyed) (hview : s'.host.view app = s.host.view app)
    (htap : ∀ slot : ℕ, s'.taps[slot]? = some app → s.taps[slot]? = some app) :
    Releases deleted taken app s s' where
  keyed := hk
  down hdown := by
    rw [← Host.isUp_view, hview]
    exact hdown
  slot := .inl (congrArg AppView.slot hview)
  tap := htap
  withTap slot hs hs' := by
    have hsame : s'.host.slotOf app = s.host.slotOf app := congrArg AppView.slot hview
    rw [hsame, hs] at hs'
    cases hs'

theorem trans (h : Releases deleted taken app s s') (h' : Releases deleted taken app s' s'') :
    Releases deleted taken app s s'' where
  keyed := h'.keyed
  down hdown := h'.down (h.down hdown)
  slot := by
    rcases h.slot with hsame | ⟨hnone, htaken⟩
    · rw [← hsame]
      exact h'.slot
    · exact .inr ⟨h'.slot_eq_none hnone, htaken⟩
  tap slot hs := h.tap slot (h'.tap slot hs)
  withTap slot hs hs'' hdeleted := by
    rcases h.slot with hsame | ⟨hnone, -⟩
    · exact h'.withTap slot (hsame.trans hs) hs'' hdeleted
    · exact fun htap => h.withTap slot hs hnone hdeleted (h'.tap slot htap)

/-- A local action about another app. -/
theorem of_local {α : Type} {key : α → AppId} {f : Host → α → Host}
    (hf : Local Host.Keyed Host.view key f) (hk : s.host.Keyed) {x : α} (hx : key x ≠ app) :
    Releases deleted taken app s { s with host := f s.host x } :=
  of_view (hf.keeps s.host x hk) (hf.frame s.host x app hk hx.symm) fun _ h => h

end Releases

namespace Host

variable {there : ExtTreeMap ℕ AppId} {app other : AppId} {deleted : ℕ → Bool} {slot : ℕ}

/-- A boot makes a tap for the app it boots. -/
theorem getElem?_tapsMade {before after : Host} {made : Bool} (hother : other ≠ app)
    (htap : (before.tapsMade after there other made)[slot]? = some app) :
    there[slot]? = some app := by
  unfold tapsMade at htap
  split at htap
  · split at htap
    · rw [ExtTreeMap.getElem?_insert_ite] at htap
      split at htap
      · exact absurd (Option.some.inj htap) hother
      · exact htap
    · exact htap
  · exact htap

/-- A slot given back takes its tap. -/
private theorem getElem?_tapsGivenBack {h : Host}
    (htap : (h.tapsGivenBack there other deleted)[slot]? = some app) :
    there[slot]? = some app ∧ ¬ (h.slotOf other = some slot ∧ deleted slot = true) := by
  unfold tapsGivenBack at htap
  split at htap
  · rename_i held hheld
    split at htap
    · rw [ExtTreeMap.getElem?_erase_ite] at htap
      split at htap
      · cases htap
      · rename_i hne
        refine ⟨htap, fun ⟨hslot, _⟩ => hne ?_⟩
        exact Option.some.inj (hheld.symm.trans hslot)
    · rename_i hkept
      refine ⟨htap, fun ⟨hslot, hgone⟩ => hkept ?_⟩
      rw [Option.some.inj (hheld.symm.trans hslot)]
      exact hgone
  · rename_i hnone
    refine ⟨htap, fun ⟨hslot, _⟩ => ?_⟩
    rw [hnone] at hslot
    cases hslot

/-- The taps after a volume is taken away are those there were, or those a slot given back leaves;
where it is the slot of `app` that goes, they are the latter. -/
private theorem tapsAfter_cases (h : Host) (answers : TeardownAnswers) (p : VolumePlan) :
    (h.tapsAfter there answers deleted p = there ∧ ¬ p.TakesSlotOf answers app) ∨
      ∃ other, h.tapsAfter there answers deleted p = h.tapsGivenBack there other deleted ∧
        (p.TakesSlotOf answers app → other = app) := by
  cases p with
  | teardown desired =>
    cases hdeleted : answers.deleted desired.volumeId with
    | true => exact .inr ⟨desired.appId, if_pos hdeleted, fun htakes => htakes.1⟩
    | false =>
      refine .inl ⟨if_neg (by rw [hdeleted]; exact Bool.false_ne_true), fun htakes => ?_⟩
      exact Bool.false_ne_true (hdeleted.symm.trans htakes.2)
  | detach volume owner =>
    cases hdetached : answers.detached volume with
    | true => exact .inr ⟨owner, if_pos hdetached, fun htakes => htakes.1⟩
    | false =>
      refine .inl ⟨if_neg (by rw [hdetached]; exact Bool.false_ne_true), fun htakes => ?_⟩
      exact Bool.false_ne_true (hdetached.symm.trans htakes.2)
  | provision desired | blocked desired blockedBy | none volume => exact .inl ⟨rfl, id⟩

end Host

namespace PassState

open Host

variable [Platform] {o : ObservedState} {d : HostDesiredState} {answers : PassAnswers}
  {taps : TapAnswers} {app : AppId} {s : PassState}

/-- Taking a volume away gives at most the slot and its tap back. -/
private theorem releases_teardown (hk : s.host.Keyed) (p : VolumePlan) :
    Releases taps.deleted (p.TakesSlotOf answers.teardown app) app s
      (act o d answers taps s (.teardown p)) := by
  have hlose : ∀ app, AppView.LosesSlot ⟨[], [p], [], []⟩ answers.teardown app (s.host.view app)
      ((applyTeardown answers.teardown s.host p).view app) := fun app =>
    losesSlot_applyTeardowns s.host ⟨[], [p], [], []⟩ answers.teardown app
  obtain ⟨slot, hview, hslot⟩ := hlose app
  have hslot' : (applyTeardown answers.teardown s.host p).slotOf app = slot :=
    congrArg AppView.slot hview
  have htaps : (s.host.tapsAfter s.taps answers.teardown taps.deleted p = s.taps ∧
      ¬ p.TakesSlotOf answers.teardown app) ∨ _ := tapsAfter_cases s.host answers.teardown p
  refine ⟨fun a => ?_, fun hdown => ?_, ?_, fun slot' htap => ?_,
    fun slot' hs hnone hgone htap => ?_⟩
  · obtain ⟨slot, hview, -⟩ := hlose a
    rw [act, hview]
    exact hk a
  · rw [act, ← isUp_view, hview]
    exact hdown
  · rw [act, hslot']
    refine hslot.imp_right ?_
    rintro ⟨hnone, q, hq, htakes⟩
    refine ⟨hnone, ?_⟩
    rwa [List.mem_singleton.mp hq] at htakes
  · rcases htaps with ⟨hsame, -⟩ | ⟨other, hback, -⟩
    · rwa [act, hsame] at htap
    · rw [act, hback] at htap
      exact (getElem?_tapsGivenBack htap).1
  -- the slot is gone, so it was given back, and its tap with it
  · have htakes : p.TakesSlotOf answers.teardown app := by
      rcases hslot with hsame | ⟨-, q, hq, htakes⟩
      · have hheld : slot = some slot' := hsame.trans hs
        rw [act, hslot', hheld] at hnone
        cases hnone
      · rwa [List.mem_singleton.mp hq] at htakes
    rcases htaps with ⟨-, hnot⟩ | ⟨other, hback, hother⟩
    · exact hnot htakes
    · rw [act, hback, hother htakes] at htap
      exact (getElem?_tapsGivenBack htap).2 ⟨hs, hgone⟩

/-- **One action** of a pass that leaves the app out. -/
theorem releases_act (hk : s.host.Keyed) {a : PassAction} (hspares : a.Spares app) :
    Releases taps.deleted (∃ p, a = .teardown p ∧ p.TakesSlotOf answers.teardown app) app s
      (act o d answers taps s a) := by
  cases a with
  | sync wanted => exact .of_local local_sync hk hspares
  | stop p =>
    by_cases happ : p.appId = app
    · subst happ
      have hview := view_applyStop s.host p
      have hslot : (s.host.applyStop p).slotOf p.appId = s.host.slotOf p.appId := by
        refine (congrArg AppView.slot hview).trans ?_
        cases p <;> rfl
      refine ⟨local_stop.keeps s.host p hk, fun hdown => ?_, .inl hslot, fun _ h => h, ?_⟩
      · rw [act, ← isUp_view, hview]
        exact AppView.isUp_afterStop_of_down (v := s.host.view p.appId) hdown p
      · intro slot hs hnone
        rw [act, hslot, hs] at hnone
        cases hnone
    · exact .of_local local_stop hk happ
  | report =>
    exact .of_view ((OnlySlots.applyVolumes _ _ _ _ _ _).keyed hk) rfl fun _ h => h
  | provision desired =>
    refine .of_view ((OnlySlots.provisionVolume _ _ _).keyed hk) ?_ fun _ h => h
    exact (OnlyApp.provisionVolume s.host desired _).view hspares.symm
  | sleep p =>
    cases p with
    | sleep desired => exact .of_local local_sleep hk (hspares desired rfl)
    | _ => exact .of_view hk rfl fun _ h => h
  | hold p =>
    cases p with
    | hold desired => exact .of_local local_hold hk (hspares desired rfl)
    | _ => exact .of_view hk rfl fun _ h => h
  | isolate loaded => exact .of_view hk rfl fun _ h => h
  | start desired =>
    rw [act]
    cases s.wave with
    | none => exact .of_view hk rfl fun _ h => h
    | some records =>
      have hlocal := local_start answers.start
      exact .of_view (hlocal.keeps (s.host, records) desired hk)
        (hlocal.frame (s.host, records) desired app hk hspares.symm)
        fun _ => getElem?_tapsMade hspares
  | teardown p => exact (releases_teardown hk p).mono fun htakes => ⟨p, rfl, htakes⟩
  | checkpoint p =>
    have hview : ∀ a, (applyCheckpoint answers.checkpoint s.host p).view a = s.host.view a :=
      view_applyCheckpoints s.host ⟨[], [], [p], []⟩ answers.checkpoint
    refine .of_view (fun a => ?_) (hview app) fun _ h => h
    rw [act, hview]
    exact hk a

/-- **Any actions** that leave the app out bring nothing of it back. -/
theorem releases_foldl (hk : s.host.Keyed) {actions : List PassAction}
    (hspares : ∀ a ∈ actions, a.Spares app) :
    Releases taps.deleted
      (∃ p, .teardown p ∈ actions ∧ p.TakesSlotOf answers.teardown app) app s
      (actions.foldl (act o d answers taps) s) := by
  refine foldl_rel (R := fun s s' => s.host.Keyed → Releases taps.deleted _ app s s')
    (fun s hk => .of_view hk rfl fun _ h => h)
    (fun h₁ h₂ hk => (h₁ hk).trans (h₂ (h₁ hk).keyed)) actions ?_ s hk
  exact fun s a ha hk => (releases_act hk (hspares a ha)).mono
    fun ⟨p, hp, htakes⟩ => ⟨p, hp ▸ ha, htakes⟩

end PassState

/-! ### The pass that lets an app go -/

namespace Host

open PassState

variable {h : Host} {d : HostDesiredState} {answers : PassAnswers} {app : AppId}

/-- **What a pass finds by which it detaches the volume of an app**: a record of the app on an
unlisted volume whose file is here and whose device answers, and no other app to keep the volume
for or to take it for that one's. Where two apps are recorded on a volume it is taken for the later
one's. -/
structure LetsGo (h : Host) (d : HostDesiredState) (app : AppId) (slot : ℕ) (r : InstanceRecord) :
    Prop where
  record : h.records[app]? = some r
  unlisted : r.volumeId ∉ d.volumeIds
  image : h.images[r.volumeId]? ≠ none
  device : h.devices[slot]? = some r.volumeId
  alone : ∀ (other : AppId) (r' : InstanceRecord), other ≠ app → h.records[other]? = some r' →
    r'.volumeId = r.volumeId →
      compare other app = .lt ∧ h.isUp other = false ∧ other ∉ d.appIds

/-- The volume is taken for the app's. -/
theorem LetsGo.owner (hk : h.Keyed) {slot : ℕ} {r : InstanceRecord} (hgo : h.LetsGo d app slot r) :
    (volumeOwners d h.records)[r.volumeId]? = some app := by
  have hmem := ExtTreeMap.mem_toList_iff_getElem?_eq_some.mpr hgo.record
  obtain ⟨before, after, hsplit⟩ := List.append_of_mem hmem
  have hordered := ExtTreeMap.ordered_keys_toList (t := h.records)
  rw [hsplit] at hordered
  have hafter : r.volumeId ∉ (after.map (·.2)).map (·.volumeId) := by
    intro hin
    obtain ⟨r', hr', hvolume⟩ := List.mem_map.mp hin
    obtain ⟨⟨other, r'⟩, hx, rfl⟩ := List.mem_map.mp hr'
    have hlt : compare app other = .lt :=
      (List.pairwise_cons.mp (List.pairwise_append.mp hordered).2.1).1 _ hx
    have hrecord : h.records[other]? = some r' := by
      refine ExtTreeMap.mem_toList_iff_getElem?_eq_some.mp ?_
      rw [hsplit]
      exact List.mem_append_right _ (List.mem_cons_of_mem _ hx)
    have hne : other ≠ app := by
      rintro rfl
      rw [ReflOrd.compare_self] at hlt
      cases hlt
    have hgt := (hgo.alone other r' hne hrecord hvolume).1
    rw [OrientedOrd.eq_swap, hlt] at hgt
    cases hgt
  rw [volumeOwners, ExtTreeMap.getElem?_foldl_insert_of_notMem DesiredVolume.volumeId
    DesiredVolume.appId _ hgo.unlisted, hsplit, List.map_append, List.map_cons, List.foldl_append,
    List.foldl_cons, ExtTreeMap.getElem?_foldl_insert_of_notMem
    (fun r : InstanceRecord => r.volumeId) (fun r => r.appId) _ hafter,
    ExtTreeMap.getElem?_insert_self, hk app r hgo.record]

/-- The pass detaches it. -/
theorem LetsGo.detach_mem (hk : h.Keyed) {slot : ℕ} {r : InstanceRecord}
    (hgo : h.LetsGo d app slot r) (hslot : h.slotOf app = some slot)
    (hdown : h.isUp app = false) (happ : app ∉ d.appIds) :
    .detach r.volumeId app ∈ (planReconcile d (h.observe d)).volumes := by
  obtain ⟨image, himage⟩ := Option.ne_none_iff_exists'.mp hgo.image
  refine detach_mem_planVolumes_iff.mpr ⟨hgo.unlisted, ⟨h.observeVolume r.volumeId image app, ?_,
    rfl, rfl, ?_⟩, ?_⟩
  · exact mem_observeVolumes_iff.mpr ⟨image, app, himage, hgo.owner hk, rfl⟩
  · simp [observeVolume, isServed, hslot, hgo.device]
  -- an instance the volume would be kept for is recorded on it
  · intro i hi hkept hvolume
    obtain ⟨other, -, rfl⟩ := List.mem_map.mp hi
    obtain ⟨r', hr', hsame⟩ := Option.map_eq_some_iff.mp hvolume
    by_cases hother : other = app
    · subst hother
      rcases hkept with hup | hnamed
      · rw [running_observeInstance, hdown] at hup
        cases hup
      · exact happ hnamed
    · obtain ⟨-, hdown', happ'⟩ := hgo.alone other r' hother hr' hsame
      rcases hkept with hup | hnamed
      · rw [running_observeInstance, hdown'] at hup
        cases hup
      · exact happ' hnamed

/-- Of the apps recorded on an unlisted volume, it is taken for the last. -/
private theorem lt_of_owner (hk : h.Keyed) {volume : VolumeId} (hunlisted : volume ∉ d.volumeIds)
    (howner : (volumeOwners d h.records)[volume]? = some app) {other : AppId} (hother : other ≠ app)
    {r' : InstanceRecord} (hr' : h.records[other]? = some r') (hvolume : r'.volumeId = volume) :
    compare other app = .lt := by
  obtain ⟨before, after, hsplit⟩ :=
    List.append_of_mem (ExtTreeMap.mem_toList_iff_getElem?_eq_some.mpr hr')
  have hordered := ExtTreeMap.ordered_keys_toList (t := h.records)
  rw [hsplit] at hordered
  rw [volumeOwners, ExtTreeMap.getElem?_foldl_insert_of_notMem DesiredVolume.volumeId
    DesiredVolume.appId _ hunlisted, hsplit, List.map_append, List.map_cons, List.foldl_append,
    List.foldl_cons] at howner
  rcases ExtTreeMap.getElem?_foldl_insert (fun r : InstanceRecord => r.volumeId)
    (fun r => r.appId) _ _ volume howner with ⟨r, hr, -, happ⟩ | hbase
  · obtain ⟨⟨a, r⟩, hx, rfl⟩ := List.mem_map.mp hr
    have hrecord : h.records[a]? = some r := by
      refine ExtTreeMap.mem_toList_iff_getElem?_eq_some.mp ?_
      rw [hsplit]
      exact List.mem_append_right _ (List.mem_cons_of_mem _ hx)
    obtain rfl : a = app := (hk a r hrecord).symm.trans happ
    exact (List.pairwise_cons.mp (List.pairwise_append.mp hordered).2.1).1 _ hx
  · rw [hvolume, ExtTreeMap.getElem?_insert_self, hk other r' hr'] at hbase
    exact absurd (Option.some.inj hbase) hother

/-- **A pass that finds the app down detaches a volume of it** exactly where it finds what to
detach it by. -/
theorem exists_detach_iff (hk : h.Keyed) {slot : ℕ} (hslot : h.slotOf app = some slot)
    (hdown : h.isUp app = false) (happ : app ∉ d.appIds) :
    (∃ volume, .detach volume app ∈ (planReconcile d (h.observe d)).volumes) ↔
      ∃ r, h.LetsGo d app slot r := by
  refine ⟨fun ⟨volume, hmem⟩ => ?_, fun ⟨r, hgo⟩ => ⟨_, hgo.detach_mem hk hslot hdown happ⟩⟩
  obtain ⟨hunlisted, r, hr, rfl⟩ := record_of_detach hk hmem
  obtain ⟨-, ⟨o, ho, hvolume, howned, hattached⟩, hfree⟩ := detach_mem_planVolumes_iff.mp hmem
  obtain ⟨image, owner, himage, howner, heq⟩ := mem_observeVolumes_iff.mp ho
  rw [hvolume] at himage howner heq
  obtain rfl : owner = app := by rw [← howned, heq]; rfl
  refine ⟨r, hr, hunlisted, ?_, ?_, fun other r' hother hr' hsame => ⟨?_, ?_, ?_⟩⟩
  · rw [himage]
    exact Option.some_ne_none image
  · rw [heq] at hattached
    simpa [observeVolume, isServed, hslot] using hattached
  · exact lt_of_owner hk hunlisted howner hother hr' hsame
  all_goals
    have hmem : h.observeInstance other ∈ (h.observe d).instances := by
      refine List.mem_map_of_mem (mem_knownApps.mpr (.inr ?_))
      rw [show (h.view other).record = some r' from hr']
      exact Option.some_ne_none r'
    have hon : (h.observeInstance other).volumeId = some r.volumeId := by
      show h.records[other]?.map (·.volumeId) = _
      rw [hr', Option.map_some, hsame]
  · cases hup : h.isUp other with
    | false => rfl
    | true => exact absurd hon (hfree _ hmem (.inl ((h.running_observeInstance other).trans hup)))
  · exact fun hnamed => hfree _ hmem (.inr hnamed) hon

section Run

variable [Platform] {taps : TapAnswers} {there : ExtTreeMap ℕ AppId}

/-- The slot is gone after a pass that detaches a volume of the app. -/
theorem slotOf_passRun_of_detach (hk : h.Keyed) (homits : d.Omits app) {volume : VolumeId}
    (hmem : .detach volume app ∈ (planReconcile d (h.observe d)).volumes)
    (hdetached : answers.teardown.detached volume = true) :
    (h.passRun d answers taps there (h.passActions d answers)).host.slotOf app = none := by
  have hspares : ∀ a ∈ h.passActions d answers, a.Spares app := fun a ha =>
    spares_of_mem_passActions homits ha
  have hin : PassAction.teardown (.detach volume app) ∈ h.passActions d answers := by
    simp only [passActions, List.mem_append, List.mem_map]
    exact .inl (.inl (.inr ⟨_, hmem, rfl⟩))
  obtain ⟨before, after, hsplit⟩ := List.append_of_mem hin
  rw [hsplit] at hspares ⊢
  rw [passRun, List.foldl_append, List.foldl_cons]
  have hbefore : Releases taps.deleted _ app ⟨h, none, there⟩ (before.foldl
      (act (h.observe d) d answers taps) ⟨h, none, there⟩) :=
    releases_foldl hk fun a ha => hspares a (List.mem_append_left _ ha)
  generalize before.foldl (act (h.observe d) d answers taps) ⟨h, none, there⟩ = s at hbefore ⊢
  have hteardown : Releases taps.deleted _ app s
      (act (h.observe d) d answers taps s (.teardown (.detach volume app))) :=
    releases_act hbefore.keyed trivial
  have hafter : Releases taps.deleted _ app _ (after.foldl (act (h.observe d) d answers taps)
      (act (h.observe d) d answers taps s (.teardown (.detach volume app)))) :=
    releases_foldl hteardown.keyed fun a ha =>
      hspares a (List.mem_append_right _ (List.mem_cons_of_mem _ ha))
  refine hafter.slot_eq_none ?_
  simp [act, applyTeardown, detachVolume, hdetached, giveBackSlot, slotOf]

end Run

end Host

/-! ### The installation -/

namespace Installation

variable [Platform] {s : Installation} {app : AppId}

/-- The document leaves the app out, and every adapter the incident calls does what it is asked. -/
def Quiet (app : AppId) : Incident → Prop
  | .pass d answers taps written =>
    d.Omits app ∧ (∃ trigger nowMs, answers = .succeed trigger nowMs) ∧
      (∀ slot, taps.deleted slot = true) ∧ written = .all
  | .refresh _ written => written = .all
  | .persist written => written = .all
  | .wake wanted _ _ => wanted.appId ≠ app
  | .crash d _ _ _ loaded => d.Omits app ∧ loaded = .succeed
  | _ => True

/-- The incident is a pass that goes through. -/
def isPass : Incident → Bool
  | .pass d answers _ _ => Applies d answers
  | _ => false

/-- **The step gives back what it should**: every tap of the app is on the slot it holds, and the
pass finds what it detaches the app's volume by. -/
def GivesBack (app : AppId) (s : Installation) : Incident → Prop
  | .pass d _ _ _ =>
    s.host.isUp app = false →
      (∀ slot : ℕ, s.taps[slot]? = some app → s.host.slotOf app = some slot) ∧
      ∀ slot : ℕ, s.host.slotOf app = some slot → ∃ r, s.host.LetsGo d app slot r
  | _ => True

/-- The app is down. -/
structure Down (app : AppId) (s : Installation) : Prop where
  keyed : s.host.Keyed
  down : s.host.isUp app = false

/-- **Nothing is left of the app** that a later daemon could bring back. -/
structure Gone (app : AppId) (s : Installation) : Prop extends Down app s where
  slot : s.host.slotOf app = none
  tap : ∀ slot : ℕ, s.taps[slot]? ≠ some app
  stored : s.stored.assignments[app]? = none

/-- How far an app that is left out has gone. -/
def stage (app : AppId) : ℕ → Installation → Prop
  | 0, s => s.host.Keyed
  | 1, s => s.Down app
  | _, s => s.Gone app

/-! ### What each incident does to an app that is left out -/

omit [Platform] in
/-- What a daemon loads is under the app it is of. -/
theorem keyed_load (h : Host) (st : StoredRows) (answers : LoadAnswers) :
    (h.load st answers).Keyed := by
  intro app r hr
  have hr' : (if answers.records then ExtTreeMap.indexBy (·.appId) st.records else ∅)[app]? =
      some r := hr
  split at hr'
  · exact (ExtTreeMap.mem_of_getElem?_indexBy hr').2
  · simp at hr'

/-- Every incident keeps every record under its app. -/
theorem keyed_step (hk : s.host.Keyed) (e : Incident) : (s.step e).host.Keyed := by
  cases e with
  | pass d answers taps written =>
    rw [step]
    split
    · rename_i happlies
      dsimp only
      rw [Host.host_passRun happlies]
      exact hk.reconcile d answers
    · exact hk
  | refresh answers written => exact hk.step (.refresh answers)
  | persist written => exact hk
  | suspend app answer => exact hk.step (.suspend app answer)
  | wake wanted answers tapMade => exact hk.step (.wake wanted answers)
  | guestExit app exit => exact hk.step (.guestExit app exit)
  | crash d answers taps performed loaded => exact keyed_load _ _ _

theorem keyed_run (config : HostConfig) (maxApps : ℕ) (incidents : List Incident) :
    ((fresh config maxApps).run incidents).host.Keyed :=
  Run.invariant (I := fun s : Installation => s.host.Keyed) (fun _ e hk => keyed_step hk e)
    (Host.keyed_fresh config maxApps) incidents

/-- As much of a pass over a document that leaves the app out as is performed. -/
theorem releases_passRun (hk : s.host.Keyed) {d : HostDesiredState} (homits : d.Omits app)
    (answers : Host.PassAnswers) (taps : TapAnswers) (performed : ℕ) :
    Releases taps.deleted True app ⟨s.host, none, s.taps⟩
      (s.passRun d answers taps performed) := by
  refine (PassState.releases_foldl hk fun a ha => ?_).mono fun _ => trivial
  split at ha
  · exact Host.spares_of_mem_passActions homits (List.mem_of_mem_take ha)
  · cases ha

omit [Platform] in
/-- Putting an app to sleep, or stopping it, leaves it down and on its slot. -/
private theorem suspended (h : Host) (target : AppId) (answer : Host.SleepAnswer) (app : AppId) :
    (h.isUp app = false → (h.suspendInstance target answer).isUp app = false) ∧
      (h.suspendInstance target answer).slotOf app = h.slotOf app := by
  have hview : ∀ v : AppView, (h.suspendInstance target answer).view app = v →
      (v.isUp = false → h.isUp app = false → v.isUp = false) := fun _ _ hv _ => hv
  by_cases happ : app = target
  · subst happ
    have heffect := Host.view_suspendInstance h app answer
    generalize hv : (h.suspendInstance app answer).view app = v at heffect
    rw [← Host.isUp_view, ← Host.isUp_view, hv,
      show (h.suspendInstance app answer).slotOf app = v.slot from congrArg AppView.slot hv]
    have hstopped : ((h.view app).vm.map Vm.stopped).any Vm.isUp = false :=
      AppView.isUp_stop (h.view app)
    cases heffect with
    | nothing => exact ⟨id, rfl⟩
    | stopped => exact ⟨fun _ => AppView.isUp_stop _, rfl⟩
    | failed => exact ⟨id, rfl⟩
    | lost => exact ⟨fun _ => hstopped, rfl⟩
    | slept r vm slot hr hvm hup hslot => exact ⟨fun _ => Vm.isUp_stopped vm, rfl⟩
  · have hsame := (Host.OnlyApp.suspendInstance h target answer).view happ
    exact ⟨fun hdown => (congrArg AppView.isUp hsame).trans hdown, congrArg AppView.slot hsame⟩

omit [Platform] in
/-- A guest that ends is down, and on its slot. -/
private theorem isUp_guestExit (h : Host) (target : AppId) (exit : VmExit) {app : AppId}
    (hdown : h.isUp app = false) : (h.guestExit target exit).isUp app = false := by
  by_cases happ : app = target
  · subst happ
    rw [← Host.isUp_view, Host.view_guestExit, AppView.isUp, Option.any_map]
    cases (h.view app).vm <;> simp
  · exact (congrArg AppView.isUp ((Host.OnlyApp.guestExit h target exit).view happ)).trans hdown

/-- An app that is down stays down while it is left out. -/
theorem Down.step (hs : s.Down app) {e : Incident} (hquiet : Quiet app e) :
    (s.step e).Down app := by
  refine ⟨keyed_step hs.keyed e, ?_⟩
  cases e with
  | pass d answers taps written =>
    rw [Installation.step]
    split
    · exact (PassState.releases_foldl hs.keyed fun a ha =>
        Host.spares_of_mem_passActions hquiet.1 ha).down hs.down
    · exact hs.down
  | refresh answers written => exact hs.down
  | persist written => exact hs.down
  | suspend target answer => exact (suspended s.host target answer app).1 hs.down
  | wake wanted answers tapMade =>
    have hsame := (Host.OnlyApp.wakeApp (hs.keyed wanted.appId) answers).view hquiet.symm
    exact (congrArg AppView.isUp hsame).trans hs.down
  | guestExit target exit => exact isUp_guestExit s.host target exit hs.down
  | crash d answers taps performed loaded =>
    exact (releases_passRun hs.keyed hquiet.1 answers taps performed).down hs.down

omit [Platform] in
/-- A slot that is not in the store is held by nobody afterwards. -/
private theorem slotOf_load_of_none (h : Host) {st : StoredRows} (answers : LoadAnswers)
    (hnone : st.assignments[app]? = none) : (h.load st answers).slotOf app = none := by
  have hrows : (if answers.slots then st.assignments else ∅)[app]? = none := by
    split
    · exact hnone
    · simp
  rw [Host.slotOf, SlotAllocator.slotOf, Host.load, SlotAllocator.restore,
    ExtTreeMap.getElem?_filter', hrows, Option.filter_none]

omit [Platform] in
private theorem of_reclaimStrandedTaps {h : Host} {taps : ExtTreeMap ℕ AppId} {deleted : ℕ → Bool}
    {slot : ℕ} (htap : (h.reclaimStrandedTaps taps deleted)[slot]? = some app) :
    taps[slot]? = some app := by
  rw [Host.reclaimStrandedTaps, ExtTreeMap.getElem?_filter'] at htap
  exact (Option.filter_eq_some_iff.mp htap).1

/-- An app of which nothing is left stays gone while it is left out. -/
theorem Gone.step (hs : s.Gone app) {e : Incident} (hquiet : Quiet app e) :
    (s.step e).Gone app := by
  have hkept : (s.step e).host.slotOf app = none ∧ (∀ slot : ℕ, (s.step e).taps[slot]? ≠ some app) ∧
      (s.step e).stored.assignments[app]? = none := by
    cases e with
    | pass d answers taps written =>
      obtain ⟨homits, -, -, rfl⟩ := hquiet
      rw [Installation.step]
      split
      · have hrun : Releases taps.deleted _ app ⟨s.host, none, s.taps⟩
            (s.host.passRun d answers taps s.taps (s.host.passActions d answers)) :=
          PassState.releases_foldl hs.keyed fun a ha => Host.spares_of_mem_passActions homits ha
        have hnone := hrun.slot_eq_none hs.slot
        exact ⟨hnone, fun slot htap => hs.tap slot (hrun.tap slot htap), hnone⟩
      · exact ⟨hs.slot, hs.tap, hs.stored⟩
    | refresh answers written | persist written =>
      subst hquiet
      exact ⟨hs.slot, hs.tap, hs.slot⟩
    | suspend target answer =>
      exact ⟨(suspended s.host target answer app).2.trans hs.slot, hs.tap, hs.stored⟩
    | wake wanted answers tapMade =>
      have hsame := (Host.OnlyApp.wakeApp (hs.keyed wanted.appId) answers).view hquiet.symm
      refine ⟨(congrArg AppView.slot hsame).trans hs.slot, fun slot htap => ?_, hs.stored⟩
      exact hs.tap slot (Host.getElem?_tapsMade hquiet htap)
    | guestExit target exit => exact ⟨hs.slot, hs.tap, hs.stored⟩
    | crash d answers taps performed loaded =>
      obtain ⟨homits, rfl⟩ := hquiet
      refine ⟨?_, fun slot htap => ?_, hs.stored⟩
      · exact slotOf_load_of_none _ _ hs.stored
      · have hrun := releases_passRun hs.keyed homits answers taps performed
        exact hs.tap slot (hrun.tap slot (of_reclaimStrandedTaps htap))
  exact ⟨hs.toDown.step hquiet, hkept.1, hkept.2.1, hkept.2.2⟩

/-- A pass that leaves an app out takes it down. -/
theorem down_of_pass (hk : s.host.Keyed) {e : Incident} (hquiet : Quiet app e)
    (hpass : isPass e = true) : (s.step e).Down app := by
  refine ⟨keyed_step hk e, ?_⟩
  cases e with
  | pass d answers taps written =>
    have happlies : Applies d answers := of_decide_eq_true hpass
    rw [Installation.step, if_pos happlies]
    dsimp only
    rw [Host.host_passRun happlies, ← Host.isUp_view]
    obtain ⟨slot, ⟨hup, hview⟩ | ⟨hdown, hview⟩ | ⟨⟨hvm, -⟩, hview⟩⟩ :=
      Host.view_reconcile_of_unnamed hk answers happlies.1 happlies.2 hquiet.1.instances
    · rw [hview]
      exact AppView.isUp_stop _
    · rw [hview]
      rfl
    · rw [hview, AppView.isUp_withSlot, AppView.isUp, hvm]
      rfl
  | _ => cases hpass

/-- **The pass that forgets an app** gives back what it held, where it finds what it detaches its
volume by. -/
theorem gone_of_pass (hs : s.Down app) {e : Incident} (hquiet : Quiet app e)
    (hgives : GivesBack app s e) (hpass : isPass e = true) : (s.step e).Gone app := by
  have hdown := hs.step hquiet
  cases e with
  | pass d answers taps written =>
    obtain ⟨homits, ⟨trigger, nowMs, rfl⟩, hdeleted, rfl⟩ := hquiet
    have happlies : Applies d (.succeed trigger nowMs) := of_decide_eq_true hpass
    obtain ⟨hontaps, hletsGo⟩ := hgives hs.down
    have hrun : Releases taps.deleted _ app ⟨s.host, none, s.taps⟩
        (s.host.passRun d (.succeed trigger nowMs) taps s.taps
          (s.host.passActions d (.succeed trigger nowMs))) :=
      PassState.releases_foldl hs.keyed fun a ha => Host.spares_of_mem_passActions homits ha
    have hslot : (s.host.passRun d (.succeed trigger nowMs) taps s.taps
        (s.host.passActions d (.succeed trigger nowMs))).host.slotOf app = none := by
      cases hheld : s.host.slotOf app with
      | none => exact hrun.slot_eq_none hheld
      | some slot =>
        obtain ⟨r, hgo⟩ := hletsGo slot hheld
        exact Host.slotOf_passRun_of_detach hs.keyed homits
          (hgo.detach_mem hs.keyed hheld hs.down homits.instances) rfl
    have hstep : s.step (.pass d (.succeed trigger nowMs) taps .all) = _ := if_pos happlies
    rw [hstep] at hdown ⊢
    refine ⟨hdown, hslot, fun slot htap => ?_, hslot⟩
    have hheld := hontaps slot (hrun.tap slot htap)
    exact hrun.withTap slot hheld hslot (hdeleted slot) htap
  | _ => cases hpass

/-- **A slot comes back.** After any run, in which anything may fail and the daemon may die, an app
that is left out from then on holds no slot and no tap once two passes have gone through, where
each pass that finds it down gives back what it holds. -/
theorem slot_comes_back (config : HostConfig) (maxApps : ℕ) (before after : List Incident)
    (app : AppId)
    (hgives : Run.Meets Installation.step (fun s e => Quiet app e ∧ GivesBack app s e)
      ((fresh config maxApps).run before) after)
    (hpasses : 2 ≤ after.countP isPass) :
    ((fresh config maxApps).run (before ++ after)).host.slotOf app = none ∧
      ∀ slot : ℕ, ((fresh config maxApps).run (before ++ after)).taps[slot]? ≠ some app := by
  have hfresh := keyed_run config maxApps before
  have hstage : stage app (0 + after.countP isPass)
      (Run.run Installation.step ((fresh config maxApps).run before) after) := by
    refine Run.Meets.ratchet (fun n s e hs hC => ?_) (fun n s e hs hC hpass => ?_) hfresh hgives
    · rcases n with _ | _ | n
      · exact keyed_step hs e
      · exact Down.step hs hC.1
      · exact Gone.step hs hC.1
    · rcases n with _ | _ | n
      · exact down_of_pass hs hC.1 hpass
      · exact gone_of_pass hs hC.1 hC.2 hpass
      · exact Gone.step hs hC.1
  obtain ⟨n, hn⟩ := Nat.exists_eq_add_of_le' hpasses
  rw [hn, Nat.zero_add] at hstage
  have hgone : ((fresh config maxApps).run (before ++ after)).Gone app := by
    rw [run_append]
    exact hstage
  exact ⟨hgone.slot, hgone.tap⟩

/-! ### A slot that comes back -/

omit [Platform] in
/-- What the adapters answer about taps where none fails. -/
def tapsSucceed : TapAnswers := ⟨fun _ => false, fun _ => true⟩

/-- A pass over a document in which every call succeeds. -/
def succeeding (d : HostDesiredState) (nowMs : ℤ) : Incident :=
  .pass d (.succeed .change nowMs) tapsSucceed .all

omit [Platform] in
/-- An app brought up by a pass. -/
def soleUp : List Incident := [succeeding ⟨[soleVolume], [soleInstance], [], []⟩ 0]

omit [Platform] in
/-- An app is brought up by a pass, stopped by one over a document that leaves it out, and its slot
given back by the next. -/
theorem slot_comes_back_soleUp :
    (@run .plain (fresh smallHost.config 4) soleUp).taps.toList = [(0, soleInstance.appId)] ∧
      (@run .plain (fresh smallHost.config 4) (soleUp ++ [succeeding ⟨[], [], [], []⟩ 1,
        succeeding ⟨[], [], [], []⟩ 2])).host.slotOf soleInstance.appId = none := by
  have hquiet : ∀ nowMs, Quiet soleInstance.appId (succeeding ⟨[], [], [], []⟩ nowMs) :=
    fun _ => ⟨⟨by simp [HostDesiredState.appIds], by simp⟩, ⟨_, _, rfl⟩, fun _ => rfl, rfl⟩
  refine ⟨by decide +kernel, (@slot_comes_back .plain smallHost.config 4 soleUp
    [succeeding ⟨[], [], [], []⟩ 1, succeeding ⟨[], [], [], []⟩ 2] soleInstance.appId
    ⟨⟨hquiet 1, fun hdown => ?_⟩, ⟨hquiet 2, fun _ => ⟨fun slot htap => ?_, fun slot hslot => ?_⟩⟩,
      trivial⟩ (by decide +kernel)).1⟩
  · have hup : (@run .plain (fresh smallHost.config 4) soleUp).host.isUp soleInstance.appId =
        true := by decide +kernel
    rw [hup] at hdown
    cases hdown
  · have htaps : (@step .plain (@run .plain (fresh smallHost.config 4) soleUp)
        (succeeding ⟨[], [], [], []⟩ 1)).taps.toList = [(0, soleInstance.appId)] := by
      decide +kernel
    have hmem := ExtTreeMap.mem_toList_iff_getElem?_eq_some.mpr htap
    rw [htaps] at hmem
    obtain ⟨rfl, -⟩ := Prod.mk.inj (List.mem_singleton.mp hmem)
    decide +kernel
  · have hrecords : ((@step .plain (@run .plain (fresh smallHost.config 4) soleUp)
        (succeeding ⟨[], [], [], []⟩ 1)).host.records.toList.map fun x => (x.1, x.2.volumeId)) =
          [(soleInstance.appId, soleVolume.volumeId)] := by
      decide +kernel
    obtain rfl : 0 = slot := by
      refine Option.some.inj (Eq.trans ?_ hslot)
      decide +kernel
    obtain ⟨⟨app, r⟩, hr, heq⟩ := List.mem_map.mp (hrecords ▸ List.mem_singleton.mpr rfl)
    obtain ⟨rfl, hvolume⟩ := Prod.mk.inj heq
    refine ⟨r, ExtTreeMap.mem_toList_iff_getElem?_eq_some.mp hr, List.not_mem_nil, ?_, ?_,
      fun other r' hother hr' _ => ?_⟩
    · rw [hvolume]
      decide +kernel
    · rw [hvolume]
      decide +kernel
    · have hin := List.mem_map_of_mem (f := fun x : AppId × InstanceRecord => (x.1, x.2.volumeId))
        (ExtTreeMap.mem_toList_iff_getElem?_eq_some.mpr hr')
      rw [hrecords] at hin
      exact absurd (Prod.mk.inj (List.mem_singleton.mp hin)).1 hother

/-! ### A slot that does not -/

/-- **The app is stranded**: it holds its slot, and there is no record of it left to find its
volume by. -/
structure Stranded (app : AppId) (slot : ℕ) (s : Installation) : Prop extends Down app s where
  record : s.host.records[app]? = none
  slot : s.host.slotOf app = some slot

/-- A pass that finds an app down and does not let it go strands it. -/
theorem stranded_of_pass (hs : s.Down app) {slot : ℕ} (hslot : s.host.slotOf app = some slot)
    {d : HostDesiredState} {answers : Host.PassAnswers} {taps : TapAnswers}
    {written : WriteProgress} (hquiet : Quiet app (.pass d answers taps written))
    (happlies : Applies d answers) (hnot : ¬ ∃ r, s.host.LetsGo d app slot r) :
    (s.step (.pass d answers taps written)).Stranded app slot := by
  have hdown := hs.step hquiet
  have homits := hquiet.1
  have hstep : s.step (.pass d answers taps written) = _ := if_pos happlies
  rw [hstep] at hdown ⊢
  refine ⟨hdown, ?_, ?_⟩
  · have hview := Host.view_reconcile_of_unnamed hs.keyed answers happlies.1 happlies.2
      homits.instances
    dsimp only
    rw [Host.host_passRun happlies]
    show ((s.host.reconcile d answers).view app).record = none
    obtain ⟨slot, ⟨hup, -⟩ | ⟨-, hview⟩ | ⟨⟨-, hrecord⟩, hview⟩⟩ := hview
    · rw [hs.down] at hup
      cases hup
    · rw [hview]
      rfl
    · rw [hview]
      exact hrecord
  -- only a volume of the app takes its slot, and the pass takes none
  · have hrun : Releases taps.deleted _ app ⟨s.host, none, s.taps⟩
        (s.host.passRun d answers taps s.taps (s.host.passActions d answers)) :=
      PassState.releases_foldl hs.keyed fun a ha => Host.spares_of_mem_passActions homits ha
    rcases hrun.slot with hsame | ⟨-, p, hp, htakes⟩
    · exact hsame.trans hslot
    · have hmem : p ∈ (planReconcile d (s.host.observe d)).volumes := by
        simpa [Host.passActions, Host.actionsBeforeStarts] using hp
      cases p with
      | teardown desired =>
        exact absurd htakes.1 (homits.volumes desired (Host.absent_of_teardown hmem).1)
      | detach volume owner =>
        obtain rfl : owner = app := htakes.1
        exact absurd ((Host.exists_detach_iff hs.keyed hslot hs.down homits.instances).mp
          ⟨volume, hmem⟩) hnot
      | provision desired | blocked desired blockedBy | none volume => exact htakes.elim

/-- A pass leaves a stranded app stranded. -/
theorem Stranded.step {slot : ℕ} (hs : s.Stranded app slot) {e : Incident}
    (hquiet : Quiet app e) (hpass : isPass e = true) : (s.step e).Stranded app slot := by
  cases e with
  | pass d answers taps written =>
    refine stranded_of_pass hs.toDown hs.slot hquiet (of_decide_eq_true hpass) fun ⟨r, hgo⟩ => ?_
    have hrecord := hs.record
    rw [hgo.record] at hrecord
    cases hrecord
  | _ => cases hpass

/-- However many passes leave it out. -/
theorem Stranded.run {slot : ℕ} (hs : s.Stranded app slot) {passes : List Incident}
    (hpasses : ∀ e ∈ passes, Quiet app e ∧ isPass e = true) : (s.run passes).Stranded app slot := by
  have hmeets : Run.Meets Installation.step (fun _ e => Quiet app e ∧ isPass e = true) s passes :=
    Run.meets_of_forall hpasses s
  exact Run.Meets.invariant (fun _ _ hs he => hs.step he.1 he.2) hs hmeets

omit [Platform] in
/-- A volume whose device is refused the one time it is made. -/
def refusedOnce : List Incident :=
  [.pass ⟨[soleVolume], [], [], []⟩
    { Host.PassAnswers.succeed .change 0 with provision := fun _ => .deviceFailed "no device" }
    tapsSucceed .all]

omit [Platform] in
/-- **A slot that does not come back.** An app is listed with a volume whose device could not be
made, and left out from then on: however many passes follow, it holds the slot it was given. -/
theorem slot_leaks :
    ¬ ∀ (_ : Platform) (config : HostConfig) (maxApps : ℕ) (before : List Incident)
      (after : ℕ → Incident) (app : AppId),
      (∀ n, Quiet app (after n) ∧ isPass (after n) = true) →
        ∃ n, ∀ m, n ≤ m →
          ((fresh config maxApps).run (before ++ (List.range m).map after)).host.slotOf app =
            none ∧
          ∀ slot : ℕ,
            ((fresh config maxApps).run (before ++ (List.range m).map after)).taps[slot]? ≠
              some app := by
  intro hall
  have hquiet : ∀ nowMs, Quiet soleVolume.appId (succeeding ⟨[], [], [], []⟩ nowMs) :=
    fun _ => ⟨⟨by simp [HostDesiredState.appIds], by simp⟩, ⟨_, _, rfl⟩, fun _ => rfl, rfl⟩
  have hpass : ∀ nowMs, isPass (succeeding ⟨[], [], [], []⟩ nowMs) = true := fun _ => rfl
  obtain ⟨n, hn⟩ := hall .plain smallHost.config 4 refusedOnce
    (fun n => succeeding ⟨[], [], [], []⟩ n) soleVolume.appId fun n => ⟨hquiet n, hpass n⟩
  have hbegun : (@run .plain (fresh smallHost.config 4) refusedOnce).Stranded
      soleVolume.appId 0 :=
    ⟨⟨@keyed_run .plain _ _ _, by decide +kernel⟩,
      Option.isNone_iff_eq_none.mp (by decide +kernel), by decide +kernel⟩
  have hheld := (@Stranded.run .plain _ _ _ hbegun
    ((List.range n).map fun n : ℕ => succeeding ⟨[], [], [], []⟩ n) fun e he => by
      obtain ⟨m, -, rfl⟩ := List.mem_map.mp he
      exact ⟨hquiet m, hpass m⟩).slot
  have hgone := (hn n le_rfl).1
  rw [@run_append .plain] at hgone
  exact Option.some_ne_none 0 (hheld.symm.trans hgone)

end Installation

end Nibrunner

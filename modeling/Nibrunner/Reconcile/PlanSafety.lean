import Nibrunner.Reconcile.Plan

/-!
# What a plan takes away, and what it boots

Instances and volumes are planned independently from the same document and the same observed
state, and one pass applies the starts of a plan before its teardowns. This file reads both
halves of the plan back as conditions on the two inputs:

* which instances the pass brings up (`IsBooted`) and which it leaves alone (`IsLeftAlone`);
* which volumes it deletes (`IsRemoved`) and which it lets go of (`IsLetGo`).

The main result says exactly when no volume is taken away under an instance of the same plan
(`keepsDataUnderInstances_iff`). It does not always hold: the holders of a volume are the apps
*recorded* on it, so an instance the document names onto a volume the same document removes is
not among them until it has a record (`not_keepsDataUnderInstances_of_unrecorded`).
-/

namespace Nibrunner

open Std

/-! ### The two halves of the plan -/

/-- The action boots an instance onto `v`. -/
def InstancePlan.BootsOnto (v : VolumeId) : InstancePlan → Prop
  | start desired => desired.volumeId = v
  | replace desired => desired.volumeId = v
  | recover desired => desired.volumeId = v
  | _ => False

/-- The action deletes `v` or takes its device down. -/
def VolumePlan.TakesAway (v : VolumeId) : VolumePlan → Prop
  | teardown desired => desired.volumeId = v
  | detach volumeId _ => volumeId = v
  | _ => False

instance (v : VolumeId) : DecidablePred (InstancePlan.BootsOnto v)
  | .start desired | .replace desired | .recover desired =>
    inferInstanceAs (Decidable (desired.volumeId = v))
  | .sleep _ | .hold _ | .stop .. | .forget _ | .none _ => .isFalse id

instance (v : VolumeId) : DecidablePred (VolumePlan.TakesAway v)
  | .teardown desired => inferInstanceAs (Decidable (desired.volumeId = v))
  | .detach volumeId _ => inferInstanceAs (Decidable (volumeId = v))
  | .provision _ | .blocked .. | .none _ => .isFalse id

/-- **No data is taken away under an instance**: a volume the plan tears down or detaches is one
no action of the plan boots onto, and no instance observed running on it is left alone. -/
def KeepsDataUnderInstances (d : HostDesiredState) (o : ObservedState) : Prop :=
  ∀ removal ∈ (planReconcile d o).volumes, ∀ v, removal.TakesAway v →
    (∀ action ∈ (planReconcile d o).instances, ¬ action.BootsOnto v) ∧
      ∀ i ∈ o.instances, i.running = true → i.volumeId = some v →
        InstancePlan.none i.appId ∉ (planReconcile d o).instances

/-! ### Which instances are brought up, and which are left alone -/

/-- The pass brings the instance up: it is not to be stopped, and it is not here, or here under
another deployment, or up on a lost volume, or down and either to be kept up or refused before
it ever came up. -/
def IsBooted (o : ObservedState) (wanted : DesiredInstance) : Prop :=
  wanted.desiredState ≠ .stopped ∧
    ∀ c, o.instancesById[wanted.appId]? = some c → c.present = true →
      c.deploymentId ≠ some wanted.deploymentId ∨
        (c.running = true ∧ wanted.volumeId ∈ o.lostVolumes) ∨
        (c.running = false ∧ (wanted.desiredState = .running ∨ c.refused = true))

/-- The pass leaves the instance alone: it is stopped as asked, or up on a volume that answers
under the deployment asked for. -/
def IsLeftAlone (o : ObservedState) (wanted : DesiredInstance) : Prop :=
  ∃ c, o.instancesById[wanted.appId]? = some c ∧ c.present = true ∧
    if wanted.desiredState = .stopped then c.running = false ∧ c.refused = false
    else c.deploymentId = some wanted.deploymentId ∧ c.running = true ∧
      wanted.volumeId ∉ o.lostVolumes

/-- An instance's action boots it onto its own volume, when it is one that is brought up. -/
theorem planInstance_bootsOnto_iff (o : ObservedState) (wanted : DesiredInstance) (v : VolumeId) :
    (planInstance wanted o.instancesById[wanted.appId]?
        (wanted.volumeId ∈ o.lostVolumes)).BootsOnto v ↔
      IsBooted o wanted ∧ wanted.volumeId = v := by
  unfold IsBooted
  rcases present_or_absent o.instancesById[wanted.appId]? with ⟨c, hc, hp⟩ | ⟨hnone, hvac⟩
  · rw [hc, planInstance_of_present wanted hp, planPresentInstance]
    cases hs : wanted.desiredState with
    | stopped =>
      simp only [ne_eq, not_true_eq_false, false_and, iff_false]
      repeat' split
      all_goals exact id
    | onRequest =>
      by_cases hd : c.deploymentId = some wanted.deploymentId <;>
        cases hr : c.running <;> cases hf : c.refused <;>
        by_cases hl : wanted.volumeId ∈ o.lostVolumes <;>
        simp [InstancePlan.BootsOnto, hd, hr, hf, hl, hp]
    | running =>
      by_cases hd : c.deploymentId = some wanted.deploymentId <;>
        cases hr : c.running <;> cases c.exited <;>
        by_cases hl : wanted.volumeId ∈ o.lostVolumes <;>
        simp [InstancePlan.BootsOnto, hd, hr, hl, hp]
  · rw [planInstance_of_absent wanted hnone]
    split <;> simp_all [InstancePlan.BootsOnto]

/-- An instance's action is to leave its app alone exactly when it is one left alone. -/
theorem planInstance_eq_none_iff (o : ObservedState) (wanted : DesiredInstance) (app : AppId) :
    planInstance wanted o.instancesById[wanted.appId]? (wanted.volumeId ∈ o.lostVolumes) =
        .none app ↔
      IsLeftAlone o wanted ∧ wanted.appId = app := by
  unfold IsLeftAlone
  rcases present_or_absent o.instancesById[wanted.appId]? with ⟨c, hc, hp⟩ | ⟨hnone, hvac⟩
  · rw [hc, planInstance_of_present wanted hp, planPresentInstance]
    cases hs : wanted.desiredState with
    | stopped =>
      cases hr : c.running <;> cases hf : c.refused <;> simp [hr, hf, hp]
    | onRequest =>
      by_cases hd : c.deploymentId = some wanted.deploymentId <;>
        cases hr : c.running <;> cases c.refused <;>
        by_cases hl : wanted.volumeId ∈ o.lostVolumes <;> simp [hd, hr, hl, hp]
    | running =>
      by_cases hd : c.deploymentId = some wanted.deploymentId <;>
        cases hr : c.running <;> cases c.exited <;>
        by_cases hl : wanted.volumeId ∈ o.lostVolumes <;> simp [hd, hr, hl, hp]
  · rw [planInstance_of_absent wanted hnone]
    constructor
    · intro h
      split at h <;> cases h
    · rintro ⟨⟨c, h, hp, -⟩, -⟩
      rw [hvac c h] at hp
      cases hp

/-- A plan boots onto a volume exactly when it brings up an instance on it. -/
theorem exists_bootsOnto_iff (d : HostDesiredState) (o : ObservedState) (v : VolumeId) :
    (∃ action ∈ (planReconcile d o).instances, action.BootsOnto v) ↔
      ∃ wanted ∈ d.instances, IsBooted o wanted ∧ wanted.volumeId = v := by
  simp only [planReconcile, planInstances, List.mem_append, List.mem_map, List.mem_filter]
  constructor
  · rintro ⟨action, ⟨wanted, hw, rfl⟩ | ⟨current, -, rfl⟩, hboots⟩
    · exact ⟨wanted, hw, (planInstance_bootsOnto_iff o wanted v).mp hboots⟩
    · -- an app the document does not name is stopped or forgotten
      unfold planUnnamed at hboots
      split at hboots <;> exact hboots.elim
  · rintro ⟨wanted, hw, hboots⟩
    exact ⟨_, .inl ⟨wanted, hw, rfl⟩, (planInstance_bootsOnto_iff o wanted v).mpr hboots⟩

/-- A plan leaves an app alone exactly when it names an instance of it that is left alone. -/
theorem none_mem_planInstances_iff (d : HostDesiredState) (o : ObservedState) (app : AppId) :
    InstancePlan.none app ∈ (planReconcile d o).instances ↔
      ∃ wanted ∈ d.instances, IsLeftAlone o wanted ∧ wanted.appId = app := by
  simp only [planReconcile, planInstances, List.mem_append, List.mem_map, List.mem_filter]
  constructor
  · rintro (⟨wanted, hw, hnone⟩ | ⟨current, -, hnone⟩)
    · exact ⟨wanted, hw, (planInstance_eq_none_iff o wanted app).mp hnone⟩
    · unfold planUnnamed at hnone
      split at hnone <;> cases hnone
  · rintro ⟨wanted, hw, hnone⟩
    exact .inl ⟨wanted, hw, (planInstance_eq_none_iff o wanted app).mpr hnone⟩

/-! ### Which volumes are taken away -/

/-- The pass deletes the volume: it is listed absent, observed, and no app held by this host is
recorded on it. -/
def IsRemoved (d : HostDesiredState) (o : ObservedState) (v : VolumeId) : Prop :=
  (∃ wanted ∈ d.volumes, wanted.volumeId = v ∧ wanted.desiredState = .absent) ∧
    (∃ c ∈ o.volumes, c.volumeId = v) ∧
    ∀ i ∈ o.instances, i.present = true → i.volumeId ≠ some v

/-- The pass lets go of the volume: it is attached and not listed, and neither a running
instance nor one the document names is recorded on it. -/
def IsLetGo (d : HostDesiredState) (o : ObservedState) (v : VolumeId) : Prop :=
  v ∉ d.volumeIds ∧ (∃ c ∈ o.volumes, c.volumeId = v ∧ c.attached = true) ∧
    ∀ i ∈ o.instances, i.running = true ∨ i.appId ∈ d.appIds → i.volumeId ≠ some v

private theorem holders_eq_nil_iff (d : HostDesiredState) (o : ObservedState) (v : VolumeId) :
    (usedBy d o).getD v [] = [] ↔ ∀ i ∈ o.instances, i.present = true → i.volumeId ≠ some v := by
  rw [usedBy_getD]
  simp [List.filter_eq_nil_iff]

private theorem isSome_volumesById_iff (o : ObservedState) (v : VolumeId) :
    o.volumesById[v]?.isSome = true ↔ ∃ c ∈ o.volumes, c.volumeId = v := by
  rw [Option.isSome_iff_ne_none, ObservedState.volumesById, Ne,
    ExtTreeMap.getElem?_indexBy_eq_none_iff]
  simp

/-- A listed volume is torn down exactly when it is listed absent, observed and not held. -/
theorem planVolume_takesAway_iff (d : HostDesiredState) (o : ObservedState)
    (wanted : DesiredVolume) (v : VolumeId) :
    (planVolume d o wanted).TakesAway v ↔
      wanted.volumeId = v ∧ wanted.desiredState = .absent ∧ (∃ c ∈ o.volumes, c.volumeId = v) ∧
        ∀ i ∈ o.instances, i.present = true → i.volumeId ≠ some v := by
  unfold planVolume
  cases hs : wanted.desiredState with
  | present =>
    simp only [reduceCtorEq, false_and, and_false, iff_false]
    split <;> exact id
  | absent =>
    simp only [true_and]
    split
    -- a holder blocks the deletion
    · rename_i hheld
      simp only [VolumePlan.TakesAway, false_iff, not_and]
      rintro rfl -
      exact fun h => hheld ((holders_eq_nil_iff d o _).mpr h)
    · rename_i hfree
      rw [ne_eq, not_not, holders_eq_nil_iff] at hfree
      split
      · rename_i hobs
        rw [isSome_volumesById_iff] at hobs
        simp only [VolumePlan.TakesAway]
        exact ⟨fun h => h ▸ ⟨rfl, hobs, hfree⟩, fun h => h.1⟩
      · rename_i hobs
        rw [isSome_volumesById_iff] at hobs
        simp only [VolumePlan.TakesAway, false_iff]
        rintro ⟨rfl, h, -⟩
        exact hobs h

/-- A volume is kept for nobody where neither a running instance nor one the document names is
recorded on it. -/
theorem notMem_keptFor_iff {d : HostDesiredState} {o : ObservedState} {v : VolumeId} :
    v ∉ keptFor d o ↔
      ∀ i ∈ o.instances, i.running = true ∨ i.appId ∈ d.appIds → i.volumeId ≠ some v := by
  simp only [keptFor, List.mem_filterMap, List.mem_filter, Bool.or_eq_true, decide_eq_true_eq]
  exact ⟨fun h i hi hk hv => h ⟨i, ⟨hi, hk⟩, hv⟩, fun h ⟨i, ⟨hi, hk⟩, hv⟩ => h i hi hk hv⟩

/-- A plan takes a volume away exactly when it deletes it or lets go of it. -/
theorem exists_takesAway_iff (d : HostDesiredState) (o : ObservedState) (v : VolumeId) :
    (∃ removal ∈ (planReconcile d o).volumes, removal.TakesAway v) ↔
      IsRemoved d o v ∨ IsLetGo d o v := by
  simp only [planReconcile, planVolumes, List.mem_append, List.mem_map, List.mem_filter,
    Bool.and_eq_true, decide_eq_true_eq]
  constructor
  · rintro ⟨removal, ⟨wanted, hw, rfl⟩ | ⟨c, ⟨hc, ⟨hatt, hunlisted⟩, hfree⟩, rfl⟩, htakes⟩
    · obtain ⟨hv, habsent, hobs, hfree⟩ := (planVolume_takesAway_iff d o wanted v).mp htakes
      exact .inl ⟨⟨wanted, hw, hv, habsent⟩, hobs, hfree⟩
    · obtain rfl : c.volumeId = v := htakes
      exact .inr ⟨hunlisted, ⟨c, hc, rfl, hatt⟩, notMem_keptFor_iff.mp hfree⟩
  · rintro (⟨⟨wanted, hw, hv, habsent⟩, hobs, hfree⟩ | ⟨hunlisted, ⟨c, hc, rfl, hatt⟩, hfree⟩)
    · exact ⟨_, .inl ⟨wanted, hw, rfl⟩,
        (planVolume_takesAway_iff d o wanted v).mpr ⟨hv, habsent, hobs, hfree⟩⟩
    · exact ⟨_, .inr ⟨c, ⟨hc, ⟨hatt, hunlisted⟩, notMem_keptFor_iff.mpr hfree⟩, rfl⟩, rfl⟩

/-! ### When no data is taken away under an instance -/

/-- **Exactly when a plan keeps the data under its instances**: no instance it brings up is named
onto a volume it deletes or lets go of, and no instance that reads as running without being
present sits on a volume it deletes while its app is left alone. The second clause is empty of
every state the host observes of itself, where a running microVM is a present one. -/
theorem keepsDataUnderInstances_iff (d : HostDesiredState) (o : ObservedState) :
    KeepsDataUnderInstances d o ↔
      (∀ wanted ∈ d.instances, IsBooted o wanted →
        ¬ IsRemoved d o wanted.volumeId ∧ ¬ IsLetGo d o wanted.volumeId) ∧
      ∀ i ∈ o.instances, i.running = true → i.present = false →
        ∀ v, i.volumeId = some v → IsRemoved d o v →
          ∀ wanted ∈ d.instances, wanted.appId = i.appId → ¬ IsLeftAlone o wanted := by
  constructor
  · intro h
    refine ⟨fun wanted hw hboots => ?_, fun i hi hrun hpres v hv hrem wanted hw happ hleft => ?_⟩
    · rw [← not_or, ← exists_takesAway_iff]
      rintro ⟨removal, hr, htakes⟩
      obtain ⟨action, ha, honto⟩ := (exists_bootsOnto_iff d o _).mpr ⟨wanted, hw, hboots, rfl⟩
      exact (h removal hr _ htakes).1 action ha honto
    · obtain ⟨removal, hr, htakes⟩ := (exists_takesAway_iff d o v).mpr (.inl hrem)
      exact (h removal hr v htakes).2 i hi hrun hv
        ((none_mem_planInstances_iff d o _).mpr ⟨wanted, hw, hleft, happ⟩)
  · rintro ⟨hboot, halone⟩ removal hr v htakes
    have htaken := (exists_takesAway_iff d o v).mp ⟨removal, hr, htakes⟩
    refine ⟨fun action ha honto => ?_, fun i hi hrun hv hnone => ?_⟩
    · obtain ⟨wanted, hw, hboots, rfl⟩ := (exists_bootsOnto_iff d o v).mp ⟨action, ha, honto⟩
      obtain ⟨hrem, hgo⟩ := hboot wanted hw hboots
      exact htaken.elim hrem hgo
    · obtain ⟨wanted, hw, hleft, happ⟩ := (none_mem_planInstances_iff d o _).mp hnone
      -- a volume that is let go of is one no running instance is on
      rcases htaken with hrem | hgo
      · cases hpres : i.present with
        | true => exact hrem.2.2 i hi hpres hv
        | false => exact halone i hi hrun hpres v hv hrem wanted hw happ hleft
      · exact hgo.2.2 i hi (.inl hrun) hv

/-- A volume to be deleted. -/
def absentVolume : DesiredVolume where
  volumeId := ⟨"vol-1"⟩
  appId := ⟨"app-1"⟩
  sizeBytes := 0
  desiredState := .absent

/-- An instance to be kept up on it. -/
def ontoAbsentVolume : DesiredInstance where
  appId := ⟨"app-1"⟩
  deploymentId := ⟨"dep-1"⟩
  volumeId := ⟨"vol-1"⟩
  desiredState := .running
  layers := []
  config := default
  hostnames := []

/-- A host that serves the volume and has no record of any app. -/
def volumeWithoutRecord : ObservedState where
  instances := []
  volumes :=
    [{ volumeId := ⟨"vol-1"⟩, appId := ⟨"app-1"⟩, attached := true, formatted := true,
       sizeBytes := 0, storagePrefix := "", devicePath := none }]
  checkpoints := []
  exports := []

/-- An instance that is named but not recorded yet holds nothing: the plan boots it onto its
volume and deletes that volume in the same pass. -/
theorem not_keepsDataUnderInstances_of_unrecorded :
    ¬ ∀ (d : HostDesiredState) (o : ObservedState),
      d.appIds.Nodup → d.volumeIds.Nodup → KeepsDataUnderInstances d o := by
  intro h
  have hd := h ⟨[absentVolume], [ontoAbsentVolume], [], []⟩ volumeWithoutRecord
    (by decide) (by decide)
  have hkept := hd (.teardown absentVolume) (by decide) ⟨"vol-1"⟩ (by decide)
  exact hkept.1 (.start ontoAbsentVolume) (by decide) (by decide)

end Nibrunner

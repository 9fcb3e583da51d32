import Nibrunner.Reconcile.PassEffects
import Nibrunner.Reconcile.PlanSafety
import Nibrunner.Reconcile.Storage

/-!
# What a plan covers

A plan joins a document with what is observed of the host. Where neither names a thing twice, the
plan has one action for each thing the document names, in the document's order, and one for each
thing only observed that is to go; `coversOnce_planReconcile` says which those are.
-/

namespace Nibrunner

open Std

/-! ### What an action is about -/

/-- The volume an action is about. -/
def VolumePlan.volumeId : VolumePlan → VolumeId
  | provision desired | teardown desired | blocked desired _ => desired.volumeId
  | detach volumeId _ | none volumeId => volumeId

/-- The action lets go of a volume the document does not list. -/
def VolumePlan.isDetach : VolumePlan → Bool
  | detach .. => true
  | _ => false

/-- The checkpoint an action is about. -/
def CheckpointPlan.checkpointId : CheckpointPlan → CheckpointId
  | create desired | delete desired => desired.checkpointId
  | none checkpointId => checkpointId

/-- The export an action is about. -/
def ExportPlan.exportId : ExportPlan → ExportId
  | write desired => desired.exportId
  | forget exportId | none exportId => exportId

/-! ### Distinct ids -/

/-- The document names nothing twice. -/
structure HostDesiredState.DistinctIds (d : HostDesiredState) : Prop where
  instances : d.appIds.Nodup
  volumes : d.volumeIds.Nodup
  checkpoints : (d.checkpoints.map (·.checkpointId)).Nodup
  exports : (d.exports.map (·.exportId)).Nodup

/-- Nothing is observed twice. -/
structure ObservedState.DistinctIds (o : ObservedState) : Prop where
  instances : (o.instances.map (·.appId)).Nodup
  volumes : (o.volumes.map (·.volumeId)).Nodup
  checkpoints : (o.checkpoints.map (·.checkpointId)).Nodup
  exports : (o.exports.map (·.exportId)).Nodup

/-! ### Instances -/

section Instances

variable {d : HostDesiredState} {o : ObservedState}

/-- An app to be stopped is not brought up, and not put to sleep. -/
theorem planInstance_of_stopped {wanted : DesiredInstance}
    (hstopped : wanted.desiredState = .stopped) (current : Option ObservedInstance)
    (volumeLost : Bool) :
    (planInstance wanted current volumeLost).broughtUp = none ∧
      ∀ desired, planInstance wanted current volumeLost ≠ .sleep desired := by
  rcases present_or_absent current with ⟨c, rfl, hp⟩ | ⟨hnone, -⟩
  · rw [planInstance_of_present wanted hp, planPresentInstance, hstopped]
    dsimp only
    split
    · exact ⟨rfl, by simp⟩
    · split <;> exact ⟨rfl, by simp⟩
  · rw [planInstance_of_absent wanted hnone, if_pos hstopped]
    exact ⟨rfl, by simp⟩

/-- An app the document does not name is stopped where it is running, and forgotten otherwise. -/
theorem eq_planUnnamed_of_mem (ho : (o.instances.map (·.appId)).Nodup)
    {current : ObservedInstance} (hcurrent : current ∈ o.instances)
    (hunnamed : current.appId ∉ d.appIds) {p : InstancePlan} (hp : p ∈ planInstances d o)
    (happ : p.appId = current.appId) : p = planUnnamed current := by
  rw [planInstances, List.mem_append, List.mem_map, List.mem_map] at hp
  rcases hp with ⟨wanted, hw, rfl⟩ | ⟨other, hother, rfl⟩
  · rw [appId_planInstance] at happ
    exact absurd (List.mem_map.mpr ⟨wanted, hw, happ⟩) hunnamed
  · rw [appId_planUnnamed] at happ
    rw [List.inj_on_of_nodup_map ho (List.mem_filter.mp hother).1 hcurrent happ]

/-- What a document to be stopped is planned for its app. -/
theorem of_mem_planInstances_of_stopped {wanted : DesiredInstance} (hd : d.appIds.Nodup)
    (hw : wanted ∈ d.instances) (hstopped : wanted.desiredState = .stopped) {p : InstancePlan}
    (hp : p ∈ planInstances d o) (happ : p.appId = wanted.appId) :
    p.broughtUp = none ∧ ∀ desired, p ≠ .sleep desired := by
  rw [planInstances, List.mem_append, List.mem_map, List.mem_map] at hp
  rcases hp with ⟨other, hother, rfl⟩ | ⟨current, hcurrent, rfl⟩
  · rw [appId_planInstance] at happ
    obtain rfl := List.inj_on_of_nodup_map hd hother hw happ
    exact planInstance_of_stopped hstopped _ _
  · rw [appId_planUnnamed] at happ
    have hunnamed := of_decide_eq_true (List.mem_filter.mp hcurrent).2
    exact absurd (List.mem_map.mpr ⟨wanted, hw, happ.symm⟩) hunnamed

end Instances

/-! ### Volumes -/

/-- The apps observed present on a volume. -/
def ObservedState.holders (o : ObservedState) (v : VolumeId) : List AppId :=
  (o.instances.filter fun i => i.present && i.volumeId = some v).map (·.appId)

section Volumes

variable {d : HostDesiredState} {o : ObservedState}

theorem mem_holders_iff {v : VolumeId} {app : AppId} :
    app ∈ o.holders v ↔
      ∃ i ∈ o.instances, i.present = true ∧ i.volumeId = some v ∧ i.appId = app := by
  simp only [ObservedState.holders, List.mem_map, List.mem_filter, Bool.and_eq_true,
    decide_eq_true_eq, and_assoc]

/-- What is planned for a volume the document lists. -/
theorem planVolume_cases (d : HostDesiredState) (o : ObservedState) (wanted : DesiredVolume) :
    planVolume d o wanted = .provision wanted ∨ planVolume d o wanted = .teardown wanted ∨
      (∃ holders, planVolume d o wanted = .blocked wanted holders) ∨
      planVolume d o wanted = .none wanted.volumeId := by
  rw [planVolume]
  cases wanted.desiredState with
  | present =>
    dsimp only
    split
    · exact .inr (.inr (.inr rfl))
    · exact .inl rfl
  | absent =>
    dsimp only
    split
    · exact .inr (.inr (.inl ⟨_, rfl⟩))
    · split
      · exact .inr (.inl rfl)
      · exact .inr (.inr (.inr rfl))

@[simp] theorem volumeId_planVolume (d : HostDesiredState) (o : ObservedState)
    (wanted : DesiredVolume) : (planVolume d o wanted).volumeId = wanted.volumeId := by
  rcases planVolume_cases d o wanted with h | h | ⟨holders, h⟩ | h <;> rw [h] <;> rfl

@[simp] theorem isDetach_planVolume (d : HostDesiredState) (o : ObservedState)
    (wanted : DesiredVolume) : (planVolume d o wanted).isDetach = false := by
  rcases planVolume_cases d o wanted with h | h | ⟨holders, h⟩ | h <;> rw [h] <;> rfl

/-- A listed volume waits exactly where it is absent and held, and then for all its holders. -/
theorem planVolume_eq_blocked_iff {wanted desired : DesiredVolume} {blockedBy : List AppId} :
    planVolume d o wanted = .blocked desired blockedBy ↔
      wanted = desired ∧ wanted.desiredState = .absent ∧ o.holders wanted.volumeId ≠ [] ∧
        blockedBy = o.holders wanted.volumeId := by
  have hholders : (usedBy d o).getD wanted.volumeId [] = o.holders wanted.volumeId :=
    usedBy_getD d o wanted.volumeId
  rw [planVolume]
  cases wanted.desiredState with
  | present =>
    dsimp only
    split <;> simp
  | absent =>
    dsimp only
    rw [hholders]
    split
    · rename_i hheld
      simp [hheld, eq_comm]
    · rename_i hfree
      split <;> simp_all

theorem mem_planVolumes_iff {p : VolumePlan} :
    p ∈ planVolumes d o ↔
      (∃ wanted ∈ d.volumes, planVolume d o wanted = p) ∨
        ∃ v ∈ o.volumes, v.attached = true ∧ v.volumeId ∉ d.volumeIds ∧
          v.volumeId ∉ keptFor d o ∧ .detach v.volumeId v.appId = p := by
  simp only [planVolumes, List.mem_append, List.mem_map, List.mem_filter, Bool.and_eq_true,
    decide_eq_true_eq, and_assoc]

/-- The volumes let go of are the attached ones that are not listed and kept for nobody. -/
theorem detach_mem_planVolumes_iff {v : VolumeId} {app : AppId} :
    .detach v app ∈ planVolumes d o ↔
      v ∉ d.volumeIds ∧
        (∃ c ∈ o.volumes, c.volumeId = v ∧ c.appId = app ∧ c.attached = true) ∧
        ∀ i ∈ o.instances, i.running = true ∨ i.appId ∈ d.appIds → i.volumeId ≠ some v := by
  rw [mem_planVolumes_iff, ← notMem_keptFor_iff]
  constructor
  · rintro (⟨wanted, -, heq⟩ | ⟨c, hc, hattached, hunlisted, hfree, heq⟩)
    · have hdetach := isDetach_planVolume d o wanted
      rw [heq] at hdetach
      cases hdetach
    · cases heq
      exact ⟨hunlisted, ⟨c, hc, rfl, rfl, hattached⟩, hfree⟩
  · rintro ⟨hunlisted, ⟨c, hc, rfl, rfl, hattached⟩, hfree⟩
    exact .inr ⟨c, hc, hattached, hunlisted, hfree, rfl⟩

theorem blocked_mem_planVolumes_iff {desired : DesiredVolume} {blockedBy : List AppId} :
    .blocked desired blockedBy ∈ planVolumes d o ↔
      desired ∈ d.volumes ∧ desired.desiredState = .absent ∧
        o.holders desired.volumeId ≠ [] ∧ blockedBy = o.holders desired.volumeId := by
  rw [mem_planVolumes_iff]
  constructor
  · rintro (⟨wanted, hw, heq⟩ | ⟨c, -, -, -, -, heq⟩)
    · obtain ⟨rfl, habsent, hheld, hby⟩ := planVolume_eq_blocked_iff.mp heq
      exact ⟨hw, habsent, hheld, hby⟩
    · cases heq
  · rintro ⟨hw, habsent, hheld, hby⟩
    exact .inl ⟨desired, hw, planVolume_eq_blocked_iff.mpr ⟨rfl, habsent, hheld, hby⟩⟩

/-- A removal waits for the next pass exactly where a volume to be absent is held. -/
theorem hasDeferredWork_iff (d : HostDesiredState) (o : ObservedState) :
    (planReconcile d o).hasDeferredWork = true ↔
      ∃ wanted ∈ d.volumes, wanted.desiredState = .absent ∧
        ∃ i ∈ o.instances, i.present = true ∧ i.volumeId = some wanted.volumeId := by
  have hheld : ∀ v, o.holders v ≠ [] ↔
      ∃ i ∈ o.instances, i.present = true ∧ i.volumeId = some v := by
    intro v
    constructor
    · intro hne
      obtain ⟨app, happ⟩ := List.exists_mem_of_ne_nil _ hne
      obtain ⟨i, hi, hp, hv, -⟩ := mem_holders_iff.mp happ
      exact ⟨i, hi, hp, hv⟩
    · rintro ⟨i, hi, hp, hv⟩
      exact List.ne_nil_of_mem (mem_holders_iff.mpr ⟨i, hi, hp, hv, rfl⟩)
  rw [ReconcilePlan.hasDeferredWork, List.any_eq_true]
  constructor
  · rintro ⟨p, hp, hblocked⟩
    cases p with
    | blocked desired blockedBy =>
      obtain ⟨hw, habsent, hne, -⟩ := blocked_mem_planVolumes_iff.mp hp
      exact ⟨desired, hw, habsent, (hheld _).mp hne⟩
    | _ => cases hblocked
  · rintro ⟨wanted, hw, habsent, hi⟩
    exact ⟨.blocked wanted (o.holders wanted.volumeId),
      blocked_mem_planVolumes_iff.mpr ⟨hw, habsent, (hheld _).mpr hi, rfl⟩, rfl⟩

/-- One action for each volume of the document, in its order, and behind them those let go of. -/
theorem planVolumes_listed (d : HostDesiredState) (o : ObservedState) :
    ((planVolumes d o).filter (!·.isDetach)).map (·.volumeId) = d.volumeIds := by
  have hlisted : (d.volumes.map (planVolume d o)).filter (!·.isDetach) =
      d.volumes.map (planVolume d o) := by
    refine List.filter_eq_self.mpr fun p hp => ?_
    obtain ⟨wanted, -, rfl⟩ := List.mem_map.mp hp
    rw [isDetach_planVolume]
    rfl
  rw [planVolumes, List.filter_append, hlisted, List.filter_eq_nil_iff.mpr, List.append_nil,
    List.map_map]
  · exact List.map_congr_left fun wanted _ => volumeId_planVolume d o wanted
  · intro p hp
    obtain ⟨v, -, rfl⟩ := List.mem_map.mp hp
    exact Bool.false_ne_true

theorem nodup_planVolumes (hd : d.volumeIds.Nodup) (ho : (o.volumes.map (·.volumeId)).Nodup) :
    ((planVolumes d o).map (·.volumeId)).Nodup := by
  simp only [planVolumes, List.map_append, List.map_map, Function.comp_def, volumeId_planVolume]
  refine nodup_named_append hd ho fun v _ hv => ?_
  simp only [Bool.and_eq_true, decide_eq_true_eq] at hv
  exact hv.1.2

end Volumes

/-! ### Checkpoints and exports -/

theorem checkpointIds_planCheckpoints (d : HostDesiredState) (o : ObservedState) :
    (planCheckpoints d o).map (·.checkpointId) = d.checkpoints.map (·.checkpointId) := by
  rw [planCheckpoints_eq, List.map_map]
  refine List.map_congr_left fun wanted _ => ?_
  rw [Function.comp_apply, planCheckpoint]
  split <;> rfl

/-- One action for each export of the document, in its order, and one for each export beside it. -/
theorem exportIds_planExports (d : HostDesiredState) (o : ObservedState) :
    (planExports d o).map (·.exportId) = d.exports.map (·.exportId) ++
      (o.exports.filter (·.exportId ∉ d.exports.map (·.exportId))).map (·.exportId) := by
  rw [planExports, List.map_append, List.map_map, List.map_map]
  refine congrArg₂ (· ++ ·) (List.map_congr_left fun wanted _ => ?_) rfl
  rw [Function.comp_apply]
  cases wanted.desiredState with
  | absent => rfl
  | present =>
    dsimp only
    split <;> rfl

/-! ### The whole plan -/

/-- **A plan covers everything once**: each app, volume, checkpoint and export of the document has
one action, in the document's order, and of what is only observed each app is stopped or
forgotten, each export forgotten, and each attached volume kept for nobody let go of. -/
structure CoversOnce (d : HostDesiredState) (o : ObservedState) (plan : ReconcilePlan) : Prop where
  apps : plan.instances.map (·.appId) =
    d.appIds ++ (o.instances.filter (·.appId ∉ d.appIds)).map (·.appId)
  appOnce : (plan.instances.map (·.appId)).Nodup
  /-- An app the document does not name goes. -/
  unnamed : ∀ current ∈ o.instances, current.appId ∉ d.appIds → ∀ p ∈ plan.instances,
    p.appId = current.appId →
      p = if current.running then .stop current.appId .notDesired else .forget current.appId
  /-- An app to be stopped is not started, replaced, recovered or put to sleep. -/
  stopped : ∀ wanted ∈ d.instances, wanted.desiredState = .stopped → ∀ p ∈ plan.instances,
    p.appId = wanted.appId → p.broughtUp = none ∧ ∀ desired, p ≠ .sleep desired
  volumes : (plan.volumes.filter (!·.isDetach)).map (·.volumeId) = d.volumeIds
  volumeOnce : (plan.volumes.map (·.volumeId)).Nodup
  detached : ∀ v app, .detach v app ∈ plan.volumes ↔
    v ∉ d.volumeIds ∧
      (∃ c ∈ o.volumes, c.volumeId = v ∧ c.appId = app ∧ c.attached = true) ∧
      ∀ i ∈ o.instances, i.running = true ∨ i.appId ∈ d.appIds → i.volumeId ≠ some v
  blocked : ∀ desired blockedBy, .blocked desired blockedBy ∈ plan.volumes ↔
    desired ∈ d.volumes ∧ desired.desiredState = .absent ∧
      o.holders desired.volumeId ≠ [] ∧ blockedBy = o.holders desired.volumeId
  deferred : plan.hasDeferredWork = true ↔
    ∃ wanted ∈ d.volumes, wanted.desiredState = .absent ∧
      ∃ i ∈ o.instances, i.present = true ∧ i.volumeId = some wanted.volumeId
  checkpoints : plan.checkpoints.map (·.checkpointId) = d.checkpoints.map (·.checkpointId)
  checkpointOnce : (plan.checkpoints.map (·.checkpointId)).Nodup
  exports : plan.exports.map (·.exportId) = d.exports.map (·.exportId) ++
    (o.exports.filter (·.exportId ∉ d.exports.map (·.exportId))).map (·.exportId)
  exportOnce : (plan.exports.map (·.exportId)).Nodup

theorem coversOnce_planReconcile {d : HostDesiredState} (hd : d.DistinctIds) {o : ObservedState}
    (ho : o.DistinctIds) : CoversOnce d o (planReconcile d o) where
  apps := appIds_planInstances d o
  appOnce := nodup_appIds_planInstances hd.instances ho.instances
  unnamed current hcurrent hunnamed p hp happ :=
    eq_planUnnamed_of_mem ho.instances hcurrent hunnamed hp happ
  stopped wanted hw hstopped p hp happ :=
    of_mem_planInstances_of_stopped hd.instances hw hstopped hp happ
  volumes := planVolumes_listed d o
  volumeOnce := nodup_planVolumes hd.volumes ho.volumes
  detached _ _ := detach_mem_planVolumes_iff
  blocked _ _ := blocked_mem_planVolumes_iff
  deferred := hasDeferredWork_iff d o
  checkpoints := checkpointIds_planCheckpoints d o
  checkpointOnce := by
    rw [show (planReconcile d o).checkpoints = planCheckpoints d o from rfl,
      checkpointIds_planCheckpoints]
    exact hd.checkpoints
  exports := exportIds_planExports d o
  exportOnce := by
    rw [show (planReconcile d o).exports = planExports d o from rfl, exportIds_planExports]
    exact nodup_named_append hd.exports ho.exports fun _ _ h => of_decide_eq_true h

/-- A document that keeps one app stopped and removes a volume the other app holds, on a host that
runs both and serves a volume of neither. -/
theorem coversOnce_heldVolume :
    let observed (app volume : String) : ObservedInstance :=
      ⟨⟨app⟩, some ⟨volume⟩, none, true, true, false, false⟩
    let d : HostDesiredState :=
      ⟨[absentVolume], [{ ontoAbsentVolume with desiredState := .stopped }], [], []⟩
    let o : ObservedState :=
      ⟨[observed "app-1" "vol-1", observed "app-2" "vol-1"],
        [⟨⟨"vol-2"⟩, ⟨"app-3"⟩, true, true, 0, "", none⟩], [], [⟨⟨"export-1"⟩, true⟩]⟩
    CoversOnce d o (planReconcile d o) := by
  intro observed d o
  exact coversOnce_planReconcile ⟨by decide, by decide, by decide, by decide⟩
    ⟨by decide, by decide, by decide, by decide⟩

end Nibrunner

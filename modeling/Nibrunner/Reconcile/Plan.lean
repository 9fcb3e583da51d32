import Nibrunner.ForStd.IdMap
import Nibrunner.Protocol.Document

/-!
# The plan of a reconcile pass

`planReconcile` compares the desired document with what the host observed of itself and says,
for every instance, volume, checkpoint and export, what the pass is to do. It is pure: nothing
is applied here, and the four parts are decided independently from the same two inputs.

The sets and maps the planner builds on the way are kept as the source has them: a set that is
only asked for membership is the list it collects, and a map collected from a list is
`ExtTreeMap.indexBy`, the later of two entries with one key winning.
-/

namespace Nibrunner

open Std

/-! ### What a host observes of itself -/

structure ObservedInstance where
  appId : AppId
  volumeId : Option VolumeId
  deploymentId : Option DeploymentId
  present : Bool
  running : Bool
  exited : Bool
  /-- The record is down from a start this host refused before spending an attempt on it. -/
  refused : Bool
deriving DecidableEq

structure ObservedVolume where
  volumeId : VolumeId
  appId : AppId
  attached : Bool
  /-- Whether the device carries a filesystem. -/
  formatted : Bool
  sizeBytes : ℕ
  storagePrefix : String
  devicePath : Option String
deriving DecidableEq

structure ObservedCheckpoint where
  checkpointId : CheckpointId
  volumeId : VolumeId
deriving DecidableEq

structure ObservedExport where
  exportId : ExportId
  written : Bool
deriving DecidableEq

structure ObservedState where
  instances : List ObservedInstance
  volumes : List ObservedVolume
  checkpoints : List ObservedCheckpoint
  exports : List ObservedExport
deriving DecidableEq

/-! ### What a pass is to do -/

inductive InstanceStopReason where
  | desiredStopped
  | notDesired
  | superseded
  | idle
  | volumeLost
deriving DecidableEq

inductive InstancePlan where
  | start (desired : DesiredInstance)
  | replace (desired : DesiredInstance)
  /-- A cold restart of an instance whose data volume was pulled out from under it. -/
  | recover (desired : DesiredInstance)
  | sleep (desired : DesiredInstance)
  /-- A stopped record on a slot of its own, with nothing booted under it. -/
  | hold (desired : DesiredInstance)
  | stop (appId : AppId) (reason : InstanceStopReason)
  | forget (appId : AppId)
  | none (appId : AppId)
deriving DecidableEq

inductive VolumePlan where
  | provision (desired : DesiredVolume)
  | teardown (desired : DesiredVolume)
  | blocked (desired : DesiredVolume) (blockedBy : List AppId)
  /-- Let go of a volume the document no longer names: its device is taken down and its data is
  kept. -/
  | detach (volumeId : VolumeId) (appId : AppId)
  | none (volumeId : VolumeId)
deriving DecidableEq

inductive CheckpointPlan where
  | create (desired : DesiredCheckpoint)
  | delete (desired : DesiredCheckpoint)
  | none (checkpointId : CheckpointId)
deriving DecidableEq

inductive ExportPlan where
  | write (desired : DesiredExport)
  | forget (exportId : ExportId)
  | none (exportId : ExportId)
deriving DecidableEq

structure ReconcilePlan where
  instances : List InstancePlan
  volumes : List VolumePlan
  checkpoints : List CheckpointPlan
  exports : List ExportPlan
deriving DecidableEq

/-! ### Instances -/

/-- What is done about an instance the document names and this host holds. -/
def planPresentInstance (wanted : DesiredInstance) (current : ObservedInstance)
    (volumeLost : Bool) : InstancePlan :=
  match wanted.desiredState with
  | .stopped =>
    if current.running then .stop wanted.appId .desiredStopped
    -- A refused record never held a slot to be stopped out of.
    else if current.refused then .hold wanted
    else .none wanted.appId
  | .onRequest =>
    if current.deploymentId ≠ some wanted.deploymentId then .replace wanted
    else if current.running then
      if volumeLost then .recover wanted else .none wanted.appId
    else if current.refused then .start wanted
    else .sleep wanted
  | .running =>
    if current.deploymentId ≠ some wanted.deploymentId then .replace wanted
    else if current.running then
      if volumeLost then .recover wanted else .none wanted.appId
    else if current.exited && volumeLost then .recover wanted
    else .start wanted

/-- What is done about one instance the document names. -/
def planInstance (wanted : DesiredInstance) (current : Option ObservedInstance)
    (volumeLost : Bool) : InstancePlan :=
  match current.filter (·.present), wanted.desiredState with
  | none, .stopped => .hold wanted
  | none, _ => .start wanted
  | some current, _ => planPresentInstance wanted current volumeLost

/-- What is done about an observed instance the document does not name. -/
def planUnnamed (current : ObservedInstance) : InstancePlan :=
  if current.running then .stop current.appId .notDesired else .forget current.appId

namespace ObservedState

def instancesById (o : ObservedState) : ExtTreeMap AppId ObservedInstance :=
  ExtTreeMap.indexBy (·.appId) o.instances

def volumesById (o : ObservedState) : ExtTreeMap VolumeId ObservedVolume :=
  ExtTreeMap.indexBy (·.volumeId) o.volumes

/-- The volumes this host serves but can no longer read. -/
def lostVolumes (o : ObservedState) : List VolumeId :=
  (o.volumes.filter (!·.attached)).map (·.volumeId)

end ObservedState

def planInstances (d : HostDesiredState) (o : ObservedState) : List InstancePlan :=
  d.instances.map (fun wanted =>
      planInstance wanted o.instancesById[wanted.appId]? (wanted.volumeId ∈ o.lostVolumes)) ++
    (o.instances.filter (fun current => current.appId ∉ d.appIds)).map planUnnamed

/-! ### Volumes -/

/-- The apps recorded on each volume. The loop over the document's instances leaves an empty
list under their volumes where there was none. -/
def usedBy (d : HostDesiredState) (o : ObservedState) : ExtTreeMap VolumeId (List AppId) :=
  let held := o.instances.foldl (fun used i =>
    if i.present then
      match i.volumeId with
      | some volume => used.insert volume (used.getD volume [] ++ [i.appId])
      | none => used
    else used) ∅
  d.instances.foldl (fun used i => used.insertIfNew i.volumeId []) held

/-- The volumes kept for an instance that is up or whose app the document still names. -/
def keptFor (d : HostDesiredState) (o : ObservedState) : List VolumeId :=
  (o.instances.filter (fun i => i.running || i.appId ∈ d.appIds)).filterMap (·.volumeId)

/-- What is done about one volume the document lists. -/
def planVolume (d : HostDesiredState) (o : ObservedState) (wanted : DesiredVolume) :
    VolumePlan :=
  let current := o.volumesById[wanted.volumeId]?
  match wanted.desiredState with
  | .absent =>
    let holders := (usedBy d o).getD wanted.volumeId []
    if holders ≠ [] then .blocked wanted holders
    else if current.isSome then .teardown wanted
    else .none wanted.volumeId
  | .present =>
    -- An attached device with no filesystem on it is provisioned again.
    if current.any (fun v => v.attached && v.formatted && wanted.sizeBytes ≤ v.sizeBytes) then
      .none wanted.volumeId
    else .provision wanted

def planVolumes (d : HostDesiredState) (o : ObservedState) : List VolumePlan :=
  d.volumes.map (planVolume d o) ++
    (o.volumes.filter (fun v =>
        v.attached && v.volumeId ∉ d.volumeIds && v.volumeId ∉ keptFor d o)).map
      (fun v => .detach v.volumeId v.appId)

/-! ### Checkpoints and exports -/

def planCheckpoints (d : HostDesiredState) (o : ObservedState) : List CheckpointPlan :=
  let observedIds := o.checkpoints.map (·.checkpointId)
  d.checkpoints.map fun wanted =>
    match wanted.desiredState, decide (wanted.checkpointId ∈ observedIds) with
    | .present, true => .none wanted.checkpointId
    | .present, false => .create wanted
    | .absent, true => .delete wanted
    | .absent, false => .none wanted.checkpointId

def planExports (d : HostDesiredState) (o : ObservedState) : List ExportPlan :=
  let writtenIds := (o.exports.filter (·.written)).map (·.exportId)
  let desiredIds := d.exports.map (·.exportId)
  d.exports.map (fun wanted =>
      match wanted.desiredState with
      | .absent => .forget wanted.exportId
      | .present =>
        if wanted.exportId ∈ writtenIds then .none wanted.exportId else .write wanted) ++
    (o.exports.filter (fun current => current.exportId ∉ desiredIds)).map
      (fun current => .forget current.exportId)

/-! ### The whole plan -/

/-- What a pass over the document is to do on a host that observed `o` of itself. -/
def planReconcile (d : HostDesiredState) (o : ObservedState) : ReconcilePlan where
  instances := planInstances d o
  volumes := planVolumes d o
  checkpoints := planCheckpoints d o
  exports := planExports d o

/-- Whether a volume's removal waits for the next pass. -/
def ReconcilePlan.hasDeferredWork (plan : ReconcilePlan) : Bool :=
  plan.volumes.any fun
    | .blocked .. => true
    | _ => false

/-! ### Reading one instance's plan -/

/-- An app this host does not hold is held where it is to be stopped and started otherwise. -/
theorem planInstance_of_absent (wanted : DesiredInstance) {current : Option ObservedInstance}
    (h : current.filter (·.present) = none) (volumeLost : Bool) :
    planInstance wanted current volumeLost =
      if wanted.desiredState = .stopped then .hold wanted else .start wanted := by
  rw [planInstance, h]
  cases wanted.desiredState <;> rfl

@[simp] theorem planInstance_of_present (wanted : DesiredInstance) {current : ObservedInstance}
    (h : current.present = true) (volumeLost : Bool) :
    planInstance wanted (some current) volumeLost =
      planPresentInstance wanted current volumeLost := by
  rw [planInstance, Option.filter_some_pos h]

/-- An app is held by this host, or nothing present is observed of it. -/
theorem present_or_absent (current : Option ObservedInstance) :
    (∃ i, current = some i ∧ i.present = true) ∨
      (current.filter (·.present) = none ∧ ∀ i, current = some i → i.present = false) := by
  cases current with
  | none => exact .inr ⟨rfl, fun i h => by cases h⟩
  | some i =>
    cases hp : i.present with
    | true => exact .inl ⟨i, rfl, hp⟩
    | false => exact .inr ⟨by simp [hp], fun j h => by cases h; exact hp⟩

/-! ### Reading the holders -/

/-- The holders of a volume are the apps observed present on it; the document's instances add
none. -/
theorem usedBy_getD (d : HostDesiredState) (o : ObservedState) (v : VolumeId) :
    (usedBy d o).getD v [] =
      (o.instances.filter (fun i => i.present && i.volumeId = some v)).map (·.appId) := by
  -- the document's instances make room for their volumes, the observed ones are put in
  have named : ∀ (l : List DesiredInstance) (m : ExtTreeMap VolumeId (List AppId)),
      (l.foldl (fun used i => used.insertIfNew i.volumeId []) m).getD v [] = m.getD v [] := by
    intro l
    induction l with
    | nil => exact fun m => rfl
    | cons i l ih =>
      intro m
      rw [List.foldl_cons, ih, ExtTreeMap.getD_insertIfNew]
      split
      · rename_i h
        obtain ⟨heq, hmem⟩ := h
        rw [LawfulEqOrd.eq_of_compare heq] at hmem
        exact (ExtTreeMap.getD_eq_fallback hmem).symm
      · rfl
  have held : ∀ (l : List ObservedInstance) (m : ExtTreeMap VolumeId (List AppId)),
      (l.foldl (fun used i =>
        if i.present then
          match i.volumeId with
          | some volume => used.insert volume (used.getD volume [] ++ [i.appId])
          | none => used
        else used) m).getD v [] =
      m.getD v [] ++ (l.filter (fun i => i.present && i.volumeId = some v)).map (·.appId) := by
    intro l
    induction l with
    | nil => intro m; simp
    | cons i l ih =>
      intro m
      rw [List.foldl_cons, ih]
      cases hp : i.present with
      | false => simp [hp]
      | true =>
        cases hv : i.volumeId with
        | none => simp [hp, hv]
        | some w =>
          by_cases hw : w = v
          · subst hw
            simp [hp, hv]
          · have hne : compare w v ≠ .eq := fun h => hw (LawfulEqOrd.eq_of_compare h)
            simp [hp, hv, hw, ExtTreeMap.getD_insert, hne]
  rw [usedBy, named, held]
  simp

end Nibrunner

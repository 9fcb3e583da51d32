import Nibrunner.Reconcile.Steady

/-!
# The reconcile loop comes to rest

Pass after pass over one document, with every adapter succeeding, ends in a host there is nothing
left to do about (`converges`). Removal takes several passes: an app the document does not name is
stopped in one and forgotten in the next, and its volume is deleted in the one after. An instance
that is to run may wait out its backoff first.

The loop does not come to rest with an instance that is out of restarts, with one the host cannot
put within reach, with a checkpoint listed as present and as absent, or with a bare volume and
nothing but ticks (`not_comesToRest`).
-/

namespace Nibrunner

open Std

/-! ### Nothing left to do -/

def VolumePlan.isRest : VolumePlan → Bool
  | none _ => true
  | _ => false

def CheckpointPlan.isRest : CheckpointPlan → Bool
  | none _ => true
  | _ => false

/-- **There is nothing left to do**: no instance is to change, no volume to be made ready, taken
away or waited for, and no checkpoint to be taken or deleted. -/
def ReconcilePlan.IsSettled (plan : ReconcilePlan) : Prop :=
  (∀ p ∈ plan.instances, p.isRest = true) ∧ (∀ p ∈ plan.volumes, p.isRest = true) ∧
    ∀ p ∈ plan.checkpoints, p.isRest = true

instance (plan : ReconcilePlan) : Decidable plan.IsSettled :=
  inferInstanceAs (Decidable (_ ∧ _ ∧ _))

/-! ### One pass, on an app the document does not name -/

/-- Nothing is known of the app. -/
def AppView.Gone (v : AppView) : Prop := v.vm = none ∧ v.record = none

theorem AppView.Gone.isUp {v : AppView} (hv : v.Gone) : v.isUp = false := by
  rw [AppView.isUp, hv.1]
  rfl

namespace Host

section Unnamed

variable [Platform] {d : HostDesiredState} (hd : d.appIds.Nodup) {h : Host} (hk : h.Keyed)
  (answers : PassAnswers) (hcron : answers.cron = true) {app : AppId} (happ : app ∉ d.appIds)
include hd hk hcron happ

/-- An app the document does not name is down after a pass, and nothing is known of it after the
next. -/
theorem unnamed_reconcile :
    ((h.reconcile d answers).view app).isUp = false ∧
      ((h.view app).isUp = false → ((h.reconcile d answers).view app).Gone) := by
  obtain ⟨slot, ⟨hup, hview⟩ | ⟨hdown, hview⟩ | ⟨hgone, hview⟩⟩ :=
    view_reconcile_of_unnamed hk answers hd hcron happ
  all_goals rw [hview]
  · refine ⟨AppView.isUp_stop _, fun hdown => ?_⟩
    rw [isUp_view, hup] at hdown
    cases hdown
  · exact ⟨rfl, fun _ => ⟨rfl, rfl⟩⟩
  · exact ⟨AppView.Gone.isUp hgone, fun _ => hgone⟩

end Unnamed

/-! ### One pass, on the volumes -/

/-- Nothing is known of any app the document does not name. -/
def UnnamedGone (d : HostDesiredState) (h : Host) : Prop := ∀ app ∉ d.appIds, (h.view app).Gone

/-- No file is left of a volume listed as absent. -/
def AbsentGone (d : HostDesiredState) (h : Host) : Prop :=
  ∀ v ∈ d.volumes, v.desiredState = .absent → h.images[v.volumeId]? = none

section Volumes

variable {d : HostDesiredState} (hd : d.Consistent) {h : Host} (hr : h.Ready d)
  (hgone : h.UnnamedGone d)
include hd hr hgone

/-- Every record is on a volume listed as present, that of its app. -/
theorem UnnamedGone.exists_volume {app : AppId} {r : InstanceRecord}
    (hrecord : (h.view app).record = some r) :
    ∃ v ∈ d.volumes, v.desiredState = .present ∧ v.volumeId = r.volumeId := by
  by_cases happ : app ∈ d.appIds
  · obtain ⟨wanted, hw, rfl⟩ := List.mem_map.mp happ
    obtain ⟨v, hv, -, hvapp, hpresent⟩ := hd.instances wanted hw
    rw [← hvapp] at hrecord
    exact ⟨v, hv, hpresent, (hr.oneVolume v hv r hrecord).symm⟩
  · rw [(hgone app happ).2] at hrecord
    cases hrecord

/-- Nothing holds a volume that is to go. -/
theorem UnnamedGone.usedBy_eq_nil {v : DesiredVolume} (hv : v ∈ d.volumes)
    (habsent : v.desiredState = .absent) : (usedBy d (h.observe d)).getD v.volumeId [] = [] := by
  rw [usedBy_getD, List.map_eq_nil_iff, List.filter_eq_nil_iff]
  intro i hi hheld
  obtain ⟨app, -, rfl⟩ := List.mem_map.mp hi
  rw [Bool.and_eq_true, decide_eq_true_eq] at hheld
  obtain ⟨r, hrecord, hvolume⟩ := Option.map_eq_some_iff.mp hheld.2
  obtain ⟨u, hu, hpresent, hid⟩ := hgone.exists_volume hd hr hrecord
  rw [List.inj_on_of_nodup_map hd.volumes hu hv (hid.trans hvolume), habsent] at hpresent
  cases hpresent

/-- A volume that is to go is torn down while its file is there. -/
theorem UnnamedGone.planVolume_eq {v : DesiredVolume} (hv : v ∈ d.volumes)
    (habsent : v.desiredState = .absent) :
    planVolume d (h.observe d) v =
      if h.images[v.volumeId]? = none then .none v.volumeId else .teardown v := by
  rw [planVolume, habsent]
  dsimp only
  rw [hgone.usedBy_eq_nil hd hr hv habsent, if_neg (not_not.mpr rfl), volumesById_observe,
    volumeOwners_of_mem hd.volumes h.records hv]
  cases h.images[v.volumeId]? <;> rfl

/-- A pass deletes the files that are to go. -/
theorem UnnamedGone.absentGone_reconcile [Platform] {trigger : Trigger}
    (hfill : h.Fillable d trigger) (nowMs : ℤ) :
    (h.reconcile d (.succeed trigger nowMs)).AbsentGone d := by
  intro v hv habsent
  refine (storageSettled_reconcile hd hr hfill nowMs).gone v hv habsent ?_
  by_cases hnone : h.images[v.volumeId]? = none
  · exact .inl hnone
  · refine .inr (List.mem_append_left _ (List.mem_map.mpr ⟨v, hv, ?_⟩))
    rw [hgone.planVolume_eq hd hr hv habsent, if_neg hnone]

end Volumes

/-! ### A settled plan -/

/-- **There is nothing left to do** once every instance is steady, every volume listed as present is
ready, and nothing is left of what is to go. -/
theorem isSettled_planReconcile {d : HostDesiredState} (hd : d.Consistent) {h : Host}
    (hr : h.Ready d) (hs : h.AllServed d) (hgone : h.UnnamedGone d) (habsent : h.AbsentGone d)
    (hcheckpoints : ∀ c ∈ d.checkpoints, h.HasCheckpoint c)
    (hsteady : ∀ wanted ∈ d.instances, (h.view wanted.appId).Steady wanted) :
    (planReconcile d (h.observe d)).IsSettled := by
  -- an action is an instance's, a volume's or a checkpoint's
  refine ⟨fun p hp => ?_, fun p hp => ?_, fun p hp => ?_⟩
  · rcases (mem_planInstances_iff h d p).mp hp with ⟨wanted, hw, rfl⟩ | ⟨app, hknown, hnot, -⟩
    · rw [actionFor_of_served hd hs hw]
      exact hsteady wanted hw
    · obtain ⟨hvm, hrecord⟩ := hgone app hnot
      exact absurd (mem_knownApps.mp hknown) (by simp [hvm, hrecord])
  · rcases List.mem_append.mp hp with hlisted | hunlisted
    · obtain ⟨v, hv, rfl⟩ := List.mem_map.mp hlisted
      cases hstate : v.desiredState with
      | present =>
        rw [(planVolume_eq_none_iff h hd.volumes hv hstate).mpr (hs v hv hstate)]
        rfl
      | absent =>
        rw [hgone.planVolume_eq hd hr hv hstate, if_pos (habsent v hv hstate)]
        rfl
    · obtain ⟨c, -, rfl⟩ := List.mem_map.mp hunlisted
      obtain ⟨hunlisted, r, hrecord, hvolume⟩ := record_of_detach hr.keyed hp
      obtain ⟨v, hv, -, hid⟩ := hgone.exists_volume hd hr hrecord
      exact absurd (List.mem_map.mpr ⟨v, hv, hid.trans hvolume⟩) hunlisted
  · obtain ⟨c, hc, rfl⟩ := List.mem_map.mp hp
    show (planCheckpoint (h.observe d) c).isRest = true
    rw [(planCheckpoint_eq_none_iff hc).mpr (hcheckpoints c hc)]
    rfl

/-! ### Pass after pass -/

/-- The host after `n` passes over the document, the `k`-th of them run for `triggers k` at
`clock k`, with every adapter succeeding. -/
def passes [Platform] (h : Host) (d : HostDesiredState) (triggers : ℕ → Trigger) (clock : ℕ → ℤ) :
    ℕ → Host
  | 0 => h
  | n + 1 => (h.passes d triggers clock n).reconcile d (.succeed (triggers n) (clock n))

section Passes

variable [Platform] {d : HostDesiredState} (hd : d.Consistent) {h : Host} (hr : h.Ready d)
  {triggers : ℕ → Trigger} {clock : ℕ → ℤ} (hfill : h.Fillable d (triggers 0))
include hd hr hfill

/-- Every pass finds the host ready for it. -/
theorem ready_passes (n : ℕ) :
    (h.passes d triggers clock n).Ready d ∧
      (h.passes d triggers clock n).Fillable d (triggers n) := by
  induction n with
  | zero => exact ⟨hr, hfill⟩
  | succ n ih =>
    obtain ⟨hready, hfillable⟩ := ih
    exact ⟨hready.reconcile hd hfillable _,
      (storageSettled_reconcile hd hready hfillable _).served.fillable _⟩

theorem storageSettled_passes (n : ℕ) :
    StorageSettled d (h.passes d triggers clock n) (h.passes d triggers clock (n + 1)) := by
  obtain ⟨hready, hfillable⟩ := @ready_passes _ _ hd _ hr triggers clock hfill n
  exact storageSettled_reconcile hd hready hfillable _

/-- What the document does not name is stopped by the first pass and forgotten by the second. -/
theorem unnamedGone_passes (n : ℕ) : (h.passes d triggers clock (n + 2)).UnnamedGone d := by
  intro app happ
  have hkeyed : ∀ k, (h.passes d triggers clock k).Keyed := fun k =>
    (ready_passes hd hr hfill k).1.keyed
  have hdown : ((h.passes d triggers clock (n + 1)).view app).isUp = false :=
    (unnamed_reconcile hd.apps (hkeyed n) _ rfl happ).1
  exact (unnamed_reconcile hd.apps (hkeyed (n + 1)) _ rfl happ).2 hdown

/-- What is to be deleted is gone after the third pass. -/
theorem absentGone_passes (n : ℕ) : (h.passes d triggers clock (n + 3)).AbsentGone d := by
  obtain ⟨hready, hfillable⟩ := @ready_passes _ _ hd _ hr triggers clock hfill (n + 2)
  exact (unnamedGone_passes hd hr hfill n).absentGone_reconcile hd hready hfillable _

/-- There is a moment by which every instance the first pass left waiting is due. -/
theorem exists_due_passes (hrestarts : h.HasRestarts d) :
    ∃ dueMs, ∀ n, ∀ wanted ∈ d.instances,
      ((h.passes d triggers clock (n + 1)).view wanted.appId).Due wanted dueMs := by
  have hfirst : ∀ l : List DesiredInstance, (∀ wanted ∈ l, wanted ∈ d.instances) →
      ∃ dueMs, ∀ wanted ∈ l,
        ((h.passes d triggers clock 1).view wanted.appId).Due wanted dueMs := by
    intro l hl
    induction l with
    | nil => exact ⟨0, fun _ hmem => absurd hmem List.not_mem_nil⟩
    | cons wanted l ih =>
      obtain ⟨dueMs, hall⟩ := ih fun i hi => hl i (List.mem_cons_of_mem wanted hi)
      obtain ⟨dueMs', hdue⟩ := exists_due_reconcile hd hr (clock 0) (hl wanted List.mem_cons_self)
        hfill hrestarts
      refine ⟨max dueMs dueMs', fun i hi => ?_⟩
      rcases List.mem_cons.mp hi with rfl | hi
      · exact hdue.mono (le_max_right _ _)
      · exact (hall i hi).mono (le_max_left _ _)
  obtain ⟨dueMs, hdue⟩ := hfirst d.instances fun _ => id
  refine ⟨dueMs, fun n => ?_⟩
  induction n with
  | zero => exact hdue
  | succ n ih =>
    intro wanted hw
    exact (due_reconcile hd (ready_passes hd hr hfill (n + 1)).1 _ hw
      (storageSettled_passes hd hr hfill n).served (ih wanted hw)).1

/-- **Every instance is steady** from some pass on, where the clock passes every moment. -/
theorem exists_steady_passes (hrestarts : h.HasRestarts d)
    (hclock : ∀ dueMs n, ∃ m, n ≤ m ∧ dueMs ≤ clock m) :
    ∃ n, ∀ m, n ≤ m → ∀ wanted ∈ d.instances,
      ((h.passes d triggers clock m).view wanted.appId).Steady wanted := by
  obtain ⟨dueMs, hdue⟩ := @exists_due_passes _ _ hd _ hr triggers clock hfill hrestarts
  obtain ⟨k, hk, hpast⟩ := hclock dueMs 1
  obtain ⟨n, rfl⟩ : ∃ n, k = n + 1 := ⟨k - 1, by omega⟩
  refine ⟨n + 2, fun m hm => ?_⟩
  induction m, hm using Nat.le_induction with
  | base =>
    intro wanted hw
    exact (due_reconcile hd (ready_passes hd hr hfill (n + 1)).1 _ hw
      (storageSettled_passes hd hr hfill n).served (hdue n wanted hw)).2 hpast
  | succ m hm ih =>
    intro wanted hw
    obtain ⟨m', rfl⟩ : ∃ m', m = m' + 1 := ⟨m - 1, by omega⟩
    exact steady_reconcile hd (ready_passes hd hr hfill (m' + 1)).1 _ hw
      (storageSettled_passes hd hr hfill m').served (ih wanted hw)

/-- **There is nothing left to do** from some pass on. -/
theorem exists_settled_passes (hrestarts : h.HasRestarts d)
    (hclock : ∀ dueMs n, ∃ m, n ≤ m ∧ dueMs ≤ clock m) :
    ∃ n, ∀ m, n ≤ m →
      (planReconcile d ((h.passes d triggers clock m).observe d)).IsSettled := by
  obtain ⟨n, hsteady⟩ := exists_steady_passes hd hr hfill hrestarts hclock
  refine ⟨n + 3, fun m hm => ?_⟩
  obtain ⟨k, rfl⟩ : ∃ k, m = k + 3 := ⟨m - 3, by omega⟩
  have hstorage := @storageSettled_passes _ _ hd _ hr triggers clock hfill (k + 2)
  exact isSettled_planReconcile hd (ready_passes hd hr hfill (k + 3)).1 hstorage.served
    (unnamedGone_passes hd hr hfill (k + 1)) (absentGone_passes hd hr hfill k)
    hstorage.checkpoints (hsteady (k + 3) (by omega))

end Passes

/-! ### A pass with nothing to do -/

/-- What a host holds is what it was: the records, the microVMs and their snapshots, the slots, and
the volumes with their devices and checkpoints. -/
structure Unchanged (h h' : Host) : Prop where
  records : h'.records = h.records
  vms : h'.vms = h.vms
  snapshots : h'.snapshots = h.snapshots
  allocator : h'.allocator = h.allocator
  images : h'.images = h.images
  devices : h'.devices = h.devices
  checkpoints : h'.checkpoints = h.checkpoints

section Settled

variable {d : HostDesiredState} {h : Host} (hplan : (planReconcile d (h.observe d)).IsSettled)
include hplan

/-- A settled plan provisions nothing. -/
theorem madeReady_of_settled (answers : PassAnswers) :
    (h.madeReady d answers).allocator = h.allocator ∧ (h.madeReady d answers).images = h.images ∧
      (h.madeReady d answers).devices = h.devices ∧
      (h.madeReady d answers).checkpoints = h.checkpoints := by
  have hsame : OnlyInstances h ((h.syncDesired d).applyStops (planReconcile d (h.observe d))) :=
    (OnlyInstances.syncDesired h d).trans (.applyStops _ _)
  have hnone : provisions (planReconcile d (h.observe d)) (h.observe d) answers.trigger = [] := by
    refine List.filterMap_eq_nil_iff.mpr fun p hp => ?_
    have hrest := hplan.2.1 p hp
    cases p <;> first | rfl | cases hrest
  unfold madeReady applyVolumes
  dsimp only
  rw [hnone]
  exact ⟨hsame.allocator, hsame.images, hsame.devices, hsame.checkpoints⟩

/-- **A pass with nothing to do leaves the storage alone.** -/
theorem storage_of_settled [Platform] (hd : d.Consistent) (hs : h.AllServed d) (trigger : Trigger)
    (nowMs : ℤ) :
    (h.reconcile d (.succeed trigger nowMs)).allocator = h.allocator ∧
      (h.reconcile d (.succeed trigger nowMs)).images = h.images ∧
      (h.reconcile d (.succeed trigger nowMs)).devices = h.devices ∧
      (h.reconcile d (.succeed trigger nowMs)).checkpoints = h.checkpoints := by
  obtain ⟨hallocator, himages, hdevices, hcheckpoints⟩ :=
    madeReady_of_settled hplan (.succeed trigger nowMs)
  have hserved : (h.madeReady d (.succeed trigger nowMs)).AllServed d := by
    intro v hv hpresent
    rw [Serves, slotOf, hallocator, himages, hdevices]
    exact hs v hv hpresent
  have hbegun := @OnlyInstances.sleepsAndHolds _ hd h _ hserved
  -- every phase of the pass folds over actions, and these do nothing
  have hstarts : h.afterStarts d trigger nowMs = h.beforeStarts d (.succeed trigger nowMs) := by
    have hnil : startsOf (planReconcile d (h.observe d)) = [] := by
      refine List.filterMap_eq_nil_iff.mpr fun p hp => ?_
      have hrest := hplan.1 p hp
      cases p <;> first | rfl | cases hrest
    rw [afterStarts, applyStarts, hnil]
    exact if_pos (.inl rfl)
  have hteardowns : ∀ h' : Host,
      h'.applyTeardowns (planReconcile d (h.observe d)) .succeed = h' := by
    refine Frame.foldl_eq_self fun h' p hp => ?_
    have hrest := hplan.2.1 p hp
    cases p <;> first | rfl | cases hrest
  have hchecks : ∀ h' : Host,
      h'.applyCheckpoints (planReconcile d (h.observe d)) .succeed = h' := by
    refine Frame.foldl_eq_self fun h' p hp => ?_
    have hrest := hplan.2.2 p hp
    cases p <;> first | rfl | cases hrest
  rw [reconcile_succeed h hd.apps, hteardowns, hchecks, hstarts]
  exact ⟨hbegun.allocator.trans hallocator, hbegun.images.trans himages,
    hbegun.devices.trans hdevices, hbegun.checkpoints.trans hcheckpoints⟩

/-- A pass with nothing to do leaves what the document does not name alone. -/
theorem view_of_settled_of_unnamed [Platform] (hd : d.appIds.Nodup) (hk : h.Keyed) {app : AppId}
    (happ : app ∉ d.appIds) (trigger : Trigger) (nowMs : ℤ) :
    ∃ slot, (h.reconcile d (.succeed trigger nowMs)).view app = (h.view app).withSlot slot := by
  refine view_reconcile_of_notMem hk _ hd rfl (fun hmem => ?_) happ
  obtain ⟨p, hp, hpapp⟩ := List.mem_map.mp hmem
  have hrest := hplan.1 p hp
  rcases (mem_planInstances_iff h d p).mp hp with ⟨wanted, hw, rfl⟩ | ⟨a, -, -, rfl⟩
  · rw [actionFor, appId_planInstance] at hpapp
    exact happ (List.mem_map.mpr ⟨wanted, hw, hpapp⟩)
  · unfold planUnnamed at hrest
    split at hrest <;> cases hrest

end Settled


/-- The records, microVMs, snapshots and slots are those that every app's share says. -/
theorem Unchanged.of_view {h h' : Host} (hview : ∀ app, h'.view app = h.view app)
    (hstorage : h'.allocator = h.allocator ∧ h'.images = h.images ∧ h'.devices = h.devices ∧
      h'.checkpoints = h.checkpoints) : Unchanged h h' where
  records := ExtTreeMap.ext_getElem? fun app => congrArg AppView.record (hview app)
  vms := ExtTreeMap.ext_getElem? fun app => congrArg AppView.vm (hview app)
  snapshots := ExtTreeMap.ext_getElem? fun app => congrArg AppView.snapshot (hview app)
  allocator := hstorage.1
  images := hstorage.2.1
  devices := hstorage.2.2.1
  checkpoints := hstorage.2.2.2

/-- **The second of two passes with nothing to do changes nothing.** -/
theorem unchanged_reconcile [Platform] {d : HostDesiredState} (hd : d.Consistent) {h : Host}
    (hr : h.Ready d) (hs : h.AllServed d) {trigger trigger' : Trigger} {nowMs nowMs' : ℤ}
    (hplan : (planReconcile d (h.observe d)).IsSettled)
    (hplan' : (planReconcile d
      ((h.reconcile d (.succeed trigger nowMs)).observe d)).IsSettled) :
    Unchanged (h.reconcile d (.succeed trigger nowMs))
      ((h.reconcile d (.succeed trigger nowMs)).reconcile d (.succeed trigger' nowMs')) := by
  have hfill := hs.fillable trigger
  have hr' := hr.reconcile hd hfill nowMs
  have hs' := (storageSettled_reconcile hd hr hfill nowMs).served
  have hstorage := storage_of_settled hplan' hd hs' trigger' nowMs'
  have hrest : ∀ {h : Host}, (planReconcile d (h.observe d)).IsSettled → ∀ wanted ∈ d.instances,
      (h.actionFor d wanted).isRest = true := fun hplan wanted hw =>
    hplan.1 _ ((mem_planInstances_iff _ d _).mpr (.inl ⟨wanted, hw, rfl⟩))
  refine .of_view (fun app => ?_) hstorage
  have hslot : AppView.slot (Host.view _ app) = AppView.slot (Host.view _ app) :=
    congrArg (fun allocator : SlotAllocator => allocator.slotOf app) hstorage.1
  by_cases happ : app ∈ d.appIds
  · obtain ⟨wanted, hw, rfl⟩ := List.mem_map.mp happ
    obtain ⟨slot, heffect⟩ := namedEffect_reconcile hd hr hfill nowMs hw
    obtain ⟨slot', heffect'⟩ := namedEffect_reconcile hd hr' (hs'.fillable trigger') nowMs' hw
    -- the first pass aligns what it leaves alone: the second finds the record it would write
    have haligned := heffect.aligned hd.apps hw (hrest hplan wanted hw)
      (h.plannedFor_actionFor d wanted)
    exact heffect'.eq_of_aligned hd.apps hw (hrest hplan' wanted hw)
      (plannedFor_actionFor _ d wanted) haligned hslot
  · obtain ⟨slot, hview⟩ :=
      view_of_settled_of_unnamed hplan' hd.apps hr'.keyed happ trigger' nowMs'
    rw [hview] at hslot ⊢
    rw [show slot = _ from hslot]
    rfl

/-- **The loop comes to rest**: from some pass on there is nothing left to do, and no further pass
changes what the host holds. -/
def ComesToRest [Platform] (h : Host) (d : HostDesiredState) (triggers : ℕ → Trigger)
    (clock : ℕ → ℤ) : Prop :=
  ∃ n, ∀ m, n ≤ m →
    (planReconcile d ((h.passes d triggers clock m).observe d)).IsSettled ∧
    Unchanged (h.passes d triggers clock m) (h.passes d triggers clock (m + 1))

/-- **The reconcile loop comes to rest** on a host that has what the document asks for, and
nothing to start that is out of restarts, where every adapter does what it is asked and the clock
goes on. -/
theorem converges [Platform] {d : HostDesiredState} (hd : d.Consistent) {h : Host} (hr : h.Ready d)
    (triggers : ℕ → Trigger) (clock : ℕ → ℤ) (hfill : h.Fillable d (triggers 0))
    (hrestarts : h.HasRestarts d) (hclock : ∀ dueMs n, ∃ m, n ≤ m ∧ dueMs ≤ clock m) :
    h.ComesToRest d triggers clock := by
  obtain ⟨n, hsettled⟩ := exists_settled_passes hd hr hfill hrestarts hclock
  refine ⟨n + 2, fun m hm => ⟨hsettled m (by omega), ?_⟩⟩
  obtain ⟨k, rfl⟩ : ∃ k, m = k + 2 := ⟨m - 2, by omega⟩
  exact unchanged_reconcile hd (ready_passes hd hr hfill (k + 1)).1
    (storageSettled_passes hd hr hfill k).served (hsettled (k + 1) (by omega))
    (hsettled (k + 2) (by omega))

end Host

/-! ### A small host comes to rest -/

/-- A document with one instance to be kept up on its volume. -/
def soleDocument (wanted : DesiredInstance) : HostDesiredState := ⟨[soleVolume], [wanted], [], []⟩

theorem consistent_soleDocument {wanted : DesiredInstance}
    (happ : wanted.appId = soleVolume.appId) (hvolume : wanted.volumeId = soleVolume.volumeId) :
    (soleDocument wanted).Consistent where
  apps := List.nodup_singleton _
  volumes := List.nodup_singleton _
  owners := List.nodup_singleton _
  instances := by
    intro i hi
    obtain rfl := List.mem_singleton.mp hi
    exact ⟨soleVolume, List.mem_singleton.mpr rfl, hvolume.symm, happ.symm, rfl⟩
  absent := by
    intro v hv habsent
    obtain rfl := List.mem_singleton.mp hv
    cases habsent
  checkpoints := fun a ha => absurd ha List.not_mem_nil

theorem ready_smallHost {wanted : DesiredInstance}
    (hmemory : wanted.config.resources.memoryMib ≤ 1024)
    (hingress : ingressRefusal wanted smallHost.config = none) :
    smallHost.Ready (soleDocument wanted) where
  keyed := Host.keyed_fresh _ _
  laid := by
    refine ⟨fun a b slot ha => ?_, [soleVolume.appId], ⟨by decide, fun app slot happ => ?_⟩, ?_⟩
    · simp [SlotAllocator.slotOf, smallHost, Host.fresh] at ha
    · simp [SlotAllocator.slotOf, smallHost, Host.fresh] at happ
    · intro v hv _
      rw [List.mem_singleton.mp hv]
      exact List.mem_singleton.mpr rfl
  deleted := fun volume r hr => by simp [smallHost, Host.fresh] at hr
  oneVolume := fun v _ r hr => by simp [Host.view, smallHost, Host.fresh] at hr
  memory := by simpa [soleDocument, smallHost, Host.fresh] using hmemory
  ingress := by
    intro i hi _
    rw [List.mem_singleton.mp hi]
    exact hingress

theorem fillable_smallHost (wanted : DesiredInstance) :
    smallHost.Fillable (soleDocument wanted) .change := by
  intro v hv _
  obtain rfl := List.mem_singleton.mp hv
  refine .inr ⟨⟨by decide, fun image himage => ?_⟩, Trigger.noConfusion⟩
  simp [smallHost, Host.fresh] at himage

/-- A clock that reads the number of the pass goes on. -/
theorem clock_goes_on (dueMs : ℤ) (n : ℕ) : ∃ m : ℕ, n ≤ m ∧ dueMs ≤ (m : ℤ) :=
  ⟨max n dueMs.toNat, by omega, by omega⟩

/-- A host that holds nothing brings the one app up and comes to rest. -/
theorem converges_smallHost :
    @Host.ComesToRest .plain smallHost (soleDocument soleInstance) (fun _ => .change)
      fun n => n := by
  refine @Host.converges .plain _ (consistent_soleDocument rfl rfl) _
    (ready_smallHost (by decide) (by decide)) _ _ (fillable_smallHost _) ?_ clock_goes_on
  intro wanted _ _ r hr
  simp [Host.view, smallHost, Host.fresh] at hr

/-! ### What keeps the loop from coming to rest -/

namespace Host

/-- Passes that change nothing leave the host they began with. -/
theorem passes_of_fixed [Platform] {h : Host} {d : HostDesiredState} {triggers : ℕ → Trigger}
    {clock : ℕ → ℤ}
    (hfixed : ∀ n, h.reconcile d (.succeed (triggers n) (clock n)) = h) (n : ℕ) :
    h.passes d triggers clock n = h := by
  induction n with
  | zero => rfl
  | succ n ih => rw [passes, ih, hfixed]

/-- A host that passes leave as it is, with something left to do, does not come to rest. -/
theorem not_comesToRest_of_fixed [Platform] {h : Host} {d : HostDesiredState}
    {triggers : ℕ → Trigger} {clock : ℕ → ℤ}
    (hfixed : ∀ n, h.reconcile d (.succeed (triggers n) (clock n)) = h)
    (hplan : ¬ (planReconcile d (h.observe d)).IsSettled) : ¬ h.ComesToRest d triggers clock := by
  rintro ⟨n, hrest⟩
  have hsettled := (hrest n le_rfl).1
  rw [passes_of_fixed hfixed] at hsettled
  exact hplan hsettled

/-- A checkpoint listed as present and as absent is to be taken or deleted by every pass. -/
theorem not_isSettled_of_conflicting {d : HostDesiredState} {a b : DesiredCheckpoint}
    (ha : a ∈ d.checkpoints) (hb : b ∈ d.checkpoints) (hid : a.checkpointId = b.checkpointId)
    (hpresent : a.desiredState = .present) (habsent : b.desiredState = .absent) (h : Host) :
    ¬ (planReconcile d (h.observe d)).IsSettled := by
  intro hplan
  have hsettled : ∀ c ∈ d.checkpoints, h.HasCheckpoint c := by
    intro c hc
    have hrest : (planCheckpoint (h.observe d) c).isRest = true :=
      hplan.2.2 _ (List.mem_map.mpr ⟨c, hc, rfl⟩)
    rw [← planCheckpoint_eq_none_iff hc]
    rw [planCheckpoint] at hrest ⊢
    split at hrest <;> first | rfl | cases hrest
  have htaken := (hsettled a ha).mpr hpresent
  rw [hid] at htaken
  have hboth := (hsettled b hb).mp htaken
  rw [habsent] at hboth
  cases hboth

/-- A guest's exit leaves a host what it has. -/
theorem Ready.guestExit {d : HostDesiredState} {h : Host} (hr : h.Ready d) (app : AppId)
    (exit : VmExit) : (h.guestExit app exit).Ready d :=
  ⟨hr.keyed, ⟨hr.laid.injective, hr.laid.enough⟩, hr.deleted, hr.oneVolume, hr.memory, hr.ingress⟩

end Host

/-- An instance that may be started once. -/
def startedOnce : DesiredInstance :=
  { soleInstance with
    config :=
      { soleInstance.config with restartPolicy := { defaultRestartPolicy with maxRestarts := 0 } } }

/-- The one start is spent, its guest has exited, and the next pass has said so. -/
def outOfRestartsHost : Host :=
  @Host.reconcile .plain
    ((@Host.reconcile .plain smallHost (soleDocument startedOnce) (.succeed .change 0)).guestExit
      soleInstance.appId (.code 1))
    (soleDocument startedOnce) (.succeed .change 0)

/-- An instance with a host name, for a host that runs no proxy. -/
def hostedInstance : DesiredInstance := { soleInstance with hostnames := ["app.test"] }

/-- A host without a proxy, after two passes over it. -/
def unreachableHost : Host :=
  @Host.reconcile .plain
    (@Host.reconcile .plain (.fresh { smallHost.config with proxyHttp := false } 4)
      (soleDocument hostedInstance) (.succeed .change 0))
    (soleDocument hostedInstance) (.succeed .change 0)

/-- A document with one volume and nothing to put on it. -/
def volumeDocument : HostDesiredState := ⟨[soleVolume], [], [], []⟩

/-- A host on which the volume's seed was refused, whatever is on report: the volume is served with
no filesystem on it. -/
def bareHost (reports : List ReportedVolume) (deleted : ExtTreeMap VolumeId ReportedVolume)
    (isolated : Bool) : Host :=
  { @Host.reconcile .plain smallHost volumeDocument
      { Host.PassAnswers.succeed .change 0 with provision := fun _ => .formatFailed "refused" } with
    volumeReports := reports
    deletedVolumes := deleted
    isolated := isolated }

/-- A checkpoint that is listed twice. -/
def listedCheckpoint (state : DesiredPresence) : DesiredCheckpoint where
  checkpointId := ⟨"checkpoint-1"⟩
  volumeId := ⟨"vol-1"⟩
  desiredState := state

/-- A tick leaves the bare volume as it is. -/
theorem reconcile_bareHost (reports : List ReportedVolume)
    (deleted : ExtTreeMap VolumeId ReportedVolume) (isolated : Bool) (nowMs : ℤ) :
    ∃ reports' deleted', @Host.reconcile .plain (bareHost reports deleted isolated) volumeDocument
      (.succeed .tick nowMs) = bareHost reports' deleted' true := by
  have hplan : planReconcile volumeDocument
      ((bareHost reports deleted isolated).observe volumeDocument) =
        ⟨[], [.provision soleVolume], [], []⟩ := by
    have hplan : planReconcile volumeDocument ((bareHost [] ∅ true).observe volumeDocument) =
        ⟨[], [.provision soleVolume], [], []⟩ := by decide +kernel
    exact hplan
  have hbare : isBare ((bareHost reports deleted isolated).observe volumeDocument)
      soleVolume.volumeId = true := by
    have hbare : isBare ((bareHost [] ∅ true).observe volumeDocument)
      soleVolume.volumeId = true := by decide +kernel
    exact hbare
  unfold Host.reconcile Host.reconcileAs Host.beforeStarts Host.madeReady Host.applyVolumes
  rw [if_neg (by simp [HostDesiredState.appIds, volumeDocument, Host.PassAnswers.succeed])]
  dsimp only [Host.PassAnswers.succeed]
  rw [hplan]
  have hnone : Host.provisions ⟨[], [.provision soleVolume], [], []⟩
      ((bareHost reports deleted isolated).observe volumeDocument) .tick = [] := by
    simp [Host.provisions, hbare]
  rw [hnone]
  exact ⟨_, _, rfl⟩

theorem bareHost_passes (clock : ℕ → ℤ) (n : ℕ) :
    ∃ reports deleted isolated, @Host.passes .plain (bareHost [] ∅ true) volumeDocument
      (fun _ => .tick) clock n = bareHost reports deleted isolated := by
  induction n with
  | zero => exact ⟨[], ∅, true, rfl⟩
  | succ n ih =>
    obtain ⟨reports, deleted, isolated, heq⟩ := ih
    obtain ⟨reports', deleted', hpass⟩ :=
      reconcile_bareHost reports deleted isolated (clock n)
    refine ⟨reports', deleted', true, ?_⟩
    show @Host.reconcile .plain (@Host.passes .plain (bareHost [] ∅ true) volumeDocument
      (fun _ => .tick) clock n) volumeDocument (.succeed .tick (clock n)) = _
    rw [heq, hpass]

set_option maxRecDepth 100000 in
/-- A pass leaves what is out of restarts as it is, whatever the clock reads. -/
theorem reconcile_outOfRestartsHost (nowMs : ℤ) :
    @Host.reconcile .plain outOfRestartsHost (soleDocument startedOnce) (.succeed .change nowMs) =
      outOfRestartsHost := by
  with_unfolding_all exact Eq.refl _

set_option maxRecDepth 100000 in
/-- A pass leaves what cannot be put within reach as it is. -/
theorem reconcile_unreachableHost (nowMs : ℤ) :
    @Host.reconcile .plain unreachableHost (soleDocument hostedInstance)
      (.succeed .change nowMs) = unreachableHost := by
  with_unfolding_all exact Eq.refl _

/-- The host that is out of restarts has everything else its document asks for. -/
theorem ready_outOfRestartsHost :
    outOfRestartsHost.Ready (soleDocument startedOnce) ∧
      outOfRestartsHost.AllServed (soleDocument startedOnce) := by
  have hd : (soleDocument startedOnce).Consistent := consistent_soleDocument rfl rfl
  have hsmall : smallHost.Ready (soleDocument startedOnce) :=
    ready_smallHost (by decide) (by decide)
  have hfill : smallHost.Fillable (soleDocument startedOnce) .change := fillable_smallHost _
  have hbooted := @Host.Ready.reconcile .plain _ hd _ hsmall .change hfill 0
  have hserved := (@Host.storageSettled_reconcile .plain _ hd _ hsmall .change hfill 0).served
  have hexited := hbooted.guestExit soleInstance.appId (.code 1)
  have hserved' : (Host.guestExit _ soleInstance.appId (.code 1)).AllServed _ :=
    fun v hv hpresent => hserved v hv hpresent
  exact ⟨@Host.Ready.reconcile .plain _ hd _ hexited .change (hserved'.fillable _) 0,
    (@Host.storageSettled_reconcile .plain _ hd _ hexited .change (hserved'.fillable _) 0).served⟩

/-- **The loop does not come to rest** with an instance that is out of restarts, though the host has
everything the document asks for; nor with an instance the host cannot put within reach, with a
checkpoint listed as present and as absent, or with a bare volume and nothing but ticks. -/
theorem not_comesToRest :
    ((soleDocument startedOnce).Consistent ∧ outOfRestartsHost.Ready (soleDocument startedOnce) ∧
      outOfRestartsHost.AllServed (soleDocument startedOnce) ∧
      ¬ @Host.ComesToRest .plain outOfRestartsHost (soleDocument startedOnce) (fun _ => .change)
        fun n => n) ∧
    ¬ @Host.ComesToRest .plain unreachableHost (soleDocument hostedInstance) (fun _ => .change)
      (fun n => n) ∧
    ¬ @Host.ComesToRest .plain smallHost
      ⟨[], [], [listedCheckpoint .present, listedCheckpoint .absent], []⟩ (fun _ => .change)
      (fun n => n) ∧
    ¬ @Host.ComesToRest .plain (bareHost [] ∅ true) volumeDocument (fun _ => .tick)
      fun n => n := by
  refine ⟨⟨consistent_soleDocument rfl rfl, ready_outOfRestartsHost.1, ready_outOfRestartsHost.2,
    ?_⟩, ?_, ?_, ?_⟩
  · exact @Host.not_comesToRest_of_fixed .plain _ _ _ _
      (fun n => reconcile_outOfRestartsHost n) (by decide +kernel)
  · exact @Host.not_comesToRest_of_fixed .plain _ _ _ _
      (fun n => reconcile_unreachableHost n) (by decide +kernel)
  · rintro ⟨n, hrest⟩
    exact Host.not_isSettled_of_conflicting (a := listedCheckpoint .present)
      (b := listedCheckpoint .absent) List.mem_cons_self
      (List.mem_cons_of_mem _ List.mem_cons_self) rfl rfl rfl _ (hrest n le_rfl).1
  · rintro ⟨n, hrest⟩
    obtain ⟨reports, deleted, isolated, heq⟩ := bareHost_passes (fun n => n) n
    have hsettled := (hrest n le_rfl).1
    rw [heq] at hsettled
    have hnot : ¬ (planReconcile volumeDocument
        ((bareHost [] ∅ true).observe volumeDocument)).IsSettled := by decide +kernel
    exact hnot hsettled

end Nibrunner

import Nibrunner.Reconcile.SuccessfulPass

/-!
# Instances at rest

What a pass whose adapters all succeed leaves of one instance of its document, and when it has
nothing to do about it.

* `PlannedFor`: why an action is planned for an instance;
* `AppView.Steady`: nothing is left to do about an instance whose volume can be read, which stays so
  (`steady_reconcile`);
* `AppView.Waiting`: an instance that is not steady after a pass is down and waits for its next
  attempt, and the first pass whose clock is past that brings it up (`due_reconcile`);
* `AppView.Aligned`: what a pass with nothing to do leaves of a record, which the next such pass
  does not change (`NamedEffect.eq_of_aligned`).
-/

namespace Nibrunner

open Std

/-! ### What is observed of one app -/

/-- What a host observes of an app, from its share of the host. -/
def AppView.observed (app : AppId) (v : AppView) : ObservedInstance where
  appId := app
  volumeId := v.record.map (·.volumeId)
  deploymentId := v.record.map (·.deploymentId)
  present := (v.vm.elim unknownVm Vm.status).loaded || v.record.isSome
  running := (v.vm.elim unknownVm Vm.status).active
  exited := !(v.vm.elim unknownVm Vm.status).active &&
    (v.vm.elim unknownVm Vm.status).startedThisBoot &&
    v.record.any fun r => r.startedAt.isSome && !r.stopRequested
  refused := v.record.any fun r =>
    (r.state = .failed || r.state = .pending) && r.startedAt.isNone &&
      r.startAttempts = noStartAttempts

theorem Host.observeInstance_eq (h : Host) (app : AppId) :
    h.observeInstance app = (h.view app).observed app := rfl

namespace AppView

variable {app : AppId} {v : AppView}

theorem running_observed (app : AppId) (v : AppView) : (v.observed app).running = v.isUp := by
  unfold observed isUp
  cases v.vm <;> rfl

/-- The document's fields on the record are not observed. -/
theorem observed_synced (d : HostDesiredState) (app : AppId) (v : AppView) :
    (v.synced d app).observed app = v.observed app := by
  unfold synced observed
  cases v.record with
  | none => rfl
  | some r => cases d.instances.find? fun wanted => wanted.appId = app <;> rfl

/-- An app with a record is held by the host. -/
theorem present_observed_of_record {r : InstanceRecord} (hr : v.record = some r) :
    (v.observed app).present = true := by
  simp [observed, hr]

/-- An app with a microVM is held by the host. -/
theorem present_observed_of_vm {vm : Vm} (hvm : v.vm = some vm) :
    (v.observed app).present = true := by
  simp [observed, hvm, Vm.status]

theorem present_observed_of_up (hup : v.isUp = true) : (v.observed app).present = true := by
  cases hvm : v.vm with
  | none =>
    rw [isUp, hvm] at hup
    cases hup
  | some vm => exact present_observed_of_vm hvm

/-- Nothing is held of an app that is observed absent. -/
theorem eq_none_of_absent (habsent : (v.observed app).present = false) :
    v.vm = none ∧ v.record = none := by
  cases hvm : v.vm with
  | some vm =>
    rw [present_observed_of_vm hvm] at habsent
    cases habsent
  | none =>
    cases hr : v.record with
    | some r =>
      rw [present_observed_of_record hr] at habsent
      cases habsent
    | none => exact ⟨rfl, rfl⟩

/-- What is observed of a deployment is read from the record. -/
theorem exists_record {deployment : DeploymentId}
    (hdeployment : (v.observed app).deploymentId = some deployment) :
    ∃ r, v.record = some r ∧ r.deploymentId = deployment :=
  Option.map_eq_some_iff.mp hdeployment

end AppView

/-! ### At rest -/

/-- The action does nothing but keep an app asleep that is. -/
def InstancePlan.isRest : InstancePlan → Bool
  | sleep _ | none _ => true
  | _ => false

namespace AppView

/-- **Nothing is left to do about the instance** where its volume can be read. -/
def Steady (wanted : DesiredInstance) (v : AppView) : Prop :=
  (planInstance wanted (some (v.observed wanted.appId)) false).isRest = true

/-- The instance is down, on the listed deployment, and may be started again from `dueMs` on. -/
def Waiting (wanted : DesiredInstance) [Platform] (dueMs : ℤ) (v : AppView) : Prop :=
  wanted.desiredState = .running ∧ v.isUp = false ∧
    ∃ r, v.record = some r ∧ r.deploymentId = wanted.deploymentId ∧
      r.startAttempts.attempts ≤ wanted.config.restartPolicy.maxRestarts ∧
      ∀ nowMs, dueMs ≤ nowMs →
        isReadyToRetry r.startAttempts nowMs wanted.config.restartPolicy = true

variable {wanted : DesiredInstance} {v : AppView}

/-- An instance on the listed deployment is steady while it is up. -/
theorem Steady.of_up (hstate : wanted.desiredState ≠ .stopped) (hup : v.isUp = true)
    {r : InstanceRecord} (hr : v.record = some r) (hr' : r.deploymentId = wanted.deploymentId) :
    v.Steady wanted := by
  have hdeployment : (v.observed wanted.appId).deploymentId = some wanted.deploymentId := by
    simp [observed, hr, hr']
  rw [Steady, planInstance_of_present wanted (present_observed_of_up hup), planPresentInstance]
  rw [← running_observed wanted.appId] at hup
  cases hwanted : wanted.desiredState with
  | stopped => exact absurd hwanted hstate
  | onRequest | running => simp [hdeployment, hup, InstancePlan.isRest]

/-- An instance that is to be stopped is steady once it is down. -/
theorem Steady.of_stopped (hstate : wanted.desiredState = .stopped) (hdown : v.isUp = false)
    (hpresent : (v.observed wanted.appId).present = true)
    (hrefused : (v.observed wanted.appId).refused = false) : v.Steady wanted := by
  rw [← running_observed wanted.appId] at hdown
  rw [Steady, planInstance_of_present wanted hpresent, planPresentInstance, hstate]
  simp [hdown, hrefused, InstancePlan.isRest]

/-- An instance that is to be stopped is steady once it was. -/
theorem Steady.stop (hstate : wanted.desiredState = .stopped) (hup : v.isUp = true) {slot : ℕ} :
    (v.stop.withSlot (some slot)).Steady wanted := by
  refine .of_stopped hstate (isUp_stop v) ?_ ?_
  · cases hvm : v.vm with
    | none =>
      rw [isUp, hvm] at hup
      cases hup
    | some vm =>
      refine @present_observed_of_vm _ _ vm.stopped ?_
      simp [withSlot, AppView.stop, hvm]
  · simp only [observed, withSlot, AppView.stop]
    cases v.record <;> simp

/-- An instance that is to be asked for is steady while it sleeps. -/
theorem Steady.of_asleep (hstate : wanted.desiredState = .onRequest) (hdown : v.isUp = false)
    {r : InstanceRecord} (hr : v.record = some r) (hr' : r.deploymentId = wanted.deploymentId)
    (hrefused : (v.observed wanted.appId).refused = false) : v.Steady wanted := by
  have hdeployment : (v.observed wanted.appId).deploymentId = some wanted.deploymentId := by
    simp [observed, hr, hr']
  rw [← running_observed wanted.appId] at hdown
  rw [Steady, planInstance_of_present wanted (present_observed_of_record hr), planPresentInstance,
    hstate]
  simp [hdeployment, hdown, hrefused, InstancePlan.isRest]

end AppView

/-! ### Why an action is planned -/

/-- What an action planned for an instance says about what was observed of it. -/
inductive PlannedFor (wanted : DesiredInstance) (o : ObservedInstance) (volumeLost : Bool) :
    InstancePlan → Prop where
  | held (hstate : wanted.desiredState = .stopped)
      (hdown : o.present = false ∨ o.running = false) :
      PlannedFor wanted o volumeLost (.hold wanted)
  | stopped (hstate : wanted.desiredState = .stopped) (hup : o.running = true) :
      PlannedFor wanted o volumeLost (.stop wanted.appId .desiredStopped)
  | down (hstate : wanted.desiredState = .stopped) (hpresent : o.present = true)
      (hdown : o.running = false) (hrefused : o.refused = false) :
      PlannedFor wanted o volumeLost (.none wanted.appId)
  | arrived (hstate : wanted.desiredState ≠ .stopped) (habsent : o.present = false) :
      PlannedFor wanted o volumeLost (.start wanted)
  | replaced (hstate : wanted.desiredState ≠ .stopped) :
      PlannedFor wanted o volumeLost (.replace wanted)
  | recovered (hstate : wanted.desiredState ≠ .stopped) (hlost : volumeLost = true) :
      PlannedFor wanted o volumeLost (.recover wanted)
  | up (hstate : wanted.desiredState ≠ .stopped) (hpresent : o.present = true)
      (hdeployment : o.deploymentId = some wanted.deploymentId) (hup : o.running = true)
      (hread : volumeLost = false) : PlannedFor wanted o volumeLost (.none wanted.appId)
  | tried (hstate : wanted.desiredState = .onRequest) (hpresent : o.present = true)
      (hrefused : o.refused = true) : PlannedFor wanted o volumeLost (.start wanted)
  | asleep (hstate : wanted.desiredState = .onRequest) (hpresent : o.present = true)
      (hdeployment : o.deploymentId = some wanted.deploymentId) (hdown : o.running = false)
      (hrefused : o.refused = false) : PlannedFor wanted o volumeLost (.sleep wanted)
  | restarted (hstate : wanted.desiredState = .running) (hpresent : o.present = true)
      (hdeployment : o.deploymentId = some wanted.deploymentId) (hdown : o.running = false) :
      PlannedFor wanted o volumeLost (.start wanted)

theorem plannedFor_planInstance (wanted : DesiredInstance) (o : ObservedInstance)
    (volumeLost : Bool) :
    PlannedFor wanted o volumeLost (planInstance wanted (some o) volumeLost) := by
  -- in the order of the plan: is it present, what is wanted, which deployment, is it up
  cases hpresent : o.present with
  | false =>
    rw [planInstance_of_absent wanted (by simp [hpresent])]
    split
    · exact .held ‹_› (.inl hpresent)
    · exact .arrived ‹_› hpresent
  | true =>
    rw [planInstance_of_present wanted hpresent, planPresentInstance]
    cases hstate : wanted.desiredState with
    | stopped =>
      cases hup : o.running with
      | true => exact .stopped hstate hup
      | false =>
        cases hrefused : o.refused with
        | true => exact .held hstate (.inr hup)
        | false => exact .down hstate hpresent hup hrefused
    | onRequest =>
      have hne : wanted.desiredState ≠ .stopped := by simp [hstate]
      by_cases hdeployment : o.deploymentId = some wanted.deploymentId
      · cases hup : o.running <;> cases volumeLost <;> cases hrefused : o.refused <;>
          simp only [hdeployment, ne_eq, not_true_eq_false, if_false, if_true, Bool.false_eq_true]
        · exact .asleep hstate hpresent hdeployment hup hrefused
        · exact .tried hstate hpresent hrefused
        · exact .asleep hstate hpresent hdeployment hup hrefused
        · exact .tried hstate hpresent hrefused
        · exact .up hne hpresent hdeployment hup rfl
        · exact .up hne hpresent hdeployment hup rfl
        · exact .recovered hne rfl
        · exact .recovered hne rfl
      · simp only [ne_eq, hdeployment, not_false_eq_true, if_true]
        exact .replaced hne
    | running =>
      have hne : wanted.desiredState ≠ .stopped := by simp [hstate]
      by_cases hdeployment : o.deploymentId = some wanted.deploymentId
      · cases hup : o.running <;> cases volumeLost <;> cases hexited : o.exited <;>
          simp only [hdeployment, ne_eq, not_true_eq_false, if_false, if_true, Bool.false_eq_true,
            Bool.and_true, Bool.and_false]
        · exact .restarted hstate hpresent hdeployment hup
        · exact .restarted hstate hpresent hdeployment hup
        · exact .restarted hstate hpresent hdeployment hup
        · exact .recovered hne rfl
        · exact .up hne hpresent hdeployment hup rfl
        · exact .up hne hpresent hdeployment hup rfl
        · exact .recovered hne rfl
        · exact .recovered hne rfl
      · simp only [ne_eq, hdeployment, not_false_eq_true, if_true]
        exact .replaced hne

/-! ### One pass, on an app the document names -/

/-- A backoff is done some time. -/
theorem exists_isReadyToRetry [Platform] (window : AttemptWindow) (policy : RestartPolicy) :
    ∃ dueMs, ∀ nowMs, dueMs ≤ nowMs → isReadyToRetry window nowMs policy = true := by
  cases hlast : window.lastAttemptAtMs with
  | none => exact ⟨0, fun nowMs _ => by simp [isReadyToRetry, hlast]⟩
  | some last =>
    refine ⟨last + MachineInt.asI64 (backoffDelayMs window.attempts policy), fun nowMs hle => ?_⟩
    simp only [isReadyToRetry, hlast, decide_eq_true_eq]
    omega

section NamedEffect

variable [Platform] {wanted : DesiredInstance} {v v' : AppView} {nowMs : ℤ}

/-- What a start brings up is steady. -/
theorem Started.steady (he : Started wanted nowMs v v') (hstate : wanted.desiredState ≠ .stopped)
    (href : startRefused v.record nowMs wanted = none) : v'.Steady wanted := by
  cases he with
  | booted href slot hslot => exact .of_up hstate rfl rfl rfl
  | refused r said hr hne => exact absurd href hne

/-- A record nothing was spent on forbids no start. -/
theorem startRefused_eq_none {r : InstanceRecord}
    (hattempts : r.startAttempts.attempts ≤ wanted.config.restartPolicy.maxRestarts)
    (hready : isReadyToRetry r.startAttempts nowMs wanted.config.restartPolicy = true) :
    startRefused (some r) nowMs wanted = none := by
  simp only [startRefused, Option.bind_some]
  rw [if_neg (Nat.not_lt.mpr hattempts), if_pos hready]

/-- The document's fields on a record change nothing about what forbids its start. -/
theorem startRefused_synced (record : Option InstanceRecord) :
    startRefused (record.map (Host.syncFields wanted)) nowMs wanted =
      startRefused record nowMs wanted := by
  cases record <;> rfl

/-- A start that was refused before an attempt was spent on it may be tried again. -/
theorem startRefused_of_refused (hrefused : (v.observed wanted.appId).refused = true) :
    startRefused v.record nowMs wanted = none := by
  cases hr : v.record with
  | none => rfl
  | some r =>
    simp only [AppView.observed, hr, Option.any_some, Bool.and_eq_true,
      decide_eq_true_eq] at hrefused
    refine startRefused_eq_none ?_ ?_
    · rw [hrefused.2]
      exact Nat.zero_le _
    · rw [hrefused.2]
      rfl

/-- A refused start leaves an instance that waits waiting, and one that is due is started. -/
theorem Started.of_waiting {dueMs : ℤ} (hv : v.Waiting wanted dueMs)
    (he : Started wanted nowMs v v') :
    (v'.Steady wanted ∨ v'.Waiting wanted dueMs) ∧ (dueMs ≤ nowMs → v'.Steady wanted) := by
  obtain ⟨hstate, hdown, r, hr, hdeployment, hattempts, hdue⟩ := hv
  have hne : wanted.desiredState ≠ .stopped := by simp [hstate]
  constructor
  · cases he with
    | booted href slot hslot => exact .inl (.of_up hne rfl rfl rfl)
    | refused r' said hr' href =>
      obtain rfl : r = r' := Option.some.inj (hr.symm.trans hr')
      exact .inr ⟨hstate, hdown, _, rfl, hdeployment, hattempts, hdue⟩
  · intro hle
    refine he.steady hne ?_
    rw [hr]
    exact startRefused_eq_none hattempts (hdue nowMs hle)

variable {d : HostDesiredState} (hd : d.appIds.Nodup) (hw : wanted ∈ d.instances)
include hd hw

theorem AppView.Waiting.synced {dueMs : ℤ} (hv : v.Waiting wanted dueMs) :
    (v.synced d wanted.appId).Waiting wanted dueMs := by
  obtain ⟨hstate, hdown, r, hr, hrest⟩ := hv
  refine ⟨hstate, hdown, Host.syncFields wanted r, ?_, hrest⟩
  rw [AppView.synced_of_mem hd hw, hr]
  rfl

/-- **One pass settles an instance, or leaves it waiting for its next attempt.** -/
theorem NamedEffect.steady_or_waiting {volumeLost : Bool} {p : InstancePlan} {slot : ℕ}
    (hplan : PlannedFor wanted (v.observed wanted.appId) volumeLost p)
    (he : NamedEffect wanted nowMs
      (((v.synced d wanted.appId).afterStop p).withSlot (some slot)) p v')
    (hrestarts : p = .start wanted → ∀ r, v.record = some r →
      r.startAttempts.attempts ≤ wanted.config.restartPolicy.maxRestarts) :
    v'.Steady wanted ∨ p = .start wanted ∧ ∃ dueMs, v'.Waiting wanted dueMs := by
  have hsynced : (v.synced d wanted.appId).record = v.record.map (Host.syncFields wanted) := by
    rw [AppView.synced_of_mem hd hw]
  -- a start is measured against the record as it was before the document's fields went onto it
  have hstarted : ∀ {v' : AppView}, wanted.desiredState ≠ .stopped →
      Started wanted nowMs ((v.synced d wanted.appId).withSlot (some slot)) v' →
      startRefused v.record nowMs wanted = none → v'.Steady wanted := by
    intro v' hstate he href
    refine he.steady hstate ?_
    show startRefused (v.synced d wanted.appId).record nowMs wanted = none
    rw [hsynced, startRefused_synced, href]
  cases hplan with
  | held hstate hdown =>
    have hvm : v.isUp = false := by
      rcases hdown with habsent | hdown
      · rw [AppView.isUp, (AppView.eq_none_of_absent habsent).1]
        rfl
      · rwa [AppView.running_observed] at hdown
    cases he with
    | hold held hheld =>
      exact .inl (.of_stopped hstate hvm (AppView.present_observed_of_record rfl) rfl)
    | started p hp => cases hp
  | stopped hstate hup =>
    rw [← AppView.observed_synced d, AppView.running_observed] at hup
    cases he with
    | stop app reason => exact .inl (AppView.Steady.stop hstate hup)
    | started p hp => cases hp
  | down hstate hpresent hdown hrefused =>
    rw [← AppView.observed_synced d] at hpresent hdown hrefused
    rw [AppView.running_observed] at hdown
    cases he with
    | leftAlone => exact .inl (.of_stopped hstate hdown hpresent hrefused)
    | started p hp => cases hp
  | arrived hstate habsent =>
    cases he with
    | started p hp v' he =>
      refine .inl (hstarted hstate he ?_)
      rw [(AppView.eq_none_of_absent habsent).2]
      rfl
  | replaced hstate | recovered hstate hlost =>
    cases he with
    | started p hp v' he => exact .inl (he.steady hstate rfl)
  | up hstate hpresent hdeployment hup hread =>
    rw [← AppView.observed_synced d] at hdeployment
    obtain ⟨r, hr, hsame⟩ := AppView.exists_record hdeployment
    rw [AppView.running_observed] at hup
    cases he with
    | leftAlone => exact .inl (.of_up hstate hup hr hsame)
    | started p hp => cases hp
  | tried hstate hpresent hrefused =>
    cases he with
    | started p hp v' he =>
      exact .inl (hstarted (by simp [hstate]) he (startRefused_of_refused hrefused))
  | asleep hstate hpresent hdeployment hdown hrefused =>
    obtain ⟨r, hr, -⟩ := AppView.exists_record hdeployment
    rw [AppView.running_observed] at hdown
    cases he with
    | sleep held hheld =>
      refine .inl (.of_asleep hstate hdown rfl rfl ?_)
      rw [← hrefused]
      simp only [AppView.observed, AppView.withSlot, AppView.afterStop, hsynced, hr]
      rfl
    | started p hp => cases hp
  | restarted hstate hpresent hdeployment hdown =>
    obtain ⟨r, hr, hsame⟩ := AppView.exists_record hdeployment
    rw [AppView.running_observed] at hdown
    obtain ⟨dueMs, hdue⟩ := exists_isReadyToRetry r.startAttempts wanted.config.restartPolicy
    have hwaiting : v.Waiting wanted dueMs :=
      ⟨hstate, hdown, r, hr, hsame, hrestarts rfl r hr, hdue⟩
    cases he with
    | started p hp v' he =>
      refine ((Started.of_waiting (v := AppView.withSlot _ (some slot)) (hwaiting.synced hd hw)
        he).1).imp_right fun h => ⟨rfl, dueMs, h⟩

end NamedEffect

/-- The app is steady, or may be started again from `dueMs` on. -/
def AppView.Due [Platform] (wanted : DesiredInstance) (dueMs : ℤ) (v : AppView) : Prop :=
  v.Steady wanted ∨ v.Waiting wanted dueMs

/-- A later moment is as good. -/
theorem AppView.Due.mono [Platform] {wanted : DesiredInstance} {dueMs dueMs' : ℤ} {v : AppView}
    (hv : v.Due wanted dueMs) (hle : dueMs ≤ dueMs') : v.Due wanted dueMs' := by
  refine hv.imp_right fun ⟨hstate, hdown, r, hr, hdeployment, hattempts, hdue⟩ => ?_
  exact ⟨hstate, hdown, r, hr, hdeployment, hattempts, fun nowMs h => hdue nowMs (hle.trans h)⟩

namespace Host

/-- Nothing that is to be started is out of restarts. -/
def HasRestarts (d : HostDesiredState) (h : Host) : Prop :=
  ∀ wanted ∈ d.instances, h.actionFor d wanted = .start wanted →
    ∀ r, (h.view wanted.appId).record = some r →
      r.startAttempts.attempts ≤ wanted.config.restartPolicy.maxRestarts

theorem plannedFor_actionFor (h : Host) (d : HostDesiredState) (wanted : DesiredInstance) :
    PlannedFor wanted ((h.view wanted.appId).observed wanted.appId)
      (wanted.volumeId ∈ (h.observe d).lostVolumes) (h.actionFor d wanted) :=
  plannedFor_planInstance _ _ _

/-- Where every volume is ready, an action is planned from the app's share alone. -/
theorem actionFor_of_served {d : HostDesiredState} (hd : d.Consistent) {h : Host}
    (hs : h.AllServed d) {wanted : DesiredInstance} (hw : wanted ∈ d.instances) :
    h.actionFor d wanted =
      planInstance wanted (some ((h.view wanted.appId).observed wanted.appId)) false := by
  obtain ⟨v, hv, hvolume, -, hpresent⟩ := hd.instances wanted hw
  have hread := (hs v hv hpresent).notMem_lostVolumes hd.volumes hv
  rw [hvolume] at hread
  rw [actionFor, observeInstance_eq, decide_eq_false hread]

section Named

variable [Platform] {d : HostDesiredState} (hd : d.Consistent) {h : Host} (hr : h.Ready d)
  {trigger : Trigger} (hfill : h.Fillable d trigger) (nowMs : ℤ) {wanted : DesiredInstance}
  (hw : wanted ∈ d.instances)
include hd hr hw

/-- After one pass an instance is steady, or has a moment it is due. -/
theorem exists_due_reconcile (hfill : h.Fillable d trigger) (hrestarts : h.HasRestarts d) :
    ∃ dueMs, ((h.reconcile d (.succeed trigger nowMs)).view wanted.appId).Due wanted dueMs := by
  obtain ⟨slot, heffect⟩ := namedEffect_reconcile hd hr hfill nowMs hw
  have hplan := h.plannedFor_actionFor d wanted
  rcases heffect.steady_or_waiting hd.apps hw hplan (hrestarts wanted hw) with
    hsteady | ⟨-, dueMs, hwaiting⟩
  · exact ⟨0, .inl hsteady⟩
  · exact ⟨dueMs, .inr hwaiting⟩

variable (hs : h.AllServed d)
include hs

/-- A steady instance stays steady. -/
theorem steady_reconcile (hsteady : (h.view wanted.appId).Steady wanted) :
    ((h.reconcile d (.succeed trigger nowMs)).view wanted.appId).Steady wanted := by
  obtain ⟨slot, heffect⟩ := namedEffect_reconcile hd hr (hs.fillable trigger) nowMs hw
  have hrest : (h.actionFor d wanted).isRest = true := by
    rw [actionFor_of_served hd hs hw]
    exact hsteady
  have hne : h.actionFor d wanted ≠ .start wanted := by
    intro heq
    rw [heq] at hrest
    cases hrest
  refine (heffect.steady_or_waiting hd.apps hw (h.plannedFor_actionFor d wanted)
    fun hstart => absurd hstart hne).resolve_right fun hwaiting => hne hwaiting.1

/-- An instance stays due, and a pass past its moment makes it steady. -/
theorem due_reconcile {dueMs : ℤ} (hdue : (h.view wanted.appId).Due wanted dueMs) :
    ((h.reconcile d (.succeed trigger nowMs)).view wanted.appId).Due wanted dueMs ∧
      (dueMs ≤ nowMs →
        ((h.reconcile d (.succeed trigger nowMs)).view wanted.appId).Steady wanted) := by
  rcases hdue with hsteady | hwaiting
  · have hsteady' : ((h.reconcile d (.succeed trigger nowMs)).view wanted.appId).Steady wanted :=
      steady_reconcile hd hr nowMs hw hs hsteady
    exact ⟨.inl hsteady', fun _ => hsteady'⟩
  · have hstart : h.actionFor d wanted = .start wanted := by
      obtain ⟨hstate, hdown, r, hrecord, hsame, -⟩ := hwaiting
      have hpresent := @AppView.present_observed_of_record wanted.appId _ _ hrecord
      have hdeployment : ((h.view wanted.appId).observed wanted.appId).deploymentId =
          some wanted.deploymentId := Option.map_eq_some_iff.mpr ⟨r, hrecord, hsame⟩
      rw [← AppView.running_observed wanted.appId] at hdown
      rw [actionFor_of_served hd hs hw, planInstance_of_present wanted hpresent,
        planPresentInstance, hstate]
      simp [hdown, hdeployment]
    obtain ⟨slot, heffect⟩ := namedEffect_reconcile hd hr (hs.fillable trigger) nowMs hw
    rw [hstart] at heffect
    generalize (h.reconcile d (.succeed trigger nowMs)).view wanted.appId = v' at heffect
    cases heffect with
    | started p hp v' he =>
      exact Started.of_waiting
        (v := ((h.view wanted.appId).synced d wanted.appId).withSlot (some slot))
        (hwaiting.synced hd.apps hw) he

end Named

end Host

/-! ### A pass with nothing to do -/

/-- What a pass with nothing to do leaves of an instance: the document's fields on the record, and
those of the slot too where the instance sleeps. -/
structure AppView.Aligned (wanted : DesiredInstance) (v : AppView) : Prop where
  synced : v.record.map (Host.syncFields wanted) = v.record
  asleep : wanted.desiredState = .onRequest → v.isUp = false → ∀ slot, v.slot = some slot →
    some (adoptedRecord v.record wanted (describeSlot slot wanted.appId) .idle) = v.record

section Rest

variable [Platform] {d : HostDesiredState} (hd : d.appIds.Nodup) {wanted : DesiredInstance}
  (hw : wanted ∈ d.instances) {v v' : AppView} {volumeLost : Bool} {p : InstancePlan} {slot : ℕ}
  {nowMs : ℤ} (hrest : p.isRest = true)
  (hplan : PlannedFor wanted (v.observed wanted.appId) volumeLost p)
  (he : NamedEffect wanted nowMs
    (((v.synced d wanted.appId).afterStop p).withSlot (some slot)) p v')
include hd hw hrest hplan he

/-- A pass with nothing to do leaves an instance left alone, or asleep. -/
theorem NamedEffect.rest_cases :
    ((wanted.desiredState = .onRequest → v.isUp = true) ∧
        v' = { v with record := v.record.map (Host.syncFields wanted), slot := some slot }) ∨
      (wanted.desiredState = .onRequest ∧ v.isUp = false ∧
        v' =
          { v with
            record := some (adoptedRecord (v.record.map (Host.syncFields wanted)) wanted
              (describeSlot slot wanted.appId) .idle)
            slot := some slot }) := by
  have hsynced := AppView.synced_of_mem hd hw v
  -- the plans with something to do are not at rest
  cases hplan with
  | held | stopped | arrived | replaced | recovered | tried | restarted => cases hrest
  | down hstate =>
    cases he with
    | started p hp => cases hp
    | leftAlone =>
      refine .inl ⟨fun honRequest => ?_, by rw [hsynced]; rfl⟩
      rw [hstate] at honRequest
      cases honRequest
  | up hstate hpresent hdeployment hup =>
    cases he with
    | started p hp => cases hp
    | leftAlone =>
      rw [AppView.running_observed] at hup
      exact .inl ⟨fun _ => hup, by rw [hsynced]; rfl⟩
  | asleep hstate hpresent hdeployment hdown =>
    cases he with
    | started p hp => cases hp
    | sleep held hheld =>
      rw [AppView.running_observed] at hdown
      cases hheld
      exact .inr ⟨hstate, hdown, by rw [hsynced]; rfl⟩

theorem NamedEffect.aligned : v'.Aligned wanted := by
  rcases he.rest_cases hd hw hrest hplan with ⟨hup, rfl⟩ | ⟨-, -, rfl⟩
  · constructor
    · cases v.record <;> rfl
    · intro hstate hdown
      have hup' : v.isUp = true := hup hstate
      exact absurd (hup'.symm.trans hdown) Bool.noConfusion
  · constructor
    · rfl
    · intro _ _ held hheld
      cases hheld
      rfl

/-- **A second pass with nothing to do changes nothing of an instance.** -/
theorem NamedEffect.eq_of_aligned (hv : v.Aligned wanted) (hslot : v'.slot = v.slot) : v' = v := by
  rcases he.rest_cases hd hw hrest hplan with ⟨-, rfl⟩ | ⟨hstate, hdown, rfl⟩
  · rw [hv.synced, show some slot = v.slot from hslot]
  · rw [hv.synced, hv.asleep hstate hdown slot hslot.symm, show some slot = v.slot from hslot]

end Rest

end Nibrunner

import Nibrunner.ForStd.KeyedSum
import Nibrunner.Reconcile.PlanSafety
import Nibrunner.Reconcile.System

/-!
# Memory accounting

A start is admitted when what the records commit, beside the app's own, leaves room for it. That
is sound where every microVM that is up is counted: its record holds something and says at least
the memory the microVM was booted with (`AppView.Counted`).

Three events can lose count of a microVM that is up, and `Accounts` says exactly when none does:
a pass that leaves an app up under a document giving it less memory, a refresh that reads a
microVM that never answered as failed while it is still up, and a wake that restores a snapshot of
more memory than the record says. So can a stop after which the process is still up
(`not_counted_of_leftUp`): whoever asks for one writes the same record as for any other. Along every
run of other events, whose stops take the processes down, everything up is counted, and no start
is admitted beyond the host's memory (`counted_run`).
-/

namespace Nibrunner

open Std

/-! ### What is counted, and what is up -/

/-- **The microVM is counted**: where the app is up, its record holds something and says at least
the memory the microVM has. -/
def AppView.Counted (v : AppView) : Prop :=
  ∀ vm, v.vm = some vm → vm.isUp = true →
    ∃ r, v.record = some r ∧ holdsSomething r = true ∧ vm.memoryMib ≤ r.resources.memoryMib

/-- A snapshot is of an app there is a record of. -/
def AppView.SnapshotRecorded (v : AppView) : Prop := v.snapshot ≠ none → v.record ≠ none

/-- The memory of the microVMs that are up beside an app's. -/
def Host.liveMemoryBeside (h : Host) (app : AppId) : ℕ :=
  ((h.vms.toList.filter fun (a, vm) => a ≠ app && vm.isUp).map fun (_, vm) => vm.memoryMib).sum

/-- Every microVM that is up is counted in a list of records. -/
def CountedIn (h : Host) (records : List InstanceRecord) : Prop :=
  ∀ (app : AppId) (vm : Vm), h.vms[app]? = some vm → vm.isUp = true →
    ∃ r ∈ records, r.appId = app ∧ holdsSomething r = true ∧ vm.memoryMib ≤ r.resources.memoryMib

/-- A start admitted against records that count every microVM fits beside those that are up. -/
theorem CountedIn.fits {h : Host} {records : List InstanceRecord} (hc : CountedIn h records)
    {guestMemoryMib : ℕ} {app : AppId} {wanted : InstanceResources}
    (hroom : memoryShortfallFor guestMemoryMib records app wanted = none) :
    h.liveMemoryBeside app + wanted.memoryMib ≤ guestMemoryMib := by
  have hcommitted := memoryShortfallFor_eq_none_iff.mp hroom
  have hlive : h.liveMemoryBeside app ≤ committedMemoryMib
      ((records.filter fun r => r.appId ≠ app && holdsSomething r).map (·.resources)) := by
    rw [Host.liveMemoryBeside, committedMemoryMib, List.map_map]
    refine KeyedSum.sum_le_sum_of_keyed (·.1) (fun r : InstanceRecord => r.appId) _ _ ?_ ?_
    · refine List.Nodup.sublist (List.filter_sublist.map _) ?_
      rw [ExtTreeMap.map_fst_toList_eq_keys]
      exact ExtTreeMap.nodup_keys
    · rintro ⟨a, vm⟩ hmem
      obtain ⟨hmem, hcond⟩ := List.mem_filter.mp hmem
      rw [Bool.and_eq_true, decide_eq_true_eq] at hcond
      have hvm := ExtTreeMap.mem_toList_iff_getElem?_eq_some.mp hmem
      obtain ⟨r, hr, happ, hholds, hle⟩ := hc a vm hvm hcond.2
      refine ⟨r, List.mem_filter.mpr ⟨hr, ?_⟩, happ, hle⟩
      rw [happ, hholds, Bool.and_true]
      exact decide_eq_true hcond.1
  omega

theorem mem_recordList {h : Host} {app : AppId} {r : InstanceRecord}
    (hr : h.records[app]? = some r) : r ∈ h.recordList :=
  List.mem_map.mpr ⟨(app, r), ExtTreeMap.mem_toList_iff_getElem?_eq_some.mpr hr, rfl⟩

/-- Counted app by app, everything up is counted in the host's own records. -/
theorem countedIn_recordList {h : Host} (hk : h.Keyed) (hc : ∀ app, (h.view app).Counted) :
    CountedIn h h.recordList := by
  intro app vm hvm hup
  obtain ⟨r, hr, hholds, hle⟩ := hc app vm hvm hup
  exact ⟨r, mem_recordList hr, hk app r hr, hholds, hle⟩

/-! ### The events that keep count -/

/-- The microVM is up and, past its grace period, has never answered as often as it should and has
failed to as often as it may. -/
def Reading.NeverAnswered (x : Reading) : Prop :=
  x.record.stopRequested = false ∧
    x.health.consecutiveSuccesses < x.record.healthCheck.probe.healthyThreshold ∧
    x.record.healthCheck.probe.unhealthyThreshold ≤ x.health.consecutiveFailures ∧
    isWithinGracePeriod x.record.healthCheck x.record.startedAt x.nowMs = false ∧
    x.health.everHealthy = false

/-- The event keeps count of every microVM that is up. -/
def Accounts (h : Host) : Event → Prop
  | .pass d answers =>
    d.appIds.Nodup → answers.cron = true →
      ∀ wanted ∈ d.instances, IsLeftAlone (h.observe d) wanted →
        ∀ vm, h.vms[wanted.appId]? = some vm → vm.isUp = true →
          vm.memoryMib ≤ wanted.config.resources.memoryMib
  | .refresh answers =>
    ∀ (app : AppId) (r : InstanceRecord), h.records[app]? = some r → h.isUp app = true →
      ¬ (h.reading answers app r).NeverAnswered
  | .wake wanted answers =>
    answers.wake = .ok → ∀ (s : Snapshot) (r : InstanceRecord),
      h.snapshots[wanted.appId]? = some s → s.deploymentId = wanted.deploymentId →
      h.records[wanted.appId]? = some r → s.memoryMib ≤ r.resources.memoryMib
  | _ => True

/-! ### The stops of an event -/

/-- A process was spawned, and asked to stop again. -/
def Host.BootAnswer.stopsAgain : Host.BootAnswer → Bool
  | .failed _ spawned => spawned
  | _ => false

@[inherit_doc Host.BootAnswer.stopsAgain]
def Host.WakeAnswer.stopsAgain : Host.WakeAnswer → Bool
  | .unusable _ spawned | .failed _ spawned => spawned
  | _ => false

/-- The action asks the app's process to stop. -/
def InstancePlan.stops : InstancePlan → Bool
  | stop _ _ | replace _ | recover _ => true
  | _ => false

/-- The event asks a process of the app to stop. -/
def Event.AsksToStop (h : Host) (app : AppId) : Event → Prop
  | .pass d answers =>
    (∃ p ∈ (planReconcile d (h.observe d)).instances, p.appId = app ∧ p.stops = true) ∨
      (answers.start app).boot.stopsAgain = true
  | .suspend target _ => target = app
  | .wake wanted answers =>
    wanted.appId = app ∧
      (answers.wake.stopsAgain = true ∨ answers.start.boot.stopsAgain = true)
  | .stop target => target = app
  | .start desired answers => desired.appId = app ∧ answers.boot.stopsAgain = true
  | _ => False

/-- An event, and what becomes of each process it asks to stop. -/
abbrev EventWithStops := Event × (AppId → StopAnswer)

def Host.stepWithStops [Platform] (h : Host) (e : EventWithStops) : Host := h.stepAs e.2 e.1

/-- The event keeps count of every microVM that is up, and leaves none up that it asks to stop. -/
def AccountsAndStops (h : Host) (e : EventWithStops) : Prop :=
  Accounts h e.1 ∧ ∀ app, e.1.AsksToStop h app → e.2 app = .down

namespace Host

section Stops

variable {h : Host} {desired : DesiredInstance} {stop : StopAnswer} {stops : AppId → StopAnswer}

/-- What would become of a process that is not asked to stop does not matter. -/
theorem bootVm_asked {slot : AppSlot} {nowMs : ℤ} {answer : BootAnswer}
    (hstop : answer.stopsAgain = true → stop = .down) :
    h.bootVm desired slot nowMs answer stop = h.bootVm desired slot nowMs answer := by
  cases answer with
  | failed reason spawned =>
    cases spawned with
    | true => rw [hstop rfl]
    | false => rfl
  | busy => rfl
  | ok => rfl

theorem wakeVm_asked {app : AppId} {deployment : DeploymentId} {slot : ℕ} {answer : WakeAnswer}
    (hstop : answer.stopsAgain = true → stop = .down) :
    h.wakeVm app deployment slot answer stop = h.wakeVm app deployment slot answer := by
  have hafter : ∀ s spawned, (spawned = true → stop = .down) →
      h.afterRestore app s spawned stop = h.afterRestore app s spawned := by
    intro s spawned hspawned
    cases spawned with
    | true => rw [hspawned rfl]
    | false => rfl
  unfold wakeVm
  cases h.loadable app deployment slot with
  | none => cases answer <;> rfl
  | some s =>
    cases answer with
    | unusable reason spawned
    | failed reason spawned => exact congrArg (·, _) (hafter s spawned hstop)
    | ok => rfl
    | busy => rfl

theorem startInstance_asked [Platform] {answers : StartAnswers}
    (hstop : answers.boot.stopsAgain = true → stop = .down) :
    h.startInstance desired answers stop = h.startInstance desired answers := by
  unfold startInstance attemptStart
  simp only [bootVm_asked hstop]

theorem beforeStarts_asked {d : HostDesiredState} {answers : PassAnswers}
    (hstops : ∀ p ∈ (planReconcile d (h.observe d)).instances,
      p.stops = true → stops p.appId = .down) :
    h.beforeStarts d answers stops = h.beforeStarts d answers := by
  have happly : ∀ h', applyStops h' (planReconcile d (h.observe d)) stops =
      applyStops h' (planReconcile d (h.observe d)) := by
    refine fun h' => List.foldl_ext _ _ _ fun h' p hp => ?_
    have hp := hstops p hp
    cases p with
    | stop app reason => exact congrArg (stopInstance h' app ·) (hp rfl)
    | replace desired
    | recover desired => exact congrArg (clearInstance h' desired.appId ·) (hp rfl)
    | _ => rfl
  unfold beforeStarts madeReady
  simp only [happly]

theorem foldl_applyStart_asked [Platform] {answers : AppId → StartAnswers}
    (hstops : ∀ app, (answers app).boot.stopsAgain = true → stops app = .down)
    (starts : List DesiredInstance) (w : Wave) :
    starts.foldl (applyStartAs stops answers) w = starts.foldl (applyStart answers) w := by
  refine List.foldl_ext _ _ _ fun w desired _ => ?_
  unfold applyStart applyStartAs
  simp only [startInstance_asked (hstops desired.appId)]

/-- **Where no process that is asked to stop is left up** an event does what it does where they all
go down. -/
theorem stepAs_asked [Platform] {e : Event}
    (hstops : ∀ app, e.AsksToStop h app → stops app = .down) : h.stepAs stops e = h.step e := by
  cases e with
  | pass d answers =>
    have hbefore := @beforeStarts_asked h stops d answers fun p hp hstop =>
      hstops _ (.inl ⟨p, hp, rfl, hstop⟩)
    have hstarts := foldl_applyStart_asked fun app hstop => hstops app (.inr hstop)
    unfold step stepAs reconcileAs applyStarts
    simp only [hbefore, hstarts]
  | suspend app answer => exact congrArg (suspendInstance h app answer ·) (hstops app rfl)
  | wake wanted answers =>
    have hwake := fun h' slot => @wakeVm_asked h' (stops wanted.appId) wanted.appId
      wanted.deploymentId slot answers.wake fun hstop => hstops _ ⟨rfl, .inl hstop⟩
    have hstart := fun h' => @startInstance_asked h' wanted (stops wanted.appId) _ answers.start
      fun hstop => hstops _ ⟨rfl, .inr hstop⟩
    unfold step stepAs wakeApp resumeInstance
    simp only [hwake, hstart]
  | stop app => exact congrArg (stopInstance h app ·) (hstops app rfl)
  | start desired answers =>
    unfold step stepAs
    simp only [startInstance_asked fun hstop => hstops desired.appId ⟨rfl, hstop⟩]
  | _ => rfl

end Stops

end Host

/-- What is read of a microVM that is up is a state that holds something, or failed where it never
answered. -/
theorem Reading.state_of_active {x : Reading} (hactive : x.status.active = true)
    (hfailed : x.status.failed = false) :
    x.state ∈ [InstanceState.stopping, .running, .unhealthy, .starting] ∨ x.NeverAnswered := by
  unfold Reading.state evaluateInstanceState
  simp only [hactive, hfailed, not_true_eq_false, false_and, if_false, Bool.false_eq_true]
  split
  · exact .inl (by simp)
  · rename_i hstop
    split
    · exact .inl (by simp)
    · rename_i hfew
      split
      · rename_i hmany
        split
        · exact .inl (by simp)
        · rename_i hever
          exact .inr ⟨by simpa using hstop, Nat.lt_of_not_le hfew, hmany.1, by simpa using hmany.2,
            by simpa using hever⟩
      · split <;> exact .inl (by simp)

theorem holdsSomething_of_state {r : InstanceRecord}
    (h : r.state ∈ [InstanceState.stopping, .running, .unhealthy, .starting]) :
    holdsSomething r = true := by
  simp only [List.mem_cons, List.not_mem_nil, or_false] at h
  rcases h with h | h | h | h <;> simp [holdsSomething, holdsNothing, h]

/-! ### One event -/

/-- Everything up is counted, and every snapshot is of a recorded app. -/
structure AppView.Accounted (v : AppView) : Prop where
  counted : v.Counted
  recorded : v.SnapshotRecorded

namespace AppView.Accounted

variable {v v' : AppView}

/-- An app that is down is counted. -/
theorem of_down (hdown : v.isUp = false) (hr : v.SnapshotRecorded) : v.Accounted := by
  refine ⟨fun vm hvm hup => ?_, hr⟩
  rw [AppView.isUp, hvm, Option.any_some, hup] at hdown
  cases hdown

/-- Changes to a record that keep what it holds keep the count. -/
theorem map_record (ha : v.Accounted) {f : InstanceRecord → InstanceRecord}
    (hf : ∀ r vm, v.record = some r → v.vm = some vm → vm.isUp = true →
      holdsSomething r = true → vm.memoryMib ≤ r.resources.memoryMib →
      holdsSomething (f r) = true ∧ vm.memoryMib ≤ (f r).resources.memoryMib)
    (hrecord : v'.record = v.record.map f) (hvm : v'.vm = v.vm)
    (hsnapshot : v'.snapshot = v.snapshot ∨ v'.snapshot = none) : v'.Accounted := by
  refine ⟨fun vm hv hup => ?_, fun hs hnone => ?_⟩
  · rw [hvm] at hv
    obtain ⟨r, hr, hholds, hle⟩ := ha.counted vm hv hup
    obtain ⟨hholds', hle'⟩ := hf r vm hr hv hup hholds hle
    exact ⟨f r, by rw [hrecord, hr]; rfl, hholds', hle'⟩
  · rcases hsnapshot with hsame | hgone
    · rw [hsame] at hs
      rw [hrecord, Option.map_eq_none_iff] at hnone
      exact ha.recorded hs hnone
    · exact hs hgone

theorem recorded_of_some {r : InstanceRecord} (hr : v.record = some r) : v.SnapshotRecorded :=
  fun _ hnone => Option.some_ne_none r (hr.symm.trans hnone)

theorem slotEffect {desired : DesiredInstance} {write : AppSlot → InstanceRecord}
    (he : SlotEffect desired write v v') (hdown : v.isUp = false) : v'.Accounted := by
  refine of_down (he.isUp_eq.trans hdown) ?_
  cases he <;> exact recorded_of_some rfl

theorem booted (v : AppView) (desired : DesiredInstance) (slot : ℕ) (answers : StartAnswers) :
    (v.booted desired slot answers).Accounted := by
  refine ⟨fun vm hvm hup => ?_, fun hs => absurd rfl hs⟩
  cases hvm
  refine ⟨_, rfl, holdsSomething_of_state (by simp [bootedRecord]), ?_⟩
  cases v.record <;> exact Nat.le_refl _

theorem startEffect [Platform] {desired : DesiredInstance} {answers : StartAnswers}
    (he : StartEffect desired answers v v') (hdown : v.isUp = false) : v'.Accounted := by
  cases hup : v'.isUp with
  | true =>
    obtain ⟨slot, rfl, -⟩ := he.isUp_cases hdown hup
    exact booted v desired slot answers
  | false =>
    refine of_down hup ?_
    cases he <;> exact recorded_of_some rfl

theorem suspendEffect (ha : v.Accounted) (he : SuspendEffect v v') : v'.Accounted := by
  have hstopped : (v.vm.map Vm.stopped).any Vm.isUp = false := AppView.isUp_stop v
  cases he with
  | nothing => exact ha
  | stopped => exact of_down (AppView.isUp_stop v) fun hs => absurd rfl hs
  | failed => exact ⟨ha.counted, fun hs => absurd rfl hs⟩
  | lost => exact of_down hstopped fun hs => absurd rfl hs
  | slept r vm slot hr hvm hup hslot =>
    exact of_down (Vm.isUp_stopped vm) (recorded_of_some rfl)

theorem resumeEffect [Platform] (ha : v.Accounted) {desired : DesiredInstance}
    {answers : Host.WakeAnswers}
    (hsize : answers.wake = .ok → ∀ s r, v.snapshot = some s →
      s.deploymentId = desired.deploymentId → v.record = some r →
      s.memoryMib ≤ r.resources.memoryMib)
    (he : ResumeEffect desired answers v v') : v'.Accounted := by
  cases he with
  | noSlot => exact ha
  | kept slot hslot said =>
    exact ha.map_record (f := fun r => { r with message := said r })
      (fun r vm _ _ _ hholds hle => ⟨hholds, hle⟩) rfl rfl (.inl rfl)
  | notRestored slot hslot hdown said vm hvm =>
    exact of_down (hvm.any_isUp hdown) fun hs => absurd rfl hs
  | restored slot hslot hdown s hs hdeployment hstamp hok =>
    refine ⟨fun vm hvm hup => ?_, fun hs => absurd rfl hs⟩
    cases hvm
    -- a snapshot is of an app there is a record of, and the record takes the memory back up
    obtain ⟨r, hr⟩ := Option.ne_none_iff_exists'.mp
      (ha.recorded (by rw [hs]; exact Option.some_ne_none s))
    refine ⟨resumedRecord answers r, by rw [hr]; rfl, ?_, hsize hok s r hs hdeployment hr⟩
    exact holdsSomething_of_state (by simp [resumedRecord])
  | cold slot hslot hdown vm hvm v' hstart => exact startEffect hstart (hvm.any_isUp hdown)

/-- Taking the document's fields keeps the count of an app given as much memory as it has. -/
theorem synced (ha : v.Accounted) {d : HostDesiredState} (hd : d.appIds.Nodup)
    {wanted : DesiredInstance} (hw : wanted ∈ d.instances)
    (hsize : ∀ vm, v.vm = some vm → vm.isUp = true →
      vm.memoryMib ≤ wanted.config.resources.memoryMib) :
    (v.synced d wanted.appId).Accounted := by
  rw [AppView.synced_of_mem hd hw]
  exact ha.map_record (f := Host.syncFields wanted)
    (fun r vm _ hvm hup hholds _ => ⟨hholds, hsize vm hvm hup⟩) rfl rfl (.inl rfl)

theorem withSlot (ha : v.Accounted) (slot : Option ℕ) : (v.withSlot slot).Accounted :=
  ⟨ha.counted, ha.recorded⟩

theorem gainsSlot (ha : v.Accounted) (hg : AppView.GainsSlot v v') : v'.Accounted := by
  obtain ⟨slot, rfl, -⟩ := hg
  exact ha.withSlot slot

/-- What a pass leaves of the snapshots is of recorded apps. -/
private theorem recorded_passEffect [Platform] {h : Host} {d : HostDesiredState}
    {answers : Host.PassAnswers} {app : AppId} (ha : (h.view app).SnapshotRecorded)
    (he : PassEffect h d answers app v') : v'.SnapshotRecorded := by
  cases he with
  | skipped => exact ha
  | stopped hd hcron hnot hup slot
  | forgotten hd hcron hnot hdown slot => exact fun hs => absurd rfl hs
  | unknown hd hcron hnot hvm hrecord slot => exact ha
  | named hd hcron wanted hw happ v₁ v₂ v' hgain hact hlose =>
    obtain ⟨slot, rfl, -⟩ := hlose
    obtain ⟨slot₁, rfl, -⟩ := hgain
    have hsynced : ((h.view app).synced d app).SnapshotRecorded := fun hs hnone =>
      ha hs (Option.map_eq_none_iff.mp hnone)
    have hstopped :
        (((h.view app).synced d app).afterStop (h.actionFor d wanted)).SnapshotRecorded := by
      cases h.actionFor d wanted with
      | stop | replace | recover | forget => exact fun hs => absurd rfl hs
      | _ => exact hsynced
    generalize h.actionFor d wanted = p at hact hstopped
    cases hact with
    | stop | forget | leftAlone | notIsolated => exact hstopped
    | sleep desired v' he | hold desired v' he | waiting p desired hp hroom shortfallMib v' he
    | started p desired hp v' he => cases he <;> exact recorded_of_some rfl

/-- A pass that keeps count. -/
theorem passEffect [Platform] {h : Host} {app : AppId} (ha : (h.view app).Accounted)
    {d : HostDesiredState} {answers : Host.PassAnswers} (hcount : Accounts h (.pass d answers))
    (he : PassEffect h d answers app v') : v'.Accounted := by
  cases hup : v'.isUp with
  | false => exact of_down hup (recorded_passEffect ha.recorded he)
  | true =>
    rcases he.isUp_cases hup with rfl |
      ⟨hd, hcron, wanted, hw, rfl, hwas, haction, v₁, hgain, hlose⟩ |
      ⟨wanted, hw, happ, hbrought, v₁, slot, hlose⟩
    · exact ha
    · rw [← Host.planInstance_observe, planInstance_eq_none_iff] at haction
      obtain ⟨slot, rfl, -⟩ := hlose
      exact ((ha.synced hd hw (hcount hd hcron wanted hw haction.1)).gainsSlot hgain).withSlot slot
    · obtain ⟨slot', rfl, -⟩ := hlose
      exact (booted v₁ wanted slot (answers.start app)).withSlot slot'

/-- A refresh that reads no microVM that is up as failed. -/
theorem refreshed [Platform] {h : Host} {app : AppId} (ha : (h.view app).Accounted)
    {answers : RefreshAnswers} (hcount : Accounts h (.refresh answers)) :
    AppView.Accounted { h.view app with
      record := (h.view app).record.map fun r => (h.reading answers app r).settle r } := by
  refine ha.map_record (f := fun r => (h.reading answers app r).settle r) ?_ rfl rfl (.inl rfl)
  intro r vm hr hvm hup hholds hle
  have hstatus : (h.reading answers app r).status = vm.status := by
    rw [Host.reading, Host.vmStatus, show h.vms[app]? = some vm from hvm]
    rfl
  have hisUp : h.isUp app = true := by
    rw [Host.isUp, show h.vms[app]? = some vm from hvm]
    exact hup
  have hstate : (h.reading answers app r).state ∈
      [InstanceState.stopping, .running, .unhealthy, .starting] := by
    refine (Reading.state_of_active ?_ ?_).resolve_right (hcount app r hr hisUp)
    · rw [hstatus, Vm.status_active, hup]
    · rw [hstatus, Vm.status, hup]
      rfl
  unfold Reading.settle
  split
  · exact ⟨hholds, hle⟩
  · split
    · exact ⟨hholds, hle⟩
    · exact ⟨holdsSomething_of_state hstate, hle⟩

end AppView.Accounted

/-- **A stop that leaves the microVM up loses count of it**: its record is that of a stopped one. -/
theorem not_counted_of_leftUp {h : Host} {app : AppId} (hup : h.isUp app = true) :
    ¬ ((h.stopInstance app .leftUp).view app).Counted := by
  obtain ⟨vm, hvm, hvmUp⟩ := (Option.any_eq_true _ _).mp hup
  intro hcounted
  have hkept : (h.stopInstance app .leftUp).vms[app]? = some vm := by
    change (h.vms.modify app (Vm.asked .leftUp))[app]? = _
    rw [ExtTreeMap.getElem?_modify_ite, if_pos rfl, hvm]
    rfl
  obtain ⟨r, hr, hholds, -⟩ := hcounted vm hkept hvmUp
  change (Host.updateRecord _ app _).records[app]? = some r at hr
  rw [Host.updateRecord, ExtTreeMap.getElem?_modify_ite, if_pos rfl, Option.map_eq_some_iff] at hr
  obtain ⟨r', -, rfl⟩ := hr
  simp [holdsSomething, holdsNothing] at hholds

/-- **One event** that keeps count leaves everything up counted. -/
theorem accounted_step [Platform] {h : Host} (hk : h.Keyed) (ha : ∀ app, (h.view app).Accounted)
    {e : Event} (hcount : Accounts h e) (app : AppId) : ((h.step e).view app).Accounted := by
  have heffect := h.view_step hk e app
  generalize (h.step e).view app = v' at heffect
  cases heffect with
  | same e => exact ha app
  | passed d answers v' he => exact .passEffect (ha app) hcount he
  | refreshed answers => exact .refreshed (ha app) hcount
  | suspended answer v' he => exact (ha app).suspendEffect he
  | said wanted answers said =>
    exact (ha app).map_record (f := fun r => { r with message := said r })
      (fun r vm _ _ _ hholds hle => ⟨hholds, hle⟩) rfl rfl (.inl rfl)
  | woken wanted happ answers v' he =>
    subst happ
    exact (ha _).resumeEffect hcount he
  | exited exit =>
    refine .of_down ?_ (ha app).recorded
    rw [AppView.isUp, Option.any_map]
    cases (h.view app).vm <;> simp
  | stopped => exact .of_down (AppView.isUp_stop _) fun hs => absurd rfl hs
  | slept desired happ hdown v' he | held desired happ hdown v' he
  | waiting desired happ hdown shortfallMib v' he => exact .slotEffect he hdown
  | started desired happ hdown answers v' he => exact .startEffect he hdown

/-! ### The starts of a pass -/

section Wave

variable [Platform] (answers : AppId → StartAnswers)

/-- A start of an app that is down keeps everything counted in the wave's records. -/
private theorem countedIn_applyStart {w : Host.Wave} (hk : w.1.Keyed) (hc : CountedIn w.1 w.2)
    {desired : DesiredInstance} (hdown : w.1.isUp desired.appId = false) :
    CountedIn (Host.applyStart answers w desired).1 (Host.applyStart answers w desired).2 := by
  intro app vm hvm hup
  rw [Host.applyStart_snd]
  by_cases happ : app = desired.appId
  · subst happ
    have hisUp : ((Host.applyStart answers w desired).1.view desired.appId).isUp = true := by
      rw [AppView.isUp, show (Host.view _ _).vm = some vm from hvm]
      exact hup
    rcases Host.view_applyStart answers hk desired with ⟨shortfallMib, -, he⟩ | ⟨hroom, he⟩
    · rw [he.isUp_eq, Host.isUp_view, hdown] at hisUp
      cases hisUp
    · -- the microVM is the one just booted, and its record was read back
      have hacc := AppView.Accounted.startEffect he hdown
      obtain ⟨r, hr, hholds, hle⟩ := hacc.counted vm hvm hup
      refine ⟨r, ?_, (he.keyed (hk _)) r hr, hholds, hle⟩
      rw [if_pos hroom, hr]
      exact List.mem_append_right _ List.mem_cons_self
  · rw [(Host.OnlyApp.applyStart answers hk desired).vm app happ] at hvm
    obtain ⟨r, hr, hrapp, hholds, hle⟩ := hc app vm hvm hup
    refine ⟨r, ?_, hrapp, hholds, hle⟩
    split
    · refine List.mem_append_left _ (List.mem_filter.mpr ⟨hr, ?_⟩)
      rw [hrapp]
      exact decide_eq_true happ
    · exact hr

/-- A wave of starts of apps that are down keeps everything counted in its records. -/
private theorem countedIn_foldl (l : List DesiredInstance) (hl : (l.map (·.appId)).Nodup)
    {w : Host.Wave} (hk : w.1.Keyed) (hc : CountedIn w.1 w.2)
    (hdown : ∀ desired ∈ l, w.1.isUp desired.appId = false) :
    CountedIn (l.foldl (Host.applyStart answers) w).1 (l.foldl (Host.applyStart answers) w).2 := by
  induction l generalizing w with
  | nil => exact hc
  | cons desired l ih =>
    rw [List.map_cons, List.nodup_cons] at hl
    refine ih hl.2 ((Host.local_start answers).keeps w desired hk)
      (countedIn_applyStart answers hk hc (hdown desired List.mem_cons_self)) fun next hnext => ?_
    have hne : next.appId ≠ desired.appId := fun heq => hl.1 (List.mem_map.mpr ⟨next, hnext, heq⟩)
    rw [(Host.OnlyApp.applyStart answers hk desired).isUp_eq hne]
    exact hdown next (List.mem_cons_of_mem _ hnext)

/-- Throughout the starts of a pass that keeps count, everything up is counted in the records the
next start is measured against. -/
theorem countedIn_wave {h : Host} (hk : h.Keyed) (ha : ∀ app, (h.view app).Accounted)
    {d : HostDesiredState} {answers : Host.PassAnswers} (hd : d.appIds.Nodup)
    (hcron : answers.cron = true) (hcount : Accounts h (.pass d answers))
    {before after : List DesiredInstance}
    (hsplit : startsOf (planReconcile d (h.observe d)) = before ++ after) :
    CountedIn (h.wave d answers before).1 (h.wave d answers before).2 := by
  have hkbefore := hk.beforeStarts (d := d) answers
  have hsub : List.Sublist before (startsOf (planReconcile d (h.observe d))) := by
    rw [hsplit]
    exact List.sublist_append_left before after
  refine countedIn_foldl answers.start before ?_ hkbefore ?_ fun desired hdesired => ?_
  · exact ((Host.nodup_planInstances hd h).sublist (Host.sublist_startsOf _)).sublist
      (hsub.map _)
  · refine countedIn_recordList hkbefore fun app => ?_
    cases hup : (h.beforeStarts d answers).isUp app with
    | false =>
      intro vm hvm hvmup
      rw [Host.isUp, show (h.beforeStarts d answers).vms[app]? = some vm from hvm] at hup
      rw [show vm.isUp = false from hup] at hvmup
      cases hvmup
    | true =>
      obtain ⟨wanted, hw, rfl, hwas, haction, hgain⟩ := Host.beforeStarts_of_up hk hd hup
      rw [← Host.planInstance_observe, planInstance_eq_none_iff] at haction
      exact (((ha _).synced hd hw (hcount hd hcron wanted hw haction.1)).gainsSlot hgain).counted
  · exact Host.isUp_beforeStarts_of_mem hk hd answers (hsub.subset hdesired)

end Wave

/-! ### Runs -/

/-- The app is brought up by a pass, stopped, which takes its microVM down, and brought up again. -/
def stoppedBetween : List EventWithStops :=
  (soleBroughtUp ++ .stop soleInstance.appId :: soleBroughtUp).map (·, fun _ => .down)

/-- The same deployment, given half the memory. -/
def halvedInstance : DesiredInstance :=
  { soleInstance with config := { soleInstance.config with resources := ⟨1, 128⟩ } }

/-- The app is brought up, and the next document gives it less memory. -/
def memoryHalved : List Event :=
  soleBroughtUp ++ [.pass ⟨[soleVolume], [halvedInstance], [], []⟩ (.succeed .change 1000)]

end Nibrunner

import Nibrunner.Reconcile.PlanSafety
import Nibrunner.Reconcile.System

/-!
# No phantom commitments

Both the memory count and the planner read whether an app waits to be started off a pair: a
pending record with no attempt spent on it is one waiting, and one with an attempt spent is a boot
on its way. `InstanceRecord.Decodes` is the invariant that makes the pair readable once no
operation is in flight, and `no_phantom_run` is what follows from it: a settled record that holds
something has a microVM up, a pending one has nothing spent on it, and an app whose start was put
off is planned to be started again.

One exit of a start breaks the pair: a start turned away because the host is busy gives back the
attempts spent before it and leaves the record pending. Over a record with attempts spent that is
a boot on its way that nobody makes (`not_no_phantom_of_busy`); along runs with no such exit the
invariant holds.
-/

namespace Nibrunner

open Std

/-! ### The invariant -/

/-- A record whose state and attempts can be read back: one whose microVM is up was started; one
that was not started and has attempts spent on it has failed, and was not asked to stop; a pending
one was not started. -/
structure InstanceRecord.Decodes (r : InstanceRecord) (isUp : Bool) : Prop where
  started : isUp = true → r.startedAt ≠ none
  spent : r.startedAt = none → r.startAttempts ≠ noStartAttempts →
    r.state = .failed ∧ r.stopRequested = false
  pending : r.state = .pending → r.startedAt = none

def AppView.Decodes (v : AppView) : Prop := ∀ r, v.record = some r → r.Decodes v.isUp

/-- The start is not turned away busy over a record with attempts spent on it. -/
def SparesAttempts [Platform] (existing : Option InstanceRecord) (desired : DesiredInstance)
    (answers : StartAnswers) : Prop :=
  answers.boot = .busy → startRefused existing answers.nowMs desired = none →
    spentAttempts existing = noStartAttempts

/-- The event turns no start away busy over a record with attempts spent on it. -/
def KeepsDecoding [Platform] (h : Host) : Event → Prop
  | .pass d answers =>
    ∀ wanted ∈ d.instances, h.actionFor d wanted = .start wanted →
      SparesAttempts h.records[wanted.appId]? wanted (answers.start wanted.appId)
  | .wake wanted answers => SparesAttempts h.records[wanted.appId]? wanted answers.start
  | .start desired answers => SparesAttempts h.records[desired.appId]? desired answers
  | _ => True

/-! ### The records an operation leaves -/

namespace InstanceRecord.Decodes

variable {r : InstanceRecord} {isUp : Bool}

/-- A record that never was started and has nothing spent on it. -/
theorem of_unspent (hstarted : r.startedAt = none) (hspent : r.startAttempts = noStartAttempts)
    (hup : isUp = false) : r.Decodes isUp where
  started h := by
    rw [hup] at h
    cases h
  spent _ h := absurd hspent h
  pending _ := hstarted

/-- A record that was started and is not pending. -/
theorem of_started (hstarted : r.startedAt ≠ none) (hstate : r.state ≠ .pending) :
    r.Decodes isUp where
  started _ := hstarted
  spent h _ := absurd h hstarted
  pending h := absurd h hstate

/-- A record of an app that is down, failed and not asked to stop. -/
theorem of_failed (hstate : r.state = .failed) (hstop : r.stopRequested = false)
    (hup : isUp = false) : r.Decodes isUp where
  started h := by
    rw [hup] at h
    cases h
  spent _ _ := ⟨hstate, hstop⟩
  pending h := by
    rw [hstate] at h
    cases h

/-- What the state, the attempts and the start of a record say does not depend on the rest. -/
theorem congr (hr : r.Decodes isUp) {r' : InstanceRecord} (hstarted : r'.startedAt = r.startedAt)
    (hspent : r'.startAttempts = r.startAttempts) (hstate : r'.state = r.state)
    (hstop : r'.stopRequested = r.stopRequested) : r'.Decodes isUp where
  started h := hstarted ▸ hr.started h
  spent h₁ h₂ := by
    rw [hstate, hstop]
    exact hr.spent (hstarted ▸ h₁) (hspent ▸ h₂)
  pending h := hstarted ▸ hr.pending (hstate ▸ h)

/-- Going down takes nothing back. -/
theorem down (hr : r.Decodes isUp) {isUp' : Bool} (hdown : isUp' = false) : r.Decodes isUp' where
  started h := by
    rw [hdown] at h
    cases h
  spent := hr.spent
  pending := hr.pending

/-- A stop or a sleep spends nothing and leaves the record neither pending nor up. -/
theorem of_unspent_down (hspent : r.startAttempts = noStartAttempts) (hstate : r.state ≠ .pending)
    (hup : isUp = false) : r.Decodes isUp where
  started h := by
    rw [hup] at h
    cases h
  spent _ h := absurd hspent h
  pending h := absurd h hstate

end InstanceRecord.Decodes

namespace AppView.Decodes

variable {v v' : AppView} {desired : DesiredInstance}

theorem map_record (hd : v.Decodes) {f : InstanceRecord → InstanceRecord}
    (hf : ∀ r, v.record = some r → r.Decodes v.isUp → (f r).Decodes v'.isUp)
    (hrecord : v'.record = v.record.map f) : v'.Decodes := by
  intro r hr
  rw [hrecord] at hr
  obtain ⟨r', hr', rfl⟩ := Option.map_eq_some_iff.mp hr
  exact hf r' hr' (hd r' hr')

/-- A record with the document's fields on it decodes as it did, and a new one does. -/
theorem adoptedRecord (hd : v.Decodes) (hdown : v.isUp = false) (slot : AppSlot)
    (state : InstanceState) : (adoptedRecord v.record desired slot state).Decodes false := by
  cases hr : v.record with
  | none => exact .of_unspent rfl rfl rfl
  | some r => exact ((hdown ▸ hd r hr : r.Decodes false)).congr rfl rfl rfl rfl

/-- So does one refused for want of a slot: failed, and asked to stop only if it was before. -/
theorem noSlotRecord (hd : v.Decodes) (hdown : v.isUp = false) :
    (noSlotRecord v.record desired).Decodes false := by
  cases hr : v.record with
  | none => exact .of_unspent rfl rfl rfl
  | some r =>
    have hrd := hdown ▸ hd r hr
    exact ⟨hrd.started, fun h₁ h₂ => ⟨rfl, (hrd.spent h₁ h₂).2⟩,
      fun h => InstanceState.noConfusion h⟩

theorem slotEffect (hd : v.Decodes) (hdown : v.isUp = false)
    {write : AppSlot → InstanceRecord} (hwrite : ∀ slot, (write slot).Decodes false)
    (he : SlotEffect desired write v v') : v'.Decodes := by
  have hdown' := he.isUp_eq.trans hdown
  intro r hr
  rw [hdown']
  cases he with
  | written slot hslot =>
    cases hr
    exact hwrite _
  | noSlot hslot =>
    cases hr
    exact hd.noSlotRecord hdown

theorem startEffect [Platform] (hd : v.Decodes) (hdown : v.isUp = false) {answers : StartAnswers}
    (hspares : SparesAttempts v.record desired answers)
    (he : StartEffect desired answers v v') : v'.Decodes := by
  -- an exit that leaves the app down spends nothing, and a boot is counted with its time
  cases he with
  | refused r said hr href =>
    intro r' hr'
    cases hr'
    exact (hd r hr).congr rfl rfl rfl rfl
  | noSlot href hslot =>
    intro r hr
    cases hr
    exact hdown ▸ hd.noSlotRecord hdown
  | turnedDown href slot hslot said | notBooted href slot hslot said =>
    intro r hr
    cases hr
    exact .of_failed rfl rfl hdown
  | bootFailed href slot hslot said vm hvm =>
    intro r hr
    cases hr
    refine .of_failed rfl rfl ?_
    rcases hvm with rfl | ⟨-, rfl⟩
    · exact hdown
    · exact Vm.isUp_stopped (Vm.spawned desired.config.resources.memoryMib slot)
  | busy href slot hslot hbusy =>
    intro r hr
    cases hr
    exact .of_unspent rfl (hspares hbusy href) hdown
  | booted href slot hslot hdown =>
    intro r hr
    cases hr
    exact .of_started (Option.some_ne_none _) InstanceState.noConfusion

/-- A stop leaves nothing spent. -/
theorem stop (v : AppView) : v.stop.Decodes := by
  intro r hr
  obtain ⟨r', hr', rfl⟩ := Option.map_eq_some_iff.mp hr
  exact .of_unspent_down rfl InstanceState.noConfusion (AppView.isUp_stop v)

theorem cleared (v : AppView) : v.cleared.Decodes := by
  intro r hr
  cases hr

theorem suspendEffect (hd : v.Decodes) (he : SuspendEffect v v') : v'.Decodes := by
  have hstopped : (v.vm.map Vm.stopped).any Vm.isUp = false := AppView.isUp_stop v
  cases he with
  | nothing => exact hd
  | stopped => exact stop v
  | failed => exact hd
  | lost =>
    intro r hr
    exact (hd r hr).down hstopped
  | slept r vm slot hr hvm hup hslot =>
    intro r' hr'
    cases hr'
    exact .of_unspent_down rfl InstanceState.noConfusion (Vm.isUp_stopped vm)

theorem resumeEffect [Platform] (hd : v.Decodes) {answers : Host.WakeAnswers}
    (hspares : SparesAttempts v.record desired answers.start)
    (he : ResumeEffect desired answers v v') : v'.Decodes := by
  have hsaid : ∀ (said : InstanceRecord → Option String) (isUp : Bool) (r : InstanceRecord),
      r.Decodes isUp → InstanceRecord.Decodes { r with message := said r } isUp :=
    fun said isUp r hr => hr.congr rfl rfl rfl rfl
  cases he with
  | noSlot => exact hd
  | kept slot hslot said =>
    exact hd.map_record (f := fun r => { r with message := said r })
      (fun r _ hr => hsaid said _ r hr) rfl
  | notRestored slot hslot hdown said vm hvm =>
    refine hd.map_record (f := fun r => { r with message := said r }) (fun r _ hr => ?_) rfl
    exact hsaid said _ r (hr.down (hvm.any_isUp hdown))
  | restored slot hslot hdown s hs hdeployment hstamp hok =>
    refine hd.map_record (f := resumedRecord answers) (fun r _ _ => ?_) rfl
    exact .of_started (Option.some_ne_none _) InstanceState.noConfusion
  | cold slot hslot hdown vm hvm v' hstart =>
    refine startEffect (v := { v with vm := vm, snapshot := none, slot := some slot }) ?_
      (hvm.any_isUp hdown) hspares hstart
    intro r hr
    exact (hd r hr).down (hvm.any_isUp hdown)

end AppView.Decodes

/-! ### Settling -/

namespace Reading

variable {x : Reading}

/-- The state read of a microVM that is not up. -/
theorem state_of_inactive (hactive : x.status.active = false) :
    x.state = .failed ∨ x.state = .idle ∨ x.state = .stopped ∨
      x.state = .pending ∧ x.record.startedAt = none := by
  have hstopped : ∀ i : LifecycleInputs,
      evaluateStoppedState i = .failed ∨ evaluateStoppedState i = .idle ∨
        evaluateStoppedState i = .stopped ∨
        evaluateStoppedState i = .pending ∧ i.startedAtMs = none := by
    intro i
    unfold evaluateStoppedState
    cases i.startedAtMs <;> simp <;> repeat' split
    all_goals simp_all
  unfold Reading.state evaluateInstanceState
  simp only [hactive, Bool.false_eq_true, not_false_eq_true, true_and, if_true]
  repeat' split
  · exact hstopped _
  · exact .inl rfl
  · exact hstopped _

/-- A start that failed before its microVM came up stays failed. -/
theorem state_of_failed (hactive : x.status.active = false) (hstate : x.record.state = .failed)
    (hstarted : x.record.startedAt = none) (hstop : x.record.stopRequested = false)
    (hsnapshotting : x.snapshotting = false) : x.state = .failed := by
  unfold Reading.state evaluateInstanceState evaluateStoppedState
  simp only [hactive, hstate, hstarted, hstop, hsnapshotting]
  simp

/-- What is read of a microVM that is up is not pending. -/
theorem state_ne_pending_of_active (hactive : x.status.active = true) : x.state ≠ .pending := by
  unfold Reading.state evaluateInstanceState
  simp only [hactive, not_true_eq_false, false_and, if_false]
  repeat' split
  all_goals exact InstanceState.noConfusion

/-- A settle keeps a record readable. -/
theorem decodes_settle [Platform] (hr : x.record.Decodes x.status.active)
    (hsnapshotting : x.snapshotting = false) :
    (x.settle x.record).Decodes x.status.active := by
  unfold Reading.settle
  split
  · exact hr
  · split
    · exact hr.congr rfl rfl rfl rfl
    · refine ⟨hr.started, fun hstarted hspent => ?_, fun hpending => ?_⟩
      · -- a record with attempts spent and no start has failed, and is read so again
        have hinactive : x.status.active = false := by
          cases hactive : x.status.active with
          | false => rfl
          | true => exact absurd hstarted (hr.started hactive)
        have hunspent : x.record.startAttempts ≠ noStartAttempts := by
          intro hnone
          refine hspent ?_
          dsimp only
          split
          · rfl
          · exact hnone
        obtain ⟨hstate, hstop⟩ := hr.spent hstarted hunspent
        exact ⟨state_of_failed hinactive hstate hstarted hstop hsnapshotting, hstop⟩
      · cases hactive : x.status.active with
        | true => exact absurd hpending (state_ne_pending_of_active hactive)
        | false =>
          rcases state_of_inactive hactive with hs | hs | hs | ⟨-, hstarted⟩
          · exact absurd (hs.symm.trans hpending) InstanceState.noConfusion
          · exact absurd (hs.symm.trans hpending) InstanceState.noConfusion
          · exact absurd (hs.symm.trans hpending) InstanceState.noConfusion
          · exact hstarted

end Reading

theorem Host.active_vmStatus (h : Host) (app : AppId) : (h.vmStatus app).active = h.isUp app := by
  unfold Host.vmStatus Host.isUp
  cases h.vms[app]? <;> rfl

/-! ### One event -/

/-- Whether a start is refused is read off the attempts alone. -/
theorem startRefused_map [Platform] (existing : Option InstanceRecord)
    {f : InstanceRecord → InstanceRecord} (hf : ∀ r, (f r).startAttempts = r.startAttempts)
    (nowMs : ℤ) (desired : DesiredInstance) :
    startRefused (existing.map f) nowMs desired = startRefused existing nowMs desired := by
  cases existing with
  | none => rfl
  | some r => simp only [Option.map_some, startRefused, Option.bind_some, hf]

theorem spentAttempts_map (existing : Option InstanceRecord)
    {f : InstanceRecord → InstanceRecord} (hf : ∀ r, (f r).startAttempts = r.startAttempts) :
    spentAttempts (existing.map f) = spentAttempts existing := by
  cases existing with
  | none => rfl
  | some r => exact hf r

namespace AppView.Decodes

variable {v v' : AppView}

/-- The document's fields say nothing about attempts. -/
theorem startAttempts_synced (d : HostDesiredState) (app : AppId) (r : InstanceRecord) :
    ((d.instances.find? fun wanted => wanted.appId = app).elim r
      (Host.syncFields · r)).startAttempts = r.startAttempts := by
  cases d.instances.find? fun wanted => wanted.appId = app <;> rfl

theorem synced (hd : v.Decodes) (d : HostDesiredState) (app : AppId) :
    (v.synced d app).Decodes := by
  refine hd.map_record (f := fun r => (d.instances.find? fun wanted => wanted.appId = app).elim r
    (Host.syncFields · r)) (fun r _ hr => ?_) rfl
  cases d.instances.find? fun wanted => wanted.appId = app with
  | none => exact hr
  | some wanted => exact hr.congr rfl rfl rfl rfl

theorem afterStop (hd : v.Decodes) (p : InstancePlan) : (v.afterStop p).Decodes := by
  cases p with
  | stop app reason => exact stop v
  | replace desired | recover desired | forget app => exact cleared v
  | start desired | sleep desired | hold desired | none app => exact hd

/-- The action of a pass, on the app as its stops left it. -/
private theorem actionEffect [Platform] (hd : v.Decodes) {p : InstancePlan} {answers : StartAnswers}
    {room : Prop} (hdown : v.isUp = false)
    (hspares : ∀ desired, p.broughtUp = some desired → SparesAttempts v.record desired answers)
    (he : ActionEffect answers room v p v') : v'.Decodes := by
  cases he with
  | stop | forget | leftAlone | notIsolated => exact hd
  | sleep desired v' he => exact hd.slotEffect hdown (hd.adoptedRecord hdown · .idle) he
  | hold desired v' he => exact hd.slotEffect hdown (fun _ => .of_unspent rfl rfl rfl) he
  | waiting p desired hp hroom shortfallMib v' he =>
    exact hd.slotEffect hdown (fun _ => .of_unspent rfl rfl rfl) he
  | started p desired hp v' he => exact hd.startEffect hdown (hspares desired hp) he

theorem passEffect [Platform] {h : Host} {app : AppId} (hd : (h.view app).Decodes)
    {d : HostDesiredState} {answers : Host.PassAnswers} (hkeeps : KeepsDecoding h (.pass d answers))
    (he : PassEffect h d answers app v') : v'.Decodes := by
  cases he with
  | skipped => exact hd
  | stopped hdoc hcron hnot hup slot => exact stop (h.view app)
  | forgotten hdoc hcron hnot hdown slot => exact cleared (h.view app)
  | unknown hdoc hcron hnot hvm hrecord slot => exact hd
  | named hdoc hcron wanted hw happ v₁ v₂ v' hgain hact hlose =>
    subst happ
    obtain ⟨slot, rfl, -⟩ := hlose
    obtain ⟨slot₁, rfl, -⟩ := hgain
    have hready : ((((h.view wanted.appId).synced d wanted.appId).afterStop
        (h.actionFor d wanted)).withSlot slot₁).Decodes :=
      (hd.synced d wanted.appId).afterStop (h.actionFor d wanted)
    cases hup : (((h.view wanted.appId).synced d wanted.appId).afterStop
        (h.actionFor d wanted)).isUp with
    | true =>
      -- an app still up after the stops is left alone
      obtain ⟨-, haction⟩ := Host.actionFor_eq_none_of_up hup
      rw [haction] at hact hready
      cases hact with
      | leftAlone => exact hready
      | notIsolated p desired hp => cases hp
      | waiting p desired hp => cases hp
      | started p desired hp => cases hp
    | false =>
      have hacted : v₂.Decodes := by
        refine hready.actionEffect hup (fun desired hbrought => ?_) hact
        obtain rfl := Host.broughtUp_actionFor hbrought
        cases haction : h.actionFor d desired with
        | start desired' =>
          rw [haction] at hbrought
          cases hbrought
          intro hbusy href
          have hspares := hkeeps desired hw haction hbusy
          rw [← startRefused_map _ (startAttempts_synced d desired.appId),
            ← spentAttempts_map _ (startAttempts_synced d desired.appId)] at hspares
          exact hspares href
        | replace desired' => exact fun _ _ => rfl
        | recover desired' => exact fun _ _ => rfl
        | _ =>
          rw [haction] at hbrought
          cases hbrought
      exact hacted

end AppView.Decodes

theorem decodes_step [Platform] {h : Host} (hk : h.Keyed) (hd : ∀ app, (h.view app).Decodes)
    {e : Event} (hkeeps : KeepsDecoding h e) (app : AppId) : ((h.step e).view app).Decodes := by
  have heffect := h.view_step hk e app
  generalize (h.step e).view app = v' at heffect
  -- by what the event does to the app; a refresh settles the record as it was read
  cases heffect with
  | same e => exact hd app
  | passed d answers v' he => exact .passEffect (hd app) hkeeps he
  | refreshed answers =>
    refine (hd app).map_record (f := fun r => (h.reading answers app r).settle r)
      (fun r _ hr => ?_) rfl
    have hactive : (h.reading answers app r).status.active = (h.view app).isUp :=
      h.active_vmStatus app
    rw [← hactive] at hr
    exact hactive ▸ Reading.decodes_settle hr rfl
  | suspended answer v' he => exact (hd app).suspendEffect he
  | said wanted answers said =>
    exact (hd app).map_record (f := fun r => { r with message := said r })
      (fun r _ hr => hr.congr rfl rfl rfl rfl) rfl
  | woken wanted happ answers v' he =>
    subst happ
    exact (hd _).resumeEffect hkeeps he
  | exited exit =>
    intro r hr
    refine ((hd app) r hr).down ?_
    rw [AppView.isUp, Option.any_map]
    cases (h.view app).vm <;> simp
  | stopped => exact .stop _
  | slept desired happ hdown v' he =>
    exact (hd app).slotEffect hdown ((hd app).adoptedRecord hdown · .idle) he
  | held desired happ hdown v' he | waiting desired happ hdown shortfallMib v' he =>
    exact (hd app).slotEffect hdown (fun _ => .of_unspent rfl rfl rfl) he
  | started desired happ hdown answers v' he =>
    subst happ
    exact (hd _).startEffect hdown hkeeps he

/-! ### Runs -/

/-- What became of the app's microVM has been read: a refresh finds the state the record has. -/
def Host.Settled (h : Host) (app : AppId) : Prop :=
  ∀ r, h.records[app]? = some r → ∃ answers, (h.reading answers app r).state = r.state

/-- A pending record has nothing spent on it. -/
theorem InstanceRecord.Decodes.unspent_of_pending {r : InstanceRecord} {isUp : Bool}
    (hd : r.Decodes isUp) (hpending : r.state = .pending) : r.startAttempts = noStartAttempts := by
  by_contra hspent
  have hfailed := (hd.spent (hd.pending hpending) hspent).1
  exact absurd (hfailed.symm.trans hpending) InstanceState.noConfusion

/-- A settled record that holds something has a microVM up. -/
theorem isUp_of_holdsSomething {h : Host} {app : AppId} {r : InstanceRecord}
    (hd : r.Decodes (h.isUp app)) (hr : h.records[app]? = some r) (hsettled : h.Settled app)
    (hholds : holdsSomething r = true) : h.isUp app = true := by
  by_contra hup
  have hdown : h.isUp app = false := by simpa using hup
  obtain ⟨answers, hstate⟩ := hsettled r hr
  have hinactive : (h.reading answers app r).status.active = false := by
    rw [Host.reading, Host.active_vmStatus, hdown]
  have hnothing : r.state ∈ holdsNothing ∨ r.state = .pending := by
    rw [← hstate]
    rcases Reading.state_of_inactive hinactive with hs | hs | hs | ⟨hs, -⟩
    all_goals simp [hs, holdsNothing]
  unfold holdsSomething at hholds
  rcases hnothing with hs | hs
  · simp [hs] at hholds
  · simp [hs, hd.unspent_of_pending hs] at hholds

/-- An app to be had on request that waits to be started is planned to be. -/
theorem actionFor_of_waiting {h : Host} {wanted : DesiredInstance} {r : InstanceRecord}
    (hd : r.Decodes (h.isUp wanted.appId)) (hr : h.records[wanted.appId]? = some r)
    (hpending : r.state = .pending) (hrequest : wanted.desiredState = .onRequest)
    (hdeployment : r.deploymentId = wanted.deploymentId) (d : HostDesiredState) :
    h.actionFor d wanted = .start wanted := by
  have hdown : (h.observeInstance wanted.appId).running = false := by
    rw [Host.running_observeInstance]
    cases hup : h.isUp wanted.appId with
    | false => rfl
    | true => exact absurd (hd.pending hpending) (hd.started hup)
  have hpresent : (h.observeInstance wanted.appId).present = true := by
    simp [Host.observeInstance, hr]
  have hrefused : (h.observeInstance wanted.appId).refused = true := by
    simp [Host.observeInstance, hr, hpending, hd.pending hpending, hd.unspent_of_pending hpending]
  have hsame : (h.observeInstance wanted.appId).deploymentId = some wanted.deploymentId := by
    simp [Host.observeInstance, hr, hdeployment]
  rw [Host.actionFor, planInstance_of_present wanted hpresent, planPresentInstance]
  simp [hrequest, hsame, hdown, hrefused]

/-- **No phantom commitment** along a run, from a host that holds nothing, that turns no start away
busy over attempts already spent: a settled record that holds something has a microVM up, a
pending record has nothing spent on it, and an app to be had on request whose start was put off is
planned to be started. -/
theorem no_phantom_run [Platform] (config : HostConfig) (maxApps : ℕ) (events : List Event)
    (hkeeps : Run.Meets Host.step KeepsDecoding (Host.fresh config maxApps) events) :
    let h := (Host.fresh config maxApps).run events
    (∀ (app : AppId) (r : InstanceRecord), h.records[app]? = some r → h.Settled app →
      holdsSomething r = true → h.isUp app = true) ∧
    (∀ (app : AppId) (r : InstanceRecord), h.records[app]? = some r → r.state = .pending →
      r.startAttempts = noStartAttempts) ∧
    ∀ (d : HostDesiredState) (wanted : DesiredInstance) (r : InstanceRecord),
      wanted ∈ d.instances → wanted.desiredState = .onRequest →
      h.records[wanted.appId]? = some r → r.state = .pending →
      r.deploymentId = wanted.deploymentId →
      .start wanted ∈ (planReconcile d (h.observe d)).instances := by
  have hfresh : ∀ app, ((Host.fresh config maxApps).view app).Decodes := by
    intro app r hr
    simp [Host.view, Host.fresh] at hr
  obtain ⟨hk, hd⟩ := Run.Meets.invariant
    (I := fun h : Host => h.Keyed ∧ ∀ app, (h.view app).Decodes)
    (fun h e hI hc => ⟨hI.1.step e, decodes_step hI.1 hI.2 hc⟩)
    ⟨Host.keyed_fresh config maxApps, hfresh⟩ hkeeps
  refine ⟨fun app r hr => isUp_of_holdsSomething (hd app r hr) hr,
    fun app r hr => (hd app r hr).unspent_of_pending, ?_⟩
  intro d wanted r hw hrequest hr hpending hdeployment
  rw [Host.mem_planInstances_iff]
  exact .inl ⟨wanted, hw,
    (actionFor_of_waiting (hd _ r hr) hr hpending hrequest hdeployment d).symm⟩

/-- One pass brings an app up, and its record, which holds something, is settled. -/
theorem no_phantom_run_soleBroughtUp :
    (∀ r, (@Host.run .plain smallHost soleBroughtUp).records[soleInstance.appId]? = some r →
      (@Host.run .plain smallHost soleBroughtUp).Settled soleInstance.appId →
      holdsSomething r = true →
      (@Host.run .plain smallHost soleBroughtUp).isUp soleInstance.appId = true) ∧
    (@Host.run .plain smallHost soleBroughtUp).records[soleInstance.appId]?.any
      holdsSomething = true := by
  refine ⟨fun r => (@no_phantom_run .plain smallHost.config 4 soleBroughtUp
    (And.intro ?_ trivial)).1 soleInstance.appId r, by decide +kernel⟩
  intro wanted _ _ hbusy
  cases hbusy

/-- The answers of a start whose layers cannot be fetched. -/
def notFetched : StartAnswers where
  nowMs := 0
  prepare := .error "no such layer"
  attach := .ok ()
  boot := .ok
  startedAtMs := 0

/-- The answers of a start the host is too busy for, a minute later. -/
def turnedAway : StartAnswers where
  nowMs := 60000
  prepare := .ok ()
  attach := .ok ()
  boot := .busy
  startedAtMs := 60000

/-- A pass that spends an attempt on the app, and one that is turned away. -/
def busyAfterFailure : List Event :=
  [.pass ⟨[soleVolume], [soleInstance], [], []⟩
      { Host.PassAnswers.succeed .change 0 with start := fun _ => notFetched },
    .pass ⟨[soleVolume], [soleInstance], [], []⟩
      { Host.PassAnswers.succeed .change 60000 with start := fun _ => turnedAway }]

/-- What a refresh that hears nothing reads. -/
def silence : RefreshAnswers where
  nowMs := 60000
  due _ := false
  probe _ := .ok ()
  probedAtMs _ := 0
  guestVerdict _ := none

/-- A start turned away busy over attempts already spent leaves a settled record that holds
something and has no microVM. -/
theorem not_no_phantom_of_busy :
    ¬ ∀ (_ : Platform) (config : HostConfig) (maxApps : ℕ) (events : List Event) (app : AppId)
        (r : InstanceRecord),
      ((Host.fresh config maxApps).run events).records[app]? = some r →
      ((Host.fresh config maxApps).run events).Settled app → holdsSomething r = true →
      ((Host.fresh config maxApps).run events).isUp app = true := by
  intro h
  have hsome : (@Host.run .plain smallHost busyAfterFailure).records[soleInstance.appId]?.isSome =
      true := by decide +kernel
  have hheld : (@Host.run .plain smallHost busyAfterFailure).records[soleInstance.appId]?.all
      (fun r => holdsSomething r && ((@Host.run .plain smallHost busyAfterFailure).reading silence
        soleInstance.appId r).state = r.state) = true := by decide +kernel
  have hdown : (@Host.run .plain smallHost busyAfterFailure).isUp soleInstance.appId = false := by
    decide +kernel
  obtain ⟨r, hr⟩ := Option.isSome_iff_exists.mp hsome
  rw [hr, Option.all_some, Bool.and_eq_true, decide_eq_true_eq] at hheld
  have hup := h .plain smallHost.config 4 busyAfterFailure soleInstance.appId r hr
    (fun r' hr' => by
      obtain rfl := Option.some.inj (hr.symm.trans hr')
      exact ⟨silence, hheld.2⟩) hheld.1
  exact Bool.false_ne_true (hdown.symm.trans hup)

end Nibrunner

import Nibrunner.Reconcile.Commitments

/-!
# The restart budget

An app under one deployment is booted at most once more than its policy allows restarts, and never
sooner after the last boot than the backoff of the attempts spent so far. What keeps both is the
window of attempts on the record: a start is admitted while the attempts are within the budget and
the backoff is done (`Admitted`), and spends one more (`nextAttemptWindow`).

`Budgeted` is what the window says about the boots made, and survives attempts that never came to
a boot. It needs the policy's numbers to fit the arithmetic they are compared in
(`RestartPolicy.Fits`): a `resetAfterMs` of `2 ^ 63` or more is negative by then, every attempt is
the first of a fresh window, and the budget is never spent (`not_restart_budget_of_wide_reset`).
-/

namespace Nibrunner

open Std MachineInt

/-! ### The window -/

/-- The numbers of a policy fit the signed 64-bit clock and the 32-bit counter. -/
structure RestartPolicy.Fits (policy : RestartPolicy) : Prop where
  reset : policy.resetAfterMs < 2 ^ 63
  backoff : policy.maxBackoffMs < 2 ^ 63
  restarts : policy.maxRestarts + 1 < 2 ^ 32

/-- An attempt is within the budget, and the backoff before it is done. -/
def Admitted [Platform] (policy : RestartPolicy) (window : AttemptWindow) (nowMs : ℤ) : Prop :=
  window.attempts ≤ policy.maxRestarts ∧ isReadyToRetry window nowMs policy = true

/-- A start goes ahead exactly when an attempt is admitted. -/
theorem startRefused_eq_none_iff [Platform] {existing : Option InstanceRecord} {nowMs : ℤ}
    {desired : DesiredInstance} :
    startRefused existing nowMs desired = none ↔
      Admitted desired.config.restartPolicy (spentAttempts existing) nowMs := by
  cases existing with
  | none => exact iff_of_true rfl ⟨Nat.zero_le _, rfl⟩
  | some r =>
    simp only [startRefused, Option.bind_some, spentAttempts, Option.elim_some, Admitted]
    split
    · rename_i hspent
      exact iff_of_false (Option.some_ne_none _) fun h => absurd h.1 (Nat.not_le.mpr hspent)
    · rename_i hleft
      split
      · rename_i hready
        exact iff_of_true rfl ⟨Nat.not_lt.mp hleft, hready⟩
      · rename_i hwait
        exact iff_of_false (Option.some_ne_none _) fun h => hwait h.2

/-- What a window says of the boots made, the latest first: they are within the budget, the last
attempt is no earlier than the last boot, and as many attempts are counted as there were boots,
unless so long has passed since the last boot that another would be one of a fresh window. -/
structure Budgeted (policy : RestartPolicy) (window : AttemptWindow) (boots : List ℤ) : Prop where
  count : boots.length ≤ policy.maxRestarts + 1
  window : ∀ last rest, boots = last :: rest →
    ∃ t, window.lastAttemptAtMs = some t ∧ last ≤ t ∧
      (boots.length ≤ window.attempts ∨ (policy.resetAfterMs : ℤ) ≤ t - last)

section Window

variable [Platform] {policy : RestartPolicy} {window : AttemptWindow} {boots : List ℤ} {nowMs : ℤ}

/-- An admitted attempt is made no sooner than the backoff after the last one. -/
theorem Admitted.delay_le (ha : Admitted policy window nowMs) (hfits : policy.Fits) {t : ℤ}
    (ht : window.lastAttemptAtMs = some t) :
    (backoffDelayMs window.attempts policy : ℤ) ≤ nowMs - t := by
  have hready := ha.2
  have hcap := backoffDelayMs_le window.attempts policy
  have hlt : backoffDelayMs window.attempts policy < 2 ^ 63 := Nat.lt_of_le_of_lt hcap hfits.backoff
  unfold isReadyToRetry at hready
  rw [ht] at hready
  simpa only [asI64_of_lt hlt, decide_eq_true_eq] using hready

/-- The attempts counted after one more. -/
theorem attempts_nextAttemptWindow (ha : Admitted policy window nowMs) (hfits : policy.Fits)
    {t : ℤ} (ht : window.lastAttemptAtMs = some t) :
    (nextAttemptWindow window nowMs policy.resetAfterMs).attempts =
      if (policy.resetAfterMs : ℤ) ≤ nowMs - t then 1 else window.attempts + 1 := by
  have hlt : window.attempts + 1 < 2 ^ 32 := by
    have := ha.1
    have := hfits.restarts
    omega
  simp only [nextAttemptWindow, ht, Option.elim_some, asI64_of_lt hfits.reset, wrapU32_of_lt hlt]

/-- An attempt that comes to no boot keeps the window true of the boots. -/
theorem Budgeted.attempt (hb : Budgeted policy window boots) (ha : Admitted policy window nowMs)
    (hfits : policy.Fits) :
    Budgeted policy (nextAttemptWindow window nowMs policy.resetAfterMs) boots := by
  refine ⟨hb.count, fun last rest hboots => ⟨nowMs, rfl, ?_⟩⟩
  obtain ⟨t, ht, hle, hcases⟩ := hb.window last rest hboots
  have hdelay := ha.delay_le hfits ht
  rw [attempts_nextAttemptWindow ha hfits ht]
  refine ⟨by omega, ?_⟩
  rcases hcases with hcounted | hlong
  · split
    · exact .inr (by omega)
    · exact .inl (by omega)
  · exact .inr (by omega)

/-- **A boot** less than `resetAfterMs` after the one before it spends one of the budget, and comes
no sooner than the backoff of the attempts spent so far. -/
theorem Budgeted.boot (hb : Budgeted policy window boots) (ha : Admitted policy window nowMs)
    (hfits : policy.Fits)
    (hgap : ∀ last rest, boots = last :: rest → nowMs - last < policy.resetAfterMs) :
    Budgeted policy (nextAttemptWindow window nowMs policy.resetAfterMs) (nowMs :: boots) ∧
      ∀ last rest, boots = last :: rest →
        (backoffDelayMs window.attempts policy : ℤ) ≤ nowMs - last := by
  have hwithin := ha.1
  cases boots with
  | nil =>
    refine ⟨⟨by simp, ?_⟩, fun last rest hnil => by cases hnil⟩
    rintro last rest ⟨⟩
    refine ⟨nowMs, rfl, Int.le_refl _, .inl ?_⟩
    have hlt : window.attempts + 1 < 2 ^ 32 := by
      have := hfits.restarts
      omega
    simp only [nextAttemptWindow, wrapU32_of_lt hlt]
    split <;> simp
  | cons last rest =>
    obtain ⟨t, ht, hle, hcases⟩ := hb.window last rest rfl
    have hdelay := ha.delay_le hfits ht
    have hsoon := hgap last rest rfl
    -- the boot is not long after the last one, so the window still counts
    have hcounted : (last :: rest).length ≤ window.attempts := by
      rcases hcases with hc | hlong
      · exact hc
      · omega
    refine ⟨⟨?_, ?_⟩, ?_⟩
    · rw [List.length_cons]
      omega
    · rintro last' rest' ⟨⟩
      refine ⟨nowMs, rfl, Int.le_refl _, .inl ?_⟩
      rw [attempts_nextAttemptWindow ha hfits ht, if_neg (by omega), List.length_cons]
      omega
    · rintro last' rest' ⟨⟩
      omega

end Window

/-! ### Undisturbed runs -/

/-- The event leaves the app's window to its starts and exits: a pass, if it is applied at all,
names the app under the policy, leaves it alone or starts it over the record it has, and finds room
for it; a refresh that sees the guest gone sees it less than `resetAfterMs` after its start; any
other event is about another app. -/
def LeavesWindow [Platform] (app : AppId) (policy : RestartPolicy) (h : Host) : Event → Prop
  | .pass d answers =>
    d.appIds.Nodup → answers.cron = true →
      ∃ wanted ∈ d.instances, wanted.appId = app ∧ wanted.config.restartPolicy = policy ∧
        (h.actionFor d wanted = .none app ∨ h.actionFor d wanted = .start wanted) ∧
        h.RoomFor d answers app
  | .refresh answers =>
    h.isUp app = false → ∀ r, h.records[app]? = some r → r.state ≠ .failed →
      ∀ started, r.startedAt = some started → answers.nowMs - started < policy.resetAfterMs
  | .guestExit .. => True
  | .suspend target _ => target ≠ app
  | .stop target => target ≠ app
  | .wake wanted _ => wanted.appId ≠ app
  | .sleep desired | .hold desired | .waitForRoom desired _ => desired.appId ≠ app
  | .start desired _ => desired.appId = app → desired.config.restartPolicy = policy

/-- The event leaves the app's window to its starts and exits, and a boot it makes is less than
`resetAfterMs` after the one before. -/
structure Undisturbed [Platform] (app : AppId) (policy : RestartPolicy) (h : Host) (e : Event) :
    Prop where
  window : LeavesWindow app policy h e
  boots : ∀ t last rest, h.boots app = last :: rest →
    (h.step e).boots app = t :: last :: rest → t - last < policy.resetAfterMs

/-- The record's window is true of the app's boots, and its policy is the one it is started
under. -/
structure AppView.Budgeted (policy : RestartPolicy) (v : AppView) : Prop where
  window : Nibrunner.Budgeted policy (spentAttempts v.record) v.boots
  policy : ∀ r, v.record = some r → r.restartPolicy = policy

section Record

variable {policy : RestartPolicy} {v v' : AppView}

/-- A step that spends nothing and makes no boot. -/
theorem AppView.Budgeted.congr (hb : v.Budgeted policy)
    (hspent : spentAttempts v'.record = spentAttempts v.record) (hboots : v'.boots = v.boots)
    (hpolicy : ∀ r, v'.record = some r → r.restartPolicy = policy) : v'.Budgeted policy where
  window := by
    rw [hspent, hboots]
    exact hb.window
  policy := hpolicy

theorem AppView.Budgeted.map_record (hb : v.Budgeted policy)
    {f : InstanceRecord → InstanceRecord}
    (hf : ∀ r, v.record = some r → (f r).startAttempts = r.startAttempts ∧
      (f r).restartPolicy = policy)
    (hrecord : v'.record = v.record.map f) (hboots : v'.boots = v.boots) : v'.Budgeted policy := by
  refine hb.congr ?_ hboots fun r hr => ?_
  · rw [hrecord]
    cases hv : v.record with
    | none => rfl
    | some r => exact (hf r hv).1
  · rw [hrecord] at hr
    obtain ⟨r', hr', rfl⟩ := Option.map_eq_some_iff.mp hr
    exact (hf r' hr').2

theorem spentAttempts_adoptedRecord (existing : Option InstanceRecord) (desired : DesiredInstance)
    (slot : AppSlot) (state : InstanceState) :
    (adoptedRecord existing desired slot state).startAttempts = spentAttempts existing := by
  cases existing <;> rfl

theorem restartPolicy_adoptedRecord (existing : Option InstanceRecord) (desired : DesiredInstance)
    (slot : AppSlot) (state : InstanceState) :
    (adoptedRecord existing desired slot state).restartPolicy = desired.config.restartPolicy := by
  cases existing <;> rfl

end Record

/-- What a step of an undisturbed run does to the app: its window stays true of its boots, and a
boot comes no sooner than the backoff of the attempts spent before it. -/
def BudgetStep [Platform] (policy : RestartPolicy) (v v' : AppView) : Prop :=
  v'.Budgeted policy ∧ ∀ t last rest, v.boots = last :: rest → v'.boots = t :: last :: rest →
    (backoffDelayMs (spentAttempts v.record).attempts policy : ℤ) ≤ t - last

section Step

variable [Platform] {policy : RestartPolicy} {v v' : AppView}

/-- A step that makes no boot. -/
theorem BudgetStep.of_boots_eq (hb : v'.Budgeted policy) (hboots : v'.boots = v.boots) :
    BudgetStep policy v v' := by
  refine ⟨hb, fun t last rest hv hv' => ?_⟩
  rw [hboots, hv] at hv'
  have hlength := congrArg List.length hv'
  simp at hlength

/-- **A start under the policy.** -/
theorem AppView.Budgeted.startEffect (hb : v.Budgeted policy) (hfits : policy.Fits)
    {desired : DesiredInstance} (hpolicy : desired.config.restartPolicy = policy)
    {answers : StartAnswers}
    (hgap : ∀ t last rest, v.boots = last :: rest → v'.boots = t :: last :: rest →
      t - last < policy.resetAfterMs)
    (he : StartEffect desired answers v v') : BudgetStep policy v v' := by
  have hadmitted : startRefused v.record answers.nowMs desired = none →
      Admitted policy (spentAttempts v.record) answers.nowMs := fun href => by
    rw [← hpolicy]
    exact startRefused_eq_none_iff.mp href
  have hadopted := fun slot => restartPolicy_adoptedRecord v.record desired slot .pending
  -- the three exits that spend an attempt leave the same window and policy
  have hnext : ∀ slot, (attemptedRecord v.record desired slot answers.nowMs).startAttempts =
      nextAttemptWindow (spentAttempts v.record) answers.nowMs policy.resetAfterMs := fun slot => by
    rw [← hpolicy]
    rfl
  cases he with
  | refused r said hr href =>
    refine .of_boots_eq (hb.congr ?_ rfl fun r' hr' => ?_) rfl
    · rw [hr]
      rfl
    · cases hr'
      exact hb.policy r hr
  | noSlot href hslot =>
    refine .of_boots_eq (hb.congr ?_ rfl fun r' hr' => ?_) rfl
    · cases v.record <;> rfl
    · cases hr'
      rw [← hpolicy]
      cases v.record <;> rfl
  | turnedDown href slot hslot said =>
    refine .of_boots_eq (hb.congr ?_ rfl fun r' hr' => ?_) rfl
    · exact spentAttempts_adoptedRecord _ _ _ _
    · cases hr'
      exact (hadopted _).trans hpolicy
  | notBooted href slot hslot said =>
    refine .of_boots_eq ⟨?_, fun r' hr' => ?_⟩ rfl
    · have hwindow := hb.window.attempt (hadmitted href) hfits
      rw [← hnext (describeSlot slot desired.appId)] at hwindow
      exact hwindow
    · cases hr'
      exact (hadopted _).trans hpolicy
  | busy href slot hslot hbusy =>
    refine .of_boots_eq (hb.congr rfl rfl fun r' hr' => ?_) rfl
    cases hr'
    exact (hadopted _).trans hpolicy
  | bootFailed href slot hslot said vm hvm | booted href slot hslot hdown =>
    obtain ⟨hwindow, hdelay⟩ := hb.window.boot (hadmitted href) hfits
      fun last rest hboots => hgap _ last rest hboots (congrArg (answers.nowMs :: ·) hboots)
    rw [← hnext (describeSlot slot desired.appId)] at hwindow
    refine ⟨⟨hwindow, fun r' hr' => ?_⟩, fun t last rest hboots hboots' => ?_⟩
    · cases hr'
      exact (hadopted _).trans hpolicy
    · obtain rfl : answers.nowMs = t := (List.cons.inj hboots').1
      exact hdelay last rest hboots

/-- A pass over the app, under the policy. -/
theorem AppView.Budgeted.passEffect {h : Host} {app : AppId} (hb : (h.view app).Budgeted policy)
    (hfits : policy.Fits) {d : HostDesiredState} {answers : Host.PassAnswers}
    (hleaves : LeavesWindow app policy h (.pass d answers))
    (hgap : ∀ t last rest, (h.view app).boots = last :: rest → v'.boots = t :: last :: rest →
      t - last < policy.resetAfterMs)
    (he : PassEffect h d answers app v') : BudgetStep policy (h.view app) v' := by
  have hnamed : d.appIds.Nodup → answers.cron = true → app ∉ d.appIds → False := by
    intro hd hcron hnot
    obtain ⟨wanted, hw, happ, -⟩ := hleaves hd hcron
    exact hnot (List.mem_map.mpr ⟨wanted, hw, happ⟩)
  cases he with
  | skipped => exact .of_boots_eq hb rfl
  | stopped hd hcron hnot hup slot | forgotten hd hcron hnot hdown slot
  | unknown hd hcron hnot hvm hrecord slot => exact (hnamed hd hcron hnot).elim
  | named hd hcron wanted hw happ v₁ v₂ v' hgain hact hlose =>
    obtain ⟨wanted', hw', happ', hpolicy, haction, hroom⟩ := hleaves hd hcron
    obtain rfl : wanted' = wanted := List.inj_on_of_nodup_map hd hw' hw (happ'.trans happ.symm)
    subst happ
    obtain ⟨slot, rfl, -⟩ := hlose
    obtain ⟨slot₁, rfl, -⟩ := hgain
    have hsynced : ((h.view wanted'.appId).synced d wanted'.appId).Budgeted policy := by
      rw [AppView.synced_of_mem hd hw]
      exact hb.map_record (f := Host.syncFields wanted') (fun r _ => ⟨rfl, hpolicy⟩) rfl rfl
    -- the document's fields are put on the record, and spend nothing
    have hspent : spentAttempts ((h.view wanted'.appId).synced d wanted'.appId).record =
        spentAttempts (h.view wanted'.appId).record :=
      spentAttempts_map _ (AppView.Decodes.startAttempts_synced d wanted'.appId)
    -- the app is left alone or started, which is where an attempt is spent
    rcases haction with haction | haction
    all_goals rw [haction] at hact
    · cases hact with
      | leftAlone => exact .of_boots_eq ⟨hsynced.window, hsynced.policy⟩ rfl
      | notIsolated p desired hp => cases hp
      | waiting p desired hp => cases hp
      | started p desired hp => cases hp
    · have hready :
          (((h.view wanted'.appId).synced d wanted'.appId).withSlot slot₁).Budgeted policy :=
        ⟨hsynced.window, hsynced.policy⟩
      cases hact with
      | notIsolated p desired hp => exact .of_boots_eq ⟨hsynced.window, hsynced.policy⟩ rfl
      | waiting p desired hp hno => exact absurd hroom hno
      | started p desired hp v₂ he =>
        cases hp
        have hstep : BudgetStep policy _ v₂ := hready.startEffect hfits hpolicy hgap he
        obtain ⟨hb₂, hdelay⟩ := hstep
        refine ⟨⟨hb₂.window, hb₂.policy⟩, fun t last rest hboots hboots' => ?_⟩
        rw [← hspent]
        exact hdelay t last rest hboots hboots'

/-- A refresh that sees no exit after a long uptime. -/
theorem AppView.Budgeted.refreshed {h : Host} {app : AppId} (hb : (h.view app).Budgeted policy)
    (hfits : policy.Fits) {answers : RefreshAnswers}
    (hleaves : LeavesWindow app policy h (.refresh answers)) :
    AppView.Budgeted policy { h.view app with
      record := (h.view app).record.map fun r => (h.reading answers app r).settle r } := by
  refine hb.map_record (f := fun r => (h.reading answers app r).settle r) (fun r hr => ?_) rfl rfl
  have hpolicy := hb.policy r hr
  unfold Reading.settle
  split
  · exact ⟨rfl, hpolicy⟩
  · split
    · exact ⟨rfl, hpolicy⟩
    · rename_i hmoved
      refine ⟨if_neg ?_, hpolicy⟩
      -- the window is given back only for an exit seen `resetAfterMs` after the start
      intro hstayed
      simp only [Reading.stayedUp, Bool.and_eq_true, decide_eq_true_eq, Bool.not_eq_true']
        at hstayed
      obtain ⟨⟨hfailed, hinactive⟩, huptime⟩ := hstayed
      have hdown : h.isUp app = false := by
        rw [← h.active_vmStatus app]
        exact hinactive
      obtain ⟨started, hstarted, hlong⟩ := Option.any_eq_true _ _ |>.mp huptime
      have hshort :=
        hleaves hdown r hr (fun heq => hmoved (hfailed.trans heq.symm)) started hstarted
      rw [decide_eq_true_eq,
        show (h.reading answers app r).record.restartPolicy = policy from hpolicy,
        asI64_of_lt hfits.reset] at hlong
      exact absurd hshort (Int.not_lt.mpr hlong)

/-- **One event** of an undisturbed run. -/
theorem budget_step {h : Host} (hk : h.Keyed) {app : AppId} (hb : (h.view app).Budgeted policy)
    (hfits : policy.Fits) {e : Event} (hu : Undisturbed app policy h e) :
    BudgetStep policy (h.view app) ((h.step e).view app) := by
  obtain ⟨hleaves, hboots⟩ := hu
  have heffect := h.view_step hk e app
  generalize hv : (h.step e).view app = v' at heffect ⊢
  have hgap : ∀ t last rest, (h.view app).boots = last :: rest → v'.boots = t :: last :: rest →
      t - last < policy.resetAfterMs := by
    rw [← hv]
    exact hboots
  cases heffect with
  | same e => exact .of_boots_eq hb rfl
  | passed d answers v' he => exact hb.passEffect hfits hleaves hgap he
  | refreshed answers => exact .of_boots_eq (hb.refreshed hfits hleaves) rfl
  | suspended answer v' he => exact absurd rfl hleaves
  | said wanted answers said =>
    exact .of_boots_eq (hb.map_record (f := fun r => { r with message := said r })
      (fun r hr => ⟨rfl, hb.policy r hr⟩) rfl rfl) rfl
  | woken wanted happ answers v' he => exact absurd happ hleaves
  | exited exit => exact .of_boots_eq ⟨hb.window, hb.policy⟩ rfl
  | stopped => exact absurd rfl hleaves
  | slept desired happ hdown v' he | held desired happ hdown v' he
  | waiting desired happ hdown shortfallMib v' he => exact absurd happ hleaves
  | started desired happ hdown answers v' he =>
    subst happ
    exact hb.startEffect hfits (hleaves rfl) hgap he

end Step

/-! ### Runs -/

/-- **The restart budget.** Along an undisturbed run of an app whose policy's numbers fit, the app
is booted at most once more than the policy allows restarts, and between two consecutive boots at
least the backoff of the attempts spent so far elapses. -/
theorem restart_budget_run [Platform] {policy : RestartPolicy} (hfits : policy.Fits) {h : Host}
    (hk : h.Keyed) {app : AppId} (hboots : h.boots app = [])
    (hpolicy : ∀ r, h.records[app]? = some r → r.restartPolicy = policy) (events : List Event)
    (hrun : Run.Meets Host.step (Undisturbed app policy) h events) :
    ((h.run events).boots app).length ≤ policy.maxRestarts + 1 ∧
      ∀ before e after, events = before ++ e :: after → ∀ t last rest,
        (h.run before).boots app = last :: rest →
        ((h.run before).step e).boots app = t :: last :: rest →
        (backoffDelayMs (spentAttempts (h.run before).records[app]?).attempts policy : ℤ) ≤
          t - last := by
  have hstart : (h.view app).Budgeted policy := by
    refine ⟨⟨?_, fun last rest hb => ?_⟩, hpolicy⟩
    · rw [show (h.view app).boots = [] from hboots]
      exact Nat.zero_le _
    · rw [show (h.view app).boots = [] from hboots] at hb
      cases hb
  have hreached : ∀ events, Run.Meets Host.step (Undisturbed app policy) h events →
      (h.run events).Keyed ∧ ((h.run events).view app).Budgeted policy := fun events hmeets =>
    Run.Meets.invariant
      (I := fun h : Host => h.Keyed ∧ (h.view app).Budgeted policy)
      (fun h e hI hu => ⟨hI.1.step e, (budget_step hI.1 hI.2 hfits hu).1⟩) ⟨hk, hstart⟩ hmeets
  refine ⟨(hreached events hrun).2.window.count, ?_⟩
  rintro before e after rfl t last rest hlast hnext
  obtain ⟨hbefore, hrest⟩ := Run.meets_append.mp hrun
  obtain ⟨hkb, hbb⟩ := hreached before hbefore
  exact (budget_step hkb hbb hfits hrest.1).2 t last rest hlast hnext

/-! ### A guest that keeps exiting -/

/-- The app under a policy. -/
def policyInstance (policy : RestartPolicy) : DesiredInstance :=
  { soleInstance with config := { soleInstance.config with restartPolicy := policy } }

/-- A document of its own. -/
def underPolicy (policy : RestartPolicy) : HostDesiredState :=
  ⟨[soleVolume], [policyInstance policy], [], []⟩

/-- The app is booted, and booted again each time its guest exits. -/
def bootedOverAndOver (policy : RestartPolicy) : List Event :=
  [.pass (underPolicy policy) (.succeed .change 0), .guestExit soleInstance.appId (.code 1),
    .pass (underPolicy policy) (.succeed .tick 1000), .guestExit soleInstance.appId (.code 1),
    .pass (underPolicy policy) (.succeed .tick 2000)]

/-- A pass that starts the app, with room for it, soon after its last boot. -/
def startsAgain [Platform] (policy : RestartPolicy) (h : Host)
    (answers : Host.PassAnswers) : Bool :=
  h.actionFor (underPolicy policy) (policyInstance policy) = .start (policyInstance policy) &&
    startsOf (planReconcile (underPolicy policy) (h.observe (underPolicy policy))) =
      [policyInstance policy] &&
    Host.shortfallIn (h.wave (underPolicy policy) answers []) (policyInstance policy) = none &&
    match h.boots soleInstance.appId,
      (h.reconcile (underPolicy policy) answers).boots soleInstance.appId with
    | last :: _, t :: _ => t - last < policy.resetAfterMs
    | _, _ => true

theorem undisturbed_of_startsAgain [Platform] {policy : RestartPolicy} {h : Host}
    {answers : Host.PassAnswers} (hstarts : startsAgain policy h answers = true) :
    Undisturbed soleInstance.appId policy h (.pass (underPolicy policy) answers) := by
  simp only [startsAgain, Bool.and_eq_true, decide_eq_true_eq] at hstarts
  obtain ⟨⟨⟨haction, hstarts⟩, hroom⟩, hgap⟩ := hstarts
  refine ⟨fun _ _ => ⟨policyInstance policy, List.mem_singleton.mpr rfl, rfl, rfl, .inr haction,
    Host.roomFor_of_startsOf_eq hstarts hroom _⟩, fun t last rest hlast hnext => ?_⟩
  rw [hlast,
    show (h.reconcile (underPolicy policy) answers).boots soleInstance.appId = _ from hnext]
    at hgap
  exact of_decide_eq_true hgap

theorem undisturbed_guestExit [Platform] (app target : AppId) (policy : RestartPolicy) (h : Host)
    (exit : VmExit) : Undisturbed app policy h (.guestExit target exit) := by
  refine ⟨trivial, fun t last rest hlast hnext => ?_⟩
  have hlength := congrArg List.length (hlast.symm.trans hnext)
  simp at hlength

/-- Three boots under the default policy, a second apart, are within its budget. -/
theorem restart_budget_run_default :
    (@Host.run .plain smallHost (bootedOverAndOver defaultRestartPolicy)).boots soleInstance.appId =
      [2000, 1000, 0] ∧
    ((@Host.run .plain smallHost (bootedOverAndOver defaultRestartPolicy)).boots
      soleInstance.appId).length ≤ defaultRestartPolicy.maxRestarts + 1 := by
  refine ⟨by decide +kernel, (@restart_budget_run .plain defaultRestartPolicy
    ⟨by decide, by decide, by decide⟩ smallHost (Host.keyed_fresh _ _) _ rfl ?_ _ ?_).1⟩
  · intro r hr
    simp [smallHost, Host.fresh] at hr
  · exact ⟨@undisturbed_of_startsAgain .plain _ _ _ (by decide +kernel),
      @undisturbed_guestExit .plain ..,
      @undisturbed_of_startsAgain .plain _ _ _ (by decide +kernel),
      @undisturbed_guestExit .plain ..,
      @undisturbed_of_startsAgain .plain _ _ _ (by decide +kernel), trivial⟩

/-- One restart, and a reset that is negative once it is read as a signed number. -/
def wideReset : RestartPolicy :=
  { defaultRestartPolicy with maxRestarts := 1, resetAfterMs := 2 ^ 63 }

/-- Under a policy whose reset does not fit, the budget is never spent. -/
theorem not_restart_budget_of_wide_reset :
    ¬ ∀ (_ : Platform) (policy : RestartPolicy) (h : Host) (app : AppId) (events : List Event),
      policy.resetAfterMs < 2 ^ 64 → policy.maxBackoffMs < 2 ^ 64 → policy.maxRestarts < 2 ^ 32 →
      h.Keyed → h.boots app = [] →
      (∀ r, h.records[app]? = some r → r.restartPolicy = policy) →
      Run.Meets Host.step (Undisturbed app policy) h events →
      ((h.run events).boots app).length ≤ policy.maxRestarts + 1 := by
  intro hbudget
  have hboots : (@Host.run .plain smallHost (bootedOverAndOver wideReset)).boots
      soleInstance.appId = [2000, 1000, 0] := by decide +kernel
  have hle := hbudget .plain wideReset smallHost soleInstance.appId (bootedOverAndOver wideReset)
    (by decide) (by decide) (by decide) (Host.keyed_fresh _ _) rfl
    (fun r hr => by simp [smallHost, Host.fresh] at hr)
    ⟨@undisturbed_of_startsAgain .plain _ _ _ (by decide +kernel), @undisturbed_guestExit .plain ..,
      @undisturbed_of_startsAgain .plain _ _ _ (by decide +kernel),
      @undisturbed_guestExit .plain ..,
      @undisturbed_of_startsAgain .plain _ _ _ (by decide +kernel), trivial⟩
  rw [hboots] at hle
  exact absurd hle (by decide)

end Nibrunner

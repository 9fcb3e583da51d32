import Nibrunner.Daemon.TaskEffects

/-!
# A sleep and the guest it paused

A sleep pauses the app's guest, writes it out and stops it. The stop, the snapshot and the record
it ends in are all addressed to the app, not to the process that was paused. `KeepsOut` says when
that makes no difference: no pass spawns a process for an app while a sleep of it is between its
pause and its end. Along every run of such moves a sleep ends the guest it paused and no other, and
calls the app idle only once it is down (`sleep_ends_own_run`).

A request cannot come between: it wakes an app under the transition the sleep holds (`Locked`).

`not_sparesNewGuest` is a recovery that runs while the snapshot is being published: the sleep stops
the guest the recovery booted.
-/

namespace Nibrunner

open Std

/-! ### The transition of an app -/

/-- The task holds its app's transition. -/
def Task.holds : Task → Bool
  | wake _ _ (.room) | wake _ _ (.noRoom _) | wake _ _ (.lock) => false
  | wake _ _ _ => true
  | suspend _ _ .lock => false
  | suspend _ _ _ => true
  | _ => false

/-- The effect neither takes nor releases a transition. -/
def Effect.Unlocked : Effect → Prop
  | .acquire _ | .release => False
  | _ => True

theorem Daemon.transition_act {d : Daemon} {app : AppId} {e : Effect} (he : e.Unlocked) :
    (d.act app e).transition = d.transition := by
  cases e with
  | acquire task => exact he.elim
  | release => exact he.elim
  | reap process => cases process <;> rfl
  | _ => rfl

theorem Daemon.transition_actAll {d : Daemon} {app : AppId} {effects : List Effect}
    (he : ∀ e ∈ effects, e.Unlocked) : (d.actAll app effects).transition = d.transition := by
  induction effects generalizing d with
  | nil => rfl
  | cons e effects ih =>
    exact (ih fun e' h => he e' (List.mem_cons_of_mem e h)).trans
      (transition_act (he e List.mem_cons_self))

/-- **What a step of a task does to its app's transition.** -/
inductive LockEffect (d : Daemon) (t : ℕ) (task : Task) : List Effect → Option Task → Prop where
  | kept (effects : List Effect) (heffects : ∀ e ∈ effects, e.Unlocked) (task' : Option Task)
      (hafter : ∀ after, task' = some after → after.holds = true →
        task.holds = true ∧ after.app = task.app) : LockEffect d t task effects task'
  | acquired (hfree : d.transition task.app = none) (task' : Option Task)
      (hafter : ∀ after, task' = some after → after.app = task.app) :
      LockEffect d t task [.acquire t] task'
  | released (hholds : task.holds = true) : LockEffect d t task [.release] none

theorem StopPc.unlocked_next (d : Daemon) (app : AppId) (pc : StopPc) :
    ∀ e ∈ (pc.next d app).1, e.Unlocked := by
  cases pc <;> simp [StopPc.next, Effect.Unlocked]

theorem StartPc.unlocked_next [Platform] (d : Daemon) (desired : DesiredInstance)
    (answers : StartAnswers) (pc : StartPc) :
    ∀ e ∈ (pc.next d desired answers).1, e.Unlocked := by
  cases pc
  all_goals
    unfold StartPc.next
    dsimp only
    repeat' split
    all_goals simp [Effect.Unlocked]

namespace LockEffect

variable {d : Daemon} {t : ℕ} {task : Task} {effects : List Effect} {task' : Option Task}

/-- A step of a task that never holds a transition. -/
theorem of_free (heffects : ∀ e ∈ effects, e.Unlocked)
    (hafter : ∀ after, task' = some after → after.holds = false) :
    LockEffect d t task effects task' := by
  refine .kept _ heffects _ fun after ha hh => ?_
  rw [hafter after ha] at hh
  cases hh

/-- A step under the transition. -/
theorem of_held (heffects : ∀ e ∈ effects, e.Unlocked) (hholds : task.holds = true)
    (hafter : ∀ after, task' = some after → after.app = task.app) :
    LockEffect d t task effects task' :=
  .kept _ heffects _ fun after ha _ => ⟨hholds, hafter after ha⟩

end LockEffect

theorem Task.lock_wave [Platform] (d : Daemon) (t : ℕ) (current : WaveStart)
    (rest : List WaveStart) (records : List InstanceRecord) (pc : WavePc) :
    LockEffect d t (.wave current rest records pc) (next d t (.wave current rest records pc)).1
      (next d t (.wave current rest records pc)).2 := by
  have hstart : ∀ records' after, Task.nextStart records' rest = some after →
      after.holds = false := by
    intro records' after ha
    cases rest <;> cases ha
    rfl
  cases pc with
  | measure =>
    unfold Task.next
    dsimp only
    split
    all_goals exact .of_free (by simp) (by rintro after ⟨⟩; rfl)
  | waiting shortfall pc =>
    refine .of_free ?_ fun after ha => ?_
    · cases pc
      all_goals
        simp only [Task.next, WaitPc.next]
        try split
        all_goals simp [Effect.Unlocked]
    · change (pc.next d current.1 shortfall).2.elim _ _ = _ at ha
      cases hpc : (pc.next d current.1 shortfall).2 with
      | none => rw [hpc] at ha; exact hstart _ after ha
      | some pc' => rw [hpc] at ha; cases ha; rfl
  | starting pc => exact .of_free (pc.unlocked_next d _ _) (by rintro after ⟨⟩; rfl)
  | reread => exact .of_free (by simp [Task.next]) (hstart _)

/-- A sleep takes the transition where it waits for it, and lets it go at its end. -/
theorem Task.lock_suspend [Platform] (d : Daemon) (t : ℕ) (app : AppId)
    (answer : Host.SleepAnswer) (pc : SuspendPc) :
    LockEffect d t (.suspend app answer pc) (next d t (.suspend app answer pc)).1
      (next d t (.suspend app answer pc)).2 := by
  have happ : ∀ after, (Task.next d t (.suspend app answer pc)).2 = some after →
      after.app = app := by
    intro after ha
    obtain ⟨pc', -, rfl⟩ := Option.map_eq_some_iff.mp ha
    rfl
  cases pc with
  | lock =>
    unfold Task.next SuspendPc.next at happ ⊢
    dsimp only at happ ⊢
    split
    · exact .of_free (by simp) (by rintro after ⟨⟩; rfl)
    · rename_i hfree
      exact .acquired (Option.not_isSome_iff_eq_none.mp hfree) _ (by rintro after ⟨⟩; rfl)
  | unlock => exact .released rfl
  | stop pc => exact .of_held (pc.unlocked_next d app) rfl happ
  | _ =>
    refine .of_held ?_ rfl happ
    unfold Task.next SuspendPc.next
    dsimp only
    repeat' split
    all_goals simp [Effect.Unlocked]

/-- A wake takes the transition once it has found room, and lets it go at its end. -/
theorem Task.lock_wake [Platform] (d : Daemon) (t : ℕ) (wanted : DesiredInstance)
    (answers : Host.WakeAnswers) (pc : WakePc) :
    LockEffect d t (.wake wanted answers pc) (next d t (.wake wanted answers pc)).1
      (next d t (.wake wanted answers pc)).2 := by
  have happ : ∀ after, (Task.next d t (.wake wanted answers pc)).2 = some after →
      after.app = wanted.appId := by
    intro after ha
    obtain ⟨pc', -, rfl⟩ := Option.map_eq_some_iff.mp ha
    rfl
  cases pc with
  | room =>
    unfold Task.next WakePc.next
    dsimp only
    repeat' split
    all_goals exact .of_free (by simp) (by rintro after ⟨⟩ <;> rfl)
  | noRoom shortfall =>
    exact .of_free (by simp [Task.next, WakePc.next, Effect.Unlocked]) (by rintro after ⟨⟩)
  | lock =>
    unfold Task.next WakePc.next
    dsimp only
    split
    · exact .of_free (by simp) (by rintro after ⟨⟩; rfl)
    · rename_i hfree
      exact .acquired (Option.not_isSome_iff_eq_none.mp hfree) _ (by rintro after ⟨⟩; rfl)
  | unlock => exact .released rfl
  | cold pc => exact .of_held (pc.unlocked_next d _ _) rfl happ
  | _ =>
    refine .of_held ?_ rfl happ
    unfold Task.next WakePc.next
    dsimp only
    repeat' split
    all_goals simp [Effect.Unlocked]

theorem Task.lock_cases [Platform] (d : Daemon) (t : ℕ) (task : Task) :
    LockEffect d t task (task.next d t).1 (task.next d t).2 := by
  -- only a sleep and a wake know the lock
  cases task with
  | stop app pc =>
    refine .of_free (pc.unlocked_next d app) fun after ha => ?_
    obtain ⟨pc', -, rfl⟩ := Option.map_eq_some_iff.mp ha
    rfl
  | discard app pc =>
    refine .of_free ?_ fun after ha => ?_
    · cases pc <;> simp [Task.next, DiscardPc.next, Effect.Unlocked]
    · obtain ⟨pc', -, rfl⟩ := Option.map_eq_some_iff.mp ha
      rfl
  | settle app answers pc =>
    refine .of_free ?_ fun after ha => ?_
    · cases pc <;> simp [Task.next, SettlePc.next, Effect.Unlocked]
    · obtain ⟨pc', -, rfl⟩ := Option.map_eq_some_iff.mp ha
      rfl
  | wave current rest records pc => exact lock_wave d t current rest records pc
  | suspend app answer pc => exact lock_suspend d t app answer pc
  | wake wanted answers pc => exact lock_wake d t wanted answers pc

/-- **A task that holds a transition is its holder.** -/
def Locked (d : Daemon) : Prop :=
  ∀ t task, d.tasks t = some task → task.holds = true → d.transition task.app = some t

/-- The transition of an app is held by one task. -/
theorem Locked.unique {d : Daemon} (hd : Locked d) {t t' : ℕ} {task task' : Task}
    (ht : d.tasks t = some task) (ht' : d.tasks t' = some task') (hh : task.holds = true)
    (hh' : task'.holds = true) (happ : task.app = task'.app) : t = t' := by
  have h₁ := hd t task ht hh
  have h₂ := hd t' task' ht' hh'
  rw [happ, h₂] at h₁
  exact (Option.some.inj h₁).symm

theorem Locked.step [Platform] {d : Daemon} (hd : Locked d) (m : Move) : Locked (d.step m) := by
  cases m with
  | begin t operation =>
    simp only [Daemon.step]
    split
    · intro t' task ht hh
      rw [Daemon.tasks_setTask] at ht
      split at ht
      · cases Operation.begun ht <;> cases hh
      · exact hd t' task ht hh
    · exact hd
  | guestExit app exit => exact hd
  | strayExit app process => exact hd
  | step t =>
    cases ht : d.tasks t with
    | none =>
      rw [Daemon.step_none ht]
      exact hd
    | some task =>
      rw [Daemon.step_task ht]
      have he := task.lock_cases d t
      generalize (task.next d t).1 = effects, (task.next d t).2 = after at he ⊢
      intro t' other ht' hh
      rw [Daemon.tasks_setTask, Daemon.tasks_actAll] at ht'
      -- no other task has the lock of this app: it was found free, or this one has it
      cases he with
      | kept _ heffects _ hafter =>
        change (d.actAll task.app effects).transition other.app = some t'
        rw [Daemon.transition_actAll heffects]
        split at ht'
        · obtain ⟨hholds, happ⟩ := hafter other ht' hh
          rw [happ, ‹t' = t›]
          exact hd t task ht hholds
        · exact hd t' other ht' hh
      | acquired hfree _ hafter =>
        change Function.update d.transition task.app (some t) other.app = some t'
        split at ht'
        · rw [hafter other ht', ‹t' = t›]
          exact Function.update_self ..
        · have hother := hd t' other ht' hh
          rw [Function.update_of_ne]
          · exact hother
          · intro happ
            rw [happ, hfree] at hother
            cases hother
      | released hholds =>
        change Function.update d.transition task.app none other.app = some t'
        split at ht'
        · cases ht'
        · rw [Function.update_of_ne]
          · exact hd t' other ht' hh
          · intro happ
            exact ‹t' ≠ t› (hd.unique ht' ht hh hholds happ)

/-! ### What a sleep has paused -/

/-- The process a sleep has paused, until it is done with it. -/
def SuspendPc.paused : SuspendPc → Option ℕ
  | create _ _ paused | publish _ paused | ask paused | reap _ paused | idle paused
  | recover paused | recovered _ paused => some paused
  | _ => none

/-- The sleep is on the way to end the process it paused: it is still the app's newest, it is the
one asked to stop, and once it is gone the app is down. -/
def SuspendPc.Owns (d : Daemon) (app : AppId) : SuspendPc → Prop
  | create _ _ paused | publish _ paused | ask paused | recover paused => d.process app = paused
  | reap process paused | recovered process paused =>
    d.process app = paused ∧ (∀ asked, process = some asked → asked = paused) ∧
      (process = none → d.host.isUp app = false)
  | idle paused => d.process app = paused ∧ d.host.isUp app = false
  | _ => True

theorem SuspendPc.Owns.process {d : Daemon} {app : AppId} {pc : SuspendPc} {paused : ℕ}
    (h : pc.Owns d app) (hp : pc.paused = some paused) : d.process app = paused := by
  cases pc <;> cases hp <;> first | exact h | exact h.1

/-- Nothing spawned for the app and nothing brought up keep what a sleep owns. -/
theorem SuspendPc.Owns.of_tame {d d' : Daemon} {app : AppId} {pc : SuspendPc} (h : pc.Owns d app)
    (hprocess : d'.process app = d.process app)
    (hup : d.host.isUp app = false → d'.host.isUp app = false) : pc.Owns d' app := by
  cases pc with
  | reap process paused | recovered process paused =>
    exact ⟨hprocess.trans h.1, h.2.1, fun hnone => hup (h.2.2 hnone)⟩
  | idle paused => exact ⟨hprocess.trans h.1, hup h.2⟩
  | create deployment slot paused | publish snapshot paused | ask paused
  | recover paused => exact hprocess.trans h
  | _ => trivial

/-- A process no stop would signal is down. -/
theorem Daemon.isUp_of_signalled_none {d : Daemon} {app : AppId} (h : d.signalled app = none) :
    d.host.isUp app = false := by
  rw [signalled, Option.map_eq_none_iff, Option.filter_eq_none_iff] at h
  rw [Host.isUp, Option.any_eq_false]
  intro vm hvm
  simp [Vm.isUp, h vm hvm]

/-- The app whose newest process is gone is down. -/
theorem Daemon.isUp_reaped {d : Daemon} {app : AppId} {process : ℕ}
    (h : d.process app = process) : (d.reaped app process).host.isUp app = false := by
  have hvms : (d.reaped app process).host.vms =
      d.host.vms.modify app fun vm => { vm with alive := false } := by
    simp only [reaped, if_pos h]
  rw [Host.isUp, hvms, ExtTreeMap.getElem?_modify_ite, if_pos rfl]
  cases d.host.vms[app]? <;> simp [Vm.isUp]

/-- A sleep's own step keeps what it owns. -/
theorem SuspendPc.Owns.next {d : Daemon} {t : ℕ} {app : AppId} {answer : Host.SleepAnswer}
    {pc : SuspendPc} (h : pc.Owns d app) (pc' : SuspendPc)
    (hpc : (pc.next d t app answer).2 = some pc') :
    pc'.Owns (d.actAll app (pc.next d t app answer).1) app := by
  have hs := d.subdued_actAll app (pc.calm_next d t app answer)
  have hprocess : (d.actAll app (pc.next d t app answer).1).process app = d.process app := by
    rw [hs.process]
  -- a sleep asks the app's newest process to end, and that is the one it paused
  have hask : ∀ paused, d.process app = paused →
      (∀ asked, d.signalled app = some asked → asked = paused) ∧
        (d.signalled app = none → d.host.isUp app = false) := by
    refine fun paused hown => ⟨fun asked ha => ?_, Daemon.isUp_of_signalled_none⟩
    obtain ⟨vm, -, rfl⟩ := Option.map_eq_some_iff.mp ha
    exact hown
  cases pc with
  | pause deployment slot =>
    simp only [SuspendPc.next] at hpc
    split at hpc <;> cases hpc
    · exact hprocess
    · trivial
  | create deployment slot paused =>
    simp only [SuspendPc.next] at hpc
    split at hpc <;> cases hpc
    all_goals exact hprocess.trans h
  | publish snapshot paused =>
    cases hpc
    exact hprocess.trans h
  | ask paused =>
    cases hpc
    obtain ⟨hasked, hnone⟩ := hask paused h
    exact ⟨hprocess.trans h, hasked, fun hn => hs.isUp_eq_false (hnone hn)⟩
  | recover paused =>
    simp only [SuspendPc.next] at hpc
    split at hpc <;> cases hpc
    · obtain ⟨hasked, hnone⟩ := hask paused h
      exact ⟨hprocess.trans h, hasked, fun hn => hs.isUp_eq_false (hnone hn)⟩
    · trivial
  | reap process paused =>
    cases hpc
    obtain ⟨hown, hasked, hnone⟩ := h
    refine ⟨hprocess.trans hown, ?_⟩
    cases process with
    | none => exact hnone rfl
    | some asked => exact Daemon.isUp_reaped (hown.trans (hasked asked rfl).symm)
  | stop pc =>
    cases hstop : (pc.next d app).2 <;> simp only [SuspendPc.next, hstop] at hpc <;> cases hpc <;>
      trivial
  | begin | lock | enter deployment slot =>
    simp only [SuspendPc.next] at hpc
    split at hpc <;> cases hpc <;> trivial
  | idle paused | recovered process paused =>
    cases hpc
    trivial
  | unlock => cases hpc

/-- A task that goes on as a sleep was one. -/
theorem Task.suspend_of_next [Platform] {d : Daemon} {t : ℕ} (task : Task) {app : AppId}
    {answer : Host.SleepAnswer} {pc : SuspendPc}
    (h : (task.next d t).2 = some (.suspend app answer pc)) :
    ∃ before, task = .suspend app answer before ∧
      (before.next d t app answer).2 = some pc := by
  cases Task.goesOn h with
  | suspend hpc => exact ⟨_, rfl, hpc⟩

/-! ### Runs -/

/-- **No pass comes between a sleep and its guest**: it spawns no process for an app while a sleep
of the app is between its pause and its end. -/
def KeepsOut [Platform] (d : Daemon) : Move → Prop
  | .step t =>
    ∀ current rest records pc, d.tasks t = some (.wave current rest records pc) →
      d.spawns t current.1.appId = true →
        ∀ t' answer pc', d.tasks t' = some (.suspend current.1.appId answer pc') →
          pc'.paused = none
  | _ => True

/-- The transitions are held by their holders, and every sleep owns what it paused. -/
structure Composed (d : Daemon) : Prop where
  locked : Locked d
  owns : ∀ t app answer pc, d.tasks t = some (.suspend app answer pc) → pc.Owns d app

theorem composed_quiet (h : Host) (permits : ℕ) : Composed (.quiet h permits) :=
  ⟨(fun _ _ ht => by cases ht), (fun _ _ _ _ ht => by cases ht)⟩

namespace Composed

variable [Platform] {d : Daemon}

/-- No process is spawned for an app a sleep has paused the guest of. -/
theorem spawns_eq_false (hd : Composed d) {m : Move} (hm : KeepsOut d m) {t t' : ℕ} {app : AppId}
    {answer : Host.SleepAnswer} {pc : SuspendPc} (ht' : d.tasks t' = some (.suspend app answer pc))
    (hpaused : pc.paused ≠ none) (hstep : m = .step t) : d.spawns t app = false := by
  subst hstep
  by_contra hspawns
  rw [Bool.not_eq_false] at hspawns
  obtain ⟨task, ht, rfl, hchecked⟩ := Daemon.checked_of_spawns hspawns
  have hholds : (Task.suspend task.app answer pc).holds = true := by
    cases pc <;> first | rfl | exact absurd rfl hpaused
  cases task with
  | wave current rest records wpc =>
    exact hpaused (hm current rest records wpc ht hspawns t' answer pc ht')
  | wake wanted answers wpc =>
    -- a wake spawns under the transition the sleep holds
    have hwake : (Task.wake wanted answers wpc).holds = true := by
      cases wpc <;> first | rfl | cases hchecked
    obtain rfl := hd.locked.unique ht ht' hwake hholds rfl
    rw [ht] at ht'
    cases ht'
  | _ => cases hchecked

/-- What a sleep owns it keeps through any move of another. -/
theorem owns_step (hd : Composed d) {m : Move} (hm : KeepsOut d m) {t : ℕ} {app : AppId}
    {answer : Host.SleepAnswer} {pc : SuspendPc} (ht : d.tasks t = some (.suspend app answer pc)) :
    pc.Owns (d.step m) app := by
  have howns := hd.owns t app answer pc ht
  by_cases hpaused : pc.paused = none
  · cases pc <;> trivial
  · obtain ⟨hprocess, hup⟩ := d.step_tame m app fun t' hstep =>
      hd.spawns_eq_false hm ht hpaused hstep
    exact howns.of_tame hprocess hup

theorem step (hd : Composed d) (m : Move) (hm : KeepsOut d m) : Composed (d.step m) := by
  refine ⟨hd.locked.step m, fun t' app answer pc ht' => ?_⟩
  cases m with
  | begin t operation =>
    simp only [Daemon.step] at ht'
    split at ht'
    · rw [Daemon.tasks_setTask] at ht'
      split at ht'
      · -- a sleep that just began has paused nothing
        cases operation with
        | starts current rest =>
          simp only [Operation.task] at ht'
          split at ht' <;> cases ht'
        | suspend app answer =>
          cases ht'
          trivial
        | _ => cases ht'
      · exact hd.owns_step hm ht'
    · exact hd.owns_step hm ht'
  | guestExit a exit | strayExit a process => exact hd.owns_step hm ht'
  | step t =>
    by_cases hsame : t' = t
    · subst hsame
      cases ht : d.tasks t' with
      | none =>
        rw [Daemon.step_none ht, ht] at ht'
        cases ht'
      | some task =>
        rw [Daemon.step_task ht] at ht' ⊢
        rw [Daemon.tasks_setTask, if_pos rfl] at ht'
        obtain ⟨before, rfl, hpc⟩ := task.suspend_of_next ht'
        exact (hd.owns t' app answer before ht).next pc hpc
    · refine hd.owns_step hm (?_ : d.tasks t' = some (.suspend app answer pc))
      cases ht : d.tasks t with
      | none =>
        rw [Daemon.step_none ht] at ht'
        exact ht'
      | some task =>
        rw [Daemon.step_task ht, Daemon.tasks_setTask, if_neg hsame, Daemon.tasks_actAll] at ht'
        exact ht'

end Composed

/-- Where a newer guest of the app was booted since a sleep paused one, the sleep's next step does
not stop it, makes no snapshot loadable for the app and does not call the app idle. -/
def SparesNewGuest [Platform] (d : Daemon) (t : ℕ) : Prop :=
  ∀ app answer pc paused, d.tasks t = some (.suspend app answer pc) → pc.paused = some paused →
    d.process app ≠ paused →
      (d.process app ∈ d.guests app → d.process app ∈ (d.step (.step t)).guests app) ∧
      (∀ deployment slot snapshot,
        (d.step (.step t)).host.loadable app deployment slot = some snapshot →
          d.host.loadable app deployment slot = some snapshot) ∧
      ∀ r, (d.step (.step t)).host.records[app]? = some r → r.state = .idle →
        ∃ r₀, d.host.records[app]? = some r₀ ∧ r₀.state = .idle

/-- **A sleep ends the guest it paused**: that is still the app's newest, every other live process
of the app stays, and the app is called idle when it is down. -/
structure EndsOwn [Platform] (d : Daemon) (t : ℕ) (app : AppId) (pc : SuspendPc) (paused : ℕ) :
    Prop where
  newest : d.process app = paused
  spares : ∀ process ∈ d.guests app, process ≠ paused →
    process ∈ (d.step (.step t)).guests app
  down : pc = .idle paused → d.host.isUp app = false

/-- A sleep's own step takes no stray but the process it paused. -/
theorem SuspendPc.Owns.strays {d : Daemon} {t : ℕ} {app : AppId} {answer : Host.SleepAnswer}
    {pc : SuspendPc} {paused : ℕ} (h : pc.Owns d app) (hp : pc.paused = some paused) {s : Stray}
    (hs : s ∈ d.strays) (hne : s.process ≠ paused) :
    s ∈ (d.actAll app (pc.next d t app answer).1).strays := by
  have hreap : ∀ process : Option ℕ, (∀ asked, process = some asked → asked = paused) →
      s ∈ (d.act app (.reap process)).strays := by
    intro process hasked
    cases process with
    | none => exact hs
    | some asked =>
      obtain rfl := hasked asked rfl
      exact List.mem_filter.mpr ⟨hs, by simp [hne]⟩
  -- it takes a process where it reaps, and there the one it asked
  cases pc with
  | reap process p | recovered process p =>
    cases hp
    exact hreap process h.2.1
  | create deployment slot p | recover p =>
    simp only [SuspendPc.next]
    split <;> exact hs
  | publish snapshot p => exact hs
  | ask p => exact hs
  | idle p => exact hs
  | _ => cases hp

theorem Composed.endsOwn [Platform] {d : Daemon} (hd : Composed d) {t : ℕ} {app : AppId}
    {answer : Host.SleepAnswer} {pc : SuspendPc} {paused : ℕ}
    (ht : d.tasks t = some (.suspend app answer pc)) (hp : pc.paused = some paused) :
    EndsOwn d t app pc paused := by
  have howns := hd.owns t app answer pc ht
  refine ⟨howns.process hp, fun process hmem hne => ?_, fun hidle => ?_⟩
  · -- the process is not the recorded one, so it is a stray
    rw [Daemon.guests, List.mem_append] at hmem
    rcases hmem with hrecorded | hstray
    · split at hrecorded
      · rw [List.mem_singleton, howns.process hp] at hrecorded
        exact absurd hrecorded hne
      · cases hrecorded
    · obtain ⟨s, hs, rfl⟩ := List.mem_map.mp hstray
      obtain ⟨hs, happ⟩ := List.mem_filter.mp hs
      rw [Daemon.step_task ht]
      refine List.mem_append_right _ (List.mem_map.mpr ⟨s, List.mem_filter.mpr ⟨?_, happ⟩, rfl⟩)
      exact howns.strays hp hs hne
  · subst hidle
    exact howns.2

/-- **Sleeps and the guests they end.** Along every run that meets `KeepsOut`, a sleep past its
pause ends the guest it paused and no other. -/
theorem sleep_ends_own_run [Platform] (h : Host) (permits : ℕ) (moves : List Move)
    (hm : Run.Meets Daemon.step KeepsOut (.quiet h permits) moves) (t : ℕ) :
    SparesNewGuest ((Daemon.quiet h permits).run moves) t ∧
    ∀ app answer pc paused,
      ((Daemon.quiet h permits).run moves).tasks t = some (.suspend app answer pc) →
      pc.paused = some paused →
      EndsOwn ((Daemon.quiet h permits).run moves) t app pc paused := by
  have hd : Composed ((Daemon.quiet h permits).run moves) :=
    hm.invariant (fun d m hd hm => hd.step m hm) (composed_quiet h permits)
  refine ⟨fun app answer pc paused ht hp hnew => ?_, fun app answer pc paused ht hp =>
    hd.endsOwn ht hp⟩
  exact absurd (hd.endsOwn ht hp).newest hnew

/-! ### Without a pass, and with one -/

/-- Only a wave goes on as one. -/
theorem Task.wave_of_next [Platform] {d : Daemon} {t : ℕ} {task : Task} {current : WaveStart}
    {rest : List WaveStart} {records : List InstanceRecord} {pc : WavePc}
    (h : (task.next d t).2 = some (.wave current rest records pc)) :
    ∃ current' rest' records' pc', task = .wave current' rest' records' pc' := by
  cases Task.goesOn h <;> exact ⟨_, _, _, _, rfl⟩

/-- Sleeps, wakes, stops and the status loop meet the condition in any order: only the starts of a
pass can come between a sleep and its guest. -/
theorem keepsOut_of_no_starts [Platform] {d : Daemon} {moves : List Move}
    (hd : ∀ t current rest records pc, d.tasks t ≠ some (.wave current rest records pc))
    (hm : ∀ t current rest, Move.begin t (.starts current rest) ∉ moves) :
    Run.Meets Daemon.step KeepsOut d moves := by
  induction moves generalizing d with
  | nil => trivial
  | cons m moves ih =>
    refine ⟨?_, ih (fun t current rest records pc ht => ?_) fun t current rest hmem =>
      hm t current rest (List.mem_cons_of_mem m hmem)⟩
    · cases m with
      | step t => exact fun current rest records pc ht => absurd ht (hd t current rest records pc)
      | _ => trivial
    · rcases Daemon.tasks_step ht with hkept | ⟨operation, rfl, hbegun⟩ | ⟨rfl, task, htask, hnext⟩
      · exact hd t current rest records pc hkept
      · cases hbegun with
        | starts => exact hm t current rest List.mem_cons_self
      · obtain ⟨current', rest', records', pc', rfl⟩ := Task.wave_of_next hnext
        exact hd t current' rest' records' pc' htask

/-- A request for the app arrives once its guest is paused and waits for the sleep, which goes on
until the guest is gone and the app about to be called idle. -/
def requestDuringSleep : List Move :=
  .begin 0 (.suspend ⟨"app-1"⟩ .ok) :: List.replicate 4 (.step 0) ++
    .begin 1 (.wake onRequestInstance wakeSucceeds) ::
      (List.replicate 4 [.step 1, .step 0]).flatten

theorem sleep_ends_own_run_requestDuringSleep :
    let d := @Daemon.run .plain (.quiet awakeHost 2) requestDuringSleep
    (d.tasks 1).any (·.app = ⟨"app-1"⟩) = true ∧ @EndsOwn .plain d 0 ⟨"app-1"⟩ (.idle 0) 0 := by
  have hm : @Run.Meets _ _ (@Daemon.step .plain) (@KeepsOut .plain) (.quiet awakeHost 2)
      requestDuringSleep := by
    refine @keepsOut_of_no_starts .plain _ _ (fun _ _ _ _ _ h => by cases h)
      fun t current rest h => ?_
    simp [requestDuringSleep] at h
  refine ⟨by decide +kernel,
    (@sleep_ends_own_run .plain awakeHost 2 requestDuringSleep hm 0).2 _ .ok _ _ ?_ rfl⟩
  rfl

/-- A recovery of the app runs to its end while the snapshot of the paused guest is being
published; then the snapshot is published and the app's process asked to stop. -/
def recoveryRace : List Move :=
  [.begin 0 (.suspend ⟨"app-1"⟩ .ok)] ++ List.replicate 5 (.step 0) ++
    [.begin 1 (.stop ⟨"app-1"⟩)] ++ List.replicate 4 (.step 1) ++
    [.begin 1 (.discard ⟨"app-1"⟩)] ++ List.replicate 2 (.step 1) ++
    [.begin 1 (.starts (onRequestInstance, startSucceeds) [])] ++ List.replicate 11 (.step 1) ++
    List.replicate 2 (.step 0)

/-- The sleep stops the guest the recovery booted. -/
theorem not_sparesNewGuest :
    ¬ ∀ (_ : Platform) (h : Host) (permits : ℕ) (moves : List Move) (t : ℕ),
      SparesNewGuest ((Daemon.quiet h permits).run moves) t := by
  intro hall
  have hspares := hall .plain awakeHost 2 recoveryRace 0 ⟨"app-1"⟩ .ok (.reap (some 1) 0) 0 rfl rfl
    (by decide +kernel)
  have hstopped := hspares.1 (by decide +kernel)
  revert hstopped
  decide +kernel

end Nibrunner

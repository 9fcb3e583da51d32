import Nibrunner.Daemon.Tasks

/-!
# What a step of a task can do

`Task.GoesOn` says how a task goes on: it stays of its kind and on its operation, and a wave takes
up its starts in turn.

`Subdued d d'` says that nothing was brought up between two daemons: no process was spawned, no
live one lost its record, and a microVM up in `d'` is one that was up in `d`. All effects but two
are of that kind, a spawn and a deleted process record (`Effect.Calm`).

`Task.effects_cases` says which tasks emit those two: a spawn is all a step does, and only a task
that has passed the manager's check takes one; a record is deleted by a discard. Invariants of
runs are proved from it and from `Daemon.tasks_step`, which says where a task in flight comes from.
-/

namespace Nibrunner

open Std

/-! ### How a task goes on -/

/-- How a task goes on from a step. -/
inductive Task.GoesOn [Platform] (d : Daemon) (t : ℕ) : Task → Task → Prop
  | stop {app pc pc'} (h : (StopPc.next d app pc).2 = some pc') :
      GoesOn d t (.stop app pc) (.stop app pc')
  | discard {app pc pc'} (h : (DiscardPc.next pc).2 = some pc') :
      GoesOn d t (.discard app pc) (.discard app pc')
  | suspend {app answer pc pc'} (h : (SuspendPc.next d t app answer pc).2 = some pc') :
      GoesOn d t (.suspend app answer pc) (.suspend app answer pc')
  | wake {wanted answers pc pc'} (h : (WakePc.next d t wanted answers pc).2 = some pc') :
      GoesOn d t (.wake wanted answers pc) (.wake wanted answers pc')
  | settle {app answers pc pc'} (h : (SettlePc.next d app answers pc).2 = some pc') :
      GoesOn d t (.settle app answers pc) (.settle app answers pc')
  | short {current rest records} (shortfallMib : ℕ) :
      GoesOn d t (.wave current rest records .measure)
        (.wave current rest records (.waiting shortfallMib .allocate))
  | roomy {current rest records}
      (h : memoryShortfallFor d.host.config.guestMemoryMib records current.1.appId
        current.1.config.resources = none) :
      GoesOn d t (.wave current rest records .measure)
        (.wave current rest records (.starting .begin))
  | waiting {current rest records shortfallMib pc pc'}
      (h : (WaitPc.next d current.1 shortfallMib pc).2 = some pc') :
      GoesOn d t (.wave current rest records (.waiting shortfallMib pc))
        (.wave current rest records (.waiting shortfallMib pc'))
  | starting {current rest records pc pc'}
      (h : (StartPc.next d current.1 current.2 pc).2 = some pc') :
      GoesOn d t (.wave current rest records (.starting pc))
        (.wave current rest records (.starting pc'))
  | started {current rest records pc} :
      GoesOn d t (.wave current rest records (.starting pc)) (.wave current rest records .reread)
  | nextStart {current rest records pc} (upcoming : WaveStart) (others : List WaveStart)
      (records' : List InstanceRecord) :
      GoesOn d t (.wave current rest records pc) (.wave upcoming others records' .measure)

theorem Task.goesOn_nextStart [Platform] {d : Daemon} {t : ℕ} {current : WaveStart}
    {rest : List WaveStart} {records records' : List InstanceRecord} {pc : WavePc} {after : Task}
    (h : Task.nextStart records' rest = some after) :
    GoesOn d t (.wave current rest records pc) after := by
  cases rest with
  | nil => cases h
  | cons upcoming others =>
    cases h
    exact .nextStart upcoming others records'

theorem Task.goesOn [Platform] {d : Daemon} {t : ℕ} {task after : Task}
    (h : (task.next d t).2 = some after) : task.GoesOn d t after := by
  cases task with
  | stop app pc =>
    obtain ⟨pc', hpc, rfl⟩ := Option.map_eq_some_iff.mp h
    exact .stop hpc
  | discard app pc =>
    obtain ⟨pc', hpc, rfl⟩ := Option.map_eq_some_iff.mp h
    exact .discard hpc
  | suspend app answer pc =>
    obtain ⟨pc', hpc, rfl⟩ := Option.map_eq_some_iff.mp h
    exact .suspend hpc
  | wake wanted answers pc =>
    obtain ⟨pc', hpc, rfl⟩ := Option.map_eq_some_iff.mp h
    exact .wake hpc
  | settle app answers pc =>
    obtain ⟨pc', hpc, rfl⟩ := Option.map_eq_some_iff.mp h
    exact .settle hpc
  | wave current rest records pc =>
    -- of a wave the start it is at goes on, or the next one is taken up
    cases pc with
    | measure =>
      simp only [next] at h
      split at h
      next shortfall _ =>
        cases h
        exact .short shortfall
      next hroom =>
        cases h
        exact .roomy hroom
    | waiting shortfall pc =>
      change (pc.next d current.1 shortfall).2.elim _ _ = _ at h
      cases hpc : (pc.next d current.1 shortfall).2 with
      | none =>
        rw [hpc] at h
        exact goesOn_nextStart h
      | some pc' =>
        rw [hpc] at h
        cases h
        exact .waiting hpc
    | starting pc =>
      have hafter : Task.wave current rest records
          ((pc.next d current.1 current.2).2.elim .reread .starting) = after := Option.some.inj h
      subst hafter
      cases hpc : (pc.next d current.1 current.2).2 with
      | none => exact .started
      | some pc' => exact .starting hpc
    | reread => exact goesOn_nextStart h

/-- What an operation begins as. -/
inductive Task.Begun (d : Daemon) : Operation → Task → Prop
  | stop (app : AppId) : Begun d (.stop app) (.stop app .begin)
  | discard (app : AppId) : Begun d (.discard app) (.discard app .forget)
  | suspend (app : AppId) (answer : Host.SleepAnswer) :
      Begun d (.suspend app answer) (.suspend app answer .lock)
  | wake (wanted : DesiredInstance) (answers : Host.WakeAnswers) :
      Begun d (.wake wanted answers) (.wake wanted answers .room)
  | starts (current : WaveStart) (rest : List WaveStart) :
      Begun d (.starts current rest) (.wave current rest d.host.recordList .measure)
  | settle (app : AppId) (answers : SettleAnswers) :
      Begun d (.settle app answers) (.settle app answers .snapshot)

theorem Operation.begun {d : Daemon} {operation : Operation} {task : Task}
    (h : operation.task d = some task) : Task.Begun d operation task := by
  cases operation with
  | stop app =>
    cases h
    exact .stop app
  | discard app =>
    cases h
    exact .discard app
  | suspend app answer =>
    cases h
    exact .suspend app answer
  | wake wanted answers =>
    cases h
    exact .wake wanted answers
  | starts current rest =>
    obtain ⟨-, heq⟩ := Option.ite_none_right_eq_some.mp h
    obtain rfl := Option.some.inj heq
    exact .starts current rest
  | settle app answers =>
    cases h
    exact .settle app answers

/-! ### Effects that bring nothing up -/

/-- No process was spawned, none lost its record while it was up, and what is up was up. -/
structure Subdued (d d' : Daemon) : Prop where
  process : d'.process = d.process
  strays : d'.strays.Sublist d.strays
  up : ∀ (a : AppId) (vm : Vm), d'.host.vms[a]? = some vm → vm.isUp = true →
    ∃ vm₀, d.host.vms[a]? = some vm₀ ∧ vm₀.isUp = true ∧ vm₀.memoryMib = vm.memoryMib
  config : d'.host.config = d.host.config

namespace Subdued

variable {d d' d'' : Daemon}

protected theorem refl (d : Daemon) : Subdued d d :=
  ⟨rfl, .refl _, fun _ vm hvm hup => ⟨vm, hvm, hup, rfl⟩, rfl⟩

protected theorem trans (h₁ : Subdued d d') (h₂ : Subdued d' d'') : Subdued d d'' := by
  refine ⟨h₂.process.trans h₁.process, h₂.strays.trans h₁.strays, fun a vm hvm hup => ?_,
    h₂.config.trans h₁.config⟩
  obtain ⟨vm₁, hvm₁, hup₁, hmem₁⟩ := h₂.up a vm hvm hup
  obtain ⟨vm₀, hvm₀, hup₀, hmem₀⟩ := h₁.up a vm₁ hvm₁ hup₁
  exact ⟨vm₀, hvm₀, hup₀, hmem₀.trans hmem₁⟩

theorem isUp (h : Subdued d d') {a : AppId} (hup : d'.host.isUp a = true) :
    d.host.isUp a = true := by
  obtain ⟨vm, hvm, hvmup⟩ := (Option.any_eq_true _ _).mp hup
  obtain ⟨vm₀, hvm₀, hup₀, -⟩ := h.up a vm hvm hvmup
  rw [Host.isUp, hvm₀]
  exact hup₀

theorem isUp_eq_false (h : Subdued d d') {a : AppId} (hdown : d.host.isUp a = false) :
    d'.host.isUp a = false := by
  by_contra hup
  rw [h.isUp (by simpa using hup)] at hdown
  cases hdown

/-- Where the microVMs, the processes and the configuration are the same. -/
theorem of_eq (hprocess : d'.process = d.process) (hstrays : d'.strays = d.strays)
    (hvms : d'.host.vms = d.host.vms) (hconfig : d'.host.config = d.host.config) :
    Subdued d d' := by
  refine ⟨hprocess, by rw [hstrays], fun a vm hvm hup => ?_, hconfig⟩
  rw [hvms] at hvm
  exact ⟨vm, hvm, hup, rfl⟩

/-- Where one app's microVM is changed and not brought up by it. -/
theorem of_modify (hprocess : d'.process = d.process) (hstrays : d'.strays.Sublist d.strays)
    {app : AppId} {change : Vm → Vm} (hvms : d'.host.vms = d.host.vms.modify app change)
    (hchange : ∀ vm, (change vm).isUp = true → vm.isUp = true)
    (hmemory : ∀ vm, (change vm).memoryMib = vm.memoryMib)
    (hconfig : d'.host.config = d.host.config) : Subdued d d' := by
  refine ⟨hprocess, hstrays, fun a vm hvm hup => ?_, hconfig⟩
  rw [hvms, ExtTreeMap.getElem?_modify_ite] at hvm
  split at hvm
  · obtain ⟨vm₀, hvm₀, rfl⟩ := Option.map_eq_some_iff.mp hvm
    exact ⟨vm₀, hvm₀, hchange vm₀ hup, (hmemory vm₀).symm⟩
  · exact ⟨vm, hvm, hup, rfl⟩

end Subdued

/-- The effect neither spawns a process nor deletes the record of one. -/
def Effect.Calm : Effect → Prop
  | .spawn _ | .forget => False
  | _ => True

namespace Daemon

variable (d : Daemon) (app : AppId)

@[simp] theorem tasks_act (e : Effect) : (d.act app e).tasks = d.tasks := by
  cases e with
  | reap process => cases process <;> rfl
  | _ => rfl

@[simp] theorem tasks_actAll (effects : List Effect) :
    (d.actAll app effects).tasks = d.tasks := by
  induction effects generalizing d with
  | nil => rfl
  | cons e effects ih => exact (ih (d.act app e)).trans (tasks_act d app e)

theorem subdued_reaped (process : ℕ) : Subdued d (d.reaped app process) := by
  unfold reaped
  split
  · exact .of_modify rfl List.filter_sublist rfl (fun vm => by simp [Vm.isUp]) (fun _ => rfl) rfl
  · exact ⟨rfl, List.filter_sublist, (Subdued.refl d).up, rfl⟩

theorem subdued_act {e : Effect} (he : e.Calm) : Subdued d (d.act app e) := by
  cases e with
  | spawn vm => exact he.elim
  | forget => exact he.elim
  | allocate =>
    refine .of_eq rfl rfl ?_ ?_
    all_goals
      simp only [act]
      cases hs : d.host.slotFor app with
      | none => rfl
      | some held =>
        obtain ⟨allocator, -, hh⟩ := Host.slotFor_eq hs
        rw [Option.elim_some, hh]
  | attach volume =>
    refine .of_eq rfl rfl ?_ ?_
    all_goals
      simp only [act]
      cases ha : d.host.attach volume app (.ok ()) with
      | error reason => rfl
      | ok h =>
        obtain ⟨hv, -⟩ := Host.OnlyVolumes.attach ha
        first | exact hv.vms | exact hv.config
  -- a record is marked as asked to end, no process is spawned
  | ask => exact .of_modify rfl (.refl _) rfl (fun _ => id) (fun _ => rfl) rfl
  | reap process =>
    cases process with
    | none => exact .refl d
    | some process => exact d.subdued_reaped app process
  | _ => exact .of_eq rfl rfl rfl rfl

theorem subdued_actAll {effects : List Effect} (he : ∀ e ∈ effects, e.Calm) :
    Subdued d (d.actAll app effects) := by
  induction effects generalizing d with
  | nil => exact .refl d
  | cons e effects ih =>
    exact (d.subdued_act app (he e List.mem_cons_self)).trans
      (ih _ fun e' h => he e' (List.mem_cons_of_mem e h))

/-- A record deleted of a process that is down loses nothing. -/
theorem subdued_forget (hdown : d.host.isUp app = false) :
    Subdued d (d.actAll app [.discardSnapshot, .forget]) := by
  have hnone : d.host.vms[app]?.filter Vm.isUp = none := by
    rw [Option.filter_eq_none_iff]
    intro vm hvm hup
    rw [Host.isUp, hvm, Option.any_some, hup] at hdown
    cases hdown
  refine ⟨rfl, ?_, fun a vm hvm hup => ?_, rfl⟩
  · have hstrays : (d.actAll app [.discardSnapshot, .forget]).strays = d.straysWithout app := rfl
    rw [hstrays, straysWithout, hnone]
  · have hvms : (d.actAll app [.discardSnapshot, .forget]).host.vms = d.host.vms.erase app := rfl
    rw [hvms, ExtTreeMap.getElem?_erase_ite] at hvm
    split at hvm
    · cases hvm
    · exact ⟨vm, hvm, hup, rfl⟩

end Daemon

/-! ### The check before a spawn -/

/-- The start is past the manager's check and has not spawned its process. -/
def StartPc.checked : StartPc → Bool
  | spawn _ => true
  | _ => false

def StartPc.atCheck : StartPc → Bool
  | check _ => true
  | _ => false

def WakePc.checked : WakePc → Bool
  | spawn _ => true
  | cold pc => pc.checked
  | _ => false

def WakePc.atCheck : WakePc → Bool
  | check _ => true
  | cold pc => pc.atCheck
  | _ => false

namespace Task

/-- The task is past the manager's check and has not spawned its process. -/
def checked : Task → Bool
  | wake _ _ pc => pc.checked
  | wave _ _ _ (.starting pc) => pc.checked
  | _ => false

/-- The task is at the manager's check. -/
def atCheck : Task → Bool
  | wake _ _ pc => pc.atCheck
  | wave _ _ _ (.starting pc) => pc.atCheck
  | _ => false

/-- The task is about to delete the record of the app's process. -/
def forgets : Task → Bool
  | discard _ .forget => true
  | _ => false

end Task

/-- What a step of a bring-up does: nothing is brought up, and it is past the check only where it
just found the app down; or it has passed the check, and all it does is spawn the process. -/
inductive BringUpEffect (d : Daemon) (app : AppId) (checked atCheck checked' : Bool) :
    List Effect → Prop where
  | calm (effects : List Effect) (hcalm : ∀ e ∈ effects, e.Calm)
      (hchecked : checked' = true → atCheck = true ∧ d.host.isUp app = false) :
      BringUpEffect d app checked atCheck checked' effects
  | spawned (vm : Vm) (hchecked : checked = true) (hchecked' : checked' = false) :
      BringUpEffect d app checked atCheck checked' [.spawn vm]

theorem StartPc.effects_cases [Platform] (d : Daemon) (desired : DesiredInstance)
    (answers : StartAnswers) (pc : StartPc) :
    BringUpEffect d desired.appId pc.checked pc.atCheck
      ((pc.next d desired answers).2.any StartPc.checked) (pc.next d desired answers).1 := by
  cases pc with
  | check slot =>
    unfold StartPc.next
    dsimp only
    split
    · exact .calm _ (by simp [Effect.Calm]) (by simp [StartPc.checked])
    · rename_i hdown
      exact .calm _ (by simp) fun _ => ⟨rfl, by simpa using hdown⟩
  | spawn slot =>
    unfold StartPc.next
    dsimp only
    split
    · exact .calm _ (by simp [Effect.Calm]) (by simp [StartPc.checked])
    · exact .spawned _ rfl rfl
  | _ =>
    unfold StartPc.next
    dsimp only
    repeat' split
    all_goals exact .calm _ (by simp [Effect.Calm]) (by simp [StartPc.checked])

theorem WakePc.effects_cases [Platform] (d : Daemon) (task : ℕ) (wanted : DesiredInstance)
    (answers : Host.WakeAnswers) (pc : WakePc) :
    BringUpEffect d wanted.appId pc.checked pc.atCheck
      ((pc.next d task wanted answers).2.any WakePc.checked)
      (pc.next d task wanted answers).1 := by
  -- the check finds the app down, the spawn is behind it, and a cold boot has a check of its own
  cases pc with
  | check snapshot =>
    unfold WakePc.next
    dsimp only
    split
    · exact .calm _ (by simp [Effect.Calm]) (by simp [WakePc.checked])
    · rename_i hdown
      exact .calm _ (by simp [Effect.Calm]) fun _ => ⟨rfl, by simpa using hdown⟩
  | spawn snapshot =>
    unfold WakePc.next
    dsimp only
    split
    · exact .calm _ (by simp [Effect.Calm]) (by simp [WakePc.checked])
    · exact .spawned _ rfl rfl
  | cold pc =>
    have hcold : (WakePc.next d task wanted answers (.cold pc)).2.any WakePc.checked =
        (pc.next d wanted answers.start).2.any StartPc.checked := by
      unfold WakePc.next
      dsimp only
      cases (pc.next d wanted answers.start).2 <;> rfl
    rw [hcold]
    exact StartPc.effects_cases d wanted answers.start pc
  | _ =>
    unfold WakePc.next
    dsimp only
    repeat' split
    all_goals exact .calm _ (by simp [Effect.Calm]) (by simp [WakePc.checked, StartPc.checked])

/-- **What a step of a task can do.** -/
inductive TaskEffect (d : Daemon) (task : Task) : List Effect → Option Task → Prop where
  /-- Nothing is brought up, and the task is past the check only where it just found the app
  down. -/
  | calm (effects : List Effect) (hcalm : ∀ e ∈ effects, e.Calm) (task' : Option Task)
      (hchecked : ∀ after, task' = some after → after.checked = true →
        task.atCheck = true ∧ d.host.isUp task.app = false ∧ after.app = task.app) :
      TaskEffect d task effects task'
  | spawned (vm : Vm) (hchecked : task.checked = true) (task' : Option Task)
      (hchecked' : ∀ after, task' = some after → after.checked = false) :
      TaskEffect d task [.spawn vm] task'
  | forgot (hforgets : task.forgets = true) (task' : Option Task)
      (hchecked' : ∀ after, task' = some after → after.checked = false) :
      TaskEffect d task [.discardSnapshot, .forget] task'

namespace TaskEffect

variable {d : Daemon} {task : Task} {effects : List Effect} {task' : Option Task}

/-- A step that neither spawns nor forgets, of a task that does not get past the check. -/
theorem of_calm (hcalm : ∀ e ∈ effects, e.Calm)
    (hchecked : ∀ after, task' = some after → after.checked = false) :
    TaskEffect d task effects task' := by
  refine .calm _ hcalm _ fun after ha hc => ?_
  rw [hchecked after ha] at hc
  cases hc

theorem of_bringUp (he : BringUpEffect d task.app task.checked task.atCheck
      (task'.any Task.checked) effects)
    (happ : ∀ after, task' = some after → after.checked = true → after.app = task.app) :
    TaskEffect d task effects task' := by
  cases he with
  | calm _ hcalm hchecked =>
    refine .calm _ hcalm _ fun after ha hc => ?_
    obtain ⟨hat, hdown⟩ := hchecked (by rw [ha]; exact hc)
    exact ⟨hat, hdown, happ after ha hc⟩
  | spawned vm hchecked hchecked' =>
    refine .spawned vm hchecked _ fun after ha => ?_
    rw [ha] at hchecked'
    exact hchecked'

end TaskEffect

theorem Task.checked_nextStart {records : List InstanceRecord} {rest : List WaveStart}
    {after : Task} (h : Task.nextStart records rest = some after) : after.checked = false := by
  cases rest with
  | nil => cases h
  | cons current rest =>
    cases h
    rfl

theorem StopPc.calm_next (d : Daemon) (app : AppId) (pc : StopPc) :
    ∀ e ∈ (pc.next d app).1, e.Calm := by
  cases pc <;> simp [StopPc.next, Effect.Calm]

theorem SuspendPc.calm_next (d : Daemon) (task : ℕ) (app : AppId) (answer : Host.SleepAnswer)
    (pc : SuspendPc) : ∀ e ∈ (pc.next d task app answer).1, e.Calm := by
  cases pc with
  | stop pc => exact pc.calm_next d app
  | _ =>
    unfold SuspendPc.next
    dsimp only
    repeat' split
    all_goals simp [Effect.Calm]

theorem WaitPc.calm_next (d : Daemon) (desired : DesiredInstance) (shortfallMib : ℕ)
    (pc : WaitPc) : ∀ e ∈ (pc.next d desired shortfallMib).1, e.Calm := by
  cases pc <;> unfold WaitPc.next <;> dsimp only <;> (try split) <;> simp [Effect.Calm]

theorem Task.effects_cases [Platform] (d : Daemon) (t : ℕ) (task : Task) :
    TaskEffect d task (task.next d t).1 (task.next d t).2 := by
  -- wakes and starts bring up, a discard deletes the record, the rest is calm
  cases task with
  | stop app pc =>
    refine .of_calm (pc.calm_next d app) fun after ha => ?_
    obtain ⟨pc', -, rfl⟩ := Option.map_eq_some_iff.mp ha
    rfl
  | discard app pc =>
    cases pc with
    | forget => exact .forgot rfl _ (by rintro after ⟨⟩; rfl)
    | drop => exact .of_calm (by simp [Task.next, DiscardPc.next, Effect.Calm]) (by rintro _ ⟨⟩)
  | suspend app answer pc =>
    refine .of_calm (pc.calm_next d t app answer) fun after ha => ?_
    obtain ⟨pc', -, rfl⟩ := Option.map_eq_some_iff.mp ha
    rfl
  | wake wanted answers pc =>
    refine .of_bringUp ?_ fun after ha _ => ?_
    · have hchecked : (Task.next d t (.wake wanted answers pc)).2.any Task.checked =
          (pc.next d t wanted answers).2.any WakePc.checked := by
        unfold Task.next
        dsimp only
        cases (pc.next d t wanted answers).2 <;> rfl
      rw [hchecked]
      exact pc.effects_cases d t wanted answers
    · obtain ⟨pc', -, rfl⟩ := Option.map_eq_some_iff.mp ha
      rfl
  | settle app answers pc =>
    refine .of_calm ?_ fun after ha => ?_
    · cases pc <;> simp [Task.next, SettlePc.next, Effect.Calm]
    · obtain ⟨pc', -, rfl⟩ := Option.map_eq_some_iff.mp ha
      rfl
  | wave current rest records pc =>
    cases pc with
    | measure =>
      unfold Task.next
      dsimp only
      split
      all_goals exact .of_calm (by simp) (by rintro after ⟨⟩; rfl)
    | waiting shortfall pc =>
      refine .of_calm (pc.calm_next d current.1 shortfall) fun after ha => ?_
      change (pc.next d current.1 shortfall).2.elim _ _ = _ at ha
      cases hpc : (pc.next d current.1 shortfall).2 with
      | none =>
        rw [hpc] at ha
        exact Task.checked_nextStart ha
      | some pc' =>
        rw [hpc] at ha
        cases ha
        rfl
    | starting pc =>
      refine .of_bringUp ?_ (by rintro after ⟨⟩ _; rfl)
      have hchecked : (Task.next d t (.wave current rest records (.starting pc))).2.any
          Task.checked = (pc.next d current.1 current.2).2.any StartPc.checked := by
        unfold Task.next
        dsimp only
        cases (pc.next d current.1 current.2).2 <;> rfl
      rw [hchecked]
      exact pc.effects_cases d current.1 current.2
    | reread => exact .of_calm (by simp [Task.next]) fun after ha => Task.checked_nextStart ha

/-! ### Moves -/

def Effect.isSpawn : Effect → Bool
  | .spawn _ => true
  | _ => false

/-- The next step of a task spawns a process for an app. -/
def Daemon.spawns [Platform] (d : Daemon) (t : ℕ) (app : AppId) : Bool :=
  (d.tasks t).any fun task => task.app = app && (task.next d t).1.any Effect.isSpawn

namespace Daemon

theorem tasks_setTask (d : Daemon) (t : ℕ) (task : Option Task) (t' : ℕ) :
    (d.setTask t task).tasks t' = if t' = t then task else d.tasks t' :=
  Function.update_apply d.tasks t task t'

theorem subdued_setTask {d d' : Daemon} (hs : Subdued d d') (t : ℕ) (task : Option Task) :
    Subdued d (d'.setTask t task) :=
  ⟨hs.process, hs.strays, hs.up, hs.config⟩

variable [Platform]

/-- A step of a task in flight. -/
theorem step_task {d : Daemon} {t : ℕ} {task : Task} (ht : d.tasks t = some task) :
    d.step (.step t) =
      (d.actAll task.app (task.next d t).1).setTask t (task.next d t).2 := by
  simp only [step, ht]

theorem step_none {d : Daemon} {t : ℕ} (ht : d.tasks t = none) : d.step (.step t) = d := by
  simp only [step, ht]

/-- Where a task in flight comes from: it was, or it has just begun, or gone on. -/
theorem tasks_step {d : Daemon} {m : Move} {t : ℕ} {after : Task}
    (h : (d.step m).tasks t = some after) :
    d.tasks t = some after ∨ (∃ operation, m = .begin t operation ∧ Task.Begun d operation after) ∨
      m = .step t ∧ ∃ task, d.tasks t = some task ∧ (task.next d t).2 = some after := by
  cases m with
  | begin t' operation =>
    simp only [step] at h
    split at h
    · rw [tasks_setTask] at h
      split at h
      next heq =>
        subst heq
        exact .inr (.inl ⟨operation, rfl, Operation.begun h⟩)
      next => exact .inl h
    · exact .inl h
  | step t' =>
    cases ht : d.tasks t' with
    | none =>
      rw [step_none ht] at h
      exact .inl h
    | some task =>
      rw [step_task ht, tasks_setTask, tasks_actAll] at h
      split at h
      next heq =>
        subst heq
        exact .inr (.inr ⟨rfl, task, ht, h⟩)
      next => exact .inl h
  | guestExit app exit => exact .inl h
  | strayExit app process => exact .inl h

/-- The tasks in flight are numbered below `n`. -/
def Numbered (n : ℕ) (d : Daemon) : Prop := ∀ t task, d.tasks t = some task → t < n

/-- A run that numbers its tasks below `n` meets a condition where it meets one that looks at no
others. -/
theorem meets_of_numbered {n : ℕ} {C C' : Daemon → Move → Prop}
    (hC : ∀ d m, d.Numbered n → C' d m → C d m) {d : Daemon} (hd : d.Numbered n)
    {moves : List Move} (hm : ∀ t operation, .begin t operation ∈ moves → t < n)
    (hmeets : Run.Meets Daemon.step C' d moves) : Run.Meets Daemon.step C d moves := by
  induction moves generalizing d with
  | nil => trivial
  | cons m moves ih =>
    refine ⟨hC d m hd hmeets.1, ih (fun t task ht => ?_)
      (fun t operation hmem => hm t operation (List.mem_cons_of_mem m hmem)) hmeets.2⟩
    rcases tasks_step ht with hkept | ⟨operation, rfl, -⟩ | ⟨-, task', ht', -⟩
    · exact hd t task hkept
    · exact hm t operation List.mem_cons_self
    · exact hd t task' ht'

/-- A task that spawns is past the check. -/
theorem checked_of_spawns {d : Daemon} {t : ℕ} {app : AppId} (hs : d.spawns t app = true) :
    ∃ task, d.tasks t = some task ∧ task.app = app ∧ task.checked = true := by
  obtain ⟨task, ht, hspawn⟩ := (Option.any_eq_true _ _).mp hs
  rw [Bool.and_eq_true, decide_eq_true_eq] at hspawn
  obtain ⟨happ, hany⟩ := hspawn
  obtain ⟨e, hmem, he⟩ := List.any_eq_true.mp hany
  refine ⟨task, ht, happ, ?_⟩
  have heffect := task.effects_cases d t
  generalize (task.next d t).1 = effects, (task.next d t).2 = after at heffect hmem
  cases heffect with
  | calm _ hcalm _ hchecked =>
    have hcalm := hcalm e hmem
    cases e <;> first | exact hcalm.elim | cases he
  | spawned vm hc _ hafter => exact hc
  | forgot hforgets _ hafter =>
    rcases List.mem_pair.mp hmem with rfl | rfl <;> cases he

theorem subdued_guestExit (d : Daemon) (app : AppId) (exit : VmExit) :
    Subdued d (d.step (.guestExit app exit)) :=
  .of_modify rfl (.refl _) rfl (fun vm => by simp) (fun _ => rfl) rfl

theorem subdued_strayExit (d : Daemon) (app : AppId) (process : ℕ) :
    Subdued d (d.step (.strayExit app process)) :=
  ⟨rfl, List.filter_sublist, (Subdued.refl d).up, rfl⟩

theorem subdued_begin (d : Daemon) (t : ℕ) (operation : Operation) :
    Subdued d (d.step (.begin t operation)) := by
  simp only [step]
  split
  · exact subdued_setTask (.refl d) t _
  · exact .refl d

/-- A move that spawns nothing for an app leaves it its process, and down where it was. -/
theorem step_tame (d : Daemon) (m : Move) (app : AppId)
    (hm : ∀ t, m = .step t → d.spawns t app = false) :
    (d.step m).process app = d.process app ∧
      (d.host.isUp app = false → (d.step m).host.isUp app = false) := by
  have hsubdued : ∀ {d' : Daemon}, Subdued d d' → d'.process app = d.process app ∧
      (d.host.isUp app = false → d'.host.isUp app = false) :=
    fun hs => ⟨by rw [hs.process], hs.isUp_eq_false⟩
  cases m with
  | begin t operation => exact hsubdued (d.subdued_begin t operation)
  | guestExit a exit => exact hsubdued (d.subdued_guestExit a exit)
  | strayExit a process => exact hsubdued (d.subdued_strayExit a process)
  | step t =>
    cases ht : d.tasks t with
    | none =>
      rw [step_none ht]
      exact ⟨rfl, id⟩
    | some task =>
      have hspawns := hm t rfl
      simp only [spawns, ht, Option.any_some] at hspawns
      rw [step_task ht]
      have he := task.effects_cases d t
      generalize (task.next d t).1 = effects, (task.next d t).2 = after at he hspawns ⊢
      cases he with
      | calm _ hcalm _ hchecked =>
        exact hsubdued (subdued_setTask (d.subdued_actAll task.app hcalm) t _)
      | spawned vm hc _ hafter =>
        have hne : app ≠ task.app := by
          rintro rfl
          simp [Effect.isSpawn] at hspawns
        refine ⟨Function.update_of_ne hne _ _, fun hdown => ?_⟩
        exact ((Host.OnlyApp.putVm d.host task.app vm).isUp_eq hne).trans hdown
      | forgot hforgets _ hafter =>
        refine ⟨rfl, fun hdown => ?_⟩
        by_cases happ : app = task.app
        -- the record of an app that is down may go: nothing alive is lost with it
        · subst happ
          exact (d.subdued_forget task.app hdown).isUp_eq_false hdown
        · exact ((Host.OnlyApp.discardVm d.host task.app).isUp_eq happ).trans hdown

end Daemon

/-- No task begins past the manager's check. -/
theorem Operation.checked_task (d : Daemon) (operation : Operation) {task : Task}
    (ht : operation.task d = some task) : task.checked = false := by
  cases Operation.begun ht <;> rfl

end Nibrunner

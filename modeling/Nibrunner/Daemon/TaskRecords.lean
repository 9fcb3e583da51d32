import Nibrunner.Daemon.TaskEffects

/-!
# What the tasks write on the records

A task writes on its own app's record and on no other (`Daemon.Keyed.records_step_task`). That
rests on every record, and every copy of one a task carries from an earlier read, being kept under
its own app (`Daemon.Keyed`), since a record is put back under the app it says it is of.
-/

namespace Nibrunner

open Std

/-- What an effect makes of the app's record. -/
def Effect.record : Effect → Option InstanceRecord → Option InstanceRecord
  | .put r, _ => some r
  | .update change, existing => existing.map change
  | .drop, _ => none
  | _, existing => existing

/-- The effect keeps every record under its own app. -/
def Effect.Own (app : AppId) : Effect → Prop
  | .put r => r.appId = app
  | .update change => ∀ r, (change r).appId = r.appId
  | _ => True

namespace Daemon

theorem records_act {d : Daemon} {app : AppId} {e : Effect} (he : e.Own app) (a : AppId) :
    (d.act app e).host.records[a]? =
      if app = a then e.record d.host.records[a]? else d.host.records[a]? := by
  -- three effects write a record, under the id they name; the others leave the table
  cases e with
  | put r =>
    obtain rfl : r.appId = app := he
    exact Host.getElem?_putRecord d.host r a
  | update change => exact Host.getElem?_updateRecord d.host app a change
  | drop => exact Host.getElem?_dropRecord d.host app a
  | reap process =>
    cases process with
    | none => exact (ite_self _).symm
    | some process =>
      simp only [act, Option.elim_some, reaped, Effect.record, ite_self]
      split <;> rfl
  | allocate =>
    simp only [act, Effect.record, ite_self]
    cases hs : d.host.slotFor app with
    | none => rfl
    | some held =>
      obtain ⟨allocator, -, hh⟩ := Host.slotFor_eq hs
      rw [Option.elim_some, hh]
  | attach volume =>
    simp only [act, Effect.record, ite_self]
    cases ha : d.host.attach volume app (.ok ()) with
    | error reason => rfl
    | ok h =>
      obtain ⟨hv, -⟩ := Host.OnlyVolumes.attach ha
      exact congrArg (·[a]?) hv.records
  | _ => exact (ite_self _).symm

theorem records_actAll {d : Daemon} {app : AppId} {effects : List Effect}
    (he : ∀ e ∈ effects, e.Own app) (a : AppId) :
    (d.actAll app effects).host.records[a]? =
      if app = a then effects.foldl (fun r e => e.record r) d.host.records[a]?
      else d.host.records[a]? := by
  induction effects generalizing d with
  | nil => exact (ite_self _).symm
  | cons e effects ih =>
    have hrest := ih (d := d.act app e) fun e' h => he e' (List.mem_cons_of_mem e h)
    have hfirst := records_act (d := d) (he e List.mem_cons_self) a
    rw [actAll, List.foldl_cons, List.foldl_cons]
    rw [actAll] at hrest
    rw [hrest, hfirst]
    split <;> rfl

end Daemon

/-! ### Copies of a record -/

/-- A copy of the app's record is one of the app's. -/
def KeyedCopy (app : AppId) (existing : Option InstanceRecord) : Prop :=
  ∀ r, existing = some r → r.appId = app

def StartPc.Keyed (app : AppId) : StartPc → Prop
  | allocate existing | decide existing _ | attach existing _ | enter existing _ | busy existing =>
    KeyedCopy app existing
  | _ => True

def WaitPc.Keyed (app : AppId) : WaitPc → Prop
  | write existing _ => KeyedCopy app existing
  | _ => True

/-- The copies of a record a task carries are of its app. -/
def Task.Keyed : Task → Prop
  | wake wanted _ (.cold pc) => pc.Keyed wanted.appId
  | wave current _ _ (.starting pc) => pc.Keyed current.1.appId
  | wave current _ _ (.waiting _ pc) => pc.Keyed current.1.appId
  | _ => True

theorem StartPc.own_next [Platform] {d : Daemon} {desired : DesiredInstance}
    (answers : StartAnswers) {pc : StartPc} (hk : pc.Keyed desired.appId)
    (hd : KeyedCopy desired.appId d.host.records[desired.appId]?) :
    (∀ e ∈ (pc.next d desired answers).1, e.Own desired.appId) ∧
      ∀ pc', (pc.next d desired answers).2 = some pc' → pc'.Keyed desired.appId := by
  -- a record that is adopted or made keeps the id of the copy it is made from
  cases pc with
  | decide existing slot =>
    have hadopted := fun state => appId_adoptedRecord hk slot state
    unfold StartPc.next
    dsimp only
    split
    · exact ⟨List.forall_mem_singleton.mpr (hadopted .failed), by rintro pc' ⟨⟩; trivial⟩
    · split
      · exact ⟨List.forall_mem_singleton.mpr (hadopted .pending), by rintro pc' ⟨⟩; trivial⟩
      · exact ⟨List.forall_mem_singleton.mpr (hadopted .pending), by rintro pc' ⟨⟩; exact hk⟩
  | allocate existing =>
    unfold StartPc.next
    dsimp only
    split
    · exact ⟨List.forall_mem_singleton.mpr (appId_noSlotRecord hd), by rintro pc' ⟨⟩⟩
    · exact ⟨by simp [Effect.Own], by rintro pc' ⟨⟩; exact hk⟩
  | _ =>
    unfold StartPc.next
    dsimp only
    repeat' split
    all_goals
      refine ⟨by simp [Effect.Own], ?_⟩
      rintro pc' ⟨⟩
      try first | trivial | exact hk | exact hd

theorem WaitPc.own_next {d : Daemon} {desired : DesiredInstance} (shortfallMib : ℕ) {pc : WaitPc}
    (hk : pc.Keyed desired.appId)
    (hd : KeyedCopy desired.appId d.host.records[desired.appId]?) :
    (∀ e ∈ (pc.next d desired shortfallMib).1, e.Own desired.appId) ∧
      ∀ pc', (pc.next d desired shortfallMib).2 = some pc' → pc'.Keyed desired.appId := by
  cases pc with
  | allocate =>
    unfold WaitPc.next
    dsimp only
    split
    · exact ⟨List.forall_mem_singleton.mpr (appId_noSlotRecord hd), by rintro pc' ⟨⟩⟩
    · exact ⟨by simp [Effect.Own], by rintro pc' ⟨⟩; trivial⟩
  | read slot => exact ⟨by simp [WaitPc.next], by rintro pc' ⟨⟩; exact hd⟩
  | write existing slot =>
    exact ⟨List.forall_mem_singleton.mpr (appId_adoptedRecord hk slot .pending),
      by rintro pc' ⟨⟩⟩

theorem Reading.appId_settle [Platform] (x : Reading) (latest : InstanceRecord) :
    (x.settle latest).appId = latest.appId := by
  unfold Reading.settle
  repeat' split
  all_goals rfl

theorem StopPc.own_next (d : Daemon) (app : AppId) (pc : StopPc) :
    ∀ e ∈ (pc.next d app).1, e.Own app := by
  cases pc <;> simp [StopPc.next, Effect.Own]

/-- What a step does to records leaves them under their app. -/
theorem Task.own_effects [Platform] {d : Daemon} {t : ℕ} {task : Task} (hk : task.Keyed)
    (hd : KeyedCopy task.app d.host.records[task.app]?) :
    ∀ e ∈ (task.next d t).1, e.Own task.app := by
  cases task with
  | stop app pc => exact pc.own_next d app
  | discard app pc => cases pc <;> simp [Task.next, DiscardPc.next, Effect.Own]
  | settle app answers pc =>
    cases pc <;> simp [Task.next, SettlePc.next, Effect.Own, Reading.appId_settle]
  | suspend app answer pc =>
    cases pc with
    | stop pc => exact pc.own_next d app
    | _ =>
      unfold Task.next SuspendPc.next
      dsimp only
      repeat' split
      all_goals simp [Effect.Own]
  | wake wanted answers pc =>
    cases pc with
    | cold pc => exact (StartPc.own_next answers.start hk hd).1
    | _ =>
      unfold Task.next WakePc.next
      dsimp only
      repeat' split
      all_goals simp [Effect.Own]
  | wave current rest records pc =>
    cases pc with
    | measure =>
      unfold Task.next
      dsimp only
      split <;> simp
    | waiting shortfall pc => exact (WaitPc.own_next shortfall hk hd).1
    | starting pc => exact (StartPc.own_next current.2 hk hd).1
    | reread => simp [Task.next]

/-- Where a task goes on, the copies it carries stay of its app. -/
theorem Task.keyed_next [Platform] {d : Daemon} {t : ℕ} {task after : Task} (hk : task.Keyed)
    (hd : KeyedCopy task.app d.host.records[task.app]?) (h : (task.next d t).2 = some after) :
    after.Keyed := by
  cases Task.goesOn h with
  | @wake wanted answers pc pc' hpc =>
    cases pc with
    | cold pc =>
      have hafter : (pc.next d wanted answers.start).2.elim .unlock .cold = pc' :=
        Option.some.inj hpc
      subst hafter
      cases hstart : (pc.next d wanted answers.start).2 with
      | none => trivial
      | some start => exact (StartPc.own_next answers.start hk hd).2 start hstart
    | _ =>
      revert hpc
      unfold WakePc.next
      dsimp only
      repeat' split
      all_goals
        rintro ⟨⟩
        try trivial
  | @waiting current rest records shortfall pc pc' hpc =>
    exact (WaitPc.own_next shortfall hk hd).2 pc' hpc
  | @starting current rest records pc pc' hpc =>
    exact (StartPc.own_next current.2 hk hd).2 pc' hpc
  | _ => trivial

/-- Every record is kept under its own app, and so is every copy a task carries. -/
structure Daemon.Keyed (d : Daemon) : Prop where
  records : ∀ app, KeyedCopy app d.host.records[app]?
  tasks : ∀ t task, d.tasks t = some task → task.Keyed

namespace Daemon

theorem keyed_quiet {h : Host} (hk : h.Keyed) (permits : ℕ) : (quiet h permits).Keyed :=
  ⟨hk, fun _ _ ht => by cases ht⟩

/-- A step of a task changes the record of its app only. -/
theorem Keyed.records_step_task [Platform] {d : Daemon} (hd : d.Keyed) {t : ℕ} {task : Task}
    (ht : d.tasks t = some task) (a : AppId) :
    (d.step (.step t)).host.records[a]? =
      if task.app = a then (task.next d t).1.foldl (fun r e => e.record r) d.host.records[a]?
      else d.host.records[a]? := by
  rw [step_task ht]
  exact records_actAll (Task.own_effects (hd.tasks t task ht) (hd.records _)) a

/-- What is put on a record of the app by effects that keep records under their apps is the
app's. -/
theorem keyedCopy_foldl {app : AppId} {effects : List Effect} (he : ∀ e ∈ effects, e.Own app)
    {r : Option InstanceRecord} (hr : KeyedCopy app r) :
    KeyedCopy app (effects.foldl (fun r e => e.record r) r) := by
  induction effects generalizing r with
  | nil => exact hr
  | cons e effects ih =>
    refine ih (fun e' h => he e' (List.mem_cons_of_mem e h)) ?_
    have hown := he e List.mem_cons_self
    cases e with
    | put r' =>
      rintro _ ⟨⟩
      exact hown
    | update change =>
      intro r' hr'
      obtain ⟨r₀, hr₀, rfl⟩ := Option.map_eq_some_iff.mp hr'
      exact (hown r₀).trans (hr r₀ hr₀)
    | drop => rintro _ ⟨⟩
    | _ => exact hr

theorem Keyed.step [Platform] {d : Daemon} (hd : d.Keyed) (m : Move) : (d.step m).Keyed := by
  constructor
  · cases m with
    | begin t operation =>
      simp only [Daemon.step]
      split <;> exact hd.records
    | guestExit app exit => exact hd.records
    | strayExit app process => exact hd.records
    | step t =>
      cases ht : d.tasks t with
      | none =>
        rw [step_none ht]
        exact hd.records
      | some task =>
        intro app
        rw [hd.records_step_task ht]
        split
        next happ =>
          subst happ
          have hown := Task.own_effects (t := t) (hd.tasks t task ht) (hd.records _)
          exact keyedCopy_foldl hown (hd.records _)
        next => exact hd.records app
  · intro t after ht
    rcases tasks_step ht with hkept | ⟨operation, -, hbegun⟩ | ⟨-, task, htask, hnext⟩
    · exact hd.tasks t after hkept
    · cases hbegun <;> trivial
    · exact Task.keyed_next (hd.tasks t task htask) (hd.records _) hnext

end Daemon

end Nibrunner

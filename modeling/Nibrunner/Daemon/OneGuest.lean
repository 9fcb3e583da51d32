import Nibrunner.Daemon.TaskEffects

/-!
# At most one guest of an app

The manager spawns no process for an app whose recorded process is up when it looks; but it looks
before it lays the jail out, and spawns after. `OneBringUp` says which moves keep that check
sufficient: no task passes it while another of the same app is between it and its spawn, and no
record of a process that is up is deleted. Along every run of such moves a spawn finds no live
process of its app (`spawns_alone_run`).

`not_spawns_alone` is a run of a pass's start and a request for the same app, both past the check
before either has spawned: two guests come up on the app's one device.
-/

namespace Nibrunner

/-- **The move keeps the check sufficient.** A task that passes the manager's check is the only
one of its app between the check and the spawn, and the record of a process is deleted only where
the process is down. -/
def OneBringUp (d : Daemon) : Move → Prop
  | .step t =>
    ∀ task, d.tasks t = some task →
      (task.atCheck = true → d.host.isUp task.app = false →
        ∀ t' other, t' ≠ t → d.tasks t' = some other → other.app = task.app →
          other.checked = false) ∧
      (task.forgets = true → d.host.isUp task.app = false)
  | _ => True

/-- Every live process is recorded, and an app a task is past the check for is down and has no
other such task. -/
structure Exclusive (d : Daemon) : Prop where
  strays : d.strays = []
  down : ∀ t task, d.tasks t = some task → task.checked = true → d.host.isUp task.app = false
  alone : ∀ t t' task task', d.tasks t = some task → d.tasks t' = some task' →
    task.checked = true → task'.checked = true → task.app = task'.app → t = t'

theorem exclusive_quiet (h : Host) (permits : ℕ) : Exclusive (.quiet h permits) :=
  ⟨rfl, (fun _ _ ht => by cases ht), (fun _ _ _ _ ht => by cases ht)⟩

namespace Exclusive

variable {d d' : Daemon}

/-- Nothing was brought up, and the tasks past the check were so before. -/
theorem of_subdued (hd : Exclusive d) (hs : Subdued d d')
    (htasks : ∀ t task, d'.tasks t = some task → task.checked = true → d.tasks t = some task) :
    Exclusive d' where
  strays := List.sublist_nil.mp (hd.strays ▸ hs.strays)
  down t task ht hc := hs.isUp_eq_false (hd.down t task (htasks t task ht hc) hc)
  alone t t' task task' ht ht' hc hc' happ :=
    hd.alone t t' task task' (htasks t task ht hc) (htasks t' task' ht' hc') hc hc' happ

/-- A step after which the task is not past the check leaves no new task past it. -/
theorem tasks_of_unchecked {t : ℕ} {after : Option Task}
    (hafter : ∀ task, after = some task → task.checked = false) (htasks : d'.tasks = d.tasks) :
    ∀ t' task, (d'.setTask t after).tasks t' = some task → task.checked = true →
      d.tasks t' = some task := by
  intro t' task ht hc
  rw [Daemon.tasks_setTask] at ht
  split at ht
  · rw [hafter task ht] at hc
    cases hc
  · rw [← htasks]
    exact ht

/-- A task gets past the check alone, its app down. -/
theorem passed (hd : Exclusive d) (hs : Subdued d d') (htasks : d'.tasks = d.tasks) {t : ℕ}
    {app : AppId} {after : Option Task}
    (hafter : ∀ task, after = some task → task.checked = true → task.app = app)
    (hdown : d.host.isUp app = false)
    (hother : ∀ t' other, t' ≠ t → d.tasks t' = some other → other.app = app →
      other.checked = false) :
    Exclusive (d'.setTask t after) := by
  have hcase : ∀ t' task, (d'.setTask t after).tasks t' = some task → task.checked = true →
      (t' = t ∧ task.app = app) ∨ (t' ≠ t ∧ d.tasks t' = some task) := by
    intro t' task ht hc
    rw [Daemon.tasks_setTask] at ht
    split at ht
    · exact .inl ⟨‹_›, hafter task ht hc⟩
    · exact .inr ⟨‹_›, htasks ▸ ht⟩
  refine ⟨List.sublist_nil.mp (hd.strays ▸ hs.strays), fun t' task ht hc => ?_, ?_⟩
  · refine hs.isUp_eq_false ?_
    rcases hcase t' task ht hc with ⟨-, happ⟩ | ⟨-, ht⟩
    · rw [happ]
      exact hdown
    · exact hd.down t' task ht hc
  · -- two tasks past the check for one app: if one is the task just past it, so is the other
    intro t₁ t₂ task₁ task₂ ht₁ ht₂ hc₁ hc₂ happ
    rcases hcase t₁ task₁ ht₁ hc₁ with ⟨heq₁, happ₁⟩ | ⟨hne₁, hold₁⟩
    · rcases hcase t₂ task₂ ht₂ hc₂ with ⟨heq₂, -⟩ | ⟨hne₂, hold₂⟩
      · exact heq₁.trans heq₂.symm
      · rw [hother t₂ task₂ hne₂ hold₂ (happ.symm.trans happ₁)] at hc₂
        cases hc₂
    · rcases hcase t₂ task₂ ht₂ hc₂ with ⟨-, happ₂⟩ | ⟨hne₂, hold₂⟩
      · rw [hother t₁ task₁ hne₁ hold₁ (happ.trans happ₂)] at hc₁
        cases hc₁
      · exact hd.alone t₁ t₂ task₁ task₂ hold₁ hold₂ hc₁ hc₂ happ

/-- The task past the check spawns its process. -/
theorem spawned (hd : Exclusive d) {t : ℕ} {task : Task} (ht : d.tasks t = some task)
    (hc : task.checked = true) (vm : Vm) {after : Option Task}
    (hafter : ∀ task, after = some task → task.checked = false) :
    Exclusive ((d.actAll task.app [.spawn vm]).setTask t after) := by
  have hdown := hd.down t task ht hc
  have htasks := tasks_of_unchecked (t := t) hafter (d.tasks_actAll task.app [.spawn vm])
  have hnone : d.host.vms[task.app]?.filter Vm.isUp = none := by
    rw [Option.filter_eq_none_iff]
    intro vm₀ hvm₀ hup
    rw [Host.isUp, hvm₀, Option.any_some, hup] at hdown
    cases hdown
  refine ⟨?_, fun t' other ht' hc' => ?_, fun t₁ t₂ task₁ task₂ ht₁ ht₂ hc₁ hc₂ happ =>
    hd.alone t₁ t₂ task₁ task₂ (htasks t₁ task₁ ht₁ hc₁) (htasks t₂ task₂ ht₂ hc₂) hc₁ hc₂ happ⟩
  · have hstrays : ((d.actAll task.app [.spawn vm]).setTask t after).strays =
        d.straysWithout task.app := rfl
    rw [hstrays, Daemon.straysWithout, hnone]
    exact hd.strays
  · have ht₀ := htasks t' other ht' hc'
    have hne : other.app ≠ task.app := by
      intro happ
      obtain rfl := hd.alone t' t other task ht₀ ht hc' hc happ
      rw [Daemon.tasks_setTask, if_pos rfl] at ht'
      rw [hafter other ht'] at hc'
      cases hc'
    have hframe := Host.OnlyApp.putVm d.host task.app vm
    exact (hframe.isUp_eq hne).trans (hd.down t' other ht₀ hc')

theorem step [Platform] (hd : Exclusive d) (m : Move) (hm : OneBringUp d m) :
    Exclusive (d.step m) := by
  cases m with
  | begin t operation =>
    refine hd.of_subdued (d.subdued_begin t operation) ?_
    simp only [Daemon.step]
    split
    · exact tasks_of_unchecked (fun task ht => operation.checked_task d ht) rfl
    · exact fun _ _ ht _ => ht
  | guestExit app exit => exact hd.of_subdued (d.subdued_guestExit app exit) fun _ _ ht _ => ht
  | strayExit app process =>
    exact hd.of_subdued (d.subdued_strayExit app process) fun _ _ ht _ => ht
  | step t =>
    cases ht : d.tasks t with
    | none =>
      rw [Daemon.step_none ht]
      exact hd
    | some task =>
      obtain ⟨hcheck, hforget⟩ := hm task ht
      rw [Daemon.step_task ht]
      have he := task.effects_cases d t
      generalize (task.next d t).1 = effects, (task.next d t).2 = after at he ⊢
      cases he with
      | calm _ hcalm _ hchecked =>
        have hs := d.subdued_actAll task.app hcalm
        -- a task that may just have passed the check is the only one of its app that has
        by_cases hat : task.atCheck = true ∧ d.host.isUp task.app = false
        · exact hd.passed hs (d.tasks_actAll _ _) (fun after' ha hc => (hchecked after' ha hc).2.2)
            hat.2 (hcheck hat.1 hat.2)
        · refine hd.of_subdued (Daemon.subdued_setTask hs t _)
            (tasks_of_unchecked (fun after' ha => ?_) (d.tasks_actAll _ _))
          by_contra hc
          obtain ⟨h₁, h₂, -⟩ := hchecked after' ha (by simpa using hc)
          exact hat ⟨h₁, h₂⟩
      | spawned vm hc _ hafter => exact hd.spawned ht hc vm hafter
      | forgot hforgets _ hafter =>
        exact hd.of_subdued (Daemon.subdued_setTask (d.subdued_forget _ (hforget hforgets)) t _)
          (tasks_of_unchecked hafter (d.tasks_actAll _ _))

/-- A spawn finds no live process of its app. -/
theorem guests_of_spawns [Platform] (hd : Exclusive d) {t : ℕ} {app : AppId}
    (hs : d.spawns t app = true) : d.guests app = [] := by
  obtain ⟨task, ht, rfl, hc⟩ := Daemon.checked_of_spawns hs
  have hdown := hd.down t task ht hc
  rw [Daemon.guests, hd.strays, hdown]
  rfl

theorem length_guests (hd : Exclusive d) (app : AppId) : (d.guests app).length ≤ 1 := by
  rw [Daemon.guests, hd.strays]
  split <;> simp

end Exclusive

/-- **At most one guest of an app.** Along every run that meets `OneBringUp`, no process is spawned
for an app while one spawned for it earlier lives, and no app ever has two. -/
theorem spawns_alone_run [Platform] (h : Host) (permits : ℕ) (moves : List Move)
    (hm : Run.Meets Daemon.step OneBringUp (.quiet h permits) moves) :
    (∀ t app, ((Daemon.quiet h permits).run moves).spawns t app = true →
      ((Daemon.quiet h permits).run moves).guests app = []) ∧
    ∀ app, (((Daemon.quiet h permits).run moves).guests app).length ≤ 1 := by
  have hd : Exclusive ((Daemon.quiet h permits).run moves) :=
    hm.invariant (fun d m hd hm => hd.step m hm) (exclusive_quiet h permits)
  exact ⟨fun t app hs => hd.guests_of_spawns hs, hd.length_guests⟩

/-! ### Two tasks at once -/

/-- The condition, looked at for the tasks below `n` alone. -/
def OneBringUpBelow (n : ℕ) (d : Daemon) : Move → Prop
  | .step t =>
    ∀ task ∈ d.tasks t,
      (task.atCheck = true → d.host.isUp task.app = false →
        ∀ t' < n, t' ≠ t → ∀ other ∈ d.tasks t', other.app = task.app →
          other.checked = false) ∧
      (task.forgets = true → d.host.isUp task.app = false)
  | _ => True

instance (n : ℕ) (d : Daemon) : (m : Move) → Decidable (OneBringUpBelow n d m)
  | .step t => inferInstanceAs (Decidable (∀ task ∈ d.tasks t, _))
  | .begin _ _ | .guestExit _ _ | .strayExit _ _ => inferInstanceAs (Decidable True)

theorem OneBringUpBelow.oneBringUp {n : ℕ} {d : Daemon} (hd : d.Numbered n) {m : Move}
    (h : OneBringUpBelow n d m) : OneBringUp d m := by
  cases m with
  | step t =>
    exact fun task ht => ⟨fun hcheck hdown t' other hne ho =>
      (h task ht).1 hcheck hdown t' (hd t' other ho) hne other ho, (h task ht).2⟩
  | _ => trivial

/-- Two requests for an app that is asleep, turn about: the second waits for the first. -/
def requestsInTurn : List Move :=
  [.begin 0 (.wake onRequestInstance wakeSucceeds), .begin 1 (.wake onRequestInstance wakeSucceeds)]
    ++ (List.replicate 16 [.step 0, .step 1]).flatten

theorem spawns_alone_run_requestsInTurn :
    (@Daemon.run .plain (.quiet asleepHost 2) requestsInTurn).host.isUp ⟨"app-1"⟩ = true ∧
      ((@Daemon.run .plain (.quiet asleepHost 2) requestsInTurn).guests ⟨"app-1"⟩).length ≤ 1 := by
  have hm : @Run.Meets _ _ (@Daemon.step .plain) OneBringUp (.quiet asleepHost 2)
      requestsInTurn := by
    refine @Daemon.meets_of_numbered .plain 2 _ (OneBringUpBelow 2)
      (fun _ _ hd h => h.oneBringUp hd) _ (fun _ _ ht => by cases ht) _ (fun t operation h => ?_)
      (by decide +kernel)
    simp [requestsInTurn] at h
    omega
  exact ⟨by decide +kernel, (@spawns_alone_run .plain asleepHost 2 requestsInTurn hm).2 _⟩

/-- The app deployed anew. -/
def redeployedInstance : DesiredInstance := { onRequestInstance with deploymentId := ⟨"dep-2"⟩ }

/-- A pass replaces the app, and a request for it arrives once its record is dropped: each finds no
record, and each passes the check before either has spawned. Then the pass spawns. -/
def redeployRace : List Move :=
  [.begin 0 (.stop ⟨"app-1"⟩)] ++ List.replicate 4 (.step 0) ++
    [.begin 0 (.discard ⟨"app-1"⟩)] ++ List.replicate 2 (.step 0) ++
    [.begin 0 (.starts (redeployedInstance, startSucceeds) [])] ++ List.replicate 2 (.step 0) ++
    [.begin 1 (.wake redeployedInstance wakeSucceeds)] ++ List.replicate 8 (.step 1) ++
    List.replicate 5 (.step 0) ++ List.replicate 5 (.step 1) ++ [.step 0]

/-- The request spawns a second process beside the pass's. -/
theorem not_spawns_alone :
    ¬ ∀ (_ : Platform) (h : Host) (permits : ℕ) (moves : List Move) (t : ℕ) (app : AppId),
      ((Daemon.quiet h permits).run moves).spawns t app = true →
        ((Daemon.quiet h permits).run moves).guests app = [] := by
  intro hall
  have hguests := hall .plain asleepHost 2 redeployRace 1 ⟨"app-1"⟩ (by decide +kernel)
  revert hguests
  decide +kernel

end Nibrunner

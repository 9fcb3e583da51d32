import Nibrunner.Daemon.OneGuest
import Nibrunner.Reconcile.MemoryAccounting

/-!
# Memory under concurrent wakes

A request and a pass's start each look for room before they bring a microVM up, and the records they
look at say so only once it is up. An app *needs* the memory of its microVM that is up, and the
memory a task has found room for and may still bring up. `KeepsMemory` says which moves keep the
host's memory whole:

* room that is found is there: beside what the records commit to the other apps and what these need
  beyond it, what was looked for fits the host's memory;
* a wake restores no more memory than it looked for;
* no app gets a second guest (`OneBringUp`).

Along every run of such moves the microVMs that are up fit the host's memory, if they did before
(`memory_fits_run`). `not_memory_fits` is two requests that both find the room there is for one.
-/

namespace Nibrunner

open Std

/-! ### Bring-ups that have found their room -/

/-- The start may still spawn its process. -/
def StartPc.mayYetSpawn : StartPc → Bool
  | begin | allocate _ | decide _ _ | attach _ _ | enter _ _ | check _ | spawn _ => true
  | _ => false

/-- The wake has found room and may still spawn a process, from its snapshot or cold. -/
def WakePc.mayYetSpawn : WakePc → Bool
  | lock | allocate | status _ | attach _ | enter _ | load _ | check _ | spawn _ | restore
  | reap _ => true
  | cold pc => pc.mayYetSpawn
  | _ => false

/-- The memory a task has found room for and may still bring up. -/
def Task.bringsUp : Task → Option ℕ
  | wake wanted _ pc =>
    if pc.mayYetSpawn then some wanted.config.resources.memoryMib else none
  | wave current _ _ (.starting pc) =>
    if pc.mayYetSpawn then some current.1.config.resources.memoryMib else none
  | _ => none

/-- The records a task is about to look for room in. -/
def Task.looksIn (d : Daemon) : Task → Option (List InstanceRecord)
  | wake _ _ .room => some d.host.recordList
  | wave _ _ records .measure => some records
  | _ => none

/-- The resources a task brings its app up with. -/
def Task.wants : Task → InstanceResources
  | wake wanted _ _ => wanted.config.resources
  | wave current _ _ _ => current.1.config.resources
  | _ => ⟨0, 0⟩

/-- The memory of everything alive. -/
def Daemon.liveMemory (d : Daemon) : ℕ :=
  ((d.host.vms.toList.filter (·.2.isUp)).map (·.2.memoryMib)).sum +
    (d.strays.map (·.memoryMib)).sum

/-- What is up of an app needs so much memory, or what a task may still bring up does. -/
def Daemon.Needs (d : Daemon) (app : AppId) (memoryMib : ℕ) : Prop :=
  (∃ vm, d.host.vms[app]? = some vm ∧ vm.isUp = true ∧ vm.memoryMib = memoryMib) ∨
    ∃ t task, d.tasks t = some task ∧ task.app = app ∧ task.bringsUp = some memoryMib

/-! ### The moves that keep the memory whole -/

/-- **The room found is there.** However one need is chosen for each of some other apps: what the
records commit to the others, what the chosen needs exceed it by, and what is wanted fit. -/
def RoomIsThere (d : Daemon) (records : List InstanceRecord) (app : AppId)
    (wanted : InstanceResources) : Prop :=
  let others := records.filter fun r => r.appId ≠ app && holdsSomething r
  let counted := KeyedSum.fiber (·.appId) (·.resources.memoryMib) others
  ∀ needs : List (AppId × ℕ), (needs.map (·.1)).Nodup →
    (∀ n ∈ needs, n.1 ≠ app ∧ d.Needs n.1 n.2) →
      (others.map (·.resources.memoryMib)).sum + (needs.map fun n => n.2 - counted n.1).sum +
        wanted.memoryMib ≤ d.host.config.guestMemoryMib

/-- A snapshot about to be restored has no more memory than was looked for. -/
def Task.restoresNoMore : Task → Bool
  | wake wanted _ (.spawn snapshot) => snapshot.memoryMib ≤ wanted.config.resources.memoryMib
  | _ => true

/-- **The move keeps the memory whole.** -/
def KeepsMemory (d : Daemon) : Move → Prop
  | .step t =>
    OneBringUp d (.step t) ∧ ∀ task, d.tasks t = some task →
      (∀ records, task.looksIn d = some records →
        memoryShortfallFor d.host.config.guestMemoryMib records task.app task.wants = none →
        RoomIsThere d records task.app task.wants) ∧
      task.restoresNoMore = true
  | _ => True

/-! ### What a step does to the bring-ups -/

theorem StartPc.mayYetSpawn_next [Platform] (d : Daemon) (desired : DesiredInstance)
    (answers : StartAnswers) (pc pc' : StartPc) (h : (pc.next d desired answers).2 = some pc')
    (hmay : pc'.mayYetSpawn = true) : pc.mayYetSpawn = true := by
  cases pc with
  | initialise =>
    unfold StartPc.next at h
    dsimp only at h
    split at h <;> cases h <;> cases hmay
  | reap process reason =>
    cases h
    cases hmay
  | say message | busy existing | failed reason | booted => cases h
  | _ => rfl

/-- Where the waker's shortfall is none, so is the one a wave computes. -/
theorem shortfall_eq_none {guestMemoryMib : ℕ} {records : List InstanceRecord} {app : AppId}
    {wanted : InstanceResources}
    (h : ¬ 0 < memoryShortfallMib guestMemoryMib
      (committedResources (records.filter fun r => r.appId ≠ app)) wanted) :
    memoryShortfallFor guestMemoryMib records app wanted = none := by
  have hfilter : committedResources (records.filter fun r => r.appId ≠ app) =
      (records.filter fun r => r.appId ≠ app && holdsSomething r).map (·.resources) := by
    rw [committedResources, List.filter_filter]
    refine congrArg _ (List.filter_congr fun r _ => ?_)
    rw [Bool.and_comm]
  rw [hfilter] at h
  rw [memoryShortfallFor]
  exact if_neg h

/-- A wake that may spawn could do so before, or just found the room for it. -/
theorem WakePc.mayYetSpawn_next [Platform] {d : Daemon} {t : ℕ} {wanted : DesiredInstance}
    {answers : Host.WakeAnswers} {pc pc' : WakePc}
    (h : (pc.next d t wanted answers).2 = some pc') (hmay : pc'.mayYetSpawn = true) :
    pc.mayYetSpawn = true ∨ pc = .room ∧ (pc.next d t wanted answers).1 = [] ∧
      memoryShortfallFor d.host.config.guestMemoryMib d.host.recordList wanted.appId
        wanted.config.resources = none := by
  cases pc with
  | room =>
    -- there was room, or the wake would have gone to wait for it
    refine .inr ⟨rfl, ?_⟩
    simp only [WakePc.next] at h ⊢
    split at h
    · cases h
    next hasked =>
      rw [if_neg hasked]
      split at h
      · cases h
        cases hmay
      next hroom =>
        rw [if_neg hroom]
        exact ⟨rfl, shortfall_eq_none hroom⟩
  | cold pc =>
    left
    have hafter : (pc.next d wanted answers.start).2.elim unlock cold = pc' := Option.some.inj h
    subst hafter
    cases hstart : (pc.next d wanted answers.start).2 with
    | none =>
      rw [hstart] at hmay
      cases hmay
    | some start =>
      rw [hstart] at hmay
      exact pc.mayYetSpawn_next d wanted answers.start start hstart hmay
  | noRoom shortfall => cases h
  | unlock => cases h
  | restored | say reason =>
    cases h
    cases hmay
  | _ => exact .inl rfl

/-- **What a step of a task does to what it may bring up**: a task that may bring so much up could
do so before, or just found the room for it. -/
theorem Task.bringsUp_next [Platform] (d : Daemon) (t : ℕ) (task after : Task) {memoryMib : ℕ}
    (h : (task.next d t).2 = some after) (hb : after.bringsUp = some memoryMib) :
    after.app = task.app ∧
      (task.bringsUp = some memoryMib ∨
        ∃ records, task.looksIn d = some records ∧ (task.next d t).1 = [] ∧
          memoryMib = task.wants.memoryMib ∧
          memoryShortfallFor d.host.config.guestMemoryMib records task.app task.wants = none) := by
  cases Task.goesOn h with
  | @wake wanted answers pc pc' hpc =>
    refine ⟨rfl, ?_⟩
    obtain ⟨hmay, hmemory⟩ := Option.ite_none_right_eq_some.mp hb
    rcases WakePc.mayYetSpawn_next hpc hmay with hbefore | ⟨rfl, hsilent, hroom⟩
    · left
      rw [Task.bringsUp, if_pos hbefore]
      exact hmemory
    · exact .inr ⟨_, rfl, hsilent, (Option.some.inj hmemory).symm, hroom⟩
  | @roomy current rest records hroom =>
    refine ⟨rfl, .inr ⟨records, rfl, ?_, ?_, hroom⟩⟩
    · simp only [Task.next, hroom]
    · have hmemory : some current.1.config.resources.memoryMib = some memoryMib := hb
      exact (Option.some.inj hmemory).symm
  | @starting current rest records pc pc' hpc =>
    obtain ⟨hmay, hmemory⟩ := Option.ite_none_right_eq_some.mp hb
    refine ⟨rfl, .inl ?_⟩
    rw [Task.bringsUp, if_pos (pc.mayYetSpawn_next d current.1 current.2 pc' hpc hmay)]
    exact hmemory
  -- no other task is on its way to a spawn
  | _ => cases hb

/-- A process is spawned with the memory its task found room for, or that of its snapshot. -/
theorem Task.memory_of_spawn [Platform] (d : Daemon) (t : ℕ) (task : Task) (vm : Vm)
    (h : .spawn vm ∈ (task.next d t).1) :
    ∃ memoryMib, task.bringsUp = some memoryMib ∧
      (vm.memoryMib = memoryMib ∨
        ∃ wanted answers snapshot, task = .wake wanted answers (.spawn snapshot) ∧
          vm.memoryMib = snapshot.memoryMib ∧
          memoryMib = wanted.config.resources.memoryMib) := by
  -- a start spawns what its document asks for
  have hstart : ∀ (pc : StartPc) (desired : DesiredInstance) (answers : StartAnswers),
      .spawn vm ∈ (pc.next d desired answers).1 →
        pc.mayYetSpawn = true ∧ vm.memoryMib = desired.config.resources.memoryMib := by
    intro pc desired answers hmem
    cases pc with
    | spawn slot =>
      unfold StartPc.next at hmem
      dsimp only at hmem
      split at hmem
      · simp at hmem
      · simp only [List.mem_singleton, Effect.spawn.injEq] at hmem
        subst hmem
        exact ⟨rfl, rfl⟩
    | _ =>
      unfold StartPc.next at hmem
      dsimp only at hmem
      revert hmem
      repeat' split
      all_goals simp
  have hcalm : ∀ effects : List Effect, (∀ e ∈ effects, e.Calm) → .spawn vm ∉ effects :=
    fun effects hall hmem => hall _ hmem
  -- of the others only a wake spawns, with the memory of the snapshot it loads
  cases task with
  | stop app pc => exact absurd h (hcalm _ (pc.calm_next d app))
  | discard app pc => cases pc <;> simp [Task.next, DiscardPc.next] at h
  | suspend app answer pc => exact absurd h (hcalm _ (pc.calm_next d t app answer))
  | settle app answers pc => cases pc <;> simp [Task.next, SettlePc.next] at h
  | wake wanted answers pc =>
    cases pc with
    | cold pc =>
      obtain ⟨hmay, hmem⟩ := hstart pc wanted answers.start h
      exact ⟨_, if_pos hmay, .inl hmem⟩
    | spawn snapshot =>
      unfold Task.next WakePc.next at h
      dsimp only at h
      split at h
      · simp at h
      · simp only [List.mem_singleton, Effect.spawn.injEq] at h
        subst h
        exact ⟨_, rfl, .inr ⟨wanted, answers, snapshot, rfl, rfl, rfl⟩⟩
    | _ =>
      unfold Task.next WakePc.next at h
      dsimp only at h
      revert h
      repeat' split
      all_goals simp
  | wave current rest records pc =>
    cases pc with
    | measure =>
      unfold Task.next at h
      dsimp only at h
      split at h <;> simp at h
    | waiting shortfall pc => exact absurd h (hcalm _ (pc.calm_next d current.1 shortfall))
    | starting pc =>
      obtain ⟨hmay, hmem⟩ := hstart pc current.1 current.2 h
      exact ⟨_, if_pos hmay, .inl hmem⟩
    | reread => simp [Task.next] at h

/-! ### What the apps need together -/

namespace Daemon

open KeyedSum (ChoicesWithin)

variable {d d' : Daemon}

/-- The room that is there is room beside everything the others need. -/
theorem fits_of_roomIsThere {records : List InstanceRecord} {app : AppId}
    {wanted : InstanceResources} (hroom : RoomIsThere d records app wanted)
    (needs : List (AppId × ℕ)) (hneeds : (needs.map (·.1)).Nodup)
    (hall : ∀ n ∈ needs, n.1 ≠ app ∧ d.Needs n.1 n.2) :
    (needs.map (·.2)).sum + wanted.memoryMib ≤ d.host.config.guestMemoryMib := by
  have hfits := hroom needs hneeds hall
  generalize records.filter (fun r => r.appId ≠ app && holdsSomething r) = others at hfits
  have hcounted := KeyedSum.sum_fiber_le (fun r : InstanceRecord => r.appId)
    (·.resources.memoryMib) hneeds others
  rw [List.map_map] at hcounted
  -- a need is what is counted of it, at most, and what it exceeds that by
  have hsplit : (needs.map (·.2)).sum ≤ (needs.map fun n =>
      KeyedSum.fiber (fun r : InstanceRecord => r.appId) (·.resources.memoryMib) others n.1 +
        (n.2 - KeyedSum.fiber (fun r : InstanceRecord => r.appId) (·.resources.memoryMib) others
          n.1)).sum := List.sum_le_sum fun n _ => by omega
  rw [List.sum_map_add] at hsplit
  exact (Nat.add_le_add_right (hsplit.trans (Nat.add_le_add_right hcounted _)) _).trans hfits

/-- What is up of an app after a step that brings nothing up was up before. -/
theorem needs_of_subdued (hs : Subdued d d') {app : AppId} {vm : Vm}
    (hvm : d'.host.vms[app]? = some vm) (hup : vm.isUp = true) : d.Needs app vm.memoryMib := by
  obtain ⟨vm₀, hvm₀, hup₀, hmemory⟩ := hs.up app vm hvm hup
  exact .inl ⟨vm₀, hvm₀, hup₀, hmemory⟩

variable [Platform]

/-- **A step adds one need at most**, that of its own app, where it finds room for it. -/
theorem needs_step {t : ℕ} {task : Task} (ht : d.tasks t = some task)
    (hm : KeepsMemory d (.step t)) {app : AppId} {memoryMib : ℕ}
    (hneeds : (d.step (.step t)).Needs app memoryMib) :
    ∃ memoryMib', (d.Needs app memoryMib' ∨
      (∃ records, task.looksIn d = some records ∧ memoryShortfallFor
        d.host.config.guestMemoryMib records task.app task.wants = none) ∧
        app = task.app ∧ memoryMib' = task.wants.memoryMib) ∧ memoryMib ≤ memoryMib' := by
  rw [step_task ht] at hneeds
  rcases hneeds with ⟨vm, hvm, hup, rfl⟩ | ⟨t', other, ht', rfl, hb⟩
  · have hspawn := task.memory_of_spawn d t
    have he := task.effects_cases d t
    generalize (task.next d t).1 = effects, (task.next d t).2 = after at he hspawn hvm
    cases he with
    | calm _ hcalm _ hchecked =>
      exact ⟨_, .inl (needs_of_subdued (d.subdued_actAll _ hcalm) hvm hup), Nat.le_refl _⟩
    | forgot hforgets _ hchecked =>
      have hdown := (hm.1 task ht).2 hforgets
      exact ⟨_, .inl (needs_of_subdued (d.subdued_forget _ hdown) hvm hup), Nat.le_refl _⟩
    | spawned vm' hc _ hchecked =>
      change (d.host.putVm task.app vm').vms[app]? = some vm at hvm
      rw [Host.putVm, ExtTreeMap.getElem?_insert_ite] at hvm
      split at hvm
      · rename_i happ
        cases hvm
        subst happ
        -- the process has what its task found room for, at most
        obtain ⟨found, hb, hmemory⟩ := hspawn vm List.mem_cons_self
        refine ⟨found, .inl (.inr ⟨t, task, ht, rfl, hb⟩), ?_⟩
        rcases hmemory with hmemory | ⟨wanted, answers, snapshot, rfl, hmemory, rfl⟩
        · exact Nat.le_of_eq hmemory
        · rw [hmemory]
          exact of_decide_eq_true (hm.2 _ ht).2
      · exact ⟨_, .inl (.inl ⟨vm, hvm, hup, rfl⟩), Nat.le_refl _⟩
  · rw [tasks_setTask, tasks_actAll] at ht'
    split at ht'
    · obtain ⟨happ, hbefore | ⟨records, hlooks, -, hmemory, hroom⟩⟩ :=
        task.bringsUp_next d t other ht' hb
      · exact ⟨_, .inl (.inr ⟨t, task, ht, happ.symm, hbefore⟩), Nat.le_refl _⟩
      · exact ⟨_, .inr ⟨⟨records, hlooks, hroom⟩, happ, rfl⟩, Nat.le_of_eq hmemory⟩
    · exact ⟨_, .inl (.inr ⟨t', other, ht', rfl, hb⟩), Nat.le_refl _⟩

/-- Every move keeps what the apps need within the host's memory. -/
theorem choicesWithin_step (hd : ChoicesWithin d.host.config.guestMemoryMib d.Needs) (m : Move)
    (hm : KeepsMemory d m) :
    ChoicesWithin d.host.config.guestMemoryMib (d.step m).Needs := by
  have hsubdued : Subdued d (d.step m) → (∀ t task memoryMib, (d.step m).tasks t = some task →
      task.bringsUp = some memoryMib → d.tasks t = some task) →
      ChoicesWithin d.host.config.guestMemoryMib (d.step m).Needs := by
    refine fun hs htasks => hd.mono fun app memoryMib hneeds => ⟨memoryMib, ?_, Nat.le_refl _⟩
    rcases hneeds with ⟨vm, hvm, hup, rfl⟩ | ⟨t, task, ht, happ, hb⟩
    · exact needs_of_subdued hs hvm hup
    · exact .inr ⟨t, task, htasks t task memoryMib ht hb, happ, hb⟩
  cases m with
  | begin t operation =>
    refine hsubdued (d.subdued_begin t operation) fun t' task memoryMib ht hb => ?_
    rcases tasks_step ht with hkept | ⟨operation', -, hbegun⟩ | ⟨⟨⟩, -⟩
    · exact hkept
    · cases hbegun <;> cases hb
  | guestExit app exit => exact hsubdued (d.subdued_guestExit app exit) fun _ _ _ ht _ => ht
  | strayExit app process =>
    exact hsubdued (d.subdued_strayExit app process) fun _ _ _ ht _ => ht
  | step t =>
    cases ht : d.tasks t with
    | none =>
      rw [step_none ht]
      exact hd
    | some task =>
      by_cases hfound : ∃ records, task.looksIn d = some records ∧
          memoryShortfallFor d.host.config.guestMemoryMib records task.app task.wants = none
      · obtain ⟨records, hlooks, hroom⟩ := hfound
        have hthere := (hm.2 task ht).1 records hlooks hroom
        refine (hd.insert (fits_of_roomIsThere hthere)).mono fun app memoryMib hneeds => ?_
        obtain ⟨memoryMib', hor, hle⟩ := needs_step ht hm hneeds
        exact ⟨memoryMib', hor.imp_right (·.2), hle⟩
      · refine hd.mono fun app memoryMib hneeds => ?_
        obtain ⟨memoryMib', hor, hle⟩ := needs_step ht hm hneeds
        exact ⟨memoryMib', hor.resolve_right fun hnew => hfound hnew.1, hle⟩

omit [Platform] in
/-- The microVMs that are up, by app, are each app's need of them. -/
theorem nodup_live (h : Host) :
    ((h.vms.toList.filter (·.2.isUp)).map (·.1)).Nodup := by
  refine List.Nodup.sublist (List.filter_sublist.map _) ?_
  rw [ExtTreeMap.map_fst_toList_eq_keys]
  exact ExtTreeMap.nodup_keys

omit [Platform] in
theorem liveMemory_le (hd : ChoicesWithin d.host.config.guestMemoryMib d.Needs)
    (hstrays : d.strays = []) : d.liveMemory ≤ d.host.config.guestMemoryMib := by
  have hlive := hd ((d.host.vms.toList.filter (·.2.isUp)).map fun p => (p.1, p.2.memoryMib))
    (by rw [List.map_map]; exact nodup_live d.host) fun n hn => by
      obtain ⟨p, hp, rfl⟩ := List.mem_map.mp hn
      obtain ⟨hp, hup⟩ := List.mem_filter.mp hp
      exact .inl ⟨p.2, ExtTreeMap.mem_toList_iff_getElem?_eq_some.mp hp, hup, rfl⟩
  rw [List.map_map] at hlive
  rw [liveMemory, hstrays]
  exact hlive

end Daemon

/-- No move changes the configuration. -/
theorem Daemon.config_step [Platform] (d : Daemon) (m : Move) :
    (d.step m).host.config = d.host.config := by
  cases m with
  | begin t operation => exact (d.subdued_begin t operation).config
  | guestExit app exit => exact (d.subdued_guestExit app exit).config
  | strayExit app process => exact (d.subdued_strayExit app process).config
  | step t =>
    cases ht : d.tasks t with
    | none => rw [step_none ht]
    | some task =>
      rw [step_task ht]
      have he := task.effects_cases d t
      generalize (task.next d t).1 = effects, (task.next d t).2 = after at he ⊢
      cases he with
      | calm _ hcalm _ hchecked => exact (d.subdued_actAll task.app hcalm).config
      | spawned vm hc _ hchecked => rfl
      | forgot hforgets _ hchecked => rfl

/-- What tasks below `n` may bring up, and what is up. -/
def Daemon.needsBelow (n : ℕ) (d : Daemon) : List (AppId × ℕ) :=
  (d.host.vms.toList.filter (·.2.isUp)).map (fun p => (p.1, p.2.memoryMib)) ++
    (List.range n).filterMap fun t =>
      (d.tasks t).bind fun task => task.bringsUp.map (task.app, ·)

theorem Daemon.mem_needsBelow {n : ℕ} {d : Daemon} (hd : d.Numbered n) {app : AppId}
    {memoryMib : ℕ} (h : d.Needs app memoryMib) : (app, memoryMib) ∈ d.needsBelow n := by
  rw [needsBelow, List.mem_append]
  rcases h with ⟨vm, hvm, hup, rfl⟩ | ⟨t, task, ht, rfl, hb⟩
  · exact .inl (List.mem_map.mpr ⟨(app, vm), List.mem_filter.mpr
      ⟨ExtTreeMap.mem_toList_iff_getElem?_eq_some.mpr hvm, hup⟩, rfl⟩)
  · exact .inr (List.mem_filterMap.mpr ⟨t, List.mem_range.mpr (hd t task ht), by simp [ht, hb]⟩)

/-- A choice of needs comes to no more than everything together. -/
theorem Daemon.sum_needs_le {n : ℕ} {d : Daemon} (hd : d.Numbered n) {needs : List (AppId × ℕ)}
    (hneeds : (needs.map (·.1)).Nodup) (hall : ∀ need ∈ needs, d.Needs need.1 need.2) :
    (needs.map (·.2)).sum ≤ ((d.needsBelow n).map (·.2)).sum :=
  KeyedSum.sum_le_sum_of_keyed (·.1) (·.1) _ _ hneeds fun need hneed =>
    ⟨need, mem_needsBelow hd (hall need hneed), rfl, Nat.le_refl _⟩

/-- **Memory under concurrent wakes.** Along every run that meets `KeepsMemory`, everything alive
fits the host's memory, if it did at the start. -/
theorem memory_fits_run [Platform] (h : Host) (permits : ℕ) (moves : List Move)
    (hfits : (Daemon.quiet h permits).liveMemory ≤ h.config.guestMemoryMib)
    (hm : Run.Meets Daemon.step KeepsMemory (.quiet h permits) moves) :
    ((Daemon.quiet h permits).run moves).liveMemory ≤ h.config.guestMemoryMib := by
  -- the first invariant is that of `OneBringUp`, the last is what the others are for
  obtain ⟨hexclusive, hconfig, hneeds⟩ := hm.invariant
    (I := fun d => Exclusive d ∧ d.host.config = h.config ∧
      KeyedSum.ChoicesWithin d.host.config.guestMemoryMib d.Needs)
    (fun d m ⟨hd, hconfig, hneeds⟩ hm => by
      refine ⟨hd.step m ?_, (d.config_step m).trans hconfig, ?_⟩
      · cases m with
        | step t => exact hm.1
        | _ => trivial
      · rw [d.config_step m]
        exact Daemon.choicesWithin_step hneeds m hm)
    ⟨exclusive_quiet h permits, rfl, fun needs hneeds hall => by
      -- nothing needs memory at the start but what is up
      have hnone : (Daemon.quiet h permits).Numbered 0 := fun _ _ ht => by cases ht
      refine (Daemon.sum_needs_le hnone hneeds hall).trans ?_
      simpa [Daemon.needsBelow, Daemon.liveMemory, Daemon.quiet, Function.comp_def] using hfits⟩
  rw [← hconfig]
  exact Daemon.liveMemory_le hneeds hexclusive.strays

/-! ### Two requests -/

/-- Another app, brought up when it is asked for, and its volume. -/
def otherInstance : DesiredInstance :=
  { onRequestInstance with appId := ⟨"app-2"⟩, volumeId := ⟨"vol-2"⟩ }

def otherVolume : DesiredVolume := { soleVolume with volumeId := ⟨"vol-2"⟩, appId := ⟨"app-2"⟩ }

/-- A document that names both. -/
def twoApps : HostDesiredState :=
  ⟨[soleVolume, otherVolume], [onRequestInstance, otherInstance], [], []⟩

/-- A host of so much memory, each of the two booted in its turn and put to sleep. -/
def bothAsleep (guestMemoryMib : ℕ) : Host :=
  @Host.run .plain
    (.fresh { guestMemoryMib := guestMemoryMib, proxyHttp := true, maxPortsPerGuest := none } 4)
    [.pass twoApps (.succeed .change 0), .refresh refreshWell, .suspend ⟨"app-1"⟩ .ok,
      .pass twoApps (.succeed .change 0), .refresh refreshWell, .suspend ⟨"app-2"⟩ .ok]

/-- Both requests look for room before either app is up. -/
def twoRequests : List Move :=
  [.begin 0 (.wake onRequestInstance wakeSucceeds), .step 0,
    .begin 1 (.wake otherInstance wakeSucceeds), .step 1] ++
    List.replicate 8 (.step 0) ++ List.replicate 8 (.step 1)

/-- The condition, looked at for the tasks below `n` alone: a move that looks for room finds it
beside everything they need. -/
def KeepsMemoryBelow (n : ℕ) (d : Daemon) : Move → Prop
  | .step t =>
    OneBringUpBelow n d (.step t) ∧ ∀ task ∈ d.tasks t,
      (∀ records ∈ task.looksIn d,
        ((records.filter fun r => r.appId ≠ task.app && holdsSomething r).map
            (·.resources.memoryMib)).sum +
          ((d.needsBelow n).map (·.2)).sum + task.wants.memoryMib ≤
            d.host.config.guestMemoryMib) ∧
      task.restoresNoMore = true
  | _ => True

instance (n : ℕ) (d : Daemon) : (m : Move) → Decidable (KeepsMemoryBelow n d m)
  | .step t => inferInstanceAs (Decidable (_ ∧ ∀ task ∈ d.tasks t, _))
  | .begin _ _ | .guestExit _ _ | .strayExit _ _ => inferInstanceAs (Decidable True)

theorem KeepsMemoryBelow.keepsMemory {n : ℕ} {d : Daemon} (hd : d.Numbered n) {m : Move}
    (h : KeepsMemoryBelow n d m) : KeepsMemory d m := by
  cases m with
  | step t =>
    refine ⟨h.1.oneBringUp hd, fun task ht => ⟨fun records hlooks _ needs hneeds hall => ?_,
      (h.2 task ht).2⟩⟩
    have htotal := Daemon.sum_needs_le hd hneeds fun n hn => (hall n hn).2
    exact (Nat.add_le_add_right (Nat.add_le_add_left ((List.sum_le_sum fun n _ =>
      Nat.sub_le _ _).trans htotal) _) _).trans ((h.2 task ht).1 records hlooks)
  | _ => trivial

/-- Where there is memory for both, both apps come up, though neither request saw the other. -/
theorem memory_fits_run_twoRequests :
    let d := @Daemon.run .plain (.quiet (bothAsleep 512) 2) twoRequests
    d.host.isUp ⟨"app-1"⟩ = true ∧ d.host.isUp ⟨"app-2"⟩ = true ∧ d.liveMemory ≤ 512 := by
  have hm : @Run.Meets _ _ (@Daemon.step .plain) KeepsMemory (.quiet (bothAsleep 512) 2)
      twoRequests := by
    refine @Daemon.meets_of_numbered .plain 2 _ (KeepsMemoryBelow 2)
      (fun _ _ hd h => h.keepsMemory hd) _ (fun _ _ ht => by cases ht) _ (fun t operation h => ?_)
      (by decide +kernel)
    simp [twoRequests] at h
    omega
  exact ⟨by decide +kernel, by decide +kernel,
    @memory_fits_run .plain (bothAsleep 512) 2 twoRequests (by decide +kernel) hm⟩

/-- Where there is memory for one of them, both come up as well. -/
theorem not_memory_fits :
    ¬ ∀ (_ : Platform) (h : Host) (permits : ℕ) (moves : List Move),
      (Daemon.quiet h permits).liveMemory ≤ h.config.guestMemoryMib →
        ((Daemon.quiet h permits).run moves).liveMemory ≤ h.config.guestMemoryMib := by
  intro hall
  have hfits := hall .plain (bothAsleep 256) 2 twoRequests (by decide +kernel)
  revert hfits
  decide +kernel

end Nibrunner

import Nibrunner.Cron.RunCalls

/-!
# Cron runs end with their deployment

A step either returns no call, grants a lease only of an owner that admits runs, and lists and
opens nothing, or it is the last of a call that has drained all it had to end.

* `runs_end`: when a synchronize, a stop or a shutdown returns, no lease it had to end is held, and
  none is granted again before a later synchronize lists the app, after a shutdown never; a lease
  is granted only of what the last synchronize listed and no stop has closed since; and what a
  drain waits for will be said to it.
* `not_ended_when_stopping`: a synchronize that finds a shutdown begun returns while leases are
  held that it did not list.
-/

namespace Nibrunner

open Std

namespace CronRuns

variable {s t : CronRuns} {call : CronCall} {stage : CronStage}

/-! ### What a step does to leases and calls -/

/-- A step in which no call returns: it lists nothing and opens no app, and a lease that is new was
asked for and is on an owner that admits runs. -/
structure Small (s t : CronRuns) : Prop where
  returned : ∀ (id : ℕ) (call : CronCall), t.tasks[id]? = some ⟨call, .returned⟩ →
    s.tasks[id]? = some ⟨call, .returned⟩
  listed : t.listed = s.listed
  closed : ∀ appId ∈ s.closed, appId ∈ t.closed
  stopping : s.stopping = true → t.stopping = true
  locked : s.stopping = true → s.ownersLocked = none → t.ownersLocked = none
  held : ∀ (k : ℕ) (appId : AppId) (deploymentId : DeploymentId) (owner : OwnerId) (n : ℕ),
    t.runs[k]? = some (.held appId deploymentId owner n) →
    s.runs[k]? = some (.held appId deploymentId owner n) ∨
      s.runs[k]? = some (.asking appId deploymentId) ∧ s.owners[appId]? = some owner ∧
        ∃ active, s.active[owner]? = some active ∧ active.deploymentId = deploymentId ∧
          active.accepting = true

namespace Small

theorem refl (s : CronRuns) : Small s s where
  returned _ _ h := h
  listed := rfl
  closed _ h := h
  stopping h := h
  locked _ h := h
  held _ _ _ _ _ h := .inl h

/-- A call goes on to a stage. -/
theorem goTo {id : ℕ} (hstage : stage ≠ .returned) (htasks : t.tasks = s.tasks)
    (hruns : t.runs = s.runs) (hlisted : t.listed = s.listed)
    (hclosed : ∀ appId ∈ s.closed, appId ∈ t.closed)
    (hstopping : s.stopping = true → t.stopping = true)
    (hlocked : t.ownersLocked = s.ownersLocked) : Small s (t.goTo id call stage) where
  returned k other h := by
    have hget : (t.goTo id call stage).tasks[k]? =
        if id = k then some ⟨call, stage⟩ else t.tasks[k]? := t.tasks.getElem?_insert_ite id k _
    rw [hget] at h
    split at h
    · exact absurd (CronTask.mk.inj (Option.some.inj h)).2 hstage
    · rwa [htasks] at h
  listed := hlisted
  closed := hclosed
  stopping := hstopping
  locked _ h := hlocked.trans h
  held k appId deploymentId owner n h := .inl (hruns ▸ h)

/-- A run goes on, and holds no lease it was not granted. -/
theorem run {id : ℕ} {run : CronRun} {locked : Option ℕ}
    {active : ExtTreeMap OwnerId DeploymentRuns}
    (hlocked : s.stopping = true → s.ownersLocked = none → locked = none)
    (hheld : ∀ appId deploymentId owner n, run = .held appId deploymentId owner n →
      s.runs[id]? = some (.asking appId deploymentId) ∧ s.owners[appId]? = some owner ∧
        ∃ active, s.active[owner]? = some active ∧ active.deploymentId = deploymentId ∧
          active.accepting = true) :
    Small s { s with active := active, runs := s.runs.insert id run, ownersLocked := locked } where
  returned _ _ h := h
  listed := rfl
  closed _ h := h
  stopping h := h
  locked := hlocked
  held k appId deploymentId owner n h := by
    rw [ExtTreeMap.getElem?_insert_ite] at h
    split at h
    next heq =>
      subst heq
      exact .inr (hheld _ _ _ _ (Option.some.inj h))
    next => exact .inl h

end Small

theorem small_ask (id : ℕ) (appId : AppId) (deploymentId : DeploymentId) :
    Small s (s.ask id appId deploymentId) := by
  unfold ask
  split
  · exact .refl s
  · split
    · exact .run (fun _ h => h) (by simp)
    next hrunning => exact .run (fun h => absurd h hrunning) (by simp)

theorem small_answer (id : ℕ) : Small s (s.answer id) := by
  unfold answer
  split
  next appId deploymentId h =>
    split
    next => exact .run (fun _ _ => rfl) (by simp)
    next owner active howner =>
      obtain ⟨howns, hactive, hdep⟩ := Owned.ownerOf_eq_some_iff.mp howner
      split
      next => exact .run (fun _ _ => rfl) (by simp)
      next n after hstart =>
        obtain ⟨haccepting, -⟩ := DeploymentRuns.start_eq_some_iff.mp hstart
        refine .run (fun _ _ => rfl) ?_
        rintro _ _ _ _ ⟨⟩
        exact ⟨h, howns, active, hactive, hdep, haccepting⟩
  next => exact .refl s

theorem small_release (id : ℕ) : Small s (s.release id) := by
  unfold release
  split
  · exact .run (fun _ h => h) (by simp)
  · exact .refl s

theorem notify_returned {owner : OwnerId} {task : CronTask}
    (h : (task.notify owner).stage = .returned) : task.notify owner = task := by
  unfold CronTask.notify at h ⊢
  split at h
  · cases h
  · cases h
  · rfl

theorem small_complete (id : ℕ) : Small s (s.complete id) := by
  unfold complete
  split
  next owner h =>
    have hrun : Small s { s with runs := s.runs.insert id .gone } := .run (fun _ h => h) (by simp)
    refine { hrun with returned := ?_ }
    intro k call hk
    have hk : (s.tasks.map fun _ task => task.notify owner)[k]? = some ⟨call, .returned⟩ := hk
    rw [ExtTreeMap.getElem?_map] at hk
    obtain ⟨task, htask, htold⟩ := Option.map_eq_some_iff.mp hk
    rw [htask, ← htold, notify_returned (by rw [htold])]
  next => exact .refl s

theorem small_arrive (id : ℕ) (call : CronCall) : Small s (s.arrive id call) := by
  unfold arrive
  split
  · exact .refl s
  · exact .goTo (by simp) rfl rfl rfl (fun _ h => h) (by simp +contextual) rfl

theorem small_enter (id : ℕ) : Small s (s.enter id) := by
  unfold enter
  split
  · split
    · exact .refl s
    · split
      · split <;> exact .goTo (by simp) rfl rfl rfl (fun _ h => h) (fun h => h) rfl
      · exact .goTo (by simp) rfl rfl rfl (fun _ h => h) (fun h => h) rfl
  · exact .refl s

theorem small_collect (id : ℕ) : Small s (s.collect id) := by
  unfold collect
  split
  · split
    · exact .refl s
    · split
      · exact .goTo (by simp) rfl rfl rfl (fun _ h => h) (fun h => h) rfl
      · exact .goTo (by simp) rfl rfl rfl (fun _ => List.mem_cons_of_mem _) (fun h => h) rfl
      · exact .goTo (by simp) rfl rfl rfl (fun _ h => h) (fun h => h) rfl
  · exact .refl s

theorem small_cancelNext (id : ℕ) : Small s (s.cancelNext id) := by
  unfold cancelNext
  split
  · exact .goTo (by simp) rfl rfl rfl (fun _ h => h) (fun h => h) rfl
  · exact .goTo (by simp) rfl rfl rfl (fun _ h => h) (fun h => h) rfl
  · exact .refl s

theorem small_drain (id : ℕ) : Small s (s.drain id) := by
  unfold drain
  split
  · exact .goTo (by simp) rfl rfl rfl (fun _ h => h) (fun h => h) rfl
  · split
    · exact .refl s
    · split <;> exact .goTo (by simp) rfl rfl rfl (fun _ h => h) (fun h => h) rfl
  · exact .goTo (by simp) rfl rfl rfl (fun _ h => h) (fun h => h) rfl
  · exact .refl s

theorem small_abort (id : ℕ) : Small s (s.abort id) := by
  unfold abort
  split
  · exact .goTo (by simp) rfl rfl rfl (fun _ h => h) (fun h => h) rfl
  · exact .goTo (by simp) rfl rfl rfl (fun _ h => h) (fun h => h) rfl
  · exact .refl s

/-- A step in which a call returns that has drained its owners. -/
structure Finishes (s t : CronRuns) (id : ℕ) (call : CronCall) : Prop where
  drained : ∃ owners told, s.tasks[id]? = some ⟨call, .draining owners [] told⟩
  task : ∀ k, t.tasks[k]? = if id = k then some ⟨call, .returned⟩ else s.tasks[k]?
  runs : t.runs = s.runs
  stopping : t.stopping = s.stopping
  locked : t.ownersLocked = s.ownersLocked
  history : (∃ deployments, call = .synchronize deployments ∧ t.listed = deployments) ∨
    t.listed = s.listed ∧ t.closed = s.closed

theorem finish_cases (id : ℕ) :
    Small s (s.finish id) ∨ ∃ call, Finishes s (s.finish id) id call := by
  unfold finish
  split
  next deployments retiring told h =>
    split
    · exact .inl (.refl s)
    refine .inr ⟨.synchronize deployments, ?_⟩
    simp only
    split
    · exact ⟨⟨retiring, told, h⟩, fun k => s.tasks.getElem?_insert_ite id k _, rfl, rfl, rfl,
        .inl ⟨deployments, rfl, rfl⟩⟩
    · obtain ⟨hlisted, -, hruns, hlocked, hstopping, htasks⟩ := Owned.own_all_frame deployments
        { s with
          owners := retiring.foldl (fun owners entry => owners.erase entry.1) s.owners
          listed := deployments
          closed := [] }
      refine ⟨⟨retiring, told, h⟩, fun k => ?_, hruns, hstopping, hlocked,
        .inl ⟨deployments, rfl, hlisted⟩⟩
      exact (ExtTreeMap.getElem?_insert_ite _ id k _).trans (by rw [htasks])
  next call owners told _ h =>
    exact .inr ⟨call, ⟨owners, told, h⟩, fun k => s.tasks.getElem?_insert_ite id k _, rfl, rfl, rfl,
      .inr ⟨rfl, rfl⟩⟩
  next => exact .inl (.refl s)

/-- What a step does: no call returns, or one does. -/
theorem step_cases (s : CronRuns) (move : Move) :
    Small s (s.step move) ∨ ∃ id call, Finishes s (s.step move) id call := by
  cases move with
  | ask id appId deploymentId => exact .inl (small_ask id appId deploymentId)
  | answer id => exact .inl (small_answer id)
  | release id => exact .inl (small_release id)
  | complete id => exact .inl (small_complete id)
  | arrive id call => exact .inl (small_arrive id call)
  | enter id => exact .inl (small_enter id)
  | collect id => exact .inl (small_collect id)
  | cancelNext id => exact .inl (small_cancelNext id)
  | drain id => exact .inl (small_drain id)
  | abort id => exact .inl (small_abort id)
  | finish id => exact (finish_cases id).imp_right fun ⟨call, h⟩ => ⟨id, call, h⟩

/-! ### What a call that returns has ended -/

/-- A call returns in a step. -/
def Returns (s : CronRuns) (move : Move) (id : ℕ) (call : CronCall) : Prop :=
  (∃ stage, s.tasks[id]? = some ⟨call, stage⟩ ∧ stage ≠ .returned) ∧
    (s.step move).tasks[id]? = some ⟨call, .returned⟩

theorem Returns.finishes {move : Move} {id : ℕ} (h : s.Returns move id call) :
    Finishes s (s.step move) id call := by
  obtain ⟨⟨stage, hbefore, hstage⟩, hafter⟩ := h
  have hno : s.tasks[id]? ≠ some ⟨call, .returned⟩ := by
    rw [hbefore]
    intro heq
    exact hstage (CronTask.mk.inj (Option.some.inj heq)).2
  rcases step_cases s move with hsmall | ⟨k, other, hfinishes⟩
  · exact absurd (hsmall.returned id call hafter) hno
  · rw [hfinishes.task] at hafter
    split at hafter
    next heq =>
      subst heq
      obtain rfl := (CronTask.mk.inj (Option.some.inj hafter)).1
      exact hfinishes
    next => exact absurd hafter hno

/-- A lease that is held when a call returns is on an owner it did not have to end. -/
theorem Finishes.not_mem {id : ℕ} (h : Finishes s t id call) (hs : s.Consistent) {k : ℕ}
    {appId : AppId} {deploymentId : DeploymentId} {owner : OwnerId} {n : ℕ}
    (hk : t.runs[k]? = some (.held appId deploymentId owner n)) :
    ∃ owners, s.Covers owners call ∧ (appId, owner) ∉ owners := by
  obtain ⟨owners, told, htask⟩ := h.drained
  obtain ⟨hcovers, -, drained, hsplit, hdrained⟩ := hs.ordered.keeps id _ htask
  obtain rfl : owners = drained := by simpa using hsplit
  refine ⟨owners, hcovers, fun hmem => ?_⟩
  rw [h.runs] at hk
  obtain ⟨-, active, hactive, -, hn⟩ := hs.owned.held k appId deploymentId owner n hk
  obtain ⟨_, hactive', -, hempty⟩ := hdrained _ hmem
  obtain rfl := Option.some.inj (hactive.symm.trans hactive')
  rw [ExtTreeMap.isEmpty_iff] at hempty
  rw [hempty] at hn
  exact ExtTreeMap.not_mem_empty hn

/-- Whoever holds a lease after a synchronize is asked for. -/
theorem Finishes.synchronized {id : ℕ} {deployments : List (AppId × DeploymentId)}
    (h : Finishes s t id (.synchronize deployments)) (hs : s.Consistent) {k : ℕ} {appId : AppId}
    {deploymentId : DeploymentId} {owner : OwnerId} {n : ℕ}
    (hk : t.runs[k]? = some (.held appId deploymentId owner n)) :
    (appId, deploymentId) ∈ deployments := by
  obtain ⟨owners, hcovers, hout⟩ := h.not_mem hs hk
  rw [h.runs] at hk
  obtain ⟨howner, active, hactive, hdep, -⟩ := hs.owned.held k appId deploymentId owner n hk
  rcases hcovers appId owner active howner hactive with hmem | hlisted
  · exact absurd hmem hout
  · exact hdep ▸ hlisted

/-- No lease of a stopped app is held. -/
theorem Finishes.stopped {id : ℕ} {appId : AppId} (h : Finishes s t id (.stop appId))
    (hs : s.Consistent) : appId ∈ t.closed ∧ ∀ (k : ℕ) (deploymentId : DeploymentId)
      (owner : OwnerId) (n : ℕ), t.runs[k]? ≠ some (.held appId deploymentId owner n) := by
  obtain ⟨owners, told, htask⟩ := h.drained
  obtain ⟨⟨hclosed, -⟩, -⟩ := hs.ordered.keeps id _ htask
  constructor
  · rcases h.history with ⟨_, hcall, -⟩ | ⟨-, hsame⟩
    · cases hcall
    · exact hsame ▸ hclosed
  · intro k deploymentId owner n hk
    obtain ⟨owners, ⟨-, hall⟩, hout⟩ := h.not_mem hs hk
    rw [h.runs] at hk
    exact hout (hall owner (hs.owned.held k appId deploymentId owner n hk).1)

/-- No lease is held after a shutdown, and no start is under way. -/
theorem Finishes.shut_down {id : ℕ} (h : Finishes s t id .shutdown) (hs : s.Consistent) :
    t.stopping = true ∧ t.ownersLocked = none ∧ ∀ (k : ℕ) (appId : AppId)
      (deploymentId : DeploymentId) (owner : OwnerId) (n : ℕ),
      t.runs[k]? ≠ some (.held appId deploymentId owner n) := by
  obtain ⟨owners, told, htask⟩ := h.drained
  obtain ⟨⟨hstopping, hlocked, -⟩, -⟩ := hs.ordered.keeps id _ htask
  refine ⟨h.stopping.trans hstopping, h.locked.trans hlocked, ?_⟩
  intro k appId deploymentId owner n hk
  obtain ⟨owners, ⟨-, -, hall⟩, hout⟩ := h.not_mem hs hk
  rw [h.runs] at hk
  exact hout (hall appId owner (hs.owned.held k appId deploymentId owner n hk).1)

/-! ### What stays ended -/

/-- A lease that a step grants is of what was listed and is not closed. -/
theorem granted_of_step (hs : s.Consistent) {move : Move} {k : ℕ} {appId : AppId}
    {deploymentId : DeploymentId} {owner : OwnerId} {n : ℕ}
    (hk : (s.step move).runs[k]? = some (.held appId deploymentId owner n)) :
    s.runs[k]? = some (.held appId deploymentId owner n) ∨
      s.ownersLocked = some k ∧ (appId, deploymentId) ∈ s.listed ∧ appId ∉ s.closed := by
  rcases step_cases s move with hsmall | ⟨id, call, hfinishes⟩
  · refine (hsmall.held k appId deploymentId owner n hk).imp_right ?_
    rintro ⟨hasking, howner, active, hactive, rfl, haccepting⟩
    exact ⟨hs.owned.asking k _ _ hasking,
      hs.owned.listed appId owner active howner hactive haccepting⟩
  · rw [hfinishes.runs] at hk
    exact .inl hk

/-- An app without leases that is not listed, or was closed since, and stays so. -/
def Ended (s : CronRuns) (appId : AppId) : Prop :=
  (appId ∈ s.closed ∨ ∀ deploymentId, (appId, deploymentId) ∉ s.listed) ∧
    ∀ (k : ℕ) (deploymentId : DeploymentId) (owner : OwnerId) (n : ℕ),
      s.runs[k]? ≠ some (.held appId deploymentId owner n)

theorem Ended.step (hs : s.Consistent) {appId : AppId} (h : s.Ended appId) {move : Move}
    (hlists : ∀ id deployments, s.Returns move id (.synchronize deployments) →
      ∀ deploymentId, (appId, deploymentId) ∉ deployments) : (s.step move).Ended appId := by
  obtain ⟨hout, hnone⟩ := h
  refine ⟨?_, ?_⟩
  · rcases step_cases s move with hsmall | ⟨id, call, hfinishes⟩
    · rw [hsmall.listed]
      exact hout.imp_left (hsmall.closed appId)
    · rcases hfinishes.history with ⟨deployments, rfl, hlisted⟩ | ⟨hlisted, hclosed⟩
      · obtain ⟨owners, told, htask⟩ := hfinishes.drained
        have hafter := (hfinishes.task id).trans (if_pos rfl)
        exact .inr (hlisted ▸ hlists id deployments ⟨⟨_, htask, by simp⟩, hafter⟩)
      · rwa [hlisted, hclosed]
  · intro k deploymentId owner n hk
    rcases granted_of_step hs hk with hheld | ⟨-, hlisted, hopen⟩
    · exact hnone k deploymentId owner n hheld
    · rcases hout with hclosed | hunlisted
      · exact hopen hclosed
      · exact hunlisted deploymentId hlisted

/-- The host has shut its cron runs down. -/
def ShutDown (s : CronRuns) : Prop :=
  s.stopping = true ∧ s.ownersLocked = none ∧ ∀ (k : ℕ) (appId : AppId)
    (deploymentId : DeploymentId) (owner : OwnerId) (n : ℕ),
    s.runs[k]? ≠ some (.held appId deploymentId owner n)

theorem ShutDown.step (hs : s.Consistent) (h : s.ShutDown) (move : Move) :
    (s.step move).ShutDown := by
  obtain ⟨hstopping, hlocked, hnone⟩ := h
  refine ⟨?_, ?_, ?_⟩
  · rcases step_cases s move with hsmall | ⟨id, call, hfinishes⟩
    · exact hsmall.stopping hstopping
    · exact hfinishes.stopping.trans hstopping
  · rcases step_cases s move with hsmall | ⟨id, call, hfinishes⟩
    · exact hsmall.locked hstopping hlocked
    · exact hfinishes.locked.trans hlocked
  · intro k appId deploymentId owner n hk
    rcases granted_of_step hs hk with hheld | ⟨hasks, -⟩
    · exact hnone k appId deploymentId owner n hheld
    · rw [hlocked] at hasks
      cases hasks

/-- What a drain waits for: a run that is about to tell it, or one that was told to end. -/
theorem awaited (hs : s.Consistent) {id : ℕ} {owners left : List (AppId × OwnerId)}
    {entry : AppId × OwnerId}
    (h : s.tasks[id]? = some ⟨call, .draining owners (entry :: left) (.waiting false)⟩) :
    (∃ k : ℕ, s.runs[k]? = some (.completing entry.2)) ∨
      ∃ (k : ℕ) (appId : AppId) (deploymentId : DeploymentId) (n : ℕ) (active : DeploymentRuns),
        s.runs[k]? = some (.held appId deploymentId entry.2 n) ∧
          s.active[entry.2]? = some active ∧ active.cancellations[n]? = some true := by
  refine (hs.ordered.signalled id _ h).imp_right ?_
  rintro ⟨active, hactive, hsome⟩
  obtain ⟨-, howners, drained, hsplit, -⟩ := hs.ordered.keeps id _ h
  obtain ⟨-, closed, hclosed, hnot⟩ := howners entry (by simp [hsplit])
  obtain rfl := Option.some.inj (hactive.symm.trans hclosed)
  obtain ⟨n, hn⟩ : ∃ n, n ∈ active.cancellations := by
    by_contra hnone
    rw [ExtTreeMap.isEmpty_eq_false_iff] at hsome
    refine hsome (ExtTreeMap.ext_getElem? fun n => ?_)
    rw [ExtTreeMap.getElem?_empty]
    exact getElem?_neg _ _ fun hn => hnone ⟨n, hn⟩
  obtain ⟨-, k, appId, deploymentId, hk⟩ := hs.owned.counted entry.2 active n hactive hn
  obtain ⟨flag, hflag⟩ := Option.isSome_iff_exists.mp (ExtTreeMap.mem_iff_isSome_getElem?.mp hn)
  obtain rfl := hs.owned.told entry.2 active n flag hactive hnot hflag
  exact ⟨k, appId, deploymentId, n, active, hk, hactive, hflag⟩

/-- **Cron runs end with their deployment.** However starts, drops of leases, synchronizes, stops
and shutdowns come and move: when a synchronize has returned that did not find a shutdown begun,
every lease held is of a pair it listed; from when a stop has returned no lease of the app is held
until a synchronize has listed it, and from when a shutdown has returned none is ever; a lease is
granted only of what the last such synchronize listed and no stop has closed since; and a drain
that waits is about to be told, or waits for a run that was told to end. -/
theorem runs_end (moves : List Move) :
    let s := Run.run step new moves
    (∀ (move : Move) (id : ℕ) (deployments : List (AppId × DeploymentId)),
      s.Returns move id (.synchronize deployments) →
      ∀ (k : ℕ) (appId : AppId) (deploymentId : DeploymentId) (owner : OwnerId) (n : ℕ),
        (s.step move).runs[k]? = some (.held appId deploymentId owner n) →
        (appId, deploymentId) ∈ deployments) ∧
    (∀ (move : Move) (id : ℕ) (appId : AppId), s.Returns move id (.stop appId) →
      ∀ later : List Move, Run.Meets step (fun t move => ∀ id deployments,
        t.Returns move id (.synchronize deployments) →
          ∀ deploymentId, (appId, deploymentId) ∉ deployments) (s.step move) later →
      ∀ (k : ℕ) (deploymentId : DeploymentId) (owner : OwnerId) (n : ℕ),
        (Run.run step (s.step move) later).runs[k]? ≠ some (.held appId deploymentId owner n)) ∧
    (∀ (move : Move) (id : ℕ), s.Returns move id .shutdown → ∀ (later : List Move) (k : ℕ)
      (appId : AppId) (deploymentId : DeploymentId) (owner : OwnerId) (n : ℕ),
      (Run.run step (s.step move) later).runs[k]? ≠ some (.held appId deploymentId owner n)) ∧
    (∀ (move : Move) (k : ℕ) (appId : AppId) (deploymentId : DeploymentId) (owner : OwnerId)
      (n : ℕ), (s.step move).runs[k]? = some (.held appId deploymentId owner n) →
      s.runs[k]? ≠ some (.held appId deploymentId owner n) →
      (appId, deploymentId) ∈ s.listed ∧ appId ∉ s.closed) ∧
    ∀ (id : ℕ) (call : CronCall) (owners left : List (AppId × OwnerId)) (entry : AppId × OwnerId),
      s.tasks[id]? = some ⟨call, .draining owners (entry :: left) (.waiting false)⟩ →
      (∃ k : ℕ, s.runs[k]? = some (.completing entry.2)) ∨
        ∃ (k : ℕ) (appId : AppId) (deploymentId : DeploymentId) (n : ℕ) (active : DeploymentRuns),
          s.runs[k]? = some (.held appId deploymentId entry.2 n) ∧
            s.active[entry.2]? = some active ∧ active.cancellations[n]? = some true := by
  intro s
  have hs : s.Consistent := consistent_run moves
  refine ⟨?_, ?_, ?_, ?_, ?_⟩
  · intro move id deployments hreturns k appId deploymentId owner n hk
    exact hreturns.finishes.synchronized hs hk
  · intro move id appId hreturns later hlater
    obtain ⟨hclosed, hnone⟩ := hreturns.finishes.stopped hs
    -- from the stop on no run of the app comes back, as long as no synchronize lists it
    have hended := hlater.invariant (I := fun t : CronRuns => t.Consistent ∧ t.Ended appId)
      (fun t move ht hlists => ⟨ht.1.step move, ht.2.step ht.1 hlists⟩)
      ⟨hs.step move, .inl hclosed, hnone⟩
    exact hended.2.2
  · intro move id hreturns later
    -- and from a shutdown on, none of any app
    have hover := Run.invariant (I := fun t : CronRuns => t.Consistent ∧ t.ShutDown)
      (fun t move ht => ⟨ht.1.step move, ht.2.step ht.1 move⟩)
      ⟨hs.step move, hreturns.finishes.shut_down hs⟩ later
    exact hover.2.2.2
  · intro move k appId deploymentId owner n hk hnew
    rcases granted_of_step hs hk with hheld | ⟨-, hgranted⟩
    · exact absurd hheld hnew
    · exact hgranted
  · intro id call owners left entry h
    exact awaited hs h

theorem not_ended_when_stopping :
    ∃ (moves : List Move) (id k : ℕ) (deployments : List (AppId × DeploymentId)) (appId : AppId)
      (deploymentId : DeploymentId) (owner : OwnerId) (n : ℕ),
      (Run.run step new moves).tasks[id]? = some ⟨.synchronize deployments, .arrived⟩ ∧
      (Run.run step new (moves ++ [.enter id])).tasks[id]? =
        some ⟨.synchronize deployments, .turnedAway⟩ ∧
      (Run.run step new (moves ++ [.enter id])).runs[k]? =
        some (.held appId deploymentId owner n) ∧ (appId, deploymentId) ∉ deployments := by
  -- a lease is held, a synchronize that lists nothing waits, and a shutdown begins
  refine ⟨[.arrive 0 (.synchronize [(⟨"app"⟩, ⟨"dep"⟩)]), .enter 0, .collect 0, .finish 0,
    .ask 0 ⟨"app"⟩ ⟨"dep"⟩, .answer 0, .arrive 1 (.synchronize []), .arrive 2 .shutdown],
    1, 0, [], ⟨"app"⟩, ⟨"dep"⟩, 0, 0, ?_⟩
  decide

end CronRuns

end Nibrunner

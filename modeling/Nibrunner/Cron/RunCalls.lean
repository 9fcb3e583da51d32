import Nibrunner.Cron.RunOwners

/-!
# What a call has done at each of its stages

A call covers the owners it has to end before it lets go of their lock, and it closes them and
waits for their runs one after another. This holds until it returns: only the call with the
mutation lock closes owners or takes them out of their map, and a closed owner stays closed and a
drained one drained.
-/

namespace Nibrunner

open Std

/-- A stage at which a call has the mutation lock. -/
def CronStage.Holds : CronStage → Prop
  | entered | cancelling .. | draining .. => True
  | _ => False

namespace CronRuns

variable {s t : CronRuns} {call : CronCall} {stage : CronStage}

/-- The owners a call ends are all those it has to. -/
def Covers (s : CronRuns) (owners : List (AppId × OwnerId)) : CronCall → Prop
  | .synchronize deployments => ∀ appId owner active, s.owners[appId]? = some owner →
      s.active[owner]? = some active → (appId, owner) ∈ owners ∨
        (appId, active.deploymentId) ∈ deployments
  | .stop appId => appId ∈ s.closed ∧
      ∀ owner, s.owners[appId]? = some owner → (appId, owner) ∈ owners
  | .shutdown => s.stopping = true ∧ s.ownersLocked = none ∧
      ∀ appId owner, s.owners[appId]? = some owner → (appId, owner) ∈ owners

/-- What a call has done with the owners it ends. -/
def Keeps (s : CronRuns) (call : CronCall) : CronStage → Prop
  | .cancelling left owners => s.Covers owners call ∧
      (∀ entry ∈ owners, s.owners[entry.1]? = some entry.2) ∧
      ∃ cancelled, owners = cancelled ++ left ∧ ∀ entry ∈ cancelled, s.Closed entry.2
  | .draining owners left _ => s.Covers owners call ∧
      (∀ entry ∈ owners, s.owners[entry.1]? = some entry.2 ∧ s.Closed entry.2) ∧
      ∃ drained, owners = drained ++ left ∧ ∀ entry ∈ drained, s.Drained entry.2
  | _ => True

/-- What a drain waits for has yet to be said, or has yet to come. -/
def Signalled (s : CronRuns) : CronStage → Prop
  | .draining _ (entry :: _) (.waiting false) =>
      (∃ id : ℕ, s.runs[id]? = some (CronRun.completing entry.2)) ∨
        ∃ active, s.active[entry.2]? = some active ∧ active.cancellations.isEmpty = false
  | _ => True

/-- How the calls stand to the owners and the locks. -/
structure Ordered (s : CronRuns) : Prop where
  holds : ∀ (id : ℕ) (task : CronTask), s.tasks[id]? = some task → task.stage.Holds →
    s.mutation = some id
  keeps : ∀ (id : ℕ) (task : CronTask), s.tasks[id]? = some task → s.Keeps task.call task.stage
  signalled : ∀ (id : ℕ) (task : CronTask), s.tasks[id]? = some task → s.Signalled task.stage
  stopping : ∀ (id : ℕ) (task : CronTask), s.tasks[id]? = some task → task.call = .shutdown →
    s.stopping = true

theorem ordered_new : new.Ordered where
  holds := by simp [new]
  keeps := by simp [new]
  signalled := by simp [new]
  stopping := by simp [new]

/-! ### Steps that open no owner -/

/-- A step that leaves the owners in their map, and closed ones closed and drained ones drained. -/
structure Quiet (s t : CronRuns) : Prop where
  owners : t.owners = s.owners
  closed : t.closed = s.closed
  stopping : s.stopping = true → t.stopping = true
  locked : s.stopping = true → s.ownersLocked = none → t.ownersLocked = none
  active : ∀ (owner : OwnerId) (after : DeploymentRuns), t.active[owner]? = some after →
    ∃ before, s.active[owner]? = some before ∧ after.deploymentId = before.deploymentId
  stays : ∀ (owner : OwnerId), s.Closed owner → t.Closed owner
  drained : ∀ (owner : OwnerId), s.Drained owner → t.Drained owner

theorem Quiet.of_same (howners : t.owners = s.owners) (hactive : t.active = s.active)
    (hclosed : t.closed = s.closed) (hstopping : s.stopping = true → t.stopping = true)
    (hlocked : s.stopping = true → s.ownersLocked = none → t.ownersLocked = none) : Quiet s t where
  owners := howners
  closed := hclosed
  stopping := hstopping
  locked := hlocked
  active owner after h := ⟨after, hactive ▸ h, rfl⟩
  stays owner h := by rwa [Closed, hactive]
  drained owner h := by rwa [Drained, hactive]

/-- One owner's runs change, and none comes to those of a closed one. -/
theorem Quiet.of_one (howners : t.owners = s.owners) (hclosed : t.closed = s.closed)
    (hstopping : t.stopping = s.stopping)
    (hlocked : s.ownersLocked = none → t.ownersLocked = none)
    {owner : OwnerId} {before after : DeploymentRuns} (hbefore : s.active[owner]? = some before)
    (hactive : ∀ o, t.active[o]? = if owner = o then some after else s.active[o]?)
    (hdep : after.deploymentId = before.deploymentId)
    (haccepting : after.accepting = before.accepting)
    (hempty : before.accepting = false → before.cancellations.isEmpty = true →
      after.cancellations.isEmpty = true) : Quiet s t where
  owners := howners
  closed := hclosed
  stopping h := hstopping.trans h
  locked _ := hlocked
  active o a h := by
    rw [hactive] at h
    split at h
    next heq =>
      subst heq
      obtain rfl := Option.some.inj h
      exact ⟨before, hbefore, hdep⟩
    next => exact ⟨a, h, rfl⟩
  -- a closed owner stays closed, its own runs and another's alike
  stays o h := by
    obtain ⟨a, ha, hnot⟩ := h
    rw [Closed, hactive]
    split
    next heq =>
      subst heq
      obtain rfl := Option.some.inj (hbefore.symm.trans ha)
      exact ⟨after, rfl, haccepting.trans hnot⟩
    next => exact ⟨a, ha, hnot⟩
  drained o h := by
    obtain ⟨a, ha, hnot, hnone⟩ := h
    rw [Drained, hactive]
    split
    next heq =>
      subst heq
      obtain rfl := Option.some.inj (hbefore.symm.trans ha)
      exact ⟨after, rfl, haccepting.trans hnot, hempty hnot hnone⟩
    next => exact ⟨a, ha, hnot, hnone⟩

theorem Quiet.cancelAll (s : CronRuns) (entries : List (AppId × OwnerId)) :
    Quiet s (s.cancelAll entries) where
  owners := rfl
  closed := rfl
  stopping h := h
  locked _ h := h
  active owner after h := by
    obtain ⟨before, hbefore, ⟨-, rfl⟩ | ⟨-, rfl⟩⟩ := Owned.of_active_cancelAll h
    · exact ⟨before, hbefore, rfl⟩
    · exact ⟨_, hbefore, rfl⟩
  stays owner h := by
    obtain ⟨active, hactive, hnot⟩ := h
    obtain ⟨after, hafter, ⟨-, rfl⟩ | ⟨-, rfl⟩⟩ := Owned.exists_active_cancelAll hactive entries
    · exact ⟨_, hafter, rfl⟩
    · exact ⟨_, hafter, hnot⟩
  drained owner h := by
    obtain ⟨active, hactive, hnot, hempty⟩ := h
    obtain ⟨after, hafter, ⟨-, rfl⟩ | ⟨-, rfl⟩⟩ := Owned.exists_active_cancelAll hactive entries
    · exact ⟨_, hafter, rfl, DeploymentRuns.isEmpty_cancel.trans hempty⟩
    · exact ⟨_, hafter, hnot, hempty⟩

theorem closed_cancelAll {entries : List (AppId × OwnerId)} {entry : AppId × OwnerId}
    (hentry : entry ∈ entries) {active : DeploymentRuns}
    (hactive : s.active[entry.2]? = some active) : (s.cancelAll entries).Closed entry.2 := by
  obtain ⟨after, hafter, ⟨-, rfl⟩ | ⟨hout, -⟩⟩ := Owned.exists_active_cancelAll hactive entries
  · exact ⟨_, hafter, rfl⟩
  · exact absurd (List.mem_map_of_mem hentry) hout

theorem Quiet.covers (h : Quiet s t) {owners : List (AppId × OwnerId)}
    (hcovers : s.Covers owners call) : t.Covers owners call := by
  cases call with
  | synchronize deployments =>
    intro appId owner after howner hafter
    obtain ⟨before, hbefore, hsame⟩ := h.active owner after hafter
    rw [hsame]
    exact hcovers appId owner before (h.owners ▸ howner) hbefore
  | stop appId => exact ⟨h.closed ▸ hcovers.1, h.owners ▸ hcovers.2⟩
  | shutdown =>
    obtain ⟨hstopping, hlocked, hall⟩ := hcovers
    exact ⟨h.stopping hstopping, h.locked hstopping hlocked, h.owners ▸ hall⟩

theorem Quiet.keeps (h : Quiet s t) (hkeeps : s.Keeps call stage) : t.Keeps call stage := by
  cases stage with
  | cancelling left owners =>
    obtain ⟨hcovers, howners, cancelled, hsplit, hclosed⟩ := hkeeps
    exact ⟨h.covers hcovers, h.owners ▸ howners, cancelled, hsplit,
      fun entry hentry => h.stays _ (hclosed entry hentry)⟩
  | draining owners left drain =>
    obtain ⟨hcovers, howners, drained, hsplit, hdrained⟩ := hkeeps
    refine ⟨h.covers hcovers, fun entry hentry => ?_, drained, hsplit,
      fun entry hentry => h.drained _ (hdrained entry hentry)⟩
    obtain ⟨howner, hclosed⟩ := howners entry hentry
    exact ⟨h.owners ▸ howner, h.stays _ hclosed⟩
  | arrived | entered | returned | turnedAway | dropped => trivial

theorem keeps_of_not_holds (h : ¬stage.Holds) : s.Keeps call stage := by
  cases stage with
  | cancelling | draining => exact absurd trivial h
  | arrived | entered | returned | turnedAway | dropped => trivial

theorem signalled_of_not_holds (h : ¬stage.Holds) : s.Signalled stage := by
  cases stage with
  | draining => exact absurd trivial h
  | arrived | entered | cancelling | returned | turnedAway | dropped => trivial

theorem signalled_idle (owners left : List (AppId × OwnerId)) :
    s.Signalled (.draining owners left .idle) := by
  cases left <;> trivial

theorem Signalled.mono
    (hruns : ∀ (k : ℕ) (owner : OwnerId), s.runs[k]? = some (.completing owner) →
      t.runs[k]? = some (.completing owner))
    (hactive : ∀ (owner : OwnerId) (active : DeploymentRuns), s.active[owner]? = some active →
      active.cancellations.isEmpty = false →
        (∃ id : ℕ, t.runs[id]? = some (CronRun.completing owner)) ∨
          ∃ after, t.active[owner]? = some after ∧ after.cancellations.isEmpty = false)
    (h : s.Signalled stage) : t.Signalled stage := by
  unfold Signalled at h ⊢
  split at h
  next =>
    rcases h with ⟨k, hk⟩ | ⟨active, ha, hsome⟩
    · exact .inl ⟨k, hruns k _ hk⟩
    · exact hactive _ active ha hsome
  next => trivial

namespace Ordered

/-- A quiet step that moves no call keeps it. -/
theorem of_quiet (hs : s.Ordered) (hquiet : Quiet s t) (htasks : t.tasks = s.tasks)
    (hmutation : t.mutation = s.mutation)
    (hsignalled : ∀ stage, s.Signalled stage → t.Signalled stage) : t.Ordered := by
  constructor <;> rw [htasks]
  · rw [hmutation]
    exact hs.holds
  · exact fun id task h => hquiet.keeps (hs.keeps id task h)
  · exact fun id task h => hsignalled _ (hs.signalled id task h)
  · exact fun id task h hcall => hquiet.stopping (hs.stopping id task h hcall)

/-- A run that was not telling its owner leaves those that do. -/
theorem completing_insert {id : ℕ} {run : CronRun}
    (hbefore : ∀ owner, s.runs[id]? ≠ some (.completing owner)) (k : ℕ) (owner : OwnerId)
    (h : s.runs[k]? = some (.completing owner)) :
    (s.runs.insert id run)[k]? = some (.completing owner) := by
  have hne : id ≠ k := by
    rintro rfl
    exact hbefore owner h
  rw [ExtTreeMap.getElem?_insert_ite, if_neg hne]
  exact h

theorem ask (hs : s.Ordered) (id : ℕ) (appId : AppId) (deploymentId : DeploymentId) :
    (s.ask id appId deploymentId).Ordered := by
  unfold CronRuns.ask
  split
  · exact hs
  next hfree =>
  obtain ⟨-, hfresh⟩ : s.ownersLocked = none ∧ id ∉ s.runs := by simpa using hfree
  have hnone : s.runs[id]? = none := getElem?_neg _ _ hfresh
  have hsignalled (run : CronRun) (locked : Option ℕ) (stage : CronStage) (h : s.Signalled stage) :
      Signalled { s with runs := s.runs.insert id run, ownersLocked := locked } stage :=
    h.mono (completing_insert (by simp [hnone]))
      fun owner active ha hsome => .inr ⟨active, ha, hsome⟩
  split
  · exact hs.of_quiet (.of_same rfl rfl rfl (fun h => h) fun _ h => h) rfl rfl (hsignalled _ _)
  next hrunning =>
    -- the host is not stopping, so no shutdown relies on the lock being free
    exact hs.of_quiet (.of_same rfl rfl rfl (fun h => h) fun h => absurd h hrunning) rfl rfl
      (hsignalled _ _)

theorem answer (hs : s.Ordered) (id : ℕ) : (s.answer id).Ordered := by
  unfold CronRuns.answer
  split
  next appId deploymentId h =>
    have hruns (run : CronRun) (k : ℕ) (owner : OwnerId)
        (hk : s.runs[k]? = some (.completing owner)) :
        (s.runs.insert id run)[k]? = some (.completing owner) :=
      completing_insert (by simp [h]) k owner hk
    -- a refusal lets the lock of the owners go and touches no run
    have hrefused : Ordered { s with runs := s.runs.insert id .refused, ownersLocked := none } := by
      refine hs.of_quiet (.of_same rfl rfl rfl (fun h => h) fun _ _ => rfl) rfl rfl ?_
      exact fun stage hsig =>
        hsig.mono (hruns _) fun owner active ha hsome => .inr ⟨active, ha, hsome⟩
    split
    next => exact hrefused
    next owner active howner =>
      split
      next => exact hrefused
      next n after hstart =>
        obtain ⟨-, hactive, -⟩ := Owned.ownerOf_eq_some_iff.mp howner
        obtain ⟨haccepting, rfl, rfl⟩ := DeploymentRuns.start_eq_some_iff.mp hstart
        have hget (o : OwnerId) := s.active.getElem?_insert_ite owner o
          { active with
            nextId := active.nextId + 1
            cancellations := active.cancellations.insert active.nextId false }
        refine hs.of_quiet (.of_one rfl rfl rfl (fun _ => rfl) hactive hget rfl rfl ?_) rfl rfl ?_
        -- a lease is granted by an owner that accepts, so to none that a drain relies on
        · intro hclosed
          exact absurd (hclosed.symm.trans haccepting) Bool.false_ne_true
        · refine fun stage hsig => hsig.mono (hruns _) fun o a ha hsome => .inr ?_
          rw [hget]
          split
          · exact ⟨_, rfl, by simp [ExtTreeMap.isEmpty_eq_false_iff]⟩
          · exact ⟨a, ha, hsome⟩
  next => exact hs

theorem release (hs : s.Ordered) (howned : s.Owned) (id : ℕ) : (s.release id).Ordered := by
  unfold CronRuns.release
  split
  next appId deploymentId owner n h =>
    obtain ⟨-, active, hactive, -⟩ := howned.held id appId deploymentId owner n h
    have hget (o : OwnerId) : (s.active.modify owner (·.remove n))[o]? =
        if owner = o then some (active.remove n) else s.active[o]? := by
      rw [ExtTreeMap.getElem?_modify_ite]
      split
      next heq => rw [← heq, hactive, Option.map_some]
      next => rfl
    refine hs.of_quiet (.of_one rfl rfl rfl (fun h => h) hactive hget rfl rfl ?_) rfl rfl ?_
    · intro _ hempty
      rw [ExtTreeMap.isEmpty_iff] at hempty
      simp [DeploymentRuns.remove, hempty]
    · -- what the run leaves behind it will say
      refine fun stage hsig => hsig.mono (completing_insert (by simp [h])) fun o a ha hsome => ?_
      by_cases heq : owner = o
      · exact .inl ⟨id, by simp [heq]⟩
      · exact .inr ⟨a, by rw [hget, if_neg heq, ha], hsome⟩
  next => exact hs

/-- A completion changes of a call only that it was told. -/
theorem notify_eq (owner : OwnerId) (task : CronTask) : (task.notify owner).call = task.call ∧
    ((task.notify owner).stage.Holds ↔ task.stage.Holds) ∧
    (s.Keeps task.call task.stage →
      s.Keeps (task.notify owner).call (task.notify owner).stage) := by
  unfold CronTask.notify
  split
  next heq => exact ⟨rfl, by simp [heq, CronStage.Holds], fun h => by rw [heq] at h; exact h⟩
  next heq => exact ⟨rfl, by simp [heq, CronStage.Holds], fun h => by rw [heq] at h; exact h⟩
  next => exact ⟨rfl, .rfl, fun h => h⟩

/-- A run that has told its owner is no more waited for. -/
theorem signalled_notify {id : ℕ} {owner : OwnerId} {task : CronTask}
    (h : s.runs[id]? = some (.completing owner)) (hsig : s.Signalled task.stage) :
    Signalled { s with runs := s.runs.insert id .gone } (task.notify owner).stage := by
  obtain ⟨call, stage⟩ := task
  cases stage with
  | draining owners left drain =>
    cases left with
    | nil => trivial
    | cons entry left =>
      cases drain with
      | idle => trivial
      | enabled notified => trivial
      | waiting notified =>
        by_cases hwaits : (notified || entry.2 == owner) = true
        · simp [CronTask.notify, Signalled, hwaits]
        · -- it waits for another owner, so the run was not the one that tells it
          obtain ⟨hnot, hne⟩ : notified = false ∧ entry.2 ≠ owner := by simpa using hwaits
          subst hnot
          have hstays : (CronTask.notify owner ⟨call, .draining owners (entry :: left)
              (.waiting false)⟩).stage = .draining owners (entry :: left) (.waiting false) := by
            simp [CronTask.notify, hne]
          rw [hstays]
          rcases hsig with ⟨k, hk⟩ | hsome
          · refine .inl ⟨k, ?_⟩
            have hk' : id ≠ k := by
              rintro rfl
              obtain ⟨⟩ := h.symm.trans hk
              exact hne rfl
            show (s.runs.insert id .gone)[k]? = _
            rw [ExtTreeMap.getElem?_insert_ite, if_neg hk']
            exact hk
          · exact .inr hsome
  | arrived | entered | cancelling | returned | turnedAway | dropped => trivial

theorem complete (hs : s.Ordered) (id : ℕ) : (s.complete id).Ordered := by
  unfold CronRuns.complete
  split
  next owner h =>
    have hquiet : Quiet s { s with runs := s.runs.insert id .gone } :=
      .of_same rfl rfl rfl (fun h => h) fun _ h => h
    have hback {k : ℕ} {task : CronTask}
        (hk : (s.tasks.map fun _ task => task.notify owner)[k]? = some task) :
        ∃ before, s.tasks[k]? = some before ∧ task = before.notify owner := by
      rw [ExtTreeMap.getElem?_map] at hk
      obtain ⟨before, hbefore, rfl⟩ := Option.map_eq_some_iff.mp hk
      exact ⟨before, hbefore, rfl⟩
    constructor
    · intro k task hk hstage
      obtain ⟨before, hbefore, rfl⟩ := hback hk
      exact hs.holds k before hbefore ((notify_eq (s := s) owner before).2.1.mp hstage)
    · intro k task hk
      obtain ⟨before, hbefore, rfl⟩ := hback hk
      exact hquiet.keeps ((notify_eq owner before).2.2 (hs.keeps k before hbefore))
    · intro k task hk
      obtain ⟨before, hbefore, rfl⟩ := hback hk
      exact signalled_notify h (hs.signalled k before hbefore)
    · intro k task hk hshutdown
      obtain ⟨before, hbefore, rfl⟩ := hback hk
      exact hs.stopping k before hbefore ((notify_eq (s := s) owner before).1 ▸ hshutdown)
  next => exact hs

/-! ### Steps of calls -/

/-- A call goes on to a stage; the other calls that have the mutation lock keep it. -/
theorem goTo {id : ℕ} (hs : s.Ordered) (htasks : t.tasks = s.tasks)
    (hothers : ∀ k ≠ id, s.mutation = some k → t.mutation = some k ∧ Quiet s t ∧
      ∀ stage, s.Signalled stage → t.Signalled stage)
    (hstopping : s.stopping = true → t.stopping = true)
    (hcall : call = .shutdown → t.stopping = true) (hholds : stage.Holds → t.mutation = some id)
    (hkeeps : t.Keeps call stage) (hsignalled : t.Signalled stage) :
    (t.goTo id call stage).Ordered := by
  have hget (k : ℕ) : (t.goTo id call stage).tasks[k]? =
      if id = k then some ⟨call, stage⟩ else s.tasks[k]? := by
    rw [← htasks]
    exact t.tasks.getElem?_insert_ite id k _
  -- the call itself by hypothesis; another by what it holds, since only the holder of the lock
  -- relies on the rest standing still
  constructor
  · intro k task hk hstage
    rw [hget] at hk
    split at hk
    next heq =>
      subst heq
      obtain rfl := Option.some.inj hk
      exact hholds hstage
    next hne => exact (hothers k (Ne.symm hne) (hs.holds k task hk hstage)).1
  · intro k task hk
    rw [hget] at hk
    split at hk
    next heq =>
      obtain rfl := Option.some.inj hk
      exact hkeeps
    next hne =>
      by_cases hstage : task.stage.Holds
      · exact (hothers k (Ne.symm hne) (hs.holds k task hk hstage)).2.1.keeps (hs.keeps k task hk)
      · exact keeps_of_not_holds hstage
  · intro k task hk
    rw [hget] at hk
    split at hk
    next heq =>
      obtain rfl := Option.some.inj hk
      exact hsignalled
    next hne =>
      by_cases hstage : task.stage.Holds
      · exact (hothers k (Ne.symm hne) (hs.holds k task hk hstage)).2.2 _ (hs.signalled k task hk)
      · exact signalled_of_not_holds hstage
  · intro k task hk hshutdown
    rw [hget] at hk
    split at hk
    next heq =>
      obtain rfl := Option.some.inj hk
      exact hcall hshutdown
    next => exact hstopping (hs.stopping k task hk hshutdown)

/-- No other call has the mutation lock while one does, or while it is free. -/
theorem no_others {id : ℕ} {P : ℕ → Prop} (h : s.mutation = some id ∨ s.mutation = none) :
    ∀ k ≠ id, s.mutation = some k → P k := by
  intro k hk heq
  rcases h with h | h
  · exact absurd (Option.some.inj (heq.symm.trans h)) hk
  · exact absurd (heq.symm.trans h) (by simp)

theorem arrive (hs : s.Ordered) (id : ℕ) (call : CronCall) : (s.arrive id call).Ordered := by
  unfold CronRuns.arrive
  split
  · exact hs
  · refine hs.goTo rfl (fun k _ hk => ⟨hk, .of_same rfl rfl rfl ?_ fun _ h => h, fun _ h => h⟩)
      ?_ ?_ False.elim trivial trivial
    · simp +contextual
    · simp +contextual
    · rintro rfl
      simp

theorem enter (hs : s.Ordered) (id : ℕ) : (s.enter id).Ordered := by
  unfold CronRuns.enter
  split
  next call h =>
    split
    · exact hs
    next hfree =>
    have hnone : s.mutation = none := by simpa using hfree
    split
    · split
      · exact hs.goTo rfl (no_others (.inr hnone)) (fun h => h) (by simp) False.elim trivial trivial
      · exact hs.goTo rfl (no_others (.inr hnone)) (fun h => h) (by simp) (fun _ => rfl) trivial
          trivial
    · exact hs.goTo rfl (no_others (.inr hnone)) (fun h => h) (hs.stopping id _ h) (fun _ => rfl)
        trivial trivial
  next => exact hs

theorem abort (hs : s.Ordered) (id : ℕ) : (s.abort id).Ordered := by
  unfold CronRuns.abort
  split
  next call h =>
    exact hs.goTo rfl (fun k _ hk => ⟨hk, .of_same rfl rfl rfl (fun h => h) fun _ h => h,
      fun _ h => h⟩) (fun h => h) (hs.stopping id _ h) False.elim trivial trivial
  next call owners left told h =>
    have hmutation := hs.holds id _ h trivial
    exact hs.goTo rfl (no_others (.inl hmutation)) (fun h => h) (hs.stopping id _ h) False.elim
      trivial trivial
  next => exact hs

theorem drain (hs : s.Ordered) (id : ℕ) : (s.drain id).Ordered := by
  unfold CronRuns.drain
  split
  next call owners entry left h =>
    have hmutation := hs.holds id _ h trivial
    exact hs.goTo rfl (no_others (.inl hmutation)) (fun h => h) (hs.stopping id _ h)
      (fun _ => hmutation) (hs.keeps id _ h) trivial
  next call owners entry left notified h =>
    have hmutation := hs.holds id _ h trivial
    split
    · exact hs
    next active hactive =>
      split
      next hempty =>
        refine hs.goTo rfl (no_others (.inl hmutation)) (fun h => h) (hs.stopping id _ h)
          (fun _ => hmutation) ?_ (signalled_idle ..)
        -- the owner was closed when it was collected, so now it is drained
        obtain ⟨hcovers, howners, drained, hsplit, hdrained⟩ := hs.keeps id _ h
        obtain ⟨-, closed, hclosed, hnot⟩ := howners entry (by simp [hsplit])
        obtain rfl := Option.some.inj (hactive.symm.trans hclosed)
        refine ⟨hcovers, howners, drained ++ [entry], by simp [hsplit], ?_⟩
        intro other hother
        rcases List.mem_append.mp hother with hother | hother
        · exact hdrained other hother
        · obtain rfl := List.mem_singleton.mp hother
          exact ⟨active, hactive, hnot, hempty⟩
      next hsome =>
        refine hs.goTo rfl (no_others (.inl hmutation)) (fun h => h) (hs.stopping id _ h)
          (fun _ => hmutation) (hs.keeps id _ h) ?_
        cases notified with
        | true => trivial
        | false => exact .inr ⟨active, hactive, by simpa using hsome⟩
  next call owners entry left h =>
    have hmutation := hs.holds id _ h trivial
    exact hs.goTo rfl (no_others (.inl hmutation)) (fun h => h) (hs.stopping id _ h)
      (fun _ => hmutation) (hs.keeps id _ h) trivial
  next => exact hs

theorem collect (hs : s.Ordered) (howned : s.Owned) (id : ℕ) : (s.collect id).Ordered := by
  unfold CronRuns.collect
  split
  next call h =>
    have hmutation := hs.holds id _ h trivial
    split
    · exact hs
    next hfree =>
    have hentries : ∀ entry ∈ s.owners.toList, s.owners[entry.1]? = some entry.2 :=
      fun entry hentry => ExtTreeMap.mem_toList_iff_getElem?_eq_some.mp hentry
    split
    next deployments =>
      refine hs.goTo rfl (no_others (.inl hmutation)) (fun h => h) (by simp) (fun _ => hmutation)
        ⟨?_, ?_, [], rfl, by simp⟩ (signalled_idle ..)
      · intro appId owner after howner hafter
        obtain ⟨before, hbefore, hdep⟩ := (Quiet.cancelAll s _).active owner after hafter
        by_cases hretires : s.retires deployments (appId, owner) = true
        · exact .inl (List.mem_filter.mpr
            ⟨ExtTreeMap.mem_toList_iff_getElem?_eq_some.mpr howner, hretires⟩)
        · -- what is not retired is asked for
          have hasked : before.accepting = true ∧
              (appId, before.deploymentId) ∈ deployments := by
            simpa [retires, hbefore] using hretires
          exact .inr (hdep ▸ hasked.2)
      · intro entry hentry
        obtain ⟨hmem, -⟩ := List.mem_filter.mp hentry
        obtain ⟨-, active, hactive⟩ := howned.owners _ _ (hentries entry hmem)
        exact ⟨hentries entry hmem, closed_cancelAll hentry hactive⟩
    next appId =>
      have howner {entry : AppId × OwnerId}
          (hentry : entry ∈ (s.owners[appId]?.map fun owner => (appId, owner)).toList) :
          s.owners[entry.1]? = some entry.2 := by
        obtain ⟨owner, howner, rfl⟩ := Option.map_eq_some_iff.mp (Option.mem_toList.mp hentry)
        exact howner
      refine hs.goTo rfl (no_others (.inl hmutation)) (fun h => h) (by simp) (fun _ => hmutation)
        ⟨⟨List.mem_cons_self, ?_⟩, ?_, [], rfl, by simp⟩ (signalled_idle ..)
      · intro owner hget
        have hget : s.owners[appId]? = some owner := hget
        simp [hget]
      · intro entry hentry
        obtain ⟨-, active, hactive⟩ := howned.owners _ _ (howner hentry)
        exact ⟨howner hentry, closed_cancelAll hentry hactive⟩
    next =>
      refine hs.goTo rfl (no_others (.inl hmutation)) (fun h => h) (hs.stopping id _ h)
        (fun _ => hmutation) ⟨⟨hs.stopping id _ h rfl, by simpa using hfree, ?_⟩, hentries, [], rfl,
          by simp⟩ trivial
      exact fun appId owner howner => ExtTreeMap.mem_toList_iff_getElem?_eq_some.mpr howner
  next => exact hs

theorem cancelNext (hs : s.Ordered) (howned : s.Owned) (id : ℕ) : (s.cancelNext id).Ordered := by
  unfold CronRuns.cancelNext
  split
  next call entry left owners h =>
    have hmutation := hs.holds id _ h trivial
    have hquiet := Quiet.cancelAll s [entry]
    refine hs.goTo rfl (no_others (.inl hmutation)) (fun h => h) (hs.stopping id _ h)
      (fun _ => hmutation) ?_ trivial
    obtain ⟨hcovers, howners, cancelled, hsplit, hcancelled⟩ := hs.keeps id _ h
    refine ⟨hquiet.covers hcovers, howners, cancelled ++ [entry], by simp [hsplit], ?_⟩
    intro other hother
    rcases List.mem_append.mp hother with hother | hother
    · exact hquiet.stays _ (hcancelled other hother)
    · obtain rfl := List.mem_singleton.mp hother
      obtain ⟨-, active, hactive⟩ := howned.owners _ _ (howners other (by simp [hsplit]))
      exact closed_cancelAll List.mem_cons_self hactive
  next call owners h =>
    have hmutation := hs.holds id _ h trivial
    refine hs.goTo rfl (no_others (.inl hmutation)) (fun h => h) (hs.stopping id _ h)
      (fun _ => hmutation) ?_ (signalled_idle ..)
    obtain ⟨hcovers, howners, cancelled, hsplit, hcancelled⟩ := hs.keeps id _ h
    obtain rfl : owners = cancelled := by simpa using hsplit
    exact ⟨hcovers, fun entry hentry => ⟨howners entry hentry, hcancelled entry hentry⟩, [], rfl,
      by simp⟩
  next => exact hs

theorem finish (hs : s.Ordered) (id : ℕ) : (s.finish id).Ordered := by
  unfold CronRuns.finish
  split
  next deployments retiring told h =>
    have hmutation := hs.holds id _ h trivial
    split
    · exact hs
    simp only
    split
    · exact hs.goTo rfl (no_others (.inl hmutation)) (fun h => h) (by simp) False.elim trivial
        trivial
    · obtain ⟨-, -, -, -, hstopping, htasks⟩ := Owned.own_all_frame deployments
        { s with
          owners := retiring.foldl (fun owners entry => owners.erase entry.1) s.owners
          listed := deployments
          closed := [] }
      exact hs.goTo htasks (no_others (.inl hmutation)) (fun h => hstopping.trans h) (by simp)
        False.elim trivial trivial
  next call owners told _ h =>
    have hmutation := hs.holds id _ h trivial
    exact hs.goTo rfl (no_others (.inl hmutation)) (fun h => h) (hs.stopping id _ h) False.elim
      trivial trivial
  next => exact hs

end Ordered

/-! ### Leases along a run of calls -/

namespace Owned

theorem collect (hs : s.Owned) (id : ℕ) : (s.collect id).Owned := by
  unfold CronRuns.collect
  split
  next call h =>
    split
    · exact hs
    split
    · exact (hs.cancelAll _).goTo id _ _
    next appId =>
      refine ((hs.cancelAll _).close ?_).goTo id _ _
      intro owner howner
      have howner : s.owners[appId]? = some owner := howner
      obtain ⟨-, active, hactive⟩ := hs.owners appId owner howner
      have hmem : (appId, owner) ∈ (s.owners[appId]?.map fun owner => (appId, owner)).toList := by
        simp [howner]
      exact closed_cancelAll hmem hactive
    · exact hs.goTo id _ _
  next => exact hs

theorem arrive (hs : s.Owned) (id : ℕ) (call : CronCall) : (s.arrive id call).Owned := by
  unfold CronRuns.arrive
  split
  · exact hs
  · exact hs.of_same rfl rfl rfl (fun _ _ _ _ _ => .rfl) hs.asking rfl rfl

theorem enter (hs : s.Owned) (id : ℕ) : (s.enter id).Owned := by
  unfold CronRuns.enter
  split
  next call h =>
    split
    · exact hs
    split
    · split
      · exact hs.goTo id _ _
      · exact hs.of_same rfl rfl rfl (fun _ _ _ _ _ => .rfl) hs.asking rfl rfl
    · exact hs.of_same rfl rfl rfl (fun _ _ _ _ _ => .rfl) hs.asking rfl rfl
  next => exact hs

theorem cancelNext (hs : s.Owned) (id : ℕ) : (s.cancelNext id).Owned := by
  unfold CronRuns.cancelNext
  split
  next => exact (hs.cancelAll _).goTo id _ _
  next => exact hs.goTo id _ _
  next => exact hs

theorem drain (hs : s.Owned) (id : ℕ) : (s.drain id).Owned := by
  unfold CronRuns.drain
  split
  next => exact hs.goTo id _ _
  next =>
    split
    · exact hs
    · split <;> exact hs.goTo id _ _
  next => exact hs.goTo id _ _
  next => exact hs

theorem abort (hs : s.Owned) (id : ℕ) : (s.abort id).Owned := by
  unfold CronRuns.abort
  split
  next => exact hs.goTo id _ _
  next => exact hs.of_same rfl rfl rfl (fun _ _ _ _ _ => .rfl) hs.asking rfl rfl
  next => exact hs

/-- What a synchronize that has drained its owners leaves. -/
theorem finish (hs : s.Owned) (hordered : s.Ordered) (id : ℕ) : (s.finish id).Owned := by
  unfold CronRuns.finish
  split
  next deployments retiring told h =>
    split
    · exact hs
    obtain ⟨hcovers, howners, drained, hsplit, hdrained⟩ := hordered.keeps id _ h
    obtain rfl : retiring = drained := by simpa using hsplit
    have hretired := hs.retire
      (fun entry hentry => ⟨(howners entry hentry).1, hdrained entry hentry⟩) hcovers
    simp only
    split
    · exact hretired.of_same rfl rfl rfl (fun _ _ _ _ _ => .rfl) hretired.asking rfl rfl
    · have howned := hretired.own_all (fun deployment (h : deployment ∈ deployments) => h) rfl
      exact howned.of_same rfl rfl rfl (fun _ _ _ _ _ => .rfl) howned.asking rfl rfl
  next => exact hs.of_same rfl rfl rfl (fun _ _ _ _ _ => .rfl) hs.asking rfl rfl
  next => exact hs

end Owned

/-- How leases, owners and calls stand to each other. -/
structure Consistent (s : CronRuns) : Prop where
  owned : s.Owned
  ordered : s.Ordered

theorem Consistent.step (hs : s.Consistent) (move : Move) : (s.step move).Consistent := by
  obtain ⟨howned, hordered⟩ := hs
  cases move with
  | ask id appId deploymentId =>
    exact ⟨howned.ask id appId deploymentId, hordered.ask id appId deploymentId⟩
  | answer id => exact ⟨howned.answer id, hordered.answer id⟩
  | release id => exact ⟨howned.release id, hordered.release howned id⟩
  | complete id => exact ⟨howned.complete id, hordered.complete id⟩
  | arrive id call => exact ⟨howned.arrive id call, hordered.arrive id call⟩
  | enter id => exact ⟨howned.enter id, hordered.enter id⟩
  | collect id => exact ⟨howned.collect id, hordered.collect howned id⟩
  | cancelNext id => exact ⟨howned.cancelNext id, hordered.cancelNext howned id⟩
  | drain id => exact ⟨howned.drain id, hordered.drain id⟩
  | finish id => exact ⟨howned.finish hordered id, hordered.finish id⟩
  | abort id => exact ⟨howned.abort id, hordered.abort id⟩

theorem consistent_run (moves : List Move) : (Run.run step new moves).Consistent :=
  Run.invariant (I := Consistent) (fun _ move hs => hs.step move) ⟨owned_new, ordered_new⟩ moves

end CronRuns

end Nibrunner

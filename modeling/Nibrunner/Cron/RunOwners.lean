import Nibrunner.Cron.Runs

/-!
# Leases and their owners

`Owned` says how leases and owners stand to each other: a lease is held on the owner its app has,
of the deployment it was asked for, and an owner knows its leases and no others. An owner that
admits runs is one that was listed and not closed since. Every step keeps it; the two that take
owners out of their map or make new ones do so under what a drain leaves behind.
-/

namespace Nibrunner

open Std

namespace DeploymentRuns

variable {active : DeploymentRuns}

@[simp] theorem mem_cancel {n : ℕ} :
    n ∈ active.cancel.cancellations ↔ n ∈ active.cancellations := by
  simp [cancel]

@[simp] theorem isEmpty_cancel :
    active.cancel.cancellations.isEmpty = active.cancellations.isEmpty := by
  rw [Bool.eq_iff_iff, ExtTreeMap.isEmpty_iff, ExtTreeMap.isEmpty_iff]
  exact ExtTreeMap.map_eq_empty_iff

theorem cancel_cancel : active.cancel.cancel = active.cancel := by
  simp [cancel, ExtTreeMap.map_map]

theorem told_cancel {n : ℕ} {flag : Bool} (h : active.cancel.cancellations[n]? = some flag) :
    flag = true := by
  rw [cancel, ExtTreeMap.getElem?_map] at h
  obtain ⟨_, -, rfl⟩ := Option.map_eq_some_iff.mp h
  rfl

theorem start_eq_some_iff {n : ℕ} {after : DeploymentRuns} :
    active.start = some (n, after) ↔ active.accepting = true ∧ n = active.nextId ∧
      after = { active with
        nextId := active.nextId + 1
        cancellations := active.cancellations.insert active.nextId false } := by
  unfold start
  cases active.accepting <;> simp [eq_comm]

end DeploymentRuns

namespace CronRuns

variable {s : CronRuns}

/-- An owner admits no more runs. -/
def Closed (s : CronRuns) (owner : OwnerId) : Prop :=
  ∃ active : DeploymentRuns, s.active[owner]? = some active ∧ active.accepting = false

/-- An owner admits no more runs, and those it admitted are gone. -/
def Drained (s : CronRuns) (owner : OwnerId) : Prop :=
  ∃ active : DeploymentRuns, s.active[owner]? = some active ∧ active.accepting = false ∧
    active.cancellations.isEmpty = true

/-- How leases and owners stand to each other. -/
structure Owned (s : CronRuns) : Prop where
  owners : ∀ (appId : AppId) (owner : OwnerId), s.owners[appId]? = some owner →
    owner < s.nextOwner ∧ ∃ active, s.active[owner]? = some active
  asking : ∀ (id : ℕ) (appId : AppId) (deploymentId : DeploymentId),
    s.runs[id]? = some (.asking appId deploymentId) → s.ownersLocked = some id
  held : ∀ (id : ℕ) (appId : AppId) (deploymentId : DeploymentId) (owner : OwnerId) (n : ℕ),
    s.runs[id]? = some (.held appId deploymentId owner n) → s.owners[appId]? = some owner ∧
      ∃ active : DeploymentRuns, s.active[owner]? = some active ∧
        active.deploymentId = deploymentId ∧ n ∈ active.cancellations
  unique : ∀ (id k : ℕ) (appId appId' : AppId) (deploymentId deploymentId' : DeploymentId)
    (owner : OwnerId) (n : ℕ), s.runs[id]? = some (.held appId deploymentId owner n) →
    s.runs[k]? = some (.held appId' deploymentId' owner n) → id = k
  counted : ∀ (owner : OwnerId) (active : DeploymentRuns) (n : ℕ),
    s.active[owner]? = some active → n ∈ active.cancellations → n < active.nextId ∧
      ∃ (id : ℕ) (appId : AppId) (deploymentId : DeploymentId),
        s.runs[id]? = some (.held appId deploymentId owner n)
  told : ∀ (owner : OwnerId) (active : DeploymentRuns) (n : ℕ) (flag : Bool),
    s.active[owner]? = some active → active.accepting = false →
    active.cancellations[n]? = some flag → flag = true
  listed : ∀ (appId : AppId) (owner : OwnerId) (active : DeploymentRuns),
    s.owners[appId]? = some owner → s.active[owner]? = some active → active.accepting = true →
    (appId, active.deploymentId) ∈ s.listed ∧ appId ∉ s.closed

theorem owned_new : new.Owned where
  owners := by simp [new]
  asking := by simp [new]
  held := by simp [new]
  unique := by simp [new]
  counted := by simp [new]
  told := by simp [new]
  listed := by simp [new]

namespace Owned

/-- What changes neither the owners, nor the leases, nor what was listed keeps it. -/
theorem of_same {t : CronRuns} (hs : s.Owned) (howners : t.owners = s.owners)
    (hactive : t.active = s.active) (hnext : t.nextOwner = s.nextOwner)
    (hheld : ∀ (k : ℕ) (appId : AppId) (deploymentId : DeploymentId) (owner : OwnerId) (n : ℕ),
      t.runs[k]? = some (.held appId deploymentId owner n) ↔
        s.runs[k]? = some (.held appId deploymentId owner n))
    (hasking : ∀ (k : ℕ) (appId : AppId) (deploymentId : DeploymentId),
      t.runs[k]? = some (.asking appId deploymentId) → t.ownersLocked = some k)
    (hlisted : t.listed = s.listed) (hclosed : t.closed = s.closed) : t.Owned where
  -- each clause speaks of these fields alone
  owners := by
    rw [howners, hactive, hnext]
    exact hs.owners
  asking := hasking
  held id appId deploymentId owner n h := by
    rw [howners, hactive]
    exact hs.held id appId deploymentId owner n ((hheld ..).mp h)
  unique id k appId appId' deploymentId deploymentId' owner n h hk :=
    hs.unique id k appId appId' deploymentId deploymentId' owner n ((hheld ..).mp h)
      ((hheld ..).mp hk)
  counted owner active n h hn := by
    rw [hactive] at h
    obtain ⟨hlt, id, appId, deploymentId, hrun⟩ := hs.counted owner active n h hn
    exact ⟨hlt, id, appId, deploymentId, (hheld ..).mpr hrun⟩
  told := by
    rw [hactive]
    exact hs.told
  listed := by
    rw [howners, hactive, hlisted, hclosed]
    exact hs.listed

/-- A run that neither held a lease nor does now leaves the leases as they are. -/
theorem held_insert_iff {id : ℕ} {run : CronRun}
    (hbefore : ∀ appId deploymentId owner n,
      s.runs[id]? ≠ some (.held appId deploymentId owner n))
    (hafter : ∀ appId deploymentId owner n, run ≠ .held appId deploymentId owner n)
    (k : ℕ) (appId : AppId) (deploymentId : DeploymentId) (owner : OwnerId) (n : ℕ) :
    (s.runs.insert id run)[k]? = some (.held appId deploymentId owner n) ↔
      s.runs[k]? = some (.held appId deploymentId owner n) := by
  rw [ExtTreeMap.getElem?_insert_ite]
  split
  next heq =>
    subst heq
    constructor
    · intro h
      exact absurd (Option.some.inj h) (hafter appId deploymentId owner n)
    · intro h
      exact absurd h (hbefore appId deploymentId owner n)
  next => rfl

/-- Only the start that holds the lock on the owners asks. -/
theorem asking_insert (hs : s.Owned) {id : ℕ} (hlock : ∀ k ≠ id, s.ownersLocked ≠ some k)
    {run : CronRun} {locked : Option ℕ}
    (hrun : ∀ appId deploymentId, run = .asking appId deploymentId → locked = some id)
    (k : ℕ) (appId : AppId) (deploymentId : DeploymentId)
    (h : (s.runs.insert id run)[k]? = some (.asking appId deploymentId)) : locked = some k := by
  rw [ExtTreeMap.getElem?_insert_ite] at h
  split at h
  next heq =>
    subst heq
    exact hrun _ _ (Option.some.inj h)
  next hne => exact absurd (hs.asking k appId deploymentId h) (hlock k (Ne.symm hne))

theorem ask (hs : s.Owned) (id : ℕ) (appId : AppId) (deploymentId : DeploymentId) :
    (s.ask id appId deploymentId).Owned := by
  unfold CronRuns.ask
  split
  · exact hs
  next hfree =>
  obtain ⟨hlock, hfresh⟩ : s.ownersLocked = none ∧ id ∉ s.runs := by simpa using hfree
  have hnone : s.runs[id]? = none := getElem?_neg _ _ hfresh
  have hother : ∀ k ≠ id, s.ownersLocked ≠ some k := by simp [hlock]
  split
  · exact hs.of_same rfl rfl rfl (held_insert_iff (by simp [hnone]) (by simp))
      (hs.asking_insert hother (by simp)) rfl rfl
  · exact hs.of_same rfl rfl rfl (held_insert_iff (by simp [hnone]) (by simp))
      (hs.asking_insert hother (by simp)) rfl rfl

/-- A start is refused. -/
theorem refuse (hs : s.Owned) {id : ℕ} {appId : AppId} {deploymentId : DeploymentId}
    (h : s.runs[id]? = some (.asking appId deploymentId)) :
    Owned { s with runs := s.runs.insert id .refused, ownersLocked := none } := by
  have hlock := hs.asking id appId deploymentId h
  have hother : ∀ k ≠ id, s.ownersLocked ≠ some k := by
    intro k hk heq
    exact hk (Option.some.inj (heq.symm.trans hlock))
  exact hs.of_same rfl rfl rfl (held_insert_iff (by simp [h]) (by simp))
    (hs.asking_insert hother (by simp)) rfl rfl

theorem ownerOf_eq_some_iff {appId : AppId} {deploymentId : DeploymentId} {owner : OwnerId}
    {active : DeploymentRuns} :
    s.ownerOf appId deploymentId = some (owner, active) ↔ s.owners[appId]? = some owner ∧
      s.active[owner]? = some active ∧ active.deploymentId = deploymentId := by
  unfold CronRuns.ownerOf
  split
  next hnone => simp [hnone]
  next o ho =>
    split
    next hnone =>
      simp only [ho, Option.some.injEq, false_iff, not_and, reduceCtorEq]
      rintro rfl hactive
      simp [hnone] at hactive
    next a ha =>
      constructor
      · intro h
        split at h
        next hdep =>
          obtain ⟨rfl, rfl⟩ := Prod.ext_iff.mp (Option.some.inj h)
          exact ⟨ho, ha, hdep⟩
        next => cases h
      · rintro ⟨howner, hactive, hdep⟩
        obtain rfl := Option.some.inj (ho.symm.trans howner)
        obtain rfl := Option.some.inj (ha.symm.trans hactive)
        rw [if_pos hdep]

/-- A start is granted a lease. -/
theorem grant (hs : s.Owned) {id : ℕ} {appId : AppId} {deploymentId : DeploymentId}
    (h : s.runs[id]? = some (.asking appId deploymentId)) {owner : OwnerId}
    {active : DeploymentRuns} (howns : s.owners[appId]? = some owner)
    (hactive : s.active[owner]? = some active) (hdep : active.deploymentId = deploymentId)
    (haccepting : active.accepting = true) :
    Owned { s with
      active := s.active.insert owner
        { active with
          nextId := active.nextId + 1
          cancellations := active.cancellations.insert active.nextId false }
      runs := s.runs.insert id (.held appId deploymentId owner active.nextId)
      ownersLocked := none } := by
  have hlock := hs.asking id appId deploymentId h
  have hother : ∀ k ≠ id, s.ownersLocked ≠ some k := by
    intro k hk heq
    exact hk (Option.some.inj (heq.symm.trans hlock))
  -- the number of the new lease is no other's
  have hnew : ∀ (k : ℕ) (app : AppId) (dep : DeploymentId) (n : ℕ),
      s.runs[k]? = some (.held app dep owner n) → n < active.nextId := by
    intro k app dep n hk
    obtain ⟨-, a, ha, -, hn⟩ := hs.held k app dep owner n hk
    obtain rfl := Option.some.inj (hactive.symm.trans ha)
    exact (hs.counted owner _ n hactive hn).1
  constructor
  · intro app o ho
    obtain ⟨hlt, a, ha⟩ := hs.owners app o ho
    refine ⟨hlt, ?_⟩
    rw [ExtTreeMap.getElem?_insert_ite]
    split
    · exact ⟨_, rfl⟩
    · exact ⟨a, ha⟩
  · exact hs.asking_insert hother (by simp)
  · intro k app dep o n hk
    rw [ExtTreeMap.getElem?_insert_ite] at hk
    split at hk
    · obtain ⟨rfl, rfl, rfl, rfl⟩ := CronRun.held.inj (Option.some.inj hk)
      refine ⟨howns, _, (s.active.getElem?_insert_ite owner owner _).trans (if_pos rfl), hdep, ?_⟩
      simp
    · obtain ⟨ho, a, ha, hdep', hn⟩ := hs.held k app dep o n hk
      refine ⟨ho, ?_⟩
      rw [ExtTreeMap.getElem?_insert_ite]
      split
      next heq =>
        subst heq
        obtain rfl := Option.some.inj (hactive.symm.trans ha)
        exact ⟨_, rfl, hdep', by simp [hn]⟩
      next => exact ⟨a, ha, hdep', hn⟩
  · intro k l app app' dep dep' o n hk hl
    rw [ExtTreeMap.getElem?_insert_ite] at hk hl
    split at hk <;> split at hl
    next hk' hl' => exact hk'.symm.trans hl'
    · obtain ⟨rfl, rfl, rfl, rfl⟩ := CronRun.held.inj (Option.some.inj hk)
      exact absurd (hnew _ _ _ _ hl) (by omega)
    · obtain ⟨rfl, rfl, rfl, rfl⟩ := CronRun.held.inj (Option.some.inj hl)
      exact absurd (hnew _ _ _ _ hk) (by omega)
    · exact hs.unique k l app app' dep dep' o n hk hl
  · intro o a n ha hn
    rw [ExtTreeMap.getElem?_insert_ite] at ha
    have hkept : ∀ (k : ℕ) (app : AppId) (dep : DeploymentId),
        s.runs[k]? = some (.held app dep o n) →
        (s.runs.insert id (.held appId deploymentId owner active.nextId))[k]? =
          some (.held app dep o n) := by
      intro k app dep hk
      have hne : id ≠ k := by
        rintro rfl
        exact CronRun.noConfusion (Option.some.inj (h.symm.trans hk))
      rw [ExtTreeMap.getElem?_insert_ite, if_neg hne]
      exact hk
    split at ha
    next heq =>
      subst heq
      obtain rfl := Option.some.inj ha
      by_cases heq : n = active.nextId
      · subst heq
        exact ⟨Nat.lt_succ_self _, id, appId, deploymentId, by simp⟩
      · have hn : n ∈ active.cancellations := by
          simpa [Ne.symm heq] using hn
        obtain ⟨hlt, k, app, dep, hk⟩ := hs.counted owner active n hactive hn
        exact ⟨Nat.lt_succ_of_lt hlt, k, app, dep, hkept k app dep hk⟩
    next =>
      obtain ⟨hlt, k, app, dep, hk⟩ := hs.counted o a n ha hn
      exact ⟨hlt, k, app, dep, hkept k app dep hk⟩
  · intro o a n flag ha hclosed hflag
    rw [ExtTreeMap.getElem?_insert_ite] at ha
    split at ha
    · obtain rfl := Option.some.inj ha
      exact absurd (hclosed.symm.trans haccepting) Bool.false_ne_true
    · exact hs.told o a n flag ha hclosed hflag
  · intro app o a ho ha haccepts
    rw [ExtTreeMap.getElem?_insert_ite] at ha
    split at ha
    next heq =>
      subst heq
      obtain rfl := Option.some.inj ha
      exact hs.listed app owner active ho hactive haccepting
    next => exact hs.listed app o a ho ha haccepts

theorem answer (hs : s.Owned) (id : ℕ) : (s.answer id).Owned := by
  unfold CronRuns.answer
  split
  next appId deploymentId h =>
    split
    next => exact hs.refuse h
    next owner active howner =>
      split
      next => exact hs.refuse h
      next n after hstart =>
        obtain ⟨howns, hactive, hdep⟩ := ownerOf_eq_some_iff.mp howner
        obtain ⟨haccepting, rfl, rfl⟩ := DeploymentRuns.start_eq_some_iff.mp hstart
        exact hs.grant h howns hactive hdep haccepting
  next => exact hs

/-- An owner's runs are those it had, but for the one that is gone. -/
theorem of_active_remove {owner o : OwnerId} {n : ℕ} {active : DeploymentRuns}
    (h : (s.active.modify owner (·.remove n))[o]? = some active) :
    ∃ before : DeploymentRuns, s.active[o]? = some before ∧
      active.accepting = before.accepting ∧ active.deploymentId = before.deploymentId ∧
      active.nextId = before.nextId ∧ ∀ m, active.cancellations[m]? =
        if owner = o ∧ n = m then none else before.cancellations[m]? := by
  rw [ExtTreeMap.getElem?_modify_ite] at h
  split at h
  next heq =>
    obtain ⟨before, hbefore, rfl⟩ := Option.map_eq_some_iff.mp h
    refine ⟨before, hbefore, rfl, rfl, rfl, fun m => ?_⟩
    simp only [DeploymentRuns.remove, ExtTreeMap.getElem?_erase_ite, heq, true_and]
  next hne => exact ⟨active, h, rfl, rfl, rfl, fun m => by simp [hne]⟩

theorem exists_active_remove {o : OwnerId} {active : DeploymentRuns}
    (h : s.active[o]? = some active) (owner : OwnerId) (n : ℕ) :
    ∃ after, (s.active.modify owner (·.remove n))[o]? = some after := by
  rw [ExtTreeMap.getElem?_modify_ite]
  split
  · exact ⟨active.remove n, by rw [h]; rfl⟩
  · exact ⟨active, h⟩

theorem release (hs : s.Owned) (id : ℕ) : (s.release id).Owned := by
  unfold CronRuns.release
  split
  next appId deploymentId owner n h =>
    have hrun (k : ℕ) : (s.runs.insert id (.completing owner))[k]? =
        if id = k then some (.completing owner) else s.runs[k]? :=
      s.runs.getElem?_insert_ite id k _
    constructor
    · intro app o ho
      obtain ⟨hlt, a, ha⟩ := hs.owners app o ho
      exact ⟨hlt, exists_active_remove ha owner n⟩
    · intro k app dep hk
      rw [hrun] at hk
      split at hk
      · cases hk
      · exact hs.asking k app dep hk
    · intro k app dep o m hk
      rw [hrun] at hk
      split at hk
      · cases hk
      next hne =>
        obtain ⟨ho, b, hb, hdep', hm⟩ := hs.held k app dep o m hk
        obtain ⟨a, ha⟩ := exists_active_remove hb owner n
        obtain ⟨b', hb', -, hsame, -, hcount⟩ := of_active_remove ha
        obtain rfl := Option.some.inj (hb.symm.trans hb')
        refine ⟨ho, a, ha, hsame.trans hdep', ?_⟩
        have hother : ¬(owner = o ∧ n = m) := by
          rintro ⟨rfl, rfl⟩
          exact hne (hs.unique id k appId app deploymentId dep owner n h hk)
        rw [ExtTreeMap.mem_iff_isSome_getElem?, hcount, if_neg hother,
          ← ExtTreeMap.mem_iff_isSome_getElem?]
        exact hm
    · intro k l app app' dep dep' o m hk hl
      rw [hrun] at hk hl
      split at hk
      · cases hk
      · split at hl
        · cases hl
        · exact hs.unique k l app app' dep dep' o m hk hl
    · intro o a m ha hm
      obtain ⟨b, hb, -, -, hnext, hcount⟩ := of_active_remove ha
      rw [ExtTreeMap.mem_iff_isSome_getElem?, hcount] at hm
      split at hm
      · cases hm
      next hother =>
        rw [← ExtTreeMap.mem_iff_isSome_getElem?] at hm
        obtain ⟨hlt, k, app, dep, hk⟩ := hs.counted o b m hb hm
        refine ⟨hnext ▸ hlt, k, app, dep, ?_⟩
        have hne : id ≠ k := by
          rintro rfl
          obtain ⟨-, -, rfl, rfl⟩ := CronRun.held.inj (Option.some.inj (h.symm.trans hk))
          exact hother ⟨rfl, rfl⟩
        rw [hrun, if_neg hne]
        exact hk
    · intro o a m flag ha hclosed hflag
      obtain ⟨b, hb, haccepts, -, -, hcount⟩ := of_active_remove ha
      rw [hcount] at hflag
      split at hflag
      · cases hflag
      · exact hs.told o b m flag hb (haccepts ▸ hclosed) hflag
    · intro app o a ho ha haccepts
      obtain ⟨b, hb, hsame, hdep', -⟩ := of_active_remove ha
      rw [hdep']
      exact hs.listed app o b ho hb (hsame ▸ haccepts)
  next => exact hs

theorem complete (hs : s.Owned) (id : ℕ) : (s.complete id).Owned := by
  unfold CronRuns.complete
  split
  next owner h =>
    refine hs.of_same rfl rfl rfl (held_insert_iff (by simp [h]) (by simp)) ?_ rfl rfl
    intro k appId deploymentId hk
    rw [ExtTreeMap.getElem?_insert_ite] at hk
    split at hk
    · cases hk
    · exact hs.asking k appId deploymentId hk
  next => exact hs

/-! ### Owners -/

theorem active_cancelAll (entries : List (AppId × OwnerId)) (owner : OwnerId) :
    (s.cancelAll entries).active[owner]? =
      if owner ∈ entries.map Prod.snd then s.active[owner]?.map (·.cancel)
      else s.active[owner]? := by
  show (entries.foldl (fun active entry => active.modify entry.2 (·.cancel)) s.active)[owner]? = _
  generalize s.active = active
  induction entries generalizing active with
  | nil => simp
  | cons entry entries ih =>
    rw [List.foldl_cons, ih, ExtTreeMap.getElem?_modify_ite, List.map_cons]
    by_cases hhead : entry.2 = owner <;> by_cases htail : owner ∈ entries.map Prod.snd
    · simp [hhead, htail, DeploymentRuns.cancel_cancel, Function.comp_def]
    · simp [hhead, htail]
    · simp [hhead, htail]
    · simp [hhead, htail, Ne.symm hhead]

/-- What a cancelled owner was. -/
theorem of_active_cancelAll {entries : List (AppId × OwnerId)} {owner : OwnerId}
    {active : DeploymentRuns} (h : (s.cancelAll entries).active[owner]? = some active) :
    ∃ before, s.active[owner]? = some before ∧
      (owner ∈ entries.map Prod.snd ∧ active = before.cancel ∨
        owner ∉ entries.map Prod.snd ∧ active = before) := by
  rw [active_cancelAll] at h
  split at h
  next hmem =>
    obtain ⟨before, hbefore, rfl⟩ := Option.map_eq_some_iff.mp h
    exact ⟨before, hbefore, .inl ⟨hmem, rfl⟩⟩
  next hmem => exact ⟨active, h, .inr ⟨hmem, rfl⟩⟩

theorem exists_active_cancelAll {owner : OwnerId} {active : DeploymentRuns}
    (h : s.active[owner]? = some active) (entries : List (AppId × OwnerId)) :
    ∃ after, (s.cancelAll entries).active[owner]? = some after ∧
      (owner ∈ entries.map Prod.snd ∧ after = active.cancel ∨
        owner ∉ entries.map Prod.snd ∧ after = active) := by
  rw [active_cancelAll]
  split
  next hmem => exact ⟨active.cancel, by rw [h]; rfl, .inl ⟨hmem, rfl⟩⟩
  next hmem => exact ⟨active, h, .inr ⟨hmem, rfl⟩⟩

theorem cancelAll (hs : s.Owned) (entries : List (AppId × OwnerId)) :
    (s.cancelAll entries).Owned := by
  constructor
  · intro app o ho
    obtain ⟨hlt, a, ha⟩ := hs.owners app o ho
    obtain ⟨after, hafter, -⟩ := exists_active_cancelAll ha entries
    exact ⟨hlt, after, hafter⟩
  · exact hs.asking
  · intro id app dep o n hrun
    obtain ⟨ho, a, ha, hdep, hn⟩ := hs.held id app dep o n hrun
    obtain ⟨after, hafter, ⟨-, rfl⟩ | ⟨-, rfl⟩⟩ := exists_active_cancelAll ha entries
    · exact ⟨ho, _, hafter, hdep, DeploymentRuns.mem_cancel.mpr hn⟩
    · exact ⟨ho, _, hafter, hdep, hn⟩
  · exact hs.unique
  · intro o a n ha hn
    obtain ⟨before, hbefore, ⟨-, rfl⟩ | ⟨-, rfl⟩⟩ := of_active_cancelAll ha
    · exact hs.counted o before n hbefore (DeploymentRuns.mem_cancel.mp hn)
    · exact hs.counted o _ n hbefore hn
  · intro o a n flag ha hclosed hflag
    obtain ⟨before, hbefore, ⟨-, rfl⟩ | ⟨-, rfl⟩⟩ := of_active_cancelAll ha
    · exact DeploymentRuns.told_cancel hflag
    · exact hs.told o _ n flag hbefore hclosed hflag
  · intro app o a ho ha haccepts
    obtain ⟨before, hbefore, ⟨-, rfl⟩ | ⟨-, rfl⟩⟩ := of_active_cancelAll ha
    · cases haccepts
    · exact hs.listed app o _ ho hbefore haccepts

/-- An app whose owner is closed counts as closed. -/
theorem close (hs : s.Owned) {appId : AppId}
    (hclosed : ∀ owner, s.owners[appId]? = some owner → s.Closed owner) :
    Owned { s with closed := appId :: s.closed } := by
  refine { hs with listed := ?_ }
  intro app o a ho ha haccepts
  obtain ⟨hlisted, hopen⟩ := hs.listed app o a ho ha haccepts
  refine ⟨hlisted, ?_⟩
  rw [List.mem_cons, not_or]
  refine ⟨?_, hopen⟩
  rintro rfl
  obtain ⟨b, hb, hnot⟩ := hclosed o ho
  obtain rfl := Option.some.inj (ha.symm.trans hb)
  exact Bool.false_ne_true (hnot.symm.trans haccepts)

theorem getElem?_erase_all (entries : List (AppId × OwnerId)) (owners : ExtTreeMap AppId OwnerId)
    (appId : AppId) :
    (entries.foldl (fun owners entry => owners.erase entry.1) owners)[appId]? =
      if appId ∈ entries.map Prod.fst then none else owners[appId]? := by
  induction entries generalizing owners with
  | nil => simp
  | cons entry entries ih =>
    rw [List.foldl_cons, ih, ExtTreeMap.getElem?_erase_ite, List.map_cons]
    by_cases hhead : entry.1 = appId <;> by_cases htail : appId ∈ entries.map Prod.fst
    · simp [htail]
    · simp [hhead]
    · simp [htail]
    · simp [hhead, htail, Ne.symm hhead]

/-- Drained owners are taken out, and those that stay are all asked for. -/
theorem retire (hs : s.Owned) {retiring : List (AppId × OwnerId)}
    {deployments : List (AppId × DeploymentId)}
    (hretiring : ∀ entry ∈ retiring, s.owners[entry.1]? = some entry.2 ∧ s.Drained entry.2)
    (hkept : ∀ appId owner active, s.owners[appId]? = some owner →
      s.active[owner]? = some active → (appId, owner) ∈ retiring ∨
        (appId, active.deploymentId) ∈ deployments) :
    Owned { s with
      owners := retiring.foldl (fun owners entry => owners.erase entry.1) s.owners
      listed := deployments
      closed := [] } := by
  have howners {app : AppId} {o : OwnerId}
      (h : (retiring.foldl (fun owners entry => owners.erase entry.1) s.owners)[app]? = some o) :
      s.owners[app]? = some o ∧ app ∉ retiring.map Prod.fst := by
    rw [getElem?_erase_all] at h
    split at h
    · cases h
    next hout => exact ⟨h, hout⟩
  constructor
  · intro app o ho
    exact hs.owners app o (howners ho).1
  · exact hs.asking
  · intro id app dep o n hrun
    obtain ⟨ho, a, ha, hdep, hn⟩ := hs.held id app dep o n hrun
    refine ⟨?_, a, ha, hdep, hn⟩
    show (retiring.foldl (fun owners entry => owners.erase entry.1) s.owners)[app]? = some o
    rw [getElem?_erase_all, if_neg]
    · exact ho
    · -- a drained owner has no lease
      intro hmem
      obtain ⟨⟨_, o'⟩, hentry, rfl⟩ := List.mem_map.mp hmem
      obtain ⟨ho', b, hb, -, hempty⟩ := hretiring _ hentry
      obtain rfl := Option.some.inj (ho.symm.trans ho')
      obtain rfl := Option.some.inj (ha.symm.trans hb)
      rw [ExtTreeMap.isEmpty_iff] at hempty
      rw [hempty] at hn
      exact ExtTreeMap.not_mem_empty hn
  · exact hs.unique
  · exact hs.counted
  · exact hs.told
  · intro app o a ho ha haccepts
    obtain ⟨ho, hout⟩ := howners ho
    rcases hkept app o a ho ha with hmem | hlisted
    · exact absurd (List.mem_map_of_mem hmem) hout
    · exact ⟨hlisted, List.not_mem_nil⟩

/-- An app that was listed gets an owner. -/
theorem own (hs : s.Owned) {deployment : AppId × DeploymentId} (hlisted : deployment ∈ s.listed)
    (hclosed : deployment.1 ∉ s.closed) : (s.own deployment).Owned := by
  unfold CronRuns.own
  split
  · exact hs
  have howner (app : AppId) : (s.owners.insert deployment.1 s.nextOwner)[app]? =
      if deployment.1 = app then some s.nextOwner else s.owners[app]? :=
    s.owners.getElem?_insert_ite deployment.1 app _
  have hactive (o : OwnerId) : (s.active.insert s.nextOwner (.new deployment.2))[o]? =
      if s.nextOwner = o then some (DeploymentRuns.new deployment.2) else s.active[o]? :=
    s.active.getElem?_insert_ite s.nextOwner o _
  -- the new owner has no runs, and its number is no other's
  have hempty (n : ℕ) : n ∉ (DeploymentRuns.new deployment.2).cancellations :=
    ExtTreeMap.not_mem_empty
  next hnew =>
  constructor
  · intro app o ho
    rw [howner] at ho
    rw [hactive]
    split at ho
    · obtain rfl := Option.some.inj ho
      exact ⟨Nat.lt_succ_self _, _, if_pos rfl⟩
    · obtain ⟨hlt, a, ha⟩ := hs.owners app o ho
      exact ⟨Nat.lt_succ_of_lt hlt, a, by rw [if_neg (Nat.ne_of_gt hlt), ha]⟩
  · exact hs.asking
  · intro id app dep o n hrun
    obtain ⟨ho, a, ha, hdep, hn⟩ := hs.held id app dep o n hrun
    have hlt := (hs.owners app o ho).1
    have hne : deployment.1 ≠ app := by
      rintro rfl
      exact hnew (by simp [ExtTreeMap.contains_eq_isSome_getElem?, ho])
    exact ⟨(howner app).trans ((if_neg hne).trans ho), a,
      (hactive o).trans ((if_neg (Nat.ne_of_gt hlt)).trans ha), hdep, hn⟩
  · exact hs.unique
  · intro o a n ha hn
    rw [hactive] at ha
    split at ha
    · obtain rfl := Option.some.inj ha
      exact absurd hn (hempty n)
    · exact hs.counted o a n ha hn
  · intro o a n flag ha hnot hflag
    rw [hactive] at ha
    split at ha
    · obtain rfl := Option.some.inj ha
      cases hnot
    · exact hs.told o a n flag ha hnot hflag
  · intro app o a ho ha haccepts
    rw [howner] at ho
    rw [hactive] at ha
    split at ho
    next heq =>
      subst heq
      obtain rfl := Option.some.inj ho
      rw [if_pos rfl] at ha
      obtain rfl := Option.some.inj ha
      exact ⟨hlisted, hclosed⟩
    next =>
      have hlt := (hs.owners app o ho).1
      rw [if_neg (Nat.ne_of_gt hlt)] at ha
      exact hs.listed app o a ho ha haccepts

/-- Making owners touches nothing else. -/
theorem own_all_frame (deployments : List (AppId × DeploymentId)) (s : CronRuns) :
    (deployments.foldl CronRuns.own s).listed = s.listed ∧
      (deployments.foldl CronRuns.own s).closed = s.closed ∧
      (deployments.foldl CronRuns.own s).runs = s.runs ∧
      (deployments.foldl CronRuns.own s).ownersLocked = s.ownersLocked ∧
      (deployments.foldl CronRuns.own s).stopping = s.stopping ∧
      (deployments.foldl CronRuns.own s).tasks = s.tasks := by
  induction deployments generalizing s with
  | nil => exact ⟨rfl, rfl, rfl, rfl, rfl, rfl⟩
  | cons deployment deployments ih =>
    rw [List.foldl_cons]
    obtain ⟨h₁, h₂, h₃, h₄, h₅, h₆⟩ := ih (s.own deployment)
    rw [h₁, h₂, h₃, h₄, h₅, h₆]
    unfold CronRuns.own
    split <;> exact ⟨rfl, rfl, rfl, rfl, rfl, rfl⟩

theorem own_all (hs : s.Owned) {deployments : List (AppId × DeploymentId)}
    (hlisted : ∀ deployment ∈ deployments, deployment ∈ s.listed) (hclosed : s.closed = []) :
    (deployments.foldl CronRuns.own s).Owned := by
  induction deployments generalizing s with
  | nil => exact hs
  | cons deployment deployments ih =>
    obtain ⟨hsame, hsame', -⟩ := own_all_frame [deployment] s
    have howned := hs.own (hlisted deployment List.mem_cons_self) (by simp [hclosed])
    refine ih howned ?_ (hsame'.trans hclosed)
    intro other hother
    exact hsame.symm ▸ hlisted other (List.mem_cons_of_mem _ hother)

theorem goTo (hs : s.Owned) (id : ℕ) (call : CronCall) (stage : CronStage) :
    (s.goTo id call stage).Owned :=
  hs.of_same rfl rfl rfl (fun _ _ _ _ _ => .rfl) hs.asking rfl rfl

end Owned

end CronRuns

end Nibrunner

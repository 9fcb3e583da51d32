import Nibrunner.ForStd.Run
import Nibrunner.ForStd.SharedPool
import Nibrunner.Protocol.Identifier

/-!
# One transition of an app at a time

Whatever moves the microVM of an app holds the lock of the app for as long as it does. A lock is
made when it is first asked for and is kept only while something is at it, so that the locks do not
grow by one for every app there ever was; each passes from who held it to who has waited longest.
What an app's cron jobs are doing is counted in the same way.

`Waiting` is what this is for: a queue for each app, whose first task is the one that moves it.
**The locks are these queues** (`transition_queues`), in every interleaving of the tasks.
-/

namespace Nibrunner.HostTransitions

open Std Run

/-! ### The locks -/

/-- A task takes the lock of an app out of the map, asks for it, and lets it go or gives up. -/
inductive Label where
  | transition (task : ℕ) (appId : AppId)
  | lock (task : ℕ)
  | release (task : ℕ)
  | cronActivity (activity : ℕ) (appId : AppId)
  | dropActivity (activity : ℕ)
deriving DecidableEq

structure HostState where
  transitions : SharedPool AppId
  /-- Of each lock, who holds it and who waits for it, in the order they asked. -/
  queues : ℕ → List ℕ
  cronRuns : ExtTreeMap AppId ℕ
  activities : List (ℕ × AppId)

namespace HostState

variable (s : HostState)

def shared : HostState where
  transitions := .empty
  queues := fun _ => []
  cronRuns := ∅
  activities := []

def setQueue (id : ℕ) (queue : List ℕ) : HostState :=
  { s with queues := fun other => if other = id then queue else s.queues other }

def transition (task : ℕ) (appId : AppId) : HostState :=
  if (s.transitions.reference? task).isSome then s
  else { s with transitions := s.transitions.get task appId }

def lock (task : ℕ) : HostState :=
  match s.transitions.reference? task with
  | none => s
  | some r => if task ∈ s.queues r.id then s else s.setQueue r.id (s.queues r.id ++ [task])

def release (task : ℕ) : HostState :=
  match s.transitions.reference? task with
  | none => s
  | some r =>
    { s.setQueue r.id ((s.queues r.id).filter (· ≠ task)) with
      transitions := s.transitions.drop task }

def cronActivity (activity : ℕ) (appId : AppId) : HostState :=
  if s.activities.any (·.1 = activity) then s
  else
    { s with
      cronRuns := s.cronRuns.insert appId (s.cronRuns.getD appId 0 + 1)
      activities := s.activities ++ [(activity, appId)] }

/-- The last of an app's takes its count along. -/
def dropActivity (activity : ℕ) : HostState :=
  match s.activities.find? (·.1 = activity) with
  | none => s
  | some (_, appId) =>
    { s with
      cronRuns :=
        match s.cronRuns[appId]? with
        | none => s.cronRuns
        | some count =>
          if count - 1 = 0 then s.cronRuns.erase appId else s.cronRuns.insert appId (count - 1)
      activities := s.activities.eraseP (·.1 = activity) }

def cronRunning (appId : AppId) : Bool := s.cronRuns.contains appId

def step (s : HostState) : Label → HostState
  | .transition task appId => s.transition task appId
  | .lock task => s.lock task
  | .release task => s.release task
  | .cronActivity activity appId => s.cronActivity activity appId
  | .dropActivity activity => s.dropActivity activity

/-- The task has the lock of the app. -/
def Moves (task : ℕ) (appId : AppId) : Prop :=
  ∃ r, s.transitions.reference? task = some r ∧ r.key = appId ∧ (s.queues r.id).head? = some task

end HostState

/-! ### What they are for -/

/-- The tasks that are at an app, and the queue of each app. -/
structure Waiting where
  tasks : List (ℕ × AppId)
  queue : AppId → List ℕ
  activities : List (ℕ × AppId)

namespace Waiting

variable (w : Waiting)

def none : Waiting := ⟨[], fun _ => [], []⟩

def appOf (task : ℕ) : Option AppId := (w.tasks.find? (·.1 = task)).map Prod.snd

def setQueue (appId : AppId) (queue : List ℕ) : Waiting :=
  { w with queue := fun other => if other = appId then queue else w.queue other }

def step (w : Waiting) : Label → Waiting
  | .transition task appId =>
    if (w.appOf task).isSome then w else { w with tasks := w.tasks ++ [(task, appId)] }
  | .lock task =>
    match w.appOf task with
    | .none => w
    | some appId =>
      if task ∈ w.queue appId then w else w.setQueue appId (w.queue appId ++ [task])
  | .release task =>
    match w.appOf task with
    | .none => w
    | some appId =>
      { w.setQueue appId ((w.queue appId).filter (· ≠ task)) with
        tasks := w.tasks.filter (·.1 ≠ task) }
  | .cronActivity activity appId =>
    if w.activities.any (·.1 = activity) then w
    else { w with activities := w.activities ++ [(activity, appId)] }
  | .dropActivity activity =>
    { w with activities := w.activities.eraseP (·.1 = activity) }

end Waiting

/-! ### The refinement -/

open SharedPool

/-- What a reference is for. -/
def taskOf (r : PoolReference AppId) : ℕ × AppId := (r.holder, r.key)

structure Refines (s : HostState) (w : Waiting) : Prop where
  shared : s.transitions.Shared
  tasks : w.tasks = s.transitions.references.map taskOf
  queue : ∀ appId, w.queue appId = (s.transitions.entries[appId]?).elim [] s.queues
  /-- Whoever is in a queue refers to its lock. -/
  queued : ∀ id, ∀ task ∈ s.queues id, ∃ r, s.transitions.reference? task = some r ∧ r.id = id
  activities : w.activities = s.activities
  runs : ∀ appId, s.cronRuns[appId]? =
    let count := s.activities.countP (·.2 = appId)
    if count = 0 then none else some count

section Refinement

variable {s : HostState} {w : Waiting}

theorem refines_shared : Refines .shared .none where
  shared := shared_empty
  tasks := rfl
  queue appId := by
    rw [HostState.shared, empty, ExtTreeMap.getElem?_empty]
    rfl
  queued id task htask := by cases htask
  activities := rfl
  runs appId := by
    rw [HostState.shared, ExtTreeMap.getElem?_empty]
    rfl

theorem Refines.appOf (h : Refines s w) (task : ℕ) :
    w.appOf task = (s.transitions.reference? task).map PoolReference.key := by
  rw [Waiting.appOf, h.tasks, List.find?_map, reference?, Option.map_map]
  rfl

/-- Nobody waits for a lock that nobody refers to. -/
theorem Refines.queue_unshared (h : Refines s w) {id : ℕ}
    (hid : s.transitions.unshared id = true) : s.queues id = [] := by
  refine List.eq_nil_iff_forall_not_mem.mpr fun task htask => ?_
  obtain ⟨r, hr, hsame⟩ := h.queued id task htask
  have hmem : r ∈ s.transitions.references := List.mem_of_find?_eq_some hr
  rw [← Bool.not_eq_false, unshared_eq_false] at hid
  exact hid ⟨r, hmem, hsame⟩

theorem Refines.queue_made (h : Refines s w) : s.queues s.transitions.made = [] := by
  refine List.eq_nil_iff_forall_not_mem.mpr fun task htask => ?_
  obtain ⟨r, hr, hsame⟩ := h.queued _ task htask
  have hid := h.shared.referred r (List.mem_of_find?_eq_some hr)
  rw [hsame] at hid
  exact absurd (h.shared.made _ _ hid) (Nat.lt_irrefl _)

/-- The locks that are dropped from the map are those nobody is at. -/
theorem Refines.queue_prune (h : Refines s w) (appId : AppId) :
    (s.transitions.prune.entries[appId]?).elim [] s.queues = w.queue appId := by
  rw [getElem?_prune, h.queue]
  cases s.transitions.entries[appId]? with
  | none => rfl
  | some id =>
    rw [Option.filter_some]
    split
    · rfl
    · rename_i hunshared
      rw [Bool.not_eq_true', Bool.not_eq_false] at hunshared
      exact (h.queue_unshared hunshared).symm

theorem Refines.transition (h : Refines s w) (task : ℕ) (appId : AppId) :
    Refines (s.transition task appId) (w.step (.transition task appId)) := by
  rw [HostState.transition, Waiting.step, h.appOf, Option.isSome_map]
  split
  · exact h
  · refine { shared := h.shared.get task appId, tasks := ?_, queue := fun other => ?_,
             queued := fun id other hother => ?_, activities := h.activities, runs := h.runs }
    · dsimp only
      rw [references_get, List.map_append, h.tasks]
      rfl
    · dsimp only
      rw [getElem?_get]
      split
      · rename_i hsame
        rw [← hsame, ← h.queue_prune appId, idFor]
        cases s.transitions.prune.entries[appId]? with
        | none => exact h.queue_made.symm
        | some id => rfl
      · exact (h.queue_prune other).symm
    · obtain ⟨r, hr, hsame⟩ := h.queued id other hother
      refine ⟨r, ?_, hsame⟩
      rw [reference?, references_get, List.find?_append, ← reference?, hr]
      rfl

/-- The queue of an app's lock is the app's. -/
theorem Refines.setQueue (h : Refines s w) {r : PoolReference AppId}
    (hid : s.transitions.entries[r.key]? = some r.id) (queue : List ℕ) (appId : AppId) :
    (w.setQueue r.key queue).queue appId =
      (s.transitions.entries[appId]?).elim [] (s.setQueue r.id queue).queues := by
  dsimp only [Waiting.setQueue, HostState.setQueue]
  split
  · rename_i hsame
    rw [hsame, hid]
    exact (if_pos rfl).symm
  · rename_i hne
    rw [h.queue]
    cases hother : s.transitions.entries[appId]? with
    | none => rfl
    | some id =>
      refine (if_neg fun hsame => hne ?_).symm
      exact h.shared.distinct appId r.key id hother (hsame ▸ hid)

theorem Refines.lock (h : Refines s w) (task : ℕ) :
    Refines (s.lock task) (w.step (.lock task)) := by
  rw [HostState.lock, Waiting.step, h.appOf]
  cases hr : s.transitions.reference? task with
  | none => exact h
  | some r =>
    have hid := h.shared.referred r (List.mem_of_find?_eq_some hr)
    have hqueue : w.queue r.key = s.queues r.id := by rw [h.queue, hid]; rfl
    dsimp only [Option.map_some]
    rw [hqueue]
    split
    · exact h
    · refine { h with queue := h.setQueue hid _, queued := fun id other hother => ?_ }
      dsimp only [HostState.setQueue] at hother
      split at hother
      · rename_i hsame
        rcases List.mem_append.mp hother with hother | hother
        · rw [hsame]
          exact h.queued r.id other hother
        · rw [List.mem_singleton.mp hother, hsame]
          exact ⟨r, hr, rfl⟩
      · exact h.queued id other hother

theorem Refines.release (h : Refines s w) (task : ℕ) :
    Refines (s.release task) (w.step (.release task)) := by
  rw [HostState.release, Waiting.step, h.appOf]
  cases hr : s.transitions.reference? task with
  | none => exact h
  | some r =>
    have hid := h.shared.referred r (List.mem_of_find?_eq_some hr)
    have hqueue : w.queue r.key = s.queues r.id := by rw [h.queue, hid]; rfl
    dsimp only [Option.map_some]
    rw [hqueue]
    refine { shared := h.shared.drop task, tasks := ?_, queue := h.setQueue hid _,
             queued := fun id other hother => ?_, activities := h.activities, runs := h.runs }
    · dsimp only [Waiting.setQueue]
      rw [h.tasks, SharedPool.drop, List.filter_map]
      rfl
    · -- the task itself is in the queue of no other lock
      have hkept {other : ℕ} (hne : other ≠ task) :
          (s.transitions.drop task).reference? other = s.transitions.reference? other := by
        rw [reference?, reference?, SharedPool.drop, List.find?_filter]
        refine congrArg (List.find? · _) (funext fun r => ?_)
        by_cases hholder : r.holder = other
        · simp [hholder, hne]
        · simp [hholder]
      have hmem : other ∈ s.queues id ∧ other ≠ task := by
        dsimp only [HostState.setQueue] at hother
        split at hother
        · rename_i hsame
          rw [hsame]
          exact ⟨(List.mem_filter.mp hother).1, by simpa using (List.mem_filter.mp hother).2⟩
        · rename_i hne
          refine ⟨hother, fun hsame => hne ?_⟩
          obtain ⟨r', hr', hid'⟩ := h.queued id other hother
          rw [hsame, hr] at hr'
          cases hr'
          exact hid'.symm
      obtain ⟨r', hr', hid'⟩ := h.queued id other hmem.1
      exact ⟨r', (hkept hmem.2).trans hr', hid'⟩

theorem Refines.cronActivity (h : Refines s w) (activity : ℕ) (appId : AppId) :
    Refines (s.cronActivity activity appId) (w.step (.cronActivity activity appId)) := by
  rw [HostState.cronActivity, Waiting.step, h.activities]
  split
  · exact h
  · refine { h with activities := rfl, runs := fun other => ?_ }
    dsimp only
    have hold := h.runs other
    rw [ExtTreeMap.getElem?_insert_ite, List.countP_append, List.countP_singleton]
    by_cases hsame : appId = other
    · subst hsame
      rw [if_pos rfl, ExtTreeMap.getD_eq_getD_getElem?, hold]
      dsimp only
      split
      · rename_i hnone
        rw [hnone]
        simp
      · simp
    · have hother : ¬decide ((activity, appId).2 = other) = true := by simpa using hsame
      rw [if_neg hsame, hold, if_neg hother, Nat.add_zero]

theorem Refines.dropActivity (h : Refines s w) (activity : ℕ) :
    Refines (s.dropActivity activity) (w.step (.dropActivity activity)) := by
  rw [HostState.dropActivity, Waiting.step, h.activities]
  cases hfind : s.activities.find? (·.1 = activity) with
  | none =>
    have hsame : s.activities.eraseP (·.1 = activity) = s.activities :=
      List.eraseP_of_forall_not fun a ha => List.find?_eq_none.mp hfind a ha
    exact { h with activities := hsame.trans rfl }
  | some entry =>
    obtain ⟨number, appId⟩ := entry
    obtain ⟨hnumber, front, rest, hall, hfront⟩ := List.find?_eq_some_iff_append.mp hfind
    have herase : s.activities.eraseP (·.1 = activity) = front ++ rest := by
      rw [hall, List.eraseP_append_right _ fun a ha => by simpa using hfront a ha]
      exact congrArg (front ++ ·) (List.eraseP_cons_of_pos hnumber)
    refine { h with activities := rfl, runs := fun other => ?_ }
    dsimp only
    have hold (other : AppId) := h.runs other
    dsimp only at hold
    simp only [hall, List.countP_append, List.countP_cons, decide_eq_true_eq] at hold
    rw [herase, List.countP_append]
    have happ := hold appId
    rw [if_pos rfl, if_neg (by omega)] at happ
    rw [happ]
    dsimp only
    by_cases hsame : appId = other
    · subst hsame
      split
      · rename_i hlast
        rw [ExtTreeMap.getElem?_erase_ite, if_pos rfl, if_pos (by omega)]
      · rename_i hmore
        rw [ExtTreeMap.getElem?_insert_ite, if_pos rfl, if_neg (by omega)]
        exact congrArg some (by omega)
    · have hother := hold other
      rw [if_neg hsame, Nat.add_zero] at hother
      split
      · rw [ExtTreeMap.getElem?_erase_ite, if_neg hsame, hother]
      · rw [ExtTreeMap.getElem?_insert_ite, if_neg hsame, hother]

theorem Refines.step (h : Refines s w) (label : Label) :
    Refines (s.step label) (w.step label) := by
  cases label with
  | transition task appId => exact h.transition task appId
  | lock task => exact h.lock task
  | release task => exact h.release task
  | cronActivity activity appId => exact h.cronActivity activity appId
  | dropActivity activity => exact h.dropActivity activity

theorem Refines.run (h : Refines s w) (labels : List Label) :
    Refines (run HostState.step s labels) (run Waiting.step w labels) := by
  induction labels generalizing s w with
  | nil => exact h
  | cons label labels ih => exact ih (h.step label)

/-- **The locks are queues.** In every interleaving of the tasks that ask for the locks of apps, get
them, let them go and give up, a task has the lock of an app exactly if it is the first in the
app's queue, where the tasks stand in the order they asked; so that one task moves an app at a time,
and none waits for one that is at another app. A lock is in the map, when a task takes one from it,
only if some task is at it. What is counted of an app's cron jobs is what is running of them. -/
theorem transition_queues (labels : List Label) :
    let s := run HostState.step .shared labels
    let w := run Waiting.step .none labels
    (∀ task appId, s.Moves task appId ↔ (w.queue appId).head? = some task) ∧
      (∀ task appId (other : AppId) id, s.transitions.reference? task = none →
        (s.step (.transition task appId)).transitions.entries[other]? = some id →
          ∃ r ∈ (s.step (.transition task appId)).transitions.references, r.id = id) ∧
      ∀ appId, s.cronRunning appId = true ↔ ∃ activity, (activity, appId) ∈ s.activities := by
  intro s w
  have h : Refines s w := refines_shared.run labels
  refine ⟨fun task appId => ⟨?_, fun hhead => ?_⟩, fun task appId other id hnone hid => ?_,
    fun appId => ?_⟩
  · rintro ⟨r, hr, rfl, hhead⟩
    rw [h.queue, h.shared.referred r (List.mem_of_find?_eq_some hr)]
    exact hhead
  · rw [h.queue] at hhead
    cases hentry : s.transitions.entries[appId]? with
    | none =>
      rw [hentry] at hhead
      cases hhead
    | some id =>
      rw [hentry] at hhead
      obtain ⟨r, hr, hsame⟩ := h.queued id task (List.mem_of_mem_head? hhead)
      refine ⟨r, hr, ?_, by rw [hsame]; exact hhead⟩
      exact h.shared.distinct r.key appId id
        (hsame ▸ h.shared.referred r (List.mem_of_find?_eq_some hr)) hentry
  · rw [HostState.step, HostState.transition, hnone] at hid ⊢
    exact referred_of_get hid
  · rw [HostState.cronRunning, ExtTreeMap.contains_eq_isSome_getElem?, h.runs]
    dsimp only
    split
    · rename_i hzero
      refine iff_of_false Bool.false_ne_true ?_
      rintro ⟨activity, hactivity⟩
      rw [List.countP_eq_zero] at hzero
      exact hzero _ hactivity (by simp)
    · rename_i hsome
      refine iff_of_true rfl ?_
      obtain ⟨⟨activity, app⟩, hactivity, happ⟩ :=
        List.countP_pos_iff.mp (Nat.pos_of_ne_zero hsome)
      exact ⟨activity, by rwa [← of_decide_eq_true happ]⟩

end Refinement

end Nibrunner.HostTransitions

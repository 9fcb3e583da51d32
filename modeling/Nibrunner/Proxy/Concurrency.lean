import Mathlib.Data.List.Basic
import Nibrunner.ForStd.IdMap
import Nibrunner.ForStd.Run
import Nibrunner.Protocol.Identifier

/-!
# The concurrency limiter

A request is let through with a permit of the host's semaphore and one of its app's. The semaphores
of the apps live in a map behind a lock, and a semaphore is pruned from it when its app is no longer
routed and nothing but the map refers to it; what refers to a semaphore is counted.

Threads call `acquire` and `keepOnly` and drop permits at any time. A step is one access of a call
to what it shares with others: a semaphore, a reference count, the lock, the map. A semaphore is
known by a number, and stays known once its last reference is gone.

`consistent_run`: **in every interleaving** the permits of a semaphore are those left and those
held, what refers to one is counted, and a call that goes by a semaphore finds it in the map. The
last is why pruning by reference count is enough: what may take a permit of a semaphore keeps it in
the map.
-/

namespace Nibrunner

open Std

structure HttpConcurrency where
  hostConcurrent : ℕ
  appConcurrent : ℕ

namespace Concurrency

abbrev CallId := ℕ
abbrev SemaphoreId := ℕ

/-- The semaphore of an app: the permits it has left and the references to it. -/
structure Semaphore where
  permits : ℕ
  strongCount : ℕ

namespace Semaphore

/-- A semaphore the map refers to. -/
def new (permits : ℕ) : Semaphore := { permits := permits, strongCount := 1 }

def tryAcquire (s : Semaphore) : Semaphore := { s with permits := s.permits - 1 }
def addPermit (s : Semaphore) : Semaphore := { s with permits := s.permits + 1 }
def clone (s : Semaphore) : Semaphore := { s with strongCount := s.strongCount + 1 }
def dropReference (s : Semaphore) : Semaphore := { s with strongCount := s.strongCount - 1 }

end Semaphore

/-- Where a call of `acquire` is, and after it the permit it returned. -/
inductive Acquire where
  | entering
  | hostTaken
  | locked
  | found (app : SemaphoreId)
  | cloned (app : SemaphoreId)
  /-- The app had no permit left; the reference to its semaphore is dropped, then the lock, then the
  permit of the host. -/
  | overloaded (app : SemaphoreId)
  | unlocking
  | givingBack
  | refused
  | granted (app : SemaphoreId)
  | live (app : SemaphoreId)
  /-- The permit is being dropped: first the host's, then the app's, then the reference. -/
  | hostReturned (app : SemaphoreId)
  | appReturned (app : SemaphoreId)
  | dropped
deriving DecidableEq

/-- Where a call of `keepOnly` is: the entries of the map it has not looked at, and the one it is
about to remove. -/
inductive Prune where
  | entering
  | visiting (rest : List AppId)
  | removing (appId : AppId) (rest : List AppId)
  | done
deriving DecidableEq

inductive Call where
  | acquire (appId : AppId) (phase : Acquire)
  | keepOnly (wanted : List AppId) (phase : Prune)
deriving DecidableEq

structure ConcurrencyLimiter where
  limits : HttpConcurrency
  host : ℕ
  apps : ExtTreeMap AppId SemaphoreId
  locked : Option CallId
  semaphores : List Semaphore
  calls : List Call

namespace ConcurrencyLimiter

def new (limits : HttpConcurrency) : ConcurrencyLimiter where
  limits := limits
  host := limits.hostConcurrent
  apps := ∅
  locked := none
  semaphores := []
  calls := []

/-- A call goes on. -/
def goTo (s : ConcurrencyLimiter) (id : CallId) (call : Call) : ConcurrencyLimiter :=
  { s with calls := s.calls.set id call }

/-- What an app's semaphore becomes. -/
def update (s : ConcurrencyLimiter) (app : SemaphoreId) (f : Semaphore → Semaphore) :
    ConcurrencyLimiter :=
  { s with semaphores := s.semaphores.modify app f }

def permits (s : ConcurrencyLimiter) (app : SemaphoreId) : ℕ :=
  (s.semaphores[app]?.map Semaphore.permits).getD 0

def strongCount (s : ConcurrencyLimiter) (app : SemaphoreId) : ℕ :=
  (s.semaphores[app]?.map Semaphore.strongCount).getD 0

/-- The next step of a call of `acquire`, and of the drop of the permit it returned. -/
def stepAcquire (s : ConcurrencyLimiter) (id : CallId) (appId : AppId) :
    Acquire → ConcurrencyLimiter
  | .entering =>
    if 0 < s.host then { s with host := s.host - 1 }.goTo id (.acquire appId .hostTaken)
    else s.goTo id (.acquire appId .refused)
  | .hostTaken =>
    if s.locked.isSome then s
    else { s with locked := some id }.goTo id (.acquire appId .locked)
  | .locked =>
    match s.apps[appId]? with
    | some app => s.goTo id (.acquire appId (.found app))
    | none =>
      { s with
        apps := s.apps.insert appId s.semaphores.length
        semaphores := s.semaphores ++ [Semaphore.new s.limits.appConcurrent]
      }.goTo id (.acquire appId (.found s.semaphores.length))
  | .found app => (s.update app .clone).goTo id (.acquire appId (.cloned app))
  | .cloned app =>
    if 0 < s.permits app then (s.update app .tryAcquire).goTo id (.acquire appId (.granted app))
    else s.goTo id (.acquire appId (.overloaded app))
  | .overloaded app => (s.update app .dropReference).goTo id (.acquire appId .unlocking)
  | .unlocking => { s with locked := none }.goTo id (.acquire appId .givingBack)
  | .givingBack => { s with host := s.host + 1 }.goTo id (.acquire appId .refused)
  | .granted app => { s with locked := none }.goTo id (.acquire appId (.live app))
  | .hostReturned app => (s.update app .addPermit).goTo id (.acquire appId (.appReturned app))
  | .appReturned app => (s.update app .dropReference).goTo id (.acquire appId .dropped)
  | .refused | .live _ | .dropped => s

/-- The next step of a call of `keepOnly`. -/
def stepPrune (s : ConcurrencyLimiter) (id : CallId) (wanted : List AppId) :
    Prune → ConcurrencyLimiter
  | .entering =>
    if s.locked.isSome then s
    else { s with locked := some id }.goTo id (.keepOnly wanted (.visiting s.apps.keys))
  | .visiting [] => { s with locked := none }.goTo id (.keepOnly wanted .done)
  | .visiting (appId :: rest) =>
    if wanted.contains appId || (s.apps[appId]?.map s.strongCount).getD 0 > 1 then
      s.goTo id (.keepOnly wanted (.visiting rest))
    else s.goTo id (.keepOnly wanted (.removing appId rest))
  | .removing appId rest =>
    match s.apps[appId]? with
    | some app =>
      { s.update app .dropReference with apps := s.apps.erase appId }.goTo id
        (.keepOnly wanted (.visiting rest))
    | none => s.goTo id (.keepOnly wanted (.visiting rest))
  | .done => s

/-- A call takes its next step, which waits where another one holds the lock. -/
def advance (s : ConcurrencyLimiter) (id : CallId) : ConcurrencyLimiter :=
  match s.calls[id]? with
  | some (.acquire appId phase) => s.stepAcquire id appId phase
  | some (.keepOnly wanted phase) => s.stepPrune id wanted phase
  | none => s

/-- A permit begins to be dropped: the host's goes back. -/
def drop (s : ConcurrencyLimiter) (id : CallId) : ConcurrencyLimiter :=
  match s.calls[id]? with
  | some (.acquire appId (.live app)) =>
    { s with host := s.host + 1 }.goTo id (.acquire appId (.hostReturned app))
  | _ => s

inductive Move where
  | acquire (appId : AppId)
  | keepOnly (wanted : List AppId)
  | drop (id : CallId)
  | advance (id : CallId)

def step (s : ConcurrencyLimiter) : Move → ConcurrencyLimiter
  | .acquire appId => { s with calls := s.calls ++ [.acquire appId .entering] }
  | .keepOnly wanted => { s with calls := s.calls ++ [.keepOnly wanted .entering] }
  | .drop id => s.drop id
  | .advance id => s.advance id

end ConcurrencyLimiter

/-! ### What a call holds -/

/-- A permit of the host taken and not given back. -/
def Call.holdsHost : Call → Bool
  | .acquire _ phase =>
    match phase with
    | .entering | .refused | .hostReturned _ | .appReturned _ | .dropped => false
    | _ => true
  | .keepOnly _ _ => false

/-- A permit of an app's semaphore taken and not given back. -/
def Acquire.holdsApp (app : SemaphoreId) : Acquire → Bool
  | .granted app' | .live app' | .hostReturned app' => app' = app
  | _ => false

def Call.holdsApp (app : SemaphoreId) : Call → Bool
  | .acquire _ phase => phase.holdsApp app
  | .keepOnly _ _ => false

/-- A reference to an app's semaphore. -/
def Acquire.refersTo (app : SemaphoreId) : Acquire → Bool
  | .cloned app' | .overloaded app' | .granted app' | .live app' | .hostReturned app'
  | .appReturned app' => app' = app
  | _ => false

def Call.refersTo (app : SemaphoreId) : Call → Bool
  | .acquire _ phase => phase.refersTo app
  | .keepOnly _ _ => false

/-- The lock on the map. -/
def Call.locks : Call → Bool
  | .acquire _ phase =>
    match phase with
    | .locked | .found _ | .cloned _ | .overloaded _ | .unlocking | .granted _ => true
    | _ => false
  | .keepOnly _ phase =>
    match phase with
    | .visiting _ | .removing _ _ => true
    | _ => false

/-- The semaphore a call goes by, which the map has for its app. -/
def Call.goesBy (app : SemaphoreId) : Call → Bool
  | .acquire _ (.found app') => app' = app
  | call => call.refersTo app

/-! ### What holds in every state -/

namespace ConcurrencyLimiter

/-- The calls of which something holds. -/
def count (s : ConcurrencyLimiter) (p : Call → Bool) : ℕ := s.calls.countP p

/-- What holds in every state the limiter reaches. -/
structure Consistent (s : ConcurrencyLimiter) : Prop where
  host : s.host + s.count Call.holdsHost = s.limits.hostConcurrent
  app (app : SemaphoreId) (semaphore : Semaphore) (h : s.semaphores[app]? = some semaphore) :
    semaphore.permits + s.count (Call.holdsApp app) = s.limits.appConcurrent
  strongCount (appId : AppId) (app : SemaphoreId) (semaphore : Semaphore)
    (ha : s.apps[appId]? = some app) (h : s.semaphores[app]? = some semaphore) :
    semaphore.strongCount = s.count (Call.refersTo app) + 1
  made (appId : AppId) (app : SemaphoreId) (ha : s.apps[appId]? = some app) :
    app < s.semaphores.length
  apart (appId other : AppId) (app : SemaphoreId) (ha : s.apps[appId]? = some app)
    (ho : s.apps[other]? = some app) : appId = other
  kept (id : CallId) (appId : AppId) (phase : Acquire) (app : SemaphoreId)
    (h : s.calls[id]? = some (.acquire appId phase)) (hg : (Call.acquire appId phase).goesBy app) :
    s.apps[appId]? = some app
  locked (id : CallId) (call : Call) (h : s.calls[id]? = some call) (hl : call.locks) :
    s.locked = some id
  removing (id : CallId) (wanted rest : List AppId) (appId : AppId) (app : SemaphoreId)
    (h : s.calls[id]? = some (.keepOnly wanted (.removing appId rest)))
    (ha : s.apps[appId]? = some app) : s.count (Call.refersTo app) = 0

variable {s s' : ConcurrencyLimiter} {id : CallId} {call call' : Call} {p : Call → Bool}

theorem count_set (h : s.calls[id]? = some call) (hc : s'.calls = s.calls.set id call') :
    s'.count p + (p call).toNat = s.count p + (p call').toNat := by
  obtain ⟨hid, rfl⟩ := List.getElem?_eq_some_iff.mp h
  rw [count, count, hc, List.countP_set hid]
  have hpos : p s.calls[id] = true → 0 < s.calls.countP p :=
    fun hp => List.countP_pos_iff.mpr ⟨_, List.getElem_mem hid, hp⟩
  cases hp : p s.calls[id] <;> cases p call' <;> simp_all

theorem count_pos (h : s.calls[id]? = some call) (hp : p call) : 0 < s.count p :=
  List.countP_pos_iff.mpr ⟨call, List.mem_of_getElem? h, hp⟩

theorem refersTo_of_holdsApp {app : SemaphoreId} (h : call.holdsApp app) : call.refersTo app := by
  match call, h with
  | .acquire _ (.granted _), h => exact h
  | .acquire _ (.live _), h => exact h
  | .acquire _ (.hostReturned _), h => exact h

theorem goesBy_of_refersTo {app : SemaphoreId} (h : call.refersTo app) : call.goesBy app := by
  match call, h with
  | .acquire _ (.cloned _), h | .acquire _ (.overloaded _), h | .acquire _ (.granted _), h
  | .acquire _ (.live _), h | .acquire _ (.hostReturned _), h
  | .acquire _ (.appReturned _), h => exact h

/-! ### Steps that leave the map alone -/

/-- Every semaphore loses and gains what a call does that goes on. -/
def Exchanged (s s' : ConcurrencyLimiter) (call call' : Call) : Prop :=
  ∀ (app : SemaphoreId) (semaphore' : Semaphore), s'.semaphores[app]? = some semaphore' →
    ∃ semaphore, s.semaphores[app]? = some semaphore ∧
      semaphore'.permits + (call'.holdsApp app).toNat =
        semaphore.permits + (call.holdsApp app).toNat ∧
      semaphore'.strongCount + (call.refersTo app).toNat =
        semaphore.strongCount + (call'.refersTo app).toNat

theorem exchanged_of_same (hs : s'.semaphores = s.semaphores)
    (ha : ∀ app, call'.holdsApp app = call.holdsApp app)
    (hr : ∀ app, call'.refersTo app = call.refersTo app) : Exchanged s s' call call' := by
  intro app semaphore hsem
  rw [hs] at hsem
  exact ⟨semaphore, hsem, by rw [ha app], by rw [hr app]⟩

theorem exchanged_of_update {app : SemaphoreId} {f : Semaphore → Semaphore}
    (hs : s'.semaphores = s.semaphores.modify app f)
    (ha : ∀ other, app ≠ other → call'.holdsApp other = call.holdsApp other)
    (hr : ∀ other, app ≠ other → call'.refersTo other = call.refersTo other)
    (hf : ∀ semaphore, s.semaphores[app]? = some semaphore →
      (f semaphore).permits + (call'.holdsApp app).toNat =
        semaphore.permits + (call.holdsApp app).toNat ∧
      (f semaphore).strongCount + (call.refersTo app).toNat =
        semaphore.strongCount + (call'.refersTo app).toNat) : Exchanged s s' call call' := by
  intro other semaphore' hsem
  rw [hs, List.getElem?_modify, Option.map_eq_map, Option.map_eq_some_iff] at hsem
  obtain ⟨semaphore, hold, rfl⟩ := hsem
  refine ⟨semaphore, hold, ?_⟩
  split_ifs with heq
  · subst heq
    exact hf semaphore hold
  · rw [ha other heq, hr other heq]
    exact ⟨rfl, rfl⟩

namespace Consistent

/-- **What a step keeps that leaves the map alone.** The call that takes it gives and takes as much
of each count as it holds less and more, and a reference is taken under the lock alone. -/
theorem moved (hs : s.Consistent) (h : s.calls[id]? = some call)
    (hcalls : s'.calls = s.calls.set id call') (hlimits : s'.limits = s.limits)
    (happs : s'.apps = s.apps) (hmade : s'.semaphores.length = s.semaphores.length)
    (hhost : s'.host + call'.holdsHost.toNat = s.host + call.holdsHost.toNat)
    (hsemaphores : Exchanged s s' call call')
    (hkept : ∀ (appId : AppId) (phase : Acquire) (app : SemaphoreId),
      call' = .acquire appId phase → call'.goesBy app → s.apps[appId]? = some app)
    (hlocked : call'.locks → s'.locked = some id)
    (hothers : s'.locked = s.locked ∨ s.locked = none ∨ s.locked = some id)
    (hrefers : call.locks ∨ ∀ app, call'.refersTo app → call.refersTo app)
    (hremoving : ∀ (wanted rest : List AppId) (appId : AppId) (app : SemaphoreId),
      call' = .keepOnly wanted (.removing appId rest) → s.apps[appId]? = some app →
      s.count (Call.refersTo app) = 0) : s'.Consistent := by
  have hlt : id < s.calls.length := (List.getElem?_eq_some_iff.mp h).choose
  have hget (other : CallId) :
      s'.calls[other]? = if id = other then some call' else s.calls[other]? := by
    rw [hcalls, List.getElem?_set]
    split_ifs with heq <;> simp_all
  have hcount (p : Call → Bool) := count_set (p := p) h hcalls
  refine ⟨?_, ?_, ?_, ?_, ?_, ?_, ?_, ?_⟩
  · have hp := hcount Call.holdsHost
    have hh := hs.host
    rw [hlimits]
    omega
  · intro app semaphore' hsem
    obtain ⟨semaphore, hold, hpermits, -⟩ := hsemaphores app semaphore' hsem
    have hp := hcount (Call.holdsApp app)
    have ha := hs.app app semaphore hold
    rw [hlimits]
    omega
  · intro appId app semaphore' ha hsem
    obtain ⟨semaphore, hold, -, hstrong⟩ := hsemaphores app semaphore' hsem
    have hp := hcount (Call.refersTo app)
    have hc := hs.strongCount appId app semaphore (happs ▸ ha) hold
    omega
  · intro appId app ha
    rw [hmade]
    exact hs.made appId app (happs ▸ ha)
  · intro appId other app ha ho
    exact hs.apart appId other app (happs ▸ ha) (happs ▸ ho)
  · intro other appId phase app hother hg
    rw [happs]
    rw [hget] at hother
    split_ifs at hother with heq
    · cases hother
      exact hkept appId phase app rfl hg
    · exact hs.kept other appId phase app hother hg
  · intro other callO hother hl
    rw [hget] at hother
    split_ifs at hother with heq
    · cases hother
      exact heq ▸ hlocked hl
    · have ho := hs.locked other callO hother hl
      rcases hothers with he | he | he
      · rw [he, ho]
      · rw [he] at ho
        cases ho
      · rw [he] at ho
        exact absurd (Option.some.inj ho) heq
  · intro other wanted rest appId app hother ha
    rw [happs] at ha
    rw [hget] at hother
    have hp := hcount (Call.refersTo app)
    split_ifs at hother with heq
    · cases hother
      have hz := hremoving wanted rest appId app rfl ha
      have hf : Call.refersTo app (.keepOnly wanted (.removing appId rest)) = false := rfl
      rw [hf, Bool.toNat_false] at hp
      omega
    · have hz := hs.removing other wanted rest appId app hother ha
      rcases hrefers with hl | hr
      · -- the lock is held by one call alone
        have h₁ := hs.locked id call h hl
        have h₂ := hs.locked other _ hother rfl
        exact absurd (Option.some.inj (h₁.symm.trans h₂)) heq
      · cases hc : call'.refersTo app
        · rw [hc] at hp
          simp only [Bool.toNat_false] at hp
          omega
        · rw [hc, hr app hc] at hp
          omega


/-! ### Semaphores made and pruned -/

/-- What holds a reference found it in the map, and is counted. -/
theorem strongCount_pos (hs : s.Consistent) {appId : AppId} {phase : Acquire} {app : SemaphoreId}
    {semaphore : Semaphore} (h : s.calls[id]? = some (.acquire appId phase))
    (hr : (Call.acquire appId phase).refersTo app) (hsem : s.semaphores[app]? = some semaphore) :
    0 < semaphore.strongCount := by
  have ha := hs.kept id appId phase app h (goesBy_of_refersTo hr)
  have hc := hs.strongCount appId app semaphore ha hsem
  omega

/-- What goes by a semaphore goes by one that is made. -/
theorem made_of_goesBy (hs : s.Consistent) {app : SemaphoreId} (h : s.calls[id]? = some call)
    (hg : call.goesBy app) : app < s.semaphores.length := by
  cases call with
  | acquire appId phase => exact hs.made appId app (hs.kept id appId phase app h hg)
  | keepOnly wanted phase => cases hg

theorem count_eq_zero_of_not_made (hs : s.Consistent) {app : SemaphoreId}
    (hp : ∀ call, p call → call.goesBy app) (hn : s.semaphores.length ≤ app) : s.count p = 0 := by
  refine List.countP_eq_zero.mpr fun call hmem hc => ?_
  obtain ⟨id, hid⟩ := List.getElem?_of_mem hmem
  exact absurd (hs.made_of_goesBy hid (hp call hc)) (Nat.not_lt.mpr hn)

/-- A semaphore made for an app that has none. -/
theorem inserted (hs : s.Consistent) {appId : AppId} (hn : s.apps[appId]? = none) :
    { s with
      apps := s.apps.insert appId s.semaphores.length
      semaphores := s.semaphores ++ [Semaphore.new s.limits.appConcurrent] }.Consistent := by
  have happs {other : AppId} {app : SemaphoreId}
      (ha : (s.apps.insert appId s.semaphores.length)[other]? = some app) :
      (appId = other ∧ s.semaphores.length = app) ∨ s.apps[other]? = some app := by
    rw [ExtTreeMap.getElem?_insert_ite] at ha
    split_ifs at ha with heq
    · exact .inl ⟨heq, Option.some.inj ha⟩
    · exact .inr ha
  have hsems {app : SemaphoreId} {semaphore : Semaphore}
      (hsem : (s.semaphores ++ [Semaphore.new s.limits.appConcurrent])[app]? = some semaphore) :
      (s.semaphores.length = app ∧ semaphore = .new s.limits.appConcurrent) ∨
        s.semaphores[app]? = some semaphore := by
    rw [List.getElem?_append] at hsem
    split_ifs at hsem with hlt
    · exact .inr hsem
    · rw [List.getElem?_singleton] at hsem
      split_ifs at hsem with hz
      exact .inl ⟨by omega, (Option.some.inj hsem).symm⟩
  have hzero {q : Call → Bool} (hq : ∀ call, q call → call.goesBy s.semaphores.length) :
      s.count q = 0 := hs.count_eq_zero_of_not_made hq (Nat.le_refl _)
  refine ⟨hs.host, ?_, ?_, ?_, ?_, ?_, hs.locked, ?_⟩
  · intro app semaphore hsem
    rcases hsems hsem with ⟨rfl, rfl⟩ | hold
    · have hz := hzero fun call hc => goesBy_of_refersTo (refersTo_of_holdsApp hc)
      show s.limits.appConcurrent + s.count _ = s.limits.appConcurrent
      omega
    · exact hs.app app semaphore hold
  · intro other app semaphore ha hsem
    rcases hsems hsem with ⟨rfl, rfl⟩ | hold
    · have hz := hzero fun call hc => goesBy_of_refersTo hc
      show 1 = s.count _ + 1
      omega
    · rcases happs ha with ⟨rfl, rfl⟩ | ha
      · exact absurd (List.getElem?_eq_some_iff.mp hold).choose (Nat.lt_irrefl _)
      · exact hs.strongCount other app semaphore ha hold
  · intro other app ha
    rw [List.length_append, List.length_singleton]
    rcases happs ha with ⟨rfl, rfl⟩ | ha
    · exact Nat.lt_succ_self _
    · exact Nat.lt_succ_of_lt (hs.made other app ha)
  · intro one other app ha ho
    rcases happs ha with ⟨rfl, rfl⟩ | ha <;> rcases happs ho with ⟨rfl, he⟩ | ho
    · rfl
    · exact absurd (hs.made other _ ho) (Nat.lt_irrefl _)
    · exact absurd (hs.made one _ ha) (he ▸ Nat.lt_irrefl _)
    · exact hs.apart one other app ha ho
  · intro id other phase app h hg
    have ha := hs.kept id other phase app h hg
    rw [ExtTreeMap.getElem?_insert_ite]
    split_ifs with heq
    · subst heq
      exact absurd (hn.symm.trans ha) (by simp)
    · exact ha
  · intro id wanted rest other app h ha
    rcases happs ha with ⟨rfl, rfl⟩ | ha
    · exact hzero fun call hc => goesBy_of_refersTo hc
    · exact hs.removing id wanted rest other app h ha

/-- A semaphore nothing refers to but the map is taken out of it. -/
theorem removed (hs : s.Consistent) {appId : AppId} {app : SemaphoreId} {wanted rest : List AppId}
    (h : s.calls[id]? = some (.keepOnly wanted (.removing appId rest)))
    (ha : s.apps[appId]? = some app) :
    { s.update app .dropReference with apps := s.apps.erase appId }.Consistent := by
  have hz := hs.removing id wanted rest appId app h ha
  have happs {other : AppId} {app' : SemaphoreId}
      (ho : (s.apps.erase appId)[other]? = some app') :
      appId ≠ other ∧ s.apps[other]? = some app' := by
    rw [ExtTreeMap.getElem?_erase_ite] at ho
    split_ifs at ho with heq
    exact ⟨heq, ho⟩
  have hsems {app' : SemaphoreId} {semaphore' : Semaphore}
      (hsem : (s.semaphores.modify app .dropReference)[app']? = some semaphore') :
      ∃ semaphore, s.semaphores[app']? = some semaphore ∧
        semaphore'.permits = semaphore.permits ∧ (app ≠ app' → semaphore' = semaphore) := by
    rw [List.getElem?_modify, Option.map_eq_map, Option.map_eq_some_iff] at hsem
    obtain ⟨semaphore, hold, rfl⟩ := hsem
    refine ⟨semaphore, hold, ?_, fun hne => if_neg hne⟩
    split_ifs <;> rfl
  refine ⟨hs.host, ?_, ?_, ?_, ?_, ?_, hs.locked, ?_⟩
  · intro app' semaphore' hsem
    obtain ⟨semaphore, hold, hpermits, -⟩ := hsems hsem
    rw [hpermits]
    exact hs.app app' semaphore hold
  · intro other app' semaphore' ho hsem
    obtain ⟨hne, ho⟩ := happs ho
    obtain ⟨semaphore, hold, -, hsame⟩ := hsems hsem
    rw [hsame fun heq => hne (hs.apart appId other app ha (heq ▸ ho))]
    exact hs.strongCount other app' semaphore ho hold
  · intro other app' ho
    rw [update, List.length_modify]
    exact hs.made other app' (happs ho).2
  · intro one other app' ho₁ ho₂
    exact hs.apart one other app' (happs ho₁).2 (happs ho₂).2
  · intro other appId' phase app' hother hg
    have hk := hs.kept other appId' phase app' hother hg
    rw [ExtTreeMap.getElem?_erase_ite]
    split_ifs with heq
    · -- a call that goes by the semaphore refers to it or holds the lock
      subst heq
      obtain rfl : app = app' := Option.some.inj (ha.symm.trans hk)
      by_cases hr : (Call.acquire appId phase).refersTo app
      · exact absurd hz (Nat.pos_iff_ne_zero.mp (count_pos hother hr))
      · have h₁ := hs.locked id _ h rfl
        cases phase with
        | found app' =>
          have h₂ := hs.locked other _ hother rfl
          cases Option.some.inj (h₁.symm.trans h₂)
          cases h.symm.trans hother
        | _ => exact absurd hg hr
    · exact hk
  · intro other wanted' rest' appId' app' hother ho
    exact hs.removing other wanted' rest' appId' app' hother (happs ho).2


/-! ### The steps of the calls -/

/-- What a step of `acquire` keeps that leaves the map alone. -/
theorem acquires (hs : s.Consistent) {appId : AppId} {phase phase' : Acquire}
    (h : s.calls[id]? = some (.acquire appId phase))
    (hcalls : s'.calls = s.calls.set id (.acquire appId phase')) (hlimits : s'.limits = s.limits)
    (happs : s'.apps = s.apps) (hmade : s'.semaphores.length = s.semaphores.length)
    (hhost : s'.host + (Call.acquire appId phase').holdsHost.toNat =
      s.host + (Call.acquire appId phase).holdsHost.toNat)
    (hsemaphores : Exchanged s s' (.acquire appId phase) (.acquire appId phase'))
    (hgoes : ∀ app, (Call.acquire appId phase').goesBy app →
      (Call.acquire appId phase).goesBy app ∨ s.apps[appId]? = some app)
    (hlocked : (Call.acquire appId phase').locks → s'.locked = some id)
    (hothers : s'.locked = s.locked ∨ s.locked = none ∨ s.locked = some id)
    (hrefers : (Call.acquire appId phase).locks ∨
      ∀ app, phase'.refersTo app → phase.refersTo app) : s'.Consistent := by
  refine hs.moved h hcalls hlimits happs hmade hhost hsemaphores ?_ hlocked hothers hrefers ?_
  · rintro _ _ app ⟨⟩ hg
    rcases hgoes app hg with hg | ha
    · exact hs.kept id appId phase app h hg
    · exact ha
  · rintro _ _ _ _ ⟨⟩

theorem stepAcquire (hs : s.Consistent) {appId : AppId} {phase : Acquire}
    (h : s.calls[id]? = some (.acquire appId phase)) :
    (s.stepAcquire id appId phase).Consistent := by
  have hlocked := hs.locked id _ h
  have hsame (app app' : SemaphoreId) (hne : app ≠ app') : decide (app = app') = false :=
    decide_eq_false hne
  cases phase with
  | entering =>
    rw [ConcurrencyLimiter.stepAcquire]
    split_ifs with hpos
    · refine hs.acquires h rfl rfl rfl rfl ?_ (exchanged_of_same rfl (fun _ => rfl) fun _ => rfl)
        (fun _ hg => .inl hg) nofun (.inl rfl) (.inr fun _ hr => hr)
      show s.host - 1 + 1 = s.host + 0
      omega
    · exact hs.acquires h rfl rfl rfl rfl rfl
        (exchanged_of_same rfl (fun _ => rfl) fun _ => rfl)
        (fun _ hg => .inl hg) nofun (.inl rfl) (.inr fun _ hr => hr)
  | hostTaken =>
    rw [ConcurrencyLimiter.stepAcquire]
    split_ifs with hheld
    · exact hs
    · exact hs.acquires h rfl rfl rfl rfl rfl
        (exchanged_of_same rfl (fun _ => rfl) fun _ => rfl)
        (fun _ hg => .inl hg) (fun _ => rfl) (.inr (.inl (by simpa using hheld)))
        (.inr fun _ hr => hr)
  | locked =>
    rw [ConcurrencyLimiter.stepAcquire]
    split
    · rename_i app ha
      refine hs.acquires h rfl rfl rfl rfl rfl
        (exchanged_of_same rfl (fun _ => rfl) fun _ => rfl) (fun app' hg => .inr ?_)
        (fun _ => hlocked rfl) (.inl rfl) (.inl rfl)
      rw [ha, of_decide_eq_true hg]
    · rename_i hn
      refine (hs.inserted hn).acquires h rfl rfl rfl rfl rfl
        (exchanged_of_same rfl (fun _ => rfl) fun _ => rfl) (fun app' hg => .inr ?_)
        (fun _ => hlocked rfl) (.inl rfl) (.inl rfl)
      rw [ExtTreeMap.getElem?_insert_self, of_decide_eq_true hg]
  | found app =>
    refine hs.acquires h rfl rfl rfl (List.length_modify ..) rfl
      (exchanged_of_update rfl (fun _ _ => rfl) (hsame app) fun _ _ => ?_) (fun _ hg => .inl hg)
      (fun _ => hlocked rfl) (.inl rfl) (.inl rfl)
    simp [Semaphore.clone, Call.holdsApp, Acquire.holdsApp, Call.refersTo, Acquire.refersTo]
  | cloned app =>
    rw [ConcurrencyLimiter.stepAcquire]
    split_ifs with hpos
    · refine hs.acquires h rfl rfl rfl (List.length_modify ..) rfl
        (exchanged_of_update rfl (hsame app) (fun _ _ => rfl) fun semaphore hsem => ?_)
        (fun _ hg => .inl hg) (fun _ => hlocked rfl) (.inl rfl) (.inl rfl)
      have hpermits : 0 < semaphore.permits := by simpa [permits, hsem] using hpos
      simp only [Semaphore.tryAcquire, Call.holdsApp, Acquire.holdsApp, Call.refersTo,
        Acquire.refersTo, decide_true, Bool.toNat_true, Bool.toNat_false, and_true]
      omega
    · exact hs.acquires h rfl rfl rfl rfl rfl
        (exchanged_of_same rfl (fun _ => rfl) fun _ => rfl)
        (fun _ hg => .inl hg) (fun _ => hlocked rfl) (.inl rfl) (.inl rfl)
  | overloaded app =>
    refine hs.acquires h rfl rfl rfl (List.length_modify ..) rfl
      (exchanged_of_update rfl (fun _ _ => rfl) (fun _ hne => (hsame _ _ hne).symm)
        fun semaphore hsem => ?_) nofun
      (fun _ => hlocked rfl) (.inl rfl) (.inl rfl)
    have hstrong := hs.strongCount_pos h (decide_eq_true rfl) hsem
    simp only [Semaphore.dropReference, Call.holdsApp, Acquire.holdsApp, Call.refersTo,
      Acquire.refersTo, decide_true, Bool.toNat_true, Bool.toNat_false, true_and]
    omega
  | unlocking =>
    exact hs.acquires h rfl rfl rfl rfl rfl (exchanged_of_same rfl (fun _ => rfl) fun _ => rfl)
      nofun nofun (.inr (.inr (hlocked rfl))) (.inl rfl)
  | givingBack =>
    exact hs.acquires h rfl rfl rfl rfl rfl (exchanged_of_same rfl (fun _ => rfl) fun _ => rfl)
      nofun nofun (.inl rfl) (.inr fun _ hr => hr)
  | granted app =>
    exact hs.acquires h rfl rfl rfl rfl rfl (exchanged_of_same rfl (fun _ => rfl) fun _ => rfl)
      (fun _ hg => .inl hg) nofun (.inr (.inr (hlocked rfl))) (.inl rfl)
  | hostReturned app =>
    refine hs.acquires h rfl rfl rfl (List.length_modify ..) rfl
      (exchanged_of_update rfl (fun _ hne => (hsame _ _ hne).symm) (fun _ _ => rfl)
        fun semaphore hsem => ?_) (fun _ hg => .inl hg) nofun (.inl rfl) (.inr fun _ hr => hr)
    simp [Semaphore.addPermit, Call.holdsApp, Acquire.holdsApp, Call.refersTo, Acquire.refersTo]
  | appReturned app =>
    refine hs.acquires h rfl rfl rfl (List.length_modify ..) rfl
      (exchanged_of_update rfl (fun _ _ => rfl) (fun _ hne => (hsame _ _ hne).symm)
        fun semaphore hsem => ?_) nofun nofun (.inl rfl) (.inr nofun)
    have hstrong := hs.strongCount_pos h (decide_eq_true rfl) hsem
    simp only [Semaphore.dropReference, Call.holdsApp, Acquire.holdsApp, Call.refersTo,
      Acquire.refersTo, decide_true, Bool.toNat_true, Bool.toNat_false, true_and]
    omega
  | refused | live app | dropped => exact hs

/-- What a step of `keepOnly` keeps that leaves the map alone: it holds nothing but the lock. -/
theorem prunes (hs : s.Consistent) {wanted : List AppId} {phase phase' : Prune}
    (h : s.calls[id]? = some (.keepOnly wanted phase)) {lock : Option CallId}
    (hlocked : (Call.keepOnly wanted phase').locks → lock = some id)
    (hothers : lock = s.locked ∨ s.locked = none ∨ s.locked = some id)
    (hremoving : ∀ (rest : List AppId) (appId : AppId) (app : SemaphoreId),
      phase' = .removing appId rest → s.apps[appId]? = some app →
      s.count (Call.refersTo app) = 0) :
    ({ s with locked := lock }.goTo id (.keepOnly wanted phase')).Consistent := by
  refine hs.moved h rfl rfl rfl rfl rfl (exchanged_of_same rfl (fun _ => rfl) fun _ => rfl)
    nofun hlocked hothers (.inr nofun) ?_
  rintro _ rest appId app ⟨⟩ ha
  exact hremoving rest appId app rfl ha

theorem stepPrune (hs : s.Consistent) {wanted : List AppId} {phase : Prune}
    (h : s.calls[id]? = some (.keepOnly wanted phase)) :
    (s.stepPrune id wanted phase).Consistent := by
  have hlocked := hs.locked id _ h
  cases phase with
  | entering =>
    rw [ConcurrencyLimiter.stepPrune]
    split_ifs with hheld
    · exact hs
    · exact hs.prunes h (fun _ => rfl) (.inr (.inl (by simpa using hheld))) nofun
  | visiting rest =>
    cases rest with
    | nil => exact hs.prunes h nofun (.inr (.inr (hlocked rfl))) nofun
    | cons appId rest =>
      rw [ConcurrencyLimiter.stepPrune]
      split_ifs with hkeep
      · exact hs.prunes h (fun _ => hlocked rfl) (.inl rfl) nofun
      · refine hs.prunes h (fun _ => hlocked rfl) (.inl rfl) ?_
        rintro _ _ app ⟨⟩ ha
        -- nothing but the map refers to it
        have hmade := hs.made appId app ha
        have hsem := List.getElem?_eq_getElem hmade
        have hc := hs.strongCount appId app _ ha hsem
        have hle : ¬ 1 < s.strongCount app := fun hlt => hkeep (by simp [ha, hlt])
        have heq : s.strongCount app = s.semaphores[app].strongCount := by
          simp [ConcurrencyLimiter.strongCount, hsem]
        omega
  | removing appId rest =>
    rw [ConcurrencyLimiter.stepPrune]
    split
    · rename_i app ha
      exact (hs.removed h ha).prunes h (fun _ => hlocked rfl) (.inl rfl) nofun
    · exact hs.prunes h (fun _ => hlocked rfl) (.inl rfl) nofun
  | done => exact hs


/-- A call that has not begun holds nothing. -/
theorem arrives (hs : s.Consistent) (hcall : (∃ appId, call = .acquire appId .entering) ∨
    ∃ wanted, call = .keepOnly wanted .entering) :
    { s with calls := s.calls ++ [call] }.Consistent := by
  have hidle : call.holdsHost = false ∧ (∀ app, call.holdsApp app = false) ∧
      (∀ app, call.goesBy app = false) ∧ call.locks = false := by
    rcases hcall with ⟨appId, rfl⟩ | ⟨wanted, rfl⟩ <;> exact ⟨rfl, fun _ => rfl, fun _ => rfl, rfl⟩
  obtain ⟨hhost, happ, hgoes, hlock⟩ := hidle
  have hrefers (app : SemaphoreId) : call.refersTo app = false := by
    by_contra hr
    exact absurd (goesBy_of_refersTo (by simpa using hr)) (by simp [hgoes app])
  have hcount (p : Call → Bool) (hp : p call = false) :
      { s with calls := s.calls ++ [call] }.count p = s.count p := by
    simp [count, hp]
  have hget (id : CallId) (other : Call) (h : (s.calls ++ [call])[id]? = some other) :
      s.calls[id]? = some other ∨ other = call := by
    rw [List.getElem?_append] at h
    split_ifs at h
    · exact .inl h
    · exact .inr (List.mem_singleton.mp (List.mem_of_getElem? h))
  refine ⟨?_, ?_, ?_, hs.made, hs.apart, ?_, ?_, ?_⟩
  · rw [hcount _ hhost]
    exact hs.host
  · intro app semaphore hsem
    rw [hcount _ (happ app)]
    exact hs.app app semaphore hsem
  · intro appId app semaphore ha hsem
    rw [hcount _ (hrefers app)]
    exact hs.strongCount appId app semaphore ha hsem
  · intro id appId phase app h hg
    rcases hget id _ h with h | rfl
    · exact hs.kept id appId phase app h hg
    · exact absurd hg (by simp [hgoes app])
  · intro id other h hl
    rcases hget id other h with h | rfl
    · exact hs.locked id other h hl
    · exact absurd hl (by simp [hlock])
  · intro id wanted rest appId app h ha
    rw [hcount _ (hrefers app)]
    rcases hget id _ h with h | rfl
    · exact hs.removing id wanted rest appId app h ha
    · cases hlock

theorem step (hs : s.Consistent) (m : Move) : (s.step m).Consistent := by
  cases m with
  | acquire appId => exact hs.arrives (.inl ⟨appId, rfl⟩)
  | keepOnly wanted => exact hs.arrives (.inr ⟨wanted, rfl⟩)
  | drop id =>
    rw [ConcurrencyLimiter.step, drop]
    split
    · rename_i appId app h
      exact hs.acquires h rfl rfl rfl rfl rfl (exchanged_of_same rfl (fun _ => rfl) fun _ => rfl)
        (fun _ hg => .inl hg) nofun (.inl rfl) (.inr fun _ hr => hr)
    · exact hs
  | advance id =>
    rw [ConcurrencyLimiter.step, advance]
    split
    · rename_i h
      exact hs.stepAcquire h
    · rename_i h
      exact hs.stepPrune h
    · exact hs

end Consistent

theorem consistent_new (limits : HttpConcurrency) : (new limits).Consistent where
  host := rfl
  app := nofun
  strongCount _ _ _ ha _ := by simp [new] at ha
  made _ _ ha := by simp [new] at ha
  apart _ _ _ ha _ := by simp [new] at ha
  kept := nofun
  locked := nofun
  removing := nofun

/-- What any interleaving of calls leads to is consistent. -/
theorem consistent_run (limits : HttpConcurrency) (moves : List Move) :
    (Run.run step (new limits) moves).Consistent :=
  Run.invariant (I := Consistent) (fun _ m hs => hs.step m) (consistent_new limits) moves

end ConcurrencyLimiter

end Concurrency

end Nibrunner

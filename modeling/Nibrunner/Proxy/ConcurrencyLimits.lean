import Mathlib.Data.Nat.Basic
import Nibrunner.Proxy.Concurrency

/-!
# The limits on concurrency

What the limiter is for: at every moment the permits that are open are no more than the host's
limit, and those of one app no more than an app's, also where the app was removed and added again
while requests of it were open.

* `limits_hold`: **the limits hold in every interleaving**, a call that fails leaves both counts as
  the other calls have them, and an app without permits gets as many again as its limit and what is
  left of the host's allow.
* `not_acquires_again`: its limit alone is not enough, since nothing keeps the limit of an app below
  the host's.
-/

namespace Nibrunner.Concurrency

open Std

/-- A permit a call has taken of both semaphores, returned or about to be. -/
def Call.isLive : Call → Bool
  | .acquire _ (.granted _) | .acquire _ (.live _) => true
  | _ => false

def Call.isFor (appId : AppId) : Call → Bool
  | .acquire appId' _ => appId' = appId
  | .keepOnly _ _ => false

/-- A permit of whichever semaphore the app has. -/
def Call.holdsOwn : Call → Bool
  | .acquire _ (.granted _) | .acquire _ (.live _) | .acquire _ (.hostReturned _) => true
  | _ => false

def Call.holdsFor (appId : AppId) (call : Call) : Bool := call.isFor appId && call.holdsOwn

namespace ConcurrencyLimiter

def livePermits (s : ConcurrencyLimiter) : ℕ := s.count Call.isLive

def livePermitsOf (s : ConcurrencyLimiter) (appId : AppId) : ℕ :=
  s.count fun call => call.isFor appId && call.isLive

/-- The permits an app has left, all of them where it has no semaphore yet. -/
def appPermits (s : ConcurrencyLimiter) (appId : AppId) : ℕ :=
  match s.apps[appId]? with
  | some app => s.permits app
  | none => s.limits.appConcurrent

/-- A call of `acquire` that takes its steps while no other call takes any. -/
def acquireAlone (s : ConcurrencyLimiter) (appId : AppId) : ConcurrencyLimiter :=
  Run.run step s (.acquire appId :: List.replicate 8 (.advance s.calls.length))

/-- Calls of `acquire`, one after the other. -/
def acquireTimes (s : ConcurrencyLimiter) (appId : AppId) : ℕ → ConcurrencyLimiter
  | 0 => s
  | n + 1 => (s.acquireAlone appId).acquireTimes appId n

variable {s : ConcurrencyLimiter} {appId : AppId}

/-! ### The limits -/

theorem count_mono {p q : Call → Bool} (h : ∀ call ∈ s.calls, p call → q call) :
    s.count p ≤ s.count q := List.countP_mono_left h

theorem livePermits_le (hs : s.Consistent) : s.livePermits ≤ s.limits.hostConcurrent := by
  have hle : s.livePermits ≤ s.count Call.holdsHost := by
    refine count_mono fun call _ hlive => ?_
    match call, hlive with
    | .acquire _ (.granted _), _ | .acquire _ (.live _), _ => rfl
  have hh := hs.host
  omega

theorem holdsOwn_iff {call : Call} : call.holdsOwn ↔ ∃ app, call.holdsApp app := by
  constructor
  · intro h
    match call, h with
    | .acquire _ (.granted app), _ | .acquire _ (.live app), _
    | .acquire _ (.hostReturned app), _ => exact ⟨app, decide_eq_true rfl⟩
  · rintro ⟨app, h⟩
    match call, h with
    | .acquire _ (.granted _), _ | .acquire _ (.live _), _ | .acquire _ (.hostReturned _), _ => rfl

/-- What holds a permit for an app holds it of the semaphore the map has for the app. -/
theorem exists_app_of_holdsFor (hs : s.Consistent) {call : Call} (hc : call ∈ s.calls)
    (h : call.holdsFor appId) : ∃ app, s.apps[appId]? = some app ∧ call.holdsApp app := by
  obtain ⟨hfor, hown⟩ := Bool.and_eq_true_iff.mp h
  obtain ⟨app, happ⟩ := holdsOwn_iff.mp hown
  obtain ⟨id, hid⟩ := List.getElem?_of_mem hc
  cases call with
  | keepOnly wanted phase => cases hfor
  | acquire appId' phase =>
    obtain rfl : appId' = appId := of_decide_eq_true hfor
    exact ⟨app, hs.kept id appId' phase app hid (goesBy_of_refersTo (refersTo_of_holdsApp happ)),
      happ⟩

/-- **The permits of an app**: those left and those held are as many as the limit, whichever
semaphores it had before. -/
theorem appPermits_add_count (hs : s.Consistent) (appId : AppId) :
    s.appPermits appId + s.count (Call.holdsFor appId) = s.limits.appConcurrent := by
  rw [appPermits]
  split
  · rename_i app ha
    have hmade := hs.made appId app ha
    have hsem := List.getElem?_eq_getElem hmade
    have hperm : s.permits app = s.semaphores[app].permits := by
      simp [permits, hsem]
    have hcount : s.count (Call.holdsFor appId) = s.count (Call.holdsApp app) := by
      refine List.countP_congr fun call hc => ⟨fun hfor => ?_, fun happ => ?_⟩
      · obtain ⟨app', ha', happ⟩ := exists_app_of_holdsFor hs hc hfor
        cases Option.some.inj (ha.symm.trans ha')
        exact happ
      · obtain ⟨id, hid⟩ := List.getElem?_of_mem hc
        cases call with
        | keepOnly wanted phase => cases happ
        | acquire appId' phase =>
          have hk := hs.kept id appId' phase app hid
            (goesBy_of_refersTo (refersTo_of_holdsApp happ))
          exact Bool.and_eq_true_iff.mpr
            ⟨decide_eq_true (hs.apart appId' appId app hk ha), holdsOwn_iff.mpr ⟨app, happ⟩⟩
    rw [hperm, hcount]
    exact hs.app app _ hsem
  · rename_i hn
    have hzero : s.count (Call.holdsFor appId) = 0 := by
      refine List.countP_eq_zero.mpr fun call hc hfor => ?_
      obtain ⟨app, ha, -⟩ := exists_app_of_holdsFor hs hc hfor
      cases hn.symm.trans ha
    omega

theorem holdsFor_of_live {call : Call} (h : call.isFor appId && call.isLive) :
    call.holdsFor appId := by
  obtain ⟨hfor, hlive⟩ := Bool.and_eq_true_iff.mp h
  refine Bool.and_eq_true_iff.mpr ⟨hfor, ?_⟩
  match call, hlive with
  | .acquire _ (.granted _), _ | .acquire _ (.live _), _ => rfl

theorem livePermitsOf_le (hs : s.Consistent) (appId : AppId) :
    s.livePermitsOf appId ≤ s.limits.appConcurrent := by
  have hle : s.livePermitsOf appId ≤ s.count (Call.holdsFor appId) :=
    count_mono fun _ _ => holdsFor_of_live
  have ha := appPermits_add_count hs appId
  omega

/-! ### A call that fails -/

/-- What is left of both counts is the limit less what the other calls hold. -/
def LeavesCounts (s : ConcurrencyLimiter) (id : CallId) : Prop :=
  s.host + (s.calls.eraseIdx id).countP Call.holdsHost = s.limits.hostConcurrent ∧
    ∀ appId, s.appPermits appId + (s.calls.eraseIdx id).countP (Call.holdsFor appId) =
      s.limits.appConcurrent

theorem countP_eraseIdx {p : Call → Bool} {calls : List Call} {id : CallId} {call : Call}
    (h : calls[id]? = some call) (hp : p call = false) :
    (calls.eraseIdx id).countP p = calls.countP p := by
  induction calls generalizing id with
  | nil => rfl
  | cons first calls ih =>
    cases id with
    | zero =>
      obtain rfl : first = call := Option.some.inj h
      rw [List.eraseIdx_cons_zero, List.countP_cons_of_neg (by simp [hp])]
    | succ id => rw [List.eraseIdx_cons_succ, List.countP_cons, List.countP_cons, ih h]

theorem leavesCounts (hs : s.Consistent) {id : CallId}
    (h : s.calls[id]? = some (.acquire appId .refused)) : s.LeavesCounts id := by
  constructor
  · rw [countP_eraseIdx h rfl]
    exact hs.host
  · intro other
    rw [countP_eraseIdx h (Bool.and_false _)]
    exact appPermits_add_count hs other

/-! ### A call on its own -/

@[simp] theorem limits_step (m : Move) : (s.step m).limits = s.limits := by
  cases m with
  | acquire appId => rfl
  | keepOnly wanted => rfl
  | drop id =>
    rw [step, drop]
    split <;> rfl
  | advance id =>
    rw [step, advance]
    split
    · rename_i appId phase _
      cases phase <;> simp only [stepAcquire] <;> (try split) <;> rfl
    · rename_i wanted phase _
      cases phase with
      | entering =>
        rw [stepPrune]
        split <;> rfl
      | visiting rest =>
        cases rest with
        | nil => rfl
        | cons appId rest =>
          rw [stepPrune]
          split <;> rfl
      | removing appId rest =>
        rw [stepPrune]
        split <;> rfl
      | done => rfl
    · rfl

theorem limits_run (moves : List Move) : (Run.run step s moves).limits = s.limits :=
  Run.invariant (I := fun t : ConcurrencyLimiter => t.limits = s.limits)
    (fun _ m h => (limits_step m).trans h) rfl moves

theorem Consistent.run (hs : s.Consistent) (moves : List Move) :
    (Run.run ConcurrencyLimiter.step s moves).Consistent :=
  Run.invariant (I := Consistent) (fun _ m h => h.step m) hs moves

theorem Consistent.acquireAlone (hs : s.Consistent) (appId : AppId) :
    (s.acquireAlone appId).Consistent := hs.run _

/-- What a call on its own ends with: a permit where both semaphores have one, else nothing. -/
theorem acquireAlone_cases (hs : s.Consistent) (hl : s.locked = none) (appId : AppId) :
    (s.acquireAlone appId).locked = none ∧
      ((0 < s.host ∧ 0 < s.appPermits appId ∧ ∃ app,
          (s.acquireAlone appId).calls = s.calls ++ [.acquire appId (.live app)]) ∨
        (¬ (0 < s.host ∧ 0 < s.appPermits appId) ∧
          (s.acquireAlone appId).calls = s.calls ++ [.acquire appId .refused])) := by
  by_cases hh : 0 < s.host
  · cases ha : s.apps[appId]? with
    | some app =>
      have hlt := hs.made appId app ha
      have hperm : s.appPermits appId = s.semaphores[app].permits := by
        simp [appPermits, ha, permits, List.getElem?_eq_getElem hlt]
      rcases Nat.eq_zero_or_pos s.semaphores[app].permits with hp | hp
      · simp [acquireAlone, step, advance, stepAcquire, goTo, update, permits, Semaphore.clone,
          List.replicate, hh, hl, ha, hlt, hp, hperm]
      · simp [acquireAlone, step, advance, stepAcquire, goTo, update, permits, Semaphore.clone,
          List.replicate, hh, hl, ha, hlt, hp, hperm]
    | none =>
      have hperm : s.appPermits appId = s.limits.appConcurrent := by simp [appPermits, ha]
      rcases Nat.eq_zero_or_pos s.limits.appConcurrent with hp | hp
      · simp [acquireAlone, step, advance, stepAcquire, goTo, update, permits, Semaphore.clone,
          Semaphore.new, List.replicate, hh, hl, ha, hp, hperm]
      · simp [acquireAlone, step, advance, stepAcquire, goTo, update, permits, Semaphore.clone,
          Semaphore.new, List.replicate, hh, hl, ha, hp, hperm]
  · simp [acquireAlone, step, advance, stepAcquire, goTo, List.replicate, hh, hl]

/-- What is left of both counts after a call on its own that got its permit, or failed. -/
theorem acquireAlone_counts (hs : s.Consistent) (hl : s.locked = none) (appId : AppId) :
    (0 < s.host ∧ 0 < s.appPermits appId ∧ (s.acquireAlone appId).host + 1 = s.host ∧
        (s.acquireAlone appId).appPermits appId + 1 = s.appPermits appId ∧
        (s.acquireAlone appId).livePermitsOf appId = s.livePermitsOf appId + 1) ∨
      (¬ (0 < s.host ∧ 0 < s.appPermits appId) ∧ (s.acquireAlone appId).host = s.host ∧
        (∀ other, (s.acquireAlone appId).appPermits other = s.appPermits other) ∧
        (s.acquireAlone appId).livePermitsOf appId = s.livePermitsOf appId) := by
  have hs' := hs.acquireAlone appId
  have hlim : (s.acquireAlone appId).limits = s.limits := limits_run _
  have hhost := hs.host
  have hhost' := hs'.host
  rw [hlim] at hhost'
  have happ' (other : AppId) := hlim ▸ appPermits_add_count hs' other
  have hcount {call : Call} (p : Call → Bool)
      (hc : (s.acquireAlone appId).calls = s.calls ++ [call]) :
      (s.acquireAlone appId).count p = s.count p + (p call).toNat := by
    cases hp : p call <;> simp [count, hc, hp]
  obtain ⟨-, ⟨hpos, hposApp, app, hc⟩ | ⟨hnot, hc⟩⟩ := acquireAlone_cases hs hl appId
  · refine .inl ⟨hpos, hposApp, ?_, ?_, ?_⟩
    · have hh : (s.acquireAlone appId).count Call.holdsHost = s.count Call.holdsHost + 1 :=
        hcount _ hc
      omega
    · have hh := hcount (Call.holdsFor appId) hc
      have ha := appPermits_add_count hs appId
      have ha' := happ' appId
      simp only [Call.holdsFor, Call.isFor, Call.holdsOwn, decide_true, Bool.and_self,
        Bool.toNat_true] at hh
      omega
    · rw [livePermitsOf, hcount _ hc]
      simp [Call.isFor, Call.isLive, livePermitsOf]
  · have hzero (other : AppId) : Call.holdsFor other (.acquire appId .refused) = false :=
      Bool.and_false _
    refine .inr ⟨hnot, ?_, fun other => ?_, ?_⟩
    · have hh : (s.acquireAlone appId).count Call.holdsHost = s.count Call.holdsHost :=
        hcount _ hc
      omega
    · have hh : (s.acquireAlone appId).count (Call.holdsFor other) =
          s.count (Call.holdsFor other) := by
        rw [hcount _ hc, hzero, Bool.toNat_false, Nat.add_zero]
      have ha := appPermits_add_count hs other
      have ha' := happ' other
      omega
    · rw [livePermitsOf, hcount _ hc, Call.isLive, Bool.and_false, Bool.toNat_false, Nat.add_zero,
        livePermitsOf]
      all_goals simp

/-- Calls one after the other get what both semaphores have left. -/
theorem livePermitsOf_acquireTimes (hs : s.Consistent) (hl : s.locked = none) (appId : AppId)
    (n : ℕ) : (s.acquireTimes appId n).livePermitsOf appId =
      s.livePermitsOf appId + min n (min s.host (s.appPermits appId)) := by
  induction n generalizing s with
  | zero => simp [acquireTimes]
  | succ n ih =>
    rw [acquireTimes, ih (hs.acquireAlone appId) (acquireAlone_cases hs hl appId).1]
    obtain ⟨hpos, hposApp, hhost, happ, hlive⟩ | ⟨hnot, hhost, happ, hlive⟩ :=
      acquireAlone_counts hs hl appId
    · omega
    · rw [happ appId]
      omega

/-! ### Every interleaving -/

/-- **The limits hold at every moment**, also for an app that was removed while its requests were
open: its permits are counted whichever semaphore they are of. A call that failed leaves of both
counts what the other calls leave; on its own it leaves them as they were. Once an app holds no
permit, calls one after the other get `appConcurrent` permits again, or as many as the host has
left. -/
theorem limits_hold (limits : HttpConcurrency) (moves : List Move) :
    let s := Run.run step (new limits) moves
    s.livePermits ≤ limits.hostConcurrent ∧
      (∀ appId, s.livePermitsOf appId ≤ limits.appConcurrent) ∧
      (∀ (id : CallId) (appId : AppId), s.calls[id]? = some (.acquire appId .refused) →
        s.LeavesCounts id) ∧
      (s.locked = none → ∀ appId : AppId,
        (s.acquireAlone appId).calls[s.calls.length]? = some (.acquire appId .refused) →
        (s.acquireAlone appId).host = s.host ∧
          ∀ other, (s.acquireAlone appId).appPermits other = s.appPermits other) ∧
      (s.locked = none → ∀ appId : AppId, (∀ call ∈ s.calls, ¬ call.holdsFor appId) →
        ∀ n : ℕ, (s.acquireTimes appId n).livePermitsOf appId =
          min n (min s.host limits.appConcurrent)) := by
  intro s
  have hs : s.Consistent := consistent_run limits moves
  have hlim : s.limits = limits := limits_run moves
  refine ⟨hlim ▸ livePermits_le hs, fun appId => hlim ▸ livePermitsOf_le hs appId,
    fun id appId h => leavesCounts hs h, fun hl appId href => ?_, fun hl appId hnone n => ?_⟩
  · obtain ⟨hpos, hposApp, -⟩ | ⟨-, hhost, happ, -⟩ := acquireAlone_counts hs hl appId
    · obtain ⟨-, ⟨-, -, app, hc⟩ | ⟨hnot, -⟩⟩ := acquireAlone_cases hs hl appId
      · rw [hc, List.getElem?_concat_length] at href
        cases href
      · exact absurd ⟨hpos, hposApp⟩ hnot
    · exact ⟨hhost, happ⟩
  · have hzero : s.count (Call.holdsFor appId) = 0 := List.countP_eq_zero.mpr hnone
    have ha := appPermits_add_count hs appId
    have hlive : s.livePermitsOf appId = 0 :=
      List.countP_eq_zero.mpr fun call hc hlive => hnone call hc (holdsFor_of_live hlive)
    rw [livePermitsOf_acquireTimes hs hl, hlive, ← hlim]
    omega

/-! ### Two apps of a small host -/

private def one : AppId := ⟨"app-one"⟩

/-- A request that ends: its permit is dropped. -/
private def ends (id : CallId) : List Move := .drop id :: List.replicate 2 (.advance id)

private def opens (id : CallId) (appId : AppId) : List Move :=
  .acquire appId :: List.replicate 6 (.advance id)

/-- A pass of the routes that no longer names an app. -/
private def prunes (id : CallId) : List Move := .keepOnly [] :: List.replicate 4 (.advance id)

/-- The app is removed with its request open and added again: it gets its one permit back when the
request ends, and no other. -/
theorem limits_hold_removed :
    let s := Run.run step (new ⟨3, 1⟩) (opens 0 one ++ prunes 1 ++ ends 0)
    s.apps.contains one ∧ (s.acquireTimes one 5).livePermitsOf one = 1 :=
  ⟨by decide +kernel, (limits_hold ⟨3, 1⟩ _).2.2.2.2 (by decide +kernel) one (by decide +kernel) 5⟩

/-- Once its permits are dropped an app cannot always acquire `appConcurrent` again: the host may
have fewer. -/
theorem not_acquires_again : ¬ ∀ (limits : HttpConcurrency) (moves : List Move) (appId : AppId),
    let s := Run.run step (new limits) moves
    s.locked = none → (∀ call ∈ s.calls, ¬ call.holdsFor appId) →
      (s.acquireTimes appId limits.appConcurrent).livePermitsOf appId = limits.appConcurrent := by
  intro h
  have htwo := h ⟨1, 2⟩ (opens 0 one ++ ends 0) one (by decide +kernel) (by decide +kernel)
  exact absurd htwo (by decide +kernel)

end ConcurrencyLimiter

end Nibrunner.Concurrency

import Mathlib.Data.List.Nodup
import Mathlib.Order.Basic
import Nibrunner.Guest.Supervisor

/-!
# What the supervisor of a guest does and does not do

However its children exit and the host signals, at most one program of the tenant runs, and none any
more when the supervisor ends; a signal of the host is not lost, and the supervisor takes it in a
bounded number of its own steps; and the restarts it announces count up from one to its budget, each
to be followed by the next only if the tenant did not stay up, until it gives up.
-/

namespace Nibrunner.Supervisor

open InstanceEnv GuestLogs

/-! ### The stages -/

/-- The tenant that may still have to be waited for. -/
def Stage.tenant : Stage → Option ℕ
  | .beginning tenant _ => some tenant
  | .waiting watching | .looking watching | .sampling watching | .killing watching _ =>
    some watching.tenant
  | .reaping watching none => some watching.tenant
  | .terminating tenant | .stopping tenant _ | .killingTenant tenant | .awaiting tenant =>
    some tenant
  | .stopReaping tenant _ none => some tenant
  | _ => none

/-- The supervisor heeds the host. -/
def Stage.stops : Stage → Bool
  | .terminating _ | .stopping _ _ | .stopReaping _ _ _ | .killingTenant _ | .awaiting _ => true
  | .ended outcome => outcome = .shutdownRequested
  | _ => false

def Stage.hasEnded : Stage → Bool
  | .ended _ => true
  | _ => false

/-- How many steps the supervisor takes at most before it heeds a signal that waits. -/
def Stage.rank (children : ℕ) : Stage → ℕ
  | .starting => 7
  | .spawning _ => 6
  | .beginning _ _ => 5
  | .reaping _ _ => children + 5
  | .sampling _ => 4
  | .killing _ _ => 3
  | .waiting _ | .attributing _ _ => 2
  | .looking _ | .backingOff _ _ => 1
  | .terminating _ | .stopping _ _ | .stopReaping _ _ _ | .killingTenant _ | .awaiting _
  | .ended _ => 0

/-! ### Counting restarts -/

/-- The last restarts, as many as are spent, are numbered one after another, and no tenant stayed up
between them. -/
def Streak (config : InstanceConfig) (spent : ℕ) (restarts : List Announced) : Prop :=
  ∃ older streak, restarts = older ++ streak ∧
    streak.map (fun a => a.restart.attempt.toNat) = List.range' 1 spent ∧
      ∀ a ∈ streak.tail, a.uptimeMs < config.resetAfterMs

/-- A restart is one of those in the budget. -/
def Announced.Counted (config : InstanceConfig) (a : Announced) : Prop :=
  1 ≤ a.restart.attempt.toNat ∧ a.restart.attempt.toNat ≤ config.maxRestarts ∧
    a.restart.budget.toNat = config.maxRestarts

variable {f : Floats} {config : InstanceConfig}

theorem Streak.reset {restarts : List Announced} (a : Announced)
    (ha : a.restart.attempt.toNat = 1) : Streak config 1 (restarts ++ [a]) :=
  ⟨restarts, [a], rfl, by simp [ha], fun _ h => absurd h List.not_mem_nil⟩

theorem Streak.next {spent : ℕ} {restarts : List Announced} (h : Streak config spent restarts)
    {a : Announced} (ha : a.restart.attempt.toNat = spent + 1)
    (huptime : a.uptimeMs < config.resetAfterMs) : Streak config (spent + 1) (restarts ++ [a]) := by
  obtain ⟨older, streak, rfl, hattempts, htail⟩ := h
  refine ⟨older, streak ++ [a], List.append_assoc _ _ _, ?_, fun b hb => ?_⟩
  · rw [List.map_append, hattempts, List.map_singleton, ha, List.range'_concat, Nat.one_mul,
      Nat.add_comm 1]
  · rcases streak with _ | ⟨first, streak⟩
    · exact absurd hb List.not_mem_nil
    · obtain hb | hb := List.mem_append.mp hb
      · exact htail b hb
      · rw [List.mem_singleton.mp hb]
        exact huptime

/-- What the supervisor has announced, and what is spent of the budget. -/
structure Counted (config : InstanceConfig) (spent : ℕ) (restarts : List Announced) : Prop where
  spent_le : spent ≤ config.maxRestarts
  streak : Streak config spent restarts
  each : ∀ a ∈ restarts, a.Counted config

/-- A tenant exited: the next restart is announced, or there is none left, because no tenant stayed
up since the last one that counts. -/
theorem Counted.exited {budget : Budget} {restarts : List Announced}
    (h : Counted config budget.spent restarts) (hmax : config.maxRestarts < 2 ^ 32)
    {uptimeMs : ℕ} {exit : TenantExit} {because : String} {restart : Option TenantRestart}
    {budget' : Budget}
    (heq : budget.exited f config uptimeMs exit because = (restart, budget')) :
    match restart with
    | none =>
      Counted config budget'.spent restarts ∧ config.maxRestarts ≤ budget'.spent ∧
        (config.maxRestarts = 0 ∨ uptimeMs < config.resetAfterMs)
    | some restart => Counted config budget'.spent (restarts ++ [⟨restart, uptimeMs⟩]) := by
  have hearned : budget.earned config uptimeMs =
      if config.resetAfterMs ≤ uptimeMs then 0 else budget.spent := by
    simp [Budget.earned, budgetResets]
  have hle : budget.earned config uptimeMs ≤ budget.spent := by
    rw [hearned]
    split
    · exact Nat.zero_le _
    · exact le_rfl
  have hmost := h.spent_le
  rw [Budget.exited] at heq
  split at heq
  · rename_i hspent
    obtain ⟨rfl, rfl⟩ := Prod.mk.inj heq
    have hall : budget.earned config uptimeMs = budget.spent := by omega
    refine ⟨by rw [hall]; exact h, hspent, ?_⟩
    rw [hearned] at hall hspent
    split at hall
    · omega
    · omega
  · rename_i hspent
    obtain ⟨rfl, rfl⟩ := Prod.mk.inj heq
    have hattempt : (UInt32.ofNat (budget.earned config uptimeMs + 1)).toNat =
        budget.earned config uptimeMs + 1 :=
      UInt32.toNat_ofNat_of_lt' (by rw [UInt32.size]; omega)
    refine ⟨by simp only; omega, ?_, fun a ha => ?_⟩
    · rw [hearned] at hattempt ⊢
      split
      · rename_i hup
        rw [if_pos hup] at hattempt
        exact Streak.reset _ rfl
      · rename_i hup
        rw [if_neg hup] at hattempt
        exact h.streak.next (by simpa [hearned, hup] using hattempt) (Nat.lt_of_not_le hup)
    · obtain ha | ha := List.mem_append.mp ha
      · exact h.each a ha
      · rw [List.mem_singleton.mp ha, Announced.Counted, hattempt]
        exact ⟨Nat.le_add_left _ _, by omega,
          UInt32.toNat_ofNat_of_lt' (by rw [UInt32.size]; omega)⟩

/-! ### Processes -/

structure Guest.Sound (config : InstanceConfig) (s : Guest) : Prop where
  pids : (s.children.map Child.pid).Nodup
  tenants : ∀ c ∈ s.children, c.tenant = true → s.stage.tenant = some c.pid
  asked : s.asked = true → s.termination = true ∨ s.stage.stops = true ∨ s.stage.hasEnded = true
  signalled : s.termination = true → s.asked = true
  stops : s.stage.stops = true → s.asked = true
  counted : Counted config s.budget.spent s.restarts
  givenUp : s.stage = .ended .restartBudgetExhausted →
    config.maxRestarts ≤ s.budget.spent ∧
      (config.maxRestarts = 0 ∨ s.lastUptimeMs < config.resetAfterMs)

namespace Guest

variable {s : Guest} {limitBytes : ℕ} {reply : Reply}

theorem Sound.tenantsAt (h : s.Sound config) {stage : Stage} (hs : s.stage = stage) :
    ∀ c ∈ s.children, c.tenant = true → stage.tenant = some c.pid :=
  hs ▸ h.tenants

theorem Sound.goTo (h : s.Sound config) {stage : Stage}
    (htenants : ∀ c ∈ s.children, c.tenant = true → stage.tenant = some c.pid)
    (hasked : s.asked = true → s.termination = true ∨ stage.stops = true ∨ stage.hasEnded = true)
    (hstops : stage.stops = true → s.asked = true)
    (hgiven : stage ≠ .ended .restartBudgetExhausted) : (s.goTo stage).Sound config where
  pids := h.pids
  tenants := htenants
  asked := hasked
  signalled := h.signalled
  stops := hstops
  counted := h.counted
  givenUp hs := absurd hs hgiven

/-- While the supervisor watches, or tries, what it was asked for waits. -/
theorem Sound.waits (h : s.Sound config) (hold : (s.stage.stops || s.stage.hasEnded) = false)
    (ha : s.asked = true) : s.termination = true := by
  rw [Bool.or_eq_false_iff] at hold
  obtain ht | hs | he := h.asked ha
  · exact ht
  · exact absurd (hold.1.symm.trans hs) Bool.false_ne_true
  · exact absurd (hold.2.symm.trans he) Bool.false_ne_true

/-- The supervisor goes on watching, or trying. -/
theorem Sound.goOn (h : s.Sound config) {stage : Stage}
    (htenants : ∀ c ∈ s.children, c.tenant = true → stage.tenant = some c.pid)
    (hold : (s.stage.stops || s.stage.hasEnded) = false)
    (hnew : (stage.stops || stage.hasEnded) = false) : (s.goTo stage).Sound config := by
  rw [Bool.or_eq_false_iff] at hnew
  refine h.goTo htenants (fun ha => .inl (h.waits hold ha)) (fun hs => ?_) ?_
  · exact absurd (hnew.1.symm.trans hs) Bool.false_ne_true
  · rintro rfl
    exact absurd hnew.2 (by decide)

/-- The supervisor goes on stopping. -/
theorem Sound.goOff (h : s.Sound config) {stage : Stage}
    (htenants : ∀ c ∈ s.children, c.tenant = true → stage.tenant = some c.pid)
    (hold : s.stage.stops = true) (hnew : stage.stops = true) : (s.goTo stage).Sound config := by
  refine h.goTo htenants (fun _ => .inr (.inl hnew)) (fun _ => h.stops hold) ?_
  rintro rfl
  exact absurd hnew (by decide)

theorem Sound.reap (h : s.Sound config) (pid : ℕ) : (s.reap pid).Sound config :=
  { h with
    pids := h.pids.sublist (List.filter_sublist.map _)
    tenants := fun c hc ht => h.tenants c (List.mem_filter.mp hc).1 ht }

theorem used_eq_false {pid : ℕ} (h : s.used pid = false) :
    pid ∉ s.children.map Child.pid := by
  rw [used, List.any_eq_false] at h
  intro hmem
  obtain ⟨c, hc, rfl⟩ := List.mem_map.mp hmem
  exact h c hc (decide_eq_true rfl)

theorem child_pids (h : s.Sound config) {pid : ℕ} (hpid : s.used pid = false) (tenant : Bool) :
    ((s.child pid tenant).children.map Child.pid).Nodup := by
  rw [show (s.child pid tenant).children = s.children ++ [⟨pid, tenant, none⟩] from rfl,
    List.map_append]
  exact h.pids.append (List.nodup_singleton _)
    (List.disjoint_singleton.mpr (used_eq_false hpid))

/-! ### Steps of the supervisor -/

/-- A tenant is started only while there is none. -/
theorem spawn_sound (h : s.Sound config) {started : ℕ} (hs : s.stage = .spawning started) :
    (s.spawn reply started).Sound config := by
  have hnone (c : Child) (hc : c ∈ s.children) (ht : c.tenant = true) : False := by
    have := h.tenantsAt hs c hc ht
    contradiction
  have hfail : (s.goTo (.ended .spawnFailed)).Sound config :=
    h.goTo (fun c hc ht => (hnone c hc ht).elim) (fun _ => .inr (.inr rfl))
      (fun hstops => by contradiction) (by simp)
  rw [spawn]
  split
  · exact hfail
  rename_i pid hpid
  split
  · exact hfail
  rename_i hused
  refine ⟨child_pids h (Bool.eq_false_of_not_eq_true hused) true, fun c hc ht => ?_,
    fun ha => .inl (h.waits (by rw [hs]; rfl) ha), h.signalled,
    fun hstops => by contradiction, h.counted, fun hgiven => by contradiction⟩
  obtain hc | hc := List.mem_append.mp hc
  · exact (hnone c hc ht).elim
  · rw [List.mem_singleton.mp hc]
    rfl

/-- A signal that is taken has the supervisor stop. -/
theorem take_sound (h : s.Sound config) {stage : Stage}
    (htenants : ∀ c ∈ s.children, c.tenant = true → stage.tenant = some c.pid)
    (ht : s.termination = true) (hstage : stage.stops = true) :
    ({ s with termination := false }.goTo stage : Guest).Sound config where
  pids := h.pids
  tenants := htenants
  asked _ := .inr (.inl hstage)
  signalled ht := by contradiction
  stops _ := h.signalled ht
  counted := h.counted
  givenUp hs := by
    rw [show stage = _ from hs] at hstage
    contradiction

theorem look_sound (h : s.Sound config) {watching : Watching} (hs : s.stage = .looking watching) :
    (s.look watching).Sound config := by
  have htenants := h.tenantsAt hs
  rw [look]
  split
  · rename_i ht
    exact take_sound h htenants ht rfl
  · have hdied : ({ s with childDied := false } : Guest).Sound config := { h with }
    exact hdied.goOn htenants (by rw [show Guest.stage _ = _ from hs]; rfl) rfl

/-- Where the supervisor waits for children, the tenant may be among them until it is found. -/
theorem reapUntil_sound (h : s.Sound config) {tenant : ℕ} {found : Option TenantExit}
    {again done : Option TenantExit → Stage} (hs : s.stage = again found)
    (hagain : ∀ found, (again found).tenant = if found.isSome then none else some tenant)
    (hdone : ∀ found, (done found).tenant = (again found).tenant)
    (hgo : ∀ stage, (∃ found, stage = again found ∨ stage = done found) → ∀ s' : Guest,
      s'.Sound config → s'.stage = s.stage →
        (∀ c ∈ s'.children, c.tenant = true → stage.tenant = some c.pid) →
          (s'.goTo stage).Sound config) :
    (s.reapUntil tenant found again done).Sound config := by
  have htenants := h.tenantsAt hs
  rw [hagain] at htenants
  rw [reapUntil]
  split
  · rename_i c hc
    split
    · refine hgo _ ⟨_, .inl rfl⟩ _ (h.reap c.pid) rfl fun c' hc' ht => ?_
      obtain ⟨hmem', hne⟩ := List.mem_filter.mp hc'
      have hnone : found.isSome = false ∧ tenant = c'.pid := by simpa using htenants c' hmem' ht
      have hother : c.pid ≠ tenant := by
        rw [hnone.2]
        exact (of_decide_eq_true hne).symm
      rw [hagain, if_neg hother, hnone.1, hnone.2]
      rfl
    · refine hgo _ ⟨_, .inr rfl⟩ _ (h.reap c.pid) rfl fun c' hc' ht => ?_
      rw [hdone, hagain]
      exact htenants c' (List.mem_filter.mp hc').1 ht
  · refine hgo _ ⟨_, .inr rfl⟩ _ h rfl fun c hc ht => ?_
    rw [hdone, hagain]
    exact htenants c hc ht

theorem reaping_sound (h : s.Sound config) {watching : Watching} {found : Option TenantExit}
    (hs : s.stage = .reaping watching found) :
    (s.proceed f config limitBytes reply).Sound config := by
  rw [proceed, hs]
  refine reapUntil_sound h hs (fun found => ?_) (fun found => ?_)
    fun stage hstage s' h' hs' ht => ?_
  · rcases found with _ | _ <;> rfl
  · rcases found with _ | _ <;> rfl
  · refine h'.goOn ht (by rw [hs', hs]; rfl) ?_
    obtain ⟨found, rfl | rfl⟩ := hstage
    · rfl
    · rcases found with _ | _ <;> rfl

theorem stopReaping_sound (h : s.Sound config) {tenant deadline : ℕ} {found : Option TenantExit}
    (hs : s.stage = .stopReaping tenant deadline found) :
    (s.proceed f config limitBytes reply).Sound config := by
  rw [proceed, hs]
  refine reapUntil_sound h hs (fun found => ?_) (fun found => ?_)
    fun stage hstage s' h' hs' ht => ?_
  · rcases found with _ | _ <;> rfl
  · rcases found with _ | _ <;> rfl
  · refine h'.goOff ht (by rw [hs', hs]; rfl) ?_
    obtain ⟨found, rfl | rfl⟩ := hstage
    · rfl
    · rcases found with _ | _ <;> rfl

/-- The tenant has exited and been waited for. -/
theorem exited_sound (hmax : config.maxRestarts < 2 ^ 32) (h : s.Sound config)
    {watching : Watching} {exit : TenantExit} (hs : s.stage = .attributing watching exit) :
    (s.exited f config limitBytes reply watching exit).Sound config := by
  have htenants := h.tenantsAt hs
  have hasked := h.waits (by rw [hs]; rfl)
  rw [exited]
  split
  · rename_i budget heq
    obtain ⟨hcounted, hgiven⟩ := h.counted.exited hmax heq
    exact ⟨h.pids, htenants, fun ha => .inl (hasked ha), h.signalled,
      fun hstops => by contradiction, hcounted, fun _ => hgiven⟩
  · rename_i restart budget heq
    exact ⟨h.pids, htenants, fun ha => .inl (hasked ha), h.signalled,
      fun hstops => by contradiction, h.counted.exited hmax heq, fun hgiven => by contradiction⟩

theorem sample_sound (h : s.Sound config) {watching : Watching}
    (hs : s.stage = .sampling watching) : (s.sample f limitBytes reply watching).Sound config := by
  have htenants := h.tenantsAt hs
  have hold : (s.stage.stops || s.stage.hasEnded) = false := by
    rw [hs]
    rfl
  rw [sample]
  split
  · exact h.goOn htenants hold rfl
  · split
    · exact h.goOn htenants hold rfl
    · dsimp only
      split
      · exact h.goOn htenants hold rfl
      · exact h.goOn htenants hold rfl

theorem kill_sound (h : s.Sound config) {watching : Watching} {because : String}
    (hs : s.stage = .killing watching because) : (s.kill reply watching because).Sound config := by
  refine h.goOn (fun c hc ht => ?_) (by rw [hs]; rfl) rfl
  have htenant := h.tenantsAt hs c hc ht
  split
  · exact htenant
  · exact htenant

theorem backOff_sound (h : s.Sound config) {backoffMs since : ℕ}
    (hs : s.stage = .backingOff backoffMs since) : (s.backOff backoffMs since).Sound config := by
  have htenants := h.tenantsAt hs
  have hold : (s.stage.stops || s.stage.hasEnded) = false := by
    rw [hs]
    rfl
  rw [backOff]
  split
  · rename_i ht
    exact take_sound h htenants ht rfl
  · split
    · have hdied : ({ s with childDied := false } : Guest).Sound config := { h with }
      exact hdied.goOn htenants hold rfl
    · split
      · exact h.goOn htenants hold rfl
      · exact h

theorem stop_sound (h : s.Sound config) {tenant deadline : ℕ}
    (hs : s.stage = .stopping tenant deadline) : (s.stop tenant deadline).Sound config := by
  have htenants := h.tenantsAt hs
  have hold : s.stage.stops = true := by
    rw [hs]
    rfl
  rw [stop]
  split
  · exact h.goOff htenants hold rfl
  · exact h.goOff htenants hold rfl

/-- The supervisor ends once it has waited for the tenant. -/
theorem await_sound (h : s.Sound config) {tenant : ℕ} (hs : s.stage = .awaiting tenant) :
    (s.await tenant).Sound config := by
  have htenants := h.tenantsAt hs
  have hold : s.stage.stops = true := by
    rw [hs]
    rfl
  rw [await]
  split
  · split
    · refine (h.reap tenant).goOff (fun c hc ht => ?_) hold rfl
      obtain ⟨hmem, hne⟩ := List.mem_filter.mp hc
      have heq : tenant = c.pid := Option.some.inj (htenants c hmem ht)
      exact absurd heq.symm (of_decide_eq_true hne)
    · exact h
  · rename_i hnone
    refine h.goOff (fun c hc ht => ?_) hold rfl
    have heq : tenant = c.pid := Option.some.inj (htenants c hc ht)
    exact absurd (decide_eq_true heq.symm) (List.find?_eq_none.mp hnone c hc)

theorem proceed_sound (hmax : config.maxRestarts < 2 ^ 32) (h : s.Sound config) :
    (s.proceed f config limitBytes reply).Sound config := by
  cases hs : s.stage
  all_goals have htenants := h.tenantsAt hs
  case reaping => exact reaping_sound h hs
  case stopReaping => exact stopReaping_sound h hs
  all_goals rw [proceed, hs]
  case starting | beginning | waiting => exact h.goOn htenants (by rw [hs]; rfl) rfl
  case spawning => exact spawn_sound h hs
  case looking => exact look_sound h hs
  case attributing => exact exited_sound hmax h hs
  case sampling => exact sample_sound h hs
  case killing => exact kill_sound h hs
  case backingOff => exact backOff_sound h hs
  case terminating | killingTenant => exact h.goOff htenants (by rw [hs]; rfl) rfl
  case stopping => exact stop_sound h hs
  case awaiting => exact await_sound h hs
  case ended => exact h

/-! ### What happens around the supervisor -/

theorem adopt_sound (h : s.Sound config) (pid : ℕ) : (s.adopt pid).Sound config := by
  rw [adopt]
  split
  · exact h
  · rename_i hused
    refine ⟨child_pids h (Bool.eq_false_of_not_eq_true hused) false, fun c hc ht => ?_, h.asked,
      h.signalled, h.stops, h.counted, h.givenUp⟩
    obtain hc | hc := List.mem_append.mp hc
    · exact h.tenants c hc ht
    · rw [List.mem_singleton.mp hc] at ht
      contradiction

theorem exits_sound (h : s.Sound config) (pid : ℕ) (exit : TenantExit) :
    (s.exits pid exit).Sound config := by
  rw [exits]
  split
  · extract_lets exited
    have hpid (c : Child) : (exited c).pid = c.pid := by
      rw [show exited c = if c.pid = pid then { c with exited := some exit } else c from rfl]
      split <;> rfl
    have htenant (c : Child) : (exited c).tenant = c.tenant := by
      rw [show exited c = if c.pid = pid then { c with exited := some exit } else c from rfl]
      split <;> rfl
    refine ⟨?_, fun c hc ht => ?_, h.asked, h.signalled, h.stops, h.counted, h.givenUp⟩
    · rw [List.map_map, show Child.pid ∘ exited = Child.pid from funext hpid]
      exact h.pids
    · obtain ⟨c', hc', rfl⟩ := List.mem_map.mp hc
      rw [htenant] at ht
      rw [hpid]
      exact h.tenants c' hc' ht
  · exact h

theorem step_sound (hmax : config.maxRestarts < 2 ^ 32) (l : Label) (h : s.Sound config) :
    (s.step f config limitBytes l).Sound config := by
  rcases l with nanoseconds | pid | ⟨pid, exit⟩ | _ | reply
  · exact { h with }
  · exact adopt_sound h pid
  · exact exits_sound h pid exit
  · exact { h with asked := fun _ => .inl rfl, signalled := fun _ => rfl, stops := fun _ => rfl }
  · exact proceed_sound hmax h

theorem booted_sound : booted.Sound config where
  pids := List.nodup_nil
  tenants _ hc := absurd hc List.not_mem_nil
  asked h := by contradiction
  signalled h := by contradiction
  stops h := by contradiction
  counted := ⟨Nat.zero_le _, ⟨[], [], rfl, rfl, fun _ h => absurd h List.not_mem_nil⟩,
    fun _ h => absurd h List.not_mem_nil⟩
  givenUp h := by contradiction

/-- The guests that runs reach. -/
def after (f : Floats) (config : InstanceConfig) (limitBytes : ℕ) (labels : List Label) : Guest :=
  Run.run (step f config limitBytes) booted labels

theorem after_sound (hmax : config.maxRestarts < 2 ^ 32) (labels : List Label) :
    (after f config limitBytes labels).Sound config :=
  Run.invariant (I := Sound config) (fun _ l h => step_sound hmax l h) booted_sound labels

/-! ### A signal is taken -/

/-- Where the supervisor is at most so many of its steps before it heeds the host, or has ended. -/
def Within (s : Guest) (n : ℕ) : Prop :=
  s.stage.rank s.children.length ≤ n ∧
    (s.stage.rank s.children.length ≠ 0 → s.termination = true)

theorem Within.goTo {n : ℕ} (h : s.Within (n + 1)) {stage : Stage}
    (hlt : stage.rank s.children.length < s.stage.rank s.children.length) :
    (s.goTo stage).Within n :=
  ⟨Nat.le_of_lt_succ (hlt.trans_le h.1), fun _ => h.2 (Nat.ne_zero_of_lt hlt)⟩

theorem within_zero {n : ℕ} (h : s.stage.rank s.children.length = 0) : s.Within n :=
  ⟨h.trans_le (Nat.zero_le n), fun hne => absurd h hne⟩

theorem length_reap_lt {c : Child} (hc : c ∈ s.children) :
    (s.reap c.pid).children.length < s.children.length :=
  List.length_filter_lt_length_iff_exists.mpr ⟨c, hc, by simp⟩

/-- A step of the supervisor while a signal waits. -/
theorem proceed_within {n : ℕ} (h : s.Within (n + 1)) :
    (s.proceed f config limitBytes reply).Within n := by
  have hrank := h.1
  have ht := h.2
  cases hs : s.stage
  all_goals
    rw [hs] at hrank ht
    simp only [Stage.rank] at hrank
    rw [proceed, hs]
  case starting | beginning | waiting | killing => exact h.goTo (by simp [hs, Stage.rank])
  case spawning started =>
    show (s.spawn reply started).Within n
    rw [spawn]
    split
    · exact within_zero rfl
    · split
      · exact within_zero rfl
      · exact ⟨by simp only [goTo, Stage.rank]; omega, fun _ => ht (Nat.succ_ne_zero _)⟩
  case looking watching =>
    show (s.look watching).Within n
    rw [look, if_pos (ht (Nat.succ_ne_zero _))]
    exact within_zero rfl
  case reaping watching found =>
    dsimp only
    rw [reapUntil]
    split
    · rename_i c hc
      have hlt := length_reap_lt (List.mem_of_find?_eq_some hc)
      refine ⟨?_, fun _ => ht (Nat.succ_ne_zero _)⟩
      split
      · simp only [goTo, Stage.rank]
        omega
      · rcases found with _ | exit <;> simp only [goTo, Stage.rank] <;> omega
    · rcases found with _ | exit <;> exact h.goTo (by simp [hs, Stage.rank])
  case attributing watching exit =>
    show (s.exited f config limitBytes reply watching exit).Within n
    rw [exited]
    split
    · exact within_zero rfl
    · exact ⟨by simp only [goTo, Stage.rank]; omega, fun _ => ht (Nat.succ_ne_zero _)⟩
  case sampling watching =>
    show (s.sample f limitBytes reply watching).Within n
    rw [sample]
    split
    · exact h.goTo (by simp [hs, Stage.rank])
    · split
      · exact h.goTo (by simp [hs, Stage.rank])
      · dsimp only
        split <;> exact h.goTo (by simp [hs, Stage.rank])
  case backingOff backoffMs since =>
    show (s.backOff backoffMs since).Within n
    rw [backOff, if_pos (ht (Nat.succ_ne_zero _))]
    exact within_zero rfl
  case terminating | killingTenant => exact within_zero rfl
  case stopping tenant deadline =>
    show (s.stop tenant deadline).Within n
    rw [stop]
    split <;> exact within_zero rfl
  case stopReaping tenant deadline found =>
    dsimp only
    rw [reapUntil]
    split
    · split
      · exact within_zero rfl
      · rcases found with _ | exit <;> exact within_zero rfl
    · rcases found with _ | exit <;> exact within_zero rfl
  case awaiting tenant =>
    show (s.await tenant).Within n
    rw [await]
    split
    · split
      · exact within_zero rfl
      · exact within_zero (by rw [hs]; rfl)
    · exact within_zero rfl
  case ended => exact within_zero (by rw [hs]; rfl)

theorem over_of_rank {stage : Stage} {children : ℕ} (h : stage.rank children = 0) :
    stage.stops = true ∨ stage.hasEnded = true := by
  cases stage
  case terminating | stopping | stopReaping | killingTenant | awaiting => exact .inl rfl
  case ended => exact .inr rfl
  all_goals exact absurd h (Nat.succ_ne_zero _)

theorem rank_le (stage : Stage) (children : ℕ) : stage.rank children ≤ children + 7 := by
  unfold Stage.rank
  split <;> omega

/-- Left to itself, the supervisor heeds a signal that waits. -/
theorem heeds (ht : s.termination = true) {replies : List Reply}
    (hlength : s.children.length + 7 ≤ replies.length) :
    (Run.run (proceed f config limitBytes) s replies).stage.stops = true ∨
      (Run.run (proceed f config limitBytes) s replies).stage.hasEnded = true := by
  have within (n : ℕ) (replies : List Reply) (s : Guest) (h : s.Within n)
      (hn : n ≤ replies.length) :
      (Run.run (proceed f config limitBytes) s replies).Within 0 := by
    induction replies generalizing n s with
    | nil => exact Nat.le_zero.mp hn ▸ h
    | cons reply replies ih =>
      rcases n with _ | n
      · exact ih 0 _ (proceed_within ⟨h.1.trans (Nat.zero_le _), h.2⟩) (Nat.zero_le _)
      · exact ih n _ (proceed_within h) (Nat.le_of_succ_le_succ hn)
  have h := within _ replies s ⟨rank_le _ _, fun _ => ht⟩ hlength
  exact over_of_rank (Nat.le_zero.mp h.1)

end Guest

/-! ### What the supervisor does -/

/-- **Processes.** At most one tenant is there to be waited for, and none when the supervisor has
ended; a signal of the host waits until it is heeded, which takes the supervisor a bounded number of
steps, and without one it does not shut down. -/
theorem supervised (f : Floats) {config : InstanceConfig} (limitBytes : ℕ) (labels : List Label)
    (hmax : config.maxRestarts < 2 ^ 32) :
    let s := Guest.after f config limitBytes labels
    (∀ c ∈ s.children, ∀ c' ∈ s.children, c.tenant = true → c'.tenant = true → c = c') ∧
      (s.stage.hasEnded = true → ∀ c ∈ s.children, c.tenant = false) ∧
      (s.asked = true → s.termination = true ∨ s.stage.stops = true ∨ s.stage.hasEnded = true) ∧
      (s.stage.stops = true → s.asked = true) ∧
      (s.termination = true → ∀ replies : List Reply, s.children.length + 7 ≤ replies.length →
        (Run.run (Guest.proceed f config limitBytes) s replies).stage.stops = true ∨
          (Run.run (Guest.proceed f config limitBytes) s replies).stage.hasEnded = true) := by
  intro s
  have h : s.Sound config := Guest.after_sound hmax labels
  refine ⟨fun c hc c' hc' ht ht' => ?_, fun hended c hc => ?_, h.asked, h.stops,
    fun ht replies => Guest.heeds ht⟩
  · refine List.inj_on_of_nodup_map h.pids hc hc' ?_
    exact Option.some.inj ((h.tenants c hc ht).symm.trans (h.tenants c' hc' ht'))
  · refine Bool.eq_false_of_not_eq_true fun ht => ?_
    have htenant := h.tenants c hc ht
    revert hended htenant
    cases s.stage
    all_goals simp [Stage.hasEnded, Stage.tenant]

/-- Numbers for a run that samples no memory and doubles its pauses. -/
def sampleFloats : Floats where
  F := ℕ
  ofNat n := n
  ofBits _ := 2
  seconds n := n / 1000000000
  mul := (· * ·)
  div := (· / ·)
  le a b := a ≤ b
  min := min
  toU32 n := n
  toU64 n := n

def sampleConfig : InstanceConfig where
  httpPort := 8080
  layers := 1
  program := ['/', 'p']
  workingDirectory := ['/']
  hostname := none
  maxRestarts := 1
  initialBackoffMs := 100
  maxBackoffMs := 1000
  backoffFactor := 0x4000000000000000
  resetAfterMs := 1000
  nameservers := []
  arguments := []
  environment := []

/-- The tenant exits at once, is started again after a pause, and exits at once. -/
def sampleRun : List Label :=
  let go (spawned : Option ℕ) : Label := .proceed ⟨spawned, none, true⟩
  let once (pid : ℕ) : List Label :=
    [go none, go (some pid), go none, .exits pid (.code 1)] ++ List.replicate 5 (go none)
  once 10 ++ [.pass 100000000, go none] ++ once 11

theorem supervised_sample :
    (Guest.after sampleFloats sampleConfig 0 sampleRun).children.any Child.tenant = false :=
  List.any_eq_false.mpr fun c hc =>
    Bool.eq_false_iff.mp ((supervised sampleFloats 0 sampleRun (by decide)).2.1 rfl c hc)

/-- **Restarts.** The restarts that are announced are numbered from one to the budget; those spent
follow one another, and no tenant stayed up between them; and the supervisor gives up only when all
are spent and, unless there are none to spend, the tenant did not stay up after the last. -/
theorem restarts_counted (f : Floats) {config : InstanceConfig} (limitBytes : ℕ)
    (labels : List Label) (hmax : config.maxRestarts < 2 ^ 32) :
    let s := Guest.after f config limitBytes labels
    (∀ a ∈ s.restarts, a.Counted config) ∧ Streak config s.budget.spent s.restarts ∧
      (s.stage = .ended .restartBudgetExhausted →
        s.budget.spent = config.maxRestarts ∧
          (config.maxRestarts = 0 ∨ s.lastUptimeMs < config.resetAfterMs)) := by
  intro s
  have h : s.Sound config := Guest.after_sound hmax labels
  refine ⟨h.counted.each, h.counted.streak, fun hs => ?_⟩
  obtain ⟨hspent, hup⟩ := h.givenUp hs
  exact ⟨Nat.le_antisymm h.counted.spent_le hspent, hup⟩

theorem restarts_counted_sample :
    (Guest.after sampleFloats sampleConfig 0 sampleRun).budget.spent = 1 :=
  ((restarts_counted sampleFloats 0 sampleRun (by decide)).2.2 rfl).1

end Nibrunner.Supervisor

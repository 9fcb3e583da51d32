import Mathlib.Data.List.Induction
import Nibrunner.Instance.Health

/-!
# What a health verdict says of the probes behind it

The tracker keeps three numbers of an unbounded history of probes: how many in a row went well,
how many in a row did not, and whether enough in a row ever went well. `tracker_spec` says what
each of them is of the history, and `verdictLaw_iff` when the verdict read off them is the one the
history calls for: unless a check asks for no answer at all and none has come, or its grace period
is past what a signed 64-bit number holds and the guest is failing within it.
-/

namespace Nibrunner

open MachineInt

/-! ### Runs at the end of a history -/

namespace ProbeHistory

variable {α : Type} [DecidableEq α]

/-- How many entries in a row the history ends in are `a`. -/
def trailing (a : α) (history : List α) : ℕ := (history.reverse.takeWhile (· = a)).length

@[simp] theorem trailing_nil (a : α) : trailing a [] = 0 := rfl

theorem trailing_concat (a b : α) (history : List α) :
    trailing a (history ++ [b]) = if b = a then trailing a history + 1 else 0 := by
  rw [trailing, List.reverse_append, List.reverse_singleton, List.singleton_append,
    List.takeWhile_cons]
  by_cases h : b = a
  · simp [h, trailing]
  · simp [h]

/-- The history ends in `n` times `a`. -/
theorem replicate_suffix_iff {a : α} {history : List α} {n : ℕ} :
    List.replicate n a <:+ history ↔ n ≤ trailing a history := by
  induction history using List.reverseRecOn generalizing n with
  | nil => simp
  | append_singleton history b ih =>
    rw [trailing_concat]
    cases n with
    | zero => simp
    | succ n =>
      rw [List.replicate_succ', List.suffix_concat_iff]
      by_cases h : b = a
      · subst h
        simp [ih]
      · simp [h, Ne.symm h]

/-- There are `n` in a row somewhere in a history one longer. -/
theorem replicate_infix_concat_iff {a b : α} {history : List α} {n : ℕ} :
    List.replicate n a <:+: history ++ [b] ↔
      n ≤ trailing a (history ++ [b]) ∨ List.replicate n a <:+: history := by
  rw [List.infix_concat_iff, replicate_suffix_iff]

end ProbeHistory

open ProbeHistory

/-- What the wire admits of the numbers of a check. -/
structure Probe.FitsWire (p : Probe) : Prop where
  gracePeriodMs : p.gracePeriodMs < 2 ^ 64
  healthyThreshold : p.healthyThreshold < 2 ^ 32
  unhealthyThreshold : p.unhealthyThreshold < 2 ^ 32

/-- A probe and when it came back. -/
abbrev ProbeOutcome := Except ProbeFailure Unit × ℤ

/-- The tracker of a boot after its probes, the first of them first. -/
def probed (outcomes : List ProbeOutcome) (healthyThreshold : ℕ) : HealthTracker :=
  outcomes.foldl (fun tracker outcome => applyProbe tracker outcome.1 outcome.2 healthyThreshold)
    initialTracker

/-- Which of the probes went well. -/
def history (outcomes : List ProbeOutcome) : List Bool := outcomes.map (·.1.toBool)

/-- So many probes in a row went well, at some time since the boot. -/
def HealthyRun (healthyThreshold : ℕ) (outcomes : List ProbeOutcome) : Prop :=
  List.replicate healthyThreshold true <:+: history outcomes

/-- The last so many probes all failed. -/
def LastFailed (unhealthyThreshold : ℕ) (outcomes : List ProbeOutcome) : Prop :=
  List.replicate unhealthyThreshold false <:+ history outcomes

/-- The whole grace period has passed since the guest came up. -/
def GraceIsOver (check : HealthCheck) (startedAtMs : Option ℤ) (nowMs : ℤ) : Prop :=
  ∃ started ∈ startedAtMs, (check.probe.gracePeriodMs : ℤ) ≤ nowMs - started

/-- What the tracker keeps of the history. -/
structure TracksHistory (tracker : HealthTracker) (outcomes : List ProbeOutcome)
    (healthyThreshold : ℕ) : Prop where
  successes : tracker.consecutiveSuccesses = trailing true (history outcomes) % 2 ^ 32
  failures : tracker.consecutiveFailures = trailing false (history outcomes) % 2 ^ 32
  everHealthy : 0 < healthyThreshold →
    (tracker.everHealthy = true ↔ HealthyRun healthyThreshold outcomes)

/-- **What the tracker keeps of the history.** The counters wrap; a run as long as the threshold
is seen before they do. -/
theorem tracker_spec {healthyThreshold : ℕ} (hfits : healthyThreshold < 2 ^ 32)
    (outcomes : List ProbeOutcome) :
    TracksHistory (probed outcomes healthyThreshold) outcomes healthyThreshold := by
  induction outcomes using List.reverseRecOn with
  | nil =>
    refine ⟨rfl, rfl, fun hpos => iff_of_false Bool.false_ne_true fun h => ?_⟩
    have hnil := List.infix_nil.mp h
    rw [List.replicate_eq_nil_iff] at hnil
    omega
  | append_singleton outcomes outcome ih =>
    have hhistory : history (outcomes ++ [outcome]) =
        history outcomes ++ [outcome.1.toBool] := by simp [history]
    have hprobed : probed (outcomes ++ [outcome]) healthyThreshold =
        applyProbe (probed outcomes healthyThreshold) outcome.1 outcome.2 healthyThreshold := by
      simp [probed]
    have hrun : HealthyRun healthyThreshold (outcomes ++ [outcome]) ↔
        healthyThreshold ≤ trailing true (history outcomes ++ [outcome.1.toBool]) ∨
          HealthyRun healthyThreshold outcomes := by
      rw [HealthyRun, hhistory, replicate_infix_concat_iff, HealthyRun]
    have hsuccesses := ih.successes
    have hfailures := ih.failures
    rw [hprobed]
    obtain ⟨result, now⟩ := outcome
    cases result with
    | error failure =>
      refine ⟨?_, ?_, fun hpos => ?_⟩
      · rw [hhistory, trailing_concat]
        rfl
      · rw [hhistory, trailing_concat]
        change wrapU32 ((probed outcomes healthyThreshold).consecutiveFailures + 1) =
          (trailing false (history outcomes) + 1) % 2 ^ 32
        rw [hfailures, wrapU32]
        omega
      · rw [hrun, trailing_concat]
        change (probed outcomes healthyThreshold).everHealthy = true ↔ healthyThreshold ≤ 0 ∨ _
        rw [ih.everHealthy hpos]
        exact (or_iff_right (by omega)).symm
    | ok =>
      refine ⟨?_, ?_, fun hpos => ?_⟩
      · rw [hhistory, trailing_concat]
        change wrapU32 ((probed outcomes healthyThreshold).consecutiveSuccesses + 1) =
          (trailing true (history outcomes) + 1) % 2 ^ 32
        rw [hsuccesses, wrapU32]
        omega
      · rw [hhistory, trailing_concat]
        rfl
      · rw [hrun, trailing_concat]
        change ((probed outcomes healthyThreshold).everHealthy || decide (healthyThreshold ≤
          wrapU32 ((probed outcomes healthyThreshold).consecutiveSuccesses + 1))) = true ↔
            healthyThreshold ≤ trailing true (history outcomes) + 1 ∨ _
        rw [Bool.or_eq_true, ih.everHealthy hpos, decide_eq_true_eq, hsuccesses, wrapU32, or_comm]
        -- a counter that has wrapped has passed the threshold on its way up
        have hbefore : healthyThreshold ≤ trailing true (history outcomes) →
            HealthyRun healthyThreshold outcomes :=
          fun hle => (replicate_suffix_iff.mpr hle).isInfix
        constructor
        · rintro (hle | hrun)
          · exact .inl (by omega)
          · exact .inr hrun
        · rintro (hle | hrun)
          · rcases Nat.lt_or_ge (trailing true (history outcomes)) healthyThreshold with hlt | hge
            · exact .inl (by omega)
            · exact .inr (hbefore hge)
          · exact .inr hrun

/-! ### The verdict -/

/-- A microVM that is up and has neither failed nor been asked to stop, with what its probes have
come to. -/
def LifecycleInputs.watched (i : LifecycleInputs) (outcomes : List ProbeOutcome) :
    LifecycleInputs :=
  { i with
    unit := { i.unit with active := true, failed := false }
    stopRequested := false
    tracker := probed outcomes i.healthCheck.probe.healthyThreshold }

/-- **What a verdict says of the probes since the boot.** -/
structure VerdictLaw (check : HealthCheck) (startedAtMs : Option ℤ) (nowMs : ℤ)
    (outcomes : List ProbeOutcome) (verdict : InstanceState) : Prop where
  running : verdict = .running →
    true ∈ history outcomes ∧ HealthyRun check.probe.healthyThreshold outcomes
  unwell : verdict = .unhealthy ∨ verdict = .failed →
    LastFailed check.probe.unhealthyThreshold outcomes ∧ GraceIsOver check startedAtMs nowMs ∧
      (verdict = .unhealthy ↔ HealthyRun check.probe.healthyThreshold outcomes)
  starting : ¬ HealthyRun check.probe.healthyThreshold outcomes →
    ¬ (LastFailed check.probe.unhealthyThreshold outcomes ∧ GraceIsOver check startedAtMs nowMs) →
    verdict = .starting

/-- The grace period, cast to a signed number, is over before it has passed. -/
def CutsGraceShort (check : HealthCheck) (startedAtMs : Option ℤ) (nowMs : ℤ) : Prop :=
  2 ^ 63 ≤ check.probe.gracePeriodMs ∧
    ∃ started ∈ startedAtMs, asI64 check.probe.gracePeriodMs ≤ nowMs - started ∧
      nowMs - started < check.probe.gracePeriodMs

theorem isWithinGracePeriod_eq_false_iff (check : HealthCheck) (startedAtMs : Option ℤ)
    (nowMs : ℤ) (hfits : check.probe.FitsWire) :
    isWithinGracePeriod check startedAtMs nowMs = false ↔
      GraceIsOver check startedAtMs nowMs ∨ CutsGraceShort check startedAtMs nowMs := by
  have hgrace := hfits.gracePeriodMs
  rw [isWithinGracePeriod.eq_def, GraceIsOver, CutsGraceShort]
  cases startedAtMs with
  | none => simp
  | some started =>
    simp only [decide_eq_false_iff_not, Option.mem_def, Option.some.injEq, exists_eq_left']
    rw [asI64]
    split
    · omega
    · omega

/-- The verdict of a microVM that is up. -/
theorem verdict_cases (i : LifecycleInputs) (outcomes : List ProbeOutcome) :
    let tracker := probed outcomes i.healthCheck.probe.healthyThreshold
    evaluateInstanceState (i.watched outcomes) =
      if i.healthCheck.probe.healthyThreshold ≤ tracker.consecutiveSuccesses then .running
      else if i.healthCheck.probe.unhealthyThreshold ≤ tracker.consecutiveFailures ∧
          isWithinGracePeriod i.healthCheck i.startedAtMs i.nowMs = false then
        if tracker.everHealthy then .unhealthy else .failed
      else if tracker.everHealthy then .running else .starting := by
  simp [evaluateInstanceState, LifecycleInputs.watched]
  rfl

/-- A run of probes that went well has one that did. -/
theorem HealthyRun.mem {healthyThreshold : ℕ} {outcomes : List ProbeOutcome}
    (h : HealthyRun healthyThreshold outcomes) (hpos : 0 < healthyThreshold) :
    true ∈ history outcomes :=
  h.subset (List.mem_replicate.mpr ⟨by omega, rfl⟩)

/-- **The verdict is the one the probes call for**, for every check the wire admits and every
sequence of probes since a boot, unless the check asks for no answer and none has come, or the
probes call the guest unwell while a grace period past a signed number is cut short. -/
theorem verdictLaw_iff (i : LifecycleInputs) (hfits : i.healthCheck.probe.FitsWire)
    (outcomes : List ProbeOutcome) :
    let probe := i.healthCheck.probe
    let tracker := probed outcomes probe.healthyThreshold
    VerdictLaw i.healthCheck i.startedAtMs i.nowMs outcomes
        (evaluateInstanceState (i.watched outcomes)) ↔
      (probe.healthyThreshold = 0 → true ∈ history outcomes) ∧
        ¬ (tracker.consecutiveSuccesses < probe.healthyThreshold ∧
          probe.unhealthyThreshold ≤ tracker.consecutiveFailures ∧
          CutsGraceShort i.healthCheck i.startedAtMs i.nowMs) := by
  intro probe tracker
  obtain ⟨hsuccesses, hfailures, hever⟩ := tracker_spec hfits.healthyThreshold outcomes
  have hgrace := isWithinGracePeriod_eq_false_iff i.healthCheck i.startedAtMs i.nowMs hfits
  have hcut : CutsGraceShort i.healthCheck i.startedAtMs i.nowMs →
      ¬ GraceIsOver i.healthCheck i.startedAtMs i.nowMs := by
    rintro ⟨-, started, hstarted, -, hlt⟩ ⟨started', hstarted', hle⟩
    obtain rfl := Option.mem_unique hstarted hstarted'
    omega
  rw [verdict_cases]
  change tracker.consecutiveSuccesses = _ at hsuccesses
  change tracker.consecutiveFailures = _ at hfailures
  change 0 < probe.healthyThreshold → (tracker.everHealthy = true ↔ _) at hever
  change VerdictLaw _ _ _ _ (if probe.healthyThreshold ≤ tracker.consecutiveSuccesses then _
    else if probe.unhealthyThreshold ≤ tracker.consecutiveFailures ∧ _ then
      if tracker.everHealthy then _ else _
    else if tracker.everHealthy then _ else _) ↔ _
  split
  · -- enough in a row are well: running
    rename_i hle
    have hrun : HealthyRun probe.healthyThreshold outcomes :=
      (replicate_suffix_iff.mpr (by omega)).isInfix
    constructor
    · exact fun hlaw => ⟨fun _ => (hlaw.running rfl).1, fun hnot => by omega⟩
    · rintro ⟨hzero, -⟩
      refine ⟨fun _ => ⟨?_, hrun⟩, fun hunwell => ?_, fun hnot => absurd hrun hnot⟩
      · rcases Nat.eq_zero_or_pos probe.healthyThreshold with hz | hpos
        · exact hzero hz
        · exact hrun.mem hpos
      · rcases hunwell with h | h <;> cases h
  rename_i hlt
  have hpos : 0 < probe.healthyThreshold := by omega
  rw [and_iff_right (fun hz : probe.healthyThreshold = 0 => by omega)]
  split
  · -- enough in a row failed and the code takes the grace for over: unwell
    rename_i hunwell
    obtain ⟨hle, hover⟩ := hunwell
    have hfailed : LastFailed probe.unhealthyThreshold outcomes :=
      replicate_suffix_iff.mpr (by omega)
    constructor
    · rintro hlaw ⟨-, -, hshort⟩
      refine hcut hshort (hlaw.unwell ?_).2.1
      cases tracker.everHealthy
      · exact .inr rfl
      · exact .inl rfl
    · intro hcond
      have hreally : GraceIsOver i.healthCheck i.startedAtMs i.nowMs :=
        (hgrace.mp hover).resolve_right fun hshort => hcond ⟨by omega, hle, hshort⟩
      refine ⟨fun hrunning => ?_, fun _ => ⟨hfailed, hreally, ?_⟩,
        fun _ hnot => absurd ⟨hfailed, hreally⟩ hnot⟩
      · split at hrunning <;> cases hrunning
      · rw [← hever hpos]
        cases tracker.everHealthy <;> simp
  · -- neither way: running if the guest was ever well, and starting if not
    rename_i hneither
    refine iff_of_true ⟨fun hrunning => ?_, fun hunwell => ?_, fun hnot _ => ?_⟩ ?_
    · have hrun : HealthyRun probe.healthyThreshold outcomes := by
        rw [← hever hpos]
        split at hrunning
        · assumption
        · cases hrunning
      exact ⟨hrun.mem hpos, hrun⟩
    · exfalso
      split at hunwell <;> rcases hunwell with h | h <;> cases h
    · rw [← hever hpos] at hnot
      rw [if_neg hnot]
    · rintro ⟨-, hle, hshort⟩
      exact hneither ⟨hle, hgrace.mpr (.inr hshort)⟩

/-! ### Checks the wire admits -/

/-- A check of a port that asks for so many answers and gives a guest so long. -/
def tcpCheck (gracePeriodMs healthyThreshold : ℕ) : HealthCheck :=
  .tcp
    { intervalMs := 5000
      timeoutMs := 2000
      gracePeriodMs := gracePeriodMs
      healthyThreshold := healthyThreshold
      unhealthyThreshold := 1 }

/-- A guest that came up a millisecond ago. -/
def justStarted (check : HealthCheck) : LifecycleInputs where
  unit := unknownVm
  tracker := initialTracker
  healthCheck := check
  desiredRunning := true
  onRequest := false
  stopRequested := false
  snapshotting := false
  startedAtMs := some 0
  nowMs := 1
  current := .starting

/-- A guest that answers once is running. -/
theorem verdictLaw_justStarted :
    VerdictLaw (tcpCheck 30000 1) (some 0) 1 [(.ok (), 1)]
      (evaluateInstanceState ((justStarted (tcpCheck 30000 1)).watched [(.ok (), 1)])) := by
  refine (verdictLaw_iff (justStarted (tcpCheck 30000 1)) ⟨by decide, by decide, by decide⟩
    [(.ok (), 1)]).mpr ⟨fun _ => List.mem_singleton.mpr rfl, fun hnot => ?_⟩
  exact absurd hnot.1 (by decide)

/-- A guest whose grace period is longer than a signed 64-bit number of milliseconds has failed with
its first refused probe, and one of which no answer is asked is running before it gave any. -/
theorem not_verdictLaw :
    (¬ ∀ (i : LifecycleInputs) (outcomes : List ProbeOutcome), i.healthCheck.probe.FitsWire →
      VerdictLaw i.healthCheck i.startedAtMs i.nowMs outcomes
        (evaluateInstanceState (i.watched outcomes))) ∧
    evaluateInstanceState ((justStarted (tcpCheck (2 ^ 63) 1)).watched [(.error .refused, 1)]) =
      .failed ∧
    evaluateInstanceState ((justStarted (tcpCheck 30000 0)).watched []) = .running := by
  have hfailed : evaluateInstanceState
      ((justStarted (tcpCheck (2 ^ 63) 1)).watched [(.error .refused, 1)]) = .failed := by
    decide +kernel
  refine ⟨fun h => ?_, hfailed, by decide +kernel⟩
  have hlaw := h (justStarted (tcpCheck (2 ^ 63) 1)) [(.error .refused, 1)]
    ⟨by decide, by decide, by decide⟩
  obtain ⟨-, ⟨started, hstarted, hover⟩, -⟩ := hlaw.unwell (.inr hfailed)
  obtain rfl := Option.some.inj hstarted
  exact absurd hover (by decide)

end Nibrunner

import Nibrunner.Vm.Manager

/-!
# A wake loads no snapshot a guest has outrun

A snapshot is a guest's memory over the disk it was captured on. Loaded after any guest of the
app has executed again, it is an old memory over a newer disk. The stamp is what says that a
snapshot may be loaded, so the invariant is about it: while a published snapshot is stamped, no
guest of the app is executing, and its files were captured at the present count (`Kept`).

Three kinds of assertion carry it through the operations. `Kept` is all that is known where an
operation begins and wherever one is cut. `Bare` is the state once the stamp is gone, in which
guests may run. `Stands` is a state in which none runs, between a capture and its publication
and between a wake's checks and its load; what is on the disk then is said separately.

The daemon does not keep this by itself. A sleep that fails after its publication resumes the
guest and leaves the stamp, and a process whose record is lost is never stopped again; the
condition on a run's steps is that the first does not happen with a live VMM, and that the
second left no guest running when a snapshot is captured.
-/

namespace Nibrunner

namespace VmWorld

/-- A stamped snapshot was captured at the present count with no guest executing since, and
every load so far was of such a snapshot. -/
structure Kept (w : VmWorld) : Prop where
  published : ∀ d, w.storage.published = some d → d.manifest ≠ none →
    w.Quiet ∧ ∀ file, d.files file = some w.clock
  loads : ∀ l ∈ w.loads, l.Fresh

/-- Nothing published can be loaded. -/
def Bare (w : VmWorld) : Prop := w.Kept ∧ w.storage.manifest = none

/-- No guest executes, and the daemon, the disk and the count are as `φ` says. -/
def Stands (φ : VmManager → SnapshotStorage → ℕ → Prop) (w : VmWorld) : Prop :=
  w.Kept ∧ w.Quiet ∧ φ w.manager w.storage w.clock

/-! ### What changes of the world keep -/

theorem Quiet.kill {w : VmWorld} (h : w.Quiet) (pid : ℕ) : (w.kill pid).Quiet :=
  fun p hp => h p (List.mem_filter.mp hp).1

theorem Quiet.any_running {w : VmWorld} (h : w.Quiet) :
    w.processes.any (·.mode = .running) = false := by
  rw [List.any_eq_false]
  intro p hp
  simpa using h p hp

/-- The invariant holds on where the disk is untouched and no guest starts executing. -/
theorem Kept.of_quiet {w w' : VmWorld} (h : w.Kept) (hs : w'.storage = w.storage)
    (hc : w'.clock = w.clock) (hl : w'.loads = w.loads) (hq : w.Quiet → w'.Quiet) :
    w'.Kept where
  published := by
    intro d hd hm
    rw [hs] at hd
    obtain ⟨hquiet, hfiles⟩ := h.published d hd hm
    exact ⟨hq hquiet, hc ▸ hfiles⟩
  loads := hl ▸ h.loads

/-- Without a stamp there is nothing to keep but the history. -/
theorem kept_of_manifest {w : VmWorld} (hm : w.storage.manifest = none)
    (hl : ∀ l ∈ w.loads, l.Fresh) : w.Kept where
  published := by
    intro d hd hd'
    rw [SnapshotStorage.manifest, hd, Option.bind_some] at hm
    exact absurd hm hd'
  loads := hl

theorem bare_of_manifest {w : VmWorld} (hm : w.storage.manifest = none)
    (hl : ∀ l ∈ w.loads, l.Fresh) : w.Bare := ⟨kept_of_manifest hm hl, hm⟩

/-- Nothing is stamped where the stamp of a bare disk is left alone. -/
theorem Bare.of_manifest {w w' : VmWorld} (h : w.Bare)
    (hm : w'.storage.manifest = w.storage.manifest) (hl : w'.loads = w.loads) : w'.Bare :=
  bare_of_manifest (hm.trans h.2) (hl ▸ h.1.loads)

theorem Stands.of_quiet {φ : VmManager → SnapshotStorage → ℕ → Prop} {w w' : VmWorld}
    (h : w.Stands φ) (hm : w'.manager = w.manager) (hs : w'.storage = w.storage)
    (hc : w'.clock = w.clock) (hl : w'.loads = w.loads) (hq : w.Quiet → w'.Quiet) :
    w'.Stands φ := by
  obtain ⟨hkept, hquiet, hφ⟩ := h
  refine ⟨hkept.of_quiet hs hc hl hq, hq hquiet, ?_⟩
  rw [hm, hs, hc]
  exact hφ

theorem Stands.bare {φ : VmManager → SnapshotStorage → ℕ → Prop} {w : VmWorld}
    (h : w.Stands φ) (hm : w.storage.manifest = none) : w.Bare := ⟨h.1, hm⟩

/-- A change of an unstamped disk in a standing world. -/
theorem Stands.onStorage {φ ψ : VmManager → SnapshotStorage → ℕ → Prop} {w : VmWorld}
    {f : SnapshotStorage → SnapshotStorage} (h : w.Stands φ)
    (hm : (f w.storage).manifest = none)
    (hψ : φ w.manager w.storage w.clock → ψ w.manager (f w.storage) w.clock) :
    (w.onStorage f).Stands ψ :=
  ⟨kept_of_manifest hm h.1.loads, h.2.1, hψ h.2.2⟩

theorem manager_drift (w : VmWorld) (move : HostMove) : (w.drift move).manager = w.manager := by
  cases move with
  | execute | exit pid exit noted =>
    rw [drift]
    split <;> rfl

/-! ### Assertions the processes and the record do not enter -/

/-- An assertion that the host's own moves keep, and that says nothing a stopped process or a
rewritten record could change. -/
structure Framed (P : VmWorld → Prop) : Prop where
  stable : vmHost.Stable P
  kept : ∀ w, P w → w.Kept
  kill : ∀ w pid, P w → P (w.kill pid)
  record : ∀ (w : VmWorld) record, P w → P { w with record }

/-- What a guest that executes must be kept from, and what no change of processes or record
touches, makes an assertion framed. -/
theorem framed_of {P : VmWorld → Prop} (hkept : ∀ w, P w → w.Kept)
    (hexecute : ∀ w : VmWorld, w.processes.any (·.mode = .running) → P w →
      P { w with clock := w.clock + 1 })
    (hkill : ∀ w pid, P w → P (w.kill pid))
    (hrecord : ∀ (w : VmWorld) record, P w → P { w with record }) : Framed P where
  stable := by
    intro move w hw
    change P (w.drift move)
    cases move with
    | execute =>
      rw [drift]
      split
      · next hany => exact hexecute w hany hw
      · exact hw
    | exit pid exit noted =>
      rw [drift]
      split
      · exact hrecord _ _ (hkill w pid hw)
      · exact hkill w pid hw
  kept := hkept
  kill := hkill
  record := hrecord

theorem framed_kept : Framed Kept := by
  refine framed_of (fun _ h => h) ?_ ?_ ?_
  · intro w hany h
    refine ⟨fun d hd hm => ?_, h.loads⟩
    -- A stamped snapshot and an executing guest exclude each other.
    have hquiet := (h.published d hd hm).1.any_running
    rw [hquiet] at hany
    exact absurd hany Bool.false_ne_true
  · intro w pid h
    exact h.of_quiet rfl rfl rfl fun hq => hq.kill pid
  · intro w record h
    exact h.of_quiet rfl rfl rfl id

theorem framed_bare : Framed Bare := by
  refine framed_of (fun _ h => h.1) ?_ ?_ ?_
  · intro w _ h
    exact h.of_manifest rfl rfl
  · intro w pid h
    exact h.of_manifest rfl rfl
  · intro w record h
    exact h.of_manifest rfl rfl

theorem framed_stands (φ : VmManager → SnapshotStorage → ℕ → Prop) : Framed (Stands φ) := by
  refine framed_of (fun _ h => h.1) ?_ ?_ ?_
  · intro w hany h
    rw [h.2.1.any_running] at hany
    exact absurd hany Bool.false_ne_true
  · intro w pid h
    exact h.of_quiet rfl rfl rfl rfl fun hq => hq.kill pid
  · intro w record h
    exact h.of_quiet rfl rfl rfl rfl id

end VmWorld

/-! ### The rule of one action -/

open VmWorld
open Interruptible (Triple)

/-- From `P` the program keeps `Kept` wherever it is cut, and ends in `Q`. -/
abbrev Spec {α : Type} (P : VmWorld → Prop) (p : Vmm α) (Q : α → VmWorld → Prop) : Prop :=
  vmHost.Triple Kept P p Q

namespace VmWorld.Framed

variable {P : VmWorld → Prop} (hP : Framed P)

include hP

theorem ask {e : VmAction} {Q : e.Reply → VmWorld → Prop}
    (h : ∀ w c, P w → w.Sound e c → Q (perform e c w).2 (perform e c w).1) :
    Spec P (ask e) Q :=
  Triple.perform hP.stable hP.kept h

theorem attempt (step : HostStep) : Spec P (attempt step) fun _ => P :=
  hP.ask fun _ _ hw _ => hw

theorem readRecord : Spec P (Nibrunner.ask .readRecord) fun _ => P :=
  hP.ask fun _ _ hw _ => hw

theorem writeRecord (record : VmRecord) :
    Spec P (Nibrunner.ask (.writeRecord record)) fun _ => P := by
  refine hP.ask fun w c hw _ => ?_
  change P (if c.carriedOut then _ else w)
  split
  · exact hP.record w _ hw
  · exact hw

/-- The host's status of the app changes nothing. -/
theorem status (m : VmManager) : Spec P (VmProcesses.status m) fun _ => P := by
  refine Triple.bind hP.readRecord ?_
  rintro (_ | record)
  · exact Triple.pure fun _ h => h
  refine Triple.bind (hP.ask (Q := fun _ => P) fun _ _ hw _ => hw) fun alive => ?_
  exact Triple.pure fun _ h => h

theorem stop : Spec P VmProcesses.stop fun _ => P := by
  refine Triple.bind hP.readRecord ?_
  rintro (_ | record)
  · exact Triple.pure fun _ h => h
  refine Triple.bind (hP.writeRecord _) fun _ => ?_
  refine Triple.bind (hP.ask (Q := fun _ => P) fun _ _ hw _ => hw) fun alive => ?_
  split
  · exact hP.ask fun w _ hw _ => hP.kill w _ hw
  · exact Triple.pure fun _ h => h

theorem api : Spec P VmManager.api fun _ => P := by
  refine Triple.bind hP.readRecord fun record => ?_
  exact Triple.pure fun _ h => h

theorem jailed : Spec P VmManager.jailed fun _ => P := by
  refine Triple.bind hP.readRecord fun record => ?_
  exact Triple.pure fun _ h => h

theorem sleepStamp (m : VmManager) (request : SuspendRequest) :
    Spec P (m.sleepStamp request) fun _ => P := by
  refine Triple.bind hP.readRecord fun record => ?_
  exact Triple.pure fun _ h => h

theorem prepareJail (m : VmManager) : Spec P m.prepareJail fun _ => P := by
  refine Triple.bind (hP.status m) fun status => ?_
  split
  · exact Triple.pure fun _ h => h
  · exact hP.attempt _

theorem reserveSnapshotMemory : Spec P VmManager.reserveSnapshotMemory fun _ => P := by
  refine Triple.bind hP.jailed fun jailed => ?_
  split
  · exact Triple.pure fun _ h => h
  refine Triple.fallible (hP.attempt _) (fun _ => Triple.pure fun _ h => h) fun _ => ?_
  exact Triple.pure fun _ h => h

end VmWorld.Framed

/-! ### Without a stamp -/

/-- An action that neither publishes a snapshot nor loads one. -/
def VmAction.Spares : VmAction → Prop
  | publish => False
  | loadSnapshot _ _ _ => False
  | _ => True

namespace VmWorld

/-- A fallible action changes the world to what it is where it is carried out, or not at all. -/
theorem fallible_keeps {α : Type} {P : VmWorld → Prop} {w after : VmWorld} (hw : P w)
    (hafter : P after) (c : Answer) (a : α) : P (w.fallible after c a).1 := by
  rw [fallible]
  split
  · exact hafter
  · exact hw

/-- A call changes the world where a process takes it and it is carried out. -/
theorem call_keeps {P : VmWorld → Prop} {w : VmWorld} {peer : Option ℕ} {c : Answer}
    {takes : VmmMode → Bool} {after : VmmProcess → VmWorld} (hw : P w)
    (hafter : ∀ p, w.callee peer = some p → takes p.mode → c.carriedOut → P (after p)) :
    P (w.call peer c takes after).1 := by
  rw [call]
  split
  · split
    · exact hw
    · exact hw
  · next p hp =>
    split
    · next htakes =>
      rw [fallible]
      split
      · next hc => exact hafter p hp htakes hc
      · exact hw
    · exact hw

/-- What holds after a step that may fail: `Q` where it succeeded and `R` where it did not. -/
def Yields {α : Type} (Q R : VmWorld → Prop) : Except VmError α → VmWorld → Prop
  | .ok _ => Q
  | .error _ => R

theorem fallible_yields {α : Type} {Q R : VmWorld → Prop} {w after : VmWorld} {c : Answer} {a : α}
    (hfailed : R w) (hlost : R after) (hdone : Q after) :
    Yields Q R (w.fallible after c a).2 (w.fallible after c a).1 := by
  cases c with
  | done => exact hdone
  | lost error => exact hlost
  | failed error => exact hfailed

theorem call_yields {Q R : VmWorld → Prop} {w : VmWorld} {peer : Option ℕ} {c : Answer}
    {takes : VmmMode → Bool} {after : VmmProcess → VmWorld} (hfailed : R w)
    (hdone : ∀ p, w.callee peer = some p → takes p.mode → c = .done → Q (after p))
    (hlost : ∀ p, w.callee peer = some p → takes p.mode → R (after p)) :
    Yields Q R (w.call peer c takes after).2 (w.call peer c takes after).1 := by
  rw [call]
  split
  · split
    · exact hfailed
    · exact hfailed
  · next p hp =>
    split
    · next htakes =>
      cases c with
      | done => exact hdone p hp htakes rfl
      | lost error => exact hlost p hp htakes
      | failed error => exact hfailed
    · exact hfailed

theorem Bare.perform {e : VmAction} (he : e.Spares) {w : VmWorld} (h : w.Bare) (c : Answer) :
    (perform e c w).1.Bare := by
  have hstorage : ∀ f : SnapshotStorage → SnapshotStorage,
      (f w.storage).manifest = none → (w.onStorage f).Bare :=
    fun f hf => bare_of_manifest hf h.1.loads
  have hpub : w.storage.manifest = none := h.2
  -- only a publication writes a manifest, and only a load needs one
  cases e with
  | attempt _ | readRecord | isAlive _ | readStamp | readExchangeBootId => exact h
  | writeRecord _ =>
    refine fallible_keeps h ?_ c _
    exact h.of_manifest rfl rfl
  | forget | kill _ | removeSocket => exact h.of_manifest rfl rfl
  | startProcess _ =>
    refine fallible_keeps h ?_ c _
    exact h.of_manifest rfl rfl
  | pause _ | resume _ => exact call_keeps h fun _ _ _ _ => h.of_manifest rfl rfl
  | createSnapshot _ => exact call_keeps h fun _ _ _ _ => hstorage _ hpub
  | loadSnapshot _ _ _ => exact he.elim
  | removeStamp => exact hstorage _ w.storage.manifest_removeStamp
  | removePublished => exact hstorage _ rfl
  | stage => exact fallible_keeps h (hstorage _ hpub) c _
  | writeStamp manifest => exact fallible_keeps h (hstorage (·.writeStamp manifest) hpub) c _
  | writeExchangeBootId _ =>
    refine fallible_keeps h ?_ c _
    exact h.of_manifest rfl rfl
  | publish => exact he.elim
  | dropStaged => exact hstorage _ hpub
  | removeExchanged file => exact hstorage (·.removeExchanged file) hpub
  | removeExchange => exact hstorage _ hpub
  | hashFile _ | sealFile _ =>
    rw [VmWorld.perform]
    split <;> exact h
  | takeFile _ | linkFile _ =>
    rw [VmWorld.perform]
    split
    · exact fallible_keeps h (hstorage _ hpub) c _
    · exact h

end VmWorld

/-- Without a stamp every action but a publication or a load leaves none. -/
theorem bare_ask {e : VmAction} (he : e.Spares) : Spec Bare (ask e) fun _ => Bare :=
  framed_bare.ask fun _ c hw _ => hw.perform he c

theorem discardSnapshot_spec : Spec Kept VmManager.discardSnapshot fun _ => Bare := by
  have hstamp : Spec Kept (ask .removeStamp) fun _ => Bare := by
    refine framed_kept.ask fun w _ hw _ => ?_
    exact bare_of_manifest w.storage.manifest_removeStamp hw.loads
  exact Triple.bind hstamp fun _ => bare_ask trivial

theorem spawn_bare (m : VmManager) (boot : Bool) :
    Spec Bare (VmProcesses.spawn m boot) fun _ => Bare := by
  have hP := framed_bare
  refine Triple.fallible (hP.attempt _) (fun _ => Triple.pure fun _ h => h) fun _ => ?_
  refine Triple.bind (bare_ask trivial) fun _ => ?_
  refine Triple.fallible (hP.attempt _) (fun _ => Triple.pure fun _ h => h) fun _ => ?_
  refine Triple.fallible (hP.attempt _) (fun _ => Triple.pure fun _ h => h) fun _ => ?_
  refine Triple.fallible (bare_ask trivial) (fun _ => Triple.pure fun _ h => h) fun pid => ?_
  exact hP.writeRecord _

theorem stage_bare (m : VmManager) : Spec Bare m.stage fun _ => Bare := by
  have hP := framed_bare
  refine Triple.fallible (hP.attempt _) (fun _ => Triple.pure fun _ h => h) fun _ => ?_
  refine Triple.fallible (hP.prepareJail m) (fun _ => Triple.pure fun _ h => h) fun _ => ?_
  refine Triple.fallible (hP.attempt _) (fun _ => Triple.pure fun _ h => h) fun _ => ?_
  refine Triple.fallible (hP.attempt _) (fun _ => Triple.pure fun _ h => h) fun _ => ?_
  refine Triple.fallible (hP.attempt _) (fun _ => Triple.pure fun _ h => h) fun _ => ?_
  exact hP.attempt _

theorem boot_spec (m : VmManager) : Spec Kept m.boot fun _ => Kept := by
  have hP := framed_bare
  refine Triple.fallible (framed_kept.attempt _) (fun _ => Triple.pure fun _ h => h) fun _ => ?_
  refine Triple.bind discardSnapshot_spec fun _ => ?_
  refine Triple.fallible (stage_bare m) (fun _ => Triple.pure hP.kept) fun _ => ?_
  refine Triple.fallible (spawn_bare m true) (fun _ => Triple.pure hP.kept) fun _ => ?_
  refine Triple.bind (hP.attempt _) ?_
  rintro (error | _)
  · refine Triple.bind hP.stop fun _ => ?_
    exact Triple.pure hP.kept
  · exact Triple.pure hP.kept

/-! ### From a capture to its publication -/

/-- Both files stand in the exchange, captured at the present count. -/
def Captured (_ : VmManager) (d : SnapshotStorage) (clock : ℕ) : Prop :=
  d.manifest = none ∧ ∀ file, d.exchange file = some clock

/-- The state file has been taken out of the exchange. -/
def HalfTaken (_ : VmManager) (d : SnapshotStorage) (clock : ℕ) : Prop :=
  d.manifest = none ∧ (∀ s, d.staged = some s → s.files .state = some clock) ∧
    d.exchange .memory = some clock

/-- What is staged was captured at the present count. -/
def Taken (_ : VmManager) (d : SnapshotStorage) (clock : ℕ) : Prop :=
  d.manifest = none ∧ ∀ s, d.staged = some s → ∀ file, s.files file = some clock

/-- The step a capture is made at: the VMM that is told to is paused, and by the condition no
other process runs a guest. -/
theorem createSnapshot_captures (peer : Option ℕ) :
    Spec Bare (ask (.createSnapshot peer)) (Yields (Stands Captured) Bare) := by
  refine framed_bare.ask fun w c hw hsound => ?_
  refine call_yields hw ?_ ?_
  · intro p hp hmode hc
    have hpaused : p.mode = .paused := by simpa using hmode
    have hcarried : c.carriedOut = true := by rw [hc]; rfl
    have hquiet : w.Quiet := by
      intro q hq
      by_cases hqp : q = p
      · rw [hqp, hpaused]
        decide
      · exact hsound hcarried p hp q hq hqp
    exact ⟨kept_of_manifest hw.2 hw.1.loads, hquiet, hw.2, fun _ => rfl⟩
  · intro p _ _
    exact hw.of_manifest rfl rfl

/-- The state file is renamed into the staged directory. -/
theorem takeState_spec :
    Spec (Stands Captured) (ask (.takeFile .state)) (Yields (Stands HalfTaken) Bare) := by
  refine (framed_stands _).ask fun w c hw _ => ?_
  obtain ⟨hm, hfiles⟩ := hw.2.2
  simp only [perform, hfiles]
  have htaken : (w.onStorage (·.takeFile .state)).Stands HalfTaken := by
    refine hw.onStorage hm fun _ => ⟨hm, ?_, ?_⟩
    · intro s hs
      obtain ⟨s₀, _, rfl⟩ := Option.map_eq_some_iff.mp hs
      simp [hfiles]
    · simp [SnapshotStorage.takeFile, hfiles]
  exact fallible_yields (hw.bare hm) (htaken.bare hm) htaken

theorem takeMemory_spec :
    Spec (Stands HalfTaken) (ask (.takeFile .memory)) (Yields (Stands Taken) Bare) := by
  refine (framed_stands _).ask fun w c hw _ => ?_
  obtain ⟨hm, hstate, hmemory⟩ := hw.2.2
  simp only [perform, hmemory]
  have htaken : (w.onStorage (·.takeFile .memory)).Stands Taken := by
    refine hw.onStorage hm fun _ => ⟨hm, ?_⟩
    intro s hs file
    obtain ⟨s₀, hs₀, rfl⟩ := Option.map_eq_some_iff.mp hs
    cases file with
    | state => simpa using hstate s₀ hs₀
    | memory => simp [hmemory]
  exact fallible_yields (hw.bare hm) (htaken.bare hm) htaken

theorem captureInto_spec : Spec Bare VmManager.captureInto (Yields (Stands Taken) Bare) := by
  refine Triple.bind framed_bare.api fun peer => ?_
  refine Triple.fallible (createSnapshot_captures peer) (fun _ => Triple.pure fun _ h => h)
    fun _ => ?_
  refine Triple.fallible takeState_spec (fun _ => Triple.pure fun _ h => h) fun _ => ?_
  exact takeMemory_spec

theorem removeExchanged_taken {file : SnapshotFile} :
    Spec (Stands Taken) (ask (.removeExchanged file)) fun _ => Stands Taken := by
  refine (framed_stands _).ask fun w _ hw _ => ?_
  have hm : w.storage.manifest = none := hw.2.2.1
  exact hw.onStorage (f := (·.removeExchanged file)) hm id

theorem sealFile_taken {file : SnapshotFile} :
    Spec (Stands Taken) (ask (.sealFile file)) fun _ => Stands Taken := by
  refine (framed_stands _).ask fun w _ hw _ => ?_
  rw [perform]
  split
  · exact hw
  · exact hw

theorem writeStamp_taken (manifest : SnapshotManifest) :
    Spec (Stands Taken) (ask (.writeStamp manifest)) fun _ => Stands Taken := by
  refine (framed_stands _).ask fun w c hw _ => ?_
  have hm : w.storage.manifest = none := hw.2.2.1
  refine fallible_keeps hw ?_ c _
  refine hw.onStorage (f := (·.writeStamp manifest)) hm fun h => ⟨hm, ?_⟩
  intro s hs file
  obtain ⟨s₀, hs₀, rfl⟩ := Option.map_eq_some_iff.mp hs
  exact h.2 s₀ hs₀ file

theorem publish_taken : Spec (Stands Taken) (ask .publish) fun _ => Kept := by
  refine (framed_stands _).ask fun w _ hw _ => ?_
  obtain ⟨hkept, hquiet, _, hstaged⟩ := hw
  change (w.onStorage (·.publish)).Kept
  cases hs : w.storage.staged with
  | none =>
    have hsame : w.storage.publish = w.storage := by rw [SnapshotStorage.publish, hs]
    rw [onStorage, hsame]
    exact hkept
  | some s =>
    refine ⟨fun d hd _ => ⟨hquiet, ?_⟩, hkept.loads⟩
    have hd' : some s = some d := by
      rw [← hd]
      simp [onStorage, SnapshotStorage.publish, hs]
    obtain rfl := Option.some.inj hd'
    exact hstaged s hs

theorem createSnapshot_spec (m : VmManager) :
    Spec Bare m.createSnapshot (Yields (Stands Taken) Bare) := by
  have hP := framed_bare
  refine Triple.fallible (hP.attempt _) (fun _ => Triple.pure fun _ h => h) fun _ => ?_
  refine Triple.fallible (bare_ask trivial) (fun _ => Triple.pure fun _ h => h) fun _ => ?_
  refine Triple.fallible (hP.attempt _) (fun _ => Triple.pure fun _ h => h) fun _ => ?_
  refine Triple.bind (bare_ask trivial) fun _ => ?_
  refine Triple.bind (bare_ask trivial) fun _ => ?_
  refine Triple.bind captureInto_spec ?_
  rintro (error | _)
  · refine Triple.bind (bare_ask trivial) fun _ => ?_
    refine Triple.bind (bare_ask trivial) fun _ => ?_
    refine Triple.bind (discardSnapshot_spec.of_le hP.kept) fun _ => ?_
    exact Triple.pure fun _ h => h
  · refine Triple.bind removeExchanged_taken fun _ => ?_
    refine Triple.bind removeExchanged_taken fun _ => ?_
    exact Triple.pure fun _ h => h

/-- The publication: what was captured at the present count, with no guest executing, is what
becomes stamped. -/
theorem publish_spec (stamp : SnapshotStamp) :
    Spec (Stands Taken) (StagedSnapshot.publish stamp) fun _ => Kept := by
  have hP := framed_stands Taken
  refine Triple.fallible sealFile_taken (fun _ => Triple.pure hP.kept) fun state => ?_
  refine Triple.fallible sealFile_taken (fun _ => Triple.pure hP.kept) fun memory => ?_
  refine Triple.fallible (writeStamp_taken _) (fun _ => Triple.pure hP.kept) fun _ => ?_
  refine Triple.fallible (hP.attempt _) (fun _ => Triple.pure hP.kept) fun _ => ?_
  refine Triple.fallible (hP.attempt _) (fun _ => Triple.pure hP.kept) fun _ => ?_
  refine Triple.bind publish_taken fun _ => ?_
  exact framed_kept.attempt _

theorem createAndPublish_spec (m : VmManager) (stamp : SnapshotStamp) :
    Spec Bare (m.createAndPublish stamp) fun _ => Kept := by
  refine Triple.fallible (createSnapshot_spec m) (fun _ => Triple.pure framed_bare.kept) fun _ => ?_
  exact publish_spec stamp

theorem stagedSnapshot_spec (m : VmManager) (stamp : SnapshotStamp) :
    Spec Bare (m.stagedSnapshot stamp) fun _ => Kept := by
  have hdrop : Spec Kept (ask .dropStaged) fun _ => Kept :=
    framed_kept.ask fun w _ hw _ => ⟨hw.published, hw.loads⟩
  refine Triple.fallible (bare_ask trivial) (fun _ => Triple.pure framed_bare.kept) fun _ => ?_
  refine Triple.bind (createAndPublish_spec m stamp) fun outcome => ?_
  refine Triple.bind hdrop fun _ => ?_
  exact Triple.pure fun _ h => h

theorem releaseCgroup_spec (outcome : Except VmError Unit) :
    Spec Kept (VmManager.releaseStopped outcome) fun _ => Kept := by
  have hP := framed_kept
  unfold VmManager.releaseStopped
  split
  · refine Triple.bind hP.jailed fun jailed => ?_
    split
    · refine Triple.fallible (hP.attempt _) (fun _ => Triple.pure fun _ h => h) fun _ => ?_
      exact Triple.pure fun _ h => h
    · exact Triple.pure fun _ h => h
  · exact Triple.pure fun _ h => h

theorem settleSnapshot_spec (outcome : Except VmError Unit) (reserved : Bool) :
    Spec Kept (VmManager.settleSnapshot outcome reserved) fun _ => Kept := by
  have hP := framed_kept
  have hended : Spec Kept (VmManager.endSnapshot outcome) fun _ => Kept := by
    unfold VmManager.endSnapshot
    split
    · exact hP.stop
    · exact discardSnapshot_spec.to_le fun _ => framed_bare.kept
  refine Triple.bind hended fun _ => ?_
  split
  · refine Triple.bind (hP.attempt _) ?_
    rintro (error | _)
    · refine Triple.bind hP.stop fun _ => ?_
      exact Triple.pure fun _ h => h
    · exact releaseCgroup_spec outcome
  · exact releaseCgroup_spec outcome

theorem snapshotPausedVm_spec (m : VmManager) (stamp : SnapshotStamp) :
    Spec Bare (m.snapshotPausedVm stamp) fun _ => Kept := by
  refine Triple.fallible framed_bare.reserveSnapshotMemory (fun _ => Triple.pure framed_bare.kept)
    fun reserved => ?_
  refine Triple.bind (stagedSnapshot_spec m stamp) fun outcome => ?_
  exact settleSnapshot_spec outcome reserved

/-- A guest runs on. By the condition nothing is stamped where a VMM carries the call out. -/
theorem resume_spec (peer : Option ℕ) : Spec Kept (ask (.resume peer)) fun _ => Kept := by
  refine framed_kept.ask fun w c hw hsound => ?_
  refine call_keeps hw fun p hp _ hc => ?_
  exact kept_of_manifest (hsound hc p hp) hw.loads

theorem resumeFrozenTenant_spec : Spec Kept VmManager.resumeFrozenTenant fun _ => Kept := by
  have hP := framed_kept
  have hresume : Spec Kept VmManager.resumeAndSync fun _ => Kept := by
    refine Triple.bind hP.api fun peer => ?_
    refine Triple.fallible (resume_spec peer) (fun _ => Triple.pure fun _ h => h) fun _ => ?_
    exact hP.attempt _
  refine Triple.fallible hresume (fun _ => hP.stop) fun _ => ?_
  exact Triple.pure fun _ h => h

theorem sleep_spec (m : VmManager) (request : SuspendRequest) :
    Spec Kept (m.sleep request) fun _ => Kept := by
  have hP := framed_bare
  refine Triple.fallible (framed_kept.attempt _) (fun _ => Triple.pure fun _ h => h) fun _ => ?_
  refine Triple.bind (framed_kept.sleepStamp m request) fun stamp => ?_
  refine Triple.bind framed_kept.api fun peer => ?_
  refine Triple.bind discardSnapshot_spec fun _ => ?_
  refine Triple.bind (hP.attempt _) fun _ => ?_
  refine Triple.bind (hP.attempt _) ?_
  rintro (error | _)
  · refine Triple.bind (hP.attempt _) fun _ => ?_
    exact Triple.pure hP.kept
  refine Triple.bind (bare_ask trivial) ?_
  rintro (error | _)
  · refine Triple.bind (resumeFrozenTenant_spec.of_le hP.kept) fun _ => ?_
    exact Triple.pure fun _ h => h
  refine Triple.bind (snapshotPausedVm_spec m stamp) ?_
  rintro (error | _)
  · refine Triple.bind resumeFrozenTenant_spec fun _ => ?_
    exact Triple.pure fun _ h => h
  · exact Triple.pure fun _ h => h

/-! ### From a wake's checks to its load -/

/-- The published files were captured at the present count. -/
def Loadable (m manager : VmManager) (d : SnapshotStorage) (clock : ℕ) : Prop :=
  manager = m ∧ ∀ s, d.published = some s → ∀ file, s.files file = some clock

/-- They can no longer be loaded by another wake. -/
def Claimed (m manager : VmManager) (d : SnapshotStorage) (clock : ℕ) : Prop :=
  d.manifest = none ∧ Loadable m manager d clock

/-- The state file is linked into the exchange. -/
def HalfLinked (m manager : VmManager) (d : SnapshotStorage) (clock : ℕ) : Prop :=
  Claimed m manager d clock ∧ d.exchange .state = some clock

/-- Both files are linked into the exchange. -/
def Linked (m manager : VmManager) (d : SnapshotStorage) (clock : ℕ) : Prop :=
  HalfLinked m manager d clock ∧ d.exchange .memory = some clock

/-- The invariant under the daemon `m`. -/
def KeptBy (m : VmManager) (w : VmWorld) : Prop := w.Kept ∧ w.manager = m

theorem framed_keptBy (m : VmManager) : Framed (KeptBy m) where
  stable := by
    intro move w hw
    refine ⟨framed_kept.stable move w hw.1, ?_⟩
    change (w.drift move).manager = m
    rw [manager_drift]
    exact hw.2
  kept := fun _ h => h.1
  kill := fun w pid h => ⟨framed_kept.kill w pid h.1, h.2⟩
  record := fun w record h => ⟨framed_kept.record w record h.1, h.2⟩

/-- What reading the stamp gives. -/
def Found (m : VmManager) : Option SnapshotManifest → VmWorld → Prop
  | some _ => Stands (Loadable m)
  | none => Kept

/-- A stamp that can be read is that of a snapshot no guest has outrun. -/
theorem readStamp_spec (m : VmManager) : Spec (KeptBy m) (ask .readStamp) (Found m) := by
  refine (framed_keptBy m).ask fun w c hw _ => ?_
  cases c with
  | lost error => exact hw.1
  | failed error => exact hw.1
  | done =>
    change Found m w.storage.manifest w
    cases hmanifest : w.storage.manifest with
    | none => exact hw.1
    | some manifest =>
      obtain ⟨d, hd, hstamp⟩ := Option.bind_eq_some_iff.mp hmanifest
      have hne : d.manifest ≠ none := by rw [hstamp]; exact Option.some_ne_none _
      obtain ⟨hquiet, hfiles⟩ := hw.1.published d hd hne
      refine ⟨hw.1, hquiet, hw.2, fun s hs => ?_⟩
      obtain rfl : d = s := Option.some.inj (hd.symm.trans hs)
      exact hfiles

theorem verifyFile_spec {P : VmWorld → Prop} (hP : Framed P) (file : SnapshotFile)
    (expected : ℕ) : Spec P (verifyFile file expected) fun _ => P := by
  have hhash : Spec P (ask (.hashFile file)) fun _ => P := by
    refine hP.ask fun w _ hw _ => ?_
    rw [perform]
    split
    · exact hw
    · exact hw
  refine Triple.fallible hhash (fun _ => Triple.pure fun _ h => h) fun captured => ?_
  dsimp only
  split
  · exact Triple.pure fun _ h => h
  · exact Triple.pure fun _ h => h

/-- What a wake's checks give: `stamp` is the one due, and the files are of the present count. -/
def Checked (m : VmManager) (expected : SnapshotStamp) (r : Except VmError SnapshotStamp) :
    VmWorld → Prop :=
  match r with
  | .ok stamp => fun w => stamp = expected ∧ w.Stands (Loadable m)
  | .error _ => Kept

theorem ensureLoadable_spec (m : VmManager) (expected : SnapshotStamp) :
    Spec (KeptBy m) (ensureLoadable expected) (Checked m expected) := by
  have hP := framed_stands (Loadable m)
  refine Triple.bind (readStamp_spec m) ?_
  rintro (_ | stored)
  · exact Triple.pure fun _ h => h
  dsimp only
  cases hdrift : driftFrom stored.stamp expected with
  | some reason => exact Triple.pure hP.kept
  | none =>
  have hstamp : stored.stamp = expected := eq_of_driftFrom_eq_none hdrift
  have hagain : Spec (Stands (Loadable m)) (ask .readStamp) fun _ => Stands (Loadable m) :=
    hP.ask fun _ _ hw _ => hw
  refine Triple.bind hagain ?_
  rintro (_ | manifest)
  · exact Triple.pure hP.kept
  refine Triple.fallible (verifyFile_spec hP _ _) (fun _ => Triple.pure hP.kept) fun _ => ?_
  refine Triple.fallible (verifyFile_spec hP _ _) (fun _ => Triple.pure hP.kept) fun _ => ?_
  exact Triple.pure fun _ h => ⟨hstamp, h⟩

theorem checkSnapshot_spec (m : VmManager) (request : SuspendRequest) :
    Spec (KeptBy m) (m.checkSnapshot request) (Checked m (m.currentStamp request)) := by
  have hP := framed_stands (Loadable m)
  have hdiscard : ∀ error : VmError, Spec Kept
      (do VmManager.discardSnapshot; return .error error)
      (Checked m (m.currentStamp request)) := by
    intro error
    refine Triple.bind discardSnapshot_spec fun _ => ?_
    exact Triple.pure framed_bare.kept
  refine Triple.fallible (ensureLoadable_spec m _) hdiscard fun stamp => ?_
  by_cases hstamp : stamp = m.currentStamp request
  swap
  · exact fun _ h => absurd h.1 hstamp
  refine Triple.of_le (P := Stands (Loadable m)) ?_ fun _ h => h.2
  refine Triple.bind hP.jailed fun jailed => ?_
  split
  · exact (hdiscard _).of_le hP.kept
  refine Triple.bind (hP.sleepStamp m request) fun asleep => ?_
  split
  · exact (hdiscard _).of_le hP.kept
  · exact Triple.pure fun _ h => ⟨hstamp, h⟩

theorem removeStamp_spec (m : VmManager) :
    Spec (Stands (Loadable m)) (ask .removeStamp) fun _ => Stands (Claimed m) := by
  refine (framed_stands _).ask fun w _ hw _ => ?_
  refine hw.onStorage (f := (·.removeStamp)) (w.storage.manifest_removeStamp) ?_
  rintro ⟨hmanager, hfiles⟩
  refine ⟨w.storage.manifest_removeStamp, hmanager, ?_⟩
  intro s hs file
  obtain ⟨s₀, hs₀, rfl⟩ := Option.map_eq_some_iff.mp hs
  exact hfiles s₀ hs₀ file

/-- Linking a published file into the exchange adds it there. -/
theorem linkFile_spec (m : VmManager) (file : SnapshotFile)
    {φ : VmManager → SnapshotStorage → ℕ → Prop} (hclaimed : ∀ m' d t, φ m' d t → Claimed m m' d t)
    (hremoved : ∀ m' d t, φ m' d t → φ m' (d.removeExchanged file) t)
    (hlinked : ∀ m' d t, φ m' d t → φ m' (d.linkFile file) t) :
    Spec (Stands φ) (VmManager.linkFile file)
      (Yields (Stands fun m' d t => φ m' d t ∧ d.exchange file = some t) Kept) := by
  have hP := framed_stands φ
  have hremove : Spec (Stands φ) (ask (.removeExchanged file)) fun _ => Stands φ := by
    refine hP.ask fun w _ hw _ => ?_
    exact hw.onStorage (f := (·.removeExchanged file)) (hclaimed _ _ _ hw.2.2).1
      (hremoved _ _ _)
  refine Triple.bind hremove fun _ => ?_
  refine Triple.fallible (hP.attempt _) (fun _ => Triple.pure hP.kept) fun _ => ?_
  refine Triple.fallible (hP.attempt _) (fun _ => Triple.pure hP.kept) fun _ => ?_
  refine hP.ask fun w c hw _ => ?_
  obtain ⟨hm, -, hfiles⟩ := hclaimed _ _ _ hw.2.2
  simp only [perform]
  split
  · next captured hcaptured =>
    obtain ⟨d, hd, hfile⟩ := Option.bind_eq_some_iff.mp hcaptured
    have hlink : (w.onStorage (·.linkFile file)).Stands
        fun m' d t => φ m' d t ∧ d.exchange file = some t := by
      refine hw.onStorage (f := (·.linkFile file)) hm fun h => ⟨hlinked _ _ _ h, ?_⟩
      simp [SnapshotStorage.linkFile, hd, hfiles d hd]
    exact fallible_yields hw.1 hlink.1 hlink
  · exact hw.1

theorem linkState_spec (m : VmManager) :
    Spec (Stands (Claimed m)) (VmManager.linkFile .state)
      (Yields (Stands (HalfLinked m)) Kept) :=
  linkFile_spec m .state (fun _ _ _ h => h) (fun _ _ _ h => h) fun _ _ _ h => h

theorem linkMemory_spec (m : VmManager) :
    Spec (Stands (HalfLinked m)) (VmManager.linkFile .memory)
      (Yields (Stands (Linked m)) Kept) := by
  refine linkFile_spec m .memory (fun _ _ _ h => h.1) ?_ ?_
  · rintro m' d t ⟨hclaimed, hstate⟩
    exact ⟨hclaimed, by simpa [SnapshotStorage.removeExchanged] using hstate⟩
  · rintro m' d t ⟨hclaimed, hstate⟩
    exact ⟨hclaimed, by simpa [SnapshotStorage.linkFile] using hstate⟩

theorem prepareRestore_spec (m : VmManager) :
    Spec (Stands (Claimed m)) m.prepareRestore (Yields (Stands (Linked m)) Kept) := by
  have hP := framed_stands (Claimed m)
  refine Triple.fallible (hP.prepareJail m) (fun _ => Triple.pure hP.kept) fun _ => ?_
  refine Triple.fallible (hP.attempt _) (fun _ => Triple.pure hP.kept) fun _ => ?_
  refine Triple.fallible (hP.attempt _) (fun _ => Triple.pure hP.kept) fun _ => ?_
  refine Triple.fallible (hP.attempt _) (fun _ => Triple.pure hP.kept) fun _ => ?_
  refine Triple.fallible (hP.attempt _) (fun _ => Triple.pure hP.kept) fun _ => ?_
  refine Triple.fallible (linkState_spec m) (fun _ => Triple.pure fun _ h => h) fun _ => ?_
  exact linkMemory_spec m

/-- A VMM started empty leaves a standing world standing. -/
theorem spawn_stands (m : VmManager) (φ : VmManager → SnapshotStorage → ℕ → Prop) :
    Spec (Stands φ) (VmProcesses.spawn m false) fun _ => Stands φ := by
  have hP := framed_stands φ
  have hsocket : Spec (Stands φ) (ask .removeSocket) fun _ => Stands φ :=
    hP.ask fun w _ hw _ => hw.of_quiet rfl rfl rfl rfl id
  have hstart : Spec (Stands φ) (ask (.startProcess false)) fun _ => Stands φ := by
    refine hP.ask fun w c hw _ => ?_
    refine fallible_keeps hw ?_ c _
    refine hw.of_quiet rfl rfl rfl rfl fun hquiet p hp => ?_
    rcases List.mem_append.mp hp with hold | hnew
    · exact hquiet p hold
    · rw [List.mem_singleton.mp hnew]
      exact VmmMode.noConfusion
  refine Triple.fallible (hP.attempt _) (fun _ => Triple.pure fun _ h => h) fun _ => ?_
  refine Triple.bind hsocket fun _ => ?_
  refine Triple.fallible (hP.attempt _) (fun _ => Triple.pure fun _ h => h) fun _ => ?_
  refine Triple.fallible (hP.attempt _) (fun _ => Triple.pure fun _ h => h) fun _ => ?_
  refine Triple.fallible hstart (fun _ => Triple.pure fun _ h => h) fun pid => ?_
  exact hP.writeRecord _

/-- The load: what the VMM reads in the exchange was captured at the present count. -/
theorem loadSnapshot_spec (m : VmManager) (request : SuspendRequest) (peer : Option ℕ) :
    Spec (Stands (Linked m)) (ask (.loadSnapshot peer request (m.currentStamp request)))
      fun _ => Bare := by
  refine (framed_stands _).ask fun w c hw _ => ?_
  obtain ⟨⟨⟨hm, hmanager, -⟩, hstate⟩, hmemory⟩ := hw.2.2
  simp only [perform, hstate, hmemory]
  refine call_keeps (hw.bare hm) fun p _ _ _ => ?_
  refine bare_of_manifest hm fun l hl => ?_
  rcases List.mem_append.mp hl with hold | hnew
  · exact hw.1.loads l hold
  · rw [List.mem_singleton.mp hnew]
    refine ⟨fun file => ?_, ?_⟩
    · cases file with
      | state => rfl
      | memory => rfl
    · rw [hmanager]

theorem resumeRestoredTenant_spec : Spec Bare VmManager.resumeRestoredTenant fun _ => Bare := by
  have hP := framed_bare
  refine Triple.bind hP.api fun peer => ?_
  refine Triple.fallible (bare_ask trivial) (fun _ => Triple.pure fun _ h => h) fun _ => ?_
  refine Triple.fallible (hP.attempt _) (fun _ => Triple.pure fun _ h => h) fun _ => ?_
  exact hP.attempt _

theorem restore_spec (m : VmManager) (request : SuspendRequest) :
    Spec (Stands (Linked m)) (m.restore request (m.currentStamp request)) fun _ => Kept := by
  have hP := framed_stands (Linked m)
  refine Triple.fallible (spawn_stands m _) (fun _ => Triple.pure hP.kept) fun _ => ?_
  refine Triple.bind hP.api fun peer => ?_
  refine Triple.fallible (loadSnapshot_spec m request peer)
    (fun _ => Triple.pure framed_bare.kept) fun _ => ?_
  exact resumeRestoredTenant_spec.to_le fun _ => framed_bare.kept

/-- What follows a restore, whichever way it went, leaves nothing stamped. -/
theorem afterRestore_spec (outcome : Except VmError Unit) :
    Spec Kept (VmManager.afterRestore outcome) fun _ => Kept := by
  have htail : Spec Kept VmManager.cleanRestore fun _ => Kept := by
    refine Triple.bind discardSnapshot_spec fun _ => ?_
    refine Triple.bind (bare_ask trivial) fun _ => ?_
    have hmemory : Spec Bare (ask (.removeExchanged .memory)) fun _ => Bare := bare_ask trivial
    exact hmemory.to_le fun _ => framed_bare.kept
  rcases outcome with error | _
  · refine Triple.bind framed_kept.stop fun _ => ?_
    refine Triple.bind htail fun _ => ?_
    exact Triple.pure fun _ h => h
  · refine Triple.bind htail fun _ => ?_
    exact Triple.pure fun _ h => h

theorem wake_spec (m : VmManager) (request : SuspendRequest) :
    Spec (KeptBy m) (m.wake request) fun _ => Kept := by
  refine Triple.fallible ((framed_keptBy m).attempt _) (fun _ => Triple.pure fun _ h => h.1)
    fun _ => ?_
  refine Triple.fallible (checkSnapshot_spec m request) (fun _ => Triple.pure fun _ h => h)
    fun stamp => ?_
  by_cases hstamp : stamp = m.currentStamp request
  swap
  · exact fun _ h => absurd h.1 hstamp
  rw [hstamp]
  refine Triple.of_le (P := Stands (Loadable m)) ?_ fun _ h => h.2
  refine Triple.bind (removeStamp_spec m) fun _ => ?_
  refine Triple.fallible (prepareRestore_spec m) (fun _ => Triple.pure fun _ h => h) fun _ => ?_
  refine Triple.bind (restore_spec m request) fun outcome => ?_
  exact afterRestore_spec outcome

/-! ### The other operations and the recovery -/

theorem stop_spec : Spec Kept VmManager.stop fun _ => Kept := by
  refine Triple.bind discardSnapshot_spec fun _ => ?_
  refine Triple.bind framed_bare.stop fun _ => ?_
  exact Triple.pure framed_bare.kept

theorem discard_spec : Spec Kept VmManager.discard fun _ => Kept := by
  refine Triple.bind discardSnapshot_spec fun _ => ?_
  refine Triple.bind (bare_ask trivial) fun _ => ?_
  refine Triple.bind (bare_ask trivial) fun _ => ?_
  exact Triple.pure framed_bare.kept

/-- Reaping removes snapshots and stamps none. -/
theorem reapStaleSnapshots_spec (m : VmManager) :
    Spec Kept (reapStaleSnapshots m) fun _ => Kept := by
  have hP := framed_kept
  have hexchange : Spec Kept (reapExchange m) fun _ => Kept := by
    refine Triple.fallible (hP.attempt _) (fun _ => Triple.pure fun _ h => h) fun _ => ?_
    refine Triple.bind (hP.ask (Q := fun _ => Kept) fun _ _ hw _ => hw) fun bootId => ?_
    split
    · exact hP.ask fun w _ hw _ => ⟨hw.published, hw.loads⟩
    · exact Triple.pure fun _ h => h
  have hpublished : Spec Kept (reapPublished m) fun _ => Kept := by
    refine Triple.fallible (hP.attempt _) (fun _ => Triple.pure fun _ h => h) fun _ => ?_
    refine Triple.bind (hP.ask (Q := fun _ => Kept) fun _ _ hw _ => hw) fun stamp => ?_
    split
    · exact hP.ask fun w _ hw _ => kept_of_manifest rfl hw.loads
    · exact Triple.pure fun _ h => h
  have hstaged : Spec Kept reapStaged fun _ => Kept := by
    refine Triple.fallible (hP.attempt _) (fun _ => Triple.pure fun _ h => h) fun _ => ?_
    exact hP.ask fun w _ hw _ => ⟨hw.published, hw.loads⟩
  refine Triple.fallible (hP.attempt _) (fun _ => Triple.pure fun _ h => h) fun _ => ?_
  refine Triple.bind hexchange fun _ => ?_
  refine Triple.bind hpublished fun _ => ?_
  refine Triple.bind hstaged fun _ => ?_
  exact Triple.pure fun _ h => h

/-- Every operation keeps the invariant, wherever it is cut. -/
theorem safe_program (w : VmWorld) (op : VmOperation) (hw : w.Kept) :
    vmHost.Safe Kept (vmHost.program w op) (fun _ => Kept) w := by
  cases op with
  | boot => exact boot_spec w.manager w hw
  | sleep request => exact sleep_spec w.manager request w hw
  | wake request => exact wake_spec w.manager request w ⟨hw, rfl⟩
  | stop => exact stop_spec w hw
  | discard => exact discard_spec w hw

/-- A crash leaves the disk and the processes, and a reboot ends every process. -/
theorem kept_cut (outage : Outage) (w : VmWorld) (hw : w.Kept) : (w.cut outage).Kept := by
  cases outage with
  | crash next => exact hw.of_quiet rfl rfl rfl id
  | reboot next recordKept =>
    refine hw.of_quiet rfl rfl rfl fun _ p hp => ?_
    exact absurd hp List.not_mem_nil

/-! ### Every load is fresh -/

/-- **Snapshot freshness.** From any host on which nothing is stamped, under every order of
operations, failures, crashes and reboots whose steps meet the condition, every snapshot a wake
loads was captured after the last execution of any guest of the app, and its stamp names the
request's deployment, guest image, host boot and slot. -/
theorem VmWorld.loads_fresh (w : VmWorld) (hw : w.storage.manifest = none) (hl : w.loads = [])
    (moves : List VmMove)
    (hm : Run.Meets vmHost.step vmHost.Allowed ⟨w, none⟩ moves) :
    ∀ l ∈ (Run.run vmHost.step ⟨w, none⟩ moves).world.loads, l.Fresh := by
  have hkept : w.Kept := by
    refine kept_of_manifest hw ?_
    rw [hl]
    exact List.forall_mem_nil _
  exact (InterruptibleSystem.invariant framed_kept.stable safe_program kept_cut
    (fun w hw => reapStaleSnapshots_spec w.manager w hw) hkept hm).loads

/-- The moves of `n` actions that are carried out. -/
def carriedOut (n : ℕ) : List VmMove := List.replicate n (.step .done)

/-- A boot, a sleep and a wake in which nothing fails. -/
def uneventful (request : SuspendRequest) : List VmMove :=
  .start .boot :: carriedOut 17 ++ .drift .execute ::
    .start (.sleep request) :: carriedOut 37 ++ .start (.wake request) :: carriedOut 39

theorem VmWorld.loads_fresh_uneventful :
    let request : SuspendRequest := ⟨⟨"deployment-1"⟩, 3⟩
    let w := VmWorld.initial ⟨"image-1", "boot-1"⟩
    (Run.run vmHost.step ⟨w, none⟩ (uneventful request)).world.loads.length = 1 ∧
      ∀ l ∈ (Run.run vmHost.step ⟨w, none⟩ (uneventful request)).world.loads, l.Fresh :=
  ⟨by decide +kernel, VmWorld.loads_fresh _ rfl rfl _ (by decide +kernel)⟩

/-- A sleep whose record cannot be read when its published snapshot's VMM is to be stopped: the
VMM is still in the cgroup that is to be released, so the sleep fails and resumes the guest. It
executes and ends, and the next wake finds the stamp. -/
def overtaken (request : SuspendRequest) : List VmMove :=
  .start .boot :: carriedOut 17 ++
    .start (.sleep request) :: carriedOut 30 ++ .step (.failed (.host "os error 5")) ::
      carriedOut 2 ++ .step (.failed (.host "os error 16")) :: carriedOut 3 ++
    .drift .execute :: .drift (.exit 1 (.code 0) true) ::
    .start (.wake request) :: carriedOut 39

/-- The load of a snapshot the guest has outrun. -/
theorem VmWorld.loads_overtaken :
    ¬ ∀ (w : VmWorld) (_ : w.storage.manifest = none) (_ : w.loads = []) (moves : List VmMove),
      ∀ l ∈ (Run.run vmHost.step ⟨w, none⟩ moves).world.loads, l.Fresh := by
  intro h
  let w := VmWorld.initial ⟨"image-1", "boot-1"⟩
  have hload : (Run.run vmHost.step ⟨w, none⟩ (overtaken ⟨⟨"deployment-1"⟩, 3⟩)).world.loads.any
      (fun l => l.captured .memory < l.clock) = true := by decide +kernel
  obtain ⟨l, hl, hlt⟩ := List.any_eq_true.mp hload
  have hfresh := (h w rfl rfl _ l hl).1 .memory
  have hlt' : l.captured .memory < l.clock := by simpa using hlt
  omega

end Nibrunner

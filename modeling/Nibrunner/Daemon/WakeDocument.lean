import Nibrunner.Daemon.Sleeps
import Nibrunner.Host.AcceptedDocument

/-!
# Wakes and the document

The waker reads what is wanted of an app from the document the host is on, once. The transition of
the app may then be held by a sleep for as long as a snapshot takes, and nothing keeps another
document from being accepted until the wake has it. What is wanted is not read again under the
transition, as the due check of a sleep is.

A `WakingHost` is a daemon and the documents of its host. Its moves are those of the daemon's tasks,
among them the stops, the discards and the starts of passes; the acceptance of a document; a request
for an app, which is what begins a wake; and whatever else passes do to the host.

* `wakes_wanted_run`: along every run in which each document that is accepted still wants what the
  wakes under way found wanted, a wake asks the VM manager only for what the document wants;
* `not_wakesWanted`: a document that no longer names the app is accepted while a wake waits for a
  sleep, and the wake asks for the app's microVM.
-/

namespace Nibrunner

open Std

/-- The document names the app with the deployment, and does not want it stopped. -/
def RevisedDocument.Wants (d : RevisedDocument) (app : AppId) (deployment : DeploymentId) : Prop :=
  ∃ wanted ∈ d.instances, wanted.appId = app ∧ wanted.deploymentId = deployment ∧
    wanted.desiredState ≠ .stopped

instance (d : RevisedDocument) (app : AppId) (deployment : DeploymentId) :
    Decidable (d.Wants app deployment) :=
  inferInstanceAs (Decidable (∃ wanted ∈ d.instances, _ ∧ _ ∧ _))

/-! ### Calls of the VM manager -/

/-- What the next step of a wake asks the VM manager to bring up: its snapshot, or cold. -/
def Task.asksFor : Task → Option (AppId × DeploymentId)
  | wake wanted _ (.enter _) => some (wanted.appId, wanted.deploymentId)
  | wake wanted _ (.cold (.enter _ _)) => some (wanted.appId, wanted.deploymentId)
  | _ => none

/-- The start may still call the VM manager. -/
def StartPc.mayYetAsk : StartPc → Bool
  | begin | allocate _ | decide _ _ | attach _ _ | enter _ _ => true
  | _ => false

/-- The wake may still call the VM manager. -/
def WakePc.mayYetAsk : WakePc → Bool
  | room | lock | allocate | status _ | attach _ | enter _ | load _ | check _ | spawn _ | restore
  | reap _ => true
  | cold pc => pc.mayYetAsk
  | _ => false

/-! ### A host and its wakes -/

structure WakingHost (Digest : Type) where
  daemon : Daemon
  converge : ConvergeHost Digest

/-- The task of the move is a wake. -/
def Move.beginsWake : Move → Bool
  | begin _ (.wake _ _) => true
  | _ => false

inductive WakingMove where
  /-- A document is accepted, if the registry can follow it. -/
  | accept (desired : RevisedDocument)
  /-- A request for an app, and what its wake is answered. -/
  | wake (task : ℕ) (app : AppId) (answers : Host.WakeAnswers)
  | daemon (move : Move)
  /-- The volumes, the exports, the teardowns and the slots of a pass. -/
  | others (host : Host)

namespace WakingHost

variable {Digest : Type}

/-- A host with no task in flight. -/
def quiet (h : Host) (permits : ℕ) (converge : ConvergeHost Digest) : WakingHost Digest where
  daemon := .quiet h permits
  converge := converge

/-- What is wanted of an app. -/
def wanted (s : WakingHost Digest) (app : AppId) : Option DesiredInstance :=
  s.converge.latest.bind fun desired => desired.instances.find? fun wanted => wanted.appId = app

def accept (s : WakingHost Digest) (desired : RevisedDocument) : WakingHost Digest :=
  match s.converge.accept desired with
  | .error _ => s
  | .ok (converge, _) => { s with converge }

/-- A wake begins with what is wanted of its app. -/
def wake (s : WakingHost Digest) [Platform] (task : ℕ) (app : AppId)
    (answers : Host.WakeAnswers) : WakingHost Digest :=
  match s.wanted app with
  | none => s
  | some wanted =>
    if wanted.desiredState = .stopped then s
    else { s with daemon := s.daemon.step (.begin task (.wake wanted answers)) }

def step [Platform] (s : WakingHost Digest) : WakingMove → WakingHost Digest
  | .accept desired => s.accept desired
  | .wake task app answers => s.wake task app answers
  | .daemon move => if move.beginsWake then s else { s with daemon := s.daemon.step move }
  | .others host => { s with daemon := { s.daemon with host } }

abbrev run [Platform] (s : WakingHost Digest) (moves : List WakingMove) : WakingHost Digest :=
  Run.run step s moves

/-- Every call a wake is about to make of the VM manager is for what the document wants. -/
def WakesWanted (s : WakingHost Digest) : Prop :=
  ∀ (t : ℕ) (app : AppId) (deployment : DeploymentId),
    (s.daemon.tasks t).bind Task.asksFor = some (app, deployment) →
    ∃ desired, s.converge.latest = some desired ∧ desired.Wants app deployment

/-- **A document that is accepted wants what wakes are about to bring up**: the app and the
deployment of every wake that may still call the VM manager. -/
def KeepsWakes (s : WakingHost Digest) : WakingMove → Prop
  | .accept desired => desired.Distinct → ∀ t wanted answers pc,
      s.daemon.tasks t = some (.wake wanted answers pc) → pc.mayYetAsk = true →
        desired.Wants wanted.appId wanted.deploymentId
  | _ => True

end WakingHost

/-! ### Steps of wakes -/

/-- A start that may still call the VM manager could do so before. -/
theorem StartPc.mayYetAsk_next [Platform] {d : Daemon} {desired : DesiredInstance}
    {answers : StartAnswers} {pc after : StartPc} (h : (pc.next d desired answers).2 = some after)
    (hafter : after.mayYetAsk = true) : pc.mayYetAsk = true := by
  cases pc with
  | begin | allocate existing | decide existing slot | attach existing slot
  | enter existing slot => rfl
  | check slot | spawn slot | initialise =>
    simp only [next] at h
    split at h <;> cases h <;> cases hafter
  | reap process reason =>
    cases h
    cases hafter
  | say message | busy existing | failed reason | booted => cases h

/-- A wake that may still call the VM manager could do so before. -/
theorem WakePc.mayYetAsk_next [Platform] {d : Daemon} {t : ℕ} {wanted : DesiredInstance}
    {answers : Host.WakeAnswers} {pc after : WakePc}
    (h : (pc.next d t wanted answers).2 = some after) (hafter : after.mayYetAsk = true) :
    pc.mayYetAsk = true := by
  -- what only answers or lets the lock go leads back to no question; all else may yet ask
  cases pc with
  | room | lock | allocate | status slot | attach slot | enter slot | load slot | check snapshot
  | spawn snapshot | restore | reap process => rfl
  | cold pc =>
    have heq : (pc.next d wanted answers.start).2.elim unlock cold = after := Option.some.inj h
    cases hpc : (pc.next d wanted answers.start).2 with
    | none =>
      rw [hpc] at heq
      subst heq
      cases hafter
    | some pc' =>
      rw [hpc] at heq
      subst heq
      exact StartPc.mayYetAsk_next hpc hafter
  | noRoom shortfall => cases h
  | restored | say reason =>
    cases h
    cases hafter
  | unlock => cases h

/-- A task that goes on as a wake was one. -/
theorem Task.wake_of_next [Platform] {d : Daemon} {t : ℕ} (task : Task) {wanted : DesiredInstance}
    {answers : Host.WakeAnswers} {pc : WakePc}
    (h : (task.next d t).2 = some (.wake wanted answers pc)) :
    ∃ before, task = .wake wanted answers before ∧
      (before.next d t wanted answers).2 = some pc := by
  cases Task.goesOn h with
  | wake hpc => exact ⟨_, rfl, hpc⟩

/-- A call of the VM manager is one a wake may still make. -/
theorem Task.mayYetAsk_of_asksFor {task : Task} {app : AppId} {deployment : DeploymentId}
    (h : task.asksFor = some (app, deployment)) :
    ∃ wanted answers pc, task = .wake wanted answers pc ∧ pc.mayYetAsk = true ∧
      wanted.appId = app ∧ wanted.deploymentId = deployment := by
  unfold asksFor at h
  split at h
  next wanted answers slot =>
    obtain ⟨rfl, rfl⟩ := Prod.mk.inj (Option.some.inj h)
    exact ⟨wanted, answers, .enter slot, rfl, rfl, rfl, rfl⟩
  next wanted answers existing slot =>
    obtain ⟨rfl, rfl⟩ := Prod.mk.inj (Option.some.inj h)
    exact ⟨wanted, answers, .cold (.enter existing slot), rfl, rfl, rfl, rfl⟩
  next => cases h

/-! ### Runs -/

namespace WakingHost

variable {Digest : Type} {s : WakingHost Digest}

/-- What every wake found wanted is wanted still, while it may call the VM manager. -/
def WantsWakes (s : WakingHost Digest) : Prop :=
  ∀ (t : ℕ) (wanted : DesiredInstance) (answers : Host.WakeAnswers) (pc : WakePc),
    s.daemon.tasks t = some (.wake wanted answers pc) → pc.mayYetAsk = true →
      ∃ desired, s.converge.latest = some desired ∧ desired.Wants wanted.appId wanted.deploymentId

theorem WantsWakes.wakesWanted (h : s.WantsWakes) : s.WakesWanted := by
  intro t app deployment hasks
  obtain ⟨task, ht, hasks⟩ := Option.bind_eq_some_iff.mp hasks
  obtain ⟨wanted, answers, pc, rfl, hmay, rfl, rfl⟩ := Task.mayYetAsk_of_asksFor hasks
  exact h t wanted answers pc ht hmay

theorem WantsWakes.accept (h : s.WantsWakes) {desired : RevisedDocument}
    (hkeeps : s.KeepsWakes (.accept desired)) : (s.accept desired).WantsWakes := by
  unfold WakingHost.accept
  split
  next => exact h
  next converge changes haccept =>
    obtain ⟨hdistinct, tables, -, rfl⟩ := ConvergeHost.accept_eq_ok haccept
    intro t wanted answers pc ht hmay
    exact ⟨desired, rfl, hkeeps hdistinct t wanted answers pc ht hmay⟩

section Steps

variable [Platform]

/-- A wake begins with what the document wants. -/
theorem WantsWakes.wake (h : s.WantsWakes) (t : ℕ) (app : AppId) (answers : Host.WakeAnswers) :
    (s.wake t app answers).WantsWakes := by
  unfold WakingHost.wake
  split
  next => exact h
  next wanted hwanted =>
    split
    next => exact h
    next hrunning =>
      obtain ⟨desired, hlatest, hfind⟩ := Option.bind_eq_some_iff.mp hwanted
      intro t' wanted' answers' pc ht' hmay
      rcases Daemon.tasks_step ht' with hkept | ⟨operation, ⟨⟩, ⟨⟩⟩ | ⟨⟨⟩, -⟩
      · exact h t' wanted' answers' pc hkept hmay
      · exact ⟨desired, hlatest, wanted, List.mem_of_find?_eq_some hfind, rfl, rfl, hrunning⟩

/-- A step of the daemon's tasks changes nothing of what a wake found wanted. -/
theorem WantsWakes.daemon (h : s.WantsWakes) {move : Move} (hmove : move.beginsWake = false) :
    WantsWakes { s with daemon := s.daemon.step move } := by
  intro t wanted answers pc ht hmay
  rcases Daemon.tasks_step ht with hkept | ⟨operation, rfl, hbegun⟩ | ⟨rfl, task, htask, hnext⟩
  · exact h t wanted answers pc hkept hmay
  · cases hbegun with
    | wake => cases hmove
  · obtain ⟨before, rfl, hpc⟩ := Task.wake_of_next task hnext
    exact h t wanted answers before htask (WakePc.mayYetAsk_next hpc hmay)

theorem WantsWakes.step (h : s.WantsWakes) (m : WakingMove) (hkeeps : s.KeepsWakes m) :
    (s.step m).WantsWakes := by
  cases m with
  | accept desired => exact h.accept hkeeps
  | wake t app answers => exact h.wake t app answers
  | daemon move =>
    show WantsWakes (if move.beginsWake then s else { s with daemon := s.daemon.step move })
    split
    next => exact h
    next hmove => exact h.daemon (Bool.eq_false_of_not_eq_true hmove)
  | others host => exact h

theorem WantsWakes.run {h : Host} {permits : ℕ} {converge : ConvergeHost Digest}
    {moves : List WakingMove}
    (hm : Run.Meets WakingHost.step KeepsWakes (quiet h permits converge) moves) :
    (WakingHost.run (quiet h permits converge) moves).WantsWakes :=
  hm.invariant (fun _ m hs hkeeps => hs.step m hkeeps) fun _ _ _ _ ht => by cases ht

/-- **A wake brings up only what the document wants**, along every run in which each document that
is accepted still wants the app and the deployment of every wake that may yet call the VM manager.
-/
theorem wakes_wanted_run (h : Host) (permits : ℕ) (converge : ConvergeHost Digest)
    (moves : List WakingMove) (hm : Run.Meets step KeepsWakes (quiet h permits converge) moves) :
    (run (quiet h permits converge) moves).WakesWanted :=
  (WantsWakes.run hm).wakesWanted

end Steps

/-! ### A request that waits for a sleep -/

/-- A document with the app of the small host. -/
def named : RevisedDocument where
  toHostDesiredState := ⟨[soleVolume], [onRequestInstance], [], []⟩
  hostId := "host-1"
  revision := "1"

/-- The document after the app was taken out of it. -/
def emptied : RevisedDocument where
  toHostDesiredState := ⟨[], [], [], []⟩
  hostId := "host-1"
  revision := "2"

/-- The app is falling asleep when it is asked for. The wake finds it wanted and room for it, and
waits for the sleep. -/
def heldUp : List WakingMove :=
  [.accept named, .daemon (.begin 0 (.suspend ⟨"app-1"⟩ .ok))] ++
    List.replicate 4 (.daemon (.step 0)) ++
    [.wake 1 ⟨"app-1"⟩ wakeSucceeds] ++ List.replicate 2 (.daemon (.step 1))

/-- Then another document is accepted and the sleep ends, and the wake goes on to the call of the VM
manager. -/
def heldUpUnder (next : RevisedDocument) : List WakingMove :=
  heldUp ++ .accept next ::
    (List.replicate 6 (.daemon (.step 0)) ++ List.replicate 4 (.daemon (.step 1)))

/-- A document with the same instances keeps every wake. -/
theorem WantsWakes.keeps (h : s.WantsWakes) {held desired : RevisedDocument}
    (hheld : s.converge.latest = some held) (hsame : desired.instances = held.instances) :
    s.KeepsWakes (.accept desired) := by
  intro _ t wanted answers pc ht hmay
  obtain ⟨latest, hlatest, hwants⟩ := h t wanted answers pc ht hmay
  obtain rfl := Option.some.inj (hheld.symm.trans hlatest)
  rwa [RevisedDocument.Wants, hsame]

theorem wakes_wanted_run_heldUpUnder :
    let s := @run Unit .plain (quiet awakeHost 2 .fresh)
      (heldUpUnder { named with revision := "2" })
    s.WakesWanted ∧ (s.daemon.tasks 1).bind Task.asksFor = some (⟨"app-1"⟩, ⟨"dep-1"⟩) := by
  have hbefore : @Run.Meets _ _ (@step Unit .plain) KeepsWakes (quiet awakeHost 2 .fresh)
      heldUp := by
    refine ⟨fun _ t wanted answers pc ht => (by cases ht), ?_⟩
    repeat' constructor
  have hkeeps := @WantsWakes.keeps Unit _ (@WantsWakes.run Unit .plain _ _ _ _ hbefore) named
    { named with revision := "2" } (by decide +kernel) rfl
  refine ⟨@wakes_wanted_run Unit .plain awakeHost 2 .fresh _
    (Run.meets_append.mpr ⟨hbefore, hkeeps, ?_⟩), by decide +kernel⟩
  repeat' constructor

/-- The wake asks for the microVM of the app no document names any more. -/
theorem not_wakesWanted :
    ¬ ∀ (_ : Platform) (h : Host) (permits : ℕ) (moves : List WakingMove),
      (run (quiet h permits (.fresh : ConvergeHost Unit)) moves).WakesWanted := by
  intro hall
  obtain ⟨desired, hlatest, hwants⟩ := hall .plain awakeHost 2 (heldUpUnder emptied) 1 ⟨"app-1"⟩
    ⟨"dep-1"⟩ (by decide +kernel)
  have hemptied : (@run Unit .plain (quiet awakeHost 2 .fresh)
      (heldUpUnder emptied)).converge.latest = some emptied := by
    decide +kernel
  rw [hlatest] at hemptied
  obtain rfl := Option.some.inj hemptied
  revert hwants
  decide

end WakingHost

end Nibrunner

import Nibrunner.ForStd.Run
import Nibrunner.Reconcile.PassEffects

/-!
# The host as a transition system

Everything that moves a host, one completed operation at a time: passes over changing documents,
the status loop, the idle pass putting an app to sleep, requests waking one, guests ending by
themselves, and the single operations a pass is made of. A run of the host is a list of these.

`view_step` says what one event can do to one app (`EventEffect`), and is all that the invariants
of runs are proved from.
-/

namespace Nibrunner

/-- One completed operation, with everything its adapters answered. -/
inductive Event where
  | pass (d : HostDesiredState) (answers : Host.PassAnswers)
  | refresh (answers : RefreshAnswers)
  | suspend (app : AppId) (answer : Host.SleepAnswer)
  | wake (wanted : DesiredInstance) (answers : Host.WakeAnswers)
  | guestExit (app : AppId) (exit : VmExit)
  | stop (app : AppId)
  | sleep (desired : DesiredInstance)
  | hold (desired : DesiredInstance)
  | waitForRoom (desired : DesiredInstance) (shortfallMib : ℕ)
  | start (desired : DesiredInstance) (answers : StartAnswers)

namespace Host

/-- What an event does, where `stops` says what becomes of each process it asks to stop. A start, a
wait for room, a hold and a sleeping record are only ever asked for an app whose microVM was seen
down. -/
def stepAs [Platform] (stops : AppId → StopAnswer) (h : Host) : Event → Host
  | .pass d answers => h.reconcileAs stops d answers
  | .refresh answers => h.refreshStates answers
  | .suspend app answer => h.suspendInstance app answer (stops app)
  | .wake wanted answers => h.wakeApp wanted answers (stops wanted.appId)
  | .guestExit app exit => h.guestExit app exit
  | .stop app => h.stopInstance app (stops app)
  | .sleep desired => if h.isUp desired.appId then h else h.sleepInstance desired
  | .hold desired => if h.isUp desired.appId then h else h.holdInstance desired
  | .waitForRoom desired shortfallMib =>
    if h.isUp desired.appId then h else h.waitForRoom desired shortfallMib
  | .start desired answers =>
    if h.isUp desired.appId then h else h.startInstance desired answers (stops desired.appId)

/-- The same where they all go down. -/
abbrev step [Platform] : Host → Event → Host := stepAs fun _ => .down

/-- The host a run of events leads to. -/
abbrev run [Platform] (h : Host) (events : List Event) : Host := Run.run Host.step h events

end Host

/-- **What one event can do to one app.** -/
inductive EventEffect [Platform] (h : Host) (app : AppId) : Event → AppView → Prop where
  /-- The event is about another app, or finds nothing to do. -/
  | same (e : Event) : EventEffect h app e (h.view app)
  | passed (d : HostDesiredState) (answers : Host.PassAnswers) (v' : AppView)
      (he : PassEffect h d answers app v') : EventEffect h app (.pass d answers) v'
  | refreshed (answers : RefreshAnswers) :
      EventEffect h app (.refresh answers)
        { h.view app with
          record := (h.view app).record.map fun r => (h.reading answers app r).settle r }
  | suspended (answer : Host.SleepAnswer) (v' : AppView) (he : SuspendEffect (h.view app) v') :
      EventEffect h app (.suspend app answer) v'
  /-- A request leaves a sentence on the record. -/
  | said (wanted : DesiredInstance) (answers : Host.WakeAnswers)
      (said : InstanceRecord → Option String) :
      EventEffect h app (.wake wanted answers)
        { h.view app with
          record := (h.view app).record.map fun r => { r with message := said r } }
  | woken (wanted : DesiredInstance) (happ : wanted.appId = app) (answers : Host.WakeAnswers)
      (v' : AppView) (he : ResumeEffect wanted answers (h.view app) v') :
      EventEffect h app (.wake wanted answers) v'
  | exited (exit : VmExit) :
      EventEffect h app (.guestExit app exit)
        { h.view app with vm := (h.view app).vm.map (Vm.ended · exit) }
  | stopped : EventEffect h app (.stop app) (h.view app).stop
  | slept (desired : DesiredInstance) (happ : desired.appId = app) (hdown : h.isUp app = false)
      (v' : AppView)
      (he : SlotEffect desired (adoptedRecord (h.view app).record desired · .idle)
        (h.view app) v') :
      EventEffect h app (.sleep desired) v'
  | held (desired : DesiredInstance) (happ : desired.appId = app) (hdown : h.isUp app = false)
      (v' : AppView)
      (he : SlotEffect desired
        (fun slot => .new (recordFields desired slot) .stopped initialTracker)
        (h.view app) v') :
      EventEffect h app (.hold desired) v'
  | waiting (desired : DesiredInstance) (happ : desired.appId = app) (hdown : h.isUp app = false)
      (shortfallMib : ℕ) (v' : AppView)
      (he : SlotEffect desired (waitingRecord (h.view app).record desired shortfallMib)
        (h.view app) v') :
      EventEffect h app (.waitForRoom desired shortfallMib) v'
  | started (desired : DesiredInstance) (happ : desired.appId = app) (hdown : h.isUp app = false)
      (answers : StartAnswers) (v' : AppView) (he : StartEffect desired answers (h.view app) v') :
      EventEffect h app (.start desired answers) v'

namespace Host

/-- The app an event is about is touched as `happ` says, and no other is. -/
private theorem EventEffect.of_onlyApp [Platform] {h h' : Host} {e : Event} {target : AppId}
    (hf : OnlyApp target h h') (happ : EventEffect h target e (h'.view target)) (app : AppId) :
    EventEffect h app e (h'.view app) := by
  by_cases ha : app = target
  · subst ha
    exact happ
  · rw [hf.view ha]
    exact .same e

theorem view_step [Platform] {h : Host} (hk : h.Keyed) (e : Event) (app : AppId) :
    EventEffect h app e ((h.step e).view app) := by
  cases e with
  | pass d answers => exact .passed d answers _ (view_reconcile hk d answers app)
  | refresh answers =>
    rw [step, stepAs, view_refreshStates]
    exact .refreshed answers
  | suspend target answer =>
    exact EventEffect.of_onlyApp (.suspendInstance h target answer)
      (.suspended answer _ (view_suspendInstance h target answer)) app
  | wake wanted answers =>
    refine EventEffect.of_onlyApp (.wakeApp (hk wanted.appId) answers) ?_ app
    rcases view_wakeApp (hk wanted.appId) answers with ⟨said, hsaid⟩ | he
    · rw [hsaid]
      exact .said wanted answers said
    · exact .woken wanted rfl answers _ he
  | guestExit target exit =>
    refine EventEffect.of_onlyApp (.guestExit h target exit) ?_ app
    rw [view_guestExit]
    exact .exited exit
  | stop target =>
    refine EventEffect.of_onlyApp (.stopInstance h target) ?_ app
    rw [view_stopInstance]
    exact .stopped
  | sleep desired =>
    rw [step, stepAs]
    split
    · exact .same _
    · rename_i hdown
      exact EventEffect.of_onlyApp (.sleepInstance (hk desired.appId))
        (.slept desired rfl (Bool.not_eq_true _ ▸ hdown) _ (view_sleepInstance (hk desired.appId)))
        app
  | hold desired =>
    rw [step, stepAs]
    split
    · exact .same _
    · rename_i hdown
      exact EventEffect.of_onlyApp (.holdInstance (hk desired.appId))
        (.held desired rfl (Bool.not_eq_true _ ▸ hdown) _
          (view_holdInstance (hk desired.appId))) app
  | waitForRoom desired shortfallMib =>
    rw [step, stepAs]
    split
    · exact .same _
    · rename_i hdown
      exact EventEffect.of_onlyApp (.waitForRoom (hk desired.appId) shortfallMib)
        (.waiting desired rfl (Bool.not_eq_true _ ▸ hdown) shortfallMib _
          (view_waitForRoom (hk desired.appId) shortfallMib)) app
  | start desired answers =>
    rw [step, stepAs]
    split
    · exact .same _
    · rename_i hdown
      exact EventEffect.of_onlyApp (.startInstance (hk desired.appId) answers)
        (.started desired rfl (Bool.not_eq_true _ ▸ hdown) answers _
          (view_startInstance (hk desired.appId) answers)) app

end Host

/-- Every event keeps every record under its app. -/
theorem Host.Keyed.step [Platform] {h : Host} (hk : h.Keyed) (e : Event) : (h.step e).Keyed := by
  intro app
  have hmap : ∀ f : InstanceRecord → InstanceRecord, (∀ r, (f r).appId = r.appId) →
      ∀ r, (h.view app).record.map f = some r → r.appId = app := by
    intro f hf r hr
    obtain ⟨r', hr', rfl⟩ := Option.map_eq_some_iff.mp hr
    rw [hf]
    exact hk app r' hr'
  have heffect := h.view_step hk e app
  generalize hv : (h.step e).view app = v' at heffect
  -- a record is rewritten field by field or made from the document, under the app's own id
  cases heffect with
  | same e => exact hk app
  | passed d answers v' he =>
    rw [← hv]
    exact hk.reconcile d answers app
  | refreshed answers =>
    refine hmap _ fun r => ?_
    unfold Reading.settle
    repeat' split
    all_goals rfl
  | suspended answer v' he =>
    cases he with
    | nothing => exact hk app
    | stopped => exact (hk app).afterStop (.stop app .idle)
    | failed => exact hk app
    | lost => exact hk app
    | slept r vm slot hr hvm hup hslot =>
      intro r' hr'
      cases hr'
      exact hk app r hr
  | said wanted answers said => exact hmap _ fun _ => rfl
  | woken wanted happ answers v' he =>
    subst happ
    exact he.keyed (hk _)
  | exited exit => exact hk app
  | stopped => exact (hk app).afterStop (.stop app .idle)
  | slept desired happ hdown v' he =>
    subst happ
    exact he.keyed (hk _) fun _ => appId_adoptedRecord (hk _) _ _
  | held desired happ hdown v' he =>
    subst happ
    exact he.keyed (hk _) fun _ => rfl
  | waiting desired happ hdown shortfallMib v' he =>
    subst happ
    exact he.keyed (hk _) fun _ => appId_adoptedRecord (hk _) _ _
  | started desired happ hdown answers v' he =>
    subst happ
    exact he.keyed (hk _)

/-- Every run keeps every record under its app. -/
theorem Host.Keyed.run [Platform] {h : Host} (hk : h.Keyed) (events : List Event) :
    (h.run events).Keyed :=
  List.foldlRecOn events Host.step hk fun _ hk e _ => hk.step e

theorem Host.keyed_fresh (config : HostConfig) (maxApps : ℕ) :
    (Host.fresh config maxApps).Keyed := by
  intro app r hr
  simp [Host.view, Host.fresh] at hr

/-! ### A small host -/

/-- An app to be kept up on a volume of its own. -/
def soleInstance : DesiredInstance where
  appId := ⟨"app-1"⟩
  deploymentId := ⟨"dep-1"⟩
  volumeId := ⟨"vol-1"⟩
  desiredState := .running
  layers := []
  config := default
  hostnames := []

/-- Its volume. -/
def soleVolume : DesiredVolume where
  volumeId := ⟨"vol-1"⟩
  appId := ⟨"app-1"⟩
  sizeBytes := 512
  desiredState := .present

/-- One pass over a document that names both, in which every adapter does what it is asked. -/
def soleBroughtUp : List Event :=
  [.pass ⟨[soleVolume], [soleInstance], [], []⟩ (.succeed .change 0)]

/-- A host of four slots and a gibibyte for its guests. -/
def smallHost : Host :=
  .fresh { guestMemoryMib := 1024, proxyHttp := true, maxPortsPerGuest := none } 4

end Nibrunner

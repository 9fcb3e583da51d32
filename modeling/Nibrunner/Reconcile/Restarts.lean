import Nibrunner.Reconcile.System

/-!
# A host across the lives of its daemon

A daemon may die at any point of a pass, and the next one goes on from what is left: the microVMs,
the devices, the taps and the files are still there, and everything else is read back from the
store as the last write left it. `Installation` is a host with the two things of it that
`Host` leaves out, the taps and the rows of the store, and `Installation.step` moves it.

A pass is here the list of its actions, so that it can be cut short between any two of them.
`host_passRun` says that all of them together are `Host.reconcile`.
-/

namespace Nibrunner

open Std

/-! ### The actions of a pass -/

/-- What is answered about taps. -/
structure TapAnswers where
  /-- A boot that came to nothing had got as far as its tap. -/
  made : AppId → Bool
  deleted : ℕ → Bool

/-- One action of a pass. -/
inductive PassAction where
  | sync (wanted : DesiredInstance)
  | stop (p : InstancePlan)
  /-- What was observed of the volumes goes on record. -/
  | report
  | provision (desired : DesiredVolume)
  | sleep (p : InstancePlan)
  | hold (p : InstancePlan)
  /-- The isolation ruleset is loaded, or could not be. -/
  | isolate (loaded : Bool)
  | start (desired : DesiredInstance)
  | teardown (p : VolumePlan)
  | checkpoint (p : CheckpointPlan)

/-- A pass on its way. -/
structure PassState where
  host : Host
  /-- The records the wave of starts measures against, where it may start anything. -/
  wave : Option (List InstanceRecord)
  /-- The app each slot's tap was last made for, where there is one. -/
  taps : ExtTreeMap ℕ AppId

namespace Host

/-- The taps after an operation that may have booted `app`. -/
def tapsMade (before after : Host) (taps : ExtTreeMap ℕ AppId) (app : AppId) (made : Bool) :
    ExtTreeMap ℕ AppId :=
  match after.slotOf app with
  | some slot =>
    if (before.boots app).length < (after.boots app).length ∧ (made ∨ after.isUp app) then
      taps.insert slot app
    else taps
  | none => taps

/-- The taps once the slot of `app` is given back. -/
def tapsGivenBack (h : Host) (taps : ExtTreeMap ℕ AppId) (app : AppId) (deleted : ℕ → Bool) :
    ExtTreeMap ℕ AppId :=
  match h.slotOf app with
  | some slot => if deleted slot then taps.erase slot else taps
  | none => taps

/-- The taps after one action of the plan's volume half. -/
def tapsAfter (h : Host) (taps : ExtTreeMap ℕ AppId) (answers : TeardownAnswers)
    (deleted : ℕ → Bool) : VolumePlan → ExtTreeMap ℕ AppId
  | .teardown desired =>
    if answers.deleted desired.volumeId then h.tapsGivenBack taps desired.appId deleted else taps
  | .detach volume app =>
    if answers.detached volume then h.tapsGivenBack taps app deleted else taps
  | _ => taps

/-- The actions of a pass over `d` up to the wave of its starts. -/
def actionsBeforeStarts (h : Host) (d : HostDesiredState) (answers : PassAnswers) :
    List PassAction :=
  let o := h.observe d
  let plan := planReconcile d o
  d.instances.map .sync ++ plan.instances.map .stop ++
    .report :: (provisions plan o answers.trigger).map .provision ++
    plan.instances.map .sleep ++ plan.instances.map .hold ++ [.isolate answers.firewall]

/-- The actions of a pass over `d`, in their order. -/
def passActions (h : Host) (d : HostDesiredState) (answers : PassAnswers) : List PassAction :=
  let plan := planReconcile d (h.observe d)
  h.actionsBeforeStarts d answers ++ (startsOf plan).map .start ++
    plan.volumes.map .teardown ++ plan.checkpoints.map .checkpoint ++
    [.isolate answers.firewallAfter]

end Host

/-- A plan with nothing in it. -/
def ReconcilePlan.nothing : ReconcilePlan := ⟨[], [], [], []⟩

namespace PassState

open Host

/-- What an action does. -/
def act [Platform] (o : ObservedState) (d : HostDesiredState) (answers : PassAnswers)
    (taps : TapAnswers) (s : PassState) : PassAction → PassState
  | .sync wanted => { s with host := s.host.updateRecord wanted.appId (syncFields wanted) }
  | .stop p => { s with host := s.host.applyStop p }
  | .report =>
    { s with host := s.host.applyVolumes .nothing o d answers.trigger answers.provision }
  | .provision desired =>
    { s with host := s.host.provisionVolume desired (answers.provision desired.volumeId) }
  | .sleep p => { s with host := s.host.applySleep p }
  | .hold p => { s with host := s.host.applyHold p }
  | .isolate loaded =>
    let h := { s.host with isolated := loaded }
    { s with host := h, wave := if loaded then some h.recordList else none }
  | .start desired =>
    match s.wave with
    | none => s
    | some records =>
      let (h, records) := applyStart answers.start (s.host, records) desired
      { host := h
        wave := some records
        taps := s.host.tapsMade h s.taps desired.appId (taps.made desired.appId) }
  | .teardown p =>
    { s with
      host := applyTeardown answers.teardown s.host p
      taps := s.host.tapsAfter s.taps answers.teardown taps.deleted p }
  | .checkpoint p => { s with host := applyCheckpoint answers.checkpoint s.host p }

end PassState

/-- A pass over `d` as its first actions leave it, as many as `actions` lists. -/
def Host.passRun [Platform] (h : Host) (d : HostDesiredState) (answers : Host.PassAnswers)
    (taps : TapAnswers) (there : ExtTreeMap ℕ AppId) (actions : List PassAction) : PassState :=
  actions.foldl (PassState.act (h.observe d) d answers taps) ⟨h, none, there⟩

/-! ### The store, and what a new daemon makes of it -/

/-- The rows of the store. -/
structure StoredRows where
  assignments : ExtTreeMap AppId ℕ
  cursor : ℤ
  records : List InstanceRecord
  deletedVolumes : ExtTreeMap VolumeId ReportedVolume

/-- How far writing the host down got: the slots first, then the records, then the rest. -/
inductive WriteProgress where
  | nothing
  | slots
  | records
  | all
deriving DecidableEq

/-- The rows after the host was written down as far as `written`. -/
def StoredRows.writeDown (st : StoredRows) (h : Host) : WriteProgress → StoredRows
  | .nothing => st
  | .slots => { st with assignments := h.allocator.assignments, cursor := h.allocator.cursor }
  | .records =>
    { st with
      assignments := h.allocator.assignments
      cursor := h.allocator.cursor
      records := h.recordList }
  | .all => ⟨h.allocator.assignments, h.allocator.cursor, h.recordList, h.deletedVolumes⟩

/-- What a daemon that comes up is answered: which tables could be read, and which of the taps no
slot claims could be taken back. -/
structure LoadAnswers where
  slots : Bool
  cursor : Bool
  records : Bool
  deletedVolumes : Bool
  tapDeleted : ℕ → Bool

def LoadAnswers.succeed : LoadAnswers := ⟨true, true, true, true, fun _ => true⟩

namespace Host

/-- A table that cannot be read counts as empty. -/
def load (h : Host) (st : StoredRows) (answers : LoadAnswers) : Host :=
  { h with
    records := if answers.records then ExtTreeMap.indexBy (·.appId) st.records else ∅
    allocator :=
      h.allocator.restore (if answers.slots then st.assignments else ∅)
        (if answers.cursor then st.cursor else 0)
    deletedVolumes := if answers.deletedVolumes then st.deletedVolumes else ∅
    volumeReports := []
    isolated := false }

/-- A tap no slot claims belongs to an app that is gone. -/
def reclaimStrandedTaps (h : Host) (taps : ExtTreeMap ℕ AppId) (deleted : ℕ → Bool) :
    ExtTreeMap ℕ AppId :=
  taps.filter fun slot _ => slot ∈ h.allocator.taken ∨ ¬ deleted slot

end Host

/-! ### The installation as a transition system -/

structure Installation where
  host : Host
  taps : ExtTreeMap ℕ AppId
  stored : StoredRows

/-- What can happen to an installation, with what its adapters answer. -/
inductive Incident where
  | pass (d : HostDesiredState) (answers : Host.PassAnswers) (taps : TapAnswers)
    (written : WriteProgress)
  | refresh (answers : RefreshAnswers) (written : WriteProgress)
  | persist (written : WriteProgress)
  | suspend (app : AppId) (answer : Host.SleepAnswer)
  | wake (wanted : DesiredInstance) (answers : Host.WakeAnswers) (tapMade : Bool)
  | guestExit (app : AppId) (exit : VmExit)
  /-- The daemon dies after `performed` actions of a pass over `d`, and another comes up. -/
  | crash (d : HostDesiredState) (answers : Host.PassAnswers) (taps : TapAnswers)
    (performed : ℕ) (loaded : LoadAnswers)

/-- The cron tables can follow the document, so that it is applied. -/
def Applies (d : HostDesiredState) (answers : Host.PassAnswers) : Prop :=
  d.appIds.Nodup ∧ answers.cron = true

instance (d : HostDesiredState) (answers : Host.PassAnswers) : Decidable (Applies d answers) :=
  inferInstanceAs (Decidable (_ ∧ _))

namespace Installation

/-- An installation laid out for `maxApps` apps that holds nothing. -/
def fresh (config : HostConfig) (maxApps : ℕ) : Installation where
  host := .fresh config maxApps
  taps := ∅
  stored := ⟨∅, 0, [], ∅⟩

/-- A pass as its first `performed` actions leave it, and nothing of one that is not applied. -/
def passRun [Platform] (s : Installation) (d : HostDesiredState) (answers : Host.PassAnswers)
    (taps : TapAnswers) (performed : ℕ) : PassState :=
  s.host.passRun d answers taps s.taps
    (if Applies d answers then (s.host.passActions d answers).take performed else [])

/-- What an incident does. -/
def step [Platform] (s : Installation) : Incident → Installation
  | .pass d answers taps written =>
    if Applies d answers then
      let p := s.host.passRun d answers taps s.taps (s.host.passActions d answers)
      { host := p.host, taps := p.taps, stored := s.stored.writeDown p.host written }
    else s
  | .refresh answers written =>
    let h := s.host.refreshStates answers
    { s with host := h, stored := s.stored.writeDown h written }
  | .persist written => { s with stored := s.stored.writeDown s.host written }
  | .suspend app answer => { s with host := s.host.suspendInstance app answer }
  | .wake wanted answers tapMade =>
    let h := s.host.wakeApp wanted answers
    { s with host := h, taps := s.host.tapsMade h s.taps wanted.appId tapMade }
  | .guestExit app exit => { s with host := s.host.guestExit app exit }
  | .crash d answers taps performed loaded =>
    let p := s.passRun d answers taps performed
    let h := p.host.load s.stored loaded
    { s with host := h, taps := h.reclaimStrandedTaps p.taps loaded.tapDeleted }

/-- The installation a run of incidents leads to. -/
abbrev run [Platform] (s : Installation) (incidents : List Incident) : Installation :=
  Run.run Installation.step s incidents

theorem run_append [Platform] (s : Installation) (before after : List Incident) :
    s.run (before ++ after) = (s.run before).run after := Run.run_append _ _ _ _

end Installation

/-! ### All the actions of a pass are the pass -/

namespace PassState

open Host

variable [Platform] {o : ObservedState} {d : HostDesiredState} {answers : PassAnswers}
  {taps : TapAnswers}

/-- A phase whose actions move the host alone is a loop over the host. -/
private theorem foldl_act_host {α : Type} (action : α → PassAction) (f : Host → α → Host)
    (hact : ∀ s x, act o d answers taps s (action x) = { s with host := f s.host x })
    (l : List α) (s : PassState) :
    (l.map action).foldl (act o d answers taps) s = { s with host := l.foldl f s.host } := by
  induction l generalizing s with
  | nil => rfl
  | cons x l ih => rw [List.map_cons, List.foldl_cons, hact, ih, List.foldl_cons]

/-- A wave that may not start anything leaves the pass where it was. -/
private theorem foldl_start_none {s : PassState} (hs : s.wave = none)
    (l : List DesiredInstance) :
    (l.map PassAction.start).foldl (act o d answers taps) s = s := by
  rw [List.foldl_map]
  refine Frame.foldl_rel (R := fun s t => s.wave = none → t = s) (fun _ _ => rfl) ?_ l ?_ s hs
  · intro s t r hst htr hs
    obtain rfl := hst hs
    exact htr hs
  · intro s desired _ hs
    rw [act, hs]

private theorem foldl_start_host (l : List DesiredInstance) {s : PassState}
    {records : List InstanceRecord} (hs : s.wave = some records) :
    ((l.map PassAction.start).foldl (act o d answers taps) s).host =
      (l.foldl (applyStart answers.start) (s.host, records)).1 := by
  induction l generalizing s records with
  | nil => rfl
  | cons desired l ih =>
    have hwave : (act o d answers taps s (.start desired)).wave =
        some (applyStart answers.start (s.host, records) desired).2 := by rw [act, hs]
    rw [List.map_cons, List.foldl_cons, List.foldl_cons, ih hwave, act, hs]

/-- The volume phases move the host as their loop over it does. -/
private theorem host_foldl_teardown (l : List VolumePlan) (s : PassState) :
    ((l.map PassAction.teardown).foldl (act o d answers taps) s).host =
      l.foldl (applyTeardown answers.teardown) s.host := by
  induction l generalizing s with
  | nil => rfl
  | cons p l ih => rw [List.map_cons, List.foldl_cons, ih, List.foldl_cons, act]

end PassState

namespace Host

open PassState

variable [Platform] {h : Host} {d : HostDesiredState} {answers : PassAnswers} {taps : TapAnswers}
  {there : ExtTreeMap ℕ AppId}

/-- A pass up to the wave of its starts. -/
private theorem foldl_actionsBeforeStarts :
    (h.actionsBeforeStarts d answers).foldl (act (h.observe d) d answers taps) ⟨h, none, there⟩ =
      ⟨h.beforeStarts d answers,
        if answers.firewall then some (h.beforeStarts d answers).recordList else none, there⟩ := by
  simp only [actionsBeforeStarts, List.foldl_append, List.foldl_cons, List.foldl_nil]
  rw [foldl_act_host .sync (fun h wanted => h.updateRecord wanted.appId (syncFields wanted))
      fun _ _ => rfl,
    foldl_act_host .stop applyStop fun _ _ => rfl,
    foldl_act_host .provision (fun h desired => h.provisionVolume desired
      (answers.provision desired.volumeId)) fun _ _ => rfl,
    foldl_act_host .sleep applySleep fun _ _ => rfl,
    foldl_act_host .hold applyHold fun _ _ => rfl]
  rfl

/-- The wave of a pass starts what `applyStarts` starts. -/
private theorem host_foldl_start (plan : ReconcilePlan) :
    (((startsOf plan).map PassAction.start).foldl (act (h.observe d) d answers taps)
      ⟨h.beforeStarts d answers,
        if answers.firewall then some (h.beforeStarts d answers).recordList else none,
        there⟩).host =
      (h.beforeStarts d answers).applyStarts plan answers.start := by
  have hisolated : (h.beforeStarts d answers).isolated = answers.firewall := rfl
  unfold applyStarts
  dsimp only
  rw [hisolated]
  cases answers.firewall with
  | false =>
    rw [if_neg Bool.false_ne_true, foldl_start_none rfl, if_pos (.inr Bool.false_ne_true)]
  | true =>
    rw [if_pos rfl, foldl_start_host _ rfl]
    split
    · rename_i hnone
      rw [hnone.resolve_right fun hnot => hnot rfl]
      rfl
    · rfl

/-- **All the actions of a pass** move the host as the pass does. -/
theorem host_passRun (ha : Applies d answers) :
    (h.passRun d answers taps there (h.passActions d answers)).host = h.reconcile d answers := by
  rw [passRun, passActions]
  simp only [List.foldl_append, List.foldl_cons, List.foldl_nil]
  rw [foldl_actionsBeforeStarts,
    foldl_act_host .checkpoint (applyCheckpoint answers.checkpoint) fun _ _ => rfl,
    host_foldl_teardown, host_foldl_start, reconcile, reconcileAs,
    if_neg (not_or.mpr ⟨not_not.mpr ha.1, not_not.mpr ha.2⟩)]
  rfl

end Host

end Nibrunner

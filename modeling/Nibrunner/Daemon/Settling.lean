import Nibrunner.Daemon.TaskRecords

/-!
# The status loop beside the other tasks

A settle reads a record and the microVM's status, probes the guest, and writes what it makes of
them back where the record is still of the same start: the same deployment, start and attempts. A
write of another task since the reading is safe from it exactly where it leaves the record with one
of the three changed.

`Moves` says of the next write of each operation whether it does, in terms of the record it finds:

* a stop does not, when it says the app is stopping, and at its end only where attempts were spent;
* nor does a sleep where none were, as for a guest that was restored;
* a wait for room does where the app had been started or attempts were spent;
* a start does once an attempt is spent on it, but a refusal before that does not, nor does one
  turned away busy from a record that had not been started;
* a restore does where the guest it brings back had come up at another time.

Along every run in which each such write moves the record on, a settle leaves what an operation
wrote since its reading (`settle_keeps_run`). `not_settle_keeps` is a sleep of a restored guest that
a settle overwrites.
-/

namespace Nibrunner

open Std

/-- A deployment, a start and the attempts spent that are not those a reading was taken of. -/
def OtherStart (observed : InstanceRecord) (deployment : DeploymentId) (startedAt : Option ℤ)
    (attempts : AttemptWindow) : Prop :=
  ¬ (deployment = observed.deploymentId ∧ startedAt = observed.startedAt ∧
    attempts = observed.startAttempts)

/-- The record, where there is one, is of another start than the one read. -/
def MovedOn (observed : InstanceRecord) (latest : Option InstanceRecord) : Prop :=
  ∀ r, latest = some r → OtherStart observed r.deploymentId r.startedAt r.startAttempts

theorem sameStart_eq_false_iff {latest observed : InstanceRecord} :
    sameStart latest observed = false ↔
      OtherStart observed latest.deploymentId latest.startedAt latest.startAttempts := by
  rw [← Bool.not_eq_true]
  refine not_congr ?_
  simp only [sameStart, Bool.and_eq_true, decide_eq_true_eq, and_assoc]

/-! ### Which writes move a record on -/

/-- The start read of an app's copy of its record: none where it has none. -/
def startedAtOf (existing : Option InstanceRecord) : Option ℤ := existing.bind (·.startedAt)

def StopPc.Moves (latest : Option InstanceRecord) (observed : InstanceRecord) : StopPc → Prop
  | begin => MovedOn observed latest
  | finish =>
    ∀ r, latest = some r → OtherStart observed r.deploymentId r.startedAt noStartAttempts
  | _ => True

def SuspendPc.Moves (latest : Option InstanceRecord) (observed : InstanceRecord) :
    SuspendPc → Prop
  | stop pc => pc.Moves latest observed
  | idle _ =>
    ∀ r, latest = some r → OtherStart observed r.deploymentId r.startedAt noStartAttempts
  | _ => True

def StartPc.Moves (h : Host) (desired : DesiredInstance) (answers : StartAnswers)
    (observed : InstanceRecord) : StartPc → Prop
  | allocate _ =>
    h.slotFor desired.appId = none →
      OtherStart observed desired.deploymentId (startedAtOf h.records[desired.appId]?)
        (spentAttempts h.records[desired.appId]?)
  | decide existing _ =>
    if (ingressRefusal desired h.config).isSome ∨ (h.volumeRefusal desired.volumeId).isSome then
      OtherStart observed desired.deploymentId (startedAtOf existing) (spentAttempts existing)
    else
      OtherStart observed desired.deploymentId none
        (nextAttemptWindow (spentAttempts existing) answers.nowMs
          desired.config.restartPolicy.resetAfterMs)
  | busy existing =>
    ∀ r, h.records[desired.appId]? = some r →
      OtherStart observed r.deploymentId none (spentAttempts existing)
  | failed _ => MovedOn observed h.records[desired.appId]?
  | booted =>
    ∀ r, h.records[desired.appId]? = some r →
      OtherStart observed r.deploymentId (some answers.startedAtMs) r.startAttempts
  | _ => True

def WaitPc.Moves (h : Host) (desired : DesiredInstance) (observed : InstanceRecord) :
    WaitPc → Prop
  | allocate =>
    h.slotFor desired.appId = none →
      OtherStart observed desired.deploymentId (startedAtOf h.records[desired.appId]?)
        (spentAttempts h.records[desired.appId]?)
  | write _ _ => OtherStart observed desired.deploymentId none noStartAttempts
  | _ => True

def WakePc.Moves (h : Host) (wanted : DesiredInstance) (answers : Host.WakeAnswers)
    (observed : InstanceRecord) : WakePc → Prop
  | restored =>
    ∀ r, h.records[wanted.appId]? = some r →
      OtherStart observed r.deploymentId (some answers.startedAtMs) r.startAttempts
  | cold pc => pc.Moves h wanted answers.start observed
  | _ => True

/-- **The task's next write on the record, unless it is only a sentence, leaves it of another start
than the one read.** Another settle of the app is not one of the operations, and writes nothing. -/
def Task.Moves (h : Host) (observed : InstanceRecord) : Task → Prop
  | stop app pc => pc.Moves h.records[app]? observed
  | suspend app _ pc => pc.Moves h.records[app]? observed
  | wake wanted answers pc => pc.Moves h wanted answers observed
  | wave current _ _ (.waiting _ pc) => pc.Moves h current.1 observed
  | wave current _ _ (.starting pc) => pc.Moves h current.1 current.2 observed
  | settle _ _ (.write _) => False
  | _ => True

/-- What the writes of one step leave of a record: the same, the same but for its sentence, or one
of another start. -/
inductive Written (observed : InstanceRecord) (before : Option InstanceRecord) :
    Option InstanceRecord → Prop where
  | same : Written observed before before
  | said (message : String) :
      Written observed before (before.map fun r => { r with message := some message })
  | moved (after : Option InstanceRecord) (h : MovedOn observed after) :
      Written observed before after

/-- Everything a step's effects do to the record. -/
abbrev recordAfter (effects : List Effect) (before : Option InstanceRecord) :
    Option InstanceRecord :=
  effects.foldl (fun r e => e.record r) before

theorem MovedOn.map {observed : InstanceRecord} {latest : Option InstanceRecord}
    {change : InstanceRecord → InstanceRecord}
    (h : ∀ r, latest = some r → OtherStart observed (change r).deploymentId (change r).startedAt
      (change r).startAttempts) : MovedOn observed (latest.map change) := by
  intro r hr
  obtain ⟨r₀, hr₀, rfl⟩ := Option.map_eq_some_iff.mp hr
  exact h r₀ hr₀

/-- What the document's fields on a copy of the record say of the start. -/
theorem start_adoptedRecord (existing : Option InstanceRecord) (desired : DesiredInstance)
    (slot : AppSlot) (state : InstanceState) :
    (adoptedRecord existing desired slot state).deploymentId = desired.deploymentId ∧
      (adoptedRecord existing desired slot state).startedAt = startedAtOf existing ∧
      (adoptedRecord existing desired slot state).startAttempts = spentAttempts existing := by
  cases existing <;> exact ⟨rfl, rfl, rfl⟩

theorem start_noSlotRecord (existing : Option InstanceRecord) (desired : DesiredInstance) :
    (noSlotRecord existing desired).deploymentId = desired.deploymentId ∧
      (noSlotRecord existing desired).startedAt = startedAtOf existing ∧
      (noSlotRecord existing desired).startAttempts = spentAttempts existing := by
  cases existing <;> exact ⟨rfl, rfl, rfl⟩

/-- A record put in place of the app's. -/
theorem Written.put {observed : InstanceRecord} {before : Option InstanceRecord}
    {r : InstanceRecord} {deployment : DeploymentId} {startedAt : Option ℤ}
    {attempts : AttemptWindow}
    (hr : r.deploymentId = deployment ∧ r.startedAt = startedAt ∧ r.startAttempts = attempts)
    (h : OtherStart observed deployment startedAt attempts) : Written observed before (some r) := by
  obtain ⟨rfl, rfl, rfl⟩ := hr
  refine .moved _ fun r' hr' => ?_
  cases hr'
  exact h

theorem StopPc.written (d : Daemon) (app : AppId) {observed : InstanceRecord} {pc : StopPc}
    (h : pc.Moves d.host.records[app]? observed) :
    Written observed d.host.records[app]?
      (recordAfter (pc.next d app).1 d.host.records[app]?) := by
  cases pc with
  | begin => exact .moved _ (.map h)
  | finish => exact .moved _ (.map h)
  | ask => exact .same
  | reap process => exact .same

theorem StartPc.written [Platform] (d : Daemon) (desired : DesiredInstance)
    (answers : StartAnswers) {observed : InstanceRecord} {pc : StartPc}
    (h : pc.Moves d.host desired answers observed) :
    Written observed d.host.records[desired.appId]?
      (recordAfter (pc.next d desired answers).1 d.host.records[desired.appId]?) := by
  cases pc with
  | allocate existing =>
    unfold StartPc.next
    dsimp only
    -- a refusal is written on the record by what refused, and where nothing did it is adopted
    split
    · rename_i hslot
      exact .put (start_noSlotRecord _ desired) (h hslot)
    · exact .same
  | decide existing slot =>
    have hadopted := fun state => start_adoptedRecord existing desired slot state
    simp only [StartPc.Moves] at h
    unfold StartPc.next
    dsimp only
    split
    · rename_i refusal hrefusal
      rw [hrefusal, if_pos (.inl rfl)] at h
      exact .put (hadopted .failed) h
    · rename_i hingress
      split
      · rename_i refusal hrefusal
        rw [hrefusal, if_pos (.inr rfl)] at h
        exact .put (hadopted .pending) h
      · rename_i hvolume
        rw [hingress, hvolume, if_neg (by simp)] at h
        exact .put ⟨(hadopted .pending).1, rfl, rfl⟩ h
  | say message => exact .said message
  | busy existing | failed reason | booted => exact .moved _ (.map h)
  | _ =>
    unfold StartPc.next
    dsimp only
    repeat' split
    all_goals exact .same

theorem WaitPc.written (d : Daemon) (desired : DesiredInstance) (shortfallMib : ℕ)
    {observed : InstanceRecord} {pc : WaitPc} (h : pc.Moves d.host desired observed) :
    Written observed d.host.records[desired.appId]?
      (recordAfter (pc.next d desired shortfallMib).1 d.host.records[desired.appId]?) := by
  cases pc with
  | allocate =>
    unfold WaitPc.next
    dsimp only
    split
    · rename_i hslot
      exact .put (start_noSlotRecord _ desired) (h hslot)
    · exact .same
  | read slot => exact .same
  | write existing slot =>
    exact .put ⟨(start_adoptedRecord existing desired slot .pending).1, rfl, rfl⟩ h

theorem Task.written [Platform] (d : Daemon) (t : ℕ) {observed : InstanceRecord} {task : Task}
    (h : task.Moves d.host observed) :
    Written observed d.host.records[task.app]?
      (recordAfter (task.next d t).1 d.host.records[task.app]?) := by
  -- each program counter that writes says what it writes; at all others the record stays
  cases task with
  | stop app pc => exact pc.written d app h
  | discard app pc =>
    cases pc with
    | forget => exact .same
    | drop => exact .moved _ fun r hr => by cases hr
  | settle app answers pc =>
    cases pc with
    | write reading => exact h.elim
    | _ => exact .same
  | suspend app answer pc =>
    cases pc with
    | stop pc => exact pc.written d app h
    | idle paused => exact .moved _ (.map h)
    | _ =>
      unfold Task.next SuspendPc.next
      dsimp only
      repeat' split
      all_goals exact .same
  | wake wanted answers pc =>
    cases pc with
    | restored => exact .moved _ (.map h)
    | cold pc => exact pc.written d wanted answers.start h
    | say reason => exact .said (stateMessage reason)
    | noRoom shortfall => exact .said _
    | _ =>
      unfold Task.next WakePc.next
      dsimp only
      repeat' split
      all_goals exact .same
  | wave current rest records pc =>
    cases pc with
    | measure =>
      unfold Task.next
      dsimp only
      split
      all_goals exact .same
    | waiting shortfall pc => exact pc.written d current.1 shortfall h
    | starting pc => exact pc.written d current.1 current.2 h
    | reread => exact .same

/-! ### Runs -/

/-- A step of a task on the app moves its record on from what was read. -/
def MovesOn (observed : InstanceRecord) (app : AppId) (d : Daemon) : Move → Prop
  | .step t => ∀ task, d.tasks t = some task → task.app = app → task.Moves d.host observed
  | _ => True

/-- The state on an app's record. -/
def Daemon.stateOf (d : Daemon) (app : AppId) : Option InstanceState :=
  d.host.records[app]?.map (·.state)

/-- A step of a task other than a settle changes the state on the app's record. -/
def Daemon.ChangesState [Platform] (d : Daemon) (app : AppId) (m : Move) : Prop :=
  ∃ t task, m = .step t ∧ d.tasks t = some task ∧ (∀ a answers pc, task ≠ .settle a answers pc) ∧
    (d.step m).stateOf app ≠ d.stateOf app

/-- Somewhere along a run an operation changes the state on the app's record. -/
def StateChanges [Platform] (d : Daemon) (app : AppId) (moves : List Move) : Prop :=
  ∃ before m after, moves = before ++ m :: after ∧ (d.run before).ChangesState app m

/-- What a move leaves of the app's record. -/
theorem Daemon.Keyed.written [Platform] {d : Daemon} (hd : d.Keyed) {observed : InstanceRecord}
    {app : AppId} {m : Move} (hm : MovesOn observed app d m) :
    Written observed d.host.records[app]? (d.step m).host.records[app]? := by
  cases m with
  | begin t operation =>
    have hrecords : (d.step (.begin t operation)).host = d.host := by
      simp only [Daemon.step]
      split <;> rfl
    rw [hrecords]
    exact .same
  | guestExit a exit => exact .same
  | strayExit a process => exact .same
  | step t =>
    cases ht : d.tasks t with
    | none =>
      rw [Daemon.step_none ht]
      exact .same
    | some task =>
      rw [hd.records_step_task ht]
      split
      · rename_i happ
        subst happ
        exact task.written d t (hm task ht rfl)
      · exact .same

/-- A record of another start stays one of another start than the one read. -/
theorem MovedOn.written {observed : InstanceRecord} {before after : Option InstanceRecord}
    (hw : Written observed before after) (h : MovedOn observed before) :
    MovedOn observed after := by
  cases hw with
  | same => exact h
  | said message => exact .map h
  | moved after h => exact h

/-- A write that changes the state on a record moves it on. -/
theorem Written.movedOn {observed : InstanceRecord} {before after : Option InstanceRecord}
    (hw : Written observed before after) (h : after.map (·.state) ≠ before.map (·.state)) :
    MovedOn observed after := by
  cases hw with
  | same => exact absurd rfl h
  | said message => exact absurd (by cases before <;> rfl) h
  | moved after hmoved => exact hmoved

/-- Once an operation has changed the state, the record stays of another start. -/
theorem movedOn_run [Platform] {observed : InstanceRecord} {app : AppId} {moves : List Move}
    {d : Daemon} (hd : d.Keyed) (hm : Run.Meets Daemon.step (MovesOn observed app) d moves)
    (h : MovedOn observed d.host.records[app]? ∨ StateChanges d app moves) :
    MovedOn observed (d.run moves).host.records[app]? := by
  induction moves generalizing d with
  | nil =>
    rcases h with h | ⟨before, m, after, hmoves, -⟩
    · exact h
    · cases before <;> cases hmoves
  | cons m moves ih =>
    have hwritten := hd.written hm.1
    refine ih (hd.step m) hm.2 ?_
    rcases h with h | ⟨before, m', after, hmoves, hchange⟩
    · exact .inl (h.written hwritten)
    · cases before with
      | nil =>
        -- the state changes at this very move
        cases hmoves
        obtain ⟨t, task, -, -, -, hne⟩ := hchange
        exact .inl (hwritten.movedOn hne)
      | cons m₀ before =>
        cases hmoves
        exact .inr ⟨before, m', after, rfl, hchange⟩

/-- The record a settle is of, once it is read. -/
def SettlePc.observed : SettlePc → Option InstanceRecord
  | snapshot => none
  | status record _ => some record
  | write reading => some reading.record

/-- The task settles the app from the record read. -/
def Settles (d : Daemon) (t : ℕ) (app : AppId) (answers : SettleAnswers)
    (observed : InstanceRecord) : Prop :=
  ∃ pc, d.tasks t = some (.settle app answers pc) ∧ pc.observed = some observed

/-- A settle that does not write goes on settling from what it read. -/
theorem Settles.step [Platform] {d : Daemon} {t : ℕ} {app : AppId} {answers : SettleAnswers}
    {observed : InstanceRecord} (h : Settles d t app answers observed) {m : Move}
    (hm : MovesOn observed app d m) : Settles (d.step m) t app answers observed := by
  obtain ⟨pc, ht, hpc⟩ := h
  cases m with
  | begin t' operation =>
    refine ⟨pc, ?_, hpc⟩
    simp only [Daemon.step]
    split
    · rename_i hfree
      rw [Daemon.tasks_setTask, if_neg]
      · exact ht
      · rintro rfl
        rw [ht] at hfree
        cases hfree
    · exact ht
  | guestExit a exit => exact ⟨pc, ht, hpc⟩
  | strayExit a process => exact ⟨pc, ht, hpc⟩
  | step t' =>
    by_cases hsame : t = t'
    -- its own steps before the write only read
    · subst hsame
      rw [Daemon.step_task ht]
      cases pc with
      | snapshot => cases hpc
      | write reading => exact (hm _ ht rfl).elim
      | status record snapshotting =>
        exact ⟨_, (Daemon.tasks_setTask _ t _ t).trans ((if_pos rfl).trans rfl), hpc⟩
    · refine ⟨pc, ?_, hpc⟩
      cases ht' : d.tasks t' with
      | none => rw [Daemon.step_none ht']; exact ht
      | some task =>
        rw [Daemon.step_task ht', Daemon.tasks_setTask, if_neg hsame, Daemon.tasks_actAll]
        exact ht

/-- What a settle may write on an app's record. -/
def Daemon.verdictOn (d : Daemon) (app : AppId) :
    Option (InstanceState × Option String × HealthTracker) :=
  d.host.records[app]?.map fun r => (r.state, r.message, r.health)

/-- **A settle leaves what was written since it read.** It reads the record of an app; along a run
in which every write on that record moves it on, an operation changes the app's state; then the
settle's write leaves the state, the message and the health it finds. -/
theorem settle_keeps_run [Platform] {h : Host} (hk : h.Keyed) (permits : ℕ)
    (earlier later : List Move) (t : ℕ) (app : AppId) (answers : SettleAnswers)
    (observed : InstanceRecord) (reading : Reading)
    (hread : ((Daemon.quiet h permits).run earlier).tasks t = some (.settle app answers .snapshot))
    (hrecord : ((Daemon.quiet h permits).run earlier).host.records[app]? = some observed)
    (hm : Run.Meets Daemon.step (MovesOn observed app)
      (((Daemon.quiet h permits).run earlier).step (.step t)) later)
    (hchanged : StateChanges (((Daemon.quiet h permits).run earlier).step (.step t)) app later)
    (hwrite : ((((Daemon.quiet h permits).run earlier).step (.step t)).run later).tasks t =
      some (.settle app answers (.write reading))) :
    (((((Daemon.quiet h permits).run earlier).step (.step t)).run later).step
        (.step t)).verdictOn app =
      ((((Daemon.quiet h permits).run earlier).step (.step t)).run later).verdictOn app := by
  have hkeyed : ((Daemon.quiet h permits).run earlier).Keyed :=
    List.foldlRecOn earlier Daemon.step (Daemon.keyed_quiet hk permits) fun d hd m _ => hd.step m
  generalize (Daemon.quiet h permits).run earlier = d₀ at *
  -- the reading is of the record that was there
  have hsettles : Settles (d₀.step (.step t)) t app answers observed := by
    refine ⟨.status observed (d₀.snapshotting app), ?_, rfl⟩
    rw [Daemon.step_task hread, Daemon.tasks_setTask, if_pos rfl]
    simp only [Task.next, SettlePc.next, hrecord, Option.map_some]
  have hreading : reading.record = observed := by
    obtain ⟨pc, ht, hpc⟩ := hm.invariant (I := fun d => Settles d t app answers observed)
      (fun d m hs hm => hs.step hm) hsettles
    rw [hwrite] at ht
    cases ht
    exact Option.some.inj hpc
  have hmoved := movedOn_run (hkeyed.step _) hm (.inr hchanged)
  have hkeyed₁ : ((d₀.step (.step t)).run later).Keyed :=
    List.foldlRecOn later Daemon.step (hkeyed.step _) fun d hd m _ => hd.step m
  generalize (d₀.step (.step t)).run later = d₁ at *
  have happ : (Task.settle app answers (.write reading)).app = app := rfl
  rw [Daemon.verdictOn, hkeyed₁.records_step_task hwrite, if_pos happ, Daemon.verdictOn]
  change (d₁.host.records[app]?.map reading.settle).map _ = _
  cases hlatest : d₁.host.records[app]? with
  | none => rfl
  | some latest =>
    have hother : sameStart latest reading.record = false := by
      rw [hreading]
      exact sameStart_eq_false_iff.mpr (hmoved latest hlatest)
    have hsettle : reading.settle latest = latest := by
      rw [Reading.settle, hother]
      rfl
    rw [Option.map_some, hsettle]

/-! ### A guest that was restored, and one that was booted -/

/-- The app of the small host, asked for on a port that one failed probe tells unhealthy. -/
def probedInstance : DesiredInstance :=
  { onRequestInstance with
    config :=
      { onRequestInstance.config with
        healthCheck := .tcp
          { intervalMs := 1000
            timeoutMs := 1000
            gracePeriodMs := 0
            healthyThreshold := 1
            unhealthyThreshold := 1 } } }

/-- The probed app, booted and found well. -/
def bootedHost : Host :=
  @Host.run .plain smallHost
    [.pass ⟨[soleVolume], [probedInstance], [], []⟩ (.succeed .change 0), .refresh refreshWell]

/-- The probed app after a sleep and a wake, found well again. Nothing is spent on it any more. -/
def restoredHost : Host :=
  @Host.run .plain bootedHost
    [.suspend ⟨"app-1"⟩ .ok, .wake probedInstance wakeSucceeds, .refresh refreshWell]

theorem keyed_bootedHost : bootedHost.Keyed :=
  @Host.Keyed.run .plain smallHost (Host.keyed_fresh _ _) _

/-- A settle whose probe is refused. -/
def probeRefused : SettleAnswers where
  due := true
  nowMs := 1
  probe := .error .refused
  probedAtMs := 1
  guestVerdict := none

/-- A sleep is about to call the app idle when the settle begins. -/
def sleepBeforeReading : List Move :=
  .begin 1 (.suspend ⟨"app-1"⟩ .ok) :: List.replicate 8 (.step 1) ++
    [.begin 0 (.settle ⟨"app-1"⟩ probeRefused)]

/-- An attempt was spent on the booted guest, so the sleep moves its record on. -/
theorem settle_keeps_run_bootedHost :
    (@Daemon.step .plain (@Daemon.run .plain (@Daemon.step .plain
        (@Daemon.run .plain (.quiet bootedHost 2) sleepBeforeReading) (.step 0))
        [.step 0, .step 1]) (.step 0)).verdictOn ⟨"app-1"⟩ =
      (@Daemon.run .plain (@Daemon.step .plain
        (@Daemon.run .plain (.quiet bootedHost 2) sleepBeforeReading) (.step 0))
        [.step 0, .step 1]).verdictOn ⟨"app-1"⟩ := by
  obtain ⟨observed, hobserved⟩ := Option.isSome_iff_exists.mp
    (by decide +kernel : ((@Daemon.run .plain (.quiet bootedHost 2)
      sleepBeforeReading).host.records[(⟨"app-1"⟩ : AppId)]?).isSome = true)
  have hspent : (((@Daemon.run .plain (.quiet bootedHost 2) sleepBeforeReading).host.records[
      (⟨"app-1"⟩ : AppId)]?).map (·.startAttempts)) ≠ some noStartAttempts := by
    decide +kernel
  refine @settle_keeps_run .plain bootedHost keyed_bootedHost 2 sleepBeforeReading
    [.step 0, .step 1] 0 ⟨"app-1"⟩ probeRefused observed _ rfl hobserved ?_
    ⟨[.step 0], .step 1, [], rfl, 1, .suspend ⟨"app-1"⟩ .ok (.idle 0), rfl, rfl,
      by rintro _ _ _ ⟨⟩, by decide +kernel⟩ rfl
  refine And.intro ?_ (And.intro ?_ trivial)
  · rintro task ⟨⟩ -
    trivial
  · rintro task ⟨⟩ - r hr ⟨-, -, hattempts⟩
    rw [hobserved, Option.map_some, ← hattempts] at hspent
    exact hspent rfl

/-- The settle reads the status, and the idle pass puts the app to sleep while the probe is out. -/
def sleepDuringProbe : List Move :=
  [.step 0, .begin 1 (.suspend ⟨"app-1"⟩ .ok)] ++ List.replicate 10 (.step 1)

/-- The settle calls the app unhealthy that was just put to sleep. -/
theorem not_settle_keeps :
    ¬ ∀ (_ : Platform) (h : Host), h.Keyed → ∀ (permits : ℕ) (earlier later : List Move) (t : ℕ)
      (app : AppId) (answers : SettleAnswers) (observed : InstanceRecord) (reading : Reading),
      ((Daemon.quiet h permits).run earlier).tasks t = some (.settle app answers .snapshot) →
      ((Daemon.quiet h permits).run earlier).host.records[app]? = some observed →
      StateChanges (((Daemon.quiet h permits).run earlier).step (.step t)) app later →
      ((((Daemon.quiet h permits).run earlier).step (.step t)).run later).tasks t =
        some (.settle app answers (.write reading)) →
      (((((Daemon.quiet h permits).run earlier).step (.step t)).run later).step
          (.step t)).verdictOn app =
        ((((Daemon.quiet h permits).run earlier).step (.step t)).run later).verdictOn app := by
  intro hall
  have hkeyed : restoredHost.Keyed := @Host.Keyed.run .plain bootedHost keyed_bootedHost _
  obtain ⟨observed, hobserved⟩ := Option.isSome_iff_exists.mp
    (by decide +kernel : ((@Daemon.run .plain (.quiet restoredHost 2)
      [.begin 0 (.settle ⟨"app-1"⟩ probeRefused)]).host.records[(⟨"app-1"⟩ : AppId)]?).isSome
        = true)
  have hkept := hall .plain restoredHost hkeyed 2 [.begin 0 (.settle ⟨"app-1"⟩ probeRefused)]
    sleepDuringProbe 0 ⟨"app-1"⟩ probeRefused observed _ rfl hobserved
    ⟨sleepDuringProbe.take 10, .step 1, [.step 1], rfl, 1, .suspend ⟨"app-1"⟩ .ok (.idle 0), rfl,
      rfl, by rintro _ _ _ ⟨⟩, by decide +kernel⟩ rfl
  revert hkept
  decide +kernel

end Nibrunner

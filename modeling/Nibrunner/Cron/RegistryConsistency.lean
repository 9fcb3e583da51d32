import Nibrunner.ForStd.History
import Nibrunner.Cron.Decisions

/-!
# The cron registry is consistent

What is stored is always what writing some kept tables leaves, so it reads as these tables. The
invariant says of each call what it knows: the one that holds the lock knows what is stored, and
the others know nothing of it. The entries of calls that have returned are chained, from what the
registry began with to what there is, or to what the call that holds the lock found.

* `registry_consistent`: no app has two tables, and the jobs of each table are those of its crontab;
  an operation that fails changes nothing, and one that succeeds has its effect; the revision moves
  on exactly if the tables change; and a crontab that was registered is listed as it was written,
  until something changes the table of its app.
-/

namespace Nibrunner.Cron

open Except Std History Run

/-! ### What is stored -/

/-- What writing some kept tables leaves. -/
structure Stored (scheduler : Scheduler) (rows : CronRows) (tables : CronTables) : Prop where
  written : CronRows.replaceAll tables.intoValues = .ok rows
  kept : tables.Kept scheduler

variable {scheduler : Scheduler} {rows : CronRows} {tables held after : CronTables}

namespace Stored

theorem empty : Stored scheduler .empty ∅ := ⟨rfl, CronTables.kept_empty⟩

theorem all (h : Stored scheduler rows tables) : rows.all = .ok tables.intoValues := by
  refine CronRows.all_replaceAll (CronTables.pairwise_intoValues h.kept) ?_ h.written
  intro table htable
  have hget := (CronTables.mem_intoValues h.kept).mp htable
  exact (h.kept.parsed table.appId table hget).small

/-- What is stored is read as it was written. -/
theorem read (h : Stored scheduler rows tables) :
    (rows.all.mapError CronRegistryError.store >>= CronTables.collect ∅) = .ok tables := by
  rw [h.all]
  exact CronTables.collect_intoValues h.kept

theorem unique (h : Stored scheduler rows held) (h' : Stored scheduler rows after) :
    held = after := by
  have heq := h.read
  rw [h'.read] at heq
  exact (Except.ok.inj heq).symm

end Stored

/-! ### Entries -/

/-- What an entry says of the tables it found and left. -/
structure CronEntry.Sound (scheduler : Scheduler) (held after : CronTables) (e : CronEntry) :
    Prop where
  found : Stored scheduler e.before.rows held
  left : Stored scheduler e.after.rows after
  /-- An operation that fails changes nothing. -/
  refused : ∀ error, e.answer = .error error → e.after = e.before
  effect : ∀ reply, e.answer = .ok reply → CronTables.Effect held after reply e.operation
  /-- Only the repository keeps an operation from what it decides. -/
  answered : ∀ reply, e.fault = none →
    held.decide scheduler e.operation = .ok (.answer reply) → e.answer = .ok reply
  unchanged : after = held → e.after = e.before
  revision : e.after.revision ≠ e.before.revision ↔ after ≠ held

namespace CronEntry

/-- An entry of an operation that wrote nothing. -/
theorem sound_same {operation : CronOperation} {answer : CronAnswer} {fault : Option StoreError}
    {before : Snapshot} (hstored : Stored scheduler before.rows held)
    (heffect : ∀ reply, answer = .ok reply → CronTables.Effect held held reply operation)
    (hanswered : ∀ reply, fault = none →
      held.decide scheduler operation = .ok (.answer reply) → answer = .ok reply) :
    CronEntry.Sound scheduler held held ⟨operation, answer, fault, before, before⟩ where
  found := hstored
  left := hstored
  refused _ _ := rfl
  effect := heffect
  answered := hanswered
  unchanged _ := rfl
  revision := by simp

/-- An operation that leaves the table of a deployment, if it is there. -/
def Leaves (appId : AppId) (deploymentId : DeploymentId) (e : CronEntry) : Prop :=
  (∃ error, e.answer = .error error) ∨ match e.operation with
    | .synchronize deployments => (appId, deploymentId) ∈ deployments
    | .beginDeployment other deployment => other = appId → deployment = deploymentId
    | .replace other _ _ _ => other ≠ appId
    | .list _ _ => True
    | .tables => True

theorem Sound.leaves {e : CronEntry} (h : e.Sound scheduler held after) {appId : AppId}
    {deploymentId : DeploymentId} (hleaves : e.Leaves appId deploymentId) {table : CronTable}
    (hcurrent : held.current appId deploymentId = some table) :
    after.current appId deploymentId = some table := by
  obtain ⟨hget, hdeployment⟩ := CronTables.current_eq_some_iff.mp hcurrent
  rcases hleaves with ⟨error, herror⟩ | hleaves
  · have hsame : e.after = e.before := h.refused error herror
    have hafter := h.left
    rw [hsame] at hafter
    rwa [hafter.unique h.found]
  · cases hanswer : e.answer with
    | error error =>
      have hafter := h.left
      rw [h.refused error hanswer] at hafter
      rwa [hafter.unique h.found]
    | ok reply =>
      have heffect := h.effect reply hanswer
      refine CronTables.current_eq_some_iff.mpr ⟨?_, hdeployment⟩
      have htable : held.tableFor appId deploymentId = table :=
        (CronTables.tableFor_eq_iff hget).mpr hdeployment
      -- each operation that may write says what becomes of every app's table
      cases hoperation : e.operation with
      | synchronize deployments =>
        rw [hoperation] at heffect hleaves
        rw [heffect.2.2 (appId, deploymentId) hleaves, htable]
      | beginDeployment other deployment =>
        rw [hoperation] at heffect hleaves
        rw [heffect.2 appId]
        split
        next heq =>
          obtain rfl : deployment = deploymentId := hleaves heq
          rw [heq, htable]
        next => exact hget
      | replace other deployment text instant =>
        rw [hoperation] at heffect hleaves
        obtain ⟨-, -, _, -, -, hafter⟩ := heffect
        rw [hafter appId, if_neg hleaves]
        exact hget
      | list other deployment | tables =>
        rw [hoperation] at heffect
        rw [heffect.1]
        exact hget

end CronEntry

/-! ### The registry -/

/-- What the call that holds the lock found. -/
def CronPhase.found : CronPhase → Option Snapshot
  | .entered before => some before
  | .persisting before _ => some before
  | .persisted before => some before
  | .arrived => none
  | .returned _ => none

/-- What a call knows. -/
def CronPhase.Knows (scheduler : Scheduler) (s : CronRegistry) (operation : CronOperation) :
    CronPhase → Prop
  | .arrived => True
  | .entered before => s.now = before
  | .persisting before tables => s.now = before ∧ ∃ held, Stored scheduler before.rows held ∧
      held.decide scheduler operation = .ok (.persist tables)
  | .persisted before => s.now.revision = before.revision ∧ ∃ held after,
      Stored scheduler before.rows held ∧ Stored scheduler s.now.rows after ∧
        held.decide scheduler operation = .ok (.persist after)
  | .returned answer => ∃ e ∈ s.log, e.operation = operation ∧ e.answer = answer

namespace CronRegistry

variable {s t : CronRegistry} {id : ℕ} {operation : CronOperation} {phase : CronPhase}

/-- What the call that holds the lock found, or what there is. -/
def found (s : CronRegistry) : Snapshot :=
  ((s.mutation.bind fun id => s.calls[id]?).bind fun call => call.phase.found).getD s.now

structure Consistent (scheduler : Scheduler) (s : CronRegistry) : Prop where
  stored : ∃ tables, Stored scheduler s.now.rows tables
  sound : ∀ e ∈ s.log, ∃ held after, e.Sound scheduler held after
  chained : Chained CronEntry.before CronEntry.after s.start s.log s.found
  holds : ∀ (id : ℕ) (call : CronCall), s.calls[id]? = some call → call.phase.found.isSome →
    s.mutation = some id
  held : ∀ id, s.mutation = some id → s.calls.contains id
  knows : ∀ (id : ℕ) (call : CronCall), s.calls[id]? = some call →
    call.phase.Knows scheduler s call.operation

namespace Consistent

theorem new (h : Stored scheduler rows tables) : Consistent scheduler (new rows) where
  stored := ⟨tables, h⟩
  sound e he := absurd he List.not_mem_nil
  chained := rfl
  holds id call hcall := by simp [CronRegistry.new] at hcall
  held id hid := by simp [CronRegistry.new] at hid
  knows id call hcall := by simp [CronRegistry.new] at hcall

theorem getElem?_goTo (k : ℕ) : (t.goTo id operation phase).calls[k]? =
    if id = k then some ⟨operation, phase⟩ else t.calls[k]? :=
  t.calls.getElem?_insert_ite id k _

/-- Where a call goes on that holds the lock, or lets go of it, what was found is its own. -/
theorem found_goTo (hmutation : t.mutation = if phase.found.isSome then some id else none) :
    (t.goTo id operation phase).found = phase.found.getD t.now := by
  have hget : (t.goTo id operation phase).calls[id]? = some ⟨operation, phase⟩ := by
    rw [getElem?_goTo, if_pos rfl]
  rw [found]
  show ((t.mutation.bind _).bind _).getD t.now = _
  rw [hmutation]
  cases hphase : phase.found with
  | none => rfl
  | some before =>
    rw [Option.isSome_some, if_pos rfl, Option.bind_some, hget, Option.bind_some, hphase]

/-- A call goes on while no other holds the lock. -/
theorem goTo (h : Consistent scheduler s)
    (hothers : ∀ (k : ℕ) (call : CronCall), s.calls[k]? = some call → id ≠ k →
      call.phase.found = none)
    (hcalls : t.calls = s.calls) (hlog : ∀ e ∈ s.log, e ∈ t.log)
    (hstored : ∃ tables, Stored scheduler t.now.rows tables)
    (hsound : ∀ e ∈ t.log, ∃ held after, e.Sound scheduler held after)
    (hmutation : t.mutation = if phase.found.isSome then some id else none)
    (hchained : Chained CronEntry.before CronEntry.after t.start t.log (phase.found.getD t.now))
    (hknows : phase.Knows scheduler t operation) :
    Consistent scheduler (t.goTo id operation phase) where
  stored := hstored
  sound := hsound
  chained := (found_goTo hmutation).symm ▸ hchained
  holds k call hcall hfound := by
    rw [getElem?_goTo] at hcall
    split at hcall
    next heq =>
      obtain rfl := Option.some.inj hcall
      subst heq
      exact hmutation.trans (if_pos hfound)
    next hne =>
      rw [hcalls] at hcall
      rw [hothers k call hcall hne] at hfound
      cases hfound
  held k hk := by
    have hk : t.mutation = some k := hk
    rw [hmutation] at hk
    split at hk
    next =>
      obtain rfl := Option.some.inj hk
      simp [CronRegistry.goTo]
    next => cases hk
  knows k call hcall := by
    rw [getElem?_goTo] at hcall
    split at hcall
    next =>
      obtain rfl := Option.some.inj hcall
      exact hknows
    next hne =>
      rw [hcalls] at hcall
      -- a call that holds no lock has not begun, or its entry stays
      have hknown := h.knows k call hcall
      have hnone := hothers k call hcall hne
      obtain ⟨other, phase⟩ := call
      cases phase with
      | arrived => trivial
      | returned answer =>
        obtain ⟨e, he, heq⟩ := hknown
        exact ⟨e, hlog e he, heq⟩
      | entered before | persisting before tables | persisted before => cases hnone

/-- The call that holds the lock is alone in holding it. -/
theorem alone (h : Consistent scheduler s) (hget : s.calls[id]? = some ⟨operation, phase⟩)
    (hfound : phase.found.isSome) (k : ℕ) (call : CronCall) (hcall : s.calls[k]? = some call)
    (hne : id ≠ k) : call.phase.found = none := by
  have hid := h.holds id _ hget hfound
  rw [← Option.not_isSome_iff_eq_none]
  intro hk
  rw [h.holds k call hcall hk] at hid
  exact hne (Option.some.inj hid).symm

/-- What the holder of the lock found is where the entries lead to. -/
theorem chained_found (h : Consistent scheduler s)
    (hget : s.calls[id]? = some ⟨operation, phase⟩) {before : Snapshot}
    (hfound : phase.found = some before) :
    Chained CronEntry.before CronEntry.after s.start s.log before := by
  have hid := h.holds id _ hget (by simp [hfound])
  have hchained := h.chained
  rw [found, hid, Option.bind_some, hget, Option.bind_some, hfound] at hchained
  exact hchained

/-- The holder of the lock returns. -/
theorem finish (h : Consistent scheduler s) (hget : s.calls[id]? = some ⟨operation, phase⟩)
    {before : Snapshot} (hfound : phase.found = some before) {revision : UInt64}
    {fault : Option StoreError} {answer : CronAnswer}
    (hentry : CronEntry.Sound scheduler held after
      ⟨operation, answer, fault, before, ⟨s.now.rows, revision⟩⟩) :
    Consistent scheduler
      ({ s with now := ⟨s.now.rows, revision⟩ }.finish id operation before fault answer) := by
  refine h.goTo (h.alone hget (by simp [hfound])) rfl
    (fun e he => List.mem_append_left _ he) h.stored ?_ rfl
    (h.chained_found hget hfound).concat ?_
  · intro e he
    rcases List.mem_append.mp he with he | he
    · exact h.sound e he
    · obtain rfl := List.mem_singleton.mp he
      exact ⟨held, after, hentry⟩
  · exact ⟨_, List.mem_append_right _ List.mem_cons_self, rfl, rfl⟩

/-- A call that arrives holds nothing, and the holder is another. -/
theorem found_arrived (hne : ∀ k, s.mutation = some k → id ≠ k) :
    (s.goTo id operation .arrived).found = s.found := by
  show ((s.mutation.bind fun k => (s.goTo id operation .arrived).calls[k]?).bind _).getD s.now =
    s.found
  cases hmutation : s.mutation with
  | none => simp [found, hmutation]
  | some k => simp [found, hmutation, getElem?_goTo, if_neg (hne k hmutation)]

theorem arrive (h : Consistent scheduler s) (id : ℕ) (operation : CronOperation) :
    Consistent scheduler (s.arrive id operation) := by
  unfold CronRegistry.arrive
  split
  · exact h
  next hfresh =>
    -- the id is fresh, so it is not the holder's
    have hne (k : ℕ) (hk : s.mutation = some k) : id ≠ k := by
      rintro rfl
      exact hfresh (h.held id hk)
    have hfound : (s.goTo id operation .arrived).found = s.found := found_arrived hne
    refine ⟨h.stored, h.sound, hfound ▸ h.chained, ?_, ?_, ?_⟩
    · intro k call hcall hk
      rw [getElem?_goTo] at hcall
      split at hcall
      next =>
        obtain rfl := Option.some.inj hcall
        cases hk
      next => exact h.holds k call hcall hk
    · intro k hk
      have hcontains : s.calls.contains k := h.held k hk
      simp [CronRegistry.goTo, hcontains]
    · intro k call hcall
      rw [getElem?_goTo] at hcall
      split at hcall
      next =>
        obtain rfl := Option.some.inj hcall
        trivial
      next =>
        have hknown := h.knows k call hcall
        obtain ⟨other, phase⟩ := call
        cases phase <;> exact hknown

theorem enter (h : Consistent scheduler s) (id : ℕ) : Consistent scheduler (s.enter id) := by
  unfold CronRegistry.enter
  split
  next operation hget =>
    split
    · exact h
    next hfree =>
      have hnone : s.mutation = none := Option.not_isSome_iff_eq_none.mp hfree
      have hfound : s.found = s.now := by simp [found, hnone]
      refine h.goTo ?_ rfl (fun _ he => he) h.stored h.sound rfl (hfound ▸ h.chained) rfl
      intro k call hcall _
      rw [← Option.not_isSome_iff_eq_none]
      intro hk
      rw [h.holds k call hcall hk] at hnone
      cases hnone
  next => exact h

theorem consult (h : Consistent scheduler s) (id : ℕ) (fault : Option StoreError) :
    Consistent scheduler (s.consult scheduler id fault) := by
  unfold CronRegistry.consult
  split
  next operation before hget =>
    obtain rfl : s.now = before := h.knows id _ hget
    obtain ⟨held, hstored⟩ := h.stored
    -- a failed read, a refusal and an answer leave what was found; a decision goes on to the write
    cases fault with
    | some e =>
      refine h.finish hget rfl (CronEntry.sound_same hstored ?_ ?_)
      · intro reply hreply
        cases hreply
      · intro reply hfault
        cases hfault
    | none =>
      have hread : s.read none = .ok held := hstored.read
      have hbind : (s.read none >>= fun held => held.decide scheduler operation) =
          held.decide scheduler operation := by
        rw [hread]
        rfl
      rw [hbind]
      split
      next e hdecide =>
        refine h.finish hget rfl (CronEntry.sound_same hstored ?_ ?_)
        · intro reply hreply
          cases hreply
        · intro reply _ hanswer
          rw [hdecide] at hanswer
          cases hanswer
      next reply hdecide =>
        have heffect : CronTables.Effect held held reply operation :=
          CronTables.decide_spec hstored.kept hdecide
        refine h.finish hget rfl (CronEntry.sound_same hstored ?_ ?_)
        · rintro _ ⟨⟩
          exact heffect
        · intro other _ hanswer
          rw [hdecide] at hanswer
          cases hanswer
          rfl
      next tables hdecide =>
        exact h.goTo (h.alone hget rfl) rfl (fun _ he => he) h.stored h.sound
          (h.holds id _ hget rfl) (h.chained_found hget rfl) ⟨rfl, held, hstored, hdecide⟩
  next => exact h

theorem write (h : Consistent scheduler s) (id : ℕ) (fault : Option StoreError) :
    Consistent scheduler (s.write id fault) := by
  unfold CronRegistry.write
  split
  next operation before tables hget =>
    obtain ⟨rfl, held, hstored, hdecide⟩ := h.knows id _ hget
    split
    next e _ =>
      refine h.finish hget rfl (CronEntry.sound_same hstored ?_ ?_)
      · intro reply hreply
        cases hreply
      · intro reply _ hanswer
        rw [hdecide] at hanswer
        cases hanswer
    next rows hwritten =>
      obtain ⟨-, hkept, -⟩ := CronTables.decide_spec hstored.kept hdecide
      have hrows : Stored scheduler rows tables := by
        cases fault with
        | some e => cases hwritten
        | none => exact ⟨hwritten, hkept⟩
      exact h.goTo (h.alone hget rfl) rfl (fun _ he => he) ⟨tables, hrows⟩ h.sound
        (h.holds id _ hget rfl) (h.chained_found hget rfl)
        ⟨rfl, held, tables, hstored, hrows, hdecide⟩
  next => exact h

theorem notify (h : Consistent scheduler s) (id : ℕ) : Consistent scheduler (s.notify id) := by
  unfold CronRegistry.notify
  split
  next operation before hget =>
    obtain ⟨hrevision, held, after, hheld, hafter, hdecide⟩ := h.knows id _ hget
    obtain ⟨heffect, -, hne⟩ := CronTables.decide_spec hheld.kept hdecide
    have hentry : CronEntry.Sound scheduler held after
        ⟨operation, .ok .done, none, before, ⟨s.now.rows, s.now.revision + 1⟩⟩ := by
      refine ⟨hheld, hafter, ?_, ?_, ?_, fun heq => absurd heq hne, ?_⟩
      · intro error herror
        cases herror
      · rintro _ ⟨⟩
        exact heffect
      · intro reply _ hanswer
        rw [hdecide] at hanswer
        cases hanswer
      · simp [hne, ← hrevision]
    exact h.finish hget rfl hentry
  next => exact h

/-- Whatever happens to a registry, it stays consistent. -/
theorem step (h : Consistent scheduler s) (m : Move) :
    Consistent scheduler (CronRegistry.step scheduler s m) := by
  cases m with
  | arrive id operation => exact h.arrive id operation
  | enter id => exact h.enter id
  | consult id fault => exact h.consult id fault
  | write id fault => exact h.write id fault
  | notify id => exact h.notify id
  | restart =>
    obtain ⟨tables, htables⟩ := h.stored
    exact .new htables

/-- Until the holder of the lock has written, all is as it found it. -/
theorem now_eq_found (h : Consistent scheduler s) :
    s.now.revision = s.found.revision ∧ (s.now = s.found ∨ ∃ (id : ℕ) (operation : CronOperation)
      (before : Snapshot), s.mutation = some id ∧
        s.calls[id]? = some ⟨operation, .persisted before⟩) := by
  cases hmutation : s.mutation with
  | none => simp [found, hmutation]
  | some id =>
    cases hget : s.calls[id]? with
    | none => simp [found, hmutation, hget]
    | some call =>
      have hknown := h.knows id call hget
      obtain ⟨operation, phase⟩ := call
      cases phase with
      | arrived | returned answer => simp [found, hmutation, hget, CronPhase.found]
      | entered before =>
        have hnow : s.now = before := hknown
        simp [found, hmutation, hget, CronPhase.found, hnow]
      | persisting before tables =>
        have hnow : s.now = before := hknown.1
        simp [found, hmutation, hget, CronPhase.found, hnow]
      | persisted before =>
        have hrevision : s.now.revision = before.revision := hknown.1
        refine ⟨?_, .inr ⟨id, operation, before, rfl, hget⟩⟩
        simp [found, hmutation, hget, CronPhase.found, hrevision]

/-- Entries that leave a deployment's table leave it there. -/
theorem current_of_chained {front : List CronEntry} {first last : Snapshot}
    (hchained : Chained CronEntry.before CronEntry.after first front last)
    (hsound : ∀ e ∈ front, ∃ held after, e.Sound scheduler held after) {appId : AppId}
    {deploymentId : DeploymentId} (hleaves : ∀ e ∈ front, e.Leaves appId deploymentId)
    {table : CronTable} (hstored : Stored scheduler first.rows held)
    (hcurrent : held.current appId deploymentId = some table) :
    ∃ tables, Stored scheduler last.rows tables ∧
      tables.current appId deploymentId = some table := by
  refine hchained.invariant (I := fun snapshot => ∃ tables, Stored scheduler snapshot.rows tables ∧
    tables.current appId deploymentId = some table) ?_ ⟨held, hstored, hcurrent⟩
  rintro e he ⟨tables, htables, hcurrent⟩
  obtain ⟨before, after, hentry⟩ := hsound e he
  obtain rfl := htables.unique hentry.found
  exact ⟨after, hentry.left, hentry.leaves (hleaves e he) hcurrent⟩

/-- A crontab that was registered is listed as it was written. -/
theorem listed (h : Consistent scheduler s) {front between rest : List CronEntry}
    {replaced listed : CronEntry} (hlog : s.log = front ++ replaced :: between ++ listed :: rest)
    {appId : AppId} {deploymentId : DeploymentId} {text : String} {instant : ℤ}
    {reply : CronReply} (hreplace : replaced.operation = .replace appId deploymentId text instant)
    (hreply : replaced.answer = .ok reply) (hlist : listed.operation = .list appId deploymentId)
    (hfault : listed.fault = none) (hleaves : ∀ e ∈ between, e.Leaves appId deploymentId) :
    ∃ crontab, listed.answer = .ok (.crontab crontab) ∧ crontab.text = text := by
  have hchained := h.chained
  rw [hlog, chained_append_iff] at hchained
  -- the history between the replace and the list leaves the table of the deployment
  obtain ⟨middle, hchained, hbefore, -⟩ := hchained
  obtain ⟨_, -, -, hchained⟩ := chained_append_iff.mp hchained
  have hsound : ∀ e ∈ between, ∃ held after, e.Sound scheduler held after := fun e he =>
    h.sound e (by simp [hlog, he])
  obtain ⟨held, after, hreplaced⟩ := h.sound replaced (by simp [hlog])
  have heffect := hreplaced.effect reply hreply
  rw [hreplace] at heffect
  obtain ⟨-, -, table, hdeployment, htext, hafter⟩ := heffect
  have hcurrent : after.current appId deploymentId = some table := by
    refine CronTables.current_eq_some_iff.mpr ⟨?_, hdeployment⟩
    rw [hafter appId, if_pos rfl]
  obtain ⟨tables, hstored, hcurrent⟩ :=
    current_of_chained hchained hsound hleaves hreplaced.left hcurrent
  obtain ⟨found, left, hlisted⟩ := h.sound listed (by simp [hlog])
  rw [← hbefore] at hstored
  -- what the list found is what the history left
  obtain rfl := hstored.unique hlisted.found
  have hdecide : tables.decide scheduler listed.operation =
      .ok (.answer (.crontab (table.crontab.getD Crontab.empty))) := by
    rw [hlist]
    exact bind_eq_ok_iff.mpr ⟨table, ofOption_eq_ok_iff.mpr hcurrent, rfl⟩
  refine ⟨_, hlisted.answered _ hfault hdecide, ?_⟩
  obtain ⟨crontab, hcrontab, rfl⟩ := Option.map_eq_some_iff.mp htext
  rw [hcrontab]
  rfl

end Consistent

end CronRegistry

end Nibrunner.Cron

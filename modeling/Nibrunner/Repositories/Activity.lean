import Nibrunner.Activity.Ledger
import Nibrunner.Repositories.LastWritten

/-!
# The moments of activity a host keeps across a restart

`replaceAll` leaves the table holding the apps it is handed, and each with a reading less than
`writeToleranceMs` from the one handed in: a reading that moved less than that from its row is
left as the table holds it, in the memory of the last write too, so that small moves add up.

Any step of a call may fail, with its transaction rolled back, or lost track of in its commit;
and a daemon that comes up again remembers nothing. `Coherent` says that what is remembered is
what the table holds, and `tracks_run` what a call then does in every state a run reaches.
-/

namespace Nibrunner

open Std

/-- How far a reading moves from the row on disk before it is worth a write. -/
def writeToleranceMs : ℕ := minIdleTimeoutMs / 2

/-- A statement on the activity table. -/
inductive ActivityStatement where
  | upsert (app : String) (atMs : ℤ)
  | delete (app : String)
deriving DecidableEq

def ActivityStatement.apply (table : ExtTreeMap String ℤ) :
    ActivityStatement → ExtTreeMap String ℤ
  | upsert app atMs => table.insert app atMs
  | delete app => table.erase app

/-- How a commit goes. One that fails may be in all the same. -/
inductive CommitAnswer where
  | ok
  | failed (reason : String) (landed : Bool)

/-- What the database answers one call, its statements by their number. -/
structure WriteAnswers where
  read : Except String Unit
  begin : Except String Unit
  statement : ℕ → Except String Unit
  commit : CommitAnswer

/-- The table, what the repository remembers of its last write, and every statement the database
was sent, which nothing reads. The memory is taken when a write begins and put back once it is
in. -/
structure SqliteActivity where
  table : ExtTreeMap String ℤ
  lastWritten : Option (ExtTreeMap String ℤ)
  statements : List ActivityStatement

namespace SqliteActivity

/-- The repository of a daemon that has just come up over a table an earlier one left. -/
def new (table : ExtTreeMap String ℤ) : SqliteActivity := ⟨table, none, []⟩

/-- The rows a call asks for. -/
def rowsOf (activity : ExtTreeMap AppId ℤ) : ExtTreeMap String ℤ :=
  activity.toList.foldl (fun rows held => rows.insert held.1.text held.2) ∅

/-- A reading is worth a write where it moved by the tolerance or more. -/
def worthWriting (held wanted : ℤ) : Bool := writeToleranceMs ≤ (wanted - held).natAbs

/-- The write of a call that finds `held` in the table, small moves kept back. -/
def deltaTowards (r : SqliteActivity) (activity : ExtTreeMap AppId ℤ) :
    Delta (ExtTreeMap String ℤ) :=
  (towards r.lastWritten (rowsOf activity) r.table).keepUnless worthWriting

/-- The statements of a write: what changed is put down, and then what is gone is deleted. -/
def statementsOf (delta : Delta (ExtTreeMap String ℤ)) : List ActivityStatement :=
  delta.changed.map (fun row => .upsert row.1 row.2) ++ delta.gone.map .delete

/-- The statements of a transaction from the `n`-th on, up to the first that fails: the table as
they leave it, and those that were sent. -/
def execute (answers : ℕ → Except String Unit) (table : ExtTreeMap String ℤ) :
    ℕ → List ActivityStatement →
      Except String (ExtTreeMap String ℤ) × List ActivityStatement
  | _, [] => (.ok table, [])
  | n, statement :: rest =>
    match answers n with
    | .error reason => (.error reason, [statement])
    | .ok () =>
      let (left, sent) := execute answers (statement.apply table) (n + 1) rest
      (left, statement :: sent)

/-- Leaves the table holding the apps of `activity` and nothing else. -/
def replaceAll (r : SqliteActivity) (activity : ExtTreeMap AppId ℤ) (answers : WriteAnswers) :
    Except StoreError Unit × SqliteActivity :=
  match r.lastWritten.isSome, answers.read with
  | false, .error reason => (.error (.unreadable reason), r)
  | _, _ =>
    let delta := r.deltaTowards activity
    let forgotten := { r with lastWritten := none }
    if delta.isEmpty then (.ok (), { r with lastWritten := some delta.wanted })
    else
      match answers.begin with
      | .error reason => (.error (.unwritable reason), forgotten)
      | .ok () =>
        match execute answers.statement r.table 0 (statementsOf delta) with
        | (.error reason, sent) =>
          (.error (.unwritable reason), { forgotten with statements := r.statements ++ sent })
        | (.ok table, sent) =>
          match answers.commit with
          | .failed reason landed =>
            (.error (.unwritable reason),
              { forgotten with
                table := if landed then table else r.table
                statements := r.statements ++ sent })
          | .ok =>
            (.ok (),
              { table := table
                lastWritten := some delta.wanted
                statements := r.statements ++ sent })

/-- The daemon goes, and the next one comes up over the same table. -/
def restart (r : SqliteActivity) : SqliteActivity := { r with lastWritten := none }

/-- What happens to a repository. -/
inductive Event where
  | replaceAll (activity : ExtTreeMap AppId ℤ) (answers : WriteAnswers)
  | restart

def step (r : SqliteActivity) : Event → SqliteActivity
  | .replaceAll activity answers => (r.replaceAll activity answers).2
  | .restart => r.restart

/-- What is remembered is what the table holds. -/
def Coherent (r : SqliteActivity) : Prop := ∀ rows, r.lastWritten = some rows → rows = r.table

/-- **The table tracks what was handed in**: it holds the same apps, each with a reading less than
the tolerance away. -/
structure Tracks (table : ExtTreeMap String ℤ) (activity : ExtTreeMap AppId ℤ) : Prop where
  apps : ∀ app : AppId, table[app.text]? = none ↔ activity[app]? = none
  readings : ∀ (app : AppId) (atMs heldMs : ℤ), activity[app]? = some atMs →
    table[app.text]? = some heldMs → (atMs - heldMs).natAbs < writeToleranceMs

/-- Every reading moved less than the tolerance from its row. -/
def MovedLittle (table : ExtTreeMap String ℤ) (activity : ExtTreeMap AppId ℤ) : Prop :=
  ∀ (app : AppId) (atMs : ℤ), activity[app]? = some atMs →
    ∃ heldMs, table[app.text]? = some heldMs ∧ (atMs - heldMs).natAbs < writeToleranceMs

/-! ### What a call writes -/

/-- The delta of a call, over a table that is what the repository remembers. -/
def keptDelta (table : ExtTreeMap String ℤ) (activity : ExtTreeMap AppId ℤ) :
    Delta (ExtTreeMap String ℤ) :=
  (⟨table, rowsOf activity⟩ : Delta _).keepUnless worthWriting

theorem getElem?_rowsOf (activity : ExtTreeMap AppId ℤ) (app : AppId) :
    (rowsOf activity)[app.text]? = activity[app]? :=
  (getElem?_foldl_insert_text (fun atMs : ℤ => atMs) activity app).trans
    Option.map_id'

/-- What a call leaves under an app: what was handed in for it, or the row it had where that is
less than the tolerance away. -/
theorem getElem?_keptDelta (table : ExtTreeMap String ℤ) (activity : ExtTreeMap AppId ℤ)
    (app : AppId) :
    (keptDelta table activity).wanted[app.text]? = activity[app]?.map fun atMs =>
      match table[app.text]? with
      | some heldMs =>
        if (atMs - heldMs).natAbs < writeToleranceMs then heldMs else atMs
      | none => atMs := by
  rw [keptDelta, Delta.getElem?_wanted_keepUnless, getElem?_rowsOf]
  refine congrArg (Option.map · activity[app]?) (funext fun atMs => ?_)
  dsimp only
  cases table[app.text]? with
  | none => rfl
  | some heldMs =>
    simp only [worthWriting, decide_eq_true_eq]
    split <;> split <;> omega

theorem tracks_keptDelta (table : ExtTreeMap String ℤ) (activity : ExtTreeMap AppId ℤ) :
    Tracks (keptDelta table activity).wanted activity where
  apps app := by rw [getElem?_keptDelta, Option.map_eq_none_iff]
  readings app atMs heldMs hat hheld := by
    have htolerance : 0 < writeToleranceMs := by decide
    rw [getElem?_keptDelta, hat, Option.map_some, Option.some.injEq] at hheld
    split at hheld
    · split at hheld
      · rename_i hlittle
        rw [← hheld]
        exact hlittle
      · omega
    · omega

/-- A table out of which nothing moved far is wanted as it is, but for the apps not handed in. -/
theorem MovedLittle.getElem?_keptDelta {table : ExtTreeMap String ℤ}
    {activity : ExtTreeMap AppId ℤ} (h : MovedLittle table activity) {app : AppId}
    (happ : activity[app]? ≠ none) :
    (keptDelta table activity).wanted[app.text]? = table[app.text]? := by
  obtain ⟨atMs, hat⟩ := Option.ne_none_iff_exists'.mp happ
  obtain ⟨heldMs, hheld, hlittle⟩ := h app atMs hat
  rw [SqliteActivity.getElem?_keptDelta, hat, hheld, Option.map_some]
  dsimp only
  rw [if_pos hlittle]

theorem mem_statementsOf_iff {delta : Delta (ExtTreeMap String ℤ)} {s : ActivityStatement} :
    s ∈ statementsOf delta ↔
      (∃ row ∈ delta.changed, .upsert row.1 row.2 = s) ∨ ∃ app ∈ delta.gone, .delete app = s := by
  rw [statementsOf, List.mem_append, List.mem_map, List.mem_map]

/-- What moved little is written by deleting the apps not handed in. -/
theorem MovedLittle.statementsOf {table : ExtTreeMap String ℤ} {activity : ExtTreeMap AppId ℤ}
    (h : MovedLittle table activity) {s : ActivityStatement}
    (hs : s ∈ SqliteActivity.statementsOf (keptDelta table activity)) :
    ∃ app : AppId, s = .delete app.text ∧ table[app.text]? ≠ none ∧ activity[app]? = none := by
  rcases mem_statementsOf_iff.mp hs with ⟨⟨key, value⟩, hrow, -⟩ | ⟨key, hkey, rfl⟩
  · obtain ⟨hwanted, hheld⟩ := Delta.mem_changed_iff.mp hrow
    have happ : activity[(⟨key⟩ : AppId)]? ≠ none := by
      intro hnone
      rw [← (tracks_keptDelta table activity).apps] at hnone
      rw [hnone] at hwanted
      cases hwanted
    have hsame := h.getElem?_keptDelta happ
    rw [hwanted] at hsame
    exact absurd hsame.symm hheld
  · obtain ⟨hheld, hwanted⟩ := Delta.mem_gone_iff.mp hkey
    exact ⟨⟨key⟩, rfl, hheld, ((tracks_keptDelta table activity).apps ⟨key⟩).mp hwanted⟩

/-! ### What a call does -/

/-- A transaction that goes through sends all its statements, and leaves what they do. -/
theorem execute_of_ok {answers : ℕ → Except String Unit} {table left : ExtTreeMap String ℤ}
    {n : ℕ} {l sent : List ActivityStatement} (h : execute answers table n l = (.ok left, sent)) :
    left = l.foldl ActivityStatement.apply table ∧ sent = l := by
  induction l generalizing table n sent with
  | nil =>
    rw [execute, Prod.mk.injEq, Except.ok.injEq] at h
    exact ⟨h.1.symm, h.2.symm⟩
  | cons statement l ih =>
    rw [execute] at h
    split at h
    · cases h
    · rw [Prod.mk.injEq] at h
      obtain ⟨hleft, hsent⟩ := ih (Prod.ext h.1 rfl)
      exact ⟨hleft, h.2.symm.trans (congrArg (statement :: ·) hsent)⟩

theorem mem_of_mem_execute {answers : ℕ → Except String Unit} {table : ExtTreeMap String ℤ}
    {n : ℕ} {l : List ActivityStatement} {s : ActivityStatement}
    (hs : s ∈ (execute answers table n l).2) : s ∈ l := by
  induction l generalizing table n with
  | nil => exact hs
  | cons statement l ih =>
    rw [execute] at hs
    split at hs
    · exact List.mem_cons.mpr (.inl (List.mem_singleton.mp hs))
    · rcases List.mem_cons.mp hs with rfl | hs
      · exact List.mem_cons_self
      · exact List.mem_cons_of_mem _ (ih hs)

theorem foldl_statementsOf (delta : Delta (ExtTreeMap String ℤ)) :
    (statementsOf delta).foldl ActivityStatement.apply delta.last = delta.wanted := by
  rw [statementsOf, List.foldl_append, List.foldl_map, List.foldl_map]
  exact delta.foldl_erase_gone

theorem statementsOf_eq_nil {delta : Delta (ExtTreeMap String ℤ)}
    (h : delta.last = delta.wanted) : statementsOf delta = [] := by
  refine List.eq_nil_iff_forall_not_mem.mpr fun s hs => ?_
  rcases mem_statementsOf_iff.mp hs with ⟨⟨key, value⟩, hrow, -⟩ | ⟨key, hkey, -⟩
  · obtain ⟨hwanted, hheld⟩ := Delta.mem_changed_iff.mp hrow
    exact hheld (h ▸ hwanted)
  · obtain ⟨hheld, hwanted⟩ := Delta.mem_gone_iff.mp hkey
    exact hheld (h ▸ hwanted)

variable {r : SqliteActivity}

theorem Coherent.deltaTowards (hr : r.Coherent) (activity : ExtTreeMap AppId ℤ) :
    r.deltaTowards activity = keptDelta r.table activity := by
  have hlast : towards r.lastWritten (rowsOf activity) r.table = ⟨r.table, rowsOf activity⟩ := by
    rw [towards]
    cases h : r.lastWritten with
    | none => rfl
    | some rows => rw [hr rows h]; rfl
  rw [SqliteActivity.deltaTowards, hlast]
  rfl

/-- **What a call does**: all of its write, remembered; or, where anything failed, some of its
statements, with nothing remembered, over a table left as it was or with all of the write in. -/
theorem replaceAll_cases (hr : r.Coherent) (activity : ExtTreeMap AppId ℤ)
    (answers : WriteAnswers) :
    let delta := keptDelta r.table activity
    (r.replaceAll activity answers = (.ok (),
      ⟨delta.wanted, some delta.wanted, r.statements ++ statementsOf delta⟩)) ∨
    ∃ error table sent, r.replaceAll activity answers =
        (.error error, ⟨table, none, r.statements ++ sent⟩) ∧
      (table = r.table ∨ table = delta.wanted) ∧ ∀ s ∈ sent, s ∈ statementsOf delta := by
  intro delta
  have hdelta : r.deltaTowards activity = delta := hr.deltaTowards activity
  rw [replaceAll.eq_def]
  split
  · rename_i reason hnone hread
    refine .inr ⟨.unreadable reason, r.table, [], ?_, .inl rfl, by simp⟩
    have hlast : r.lastWritten = none := Option.not_isSome_iff_eq_none.mp (by simp [hnone])
    rw [List.append_nil, ← hlast]
  · dsimp only
    rw [hdelta, Delta.isEmpty]
    split
    · rename_i hempty
      have hsame : r.table = delta.wanted := of_decide_eq_true hempty
      have hnothing : statementsOf delta = [] := statementsOf_eq_nil hsame
      refine .inl ?_
      rw [hnothing, List.append_nil, ← hsame]
    · split
      · rename_i reason hbegin
        exact .inr ⟨.unwritable reason, r.table, [], by rw [List.append_nil], .inl rfl, by simp⟩
      · split
        · rename_i reason sent hexecute
          refine .inr ⟨.unwritable reason, r.table, sent, rfl, .inl rfl, fun s hs => ?_⟩
          exact mem_of_mem_execute (by rw [hexecute]; exact hs)
        · rename_i table sent hexecute
          obtain ⟨htable, rfl⟩ := execute_of_ok hexecute
          have hwanted : table = delta.wanted := htable.trans (foldl_statementsOf delta)
          split
          · rename_i reason landed hcommit
            refine .inr ⟨.unwritable reason, _, _, rfl, ?_, fun s hs => hs⟩
            cases landed with
            | false => exact .inl rfl
            | true => exact .inr hwanted
          · exact .inl (by rw [hwanted])

/-- **A call keeps the memory and the table together**, and so does a restart. -/
theorem Coherent.step (hr : r.Coherent) (e : Event) : (r.step e).Coherent := by
  cases e with
  | restart => rintro rows ⟨⟩
  | replaceAll activity answers =>
    rw [SqliteActivity.step]
    rcases replaceAll_cases hr activity answers with heq | ⟨error, table, sent, heq, -⟩
    · rw [heq]
      rintro rows ⟨⟩
      rfl
    · rw [heq]
      rintro rows ⟨⟩

theorem coherent_run (table : ExtTreeMap String ℤ) (events : List Event) :
    (Run.run step (new table) events).Coherent :=
  Run.invariant (fun _ e hr => hr.step e) (by rintro rows ⟨⟩) events

/-- A call whose readings all moved little deletes the apps it was not handed, and no more. -/
theorem sent_of_movedLittle (hr : r.Coherent) {activity : ExtTreeMap AppId ℤ}
    (hlittle : MovedLittle r.table activity) (answers : WriteAnswers) :
    ∃ sent, (r.replaceAll activity answers).2.statements = r.statements ++ sent ∧ ∀ s ∈ sent,
      ∃ app : AppId, s = .delete app.text ∧ r.table[app.text]? ≠ none ∧
        activity[app]? = none := by
  rcases replaceAll_cases hr activity answers with heq | ⟨error, table, sent, heq, -, hsent⟩
  · rw [heq]
    exact ⟨_, rfl, fun s hs => hlittle.statementsOf hs⟩
  · rw [heq]
    exact ⟨sent, rfl, fun s hs => hlittle.statementsOf (hsent s hs)⟩

/-- Handed every app of the table, such a call writes nothing. -/
theorem replaceAll_of_movedLittle (hr : r.Coherent) {activity : ExtTreeMap AppId ℤ}
    (hlittle : MovedLittle r.table activity)
    (hall : ∀ app : AppId, r.table[app.text]? ≠ none → activity[app]? ≠ none)
    (answers : WriteAnswers) :
    (r.replaceAll activity answers).2.table = r.table ∧
      (r.replaceAll activity answers).2.statements = r.statements := by
  have hwanted : (keptDelta r.table activity).wanted = r.table := by
    refine ExtTreeMap.ext_getElem? fun key => ?_
    by_cases happ : activity[(⟨key⟩ : AppId)]? = none
    · have hheld : r.table[key]? = none := not_not.mp fun hne => hall ⟨key⟩ hne happ
      rw [hheld]
      exact ((tracks_keptDelta r.table activity).apps ⟨key⟩).mpr happ
    · exact hlittle.getElem?_keptDelta happ
  have hnothing : statementsOf (keptDelta r.table activity) = [] :=
    statementsOf_eq_nil hwanted.symm
  rcases replaceAll_cases hr activity answers with heq | ⟨error, table, sent, heq, htable, hsent⟩
  · rw [heq, hnothing, hwanted, List.append_nil]
    exact ⟨rfl, rfl⟩
  · have hsent' : sent = [] := by
      rw [hnothing] at hsent
      exact List.eq_nil_iff_forall_not_mem.mpr fun s hs => List.not_mem_nil (hsent s hs)
    rw [hwanted, or_self] at htable
    rw [heq, hsent', htable, List.append_nil]
    exact ⟨rfl, rfl⟩

/-- **Diffed writes track the table.** After any calls and restarts over any table, a call that
succeeds leaves the table tracking what it was handed. A call whose readings all moved less than
the tolerance writes no reading: it deletes the rows of apps it was not handed, and writes nothing
where there are none. -/
theorem tracks_run (table : ExtTreeMap String ℤ) (events : List Event)
    (activity : ExtTreeMap AppId ℤ) (answers : WriteAnswers) :
    let r := Run.run step (new table) events
    let left := (r.replaceAll activity answers).2
    ((r.replaceAll activity answers).1 = .ok () → Tracks left.table activity) ∧
      (MovedLittle r.table activity →
        (∃ sent, left.statements = r.statements ++ sent ∧ ∀ s ∈ sent,
          ∃ app : AppId, s = .delete app.text ∧ r.table[app.text]? ≠ none ∧
            activity[app]? = none) ∧
        ((∀ app : AppId, r.table[app.text]? ≠ none → activity[app]? ≠ none) →
          left.table = r.table ∧ left.statements = r.statements)) := by
  intro r left
  have hr : r.Coherent := coherent_run table events
  refine ⟨fun hok => ?_, fun hlittle => ⟨sent_of_movedLittle hr hlittle answers,
    fun hall => replaceAll_of_movedLittle hr hlittle hall answers⟩⟩
  rcases replaceAll_cases hr activity answers with heq | ⟨error, table, sent, heq, -⟩
  · rw [show left = _ from congrArg Prod.snd heq]
    exact tracks_keptDelta r.table activity
  · rw [heq] at hok
    cases hok

/-- Everything the database is asked for succeeds. -/
def allWell : WriteAnswers := ⟨.ok (), .ok (), fun _ => .ok (), .ok⟩

/-- Two apps, both active once. -/
def twoRows : ExtTreeMap String ℤ := ((∅ : ExtTreeMap String ℤ).insert "app-1" 1).insert "app-2" 1

/-- The first of them. -/
def oneApp : ExtTreeMap AppId ℤ := (∅ : ExtTreeMap AppId ℤ).insert ⟨"app-1"⟩ 1

/-- The second of two apps is gone: its row is deleted, though the reading of the first has not
moved. -/
theorem gone_app_is_deleted :
    ¬ ∀ (table : ExtTreeMap String ℤ) (events : List Event) (activity : ExtTreeMap AppId ℤ)
        (answers : WriteAnswers),
      let r := Run.run step (new table) events
      MovedLittle r.table activity →
        (r.replaceAll activity answers).2.statements = r.statements := by
  intro h
  have hdeleted : ((new twoRows).replaceAll oneApp allWell).2.statements =
      [.delete "app-2"] := by decide +kernel
  have hnothing := h twoRows [] oneApp allWell ?_
  · rw [Run.run_nil, hdeleted] at hnothing
    cases hnothing
  · intro app atMs hat
    rw [oneApp, ExtTreeMap.getElem?_insert_ite] at hat
    split at hat
    · rename_i happ
      rw [← happ]
      obtain rfl : (1 : ℤ) = atMs := Option.some.inj hat
      exact ⟨1, by decide +kernel, by decide⟩
    · cases hat

end SqliteActivity

end Nibrunner

import Nibrunner.Cron.Registry
import Nibrunner.Repositories.CronRoundTrip

/-!
# What an operation of the cron registry decides

Tables are kept under their apps, and the jobs of each are what its crontab reads as. `Effect` says
what an operation that succeeds leaves of the tables it found, and `decide_spec` that what is
decided has it, keeps the tables so, and writes only where something changes.
-/

namespace Nibrunner.Cron

open Except Std

/-! ### Tables that are kept -/

/-- The jobs of a table are those its crontab names, and without a crontab there are none. -/
def CronTable.Parsed (scheduler : Scheduler) (table : CronTable) : Prop :=
  (table.jobs = [] ∧ table.crontab = none) ∨ ∃ crontab instant parsed,
    table.crontab = some crontab ∧ parseCrontab scheduler crontab.text instant = .ok parsed ∧
      table.jobs = parsed.jobs

theorem CronTable.Parsed.small {scheduler : Scheduler} {table : CronTable}
    (h : table.Parsed scheduler) : ∀ job ∈ table.jobs, job.Small := by
  rcases h with ⟨hjobs, -⟩ | ⟨crontab, instant, parsed, -, hparsed, hjobs⟩
  · simp [hjobs]
  · rw [hjobs]
    exact environment_le hparsed

namespace CronTables

variable {scheduler : Scheduler} {held tables : CronTables}

/-- Each table is under its app, and its jobs are its crontab's. -/
structure Kept (scheduler : Scheduler) (tables : CronTables) : Prop where
  appId : ∀ (appId : AppId) (table : CronTable), tables[appId]? = some table →
    table.appId = appId
  parsed : ∀ (appId : AppId) (table : CronTable), tables[appId]? = some table →
    table.Parsed scheduler

theorem kept_empty : Kept scheduler ∅ where
  appId appId table h := by simp at h
  parsed appId table h := by simp at h

theorem Kept.insert (hkept : tables.Kept scheduler) (table : CronTable)
    (hparsed : table.Parsed scheduler) : Kept scheduler (tables.insert table.appId table) := by
  have hget {app : AppId} {other : CronTable}
      (h : (tables.insert table.appId table)[app]? = some other) :
      table.appId = app ∧ other = table ∨ tables[app]? = some other := by
    rw [ExtTreeMap.getElem?_insert_ite] at h
    split at h
    next heq => exact .inl ⟨heq, (Option.some.inj h).symm⟩
    next => exact .inr h
  constructor
  · intro app other h
    rcases hget h with ⟨heq, rfl⟩ | h
    · exact heq
    · exact hkept.appId app other h
  · intro app other h
    rcases hget h with ⟨-, rfl⟩ | h
    · exact hparsed
    · exact hkept.parsed app other h

theorem mem_intoValues (hkept : tables.Kept scheduler) {table : CronTable} :
    table ∈ tables.intoValues ↔ tables[table.appId]? = some table := by
  rw [intoValues, List.mem_map]
  constructor
  · rintro ⟨⟨app, _⟩, hmem, rfl⟩
    have hget := ExtTreeMap.mem_toList_iff_getElem?_eq_some.mp hmem
    rw [hkept.appId app _ hget]
    exact hget
  · intro h
    exact ⟨(table.appId, table), ExtTreeMap.mem_toList_iff_getElem?_eq_some.mpr h, rfl⟩

/-- Kept tables are in the order of their apps. -/
theorem pairwise_intoValues (hkept : tables.Kept scheduler) :
    tables.intoValues.Pairwise fun a b => compare a.appId b.appId = .lt := by
  rw [intoValues, List.pairwise_map]
  have happ : ∀ entry ∈ tables.toList, entry.2.appId = entry.1 := fun entry hentry =>
    hkept.appId entry.1 entry.2 (ExtTreeMap.mem_toList_iff_getElem?_eq_some.mp hentry)
  refine tables.ordered_keys_toList.imp_of_mem ?_
  intro a b ha hb hab
  rwa [happ a ha, happ b hb]

theorem nodup_intoValues (hkept : tables.Kept scheduler) :
    (tables.intoValues.map CronTable.appId).Nodup := by
  rw [List.nodup_iff_pairwise_ne, List.pairwise_map]
  refine (pairwise_intoValues hkept).imp ?_
  intro a b hab heq
  rw [heq, ReflOrd.compare_self] at hab
  cases hab

/-- Tables with distinct apps are collected. -/
theorem collect_eq (list : List CronTable) (tables : CronTables)
    (hlist : (list.map CronTable.appId).Nodup)
    (hfresh : ∀ table ∈ list, tables[table.appId]? = none) :
    collect tables list =
      .ok (list.foldl (fun tables table => tables.insert table.appId table) tables) := by
  induction list generalizing tables with
  | nil => rfl
  | cons table list ih =>
    rw [List.map_cons, List.nodup_cons] at hlist
    have hnew : tables.contains table.appId = false := by
      rw [ExtTreeMap.contains_eq_isSome_getElem?, hfresh table List.mem_cons_self]
      rfl
    have hrest : ∀ other ∈ list, (tables.insert table.appId table)[other.appId]? = none := by
      intro other hother
      have hne : table.appId ≠ other.appId := by
        intro heq
        exact hlist.1 (heq ▸ List.mem_map_of_mem (f := CronTable.appId) hother)
      rw [ExtTreeMap.getElem?_insert_ite, if_neg hne]
      exact hfresh other (List.mem_cons_of_mem _ hother)
    rw [List.foldl_cons, ← ih _ hlist.2 hrest]
    simp [collect, refuse, hnew, bind, Except.bind]

theorem collect_intoValues (hkept : tables.Kept scheduler) :
    collect ∅ tables.intoValues = .ok tables := by
  rw [collect_eq _ _ (nodup_intoValues hkept) fun _ _ => ExtTreeMap.getElem?_empty]
  refine congrArg _ (ExtTreeMap.ext_getElem? fun app => ?_)
  cases hget : tables[app]? with
  | some table =>
    obtain rfl := hkept.appId app table hget
    exact ExtTreeMap.getElem?_foldl_insert_of_mem CronTable.appId (fun table => table)
      (nodup_intoValues hkept) ∅ ((mem_intoValues hkept).mpr hget)
  | none =>
    refine (ExtTreeMap.getElem?_foldl_insert_of_notMem CronTable.appId (fun table => table) ∅
      ?_).trans ExtTreeMap.getElem?_empty
    intro hmem
    obtain ⟨table, htable, rfl⟩ := List.mem_map.mp hmem
    rw [(mem_intoValues hkept).mp htable] at hget
    cases hget

/-! ### What operations leave -/

theorem current_eq_some_iff {appId : AppId} {deploymentId : DeploymentId} {table : CronTable} :
    held.current appId deploymentId = some table ↔
      held[appId]? = some table ∧ table.deploymentId = deploymentId := by
  simp [current, Option.filter_eq_some_iff]

/-- A deployment's table is the one that is held exactly if that one is the deployment's. -/
theorem tableFor_eq_iff {appId : AppId} {deploymentId : DeploymentId} {table : CronTable}
    (hget : held[appId]? = some table) :
    held.tableFor appId deploymentId = table ↔ table.deploymentId = deploymentId := by
  constructor
  · intro heq
    rw [tableFor] at heq
    cases hcurrent : held.current appId deploymentId with
    | some other =>
      rw [hcurrent] at heq
      obtain rfl : other = table := heq
      exact (current_eq_some_iff.mp hcurrent).2
    | none =>
      rw [hcurrent] at heq
      rw [← heq]
      rfl
  · intro hdeployment
    rw [tableFor, current_eq_some_iff.mpr ⟨hget, hdeployment⟩]
    rfl

theorem parsed_tableFor (hkept : held.Kept scheduler) (appId : AppId)
    (deploymentId : DeploymentId) : (held.tableFor appId deploymentId).Parsed scheduler ∧
      (held.tableFor appId deploymentId).appId = appId := by
  unfold tableFor
  cases hcurrent : held.current appId deploymentId with
  | none => exact ⟨.inl ⟨rfl, rfl⟩, rfl⟩
  | some table =>
    have hget := (current_eq_some_iff.mp hcurrent).1
    exact ⟨hkept.parsed appId table hget, hkept.appId appId table hget⟩

/-- What the wanted tables are: those of the deployments, none of which is of an app twice. -/
theorem wanted_eq_ok {deployments : List (AppId × DeploymentId)} {before : CronTables}
    (h : held.wanted before deployments = .ok tables) :
    (∀ deployment ∈ deployments, before[deployment.1]? = none) ∧
      (∀ deployment ∈ deployments,
        tables[deployment.1]? = some (held.tableFor deployment.1 deployment.2)) ∧
      ∀ app, app ∉ deployments.map Prod.fst → tables[app]? = before[app]? := by
  induction deployments generalizing before with
  | nil =>
    obtain rfl := Except.ok.inj h
    exact ⟨by simp, by simp, fun _ _ => rfl⟩
  | cons deployment deployments ih =>
    obtain ⟨_, hnew, h⟩ := bind_eq_ok_iff.mp h
    have hnew : before[deployment.1]? = none := by
      have hcontains := refuse_eq_ok_iff.mp hnew
      rwa [ExtTreeMap.contains_eq_isSome_getElem?, Bool.not_eq_true, Option.isSome_eq_false_iff,
        Option.isNone_iff_eq_none] at hcontains
    obtain ⟨hfresh, hlisted, hleft⟩ := ih h
    -- no deployment behind is of this app, whose table is there by then
    have hother : ∀ other ∈ deployments, deployment.1 ≠ other.1 := by
      intro other hother heq
      have hnone := hfresh other hother
      rw [ExtTreeMap.getElem?_insert_ite, if_pos heq] at hnone
      cases hnone
    refine ⟨?_, ?_, ?_⟩
    · intro other hmem
      rcases List.mem_cons.mp hmem with rfl | hmem
      · exact hnew
      · have hnone := hfresh other hmem
        rwa [ExtTreeMap.getElem?_insert_ite, if_neg (hother other hmem)] at hnone
    · intro other hmem
      rcases List.mem_cons.mp hmem with rfl | hmem
      · have hnot : other.1 ∉ deployments.map Prod.fst := by
          intro hmem
          obtain ⟨third, hthird, heq⟩ := List.mem_map.mp hmem
          exact hother third hthird heq.symm
        rw [hleft _ hnot, ExtTreeMap.getElem?_insert_ite, if_pos rfl]
      · exact hlisted other hmem
    · intro app happ
      rw [List.map_cons, List.mem_cons, not_or] at happ
      rw [hleft app happ.2, ExtTreeMap.getElem?_insert_ite, if_neg (Ne.symm happ.1)]

theorem kept_wanted (hheld : held.Kept scheduler) {deployments : List (AppId × DeploymentId)}
    {before : CronTables} (hbefore : before.Kept scheduler)
    (h : held.wanted before deployments = .ok tables) : tables.Kept scheduler := by
  induction deployments generalizing before with
  | nil =>
    obtain rfl := Except.ok.inj h
    exact hbefore
  | cons deployment deployments ih =>
    obtain ⟨_, -, h⟩ := bind_eq_ok_iff.mp h
    obtain ⟨hparsed, happ⟩ := parsed_tableFor hheld deployment.1 deployment.2
    have hinsert := hbefore.insert _ hparsed
    rw [happ] at hinsert
    exact ih hinsert h

/-- What an operation that answers leaves of the tables it found. -/
def Effect (held after : CronTables) (reply : CronReply) : CronOperation → Prop
  | .synchronize deployments => reply = .done ∧
      (∀ app, app ∉ deployments.map Prod.fst → after[app]? = none) ∧
      ∀ deployment ∈ deployments,
        after[deployment.1]? = some (held.tableFor deployment.1 deployment.2)
  | .beginDeployment appId deploymentId => reply = .done ∧
      ∀ app, after[app]? =
        if appId = app then some (held.tableFor appId deploymentId) else held[app]?
  | .replace appId deploymentId text _ => reply = .done ∧
      (held.current appId deploymentId).isSome ∧ ∃ table : CronTable,
        table.deploymentId = deploymentId ∧ table.crontab.map Crontab.text = some text ∧
        ∀ app, after[app]? = if appId = app then some table else held[app]?
  | .list appId deploymentId => after = held ∧ ∃ table,
      held.current appId deploymentId = some table ∧
        reply = .crontab (table.crontab.getD Crontab.empty)
  | .tables => after = held ∧ reply = .tables held.intoValues

/-- What a decision comes to: an answer leaves the tables, and what is written is kept so and
differs. -/
def Decided (scheduler : Scheduler) (held : CronTables) (operation : CronOperation) :
    Decision → Prop
  | .answer reply => Effect held held reply operation
  | .persist tables => Effect held tables .done operation ∧ tables.Kept scheduler ∧ tables ≠ held

theorem synchronize_spec (hheld : held.Kept scheduler)
    {deployments : List (AppId × DeploymentId)} {decision : Decision}
    (h : held.synchronize deployments = .ok decision) :
    Decided scheduler held (.synchronize deployments) decision := by
  obtain ⟨wanted, hwanted, h⟩ := bind_eq_ok_iff.mp h
  obtain rfl := Except.ok.inj h
  obtain ⟨-, hlisted, hleft⟩ := wanted_eq_ok hwanted
  have heffect : Effect held wanted .done (.synchronize deployments) :=
    ⟨rfl, fun app happ => (hleft app happ).trans ExtTreeMap.getElem?_empty, hlisted⟩
  split
  next hne => exact ⟨heffect, kept_wanted hheld kept_empty hwanted, hne⟩
  next heq =>
    obtain rfl : wanted = held := not_not.mp heq
    exact heffect

theorem beginDeployment_spec (hheld : held.Kept scheduler) (appId : AppId)
    (deploymentId : DeploymentId) : Decided scheduler held (.beginDeployment appId deploymentId)
      (held.beginDeployment appId deploymentId) := by
  unfold beginDeployment
  cases hcurrent : held.current appId deploymentId with
  | some table =>
    rw [Option.isSome_some, if_pos rfl]
    refine ⟨rfl, fun app => ?_⟩
    split
    next heq =>
      subst heq
      rw [tableFor, hcurrent]
      exact (current_eq_some_iff.mp hcurrent).1
    next => rfl
  | none =>
    have hempty : held.tableFor appId deploymentId = emptyTable appId deploymentId := by
      rw [tableFor, hcurrent]
      rfl
    rw [Option.isSome_none, if_neg Bool.false_ne_true]
    have hkept : Kept scheduler (held.insert appId (emptyTable appId deploymentId)) :=
      hheld.insert (emptyTable appId deploymentId) (.inl ⟨rfl, rfl⟩)
    refine ⟨⟨rfl, fun app => ?_⟩, hkept, fun heq => ?_⟩
    · rw [hempty]
      exact held.getElem?_insert_ite appId app _
    · -- the table that would be there already is of the deployment
      have hget : held[appId]? = some (emptyTable appId deploymentId) := by
        rw [← heq, ExtTreeMap.getElem?_insert_ite, if_pos rfl]
      have hsome : held.current appId deploymentId = some (emptyTable appId deploymentId) :=
        current_eq_some_iff.mpr ⟨hget, rfl⟩
      rw [hcurrent] at hsome
      cases hsome

theorem replace_spec (hheld : held.Kept scheduler) {appId : AppId} {deploymentId : DeploymentId}
    {text : String} {instant : ℤ} {decision : Decision}
    (h : held.replace scheduler appId deploymentId text instant = .ok decision) :
    Decided scheduler held (.replace appId deploymentId text instant) decision := by
  obtain ⟨_, hcurrent, h⟩ := bind_eq_ok_iff.mp h
  obtain ⟨parsed, hparsed, h⟩ := bind_eq_ok_iff.mp h
  have hparsed : parseCrontab scheduler text instant = .ok parsed := by
    cases hparse : parseCrontab scheduler text instant with
    | error e =>
      rw [hparse] at hparsed
      cases hparsed
    | ok other =>
      rw [hparse] at hparsed
      obtain rfl : other = parsed := Except.ok.inj hparsed
      rfl
  obtain rfl := Except.ok.inj h
  have hsome : (held.current appId deploymentId).isSome := by
    have hnot := refuse_eq_ok_iff.mp hcurrent
    simpa [Option.isNone_iff_eq_none, Option.isSome_iff_ne_none] using hnot
  have htext := parsed_text hparsed
  let replacement : CronTable := ⟨appId, deploymentId, parsed.jobs, some parsed.crontab⟩
  -- a table that is what it was is answered and not written again
  split
  next heq =>
    refine ⟨rfl, hsome, replacement, rfl, congrArg some htext, fun app => ?_⟩
    split
    next happ =>
      subst happ
      exact heq
    next => rfl
  next hne =>
    have hkept : Kept scheduler (held.insert appId replacement) :=
      hheld.insert replacement (.inr ⟨parsed.crontab, instant, parsed, rfl, by rwa [htext], rfl⟩)
    refine ⟨⟨rfl, hsome, replacement, rfl, congrArg some htext, fun app => ?_⟩, hkept,
      fun heq => hne ?_⟩
    · exact held.getElem?_insert_ite appId app _
    · rw [← heq, ExtTreeMap.getElem?_insert_ite, if_pos rfl]

/-- What an operation decides has its effect. -/
theorem decide_spec (hheld : held.Kept scheduler) {operation : CronOperation}
    {decision : Decision} (h : held.decide scheduler operation = .ok decision) :
    Decided scheduler held operation decision := by
  cases operation with
  | synchronize deployments => exact synchronize_spec hheld h
  | beginDeployment appId deploymentId =>
    obtain rfl := Except.ok.inj h
    exact beginDeployment_spec hheld appId deploymentId
  | replace appId deploymentId text instant => exact replace_spec hheld h
  | list appId deploymentId =>
    obtain ⟨table, htable, h⟩ := bind_eq_ok_iff.mp h
    obtain rfl := Except.ok.inj h
    exact ⟨rfl, table, ofOption_eq_ok_iff.mp htable, rfl⟩
  | tables =>
    obtain rfl := Except.ok.inj h
    exact ⟨rfl, rfl⟩

end CronTables

end Nibrunner.Cron

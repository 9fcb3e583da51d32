import Nibrunner.ForStd.IdMap
import Nibrunner.Repositories.Cron

/-!
# Cron tables come back as they were stored

What a transaction leaves is the rows of its tables, one after another (`rows_of_replaceAll`), and
these are put together to the tables again.

* `all_replaceAll`: tables in the order of their apps whose jobs have no more variables than the
  limit are read back as they were written.
-/

namespace Nibrunner.Cron.CronRows

open Except Std

attribute [local instance] lexOrd

/-! ### The rows of tables -/

/-- A job with the key of its row. -/
abbrev Keyed := (String × ℤ) × CronJobDefinition

/-- The jobs of a table from a number on, with their keys. -/
def keyedFrom (appId : AppId) (n : ℕ) (jobs : List CronJobDefinition) : List Keyed :=
  (jobs.zipIdx n).map fun (job, i) => ((appId.text, (i : ℤ)), job)

def keyed (table : CronTable) : List Keyed := keyedFrom table.appId 0 table.jobs

theorem keyedFrom_cons (appId : AppId) (n : ℕ) (job : CronJobDefinition)
    (jobs : List CronJobDefinition) : keyedFrom appId n (job :: jobs) =
      ((appId.text, (n : ℤ)), job) :: keyedFrom appId (n + 1) jobs := by
  simp [keyedFrom, List.zipIdx_cons]

/-- The keys of the jobs of a table are its app and their numbers. -/
theorem mem_keys_keyedFrom {appId : AppId} {n : ℕ} {jobs : List CronJobDefinition}
    {key : String × ℤ} : key ∈ (keyedFrom appId n jobs).map Prod.fst ↔
      key.1 = appId.text ∧ (n : ℤ) ≤ key.2 ∧ key.2 < n + jobs.length := by
  induction jobs generalizing n with
  | nil =>
    simp only [keyedFrom, List.zipIdx_nil, List.map_nil, List.not_mem_nil, List.length_nil,
      false_iff, not_and]
    omega
  | cons job jobs ih =>
    rw [keyedFrom_cons, List.map_cons, List.mem_cons, ih, List.length_cons, Prod.ext_iff]
    push_cast
    constructor
    · rintro (⟨happ, hkey⟩ | ⟨happ, hlow, hhigh⟩)
      · exact ⟨happ, by omega, by omega⟩
      · exact ⟨happ, by omega, by omega⟩
    · rintro ⟨happ, hlow, hhigh⟩
      rcases Int.lt_or_eq_of_le hlow with hlt | heq
      · exact .inr ⟨happ, by omega, by omega⟩
      · exact .inl ⟨happ, heq.symm⟩

def keyedJobRow (job : Keyed) : JobRow where
  appId := job.1.1
  jobIndex := job.1.2
  schedule := job.2.schedule.text
  command := job.2.command.text
  hasEnvironment := if job.2.environment.isSome then 1 else 0

def keyedEnvironmentRow (key : String × ℤ) (entry : String × TenantValue) : EnvironmentRow where
  appId := key.1
  jobIndex := key.2
  name := entry.1
  value := entry.2.text

def keyedEnvironmentRows (job : Keyed) : List EnvironmentRow :=
  (entriesOf job.2).map (keyedEnvironmentRow job.1)

/-- The rows of some tables, one after another. -/
def rowsOf (tables : List CronTable) : CronRows where
  tables := tables.map tableRow
  jobs := (tables.flatMap keyed).map keyedJobRow
  environment := (tables.flatMap keyed).flatMap keyedEnvironmentRows

/-! ### Writing -/

theorem insertTable_eq {rows after : CronRows} {row : TableRow}
    (h : rows.insertTable row = .ok after) :
    after = { rows with tables := rows.tables ++ [row] } := by
  obtain ⟨_, -, h⟩ := bind_eq_ok_iff.mp h
  exact (Except.ok.inj h).symm

theorem insertJob_eq {rows after : CronRows} {row : JobRow} (h : rows.insertJob row = .ok after) :
    after = { rows with jobs := rows.jobs ++ [row] } := by
  obtain ⟨_, -, h⟩ := bind_eq_ok_iff.mp h
  obtain ⟨_, -, h⟩ := bind_eq_ok_iff.mp h
  obtain ⟨_, -, h⟩ := bind_eq_ok_iff.mp h
  exact (Except.ok.inj h).symm

theorem insertEnvironment_eq {rows after : CronRows} {row : EnvironmentRow}
    (h : rows.insertEnvironment row = .ok after) :
    after = { rows with environment := rows.environment ++ [row] } := by
  obtain ⟨_, -, h⟩ := bind_eq_ok_iff.mp h
  obtain ⟨_, -, h⟩ := bind_eq_ok_iff.mp h
  exact (Except.ok.inj h).symm

theorem writeJob_eq {appId : AppId} {rows after : CronRows} {job : CronJobDefinition} {i : ℕ}
    (h : writeJob appId rows (job, i) = .ok after) :
    after = { rows with
      jobs := rows.jobs ++ [keyedJobRow ((appId.text, i), job)]
      environment := rows.environment ++ keyedEnvironmentRows ((appId.text, i), job) } := by
  obtain ⟨_, -, h⟩ := bind_eq_ok_iff.mp h
  obtain ⟨inserted, hinserted, h⟩ := bind_eq_ok_iff.mp h
  obtain rfl := insertJob_eq hinserted
  have hentries : ∀ (entries : List (String × TenantValue)) (rows : CronRows),
      entries.foldlM (fun rows entry => rows.insertEnvironment (environmentRow appId i entry))
        rows = .ok after →
      after = { rows with
        environment := rows.environment ++
          entries.map (keyedEnvironmentRow (appId.text, (i : ℤ))) } := by
    intro entries
    induction entries with
    | nil =>
      intro rows h
      obtain rfl := Except.ok.inj h
      simp
    | cons entry entries ih =>
      intro rows h
      obtain ⟨next, hnext, h⟩ := bind_eq_ok_iff.mp ((List.foldlM_cons ..).symm.trans h)
      obtain rfl := insertEnvironment_eq hnext
      rw [ih _ h, List.map_cons, List.append_assoc]
      rfl
  exact hentries _ _ h

theorem writeTable_eq {rows after : CronRows} {table : CronTable}
    (h : writeTable rows table = .ok after) :
    after = { tables := rows.tables ++ [tableRow table]
              jobs := rows.jobs ++ (keyed table).map keyedJobRow
              environment := rows.environment ++ (keyed table).flatMap keyedEnvironmentRows } := by
  obtain ⟨inserted, hinserted, h⟩ := bind_eq_ok_iff.mp h
  obtain rfl := insertTable_eq hinserted
  have hjobs : ∀ (jobs : List CronJobDefinition) (n : ℕ) (rows : CronRows),
      (jobs.zipIdx n).foldlM (writeJob table.appId) rows = .ok after →
      after = { rows with
        jobs := rows.jobs ++ (keyedFrom table.appId n jobs).map keyedJobRow
        environment := rows.environment ++
          (keyedFrom table.appId n jobs).flatMap keyedEnvironmentRows } := by
    intro jobs
    induction jobs with
    | nil =>
      intro n rows h
      obtain rfl := Except.ok.inj h
      simp [keyedFrom]
    | cons job jobs ih =>
      intro n rows h
      rw [List.zipIdx_cons, List.foldlM_cons] at h
      obtain ⟨next, hnext, h⟩ := bind_eq_ok_iff.mp h
      obtain rfl := writeJob_eq hnext
      rw [ih _ _ h]
      simp [keyedFrom, List.zipIdx_cons]
  exact hjobs _ _ _ h

/-- What a transaction leaves is the rows of its tables. -/
theorem rows_of_replaceAll {tables : List CronTable} {after : CronRows}
    (h : replaceAll tables = .ok after) : after = rowsOf tables := by
  have htables : ∀ (tables : List CronTable) (rows : CronRows),
      tables.foldlM writeTable rows = .ok after →
      after = { tables := rows.tables ++ (rowsOf tables).tables
                jobs := rows.jobs ++ (rowsOf tables).jobs
                environment := rows.environment ++ (rowsOf tables).environment } := by
    intro tables
    induction tables with
    | nil =>
      intro rows h
      obtain rfl := Except.ok.inj h
      simp [rowsOf]
    | cons table tables ih =>
      intro rows h
      rw [List.foldlM_cons] at h
      obtain ⟨next, hnext, h⟩ := bind_eq_ok_iff.mp h
      obtain rfl := writeTable_eq hnext
      rw [ih _ h]
      simp [rowsOf]
  simpa [empty] using htables tables empty h

/-! ### Reading the variables -/

/-- The variables of a key are read into its environment. -/
theorem readVariables (key : String × ℤ) (entries : List (String × TenantValue))
    (environments : Environments) :
    ∃ after, (entries.map (keyedEnvironmentRow key)).foldlM readVariable environments = .ok after ∧
      after[key]?.getD ∅ = entries.foldl (fun values entry => values.insert entry.1 entry.2)
        (environments[key]?.getD ∅) ∧
      ∀ k ≠ key, after[k]? = environments[k]? := by
  induction entries generalizing environments with
  | nil => exact ⟨environments, rfl, rfl, fun _ _ => rfl⟩
  | cons entry entries ih =>
    have hread : readVariable environments (keyedEnvironmentRow key entry) =
        .ok (environments.insert key ((environments[key]?.getD ∅).insert entry.1 entry.2)) := by
      simp [readVariable, keyedEnvironmentRow, ofOption, bind, Except.bind, pure, Except.pure]
    obtain ⟨after, hafter, hself, hothers⟩ :=
      ih (environments.insert key ((environments[key]?.getD ∅).insert entry.1 entry.2))
    refine ⟨after, ?_, ?_, fun k hk => ?_⟩
    · rw [List.map_cons, List.foldlM_cons, hread]
      exact hafter
    · rw [hself, ExtTreeMap.getElem?_insert_ite, if_pos rfl]
      rfl
    · rw [hothers k hk, ExtTreeMap.getElem?_insert_ite, if_neg hk.symm]

/-- Over jobs with distinct keys, each key has the variables of its job. -/
theorem readEnvironments (jobs : List Keyed) (hjobs : (jobs.map Prod.fst).Nodup)
    (environments : Environments) (hfresh : ∀ job ∈ jobs, environments[job.1]? = none) :
    ∃ after, (jobs.flatMap keyedEnvironmentRows).foldlM readVariable environments = .ok after ∧
      (∀ job ∈ jobs, after[job.1]?.getD ∅ = TenantEnvironment.mapOf (entriesOf job.2)) ∧
      ∀ k ∉ jobs.map Prod.fst, after[k]? = environments[k]? := by
  induction jobs generalizing environments with
  | nil => exact ⟨environments, rfl, by simp, fun _ _ => rfl⟩
  | cons job jobs ih =>
    rw [List.map_cons, List.nodup_cons] at hjobs
    obtain ⟨next, hnext, hself, hothers⟩ := readVariables job.1 (entriesOf job.2) environments
    have hdistinct : ∀ other ∈ jobs, other.1 ≠ job.1 := by
      intro other hother heq
      exact hjobs.1 (heq ▸ List.mem_map_of_mem hother)
    obtain ⟨after, hafter, heach, hrest⟩ := ih hjobs.2 next fun other hother => by
      rw [hothers _ (hdistinct other hother)]
      exact hfresh other (List.mem_cons_of_mem _ hother)
    refine ⟨after, ?_, ?_, fun k hk => ?_⟩
    · rw [List.flatMap_cons, List.foldlM_append]
      exact bind_eq_ok_iff.mpr ⟨next, hnext, hafter⟩
    · intro other hother
      rcases List.mem_cons.mp hother with rfl | hother
      · rw [hrest _ hjobs.1, hself, hfresh _ List.mem_cons_self]
        rfl
      · exact heach other hother
    · rw [List.map_cons, List.mem_cons, not_or] at hk
      rw [hrest k hk.2, hothers k hk.1]

/-! ### Reading the jobs -/

theorem readEnvironment_entries {job : CronJobDefinition} (hsmall : job.Small) :
    readEnvironment (if job.environment.isSome then 1 else 0)
      (TenantEnvironment.mapOf (entriesOf job)) = .ok job.environment := by
  obtain ⟨schedule, command, environment⟩ := job
  cases environment with
  | none => rfl
  | some environment =>
    have hsize : (TenantEnvironment.mapOf environment.entries).size ≤
        maxCronEnvironmentVariables := by
      rw [← ExtTreeMap.length_toList, TenantEnvironment.toList_mapOf]
      exact hsmall environment rfl
    simp [readEnvironment, entriesOf, hsize, ofOption, Except.map]

/-- The jobs of an app from a number on are read behind those before it. -/
theorem readJobs_app (appId : AppId) (jobs before : List CronJobDefinition) (read : Jobs)
    (hbefore : read.jobs[appId.text]?.getD [] = before) (hsmall : ∀ job ∈ jobs, job.Small)
    (henvironments : ∀ job ∈ keyedFrom appId before.length jobs,
      read.environments[job.1]?.getD ∅ = TenantEnvironment.mapOf (entriesOf job.2)) :
    ∃ after, ((keyedFrom appId before.length jobs).map keyedJobRow).foldlM readJob read =
        .ok after ∧
      after.jobs[appId.text]?.getD [] = before ++ jobs ∧
      (∀ b ≠ appId.text, after.jobs[b]? = read.jobs[b]?) ∧
      ∀ k, after.environments[k]? =
        if k ∈ (keyedFrom appId before.length jobs).map Prod.fst then none
        else read.environments[k]? := by
  -- a job is appended behind those of its app, and its variables are taken out of the map
  induction jobs generalizing before read with
  | nil => exact ⟨read, rfl, by simp [hbefore], fun _ _ => rfl, fun k => by simp [keyedFrom]⟩
  | cons job jobs ih =>
    rw [keyedFrom_cons] at henvironments ⊢
    have hlength : before.length + 1 = (before ++ [job]).length := by simp
    have hread : readJob read (keyedJobRow ((appId.text, (before.length : ℤ)), job)) = .ok
        { jobs := read.jobs.insert appId.text (before ++ [job])
          environments := read.environments.erase (appId.text, (before.length : ℤ)) } := by
      have hvalues := henvironments _ List.mem_cons_self
      have hsmall := hsmall job List.mem_cons_self
      simp only at hvalues
      simp [readJob, keyedJobRow, hvalues, hbefore, readEnvironment_entries hsmall, refuse,
        ofOption, bind, Except.bind, pure, Except.pure]
    have hself : (read.jobs.insert appId.text (before ++ [job]))[appId.text]?.getD [] =
        before ++ [job] := by
      rw [ExtTreeMap.getElem?_insert_ite, if_pos rfl, Option.getD_some]
    -- the jobs behind have other keys
    have hothers : ∀ other ∈ keyedFrom appId (before ++ [job]).length jobs,
        (read.environments.erase (appId.text, (before.length : ℤ)))[other.1]?.getD ∅ =
          TenantEnvironment.mapOf (entriesOf other.2) := by
      intro other hother
      have hkey := mem_keys_keyedFrom.mp (List.mem_map_of_mem (f := Prod.fst) hother)
      have hne : (appId.text, (before.length : ℤ)) ≠ other.1 := by
        intro heq
        have hindex : (before.length : ℤ) = other.1.2 := congrArg Prod.snd heq
        rw [← hlength] at hkey
        omega
      rw [ExtTreeMap.getElem?_erase_ite, if_neg hne]
      rw [← hlength] at hother
      exact henvironments other (List.mem_cons_of_mem _ hother)
    obtain ⟨after, hafter, hjobs, happs, hkeys⟩ := ih (before ++ [job])
      ⟨read.jobs.insert appId.text (before ++ [job]),
        read.environments.erase (appId.text, (before.length : ℤ))⟩ hself
      (fun other hother => hsmall other (List.mem_cons_of_mem _ hother)) hothers
    refine ⟨after, ?_, ?_, fun b hb => ?_, fun k => ?_⟩
    · rw [List.map_cons, List.foldlM_cons, hlength]
      exact bind_eq_ok_iff.mpr ⟨_, hread, hafter⟩
    · rw [hjobs, List.append_assoc]
      rfl
    · rw [happs b hb, ExtTreeMap.getElem?_insert_ite, if_neg (Ne.symm hb)]
    · rw [hkeys, ← hlength, List.map_cons, ExtTreeMap.getElem?_erase_ite]
      by_cases hk : k ∈ (keyedFrom appId (before.length + 1) jobs).map Prod.fst
      · rw [if_pos hk, if_pos (List.mem_cons_of_mem _ hk)]
      · rw [if_neg hk]
        by_cases hself : (appId.text, (before.length : ℤ)) = k
        · rw [if_pos hself, if_pos (hself ▸ List.mem_cons_self)]
        · rw [if_neg hself, if_neg]
          rw [List.mem_cons, not_or]
          exact ⟨Ne.symm hself, hk⟩

/-- The jobs of some tables are read, and what is left of the environments is what was there
beside theirs. -/
theorem readJobs (tables : List CronTable) (happs : (tables.map fun t => t.appId.text).Nodup)
    (hsmall : ∀ table ∈ tables, ∀ job ∈ table.jobs, job.Small) (read : Jobs)
    (hfresh : ∀ table ∈ tables, read.jobs[table.appId.text]? = none)
    (henvironments : ∀ job ∈ tables.flatMap keyed,
      read.environments[job.1]?.getD ∅ = TenantEnvironment.mapOf (entriesOf job.2)) :
    ∃ after, ((tables.flatMap keyed).map keyedJobRow).foldlM readJob read = .ok after ∧
      (∀ table ∈ tables, after.jobs[table.appId.text]?.getD [] = table.jobs) ∧
      (∀ b ∉ tables.map fun t => t.appId.text, after.jobs[b]? = read.jobs[b]?) ∧
      ∀ k, after.environments[k]? =
        if k ∈ (tables.flatMap keyed).map Prod.fst then none else read.environments[k]? := by
  induction tables generalizing read with
  | nil => exact ⟨read, rfl, by simp, fun _ _ => rfl, fun k => by simp⟩
  | cons table tables ih =>
    rw [List.map_cons, List.nodup_cons] at happs
    rw [List.flatMap_cons] at henvironments ⊢
    obtain ⟨next, hnext, hself, hothers, htaken⟩ := readJobs_app table.appId table.jobs [] read
      (by rw [hfresh table List.mem_cons_self]; rfl) (hsmall table List.mem_cons_self)
      fun job hjob => henvironments job (List.mem_append_left _ hjob)
    have hkeys : ∀ k, next.environments[k]? =
        if k ∈ (keyed table).map Prod.fst then none else read.environments[k]? := htaken
    have hdistinct : ∀ other ∈ tables, other.appId.text ≠ table.appId.text := by
      intro other hother heq
      exact happs.1 (heq ▸ List.mem_map_of_mem (f := fun t : CronTable => t.appId.text) hother)
    -- the keys of this table are no other table's
    have hkept : ∀ job ∈ tables.flatMap keyed, job.1 ∉ (keyed table).map Prod.fst := by
      intro job hjob hmem
      obtain ⟨other, hother, hjob⟩ := List.mem_flatMap.mp hjob
      have happ := (mem_keys_keyedFrom.mp (List.mem_map_of_mem (f := Prod.fst) hjob)).1
      exact hdistinct other hother (happ.symm.trans (mem_keys_keyedFrom.mp hmem).1)
    obtain ⟨after, hafter, heach, hrest, hleft⟩ := ih happs.2
      (fun other hother => hsmall other (List.mem_cons_of_mem _ hother)) next
      (fun other hother => by
        rw [hothers _ (hdistinct other hother)]
        exact hfresh other (List.mem_cons_of_mem _ hother))
      (fun job hjob => by
        rw [hkeys, if_neg (hkept job hjob)]
        exact henvironments job (List.mem_append_right _ hjob))
    refine ⟨after, ?_, ?_, fun b hb => ?_, fun k => ?_⟩
    · rw [List.map_append, List.foldlM_append]
      exact bind_eq_ok_iff.mpr ⟨next, hnext, hafter⟩
    · intro other hother
      rcases List.mem_cons.mp hother with rfl | hother
      · rw [hrest _ happs.1, hself]
        rfl
      · exact heach other hother
    · rw [List.map_cons, List.mem_cons, not_or] at hb
      rw [hrest b hb.2, hothers b hb.1]
    · rw [hleft, hkeys, List.map_append]
      by_cases hk : k ∈ (tables.flatMap keyed).map Prod.fst
      · rw [if_pos hk, if_pos (List.mem_append_right _ hk)]
      · rw [if_neg hk]
        by_cases hk' : k ∈ (keyed table).map Prod.fst
        · rw [if_pos hk', if_pos (List.mem_append_left _ hk')]
        · rw [if_neg hk', if_neg]
          rw [List.mem_append, not_or]
          exact ⟨hk', hk⟩

/-! ### Reading the tables -/

theorem readCrontab_text (crontab : Option Crontab) :
    readCrontab (crontab.map Crontab.text) = .ok crontab := by
  cases crontab with
  | none => rfl
  | some crontab => simp [readCrontab, ofOption, Except.map]

theorem readTables_eq (tables : List CronTable)
    (happs : (tables.map fun t => t.appId.text).Nodup)
    (jobs : ExtTreeMap String (List CronJobDefinition))
    (hjobs : ∀ table ∈ tables, jobs[table.appId.text]?.getD [] = table.jobs) :
    ∃ left, readTables jobs (tables.map tableRow) = .ok (tables, left) ∧
      ∀ b, left[b]? = if b ∈ tables.map fun t => t.appId.text then none else jobs[b]? := by
  -- a table takes the jobs of its app out of the map, and those of another app are left in it
  induction tables generalizing jobs with
  | nil => exact ⟨jobs, rfl, fun _ => rfl⟩
  | cons table tables ih =>
    rw [List.map_cons, List.nodup_cons] at happs
    have hdistinct : ∀ other ∈ tables, table.appId.text ≠ other.appId.text := by
      intro other hother heq
      exact happs.1 (heq ▸ List.mem_map_of_mem (f := fun t : CronTable => t.appId.text) hother)
    obtain ⟨left, hleft, hrest⟩ := ih happs.2 (jobs.erase table.appId.text) fun other hother => by
      rw [ExtTreeMap.getElem?_erase_ite, if_neg (hdistinct other hother)]
      exact hjobs other (List.mem_cons_of_mem _ hother)
    refine ⟨left, ?_, fun b => ?_⟩
    · have hdefinitions := hjobs table List.mem_cons_self
      simp [readTables, tableRow, readCrontab_text, hleft, hdefinitions, bind, Except.bind, pure,
        Except.pure]
    · rw [hrest, List.map_cons, ExtTreeMap.getElem?_erase_ite]
      by_cases hb : b ∈ tables.map fun t => t.appId.text
      · rw [if_pos hb, if_pos (List.mem_cons_of_mem _ hb)]
      · rw [if_neg hb]
        by_cases hself : table.appId.text = b
        · rw [if_pos hself, if_pos (hself ▸ List.mem_cons_self)]
        · rw [if_neg hself, if_neg]
          rw [List.mem_cons, not_or]
          exact ⟨Ne.symm hself, hb⟩

/-! ### The round trip -/

theorem compare_key {a b : String × ℤ} :
    compare a b = (compare a.1 b.1).then (compare a.2 b.2) := rfl

/-- The keys of the jobs of a table are in order. -/
theorem pairwise_keyedFrom (appId : AppId) (n : ℕ) (jobs : List CronJobDefinition) :
    (keyedFrom appId n jobs).Pairwise fun a b => compare a.1 b.1 = .lt := by
  induction jobs generalizing n with
  | nil => exact List.Pairwise.nil
  | cons job jobs ih =>
    rw [keyedFrom_cons, List.pairwise_cons]
    refine ⟨fun other hother => ?_, ih (n + 1)⟩
    obtain ⟨happ, hindex, -⟩ := mem_keys_keyedFrom.mp (List.mem_map_of_mem (f := Prod.fst) hother)
    have hlt : (n : ℤ) < other.1.2 := by
      push_cast at hindex
      omega
    rw [compare_key, happ, ReflOrd.compare_self, Ordering.eq_then]
    exact compare_lt_iff_lt.mpr hlt

/-- The keys of the jobs of tables in their order are in order. -/
theorem pairwise_keyed {tables : List CronTable}
    (hsorted : tables.Pairwise fun a b => compare a.appId b.appId = .lt) :
    (tables.flatMap keyed).Pairwise fun a b => compare a.1 b.1 = .lt := by
  rw [List.pairwise_flatMap]
  refine ⟨fun table _ => pairwise_keyedFrom table.appId 0 table.jobs, hsorted.imp ?_⟩
  intro a b hab job hjob other hother
  have happ := (mem_keys_keyedFrom.mp (List.mem_map_of_mem (f := Prod.fst) hjob)).1
  have happ' := (mem_keys_keyedFrom.mp (List.mem_map_of_mem (f := Prod.fst) hother)).1
  have hlt : compare a.appId.text b.appId.text = .lt := hab
  rw [compare_key, happ, happ', hlt]
  rfl

/-- **Tables come back as they were stored**, if they are in the order of their apps and no job has
too many variables. -/
theorem all_replaceAll {tables : List CronTable} {rows : CronRows}
    (hsorted : tables.Pairwise fun a b => compare a.appId b.appId = .lt)
    (hsmall : ∀ table ∈ tables, ∀ job ∈ table.jobs, job.Small)
    (h : replaceAll tables = .ok rows) : rows.all = .ok tables := by
  obtain rfl := rows_of_replaceAll h
  have hkeyed := pairwise_keyed hsorted
  have hkeys : ((tables.flatMap keyed).map Prod.fst).Nodup := by
    rw [List.nodup_iff_pairwise_ne, List.pairwise_map]
    refine hkeyed.imp ?_
    rintro a b hab heq
    rw [heq, ReflOrd.compare_self] at hab
    cases hab
  have happs : (tables.map fun t => t.appId.text).Nodup := by
    rw [List.nodup_iff_pairwise_ne, List.pairwise_map]
    refine hsorted.imp ?_
    rintro a b hab heq
    have hab : compare a.appId.text b.appId.text = .lt := hab
    rw [heq, ReflOrd.compare_self] at hab
    cases hab
  -- the rows are read in the order they were written in
  have htables : (rowsOf tables).tables.mergeSort (fun a b => (compare a.appId b.appId).isLE) =
      tables.map tableRow := by
    refine List.mergeSort_of_pairwise (List.pairwise_map.mpr (hsorted.imp ?_))
    intro a b hab
    have hab : compare a.appId.text b.appId.text = .lt := hab
    show (compare a.appId.text b.appId.text).isLE = true
    rw [hab]
    rfl
  have hjobs : (rowsOf tables).jobs.mergeSort
      (fun a b => (compare (a.appId, a.jobIndex) (b.appId, b.jobIndex)).isLE) =
      (tables.flatMap keyed).map keyedJobRow := by
    refine List.mergeSort_of_pairwise (List.pairwise_map.mpr (hkeyed.imp ?_))
    intro a b hab
    show (compare a.1 b.1).isLE = true
    rw [hab]
    rfl
  -- each of the three reads takes out what the one before it put in
  obtain ⟨environments, henvironments, heach, hothers⟩ :=
    readEnvironments (tables.flatMap keyed) hkeys ∅ fun _ _ => ExtTreeMap.getElem?_empty
  obtain ⟨read, hread, hdefinitions, hrest, hleft⟩ := readJobs tables happs hsmall
    { jobs := ∅, environments := environments } (fun _ _ => ExtTreeMap.getElem?_empty) heach
  obtain ⟨left, hleftEq, hnone⟩ := readTables_eq tables happs read.jobs hdefinitions
  -- nothing is left over, so nothing is refused as an orphan
  have hleftEmpty : left = ∅ := by
    refine ExtTreeMap.ext_getElem? fun b => ?_
    rw [hnone, ExtTreeMap.getElem?_empty]
    split
    · rfl
    next hb =>
      rw [hrest b hb]
      exact ExtTreeMap.getElem?_empty
  have henvironmentsEmpty : read.environments = ∅ := by
    refine ExtTreeMap.ext_getElem? fun k => ?_
    rw [hleft, ExtTreeMap.getElem?_empty]
    split
    · rfl
    next hk =>
      show environments[k]? = none
      rw [hothers k hk]
      exact ExtTreeMap.getElem?_empty
  unfold all
  rw [htables, hjobs]
  refine bind_eq_ok_iff.mpr ⟨environments, henvironments, bind_eq_ok_iff.mpr ⟨read, hread,
    bind_eq_ok_iff.mpr ⟨(tables, left), hleftEq, bind_eq_ok_iff.mpr ⟨(), ?_, rfl⟩⟩⟩⟩
  rw [refuse_eq_ok_iff, hleftEmpty, henvironmentsEmpty]
  simp

end Nibrunner.Cron.CronRows

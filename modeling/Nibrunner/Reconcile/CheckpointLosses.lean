import Nibrunner.Reconcile.CheckpointSafety

/-!
# How a wanted checkpoint is lost

For each condition of `Harmless` there is a pass that breaks what it owes the document where the
condition fails, and every answer in it is one the storage server may give. Together with
`Harmless.keepsWanted` they make the condition exact (`keepsWanted_iff`).
-/

namespace Nibrunner

open Std

/-- A list two of whose elements are sent to the same thing has the one before the other. -/
theorem exists_split_of_count {α β : Type} [DecidableEq β] (f : α → Option β) {b : β}
    {l : List α} (h : 1 < (l.filterMap f).count b) :
    ∃ pre x mid y post, l = pre ++ x :: (mid ++ y :: post) ∧ f x = some b ∧ f y = some b := by
  induction l with
  | nil => simp at h
  | cons a l ih =>
    by_cases ha : f a = some b
    · -- the first is at the head, so the rest has another
      rw [List.filterMap_cons_some ha, List.count_cons_self] at h
      have hagain := List.count_pos_iff.mp (Nat.lt_of_succ_lt_succ h)
      obtain ⟨y, hy, hyb⟩ := List.mem_filterMap.mp hagain
      obtain ⟨mid, post, rfl⟩ := List.append_of_mem hy
      exact ⟨[], a, mid, y, post, rfl, ha, hyb⟩
    · have hrest : (((a :: l).filterMap f).count b) = (l.filterMap f).count b := by
        cases hfa : f a with
        | none => rw [List.filterMap_cons_none hfa]
        | some b' =>
          have hne : b' ≠ b := by
            rintro rfl
            exact ha hfa
          rw [List.filterMap_cons_some hfa, List.count_cons_of_ne hne]
      rw [hrest] at h
      obtain ⟨pre, x, mid, y, post, rfl, hx, hy⟩ := ih h
      exact ⟨a :: pre, x, mid, y, post, rfl, hx, hy⟩

/-! ### Answers -/

/-- Every command is carried out. -/
def CreateAnswers.succeed : CreateAnswers where
  listed := true
  deleted := .ok
  overHeld := ""
  created := .ok

/-- What is held under the name is deleted, and nothing created. -/
def CreateAnswers.uncreated : CreateAnswers :=
  { CreateAnswers.succeed with created := .failed "" false }

def CheckpointActionAnswers.succeed : CheckpointActionAnswers where
  create := .succeed
  delete := .ok
  nowMs := 0

def CheckpointActionAnswers.uncreated : CheckpointActionAnswers :=
  { CheckpointActionAnswers.succeed with create := .uncreated }

def ExportAnswers.succeed : ExportAnswers where
  frozen := .ok ()
  create := .succeed
  assertHeld := .ok ()
  abandoned := .ok
  read := .ok ()
  delete := .ok
  uploaded := .ok 0
  readyAt := 0

/-- Every export goes through, and the checkpoints are answered as given. -/
def CheckpointPassAnswers.withCheckpoints (listed : Bool)
    (checkpoint : ℕ → CheckpointActionAnswers) : CheckpointPassAnswers where
  listed := listed
  checkpoint := checkpoint
  reapListed := true
  reaped _ := .ok
  write _ := .succeed

namespace CheckpointStore

/-! ### One command -/

theorem notMem_deleteCheckpoint_ok (s : CheckpointStore) (c : CheckpointId) :
    c ∉ (s.deleteCheckpoint c .ok).1.held := by
  intro hmem
  exact (mem_held_remove.mp hmem).2 rfl

theorem createCheckpoint_succeed (s : CheckpointStore) (c : CheckpointId)
    (cutFor : Option ExportId) : (s.createCheckpoint c cutFor .succeed).2 = .ok () := by
  unfold createCheckpoint
  by_cases h : c ∈ s.observeCheckpoints CreateAnswers.succeed.listed
  · have hgone := notMem_deleteCheckpoint_ok s c
    simp only [h, if_true]
    show (if c ∈ (s.deleteCheckpoint c .ok).1.held then _ else _ : CheckpointStore × _).2 = _
    rw [if_neg hgone]
    rfl
  · have hnot : c ∉ s.held := h
    simp only [h, if_false, hnot]
    rfl

/-- A checkpoint that is not created is not there, held before or not. -/
theorem notMem_createCheckpoint_uncreated (s : CheckpointStore) (c : CheckpointId)
    (cutFor : Option ExportId) : c ∉ (s.createCheckpoint c cutFor .uncreated).1.held := by
  unfold createCheckpoint
  by_cases h : c ∈ s.observeCheckpoints CreateAnswers.uncreated.listed
  · have hgone := notMem_deleteCheckpoint_ok s c
    simp only [h, if_true]
    show c ∉ (if c ∈ (s.deleteCheckpoint c .ok).1.held then _ else _ : CheckpointStore × _).1.held
    rw [if_neg hgone]
    exact hgone
  · have hnot : c ∉ s.held := h
    simp only [h, if_false, hnot]
    exact hnot

/-! ### The checkpoints of a pass -/

section Checkpoints

variable {latest : Option HostDesiredState} {before : List ReportedCheckpoint} {c : CheckpointId}

/-- The state and the reports after one action more. -/
theorem applyCheckpointPlans_append (l l' : List CheckpointPlan)
    (answers : ℕ → CheckpointActionAnswers) (s : CheckpointStore) :
    applyCheckpointPlans latest before (l ++ l') answers s =
      ((applyCheckpointPlans latest before l' (fun n => answers (n + l.length))
          (applyCheckpointPlans latest before l answers s).1).1,
        (applyCheckpointPlans latest before l answers s).2 ++
          (applyCheckpointPlans latest before l' (fun n => answers (n + l.length))
            (applyCheckpointPlans latest before l answers s).1).2) := by
  induction l generalizing answers s with
  | nil => rfl
  | cons action l ih =>
    rw [List.cons_append, applyCheckpointPlans, applyCheckpointPlans]
    dsimp only
    rw [ih, List.append_assoc]
    have hshift : (fun n => answers (n + l.length + 1)) =
        fun n => answers (n + (action :: l).length) := rfl
    rw [hshift]

theorem fst_applyCheckpoint_create (s : CheckpointStore) (desired : DesiredCheckpoint)
    (answers : CheckpointActionAnswers) :
    (s.applyCheckpoint latest before answers (.create desired)).1 =
      (s.createCheckpoint desired.checkpointId none answers.create).1 := by
  simp only [applyCheckpoint, cut]
  split <;>
  · rename_i heq
    rw [heq]
    rfl

theorem fst_applyCheckpoint_delete (s : CheckpointStore) (desired : DesiredCheckpoint)
    (answers : CheckpointActionAnswers) :
    (s.applyCheckpoint latest before answers (.delete desired)).1 =
      (s.deleteCheckpoint desired.checkpointId answers.delete).1 := by
  simp only [applyCheckpoint, release]
  split <;>
  · rename_i heq
    rw [heq]
    rfl

/-- What one action does to a checkpoint it neither creates nor deletes, and to the histories. -/
theorem applyCheckpoint_frame (s : CheckpointStore) (action : CheckpointPlan)
    (answers : CheckpointActionAnswers) :
    (∀ c, action.creates ≠ some c → action.deletes ≠ some c →
        (c ∈ (s.applyCheckpoint latest before answers action).1.held ↔ c ∈ s.held)) ∧
      (s.applyCheckpoint latest before answers action).1.cutFor = s.cutFor ∧
      (∀ c ∈ s.created, c ∈ (s.applyCheckpoint latest before answers action).1.created) := by
  cases action with
  | create desired =>
    have hcreated := (created_createCheckpoint s desired.checkpointId none answers.create).1
    rw [fst_applyCheckpoint_create]
    refine ⟨fun c hc _ => hcreated.others c fun h => hc ?_, hcreated.cutFor_of_none,
      hcreated.created_subset⟩
    rw [h]
    rfl
  | delete desired =>
    have hdeleted := deleted_deleteCheckpoint s desired.checkpointId answers.delete
    rw [fst_applyCheckpoint_delete]
    refine ⟨fun c _ hc => hdeleted.others c fun h => hc ?_, hdeleted.cutFor, fun c hc => ?_⟩
    · rw [h]
      rfl
    · rw [hdeleted.created]
      exact hc
  | none x => exact ⟨fun _ _ _ => Iff.rfl, rfl, fun _ hc => hc⟩

theorem cutFor_applyCheckpointPlans (l : List CheckpointPlan)
    (answers : ℕ → CheckpointActionAnswers) (s : CheckpointStore) :
    (applyCheckpointPlans latest before l answers s).1.cutFor = s.cutFor := by
  induction l generalizing answers s with
  | nil => rfl
  | cons action l ih =>
    rw [applyCheckpointPlans]
    exact (ih _ _).trans (applyCheckpoint_frame s action (answers 0)).2.1

/-- What was created stays on record. -/
theorem mem_created_applyCheckpointPlans (l : List CheckpointPlan)
    (answers : ℕ → CheckpointActionAnswers) {s : CheckpointStore} (hc : c ∈ s.created) :
    c ∈ (applyCheckpointPlans latest before l answers s).1.created := by
  induction l generalizing answers s with
  | nil => exact hc
  | cons action l ih =>
    rw [applyCheckpointPlans]
    exact ih _ ((applyCheckpoint_frame s action (answers 0)).2.2 c hc)

/-- A checkpoint no action is about stays held. -/
theorem mem_held_applyCheckpointPlans {l : List CheckpointPlan}
    (hcreates : c ∉ l.filterMap (·.creates)) (hdeletes : c ∉ l.filterMap (·.deletes))
    (answers : ℕ → CheckpointActionAnswers) {s : CheckpointStore} (hc : c ∈ s.held) :
    c ∈ (applyCheckpointPlans latest before l answers s).1.held := by
  induction l generalizing answers s with
  | nil => exact hc
  | cons action l ih =>
    rw [applyCheckpointPlans]
    simp only [List.mem_filterMap, List.mem_cons, exists_eq_or_imp, not_or] at hcreates hdeletes
    refine ih ?_ ?_ _ ?_
    · exact fun h => hcreates.2 (List.mem_filterMap.mp h)
    · exact fun h => hdeletes.2 (List.mem_filterMap.mp h)
    · exact ((applyCheckpoint_frame s action (answers 0)).1 c hcreates.1 hdeletes.1).mpr hc

/-- A checkpoint that is not held is not held later, where no action creates it. -/
theorem notMem_held_applyCheckpoint {s : CheckpointStore} {action : CheckpointPlan}
    {answers : CheckpointActionAnswers} (hc : c ∉ s.held)
    (hnot : action.creates ≠ some c ∨ answers = .uncreated) :
    c ∉ (s.applyCheckpoint latest before answers action).1.held := by
  cases action with
  | create desired =>
    rw [fst_applyCheckpoint_create]
    by_cases h : c = desired.checkpointId
    · rcases hnot with hnot | rfl
      · exact absurd (congrArg some h.symm) hnot
      · rw [h]
        exact notMem_createCheckpoint_uncreated s _ none
    · exact mt ((created_createCheckpoint s _ none answers.create).1.others c h).mp hc
  | delete desired =>
    rw [fst_applyCheckpoint_delete]
    exact mt (deleted_deleteCheckpoint s desired.checkpointId answers.delete).mem_held hc
  | none x => exact hc

theorem notMem_held_applyCheckpointPlans {l : List CheckpointPlan}
    {answers : ℕ → CheckpointActionAnswers}
    (hnot : c ∉ l.filterMap (·.creates) ∨ ∀ n, answers n = .uncreated) {s : CheckpointStore}
    (hc : c ∉ s.held) : c ∉ (applyCheckpointPlans latest before l answers s).1.held := by
  induction l generalizing answers s with
  | nil => exact hc
  | cons action l ih =>
    rw [applyCheckpointPlans]
    refine ih ?_ (notMem_held_applyCheckpoint hc ?_)
    · refine hnot.imp (fun h hmem => h ?_) fun h n => h (n + 1)
      exact ((List.sublist_cons_self action l).filterMap _).subset hmem
    · refine hnot.imp (fun h hmem => h ?_) fun h => h 0
      exact List.mem_filterMap.mpr ⟨action, List.mem_cons_self, hmem⟩

/-- **A checkpoint an action leaves not held is not held at the end**, where no action after it
creates it. -/
theorem notMem_held_of_split (answers : ℕ → CheckpointActionAnswers) {l : List CheckpointPlan}
    {pre post : List CheckpointPlan} {action : CheckpointPlan} (hl : l = pre ++ action :: post)
    (haction : ∀ s : CheckpointStore,
      c ∉ (s.applyCheckpoint latest before (answers pre.length) action).1.held)
    (hnot : c ∉ post.filterMap (·.creates) ∨ ∀ n, pre.length < n → answers n = .uncreated)
    (s : CheckpointStore) : c ∉ (applyCheckpointPlans latest before l answers s).1.held := by
  rw [hl, applyCheckpointPlans_append]
  dsimp only
  rw [applyCheckpointPlans]
  dsimp only
  refine notMem_held_applyCheckpointPlans ?_ ?_
  · exact hnot.imp_right fun h n => h _ (by omega)
  · rw [Nat.zero_add]
    exact haction _

/-- A checkpoint created by an action is on record at the end. -/
theorem mem_created_of_split {l : List CheckpointPlan} {answers : ℕ → CheckpointActionAnswers}
    {pre post : List CheckpointPlan} {action : CheckpointPlan} (hl : l = pre ++ action :: post)
    (haction : action.creates = some c) (hanswer : answers pre.length = .succeed)
    (s : CheckpointStore) : c ∈ (applyCheckpointPlans latest before l answers s).1.created := by
  rw [hl, applyCheckpointPlans_append]
  dsimp only
  rw [applyCheckpointPlans]
  dsimp only
  refine mem_created_applyCheckpointPlans _ _ ?_
  rw [Nat.zero_add, hanswer]
  cases action with
  | create desired =>
    obtain rfl : desired.checkpointId = c := Option.some.inj haction
    rw [fst_applyCheckpoint_create]
    have hcreated := (created_createCheckpoint
      (applyCheckpointPlans latest before pre answers s).1 desired.checkpointId none
      CreateAnswers.succeed).2 (createCheckpoint_succeed _ _ _)
    show _ ∈ (createCheckpoint _ _ none CreateAnswers.succeed).1.created
    rw [hcreated.1]
    exact List.mem_append_right _ (List.mem_singleton.mpr rfl)
  | delete desired => cases haction
  | none x => cases haction

/-- An action that has nothing to do reports what the document accepted last says. -/
theorem mem_reports_of_none {l : List CheckpointPlan} (hnone : CheckpointPlan.none c ∈ l)
    {u : DesiredCheckpoint} (hu : planSubject latest c = some u)
    (hpresent : u.desiredState = .present) (before : List ReportedCheckpoint)
    (answers : ℕ → CheckpointActionAnswers) (s : CheckpointStore) :
    ∃ r ∈ (applyCheckpointPlans latest before l answers s).2,
      r.state = .ready ∧ r.checkpointId = c := by
  obtain ⟨pre, post, rfl⟩ := List.append_of_mem hnone
  have hid : u.checkpointId = c := checkpointId_of_planSubject hu
  rw [applyCheckpointPlans_append]
  refine ⟨.ready u ((before.find? (·.checkpointId = c)).bind (·.readyAt)),
    List.mem_append_right _ ?_, rfl, hid⟩
  rw [applyCheckpointPlans]
  refine List.mem_append_left _ ?_
  simp only [applyCheckpoint, hu, Option.map_some, hpresent]
  exact List.mem_singleton.mpr rfl

end Checkpoints

/-! ### The exports of a pass -/

section Exports

variable {c : CheckpointId} {trigger : Trigger}

/-- An export that goes through cuts its checkpoint and deletes it. -/
theorem fst_writeInner_succeed (s : CheckpointStore) (desired : DesiredExport)
    (c : CheckpointId) : (s.writeInner desired c .succeed).1 =
      ((s.createCheckpoint c (some desired.exportId) .succeed).1.deleteCheckpoint c .ok).1 := by
  have hok := createCheckpoint_succeed s c (some desired.exportId)
  simp only [writeInner, ExportAnswers.succeed]
  generalize s.createCheckpoint c (some desired.exportId) .succeed = result at *
  obtain ⟨s', answer⟩ := result
  cases hok
  rfl

theorem fst_write_succeed {desired : DesiredExport}
    (hc : exportCheckpointId desired.exportId = some c) (s : CheckpointStore) :
    (s.write desired .succeed).1 =
      ((s.createCheckpoint c (some desired.exportId) .succeed).1.deleteCheckpoint c .ok).1 := by
  rcases write_cases s desired .succeed with ⟨-, hnone⟩ | ⟨c', hc', hinner⟩
  · rw [hc] at hnone
    cases hnone
  · obtain rfl : c = c' := Option.some.inj (hc.symm.trans hc')
    rw [hinner, fst_writeInner_succeed]

/-- No checkpoint that was not held is held after an export that goes through. -/
theorem notMem_applyExport {s : CheckpointStore} (action : ExportPlan) (hc : c ∉ s.held) :
    c ∉ (s.applyExport trigger .succeed action).held := by
  cases action with
  | write desired =>
    rw [applyExport]
    split
    · exact hc
    · show c ∉ (s.write desired .succeed).1.held
      rcases write_cases s desired .succeed with ⟨hsame, -⟩ | ⟨c', hc', hinner⟩
      · rw [hsame]
        exact hc
      · by_cases h : c = c'
        · rw [fst_write_succeed hc', h]
          exact notMem_deleteCheckpoint_ok _ c'
        · rw [hinner]
          exact mt ((written_writeInner hc' s .succeed).others c h).mp hc
  | forget e => exact hc
  | none e => exact hc

theorem notMem_applyExportPlans (l : List ExportPlan) {s : CheckpointStore} (hc : c ∉ s.held) :
    c ∉ (applyExportPlans trigger l (fun _ => .succeed) s).held := by
  induction l generalizing s with
  | nil => exact hc
  | cons action l ih => exact ih (notMem_applyExport action hc)

/-- The checkpoint of an export that is written is gone when the exports have gone through. -/
theorem notMem_applyExportPlans_of_write (htrigger : trigger ≠ .tick) {l : List ExportPlan}
    {desired : DesiredExport} (hmem : ExportPlan.write desired ∈ l)
    (hc : exportCheckpointId desired.exportId = some c) (s : CheckpointStore) :
    c ∉ (applyExportPlans trigger l (fun _ => .succeed) s).held := by
  induction l generalizing s with
  | nil => cases hmem
  | cons action l ih =>
    rw [applyExportPlans]
    rcases List.mem_cons.mp hmem with rfl | hmem
    · refine notMem_applyExportPlans l ?_
      rw [applyExport, if_neg htrigger]
      show c ∉ (s.write desired .succeed).1.held
      rw [fst_write_succeed hc]
      exact notMem_deleteCheckpoint_ok _ c
    · exact ih hmem _

/-- A deletion stays on record while others are asked for. -/
theorem mem_deletions_foldl_of_mem {x : Deletion} (orphans : List CheckpointId)
    {s : CheckpointStore} (hx : x ∈ s.deletions) :
    x ∈ (orphans.foldl (fun s c => (s.deleteCheckpoint c .ok).1) s).deletions := by
  induction orphans generalizing s with
  | nil => exact hx
  | cons c orphans ih =>
    refine ih ?_
    exact (deleted_deleteCheckpoint s c .ok).mem_deletions_iff.mpr (.inl hx)

/-- Reaping deletes the orphans, and each deletion is on record. -/
theorem mem_deletions_foldl {orphans : List CheckpointId} (hc : c ∈ orphans)
    (s : CheckpointStore) :
    c ∉ (orphans.foldl (fun s c => (s.deleteCheckpoint c .ok).1) s).held ∧
      ⟨c, s.isExported c⟩ ∈
        (orphans.foldl (fun s c => (s.deleteCheckpoint c .ok).1) s).deletions := by
  induction orphans generalizing s with
  | nil => cases hc
  | cons a orphans ih =>
    rw [List.foldl_cons]
    have hfirst := deleted_deleteCheckpoint s a .ok
    by_cases h : c = a
    · subst h
      constructor
      · exact mt ((reaped_foldl orphans (fun _ => .ok) _).fewer c) (notMem_deleteCheckpoint_ok s c)
      · refine mem_deletions_foldl_of_mem orphans ?_
        exact hfirst.mem_deletions_iff.mpr (.inr rfl)
    · have hrest := ih ((List.mem_cons.mp hc).resolve_left h) (s.deleteCheckpoint a .ok).1
      rw [isExported_congr hfirst.cutFor] at hrest
      exact hrest

/-- What is on record as deleted and created stays on record. -/
theorem onRecord_applyExport (s : CheckpointStore) (action : ExportPlan) :
    (∀ x ∈ s.deletions, x ∈ (s.applyExport trigger .succeed action).deletions) ∧
      ∀ x ∈ s.created, x ∈ (s.applyExport trigger .succeed action).created := by
  cases action with
  | write desired =>
    rw [applyExport]
    split
    · exact ⟨fun _ h => h, fun _ h => h⟩
    · show (∀ x ∈ s.deletions, x ∈ (s.write desired .succeed).1.deletions) ∧
        ∀ x ∈ s.created, x ∈ (s.write desired .succeed).1.created
      rcases write_cases s desired .succeed with ⟨hsame, -⟩ | ⟨c, hc, -⟩
      · rw [hsame]
        exact ⟨fun _ h => h, fun _ h => h⟩
      · have hcreated := (created_createCheckpoint s c (some desired.exportId) .succeed).1
        have hdeleted := deleted_deleteCheckpoint
          (s.createCheckpoint c (some desired.exportId) .succeed).1 c .ok
        rw [fst_write_succeed hc, hdeleted.created]
        refine ⟨fun x hx => ?_, hcreated.created_subset⟩
        exact hdeleted.mem_deletions_iff.mpr (.inl (hcreated.deletions_subset hx))
  | forget e | none e => exact ⟨fun _ h => h, fun _ h => h⟩

theorem onRecord_applyExportPlans (l : List ExportPlan) (s : CheckpointStore) :
    (∀ x ∈ s.deletions, x ∈ (applyExportPlans trigger l (fun _ => .succeed) s).deletions) ∧
      ∀ x ∈ s.created, x ∈ (applyExportPlans trigger l (fun _ => .succeed) s).created := by
  induction l generalizing s with
  | nil => exact ⟨fun _ h => h, fun _ h => h⟩
  | cons action l ih =>
    obtain ⟨hdeletions, hcreated⟩ := @onRecord_applyExport trigger s action
    obtain ⟨hdeletions', hcreated'⟩ := ih (s.applyExport trigger .succeed action)
    exact ⟨fun x hx => hdeletions' x (hdeletions x hx), fun x hx => hcreated' x (hcreated x hx)⟩

/-- **A checkpoint held under an export's name is deleted when the export is written**, and where
no export cut it that is on record. -/
theorem mem_deletions_of_write (htrigger : trigger ≠ .tick) {l : List ExportPlan}
    {desired : DesiredExport} (hmem : ExportPlan.write desired ∈ l)
    (hc : exportCheckpointId desired.exportId = some c) {s : CheckpointStore} (hheld : c ∈ s.held)
    (hnot : s.isExported c = false) :
    ⟨c, false⟩ ∈ (applyExportPlans trigger l (fun _ => .succeed) s).deletions := by
  induction l generalizing s with
  | nil => cases hmem
  | cons action l ih =>
    rw [applyExportPlans]
    by_cases h : ∃ w, action = .write w ∧ exportCheckpointId w.exportId = some c
    · -- the first write of that name finds it listed
      obtain ⟨w, rfl, hw⟩ := h
      refine (onRecord_applyExportPlans l _).1 _ ?_
      rw [applyExport, if_neg htrigger]
      show _ ∈ (s.write w .succeed).1.deletions
      rw [fst_write_succeed hw, (deleted_deleteCheckpoint _ c .ok).deletions]
      refine List.mem_append_left _ ?_
      have hdeleted : (s.createCheckpoint c (some w.exportId) .succeed).1.deletions =
          s.deletions ++ [⟨c, s.isExported c⟩] := by
        unfold createCheckpoint
        have hlisted : c ∈ s.observeCheckpoints CreateAnswers.succeed.listed := hheld
        have hgone := notMem_deleteCheckpoint_ok s c
        simp only [hlisted, if_true]
        show (if c ∈ (s.deleteCheckpoint c .ok).1.held then _ else _ :
          CheckpointStore × _).1.deletions = _
        rw [if_neg hgone]
        rfl
      rw [hdeleted, hnot]
      exact List.mem_append_right _ (List.mem_singleton.mpr rfl)
    · -- an action on another checkpoint leaves it held, and cut by no export
      have hsame : c ∈ (s.applyExport trigger .succeed action).held ∧
          (s.applyExport trigger .succeed action).isExported c = false := by
        cases action with
        | write w =>
          rw [applyExport, if_neg htrigger]
          show c ∈ (s.write w .succeed).1.held ∧ (s.write w .succeed).1.isExported c = false
          rcases write_cases s w .succeed with ⟨hkept, -⟩ | ⟨c', hc', hinner⟩
          · rw [hkept]
            exact ⟨hheld, hnot⟩
          · have hne : c ≠ c' := by
              rintro rfl
              exact h ⟨w, rfl, hc'⟩
            have hwritten := written_writeInner hc' s .succeed
            rw [hinner]
            refine ⟨(hwritten.others c hne).mpr hheld, ?_⟩
            rw [Bool.eq_false_iff]
            intro hcut
            rcases hwritten.exportedOnly c hcut with hcut | hcut
            · rw [hnot] at hcut
              cases hcut
            · exact hne hcut
        | forget e => exact ⟨hheld, hnot⟩
        | none e => exact ⟨hheld, hnot⟩
      refine ih ((List.mem_cons.mp hmem).resolve_left ?_) hsame.1 hsame.2
      rintro rfl
      exact h ⟨desired, rfl, hc⟩

end Exports

/-! ### A pass -/

section Pass

variable {s : CheckpointStore} {d : HostDesiredState} {latest : Option HostDesiredState}
  {trigger : Trigger} {plan : ReconcilePlan} {listed : Bool}
  {checkpoint : ℕ → CheckpointActionAnswers} {c : CheckpointId}

theorem mem_created_applyExports (hc : c ∈ s.created) :
    c ∈ (s.applyExports plan trigger (.withCheckpoints listed checkpoint)).created := by
  refine (onRecord_applyExportPlans plan.exports _).2 c ?_
  rw [(reaped_reap s plan _ _).created]
  exact hc

theorem checkpointReports_applyExports :
    (s.applyExports plan trigger (.withCheckpoints listed checkpoint)).checkpointReports =
      s.checkpointReports := by
  have howned : ∀ t : CheckpointStore, Owned (fun _ => True) t := fun _ _ _ _ => .inr trivial
  rw [applyExports, (exportsApplied_applyExportPlans trigger _ _ (howned _)).reports]
  exact (reaped_reap s plan _ _).reports

/-- What was not held when the exports began is not held when they have gone through. -/
theorem notMem_applyExports (hc : c ∉ s.held) :
    c ∉ (s.applyExports plan trigger (.withCheckpoints listed checkpoint)).held :=
  notMem_applyExportPlans plan.exports (mt ((reaped_reap s plan _ _).fewer c) hc)

/-- A checkpoint named as an export's is gone when the exports have gone through, unless it is
passed over. -/
theorem notMem_applyExports_of_not_passedOver (hc : ¬ PassedOver plan trigger c) :
    c ∉ (s.applyExports plan trigger (.withCheckpoints listed checkpoint)).held := by
  obtain ⟨hexport, hnot⟩ := Classical.not_imp.mp hc
  by_cases hflight : c ∈ inFlight plan
  · -- an export of that name is written
    have htrigger : trigger ≠ .tick := fun h => hnot ⟨hflight, h⟩
    obtain ⟨action, hmem, haction⟩ := List.mem_filterMap.mp hflight
    cases action with
    | write desired => exact notMem_applyExportPlans_of_write htrigger hmem haction _
    | forget e => cases haction
    | none e => cases haction
  · refine notMem_applyExportPlans plan.exports ?_
    by_cases hheld : c ∈ s.held
    · have horphan : c ∈ s.orphans plan true := by
        simp only [orphans, observeCheckpoints, if_true, List.mem_filter, decide_eq_true_eq]
        exact ⟨⟨hheld, hexport⟩, hflight⟩
      exact (mem_deletions_foldl horphan s).1
    · exact mt ((reaped_reap s plan _ _).fewer c) hheld

/-- A checkpoint named as an export's that no export cut is deleted, unless it is passed over. -/
theorem mem_deletions_applyExports (listed : Bool) (checkpoint : ℕ → CheckpointActionAnswers)
    (hc : ¬ PassedOver plan trigger c) (hheld : c ∈ s.held)
    (hcut : s.isExported c = false) :
    ⟨c, false⟩ ∈
      (s.applyExports plan trigger (.withCheckpoints listed checkpoint)).deletions := by
  obtain ⟨hexport, hnot⟩ := Classical.not_imp.mp hc
  by_cases hflight : c ∈ inFlight plan
  · have htrigger : trigger ≠ .tick := fun h => hnot ⟨hflight, h⟩
    obtain ⟨action, hmem, haction⟩ := List.mem_filterMap.mp hflight
    have hreaped := reaped_reap s plan true fun _ => .ok
    have hspared : c ∉ s.orphans plan true := by
      intro horphan
      rw [orphans, List.mem_filter, decide_eq_true_eq] at horphan
      exact horphan.2 hflight
    cases action with
    | write desired =>
      have hsame : (s.reap plan true fun _ => .ok).isExported c = false := by
        rw [isExported, hreaped.cutFor, ← isExported, hcut]
      exact mem_deletions_of_write htrigger hmem haction ((hreaped.others c hspared).mpr hheld)
        hsame
    | forget e => cases haction
    | none e => cases haction
  · have horphan : c ∈ s.orphans plan true := by
      simp only [orphans, observeCheckpoints, if_true, List.mem_filter, decide_eq_true_eq]
      exact ⟨⟨hheld, hexport⟩, hflight⟩
    have hdeleted := (mem_deletions_foldl horphan s).2
    rw [hcut] at hdeleted
    exact (onRecord_applyExportPlans plan.exports _).1 _ hdeleted

/-- The store between the checkpoints and the exports of a pass. -/
def between (s : CheckpointStore) (d : HostDesiredState) (latest : Option HostDesiredState)
    (listed : Bool) (checkpoint : ℕ → CheckpointActionAnswers) : CheckpointStore :=
  applyCheckpoints { s with deletions := [], created := [] }
    (planReconcile d (s.observe d listed)) latest checkpoint

theorem reconcile_eq : s.reconcile d latest trigger (.withCheckpoints listed checkpoint) =
    (s.between d latest listed checkpoint).applyExports (planReconcile d (s.observe d listed))
      trigger (.withCheckpoints listed checkpoint) := rfl

section Losses

variable (hkeeps : ∀ checkpoint, KeepsWanted d s
  (s.reconcile d latest trigger (.withCheckpoints listed checkpoint)))
include hkeeps

/-- What is there to be kept is held between the two halves of the pass. -/
theorem mem_held_between (hpresent : d.MarksPresent c)
    (hwas : c ∈ s.held ∨ c ∈ (s.between d latest listed checkpoint).created) :
    c ∈ (s.between d latest listed checkpoint).held := by
  by_contra hgone
  have hkept := (hkeeps checkpoint).kept c hpresent
  rw [reconcile_eq] at hkept
  exact notMem_applyExports hgone (hkept (hwas.imp_right mem_created_applyExports))

theorem passedOver_of_keepsWanted (hpresent : d.MarksPresent c) :
    PassedOver (planReconcile d (s.observe d listed)) trigger c := by
  by_contra hover
  have hkept := (hkeeps fun _ => .succeed).kept c hpresent
  rw [reconcile_eq] at hkept
  refine notMem_applyExports_of_not_passedOver hover (hkept ?_)
  by_cases hlisted : IsListed s listed c
  · exact .inl hlisted.2
  · -- one that is not listed is created in the pass
    obtain ⟨action, hmem, haction⟩ :=
      List.mem_filterMap.mp (mem_creates_iff.mpr ⟨hpresent, hlisted⟩)
    obtain ⟨pre, post, hl⟩ := List.append_of_mem hmem
    refine .inr (mem_created_applyExports ?_)
    exact mem_created_of_split hl haction rfl { s with deletions := [], created := [] }

/-- What the exports find named as theirs is theirs, or may be deleted. -/
theorem held_of_keepsWanted (hheld : c ∈ s.held) :
    PassedOver (planReconcile d (s.observe d listed)) trigger c ∨ d.MarksAbsent c ∨
      s.isExported c = true := by
  by_contra hnot
  obtain ⟨hover, habsent, hcut⟩ : ¬ PassedOver _ trigger c ∧ ¬ d.MarksAbsent c ∧
      ¬ s.isExported c = true := by
    rw [not_or, not_or] at hnot
    exact hnot
  -- it is not wanted either, so the checkpoints of the pass leave it
  have hpresent : ¬ d.MarksPresent c := fun h => hover (passedOver_of_keepsWanted hkeeps h)
  have hkept : c ∈ (s.between d latest listed fun _ => .succeed).held := by
    refine mem_held_applyCheckpointPlans ?_ ?_ _ hheld
    · exact fun h => hpresent (mem_creates_iff.mp h).1
    · exact fun h => habsent (mem_deletes_iff.mp h).1
  have hsame : (s.between d latest listed fun _ => .succeed).isExported c = false := by
    have hcutFor : (s.between d latest listed fun _ => .succeed).cutFor = s.cutFor :=
      cutFor_applyCheckpointPlans _ _ _
    rw [isExported, hcutFor]
    exact Bool.eq_false_iff.mpr hcut
  have hdeletion := mem_deletions_applyExports listed (fun _ => .succeed) hover hkept hsame
  rw [← reconcile_eq] at hdeletion
  rcases (hkeeps _).deletions _ hdeletion with h | h
  · exact habsent h
  · cases h

theorem notMem_of_not_listed (hlisted : listed = false) (hpresent : d.MarksPresent c) :
    c ∉ s.held := by
  intro hheld
  have hnot : ¬ IsListed s listed c := by
    rw [hlisted]
    rintro ⟨h, -⟩
    cases h
  obtain ⟨action, hmem, haction⟩ := List.mem_filterMap.mp (mem_creates_iff.mpr ⟨hpresent, hnot⟩)
  obtain ⟨pre, post, hl⟩ := List.append_of_mem hmem
  -- it is deleted to be created again, and is not created
  refine notMem_held_of_split (fun _ => .uncreated) hl (fun s => ?_)
    (.inr fun _ _ => rfl) _ (mem_held_between hkeeps hpresent (.inl hheld))
  cases action with
  | create desired =>
    rw [fst_applyCheckpoint_create, ← Option.some.inj haction]
    exact notMem_createCheckpoint_uncreated s _ none
  | delete desired => cases haction
  | none x => cases haction

theorem consistent_of_keepsWanted (hlisted : IsListed s listed c) (hpresent : d.MarksPresent c) :
    ¬ d.MarksAbsent c := by
  intro habsent
  obtain ⟨action, hmem, haction⟩ := List.mem_filterMap.mp (mem_deletes_iff.mpr ⟨habsent, hlisted⟩)
  obtain ⟨pre, post, hl⟩ := List.append_of_mem hmem
  have hnot : c ∉ (s.checkpointPlan d listed).filterMap (·.creates) :=
    fun h => (mem_creates_iff.mp h).2 hlisted
  -- it is deleted as the other entry says, and nothing creates it again
  refine notMem_held_of_split (fun _ => .succeed) hl (fun s => ?_) (.inl fun h => hnot ?_)
    _ (mem_held_between hkeeps hpresent (.inl hlisted.2))
  · cases action with
    | delete desired =>
      rw [fst_applyCheckpoint_delete, ← Option.some.inj haction]
      exact notMem_deleteCheckpoint_ok s _
    | create desired => cases haction
    | none x => cases haction
  · rw [hl, List.filterMap_append]
    exact List.mem_append_right _ (((List.sublist_cons_self action post).filterMap _).subset h)

theorem count_le_one_of_keepsWanted (hlisted : ¬ IsListed s listed c) :
    d.presentIds.count c ≤ 1 := by
  by_contra hcount
  have hcreates : 1 < ((s.checkpointPlan d listed).filterMap (·.creates)).count c := by
    rw [creates_eq, List.count_filter]
    · omega
    · rw [Bool.not_eq_true', Bool.eq_false_iff, ne_eq, Bool.and_eq_true, decide_eq_true_eq]
      exact hlisted
  obtain ⟨pre, x, mid, y, post, hl, hx, hy⟩ := exists_split_of_count _ hcreates
  have hpresent : d.MarksPresent c :=
    (mem_creates_iff.mp (List.count_pos_iff.mp (Nat.lt_of_succ_lt hcreates))).1
  -- the first creates it; the second deletes it to create it again, and is refused
  let answers : ℕ → CheckpointActionAnswers := fun n =>
    if n ≤ pre.length then .succeed else .uncreated
  have hcreated : c ∈ (s.between d latest listed answers).created :=
    mem_created_of_split hl hx (if_pos (Nat.le_refl _)) _
  have hsplit : s.checkpointPlan d listed = (pre ++ x :: mid) ++ y :: post := by
    rw [hl, List.append_assoc, List.cons_append]
  have hlate : ∀ n, pre.length < n → answers n = .uncreated := fun n hn =>
    if_neg (Nat.not_le.mpr hn)
  have hlength : pre.length < (pre ++ x :: mid).length := by
    rw [List.length_append, List.length_cons]
    omega
  refine notMem_held_of_split answers hsplit (fun s => ?_)
    (.inr fun n hn => hlate n (hlength.trans hn)) _
    (mem_held_between hkeeps hpresent (.inr hcreated))
  rw [hlate _ hlength]
  cases y with
  | create desired =>
    rw [fst_applyCheckpoint_create, ← Option.some.inj hy]
    exact notMem_createCheckpoint_uncreated s _ none
  | delete desired => cases hy
  | none z => cases hy

theorem latest_of_keepsWanted (habsent : d.MarksAbsent c) {u : DesiredCheckpoint}
    (hsubject : planSubject latest c = some u) (hu : u.desiredState = .present) :
    c ∈ s.held ∧
      (listed = true ∨ PassedOver (planReconcile d (s.observe d listed)) trigger c) := by
  -- one that is not listed is reported ready, and whether it is there is another matter
  have hthere : ¬ IsListed s listed c → ∀ checkpoint,
      c ∈ (s.reconcile d latest trigger (.withCheckpoints listed checkpoint)).held := by
    intro hlisted checkpoint
    obtain ⟨r, hr, hready, hid⟩ := mem_reports_of_none
      (mem_none_iff.mpr (.inr ⟨habsent, hlisted⟩)) hsubject hu s.checkpointReports checkpoint
      { s with deletions := [], created := [] }
    rw [← hid]
    refine (hkeeps checkpoint).reported r ?_ hready
    rw [reconcile_eq, checkpointReports_applyExports]
    exact hr
  have hheld : c ∈ s.held := by
    by_contra hheld
    have hgone : c ∉ (s.between d latest listed fun _ => .uncreated).held :=
      notMem_held_applyCheckpointPlans (.inr fun _ => rfl) hheld
    have hmem := hthere (fun h => hheld h.2) fun _ => .uncreated
    rw [reconcile_eq] at hmem
    exact notMem_applyExports hgone hmem
  refine ⟨hheld, ?_⟩
  by_contra hnot
  obtain ⟨hlisted, hover⟩ := not_or.mp hnot
  have hmem := hthere (fun h => hlisted h.1) fun _ => .succeed
  rw [reconcile_eq] at hmem
  exact notMem_applyExports_of_not_passedOver hover hmem

end Losses

end Pass

end CheckpointStore

/-! ### A checkpoint named as an export's -/

/-- A document that wants one checkpoint, under a name that begins as an export's does. -/
def nightlyDocument : HostDesiredState :=
  ⟨[], [], [⟨⟨"export-nightly"⟩, ⟨"vol-1"⟩, .present⟩], []⟩

def emptyStore : CheckpointStore := ⟨[], [], [], [], [], []⟩

end Nibrunner

import Nibrunner.Reconcile.Exports
import Nibrunner.Reconcile.Storage

/-!
# A wanted checkpoint is never deleted

A pass cuts and deletes the checkpoints the document lists and those its exports cut. What it owes
the document is `KeepsWanted`: no deletion is asked for but of a checkpoint the document marks
absent or one an export cut, a checkpoint marked present outlives the pass, and one reported ready
is there.

`keepsWanted_iff` says when a pass keeps this whatever the storage server answers. A checkpoint the
document wants must not be named as an export's is, for those nothing writes are reaped; the listing
the pass plans from must be answered, for one not listed is cut again over the one held; and the
document must not list one twice.
-/

namespace Nibrunner

open Std

/-! ### What a document says of a checkpoint -/

namespace HostDesiredState

def MarksPresent (d : HostDesiredState) (c : CheckpointId) : Prop :=
  ∃ w ∈ d.checkpoints, w.checkpointId = c ∧ w.desiredState = .present

def MarksAbsent (d : HostDesiredState) (c : CheckpointId) : Prop :=
  ∃ w ∈ d.checkpoints, w.checkpointId = c ∧ w.desiredState = .absent

/-- The checkpoints the document marks present, as often as it does. -/
def presentIds (d : HostDesiredState) : List CheckpointId :=
  (d.checkpoints.filter (·.desiredState = .present)).map (·.checkpointId)

end HostDesiredState

/-- The checkpoint of an export is named as one. -/
theorem isExportCheckpoint_of_eq {e : ExportId} {c : CheckpointId}
    (h : exportCheckpointId e = some c) : isExportCheckpoint c = true := by
  unfold exportCheckpointId Id.parse at h
  split at h
  · cases h
    rw [isExportCheckpoint, List.isPrefixOf_iff_prefix, String.toList_append]
    exact List.prefix_append _ _
  · cases h

namespace CheckpointStore

/-! ### One command -/

@[simp] theorem mem_held_remove {s : CheckpointStore} {c x : CheckpointId} :
    x ∈ (s.remove c).held ↔ x ∈ s.held ∧ x ≠ c := by
  simp [remove]

theorem isExported_congr {s s' : CheckpointStore} (h : s'.cutFor = s.cutFor) (c : CheckpointId) :
    s'.isExported c = s.isExported c := by
  rw [isExported, h, isExported]

theorem isExported_of_cutFor {s s' : CheckpointStore} {e : ExportId} {c : CheckpointId}
    (hc : exportCheckpointId e = some c) (h : s'.cutFor = s.cutFor ++ [e]) :
    s'.isExported c = true := by
  rw [isExported, h]
  simp [hc]

/-- A deletion asked for is on record, and no checkpoint of another name is touched. -/
structure Deleted (c : CheckpointId) (s s' : CheckpointStore) : Prop where
  deletions : s'.deletions = s.deletions ++ [⟨c, s.isExported c⟩]
  others : ∀ x, x ≠ c → (x ∈ s'.held ↔ x ∈ s.held)
  fewer : c ∈ s'.held → c ∈ s.held
  created : s'.created = s.created
  cutFor : s'.cutFor = s.cutFor
  reports : s'.checkpointReports = s.checkpointReports

theorem Deleted.mem_deletions_iff {c : CheckpointId} {s s' : CheckpointStore}
    (h : Deleted c s s') {x : Deletion} :
    x ∈ s'.deletions ↔ x ∈ s.deletions ∨ x = ⟨c, s.isExported c⟩ := by
  rw [h.deletions, List.mem_append, List.mem_singleton]

theorem Deleted.mem_held {c : CheckpointId} {s s' : CheckpointStore} (h : Deleted c s s')
    {x : CheckpointId} (hx : x ∈ s'.held) : x ∈ s.held := by
  by_cases hxc : x = c
  · rw [hxc] at hx ⊢
    exact h.fewer hx
  · exact (h.others x hxc).mp hx

theorem deleted_deleteCheckpoint (s : CheckpointStore) (c : CheckpointId) (answer : AdminAnswer) :
    Deleted c s (s.deleteCheckpoint c answer).1 := by
  have hremoved : ∀ t : CheckpointStore, t.held = s.held →
      (∀ x, x ≠ c → (x ∈ (t.remove c).held ↔ x ∈ s.held)) ∧
        (c ∈ (t.remove c).held → c ∈ s.held) := by
    intro t ht
    refine ⟨fun x hx => ?_, fun hc => absurd rfl (mem_held_remove.mp hc).2⟩
    rw [mem_held_remove, ht, and_iff_left hx]
  cases answer with
  | ok =>
    obtain ⟨hothers, hfewer⟩ := hremoved { s with deletions := _ } rfl
    exact ⟨rfl, hothers, hfewer, rfl, rfl, rfl⟩
  | failed reason done =>
    cases done with
    | false => exact ⟨rfl, fun _ _ => Iff.rfl, id, rfl, rfl, rfl⟩
    | true =>
      obtain ⟨hothers, hfewer⟩ := hremoved { s with deletions := _ } rfl
      exact ⟨rfl, hothers, hfewer, rfl, rfl, rfl⟩

/-- What creating a checkpoint leaves: one already held may have been asked to be deleted, and the
checkpoint is new where it is on record as created. -/
structure Created (c : CheckpointId) (cutFor : Option ExportId) (s s' : CheckpointStore) :
    Prop where
  deletions : s'.deletions = s.deletions ∨
    c ∈ s.held ∧ s'.deletions = s.deletions ++ [⟨c, s.isExported c⟩]
  others : ∀ x, x ≠ c → (x ∈ s'.held ↔ x ∈ s.held)
  created : s'.created = s.created ∧ s'.cutFor = s.cutFor ∧ (c ∈ s'.held → c ∈ s.held) ∨
    s'.created = s.created ++ [c] ∧ s'.cutFor = s.cutFor ++ cutFor.toList ∧ c ∈ s'.held
  reports : s'.checkpointReports = s.checkpointReports

namespace Created

variable {c : CheckpointId} {cutFor : Option ExportId} {s s' : CheckpointStore}

theorem mem_deletions (h : Created c cutFor s s') {x : Deletion} (hx : x ∈ s'.deletions) :
    x ∈ s.deletions ∨ c ∈ s.held ∧ x = ⟨c, s.isExported c⟩ := by
  rcases h.deletions with hsame | ⟨hheld, hmore⟩
  · rw [hsame] at hx
    exact .inl hx
  · rw [hmore, List.mem_append, List.mem_singleton] at hx
    exact hx.imp_right fun hx => ⟨hheld, hx⟩

theorem mem_held (h : Created c cutFor s s') {x : CheckpointId} (hx : x ∈ s'.held) :
    x ∈ s.held ∨ x = c := by
  by_cases hxc : x = c
  · exact .inr hxc
  · exact .inl ((h.others x hxc).mp hx)

theorem mem_created (h : Created c cutFor s s') {x : CheckpointId} (hx : x ∈ s'.created) :
    x ∈ s.created ∨ x = c ∧ x ∈ s'.held := by
  rcases h.created with ⟨hsame, -, -⟩ | ⟨hmore, -, hheld⟩
  · rw [hsame] at hx
    exact .inl hx
  · rw [hmore, List.mem_append, List.mem_singleton] at hx
    refine hx.imp_right fun hx => ⟨hx, ?_⟩
    rw [hx]
    exact hheld

theorem deletions_subset (h : Created c cutFor s s') : s.deletions ⊆ s'.deletions := by
  rcases h.deletions with hsame | ⟨-, hmore⟩
  · rw [hsame]
    exact List.Subset.refl _
  · rw [hmore]
    exact List.subset_append_left _ _

theorem created_subset (h : Created c cutFor s s') : s.created ⊆ s'.created := by
  rcases h.created with ⟨hsame, -, -⟩ | ⟨hmore, -, -⟩
  · rw [hsame]
    exact List.Subset.refl _
  · rw [hmore]
    exact List.subset_append_left _ _

theorem cutFor_of_none (h : Created c none s s') : s'.cutFor = s.cutFor := by
  rcases h.created with ⟨-, hsame, -⟩ | ⟨-, hmore, -⟩
  · exact hsame
  · rw [hmore, Option.toList_none, List.append_nil]

theorem isExported_or (h : Created c cutFor s s') (x : CheckpointId) :
    s'.isExported x = s.isExported x ∨
      ∃ e, cutFor = some e ∧
        s'.isExported x = (s.isExported x || decide (exportCheckpointId e = some x)) := by
  rcases h.created with ⟨-, hsame, -⟩ | ⟨-, hmore, -⟩
  · exact .inl (isExported_congr hsame x)
  · cases cutFor with
    | none =>
      rw [Option.toList_none, List.append_nil] at hmore
      exact .inl (isExported_congr hmore x)
    | some e =>
      refine .inr ⟨e, rfl, ?_⟩
      rw [isExported, hmore]
      simp [isExported]

end Created

theorem created_createCheckpoint (s : CheckpointStore) (c : CheckpointId)
    (cutFor : Option ExportId) (answers : CreateAnswers) :
    Created c cutFor s (s.createCheckpoint c cutFor answers).1 ∧
      ((s.createCheckpoint c cutFor answers).2 = .ok () →
        (s.createCheckpoint c cutFor answers).1.created = s.created ++ [c] ∧
          (s.createCheckpoint c cutFor answers).1.cutFor = s.cutFor ++ cutFor.toList ∧
          c ∈ (s.createCheckpoint c cutFor answers).1.held) := by
  -- what the server is asked to create, it is asked once the name is cleared
  have hadded : ∀ t : CheckpointStore,
      (t.deletions = s.deletions ∨
        c ∈ s.held ∧ t.deletions = s.deletions ++ [⟨c, s.isExported c⟩]) →
      (∀ x, x ≠ c → (x ∈ t.held ↔ x ∈ s.held)) → (c ∈ t.held → c ∈ s.held) →
      t.created = s.created → t.cutFor = s.cutFor → t.checkpointReports = s.checkpointReports →
      Created c cutFor s t ∧ Created c cutFor s (t.add c cutFor) ∧
        (t.add c cutFor).created = s.created ++ [c] ∧
        (t.add c cutFor).cutFor = s.cutFor ++ cutFor.toList := by
    intro t hdeletions hothers hfewer hcreated hcut hreports
    have hnew : (t.add c cutFor).created = s.created ++ [c] := by simp [add, hcreated]
    have hfor : (t.add c cutFor).cutFor = s.cutFor ++ cutFor.toList := by simp [add, hcut]
    refine ⟨⟨hdeletions, hothers, .inl ⟨hcreated, hcut, hfewer⟩, hreports⟩, ⟨hdeletions,
      fun x hx => ?_, .inr ⟨hnew, hfor, ?_⟩, hreports⟩, hnew, hfor⟩
    · rw [← hothers x hx]
      simp [add, hx]
    · simp [add]
  unfold createCheckpoint
  dsimp only
  generalize hcleared : (if c ∈ s.observeCheckpoints answers.listed then
    s.deleteCheckpoint c answers.deleted else (s, Except.ok ())) = cleared
  obtain ⟨t, result⟩ := cleared
  have ht : Created c cutFor s t ∧ Created c cutFor s (t.add c cutFor) ∧
      (t.add c cutFor).created = s.created ++ [c] ∧
      (t.add c cutFor).cutFor = s.cutFor ++ cutFor.toList := by
    split at hcleared
    · rename_i hlisted
      have hheld : c ∈ s.held := by
        unfold observeCheckpoints at hlisted
        split at hlisted
        · exact hlisted
        · cases hlisted
      obtain ⟨hdeletions, hothers, hfewer, hcreated, hcut, hreports⟩ :=
        deleted_deleteCheckpoint s c answers.deleted
      obtain rfl : (s.deleteCheckpoint c answers.deleted).1 = t := congrArg Prod.fst hcleared
      exact hadded _ (.inr ⟨hheld, hdeletions⟩) hothers hfewer hcreated hcut hreports
    · obtain rfl : s = t := congrArg Prod.fst hcleared
      exact hadded s (.inl rfl) (fun _ _ => Iff.rfl) id rfl rfl rfl
  cases result with
  | error reason => exact ⟨ht.1, by simp⟩
  | ok =>
    dsimp only
    split
    · exact ⟨ht.1, by simp⟩
    · cases answers.created with
      | ok => exact ⟨ht.2.1, fun _ => ⟨ht.2.2.1, ht.2.2.2, by simp [add]⟩⟩
      | failed reason done =>
        refine ⟨?_, by simp⟩
        cases done with
        | false => exact ht.1
        | true => exact ht.2.1

end CheckpointStore

/-! ### The checkpoints of a pass -/

/-- The checkpoint an action creates. -/
def CheckpointPlan.creates : CheckpointPlan → Option CheckpointId
  | create desired => some desired.checkpointId
  | _ => Option.none

/-- The checkpoint an action deletes. -/
def CheckpointPlan.deletes : CheckpointPlan → Option CheckpointId
  | delete desired => some desired.checkpointId
  | _ => Option.none

namespace CheckpointStore

variable {latest : Option HostDesiredState} {before : List ReportedCheckpoint}

/-- What the checkpoints of a pass leave where each is created at most once, over none of its name,
and none created is deleted. -/
structure CheckpointsApplied (latest : Option HostDesiredState) (l : List CheckpointPlan)
    (s s' : CheckpointStore) (reports : List ReportedCheckpoint) : Prop where
  deletions : ∀ x ∈ s'.deletions, x ∈ s.deletions ∨ x.checkpointId ∈ l.filterMap (·.deletes)
  kept : ∀ c ∉ l.filterMap (·.deletes), c ∈ s.held → c ∈ s'.held
  created : ∀ c ∉ l.filterMap (·.deletes), c ∈ s'.created → c ∈ s.created ∨ c ∈ s'.held
  held : ∀ c ∈ s'.held, c ∈ s.held ∨ c ∈ l.filterMap (·.creates)
  cutFor : s'.cutFor = s.cutFor
  reported : ∀ r ∈ reports, r.state = .ready →
    r.checkpointId ∈ l.filterMap (·.creates) ∧ r.checkpointId ∈ s'.held ∨
      CheckpointPlan.none r.checkpointId ∈ l ∧
        ∃ u, planSubject latest r.checkpointId = some u ∧ u.desiredState = .present

theorem checkpointId_of_planSubject {c : CheckpointId} {wanted : DesiredCheckpoint}
    (h : planSubject latest c = some wanted) : wanted.checkpointId = c := by
  obtain ⟨d, -, hfound⟩ := Option.bind_eq_some_iff.mp h
  have hsame := List.find?_some hfound
  exact of_decide_eq_true hsame

/-- A checkpoint is created over none of its name. -/
theorem checkpointsApplied_create {s : CheckpointStore} {desired : DesiredCheckpoint}
    (hfree : desired.checkpointId ∉ s.held) (answers : CheckpointActionAnswers) :
    CheckpointsApplied latest [.create desired] s (s.cut desired answers).1
      [(s.cut desired answers).2] := by
  obtain ⟨hcreated, hok⟩ := created_createCheckpoint s desired.checkpointId none answers.create
  unfold cut
  generalize s.createCheckpoint desired.checkpointId none answers.create = result at *
  obtain ⟨s', answer⟩ := result
  have happlied : ∀ report : ReportedCheckpoint,
      (report.state = .ready →
        report.checkpointId = desired.checkpointId ∧ desired.checkpointId ∈ s'.held) →
      CheckpointsApplied latest [.create desired] s s' [report] := by
    intro report hreport
    refine ⟨fun x hx => .inl ?_, fun c _ hc => ?_, fun c _ hc => ?_, fun c hc => ?_,
      hcreated.cutFor_of_none, fun r hr hready => .inl ?_⟩
    · exact (hcreated.mem_deletions hx).resolve_right fun h => hfree h.1
    · exact (hcreated.others c fun h => hfree (h ▸ hc)).mpr hc
    · exact (hcreated.mem_created hc).imp_right And.right
    · exact (hcreated.mem_held hc).imp_right fun h => by simp [CheckpointPlan.creates, h]
    · rw [List.mem_singleton] at hr
      rw [hr] at hready ⊢
      obtain ⟨hid, hheld⟩ := hreport hready
      rw [hid]
      exact ⟨by simp [CheckpointPlan.creates], hheld⟩
  cases answer with
  | ok => exact happlied _ fun _ => ⟨rfl, (hok rfl).2.2⟩
  | error error =>
    refine happlied _ fun hready => ?_
    cases hready

theorem checkpointsApplied_delete (s : CheckpointStore) (desired : DesiredCheckpoint)
    (answer : AdminAnswer) :
    CheckpointsApplied latest [.delete desired] s (s.release desired answer).1
      [(s.release desired answer).2] := by
  have hdeleted := deleted_deleteCheckpoint s desired.checkpointId answer
  unfold release
  generalize s.deleteCheckpoint desired.checkpointId answer = result at *
  obtain ⟨s', result⟩ := result
  have happlied : ∀ report : ReportedCheckpoint, report.state ≠ .ready →
      CheckpointsApplied latest [.delete desired] s s' [report] := by
    intro report hreport
    refine ⟨fun x hx => ?_, fun c hc hmem => ?_, fun c _ hc => .inl (hdeleted.created ▸ hc),
      fun c hc => .inl (hdeleted.mem_held hc), hdeleted.cutFor, fun r hr hready => ?_⟩
    · refine (hdeleted.mem_deletions_iff.mp hx).imp_right fun h => ?_
      simp [CheckpointPlan.deletes, h]
    · refine (hdeleted.others c fun h => hc ?_).mpr hmem
      simp [CheckpointPlan.deletes, h]
    · rw [List.mem_singleton] at hr
      exact absurd (hr ▸ hready) hreport
  cases result with
  | ok | error error =>
    refine happlied _ fun hready => ?_
    cases hready

/-- One action. A checkpoint it creates must not be held. -/
theorem checkpointsApplied_singleton {s : CheckpointStore} {action : CheckpointPlan}
    (hfree : ∀ c, action.creates = some c → c ∉ s.held) (answers : CheckpointActionAnswers) :
    CheckpointsApplied latest [action] s (s.applyCheckpoint latest before answers action).1
      (s.applyCheckpoint latest before answers action).2.toList := by
  cases action with
  | create desired => exact checkpointsApplied_create (hfree _ rfl) answers
  | delete desired => exact checkpointsApplied_delete s desired answers.delete
  | none c =>
    refine ⟨fun x hx => .inl hx, fun _ _ h => h, fun _ _ h => .inl h, fun _ h => .inl h, rfl,
      fun r hr hready => .inr ?_⟩
    simp only [applyCheckpoint, Option.mem_toList, Option.map_eq_some_iff] at hr
    obtain ⟨wanted, hsubject, hr⟩ := hr
    cases hstate : wanted.desiredState with
    | present =>
      rw [hstate] at hr
      obtain rfl : ReportedCheckpoint.ready wanted _ = r := hr
      have hready : (ReportedCheckpoint.ready wanted
          ((before.find? (·.checkpointId = c)).bind (·.readyAt))).checkpointId = c :=
        checkpointId_of_planSubject hsubject
      rw [hready]
      exact ⟨List.mem_singleton.mpr rfl, wanted, hsubject, hstate⟩
    | absent =>
      rw [hstate] at hr
      obtain rfl : ReportedCheckpoint.deleted wanted = r := hr
      cases hready

theorem checkpointsApplied {l : List CheckpointPlan} {s : CheckpointStore}
    (hnodup : (l.filterMap (·.creates)).Nodup)
    (hfree : ∀ c ∈ l.filterMap (·.creates), c ∉ s.held)
    (hkept : ∀ c ∈ l.filterMap (·.creates), c ∉ l.filterMap (·.deletes))
    (answers : ℕ → CheckpointActionAnswers) :
    CheckpointsApplied latest l s (applyCheckpointPlans latest before l answers s).1
      (applyCheckpointPlans latest before l answers s).2 := by
  induction l generalizing s answers with
  | nil => exact ⟨fun x hx => .inl hx, fun _ _ h => h, fun _ _ h => .inl h, fun _ h => .inl h, rfl,
      fun r hr => absurd hr List.not_mem_nil⟩
  | cons action l ih =>
    rw [applyCheckpointPlans]
    dsimp only
    have hcreates : ∀ c, c ∈ (action :: l).filterMap (·.creates) ↔
        c ∈ [action].filterMap (·.creates) ∨ c ∈ l.filterMap (·.creates) := by
      intro c
      rw [← List.mem_append, ← List.filterMap_append, List.singleton_append]
    have hdeletes : ∀ c, c ∈ (action :: l).filterMap (·.deletes) ↔
        c ∈ [action].filterMap (·.deletes) ∨ c ∈ l.filterMap (·.deletes) := by
      intro c
      rw [← List.mem_append, ← List.filterMap_append, List.singleton_append]
    have hfirst := @checkpointsApplied_singleton latest before s action
      (fun c hc => hfree c ((hcreates c).mpr (.inl (by simp [hc])))) (answers 0)
    generalize s.applyCheckpoint latest before (answers 0) action = first at *
    obtain ⟨s₁, report⟩ := first
    dsimp only at hfirst ⊢
    have hrest := ih (s := s₁) ?_ ?_ ?_ fun n => answers (n + 1)
    · generalize applyCheckpointPlans latest before l (fun n => answers (n + 1)) s₁ = rest at *
      obtain ⟨s', reports⟩ := rest
      dsimp only at hrest ⊢
      refine ⟨fun x hx => ?_, fun c hc hmem => ?_, fun c hc hmem => ?_, fun c hmem => ?_,
        hrest.cutFor.trans hfirst.cutFor, fun r hr hready => ?_⟩
      · rw [hdeletes]
        rcases hrest.deletions x hx with hx | hx
        · exact (hfirst.deletions x hx).imp_right .inl
        · exact .inr (.inr hx)
      · rw [hdeletes, not_or] at hc
        exact hrest.kept c hc.2 (hfirst.kept c hc.1 hmem)
      · rw [hdeletes, not_or] at hc
        rcases hrest.created c hc.2 hmem with hmem | hmem
        · exact (hfirst.created c hc.1 hmem).imp_right (hrest.kept c hc.2)
        · exact .inr hmem
      · rw [hcreates]
        rcases hrest.held c hmem with hmem | hmem
        · exact (hfirst.held c hmem).imp_right .inl
        · exact .inr (.inr hmem)
      · rcases List.mem_append.mp hr with hr | hr
        · rcases hfirst.reported r hr hready with ⟨hcreate, hheld⟩ | ⟨hnone, hsubject⟩
          · have hcreate' := (hcreates _).mpr (.inl hcreate)
            have hsafe := mt (hdeletes _).mpr (hkept _ hcreate')
            rw [not_or] at hsafe
            exact .inl ⟨hcreate', hrest.kept _ hsafe.2 hheld⟩
          · rw [List.mem_singleton] at hnone
            exact .inr ⟨hnone ▸ List.mem_cons_self, hsubject⟩
        · rcases hrest.reported r hr hready with ⟨hcreate, hheld⟩ | ⟨hnone, hsubject⟩
          · exact .inl ⟨(hcreates _).mpr (.inr hcreate), hheld⟩
          · exact .inr ⟨List.mem_cons_of_mem _ hnone, hsubject⟩
    · exact hnodup.sublist ((List.sublist_cons_self action l).filterMap _)
    · intro c hc hmem
      rcases hfirst.held c hmem with hold | hnew
      · exact hfree c ((hcreates c).mpr (.inr hc)) hold
      · -- the action creates it, and the rest would again
        rw [← List.singleton_append, List.filterMap_append] at hnodup
        exact List.disjoint_of_nodup_append hnodup hnew hc
    · intro c hc hdel
      exact hkept c ((hcreates c).mpr (.inr hc)) ((hdeletes c).mpr (.inr hdel))

/-! ### The exports of a pass -/

/-- What reaping leaves: only orphans are deleted. -/
structure Reaped (orphans : List CheckpointId) (s s' : CheckpointStore) : Prop where
  deletions : ∀ x ∈ s'.deletions, x ∈ s.deletions ∨
    x.checkpointId ∈ orphans ∧ x.exported = s.isExported x.checkpointId
  others : ∀ c ∉ orphans, (c ∈ s'.held ↔ c ∈ s.held)
  fewer : ∀ c ∈ s'.held, c ∈ s.held
  created : s'.created = s.created
  cutFor : s'.cutFor = s.cutFor
  reports : s'.checkpointReports = s.checkpointReports

theorem reaped_foldl (orphans : List CheckpointId) (answers : CheckpointId → AdminAnswer)
    (s : CheckpointStore) :
    Reaped orphans s (orphans.foldl (fun s c => (s.deleteCheckpoint c (answers c)).1) s) := by
  induction orphans generalizing s with
  | nil => exact ⟨fun x hx => .inl hx, fun _ _ => Iff.rfl, fun _ h => h, rfl, rfl, rfl⟩
  | cons c orphans ih =>
    rw [List.foldl_cons]
    have hfirst := deleted_deleteCheckpoint s c (answers c)
    have hrest := ih (s.deleteCheckpoint c (answers c)).1
    refine ⟨fun x hx => ?_, fun x hx => ?_, fun x hx => hfirst.mem_held (hrest.fewer x hx),
      hrest.created.trans hfirst.created, hrest.cutFor.trans hfirst.cutFor,
      hrest.reports.trans hfirst.reports⟩
    · rcases hrest.deletions x hx with hx | ⟨hmem, hx⟩
      · refine (hfirst.mem_deletions_iff.mp hx).imp_right fun hx => ?_
        rw [hx]
        exact ⟨List.mem_cons_self, rfl⟩
      · exact .inr ⟨List.mem_cons_of_mem c hmem, hx.trans (isExported_congr hfirst.cutFor _)⟩
    · rw [List.mem_cons, not_or] at hx
      exact (hrest.others x hx.2).trans (hfirst.others x hx.1)

theorem reaped_reap (s : CheckpointStore) (plan : ReconcilePlan) (listed : Bool)
    (answers : CheckpointId → AdminAnswer) :
    Reaped (s.orphans plan listed) s (s.reap plan listed answers) :=
  reaped_foldl _ _ _

/-- What an export leaves: it deletes one held under the name of its checkpoint, and its own. -/
structure Written (c : CheckpointId) (s s' : CheckpointStore) : Prop where
  deletions : ∀ x ∈ s'.deletions, x ∈ s.deletions ∨
    x.checkpointId = c ∧ (x.exported = true ∨ c ∈ s.held ∧ x.exported = s.isExported c)
  others : ∀ x, x ≠ c → (x ∈ s'.held ↔ x ∈ s.held)
  held : c ∈ s'.held → c ∈ s.held ∨ s'.isExported c = true
  exported : ∀ x, s.isExported x = true → s'.isExported x = true
  exportedOnly : ∀ x, s'.isExported x = true → s.isExported x = true ∨ x = c
  created : ∀ x ∈ s'.created, x ∈ s.created ∨ x = c
  reports : s'.checkpointReports = s.checkpointReports

theorem Written.refl (c : CheckpointId) (s : CheckpointStore) : Written c s s :=
  ⟨fun _ h => .inl h, fun _ _ => Iff.rfl, .inl, fun _ h => h, fun _ h => .inl h,
    fun _ h => .inl h, rfl⟩

/-- An export's checkpoint is cut for it. -/
theorem Created.written {desired : DesiredExport} {c : CheckpointId} {s s' : CheckpointStore}
    (h : Created c (some desired.exportId) s s')
    (hc : exportCheckpointId desired.exportId = some c) : Written c s s' := by
  refine ⟨fun x hx => ?_, h.others, fun hmem => ?_, fun x hx => ?_, fun x hx => ?_,
    fun x hx => (h.mem_created hx).imp_right And.left, h.reports⟩
  · refine (h.mem_deletions hx).imp_right ?_
    rintro ⟨hheld, rfl⟩
    exact ⟨rfl, .inr ⟨hheld, rfl⟩⟩
  · rcases h.created with ⟨-, -, hfewer⟩ | ⟨-, hcut, -⟩
    · exact .inl (hfewer hmem)
    · exact .inr (isExported_of_cutFor hc hcut)
  · rcases h.isExported_or x with hsame | ⟨e, -, hmore⟩
    · exact hsame.trans hx
    · rw [hmore, hx, Bool.true_or]
  · rcases h.isExported_or x with hsame | ⟨_, ⟨⟩, hmore⟩
    · exact .inl (hsame.symm.trans hx)
    · rw [hmore, Bool.or_eq_true, decide_eq_true_eq, hc, Option.some_inj] at hx
      exact hx.imp_right Eq.symm

/-- A checkpoint an export cut is deleted with what the export left. -/
theorem Written.delete {c : CheckpointId} {s s₁ s' : CheckpointStore} (h : Written c s s₁)
    (hexported : s₁.isExported c = true) (hdeleted : Deleted c s₁ s') : Written c s s' := by
  have hsame := isExported_congr hdeleted.cutFor
  refine ⟨fun x hx => ?_, fun x hx => (hdeleted.others x hx).trans (h.others x hx),
    fun hmem => ?_, fun x hx => (hsame x).trans (h.exported x hx),
    fun x hx => h.exportedOnly x ((hsame x).symm.trans hx), fun x hx => ?_,
    hdeleted.reports.trans h.reports⟩
  · rcases hdeleted.mem_deletions_iff.mp hx with hx | rfl
    · exact h.deletions x hx
    · exact .inr ⟨rfl, .inl hexported⟩
  · rw [hsame]
    exact h.held (hdeleted.fewer hmem)
  · rw [hdeleted.created] at hx
    exact h.created x hx

theorem written_writeInner {desired : DesiredExport} {c : CheckpointId}
    (hc : exportCheckpointId desired.exportId = some c) (s : CheckpointStore)
    (answers : ExportAnswers) : Written c s (s.writeInner desired c answers).1 := by
  unfold writeInner
  cases answers.frozen with
  | error reason => exact .refl c s
  | ok =>
    dsimp only
    obtain ⟨hcreated, hok⟩ :=
      created_createCheckpoint s c (some desired.exportId) answers.create
    generalize s.createCheckpoint c (some desired.exportId) answers.create = result at *
    obtain ⟨s₁, answer⟩ := result
    have hcut : Written c s s₁ := hcreated.written hc
    cases answer with
    | error reason => exact hcut
    | ok =>
      -- once cut, it is deleted whatever becomes of the bundle
      have hexported : s₁.isExported c = true := isExported_of_cutFor hc (hok rfl).2.1
      have hafter : ∀ answer, Written c s (s₁.deleteCheckpoint c answer).1 := fun answer =>
        hcut.delete hexported (deleted_deleteCheckpoint s₁ c answer)
      dsimp only
      cases answers.assertHeld with
      | error reason => exact hafter _
      | ok =>
        cases answers.read with
        | error reason => exact hafter _
        | ok => exact hafter _

/-- Every export's checkpoint held was cut by an export here, or may be deleted by leave of `P`. -/
def Owned (P : CheckpointId → Prop) (s : CheckpointStore) : Prop :=
  ∀ c ∈ s.held, isExportCheckpoint c = true → s.isExported c = true ∨ P c

/-- What the exports of a pass leave: they delete what exports cut and what `P` gives leave for, and
no checkpoint but an export's. -/
structure ExportsApplied (P : CheckpointId → Prop) (s s' : CheckpointStore) : Prop where
  deletions : ∀ x ∈ s'.deletions, x ∈ s.deletions ∨ x.exported = true ∨ P x.checkpointId
  others : ∀ c, isExportCheckpoint c = false → (c ∈ s'.held ↔ c ∈ s.held)
  owned : Owned P s'
  created : ∀ c ∈ s'.created, c ∈ s.created ∨ isExportCheckpoint c = true
  reports : s'.checkpointReports = s.checkpointReports

theorem ExportsApplied.refl {P : CheckpointId → Prop} {s : CheckpointStore} (hs : Owned P s) :
    ExportsApplied P s s :=
  ⟨fun _ h => .inl h, fun _ _ => Iff.rfl, hs, fun _ h => .inl h, rfl⟩

theorem ExportsApplied.trans {P : CheckpointId → Prop} {s s' s'' : CheckpointStore}
    (h : ExportsApplied P s s') (h' : ExportsApplied P s' s'') : ExportsApplied P s s'' where
  deletions x hx := (h'.deletions x hx).elim (h.deletions x) .inr
  others c hc := (h'.others c hc).trans (h.others c hc)
  owned := h'.owned
  created c hc := (h'.created c hc).elim (h.created c) .inr
  reports := h'.reports.trans h.reports

theorem Written.exportsApplied {P : CheckpointId → Prop} {c : CheckpointId}
    {s s' : CheckpointStore} (hw : Written c s s') (hc : isExportCheckpoint c = true)
    (hs : Owned P s) : ExportsApplied P s s' := by
  have hne : ∀ x, isExportCheckpoint x = false → x ≠ c := by
    rintro x hx rfl
    rw [hc] at hx
    cases hx
  refine ⟨fun x hx => ?_, fun x hx => hw.others x (hne x hx), fun x hx hexport => ?_,
    fun x hx => (hw.created x hx).imp_right fun h => by rw [h, hc], hw.reports⟩
  · rcases hw.deletions x hx with hx | ⟨hid, hx | ⟨hheld, hx⟩⟩
    · exact .inl hx
    · exact .inr (.inl hx)
    · refine .inr ((hs c hheld hc).imp (fun h => hx.trans h) fun h => ?_)
      rw [hid]
      exact h
  · by_cases h : x = c
    · rw [h] at hx ⊢
      rcases hw.held hx with hheld | hnew
      · exact (hs c hheld hc).imp_left (hw.exported c)
      · exact .inl hnew
    · exact (hs x ((hw.others x h).mp hx) hexport).imp_left (hw.exported x)

/-- An export is written to its checkpoint, or is refused for its name. -/
theorem write_cases (s : CheckpointStore) (desired : DesiredExport) (answers : ExportAnswers) :
    (s.write desired answers).1 = s ∧ exportCheckpointId desired.exportId = none ∨
      ∃ c, exportCheckpointId desired.exportId = some c ∧
        (s.write desired answers).1 = (s.writeInner desired c answers).1 := by
  unfold write
  cases hc : exportCheckpointId desired.exportId with
  | none => exact .inl ⟨rfl, rfl⟩
  | some c =>
    refine .inr ⟨c, rfl, ?_⟩
    dsimp only
    split
    · rename_i heq
      rw [heq]
    · rename_i heq
      rw [heq]

theorem exportsApplied_applyExport {P : CheckpointId → Prop} {s : CheckpointStore}
    (hs : Owned P s) (trigger : Trigger) (answers : ExportAnswers) (action : ExportPlan) :
    ExportsApplied P s (s.applyExport trigger answers action) := by
  cases action with
  | write desired =>
    rw [applyExport]
    split
    · exact .refl hs
    · have hwritten : ExportsApplied P s (s.write desired answers).1 := by
        rcases write_cases s desired answers with ⟨hsame, -⟩ | ⟨c, hc, hinner⟩
        · rw [hsame]
          exact .refl hs
        · rw [hinner]
          exact (written_writeInner hc s answers).exportsApplied (isExportCheckpoint_of_eq hc) hs
      exact ⟨hwritten.deletions, hwritten.others, hwritten.owned, hwritten.created,
        hwritten.reports⟩
  | forget e => exact ⟨fun _ h => .inl h, fun _ _ => Iff.rfl, hs, fun _ h => .inl h, rfl⟩
  | none e => exact .refl hs

theorem exportsApplied_applyExportPlans {P : CheckpointId → Prop} (trigger : Trigger)
    (l : List ExportPlan) (answers : ℕ → ExportAnswers) {s : CheckpointStore} (hs : Owned P s) :
    ExportsApplied P s (applyExportPlans trigger l answers s) := by
  induction l generalizing s answers with
  | nil => exact .refl hs
  | cons action l ih =>
    have hfirst := exportsApplied_applyExport hs trigger (answers 0) action
    exact hfirst.trans (ih _ hfirst.owned)

/-- A tick writes no export. -/
theorem applyExportPlans_tick (l : List ExportPlan) (answers : ℕ → ExportAnswers)
    (s : CheckpointStore) : ∃ reports,
      applyExportPlans .tick l answers s = { s with exportReports := reports } := by
  induction l generalizing s answers with
  | nil => exact ⟨s.exportReports, rfl⟩
  | cons action l ih =>
    rw [applyExportPlans]
    cases action with
    | write desired => exact ih _ s
    | forget e => exact ih _ { s with exportReports := _ }
    | none e => exact ih _ s

end CheckpointStore

/-! ### What a pass plans -/

namespace CheckpointStore

/-- The checkpoint is held, and the listing the pass plans from names it. -/
def IsListed (s : CheckpointStore) (listed : Bool) (c : CheckpointId) : Prop :=
  listed = true ∧ c ∈ s.held

variable {s : CheckpointStore} {d : HostDesiredState} {listed : Bool}

theorem mem_observed_iff {w : DesiredCheckpoint} (hw : w ∈ d.checkpoints) :
    w.checkpointId ∈ (s.observe d listed).checkpoints.map (·.checkpointId) ↔
      IsListed s listed w.checkpointId := by
  have hlisted : w.checkpointId ∈ s.observeCheckpoints listed ↔
      IsListed s listed w.checkpointId := by
    unfold observeCheckpoints IsListed
    cases listed <;> simp
  rw [← hlisted]
  simp only [observe, List.map_map, List.mem_map, List.mem_filter, decide_eq_true_eq,
    Function.comp_apply]
  constructor
  · rintro ⟨w', ⟨-, hmem⟩, hid⟩
    rw [← hid]
    exact hmem
  · intro hmem
    exact ⟨w, ⟨hw, hmem⟩, rfl⟩

/-- What is planned for a checkpoint marked present. -/
theorem planCheckpoint_of_present (s : CheckpointStore) (listed : Bool) {w : DesiredCheckpoint}
    (hw : w ∈ d.checkpoints)
    (hstate : w.desiredState = .present) :
    IsListed s listed w.checkpointId ∧
        planCheckpoint (s.observe d listed) w = .none w.checkpointId ∨
      ¬ IsListed s listed w.checkpointId ∧
        planCheckpoint (s.observe d listed) w = .create w := by
  rw [← mem_observed_iff hw, planCheckpoint, hstate]
  by_cases h : w.checkpointId ∈ (s.observe d listed).checkpoints.map (·.checkpointId)
  · simp [h]
  · simp [h]

/-- What is planned for one marked absent. -/
theorem planCheckpoint_of_absent (s : CheckpointStore) (listed : Bool) {w : DesiredCheckpoint}
    (hw : w ∈ d.checkpoints)
    (hstate : w.desiredState = .absent) :
    IsListed s listed w.checkpointId ∧
        planCheckpoint (s.observe d listed) w = .delete w ∨
      ¬ IsListed s listed w.checkpointId ∧
        planCheckpoint (s.observe d listed) w = .none w.checkpointId := by
  rw [← mem_observed_iff hw, planCheckpoint, hstate]
  by_cases h : w.checkpointId ∈ (s.observe d listed).checkpoints.map (·.checkpointId)
  · simp [h]
  · simp [h]

/-- The plan of the checkpoints. -/
def checkpointPlan (s : CheckpointStore) (d : HostDesiredState) (listed : Bool) :
    List CheckpointPlan :=
  d.checkpoints.map (planCheckpoint (s.observe d listed))

theorem mem_creates_iff {c : CheckpointId} :
    c ∈ (s.checkpointPlan d listed).filterMap (·.creates) ↔
      d.MarksPresent c ∧ ¬ IsListed s listed c := by
  rw [checkpointPlan, List.mem_filterMap]
  constructor
  · rintro ⟨p, hp, hcreates⟩
    obtain ⟨w, hw, rfl⟩ := List.mem_map.mp hp
    cases hstate : w.desiredState with
    | present =>
      rcases planCheckpoint_of_present s listed hw hstate with
        ⟨-, hplan⟩ | ⟨hlisted, hplan⟩
      · rw [hplan] at hcreates
        cases hcreates
      · rw [hplan] at hcreates
        cases hcreates
        exact ⟨⟨w, hw, rfl, hstate⟩, hlisted⟩
    | absent =>
      rcases planCheckpoint_of_absent s listed hw hstate with
        ⟨-, hplan⟩ | ⟨-, hplan⟩
      all_goals
        rw [hplan] at hcreates
        cases hcreates
  · rintro ⟨⟨w, hw, rfl, hstate⟩, hlisted⟩
    refine ⟨_, List.mem_map_of_mem hw, ?_⟩
    rw [((planCheckpoint_of_present s listed hw hstate).resolve_left fun h => hlisted h.1).2]
    rfl

theorem mem_deletes_iff {c : CheckpointId} :
    c ∈ (s.checkpointPlan d listed).filterMap (·.deletes) ↔
      d.MarksAbsent c ∧ IsListed s listed c := by
  rw [checkpointPlan, List.mem_filterMap]
  constructor
  · rintro ⟨p, hp, hdeletes⟩
    obtain ⟨w, hw, rfl⟩ := List.mem_map.mp hp
    cases hstate : w.desiredState with
    | present =>
      rcases planCheckpoint_of_present s listed hw hstate with
        ⟨-, hplan⟩ | ⟨-, hplan⟩
      all_goals
        rw [hplan] at hdeletes
        cases hdeletes
    | absent =>
      rcases planCheckpoint_of_absent s listed hw hstate with
        ⟨hlisted, hplan⟩ | ⟨-, hplan⟩
      · rw [hplan] at hdeletes
        cases hdeletes
        exact ⟨⟨w, hw, rfl, hstate⟩, hlisted⟩
      · rw [hplan] at hdeletes
        cases hdeletes
  · rintro ⟨⟨w, hw, rfl, hstate⟩, hlisted⟩
    refine ⟨_, List.mem_map_of_mem hw, ?_⟩
    rw [((planCheckpoint_of_absent s listed hw hstate).resolve_right fun h => h.1 hlisted).2]
    rfl

/-- A checkpoint nothing is planned for is there as listed, or is not listed and marked absent. -/
theorem mem_none_iff {c : CheckpointId} :
    CheckpointPlan.none c ∈ s.checkpointPlan d listed ↔
      d.MarksPresent c ∧ IsListed s listed c ∨ d.MarksAbsent c ∧ ¬ IsListed s listed c := by
  rw [checkpointPlan, List.mem_map]
  constructor
  · rintro ⟨w, hw, hplan⟩
    cases hstate : w.desiredState with
    | present =>
      rcases planCheckpoint_of_present s listed hw hstate with
        ⟨hlisted, hplan'⟩ | ⟨-, hplan'⟩
      · cases hplan'.symm.trans hplan
        exact .inl ⟨⟨w, hw, rfl, hstate⟩, hlisted⟩
      · cases hplan'.symm.trans hplan
    | absent =>
      rcases planCheckpoint_of_absent s listed hw hstate with
        ⟨-, hplan'⟩ | ⟨hlisted, hplan'⟩
      · cases hplan'.symm.trans hplan
      · cases hplan'.symm.trans hplan
        exact .inr ⟨⟨w, hw, rfl, hstate⟩, hlisted⟩
  · rintro (⟨⟨w, hw, rfl, hstate⟩, hlisted⟩ | ⟨⟨w, hw, rfl, hstate⟩, hlisted⟩)
    · exact ⟨w, hw, ((planCheckpoint_of_present s listed hw hstate).resolve_right
        fun h => h.1 hlisted).2⟩
    · exact ⟨w, hw, ((planCheckpoint_of_absent s listed hw hstate).resolve_left
        fun h => hlisted h.1).2⟩

theorem creates_eq : (s.checkpointPlan d listed).filterMap (·.creates) =
    d.presentIds.filter fun c => !(listed && decide (c ∈ s.held)) := by
  have hlisted : ∀ c, (listed && decide (c ∈ s.held)) = true ↔ IsListed s listed c := by
    intro c
    rw [Bool.and_eq_true, decide_eq_true_eq, IsListed]
  unfold checkpointPlan HostDesiredState.presentIds
  have hsub : ∀ l : List DesiredCheckpoint, (∀ w ∈ l, w ∈ d.checkpoints) →
      (l.map (planCheckpoint (s.observe d listed))).filterMap (·.creates) =
        ((l.filter (·.desiredState = .present)).map (·.checkpointId)).filter fun c =>
          !(listed && decide (c ∈ s.held)) := by
    intro l
    induction l with
    | nil => exact fun _ => rfl
    | cons w l ih =>
      intro hl
      have hrest := ih fun w hw => hl w (List.mem_cons_of_mem _ hw)
      have hw := hl w List.mem_cons_self
      rw [List.map_cons, List.filterMap_cons, hrest, List.filter_cons]
      cases hstate : w.desiredState with
      | present =>
        rw [if_pos (decide_eq_true rfl), List.map_cons, List.filter_cons]
        rcases planCheckpoint_of_present s listed hw hstate with
          ⟨h, hplan⟩ | ⟨h, hplan⟩
        · rw [hplan, (hlisted _).mpr h]
          rfl
        · rw [hplan, Bool.eq_false_iff.mpr (mt (hlisted _).mp h)]
          rfl
      | absent =>
        rcases planCheckpoint_of_absent s listed hw hstate with
          ⟨-, hplan⟩ | ⟨-, hplan⟩
        all_goals
          rw [hplan]
          rfl
  exact hsub _ fun _ h => h

/-! ### What a pass owes the document -/

/-- The exports of the pass leave a checkpoint of that name alone: it is not named as one of
theirs, or it is one of a write that waits because the pass is a tick. -/
def PassedOver (plan : ReconcilePlan) (trigger : Trigger) (c : CheckpointId) : Prop :=
  isExportCheckpoint c = true → c ∈ inFlight plan ∧ trigger = .tick

/-- **What a pass owes the document**: it asks for the deletion only of checkpoints the document
marks absent or an export cut, one marked present that was there or was created is there, and so is
one reported ready. -/
structure KeepsWanted (d : HostDesiredState) (s s' : CheckpointStore) : Prop where
  deletions : ∀ x ∈ s'.deletions, d.MarksAbsent x.checkpointId ∨ x.exported = true
  kept : ∀ c, d.MarksPresent c → c ∈ s.held ∨ c ∈ s'.created → c ∈ s'.held
  reported : ∀ r ∈ s'.checkpointReports, r.state = .ready → r.checkpointId ∈ s'.held

/-- **When a pass keeps it**, whatever the storage server answers. -/
structure Harmless (d : HostDesiredState) (s : CheckpointStore)
    (latest : Option HostDesiredState) (trigger : Trigger) (listed : Bool) : Prop where
  /-- No checkpoint wanted is one the exports of the pass delete, -/
  present : ∀ c, d.MarksPresent c →
    PassedOver (planReconcile d (s.observe d listed)) trigger c
  /-- nor one held, unless it is theirs or the document marks it absent. -/
  held : ∀ c ∈ s.held, PassedOver (planReconcile d (s.observe d listed)) trigger c ∨
    d.MarksAbsent c ∨ s.isExported c = true
  /-- The listing the pass plans from is answered, or nothing held is wanted. -/
  answered : listed = false → ∀ c, d.MarksPresent c → c ∉ s.held
  /-- No checkpoint listed there is marked both, -/
  consistent : ∀ c, IsListed s listed c → d.MarksPresent c → ¬ d.MarksAbsent c
  /-- and no other is marked present twice. -/
  once : ∀ c, ¬ IsListed s listed c → d.presentIds.count c ≤ 1
  /-- The document accepted last marks none present that this one marks absent, unless it is held
  all the same and stays. -/
  latest : ∀ c, d.MarksAbsent c → (∃ u, planSubject latest c = some u ∧ u.desiredState = .present) →
    c ∈ s.held ∧ (listed = true ∨ PassedOver (planReconcile d (s.observe d listed)) trigger c)

/-- The exports of a pass keep to what they may delete, and leave what they pass over. -/
private theorem keepsTo_applyExports {trigger : Trigger} {plan : ReconcilePlan}
    (hheld : ∀ c ∈ s.held, PassedOver plan trigger c ∨ d.MarksAbsent c ∨ s.isExported c = true)
    (answers : CheckpointPassAnswers) :
    (∀ x ∈ (s.applyExports plan trigger answers).deletions,
        x ∈ s.deletions ∨ d.MarksAbsent x.checkpointId ∨ x.exported = true) ∧
      (∀ c ∈ s.held, PassedOver plan trigger c → c ∈ (s.applyExports plan trigger answers).held) ∧
      (∀ c ∈ (s.applyExports plan trigger answers).created,
        c ∈ s.created ∨ isExportCheckpoint c = true ∧ trigger ≠ .tick) ∧
      (s.applyExports plan trigger answers).checkpointReports = s.checkpointReports := by
  have hreaped := reaped_reap s plan answers.reapListed answers.reaped
  rw [applyExports]
  generalize s.reap plan answers.reapListed answers.reaped = s₂ at *
  have horphan : ∀ c ∈ s.orphans plan answers.reapListed,
      c ∈ s.held ∧ isExportCheckpoint c = true ∧ c ∉ inFlight plan := by
    intro c hc
    simp only [orphans, observeCheckpoints, List.mem_filter, decide_eq_true_eq] at hc
    obtain ⟨⟨hheld, hexport⟩, hflight⟩ := hc
    refine ⟨?_, hexport, hflight⟩
    split at hheld
    · exact hheld
    · cases hheld
  have hreapedDeletions : ∀ x ∈ s₂.deletions,
      x ∈ s.deletions ∨ d.MarksAbsent x.checkpointId ∨ x.exported = true := by
    intro x hx
    refine (hreaped.deletions x hx).imp_right fun ⟨hmem, hx⟩ => ?_
    obtain ⟨hmem, hexport, hflight⟩ := horphan _ hmem
    rcases hheld _ hmem with hover | habsent | hcut
    · exact absurd (hover hexport).1 hflight
    · exact .inl habsent
    · exact .inr (hx.trans hcut)
  have hstays : ∀ c ∈ s.held, PassedOver plan trigger c → c ∈ s₂.held := by
    intro c hc hover
    refine (hreaped.others c fun hmem => ?_).mpr hc
    obtain ⟨-, hexport, hflight⟩ := horphan c hmem
    exact hflight (hover hexport).1
  by_cases htick : trigger = .tick
  · subst htick
    obtain ⟨reports, hsame⟩ := applyExportPlans_tick plan.exports answers.write s₂
    rw [hsame]
    exact ⟨hreapedDeletions, hstays, fun c hc => .inl (hreaped.created ▸ hc), hreaped.reports⟩
  · -- every write goes ahead, so that what is passed over is no export's
    have howned : Owned d.MarksAbsent s₂ := by
      intro c hc hexport
      rcases hheld c (hreaped.fewer c hc) with hover | habsent | hcut
      · exact absurd (hover hexport).2 htick
      · exact .inr habsent
      · exact .inl (by rw [isExported, hreaped.cutFor, ← isExported, hcut])
    obtain ⟨hdeletions, hothers, -, hcreated, hreports⟩ :=
      exportsApplied_applyExportPlans trigger plan.exports answers.write howned
    refine ⟨fun x hx => ?_, fun c hc hover => ?_, fun c hc => ?_, hreports.trans hreaped.reports⟩
    · rcases hdeletions x hx with hx | hx | hx
      · exact hreapedDeletions x hx
      · exact .inr (.inr hx)
      · exact .inr (.inl hx)
    · refine (hothers c ?_).mpr (hstays c hc hover)
      rw [Bool.eq_false_iff]
      exact fun hexport => htick (hover hexport).2
    · rw [← hreaped.created]
      exact (hcreated c hc).imp_right fun hexport => ⟨hexport, htick⟩

/-- A harmless pass keeps what the document wants. -/
theorem Harmless.keepsWanted {latest : Option HostDesiredState} {trigger : Trigger}
    (h : Harmless d s latest trigger listed) {answers : CheckpointPassAnswers}
    (hlisted : answers.listed = listed) :
    KeepsWanted d s (s.reconcile d latest trigger answers) := by
  subst hlisted
  rw [reconcile]
  have hplan : planReconcile d
      (observe { s with deletions := [], created := [] } d answers.listed) =
      planReconcile d (s.observe d answers.listed) := rfl
  rw [hplan]
  have hover := h.present
  have hkeptOver := h.held
  have hlatest := h.latest
  generalize hp : planReconcile d (s.observe d answers.listed) = plan at *
  have hactions : plan.checkpoints = s.checkpointPlan d answers.listed := by
    rw [← hp]
    exact planCheckpoints_eq d _
  -- what is created is not held, and what is deleted is not wanted
  have hfree : ∀ c ∈ plan.checkpoints.filterMap (·.creates), c ∉ s.held := by
    intro c hc hheld
    rw [hactions, mem_creates_iff] at hc
    cases hl : answers.listed with
    | false => exact h.answered hl c hc.1 hheld
    | true => exact hc.2 ⟨hl, hheld⟩
  have hwanted : ∀ c, d.MarksPresent c → c ∉ plan.checkpoints.filterMap (·.deletes) := by
    intro c hpresent hc
    rw [hactions, mem_deletes_iff] at hc
    exact h.consistent c hc.2 hpresent hc.1
  have hpresent : ∀ c ∈ plan.checkpoints.filterMap (·.creates), d.MarksPresent c := by
    intro c hc
    rw [hactions, mem_creates_iff] at hc
    exact hc.1
  have hnodup : (plan.checkpoints.filterMap (·.creates)).Nodup := by
    rw [hactions, creates_eq, List.nodup_iff_count_le_one]
    intro c
    by_cases hc : IsListed s answers.listed c
    · rw [List.count_eq_zero_of_not_mem]
      · exact Nat.zero_le 1
      · rw [List.mem_filter, hc.1, decide_eq_true hc.2]
        simp
    · exact (List.filter_sublist.count_le c).trans (h.once c hc)
  have happlied := @checkpointsApplied latest s.checkpointReports plan.checkpoints
    { s with deletions := [], created := [] } hnodup hfree
    (fun c hc => hwanted c (hpresent c hc)) answers.checkpoint
  unfold applyCheckpoints
  generalize applyCheckpointPlans latest s.checkpointReports plan.checkpoints answers.checkpoint
    { s with deletions := [], created := [] } = applied at *
  obtain ⟨s₁, reports⟩ := applied
  dsimp only at happlied ⊢
  have hheld : ∀ c ∈ s₁.held, PassedOver plan trigger c ∨ d.MarksAbsent c ∨
      s₁.isExported c = true := by
    intro c hc
    rcases happlied.held c hc with hold | hnew
    · rw [isExported, happlied.cutFor]
      exact hkeptOver c hold
    · exact .inl (hover c (hpresent c hnew))
  obtain ⟨hdeletions, hstays, hcreated, hreports⟩ :=
    @keepsTo_applyExports { s₁ with checkpointReports := reports } d trigger plan hheld answers
  refine ⟨fun x hx => ?_, fun c hc hwas => ?_, fun r hr hready => ?_⟩
  · rcases hdeletions x hx with hx | hx
    · rcases happlied.deletions x hx with hx | hx
      · cases hx
      · rw [hactions, mem_deletes_iff] at hx
        exact .inl hx.1
    · exact hx
  · have hc₁ : c ∈ s₁.held := by
      rcases hwas with hwas | hwas
      · exact happlied.kept c (hwanted c hc) hwas
      · rcases hcreated c hwas with hwas | ⟨hexport, htick⟩
        · exact (happlied.created c (hwanted c hc) hwas).resolve_left List.not_mem_nil
        · exact absurd (hover c hc hexport).2 htick
    exact hstays c hc₁ (hover c hc)
  · rw [hreports] at hr
    rcases happlied.reported r hr hready with ⟨hcreate, hc₁⟩ | ⟨hnone, u, hsubject, hu⟩
    · exact hstays _ hc₁ (hover _ (hpresent _ hcreate))
    · rw [hactions, mem_none_iff] at hnone
      rcases hnone with ⟨hc, hlisted⟩ | ⟨habsent, hlisted⟩
      · exact hstays _ (happlied.kept _ (hwanted _ hc) hlisted.2) (hover _ hc)
      · obtain ⟨hc, hleft⟩ := hlatest _ habsent ⟨u, hsubject, hu⟩
        have hnot : r.checkpointId ∉ plan.checkpoints.filterMap (·.deletes) := by
          rw [hactions, mem_deletes_iff]
          exact fun h => hlisted h.2
        refine hstays _ (happlied.kept _ hnot hc) (hleft.resolve_left fun hl => hlisted ⟨hl, hc⟩)

end CheckpointStore

end Nibrunner

import Nibrunner.Proxy.HttpLog

/-!
# A discarded log is gone

When a discard of an app returns, nothing of a request that began before it is in the app's files
any more, and nothing of one is written to them later, whatever requests, discards and the writer
do in between (`discarded_gone`): the discard has cleared the flag of all requests there were before
its command reaches the writer, and the writer looks at the flag of a record behind the command.
-/

namespace Nibrunner.HttpLog

open Std Run

/-- The entry of a command, if it is a record's. -/
def HttpLogCommand.entry? : HttpLogCommand → Option Entry
  | .record entry => some entry
  | .discard .. => none

namespace HttpLogState

/-! ### The writer's files -/

/-- Only the files of one app are touched. -/
structure Touches (appId : AppId) (s t : HttpLogState) : Prop where
  rest : t = { s with files := t.files, disk := t.disk }
  others : ∀ other, other ≠ appId → t.disk other = s.disk other

/-- ... and no more is kept in them than its end. -/
structure Cuts (appId : AppId) (s t : HttpLogState) : Prop extends Touches appId s t where
  kept : (t.disk appId).kept <:+ (s.disk appId).kept

section Writer

variable {appId : AppId} {s t u : HttpLogState}

theorem Touches.refl (appId : AppId) (s : HttpLogState) : Touches appId s s := ⟨rfl, fun _ _ => rfl⟩

theorem Touches.trans (h : Touches appId s t) (h' : Touches appId t u) : Touches appId s u where
  rest := by rw [h'.rest, h.rest]
  others other hother := (h'.others other hother).trans (h.others other hother)

theorem Cuts.refl (appId : AppId) (s : HttpLogState) : Cuts appId s s :=
  ⟨.refl appId s, List.suffix_rfl⟩

theorem Cuts.trans (h : Cuts appId s t) (h' : Cuts appId t u) : Cuts appId s u :=
  ⟨h.toTouches.trans h'.toTouches, h'.kept.trans h.kept⟩

@[simp] theorem disk_setDisk_self (file : RotatedFile Written) :
    (s.setDisk appId file).disk appId = file := if_pos rfl

theorem touches_setDisk (file : RotatedFile Written) (files : ExtTreeMap AppId ℕ) :
    Touches appId s { s.setDisk appId file with files := files } :=
  ⟨rfl, fun _ hother => if_neg hother⟩

theorem cuts_setDisk {file : RotatedFile Written} (h : file.kept <:+ (s.disk appId).kept)
    (files : ExtTreeMap AppId ℕ) : Cuts appId s { s.setDisk appId file with files := files } :=
  ⟨touches_setDisk file files, by
    show ((s.setDisk appId file).disk appId).kept <:+ _
    rwa [disk_setDisk_self]⟩

theorem cuts_openFile {opens : Bool} (h : s.openFile appId opens = some t) : Cuts appId s t := by
  rw [openFile] at h
  split at h
  · cases h
    exact .refl appId s
  · split at h
    · cases h
      exact cuts_setDisk (by rw [RotatedFile.kept_create]) _
    · cases h

theorem cuts_cut (size room : ℕ) (io : WriteIo) : Cuts appId s (s.cut appId size room io).1 := by
  have hclosed : Cuts appId s { s with files := s.files.erase appId } :=
    ⟨⟨rfl, fun _ _ => rfl⟩, List.suffix_rfl⟩
  rw [cut]
  split
  · dsimp only
    split
    · exact hclosed
    · split
      · exact hclosed
      · have hrotated : Cuts appId s ({ s with files := s.files.erase appId }.setDisk appId
            (s.disk appId).rotate) :=
          hclosed.trans (cuts_setDisk RotatedFile.kept_rotate_suffix (s.files.erase appId))
        split
        · rename_i hopen
          exact hrotated.trans (cuts_openFile hopen)
        · exact hrotated
  · exact .refl appId s

/-- The writer leaves what an app's files held, or the end of it, with the front of the record's
line behind it. -/
theorem writeRecord_spec (render : HttpRequestRecord → List UInt8) (entry : Entry) (io : WriteIo) :
    Touches entry.scope.appId s (s.writeRecord render entry io) ∧
      ∃ front more, front <:+ (s.disk entry.scope.appId).kept ∧
        ((s.writeRecord render entry io).disk entry.scope.appId).kept = front ++ more ∧
          (more = [] ∨ more = [⟨some entry, (line render entry.record).take io.taken⟩]) := by
  have hcuts {t : HttpLogState} (h : Cuts entry.scope.appId s t) :
      Touches entry.scope.appId s t ∧ ∃ front more, front <:+ (s.disk entry.scope.appId).kept ∧
        (t.disk entry.scope.appId).kept = front ++ more ∧
          (more = [] ∨ more = [⟨some entry, (line render entry.record).take io.taken⟩]) :=
    ⟨h.toTouches, _, [], h.kept, (List.append_nil _).symm, .inl rfl⟩
  rw [writeRecord]
  dsimp only
  split
  · exact hcuts (.refl _ s)
  · rename_i opened hopen
    have hready := (cuts_openFile hopen).trans (cuts_cut (opened.files.getD entry.scope.appId 0)
      (line render entry.record).length io)
    split
    · generalize (opened.cut entry.scope.appId (opened.files.getD entry.scope.appId 0)
        (line render entry.record).length io).1 = ready at hready
      rw [put]
      refine ⟨?_, _, _, hready.kept, ?_, .inr rfl⟩
      · split
        · exact hready.toTouches.trans (touches_setDisk _ _)
        · exact hready.toTouches.trans (touches_setDisk _ ready.files)
      · split
        · exact (congrArg RotatedFile.kept (disk_setDisk_self _)).trans
            (RotatedFile.kept_append _ _)
        · exact (congrArg RotatedFile.kept (disk_setDisk_self _)).trans
            (RotatedFile.kept_append _ _)
    · exact hcuts hready

end Writer

/-! ### What holds of a log -/

/-- The entries that are handed over and not worked off, in their order. -/
def pending (s : HttpLogState) : List Entry :=
  s.writing.toList ++ (s.batch ++ s.queue).filterMap HttpLogCommand.entry?

/-- The entries that an app's files hold lines of, and those still to be worked off. -/
def entries (s : HttpLogState) (appId : AppId) : List Entry :=
  (s.disk appId).kept.filterMap Written.entry ++ s.pending

/-- The write is of a request that began when there was a flag past a number. -/
def Since (bound : ℕ) (w : Written) : Prop :=
  ∃ entry, w.entry = some entry ∧ bound ≤ entry.scope.active

structure Consistent (render : HttpRequestRecord → List UInt8) (s : HttpLogState) : Prop where
  /-- An app's flag is the one of its flags that is set. -/
  flag_iff : ∀ (appId : AppId) (active : ℕ),
    s.apps[appId]? = some active ↔ s.flags[active]? = some (appId, true)
  /-- The flags there were of an app before a discard are cleared. -/
  cleared : ∀ t ∈ s.tickets, ∀ active set,
    active < t.bound → s.flags[active]? = some (t.appId, set) → set = false
  bound_le : ∀ t ∈ s.tickets, t.bound ≤ s.flags.length
  /-- The flag of a scope is one of its app. -/
  owned : ∀ scope, scope ∈ s.scopes ∨ (∃ entry ∈ s.pending, entry.scope = scope) →
    ∃ set, s.flags[scope.active]? = some (scope.appId, set)
  /-- A command to discard is that of a ticket. -/
  commands : ∀ appId ticket, .discard appId ticket ∈ s.batch ++ s.queue →
    ∃ t, s.tickets[ticket]? = some t ∧ t.appId = appId
  /-- A discard that is done has left no write of an older request, and none is under way. -/
  fresh : ∀ t ∈ s.tickets, t.stage = .done true →
    (∀ w ∈ (s.disk t.appId).kept, Since t.bound w) ∧
      ∀ entry ∈ s.writing.toList, entry.scope.appId = t.appId → t.bound ≤ entry.scope.active
  /-- What a file holds of an entry is the front of its line, and in the files of its app. -/
  lines : ∀ appId, ∀ w ∈ (s.disk appId).kept, ∀ entry, w.entry = some entry →
    entry.scope.appId = appId ∧ w.bytes <+: line render entry.record
  /-- The lines are in the order their records were handed over in, each once. -/
  ordered : ∀ appId, ((s.entries appId).map Entry.number ++ [s.sent]).Pairwise (· < ·)

section Steps

variable {render : HttpRequestRecord → List UInt8} {s t : HttpLogState}

theorem entry_of_mem_initial {disk : AppId → RotatedFile (List UInt8)} {appId : AppId} {w : Written}
    (hw : w ∈ ((initial disk).disk appId).kept) : w.entry = none := by
  rw [initial, RotatedFile.kept, List.mem_append] at hw
  have hfile {file : Option (List (List UInt8))}
      (hw : w ∈ (file.map (·.map (Written.mk none))).getD []) : w.entry = none := by
    cases file with
    | none => cases hw
    | some lines =>
      obtain ⟨bytes, -, rfl⟩ := List.mem_map.mp hw
      rfl
  exact hw.elim hfile hfile

theorem consistent_initial (disk : AppId → RotatedFile (List UInt8)) :
    Consistent render (initial disk) where
  flag_iff appId active := by simp [initial]
  cleared t ht := by cases ht
  bound_le t ht := by cases ht
  owned scope h := by
    rcases h with h | ⟨entry, h, -⟩
    · cases h
    · cases h
  commands appId ticket h := by cases h
  fresh t ht := by cases ht
  lines appId w hw entry hentry := by
    rw [entry_of_mem_initial hw] at hentry
    cases hentry
  ordered appId := by
    have hnone : (((initial disk).disk appId).kept.filterMap Written.entry) = [] :=
      List.filterMap_eq_nil_iff.mpr fun w hw => entry_of_mem_initial hw
    rw [entries, hnone]
    exact List.pairwise_singleton _ _

/-- A step that keeps the flags, the discards and the files, and hands on or drops some of what is
pending. -/
theorem Consistent.of_pending (h : Consistent render s) (happs : t.apps = s.apps)
    (hflags : t.flags = s.flags) (htickets : t.tickets = s.tickets) (hdisk : t.disk = s.disk)
    (hsent : t.sent = s.sent) (hscopes : t.scopes ⊆ s.scopes)
    (hpending : t.pending.Sublist s.pending)
    (hcommands : ∀ appId ticket, .discard appId ticket ∈ t.batch ++ t.queue →
      .discard appId ticket ∈ s.batch ++ s.queue)
    (hwriting : ∀ entry ∈ t.writing.toList, entry ∈ s.writing.toList ∨
      s.flags[entry.scope.active]? = some (entry.scope.appId, true)) :
    Consistent render t where
  flag_iff := by rw [happs, hflags]; exact h.flag_iff
  cleared := by rw [hflags, htickets]; exact h.cleared
  bound_le := by rw [hflags, htickets]; exact h.bound_le
  owned scope hscope := by
    rw [hflags]
    refine h.owned scope (hscope.imp (fun h => hscopes h) ?_)
    rintro ⟨entry, hentry, hsame⟩
    exact ⟨entry, hpending.subset hentry, hsame⟩
  commands appId ticket hcommand := by
    rw [htickets]
    exact h.commands appId ticket (hcommands appId ticket hcommand)
  fresh ticket hticket hdone := by
    rw [htickets] at hticket
    rw [hdisk]
    obtain ⟨hkept, hold⟩ := h.fresh ticket hticket hdone
    refine ⟨hkept, fun entry hentry happ => ?_⟩
    rcases hwriting entry hentry with hentry | hset
    · exact hold entry hentry happ
    · -- a flag that is set is none of those before a discard
      by_contra hlt
      have hclear := h.cleared ticket hticket _ _ (Nat.lt_of_not_le hlt) (happ ▸ hset)
      cases hclear
  lines := by rw [hdisk]; exact h.lines
  ordered appId := by
    refine (h.ordered appId).sublist ?_
    rw [hsent, entries, entries, hdisk]
    exact (((List.Sublist.refl _).append hpending).map _).append (List.Sublist.refl _)

theorem Consistent.begin_ (h : Consistent render s) (appId : AppId) :
    Consistent render (s.begin_ appId) := by
  rw [HttpLogState.begin_]
  split
  · rename_i active hactive
    refine { h with owned := fun scope hscope => ?_ }
    rcases hscope with hscope | hscope
    · rcases List.mem_cons.mp hscope with rfl | hscope
      · exact ⟨true, (h.flag_iff _ _).mp hactive⟩
      · exact h.owned scope (.inl hscope)
    · exact h.owned scope (.inr hscope)
  · rename_i hnone
    have hlookup (active : ℕ) : (s.flags ++ [(appId, true)])[active]? =
        if active = s.flags.length then some (appId, true) else s.flags[active]? := by
      split
      · rename_i heq
        rw [heq, List.getElem?_concat_length]
      · rename_i hne
        rcases Nat.lt_or_gt_of_ne hne with hlt | hgt
        · exact List.getElem?_append_left hlt
        · rw [List.getElem?_eq_none (by simp; omega), List.getElem?_eq_none (Nat.le_of_lt hgt)]
    refine { h with flag_iff := ?_, cleared := ?_, bound_le := ?_, owned := ?_ }
    · intro other active
      dsimp only
      rw [ExtTreeMap.getElem?_insert_ite, hlookup]
      split
      · rename_i happ
        subst happ
        split
        · rename_i hactive
          rw [hactive]
          exact iff_of_true rfl rfl
        · rename_i hne
          rw [← h.flag_iff, hnone]
          exact iff_of_false (fun hsame => hne (Option.some.inj hsame).symm) (by simp)
      · rename_i happ
        split
        · rename_i hactive
          refine iff_of_false (fun hsome => ?_) fun hsame =>
            happ (Prod.mk.inj (Option.some.inj hsame)).1
          have hflag := (h.flag_iff _ _).mp hsome
          rw [hactive, List.getElem?_eq_none (Nat.le_refl _)] at hflag
          cases hflag
        · exact h.flag_iff _ _
    · intro ticket hticket active set hlt hset
      have hold := Nat.lt_of_lt_of_le hlt (h.bound_le ticket hticket)
      rw [hlookup, if_neg (Nat.ne_of_lt hold)] at hset
      exact h.cleared ticket hticket active set hlt hset
    · intro ticket hticket
      have hle := h.bound_le ticket hticket
      rw [List.length_append]
      omega
    · intro scope hscope
      have hnew : scope = ⟨appId, s.flags.length⟩ ∨ ∃ set, s.flags[scope.active]? =
          some (scope.appId, set) := by
        rcases hscope with hscope | hscope
        · rcases List.mem_cons.mp hscope with rfl | hscope
          · exact .inl rfl
          · exact .inr (h.owned scope (.inl hscope))
        · exact .inr (h.owned scope (.inr hscope))
      dsimp only
      rcases hnew with rfl | ⟨set, hset⟩
      · exact ⟨true, by rw [hlookup, if_pos rfl]⟩
      · have hlt := (List.getElem?_eq_some_iff.mp hset).1
        exact ⟨set, by rw [hlookup, if_neg (Nat.ne_of_lt hlt)]; exact hset⟩

theorem Consistent.record (h : Consistent render s) (scope : HttpRequestScope)
    (record : HttpRequestRecord) : Consistent render (s.record scope record) := by
  rw [HttpLogState.record]
  split
  · rename_i hscope
    dsimp only
    split
    · have hpending : s.writing.toList ++
          (s.batch ++ (s.queue ++ [HttpLogCommand.record ⟨s.sent, scope, record⟩])).filterMap
            HttpLogCommand.entry? = s.pending ++ [⟨s.sent, scope, record⟩] := by
        rw [pending, ← List.append_assoc, List.filterMap_append, List.append_assoc]
        rfl
      refine { h with owned := ?_, commands := ?_, ordered := ?_ }
      · intro other hother
        dsimp only [pending] at hother
        rw [hpending] at hother
        rcases hother with hother | ⟨entry, hentry, rfl⟩
        · exact h.owned other (.inl (List.erase_subset hother))
        · rcases List.mem_append.mp hentry with hentry | hentry
          · exact h.owned _ (.inr ⟨entry, hentry, rfl⟩)
          · rw [List.mem_singleton.mp hentry]
            exact h.owned scope (.inl hscope)
      · intro appId ticket hcommand
        refine h.commands appId ticket ?_
        dsimp only at hcommand
        rw [← List.append_assoc, List.mem_append, List.mem_singleton] at hcommand
        exact hcommand.resolve_right fun hsame => by cases hsame
      · intro appId
        have hordered := h.ordered appId
        dsimp only [entries, pending]
        rw [hpending, ← List.append_assoc, List.map_append, List.map_singleton]
        refine List.pairwise_append.mpr ⟨hordered, List.pairwise_singleton _ _, ?_⟩
        intro number hnumber last hlast
        rw [List.mem_singleton.mp hlast]
        rcases List.mem_append.mp hnumber with hnumber | hnumber
        · have hlt := (List.pairwise_append.mp hordered).2.2 number hnumber s.sent
            List.mem_cons_self
          exact Nat.lt_succ_of_lt hlt
        · rw [List.mem_singleton.mp hnumber]
          exact Nat.lt_succ_self _
    · exact h.of_pending rfl rfl rfl rfl rfl List.erase_subset (List.Sublist.refl _)
        (fun _ _ h => h) fun _ hentry => .inl hentry
  · exact h

theorem Consistent.abandon (h : Consistent render s) (scope : HttpRequestScope) :
    Consistent render (s.abandon scope) :=
  h.of_pending rfl rfl rfl rfl rfl List.erase_subset (List.Sublist.refl _)
    (fun _ _ h => h) fun _ hentry => .inl hentry

theorem Consistent.discard (h : Consistent render s) (appId : AppId) :
    Consistent render (s.discard appId) := by
  have hticket {t : HttpLogState} (happs : t.apps = s.apps.erase appId)
      (hflags : ∀ active : ℕ, t.flags[active]? = if s.apps[appId]? = some active
        then some (appId, false) else s.flags[active]?)
      (hlength : t.flags.length = s.flags.length)
      (htickets : t.tickets = s.tickets ++ [⟨appId, s.flags.length, .sending⟩])
      (hrest : t = { s with apps := t.apps, flags := t.flags, tickets := t.tickets }) :
      Consistent render t := by
    have hkept {active : ℕ} {other : AppId} {set : Bool}
        (hset : t.flags[active]? = some (other, set)) :
        s.apps[appId]? = some active ∧ other = appId ∧ set = false ∨
          s.apps[appId]? ≠ some active ∧ s.flags[active]? = some (other, set) := by
      rw [hflags] at hset
      split at hset
      · obtain ⟨rfl, rfl⟩ := Prod.mk.inj (Option.some.inj hset)
        exact .inl ⟨‹_›, rfl, rfl⟩
      · exact .inr ⟨‹_›, hset⟩
    rw [hrest] at happs hflags hlength htickets ⊢
    refine { h with
      flag_iff := ?_, cleared := ?_, bound_le := ?_, owned := ?_, commands := ?_, fresh := ?_ }
    · intro other active
      dsimp only
      rw [happs, hflags, ExtTreeMap.getElem?_erase_ite]
      split
      · rename_i happ
        subst happ
        refine iff_of_false (by simp) ?_
        split
        · exact fun hsame => by cases hsame
        · rename_i hne
          exact fun hsame => hne ((h.flag_iff _ _).mpr hsame)
      · rename_i happ
        split
        · rename_i hactive
          refine iff_of_false (fun hsome => ?_) fun hsame =>
            happ (Prod.mk.inj (Option.some.inj hsame)).1
          have hflag := (h.flag_iff _ _).mp hsome
          rw [(h.flag_iff _ _).mp hactive] at hflag
          exact happ (Prod.mk.inj (Option.some.inj hflag)).1
        · exact h.flag_iff _ _
    · intro ticket hticket active set hlt hset
      rcases hkept hset with ⟨-, -, hclear⟩ | ⟨hne, hold⟩
      · exact hclear
      · dsimp only at hticket
        rw [htickets] at hticket
        rcases List.mem_append.mp hticket with hticket | hticket
        · exact h.cleared ticket hticket active set hlt hold
        · rw [List.mem_singleton.mp hticket] at hold
          rw [← Bool.not_eq_true]
          rintro rfl
          exact hne ((h.flag_iff _ _).mpr hold)
    · intro ticket hticket
      dsimp only at hticket ⊢
      rw [hlength]
      rw [htickets] at hticket
      rcases List.mem_append.mp hticket with hticket | hticket
      · exact h.bound_le ticket hticket
      · rw [List.mem_singleton.mp hticket]
    · intro scope hscope
      obtain ⟨set, hset⟩ := h.owned scope hscope
      dsimp only
      rw [hflags]
      split
      · rename_i hactive
        rw [(h.flag_iff _ _).mp hactive] at hset
        exact ⟨false, by rw [(Prod.mk.inj (Option.some.inj hset)).1]⟩
      · exact ⟨set, hset⟩
    · intro other ticket hcommand
      obtain ⟨t', ht', happ⟩ := h.commands other ticket hcommand
      dsimp only
      rw [htickets]
      exact ⟨t', by rw [List.getElem?_append_left (List.getElem?_eq_some_iff.mp ht').1, ht'], happ⟩
    · intro ticket hticket hdone
      dsimp only at hticket
      rw [htickets] at hticket
      rcases List.mem_append.mp hticket with hticket | hticket
      · exact h.fresh ticket hticket hdone
      · rw [List.mem_singleton.mp hticket] at hdone
        cases hdone
  rw [HttpLogState.discard]
  dsimp only
  split
  · rename_i active hactive
    have hlt := (List.getElem?_eq_some_iff.mp ((h.flag_iff _ _).mp hactive)).1
    refine hticket rfl (fun other => ?_) (List.length_set ..) rfl rfl
    dsimp only
    rw [List.getElem?_set, hactive]
    by_cases heq : active = other
    · subst heq
      rw [if_pos rfl, if_pos hlt, if_pos rfl]
    · rw [if_neg heq, if_neg fun hsame => heq (Option.some.inj hsame)]
  · rename_i hnone
    refine hticket ?_ (fun other => ?_) rfl rfl rfl
    · refine ExtTreeMap.ext_getElem? fun other => ?_
      rw [ExtTreeMap.getElem?_erase_ite]
      split
      · rename_i heq
        rw [← heq, hnone]
      · rfl
    · dsimp only
      rw [hnone, if_neg (by simp)]

/-- What a discard comes to changes neither its app nor the flags there were. -/
theorem mem_setStage {ticket : ℕ} {stage : TicketStage} {t' : Ticket}
    (h : t' ∈ (s.setStage ticket stage).tickets) :
    ∃ t ∈ s.tickets, t'.appId = t.appId ∧ t'.bound = t.bound ∧
      (t'.stage = t.stage ∨ s.tickets[ticket]? = some t ∧ t'.stage = stage) := by
  obtain ⟨i, hi⟩ := List.mem_iff_getElem?.mp h
  rw [setStage, List.getElem?_modify] at hi
  obtain ⟨t, ht, hsame⟩ := Option.map_eq_some_iff.mp hi
  refine ⟨t, List.mem_of_getElem? ht, ?_⟩
  split at hsame
  · rename_i heq
    subst heq
    cases hsame
    exact ⟨rfl, rfl, .inr ⟨ht, rfl⟩⟩
  · cases hsame
    exact ⟨rfl, rfl, .inl rfl⟩

theorem getElem?_setStage {i : ℕ} (ticket : ℕ) (stage : TicketStage) {t : Ticket}
    (h : s.tickets[i]? = some t) :
    ∃ t', (s.setStage ticket stage).tickets[i]? = some t' ∧ t'.appId = t.appId := by
  rw [setStage, List.getElem?_modify, h]
  refine ⟨_, rfl, ?_⟩
  split
  · rfl
  · rfl

/-- A discard comes to its next stage. -/
theorem Consistent.setStage (h : Consistent render s) (ticket : ℕ) (stage : TicketStage)
    (hdone : ∀ t, s.tickets[ticket]? = some t → stage = .done true →
      (s.disk t.appId).kept = [] ∧ s.writing = none) :
    Consistent render (s.setStage ticket stage) := by
  refine { h with cleared := ?_, bound_le := ?_, commands := ?_, fresh := ?_ }
  · intro t' ht' active set hlt hset
    obtain ⟨t, ht, happ, hbound, -⟩ := mem_setStage ht'
    rw [happ] at hset
    exact h.cleared t ht active set (hbound ▸ hlt) hset
  · intro t' ht'
    obtain ⟨t, ht, -, hbound, -⟩ := mem_setStage ht'
    rw [hbound]
    exact h.bound_le t ht
  · intro appId i hcommand
    obtain ⟨t, ht, happ⟩ := h.commands appId i hcommand
    obtain ⟨t', ht', hsame⟩ := getElem?_setStage ticket stage ht
    exact ⟨t', ht', hsame.trans happ⟩
  · intro t' ht' hstage
    obtain ⟨t, ht, happ, hbound, hsame⟩ := mem_setStage ht'
    rw [happ, hbound]
    rcases hsame with hsame | ⟨hticket, hsame⟩
    · exact h.fresh t ht (hsame ▸ hstage)
    · obtain ⟨hkept, hwriting⟩ := hdone t hticket (hsame.symm.trans hstage)
      refine ⟨fun w hw => ?_, fun entry hentry => ?_⟩
      · change w ∈ (s.disk t.appId).kept at hw
        rw [hkept] at hw
        cases hw
      · change entry ∈ s.writing.toList at hentry
        rw [hwriting] at hentry
        cases hentry

theorem Consistent.send (h : Consistent render s) (ticket : ℕ) :
    Consistent render (s.send ticket) := by
  rw [HttpLogState.send]
  split
  · rename_i appId bound hticket
    split
    · have hstaged := h.setStage ticket .queued fun _ _ hdone => by cases hdone
      have hpending : (s.batch ++ (s.queue ++ [HttpLogCommand.discard appId ticket])).filterMap
          HttpLogCommand.entry? = (s.batch ++ s.queue).filterMap HttpLogCommand.entry? := by
        rw [← List.append_assoc, List.filterMap_append]
        exact List.append_nil _
      refine { hstaged with owned := ?_, commands := ?_, ordered := ?_ }
      · intro scope hscope
        dsimp only [pending, HttpLogState.setStage] at hscope
        rw [hpending] at hscope
        exact h.owned scope hscope
      · intro other i hcommand
        dsimp only [HttpLogState.setStage] at hcommand
        rw [← List.append_assoc, List.mem_append, List.mem_singleton] at hcommand
        rcases hcommand with hcommand | hsame
        · exact hstaged.commands other i hcommand
        · cases hsame
          exact getElem?_setStage ticket _ hticket
      · intro other
        have hordered := h.ordered other
        dsimp only [entries, pending, HttpLogState.setStage]
        rw [hpending]
        exact hordered
    · exact h
  · exact h

theorem Consistent.take (h : Consistent render s) : Consistent render s.take := by
  rw [HttpLogState.take]
  split
  · rename_i command queue hqueue
    split
    · have hsame : s.batch ++ [command] ++ queue = s.batch ++ s.queue := by
        rw [hqueue, List.append_assoc]
        rfl
      refine h.of_pending rfl rfl rfl rfl rfl (List.Subset.refl _) ?_ ?_ fun _ hentry => .inl hentry
      · dsimp only [pending]
        rw [hsame]
      · intro appId ticket hcommand
        dsimp only at hcommand
        rwa [hsame] at hcommand
    · exact h
  · exact h

theorem Consistent.work (h : Consistent render s) : Consistent render s.work := by
  rw [HttpLogState.work]
  split
  · exact h
  · exact h.of_pending rfl rfl rfl rfl rfl (List.Subset.refl _) (List.Sublist.refl _)
      (fun _ _ h => h) fun _ hentry => .inl hentry

/-- An app's files are removed, or some of them. -/
theorem Consistent.removeFiles (h : Consistent render s) (appId : AppId)
    (current previous : Bool) : Consistent render (s.removeFiles appId current previous) := by
  have hkept (other : AppId) :
      ((s.removeFiles appId current previous).disk other).kept.Sublist (s.disk other).kept := by
    dsimp only [HttpLogState.removeFiles, HttpLogState.setDisk]
    split
    · rename_i heq
      rw [heq]
      exact RotatedFile.kept_remove_sublist current previous
    · exact List.Sublist.refl _
  refine { h with fresh := ?_, lines := ?_, ordered := ?_ }
  · intro ticket hticket hdone
    obtain ⟨hfiles, hwriting⟩ := h.fresh ticket hticket hdone
    exact ⟨fun w hw => hfiles w ((hkept _).subset hw), hwriting⟩
  · intro other w hw entry hentry
    exact h.lines other w ((hkept other).subset hw) entry hentry
  · intro other
    exact (h.ordered other).sublist
      (((((hkept other).filterMap _).append (List.Sublist.refl _)).map _).append
        (List.Sublist.refl _))

theorem Consistent.next (h : Consistent render s) (current previous : Bool) :
    Consistent render (s.next current previous) := by
  rw [HttpLogState.next]
  split
  · exact h
  · rename_i hidle
    have hwriting : s.writing = none := by simpa using hidle
    split
    · rename_i entry batch hworking hbatch
      have hpending : s.pending = entry :: (batch ++ s.queue).filterMap HttpLogCommand.entry? := by
        rw [pending, hwriting, hbatch]
        rfl
      have hcommands : ∀ appId ticket, HttpLogCommand.discard appId ticket ∈ batch ++ s.queue →
          .discard appId ticket ∈ s.batch ++ s.queue := by
        intro appId ticket hcommand
        rw [hbatch]
        exact List.mem_cons_of_mem _ hcommand
      dsimp only
      split
      · rename_i hset
        refine h.of_pending rfl rfl rfl rfl rfl (List.Subset.refl _) ?_ hcommands ?_
        · rw [hpending]
          exact List.Sublist.refl _
        · intro other hother
          cases List.mem_singleton.mp hother
          obtain ⟨set, hflag⟩ := h.owned entry.scope (.inr ⟨entry, by rw [hpending]; simp, rfl⟩)
          rw [hflag] at hset
          exact .inr (by rw [hflag]; exact congrArg (fun set => some (_, set)) hset)
      · refine h.of_pending rfl rfl rfl rfl rfl (List.Subset.refl _) ?_ hcommands
          fun _ hentry => .inl hentry
        rw [hpending]
        dsimp only [pending]
        rw [hwriting]
        exact List.sublist_cons_self _ _
    · rename_i appId ticket batch hworking hbatch
      have hnext : Consistent render { s with batch := batch, working := batch ≠ [] } := by
        refine h.of_pending rfl rfl rfl rfl rfl (List.Subset.refl _) ?_ ?_
          fun _ hentry => .inl hentry
        · dsimp only [pending]
          rw [hbatch]
          exact List.Sublist.refl _
        · intro other i hcommand
          rw [hbatch]
          exact List.mem_cons_of_mem _ hcommand
      refine (hnext.removeFiles appId current previous).setStage ticket _ fun t ht hdone => ?_
      obtain ⟨t', ht', happ⟩ := h.commands appId ticket (by rw [hbatch]; simp)
      obtain rfl : t = t' := Option.some.inj (ht.symm.trans ht')
      have hboth : current = true ∧ previous = true := by
        simpa using TicketStage.done.inj hdone
      refine ⟨?_, hwriting⟩
      rw [hboth.1, hboth.2, happ]
      dsimp only [HttpLogState.removeFiles]
      rw [disk_setDisk_self, RotatedFile.kept_remove]
    · exact h

theorem Consistent.write (h : Consistent render s) (io : WriteIo) :
    Consistent render (s.write render io) := by
  rw [HttpLogState.write]
  split
  · rename_i entry hwriting
    dsimp only
    generalize hidle : ({ s with writing := none, working := s.batch ≠ [] } : HttpLogState) = idle
    obtain ⟨⟨hrest, hothers⟩, front, more, hfront, hkept, hmore⟩ :=
      writeRecord_spec (s := idle) render entry io
    subst hidle
    generalize HttpLogState.writeRecord _ render entry io = t at hrest hothers hkept
    have hpending : s.pending = entry :: (s.batch ++ s.queue).filterMap HttpLogCommand.entry? := by
      rw [pending, hwriting]
      rfl
    have hwritten : entry ∈ s.writing.toList := by rw [hwriting]; exact List.mem_cons_self
    have hmem {w : Written} (hw : w ∈ (t.disk entry.scope.appId).kept) :
        w ∈ (s.disk entry.scope.appId).kept ∨
          w = ⟨some entry, (line render entry.record).take io.taken⟩ := by
      rw [hkept] at hw
      rcases List.mem_append.mp hw with hw | hw
      · exact .inl (hfront.subset hw)
      · rcases hmore with rfl | rfl
        · cases hw
        · exact .inr (List.mem_singleton.mp hw)
    rw [hrest]
    refine { h with owned := ?_, fresh := ?_, lines := ?_, ordered := ?_ }
    · intro scope hscope
      refine h.owned scope (hscope.imp_right ?_)
      rintro ⟨other, hother, hsame⟩
      exact ⟨other, by rw [hpending]; exact List.mem_cons_of_mem _ hother, hsame⟩
    · intro ticket hticket hdone
      obtain ⟨hfiles, hnew⟩ := h.fresh ticket hticket hdone
      refine ⟨fun w hw => ?_, fun other hother => by cases hother⟩
      by_cases happ : ticket.appId = entry.scope.appId
      · rw [happ] at hw
        rcases hmem hw with hw | rfl
        · exact hfiles w (by rwa [happ])
        · exact ⟨entry, rfl, hnew entry hwritten happ.symm⟩
      · exact hfiles w (by rwa [← hothers _ happ])
    · intro appId w hw other hother
      by_cases happ : appId = entry.scope.appId
      · rw [happ] at hw
        rcases hmem hw with hw | rfl
        · exact h.lines appId w (by rwa [happ]) other hother
        · cases hother
          exact ⟨happ.symm, List.take_prefix _ _⟩
      · exact h.lines appId w (by rwa [← hothers _ happ]) other hother
    · intro appId
      refine (h.ordered appId).sublist (((List.Sublist.map _ ?_)).append (List.Sublist.refl _))
      rw [entries, entries, hpending]
      by_cases happ : appId = entry.scope.appId
      · subst happ
        dsimp only
        rw [hkept, List.filterMap_append, List.append_assoc]
        refine (hfront.sublist.filterMap _).append ?_
        rcases hmore with rfl | rfl
        · exact List.sublist_cons_self _ _
        · exact List.Sublist.refl _
      · dsimp only
        rw [hothers _ happ]
        exact (List.Sublist.refl _).append (List.sublist_cons_self _ _)
  · exact h

end Steps

theorem Consistent.step {render : HttpRequestRecord → List UInt8} {s : HttpLogState}
    (h : Consistent render s) (label : Label) : Consistent render (s.step render label) := by
  cases label with
  | begin_ appId => exact h.begin_ appId
  | record scope record => exact h.record scope record
  | abandon scope => exact h.abandon scope
  | discard appId => exact h.discard appId
  | send ticket => exact h.send ticket
  | take => exact h.take
  | work => exact h.work
  | next current previous => exact h.next current previous
  | write io => exact h.write io

/-- **What a discard returned for is gone, and stays gone.** In every run of requests, discards and
the writer, over the files an earlier daemon left and whatever the filesystem answers: the files of
an app whose discard has removed them hold nothing but lines of requests that began after it; every
line of a record is in the files of its app and as it was rendered, or the front of it; and the
lines of an app are in the order in which their requests were answered, none of them twice. -/
theorem discarded_gone (render : HttpRequestRecord → List UInt8)
    (disk : AppId → RotatedFile (List UInt8)) (labels : List Label) :
    let s := run (step render) (initial disk) labels
    (∀ t ∈ s.tickets, t.stage = .done true → ∀ w ∈ (s.disk t.appId).kept,
        ∃ entry, w.entry = some entry ∧ t.bound ≤ entry.scope.active) ∧
      ∀ appId,
        (∀ w ∈ (s.disk appId).kept, ∀ entry, w.entry = some entry →
          entry.scope.appId = appId ∧ w.bytes <+: line render entry.record) ∧
        (((s.disk appId).kept.filterMap Written.entry).map Entry.number).Pairwise (· < ·) := by
  intro s
  have h : Consistent render s :=
    invariant (fun s label h => h.step label) (consistent_initial disk) labels
  refine ⟨fun t ht hdone => (h.fresh t ht hdone).1, fun appId => ⟨h.lines appId, ?_⟩⟩
  have hordered := h.ordered appId
  rw [entries, List.map_append, List.append_assoc] at hordered
  exact (List.pairwise_append.mp hordered).1

end HttpLogState

end Nibrunner.HttpLog

import Nibrunner.Logs.FileSink

/-!
# What is kept of a tenant's output

The files of an app are written and cut apart from those of every other (`view_writeEvent`). What
is in them is always some of what was written, in its order; as long as the filesystem does what it
is asked, it is **the newest of it**, at least as much as an app is kept and at most twice that and
a line, and **on disk when a batch is through** (`newest_kept`).
-/

namespace Nibrunner.TenantLogs

open Std GuestLogs Run

/-! ### One app's files -/

/-- The files of one app, all that was written for it, and its handle. -/
structure AppFiles where
  file : RotatedFile UInt8
  taken : List UInt8
  log : Option AppLog
deriving DecidableEq

namespace AppFiles

variable (v : AppFiles)

def openLog (io : EventIo) : Option AppFiles :=
  if v.log.isSome then some v
  else if !io.directory || !io.opens then none
  else some { v with file := v.file.create, log := some ⟨(v.file.current.getD []).length, 0⟩ }

def rotate (full : AppLog) (io : EventIo) : AppFiles :=
  let file := v.file.truncate (if io.flushes then 0 else min io.lost full.unflushed)
  { v with file := if io.renames then file.rotate else file, log := none }

def put (bytes : List UInt8) (buffered : ℕ) : AppFiles where
  file := v.file.append bytes
  taken := v.taken ++ bytes
  log := v.log.map fun log =>
    ⟨log.size + bytes.length, min buffered (log.unflushed + bytes.length)⟩

def writeLine (keep : ℕ) (line : List UInt8) (io : EventIo) : AppFiles × Bool :=
  match v.openLog io with
  | none => (v, false)
  | some v =>
    let v := v.put (line.take io.written) io.buffered
    if io.written < line.length then (v, false)
    else
      match v.log with
      | some log => if keep ≤ log.size then (v.rotate log io, true) else (v, true)
      | none => (v, true)

def unflushed : ℕ := v.log.elim 0 AppLog.unflushed

def letGo (lost : ℕ) : AppFiles where
  file := v.file.truncate (min lost v.unflushed)
  taken := v.taken.take (v.taken.length - min lost v.unflushed)
  log := none

def discard (lost : ℕ) (current previous : Bool) : AppFiles :=
  let file := (v.file.truncate (min lost v.unflushed)).remove current previous
  ⟨file, file.kept, none⟩

def flush (unflushed : ℕ) : AppFiles :=
  { v with log := v.log.map fun log => { log with unflushed := min unflushed log.unflushed } }

/-- A line that is taken whole is written. -/
theorem writeLine_written (keep : ℕ) {line : List UInt8} {io : EventIo}
    (hall : line.length ≤ io.written) (hdirectory : io.directory = true)
    (hopens : io.opens = true) : (v.writeLine keep line io).2 = true := by
  have hopen : ∃ w, v.openLog io = some w := by
    rw [openLog, hdirectory, hopens]
    split
    · exact ⟨v, rfl⟩
    · exact ⟨_, rfl⟩
  obtain ⟨w, hw⟩ := hopen
  rw [writeLine, hw]
  dsimp only
  rw [if_neg (Nat.not_lt.mpr hall)]
  split
  · split
    · rfl
    · rfl
  · rfl

end AppFiles

namespace FileLogSink

/-- What a sink has of an app. -/
def view (s : FileLogSink) (appId : AppId) : AppFiles :=
  ⟨s.disk appId, s.taken appId, s.writers[appId]?⟩

section Views

variable {s : FileLogSink} {appId other : AppId}

theorem view_of_ne {file : RotatedFile UInt8} {writers : ExtTreeMap AppId AppLog}
    (hwriters : writers[other]? = s.writers[other]?) (h : other ≠ appId) :
    ({ s.setDisk appId file with writers := writers } : FileLogSink).view other = s.view other := by
  simp only [view, setDisk, if_neg h, hwriters]

theorem view_openLog (s : FileLogSink) (appId : AppId) (io : EventIo) :
    (s.view appId).openLog io = (s.openLog appId io).map (·.view appId) ∧
      ∀ t, s.openLog appId io = some t → t.keepBytesPerApp = s.keepBytesPerApp ∧
        ∀ other, other ≠ appId → t.view other = s.view other := by
  have hopen : s.writers.contains appId = (s.view appId).log.isSome := by
    rw [view, ExtTreeMap.contains_eq_isSome_getElem?]
  rw [openLog, AppFiles.openLog, hopen]
  split
  · refine ⟨rfl, fun t ht => ?_⟩
    cases ht
    exact ⟨rfl, fun _ _ => rfl⟩
  · split
    · exact ⟨rfl, fun t ht => by cases ht⟩
    · refine ⟨?_, fun t ht => ?_⟩
      · simp only [Option.map_some, view, setDisk, if_true, ExtTreeMap.getElem?_insert_self]
      · cases ht
        refine ⟨rfl, fun other hother => view_of_ne ?_ hother⟩
        rw [ExtTreeMap.getElem?_insert_ite, if_neg (Ne.symm hother)]

theorem view_rotate (s : FileLogSink) (appId : AppId) (full : AppLog) (io : EventIo) :
    (s.rotate appId full io).view appId = (s.view appId).rotate full io ∧
      (s.rotate appId full io).keepBytesPerApp = s.keepBytesPerApp ∧
        ∀ other, other ≠ appId → (s.rotate appId full io).view other = s.view other := by
  refine ⟨?_, rfl, fun other hother => view_of_ne ?_ hother⟩
  · simp only [rotate, view, setDisk, if_true, AppFiles.rotate, ExtTreeMap.getElem?_erase_ite]
  · rw [ExtTreeMap.getElem?_erase_ite, if_neg (Ne.symm hother)]

theorem view_put (s : FileLogSink) (appId : AppId) (bytes : List UInt8) (buffered : ℕ) :
    (s.put appId bytes buffered).view appId = (s.view appId).put bytes buffered ∧
      (s.put appId bytes buffered).keepBytesPerApp = s.keepBytesPerApp ∧
        ∀ other, other ≠ appId → (s.put appId bytes buffered).view other = s.view other := by
  refine ⟨?_, rfl, fun other hother => ?_⟩
  · simp only [put, view, setDisk, if_true, AppFiles.put, ExtTreeMap.getElem?_modify_ite]
  · simp only [put, view, setDisk, if_neg hother, ExtTreeMap.getElem?_modify_ite,
      if_neg (Ne.symm hother)]

/-- An event is written to the files of its app, and to no other's. -/
theorem view_writeEvent (render : TenantLogEvent → List UInt8) (event : TenantLogEvent)
    (io : EventIo) :
    (s.view event.appId).writeLine s.keepBytesPerApp (line render event) io =
        ((s.writeEvent render event io).1.view event.appId, (s.writeEvent render event io).2) ∧
      (s.writeEvent render event io).1.keepBytesPerApp = s.keepBytesPerApp ∧
        ∀ other, other ≠ event.appId →
          (s.writeEvent render event io).1.view other = s.view other := by
  obtain ⟨hopened, hopen⟩ := view_openLog s event.appId io
  rw [writeEvent, AppFiles.writeLine, hopened]
  cases hsome : s.openLog event.appId io with
  | none => exact ⟨rfl, rfl, fun _ _ => rfl⟩
  | some opened =>
    obtain ⟨hkeep, hothers⟩ := hopen opened hsome
    obtain ⟨hput, hkeep', hothers'⟩ := view_put opened event.appId
      ((line render event).take io.written) io.buffered
    dsimp only [Option.map_some]
    generalize opened.put event.appId ((line render event).take io.written) io.buffered = written
      at hput hkeep' hothers'
    rw [← hput]
    have hsame : written.keepBytesPerApp = s.keepBytesPerApp ∧
        ∀ other, other ≠ event.appId → written.view other = s.view other :=
      ⟨hkeep'.trans hkeep, fun other hother =>
        (hothers' other hother).trans (hothers other hother)⟩
    split
    · exact ⟨rfl, hsame⟩
    · show (match written.writers[event.appId]? with
        | some log => if s.keepBytesPerApp ≤ log.size then
            ((written.view event.appId).rotate log io, true) else (written.view event.appId, true)
        | none => (written.view event.appId, true)) = _ ∧ _
      cases written.writers[event.appId]? with
      | none => exact ⟨rfl, hsame⟩
      | some log =>
        dsimp only
        rw [hsame.1]
        split
        · obtain ⟨hrotate, hkeep'', hothers''⟩ := view_rotate written event.appId log io
          exact ⟨by rw [hrotate], hkeep''.trans hsame.1, fun other hother =>
            (hothers'' other hother).trans (hsame.2 other hother)⟩
        · exact ⟨rfl, hsame⟩

/-- What a line keeps of an app's files, a batch does. -/
theorem writeEvents_induction {render : TenantLogEvent → List UInt8} {P : AppFiles → Prop}
    (events : List (TenantLogEvent × EventIo))
    (hline : ∀ event ∈ events, ∀ v, P v →
      P (v.writeLine s.keepBytesPerApp (line render event.1) event.2).1)
    (appId : AppId) (h : P (s.view appId)) :
    P ((writeEvents render events s).1.view appId) ∧
      (writeEvents render events s).1.keepBytesPerApp = s.keepBytesPerApp := by
  induction events generalizing s with
  | nil => exact ⟨h, rfl⟩
  | cons entry events ih =>
    obtain ⟨event, io⟩ := entry
    obtain ⟨hview, hkeep, hothers⟩ := view_writeEvent (s := s) render event io
    rw [writeEvents]
    dsimp only
    have hstep : P ((s.writeEvent render event io).1.view appId) := by
      by_cases happ : appId = event.appId
      · subst happ
        have hkept := hline (event, io) List.mem_cons_self _ h
        rwa [hview] at hkept
      · rwa [hothers appId happ]
    have hrest := ih (s := (s.writeEvent render event io).1)
      (fun event hevent v hv => by
        rw [hkeep]
        exact hline event (List.mem_cons_of_mem _ hevent) v hv) hstep
    exact ⟨hrest.1, hrest.2.trans hkeep⟩

/-- A batch touches the apps it wrote for to the end of a line, and leaves those alone that it has
no event of. -/
theorem writeEvents_touched (render : TenantLogEvent → List UInt8)
    (events : List (TenantLogEvent × EventIo)) (appId : AppId) :
    (∀ event ∈ events, event.1.appId = appId → (line render event.1).length ≤ event.2.written ∧
        event.2.directory = true ∧ event.2.opens = true) →
      appId ∈ (writeEvents render events s).2 ∨
        (writeEvents render events s).1.view appId = s.view appId := by
  induction events generalizing s with
  | nil => exact fun _ => .inr rfl
  | cons entry events ih =>
    obtain ⟨event, io⟩ := entry
    intro hgood
    obtain ⟨hview, hkeep, hothers⟩ := view_writeEvent (s := s) render event io
    rw [writeEvents]
    dsimp only
    by_cases happ : event.appId = appId
    · obtain ⟨hall, hdirectory, hopens⟩ := hgood (event, io) List.mem_cons_self happ
      have hwritten : (s.writeEvent render event io).2 = true := by
        have hgoes := AppFiles.writeLine_written (s.view event.appId) s.keepBytesPerApp hall
          hdirectory hopens
        rwa [hview] at hgoes
      rw [hwritten, if_pos rfl, happ]
      exact .inl List.mem_cons_self
    · rcases ih (s := (s.writeEvent render event io).1)
        (fun event hevent => hgood event (List.mem_cons_of_mem _ hevent)) with hmem | hsame
      · refine .inl ?_
        split
        · exact List.mem_cons_of_mem _ hmem
        · exact hmem
      · exact .inr (hsame.trans (hothers appId (Ne.symm happ)))

theorem view_flushLogs (touched : List AppId) (flush : FlushIo) (appId : AppId) :
    (s.flushLogs touched flush).view appId =
        (if appId ∈ touched then (s.view appId).flush (flush appId) else s.view appId) ∧
      (s.flushLogs touched flush).keepBytesPerApp = s.keepBytesPerApp := by
  induction touched generalizing s with
  | nil => exact ⟨rfl, rfl⟩
  | cons first touched ih =>
    obtain ⟨hview, hkeep⟩ := ih (s := { s with
      writers := s.writers.modify first fun log =>
        { log with unflushed := min (flush first) log.unflushed } })
    refine ⟨?_, hkeep⟩
    rw [flushLogs, List.foldl_cons, ← flushLogs, hview]
    simp only [view, AppFiles.flush, ExtTreeMap.getElem?_modify_ite, List.mem_cons]
    by_cases happ : first = appId
    · subst happ
      rw [if_pos rfl, if_pos (Or.inl rfl)]
      split
      · rw [Option.map_map]
        congr 1
        refine Option.map_congr fun log _ => ?_
        simp
      · rfl
    · rw [if_neg happ]
      simp only [Ne.symm happ, false_or]

theorem view_letGo (flush : FlushIo) (appId : AppId) :
    (s.letGo flush).view appId = (s.view appId).letGo (flush appId) := by
  simp only [letGo, view, AppFiles.letGo, AppFiles.unflushed, unflushed, ExtTreeMap.getElem?_empty]

theorem view_discard (s : FileLogSink) (appId : AppId) (lost : ℕ) (current previous : Bool)
    (other : AppId) :
    (s.discard appId lost current previous).view other =
      if other = appId then (s.view appId).discard lost current previous else s.view other := by
  split
  · rename_i happ
    subst happ
    simp only [discard, view, setDisk, if_true, AppFiles.discard, AppFiles.unflushed, unflushed,
      ExtTreeMap.getElem?_erase_ite]
  · rename_i happ
    simp only [discard, view, setDisk, if_neg happ, ExtTreeMap.getElem?_erase_ite,
      if_neg (Ne.symm happ)]

end Views

end FileLogSink

/-! ### What is kept -/

namespace AppFiles

variable {v w : AppFiles} {keep longest : ℕ} {io : EventIo}

/-- What is kept is some of what was written, in its order, and ends with what is in the buffer. -/
def Follows (v : AppFiles) : Prop :=
  ∃ front base tail, v.file.kept = front ++ tail ∧ v.taken = base ++ tail ∧ front.Sublist base ∧
    tail.length = v.unflushed ∧ v.unflushed ≤ (v.file.current.getD []).length

theorem Follows.sublist (h : v.Follows) : v.file.kept.Sublist v.taken := by
  obtain ⟨front, base, tail, hkept, htaken, hsub, -⟩ := h
  rw [hkept, htaken]
  exact hsub.append (List.Sublist.refl tail)

/-- With less in the buffer, more of it is at the end of what was kept before. -/
theorem follows_of {front base : List UInt8} (tail : List UInt8)
    (hkept : v.file.kept = front ++ tail) (htaken : v.taken = base ++ tail)
    (hsub : front.Sublist base) (hless : v.unflushed ≤ tail.length)
    (hcurrent : v.unflushed ≤ (v.file.current.getD []).length) : v.Follows := by
  refine ⟨front ++ tail.take (tail.length - v.unflushed),
    base ++ tail.take (tail.length - v.unflushed), tail.drop (tail.length - v.unflushed), ?_, ?_,
    hsub.append (List.Sublist.refl _), ?_, hcurrent⟩
  · rw [List.append_assoc, List.take_append_drop, hkept]
  · rw [List.append_assoc, List.take_append_drop, htaken]
  · rw [List.length_drop]
    omega

theorem follows_of_closed (hlog : v.unflushed = 0) (hsub : v.file.kept.Sublist v.taken) :
    v.Follows :=
  ⟨v.file.kept, v.taken, [], (List.append_nil _).symm, (List.append_nil _).symm, hsub, hlog.symm,
    hlog ▸ Nat.zero_le _⟩

theorem Follows.openLog (h : v.Follows) (hopen : v.openLog io = some w) : w.Follows := by
  rw [AppFiles.openLog] at hopen
  split at hopen
  · cases hopen
    exact h
  · split at hopen
    · cases hopen
    · cases hopen
      exact follows_of_closed rfl (by rw [RotatedFile.kept_create]; exact h.sublist)

theorem Follows.put (h : v.Follows) (bytes : List UInt8) (buffered : ℕ) :
    (v.put bytes buffered).Follows := by
  obtain ⟨front, base, tail, hkept, htaken, hsub, hlength, hcurrent⟩ := h
  have hless : (v.put bytes buffered).unflushed ≤ v.unflushed + bytes.length := by
    rw [AppFiles.put, unflushed, unflushed]
    cases v.log with
    | none => exact Nat.zero_le _
    | some log => exact Nat.min_le_right _ _
  refine follows_of (tail ++ bytes) ?_ ?_ hsub ?_ ?_
  · rw [AppFiles.put, RotatedFile.kept_append, hkept, List.append_assoc]
  · rw [AppFiles.put, htaken, List.append_assoc]
  · rw [List.length_append, hlength]
    exact hless
  · refine hless.trans ?_
    rw [AppFiles.put, RotatedFile.append, Option.getD_some, List.length_append]
    exact Nat.add_le_add_right hcurrent _

theorem Follows.rotate (h : v.Follows) {full : AppLog} (hfull : v.log = some full) (io : EventIo) :
    (v.rotate full io).Follows := by
  refine follows_of_closed rfl ?_
  have hunflushed : v.unflushed = full.unflushed := by rw [unflushed, hfull]; rfl
  have hlost : (if io.flushes then 0 else min io.lost full.unflushed) ≤
      (v.file.current.getD []).length := by
    obtain ⟨-, -, -, -, -, -, -, hcurrent⟩ := h
    split
    · exact Nat.zero_le _
    · exact (Nat.min_le_right _ _).trans (hunflushed ▸ hcurrent)
  have htruncate := (RotatedFile.kept_truncate hlost) ▸ (List.take_sublist _ _).trans h.sublist
  rw [AppFiles.rotate]
  dsimp only
  split
  · exact RotatedFile.kept_rotate_suffix.sublist.trans htruncate
  · exact htruncate

theorem Follows.writeLine (h : v.Follows) (keep : ℕ) (line : List UInt8) (io : EventIo) :
    (v.writeLine keep line io).1.Follows := by
  rw [AppFiles.writeLine]
  split
  · exact h
  · rename_i w hopen
    have hput := (h.openLog hopen).put (line.take io.written) io.buffered
    dsimp only
    split
    · exact hput
    · split
      · rename_i log hlog
        split
        · exact hput.rotate hlog io
        · exact hput
      · exact hput

theorem Follows.truncate (h : v.Follows) {lost : ℕ} (hlost : lost ≤ v.unflushed) :
    (v.file.truncate lost).kept.Sublist (v.taken.take (v.taken.length - lost)) := by
  obtain ⟨front, base, tail, hkept, htaken, hsub, hlength, hcurrent⟩ := h
  have hcut (start : List UInt8) : (start ++ tail).take ((start ++ tail).length - lost) =
      start ++ tail.take (tail.length - lost) := by
    rw [List.length_append, Nat.add_sub_assoc (by omega), List.take_length_add_append]
  rw [RotatedFile.kept_truncate (hlost.trans hcurrent), hkept, htaken, hcut, hcut]
  exact hsub.append (List.Sublist.refl _)

theorem Follows.letGo (h : v.Follows) (lost : ℕ) : (v.letGo lost).Follows :=
  follows_of_closed rfl (h.truncate (Nat.min_le_right _ _))

theorem follows_discard (v : AppFiles) (lost : ℕ) (current previous : Bool) :
    (v.discard lost current previous).Follows :=
  follows_of_closed rfl (List.Sublist.refl _)

theorem Follows.flush (h : v.Follows) (unflushed : ℕ) : (v.flush unflushed).Follows := by
  obtain ⟨front, base, tail, hkept, htaken, hsub, hlength, hcurrent⟩ := h
  have hless : (v.flush unflushed).unflushed ≤ v.unflushed := by
    rw [AppFiles.flush, AppFiles.unflushed, AppFiles.unflushed]
    cases v.log with
    | none => exact Nat.le_refl _
    | some log => exact Nat.min_le_right _ _
  exact follows_of tail hkept htaken hsub (hless.trans hlength.ge) (hless.trans hcurrent)

/-- What is kept is the end of what was written, at least as much as an app is kept if there was
as much, and as much again and a line at most. -/
structure Whole (keep longest : ℕ) (v : AppFiles) : Prop where
  suffix : v.file.kept <:+ v.taken
  whole : v.file.previous = none → v.file.kept = v.taken
  long : ∀ content, v.file.previous = some content →
    keep ≤ content.length ∧ content.length ≤ keep + longest
  sized : ∀ log, v.log = some log →
    v.file.current ≠ none ∧ log.size = (v.file.current.getD []).length
  short : (v.file.current.getD []).length ≤ keep

theorem Whole.length_le (h : v.Whole keep longest) : v.file.kept.length ≤ 2 * keep + longest := by
  rw [RotatedFile.kept, List.length_append]
  have hshort := h.short
  cases hprevious : v.file.previous with
  | none =>
    rw [Option.getD_none, List.length_nil]
    omega
  | some content =>
    have hlong := (h.long content hprevious).2
    rw [Option.getD_some]
    omega

theorem Whole.le_length (h : v.Whole keep longest) :
    min keep v.taken.length ≤ v.file.kept.length := by
  cases hprevious : v.file.previous with
  | none =>
    rw [h.whole hprevious]
    exact Nat.min_le_right _ _
  | some content =>
    have hlong := (h.long content hprevious).1
    rw [RotatedFile.kept, hprevious, Option.getD_some, List.length_append]
    omega

end AppFiles

/-- The filesystem does all that is asked of it for a line. -/
structure EventIo.Obliging (io : EventIo) (line : List UInt8) : Prop where
  directory : io.directory = true
  opens : io.opens = true
  written : line.length ≤ io.written
  flushes : io.flushes = true
  renames : io.renames = true

namespace AppFiles

variable {v : AppFiles} {keep longest : ℕ} {io : EventIo}

theorem Whole.openLog (h : v.Whole keep longest) (hdirectory : io.directory = true)
    (hopens : io.opens = true) :
    ∃ log, v.openLog io = some ⟨v.file.create, v.taken, some log⟩ ∧
      log.size = (v.file.current.getD []).length := by
  obtain ⟨file, taken, log⟩ := v
  rw [AppFiles.openLog, hdirectory, hopens]
  cases log with
  | none => exact ⟨_, rfl, rfl⟩
  | some log =>
    obtain ⟨hthere, hsize⟩ := h.sized log rfl
    refine ⟨log, ?_, hsize⟩
    obtain ⟨previous, current⟩ := file
    cases current with
    | none => exact absurd rfl hthere
    | some content => rfl

/-- A line is put at the end of the file, which is cut if it is long enough then. -/
theorem Whole.writeLine_eq (h : v.Whole keep longest) {line : List UInt8} (hio : io.Obliging line) :
    ∃ log, log.size = (v.file.current.getD [] ++ line).length ∧ v.writeLine keep line io =
      (if keep ≤ (v.file.current.getD [] ++ line).length then
        ⟨⟨some (v.file.current.getD [] ++ line), none⟩, v.taken ++ line, none⟩
      else ⟨v.file.append line, v.taken ++ line, some log⟩, true) := by
  obtain ⟨opened, hopen, hsize⟩ := h.openLog hio.directory hio.opens
  refine ⟨⟨opened.size + line.length, min io.buffered (opened.unflushed + line.length)⟩, ?_, ?_⟩
  · rw [List.length_append, hsize]
  · rw [AppFiles.writeLine, hopen]
    dsimp only
    rw [List.take_of_length_le hio.written, if_neg (Nat.not_lt.mpr hio.written), AppFiles.put]
    dsimp only [Option.map_some]
    rw [hsize, ← List.length_append]
    split
    · rw [AppFiles.rotate, hio.flushes, hio.renames, if_pos rfl, if_pos rfl,
        RotatedFile.truncate_zero]
      rfl
    · rfl

theorem Whole.writeLine (h : v.Whole keep longest) {line : List UInt8} (hio : io.Obliging line)
    (hline : line.length ≤ longest) :
    (v.writeLine keep line io).1.Whole keep longest ∧
      (v.writeLine keep line io).1.taken = v.taken ++ line := by
  obtain ⟨log, hlog, heq⟩ := h.writeLine_eq hio
  have hsuffix := RotatedFile.kept_suffix_of_append h.suffix line
  rw [heq]
  dsimp only
  split
  · rename_i hfull
    refine ⟨⟨?_, fun hnone => (by cases hnone), fun content hcontent => ?_,
      fun _ hnone => (by cases hnone), Nat.zero_le _⟩, rfl⟩
    · refine List.IsSuffix.trans ?_ hsuffix
      rw [RotatedFile.kept_append, RotatedFile.kept, RotatedFile.kept, List.append_assoc]
      exact List.suffix_append_of_suffix (by simp)
    · cases hcontent
      refine ⟨hfull, ?_⟩
      rw [List.length_append]
      exact Nat.add_le_add h.short hline
  · rename_i hroom
    refine ⟨⟨hsuffix, fun hnone => ?_, h.long, fun opened hopened => ?_, ?_⟩, rfl⟩
    · rw [RotatedFile.kept_append, h.whole hnone]
    · cases hopened
      exact ⟨Option.some_ne_none _, hlog⟩
    · exact Nat.le_of_lt (Nat.lt_of_not_le hroom)

theorem Whole.letGo (h : v.Whole keep longest) (hfollows : v.Follows) (lost : ℕ) :
    (v.letGo lost).Whole keep longest := by
  obtain ⟨-, -, -, -, -, -, -, hcurrent⟩ := hfollows
  have hlost : min lost v.unflushed ≤ (v.file.current.getD []).length :=
    (Nat.min_le_right _ _).trans hcurrent
  have hkept := RotatedFile.kept_truncate hlost
  have hless : min lost v.unflushed ≤ v.file.kept.length := by
    rw [RotatedFile.kept, List.length_append]
    omega
  refine ⟨?_, fun hnone => ?_, h.long, fun _ hnone => (by cases hnone), ?_⟩
  · obtain ⟨front, hfront⟩ := h.suffix
    refine ⟨front, ?_⟩
    rw [AppFiles.letGo, hkept, ← hfront, List.length_append, Nat.add_sub_assoc hless,
      List.take_length_add_append]
  · rw [AppFiles.letGo, hkept, h.whole hnone]
  · refine Nat.le_trans ?_ h.short
    rw [AppFiles.letGo, RotatedFile.truncate]
    cases v.file.current with
    | none => exact Nat.le_refl _
    | some content => exact List.length_take_le' _ _

/-- What a discard leaves is what the app starts with. -/
theorem Whole.discard (h : v.Whole keep longest) (lost : ℕ) (current previous : Bool) :
    (v.discard lost current previous).Whole keep longest := by
  refine ⟨List.suffix_rfl, fun _ => rfl, fun content hcontent => ?_,
    fun _ hnone => (by cases hnone), ?_⟩
  · rw [AppFiles.discard, RotatedFile.remove] at hcontent
    dsimp only at hcontent
    split at hcontent
    · cases hcontent
    · exact h.long content hcontent
  · refine Nat.le_trans ?_ h.short
    rw [AppFiles.discard, RotatedFile.remove, RotatedFile.truncate]
    cases current with
    | true => exact Nat.zero_le _
    | false =>
      cases v.file.current with
      | none => exact Nat.le_refl _
      | some content => exact List.length_take_le' _ _

theorem Whole.flush (h : v.Whole keep longest) (unflushed : ℕ) :
    (v.flush unflushed).Whole keep longest := by
  refine { h with sized := fun log hlog => ?_ }
  obtain ⟨opened, hopened, rfl⟩ := Option.map_eq_some_iff.mp hlog
  exact h.sized opened hopened

end AppFiles

/-! ### Runs -/

/-- The filesystem does all that is asked of it, and no line is longer than some bound. -/
def Label.Obliging (render : TenantLogEvent → List UInt8) (longest : ℕ) : Label → Prop
  | .publish events flush =>
    (∀ event ∈ events, event.2.Obliging (FileLogSink.line render event.1) ∧
      (FileLogSink.line render event.1).length ≤ longest) ∧ ∀ appId, flush appId = 0
  | .restart events _ =>
    ∀ event ∈ events, event.2.Obliging (FileLogSink.line render event.1) ∧
      (FileLogSink.line render event.1).length ≤ longest
  | .discard .. => True

namespace FileLogSink

open AppFiles

section Runs

variable {render : TenantLogEvent → List UInt8} {s : FileLogSink} {longest : ℕ}

theorem view_new (keep : ℕ) (appId : AppId) :
    (FileLogSink.new keep).view appId = ⟨.absent, [], none⟩ := by
  simp only [FileLogSink.new, view, ExtTreeMap.getElem?_empty]

theorem view_publish (render : TenantLogEvent → List UInt8) (s : FileLogSink)
    (events : List (TenantLogEvent × EventIo)) (flush : FlushIo) (appId : AppId) :
    (s.publish render events flush).view appId =
        (if appId ∈ (writeEvents render events s).2 then
          ((writeEvents render events s).1.view appId).flush (flush appId)
        else (writeEvents render events s).1.view appId) ∧
      (s.publish render events flush).keepBytesPerApp =
        (writeEvents render events s).1.keepBytesPerApp :=
  view_flushLogs _ _ _

theorem follows_step (h : ∀ appId, (s.view appId).Follows) (label : Label) (appId : AppId) :
    ((s.step render label).view appId).Follows ∧
      (s.step render label).keepBytesPerApp = s.keepBytesPerApp := by
  have hevents (events : List (TenantLogEvent × EventIo)) :=
    writeEvents_induction (s := s) (P := Follows) events
      (fun event _ v hv => hv.writeLine _ (line render event.1) _) appId (h appId)
  cases label with
  | publish events flush =>
    obtain ⟨hfollows, hkeep⟩ := hevents events
    obtain ⟨hview, hkeep'⟩ := view_publish render s events flush appId
    refine ⟨?_, hkeep'.trans hkeep⟩
    rw [step, hview]
    split
    · exact hfollows.flush _
    · exact hfollows
  | restart events flush =>
    obtain ⟨hfollows, hkeep⟩ := hevents events
    refine ⟨?_, hkeep⟩
    rw [step, view_letGo]
    exact hfollows.letGo _
  | discard other lost current previous =>
    refine ⟨?_, rfl⟩
    rw [step, view_discard]
    split
    · exact follows_discard _ _ _ _
    · exact h appId

/-- Between two batches: what was written is kept, and none of it is in a buffer. -/
structure Sound (longest : ℕ) (s : FileLogSink) (appId : AppId) : Prop where
  follows : (s.view appId).Follows
  whole : (s.view appId).Whole s.keepBytesPerApp longest
  flushed : (s.view appId).unflushed = 0

/-- The lines of an app's events, in their order. -/
def output (render : TenantLogEvent → List UInt8) (appId : AppId)
    (events : List (TenantLogEvent × EventIo)) : List UInt8 :=
  (events.filter (·.1.appId = appId)).flatMap (line render ·.1)

/-- An obliging filesystem takes the lines of a batch. -/
theorem whole_writeEvents {events : List (TenantLogEvent × EventIo)} {appId : AppId}
    (hevents : ∀ event ∈ events, event.2.Obliging (line render event.1) ∧
      (line render event.1).length ≤ longest)
    (h : (s.view appId).Whole s.keepBytesPerApp longest) :
    ((writeEvents render events s).1.view appId).Whole s.keepBytesPerApp longest ∧
      ((writeEvents render events s).1.view appId).taken =
        (s.view appId).taken ++ output render appId events := by
  induction events generalizing s with
  | nil => exact ⟨h, (List.append_nil _).symm⟩
  | cons entry events ih =>
    obtain ⟨event, io⟩ := entry
    obtain ⟨hview, hkeep, hothers⟩ := view_writeEvent (s := s) render event io
    obtain ⟨hio, hline⟩ := hevents (event, io) List.mem_cons_self
    have hrest (event) (hevent : event ∈ events) :=
      hevents event (List.mem_cons_of_mem _ hevent)
    rw [writeEvents]
    dsimp only
    rw [← hkeep] at h ⊢
    by_cases happ : event.appId = appId
    · subst happ
      obtain ⟨hwhole, htaken⟩ := h.writeLine hio hline
      rw [hkeep, hview] at hwhole htaken
      obtain ⟨hwhole', htaken'⟩ := ih hrest (hkeep ▸ hwhole)
      refine ⟨hwhole', ?_⟩
      rw [htaken', htaken, output, output, List.filter_cons_of_pos (by simp), List.flatMap_cons,
        List.append_assoc]
    · have hsame := hothers appId (Ne.symm happ)
      obtain ⟨hwhole, htaken⟩ := ih hrest (by rw [hsame]; exact h)
      refine ⟨hwhole, ?_⟩
      rw [htaken, hsame, output, output, List.filter_cons_of_neg (by simpa using happ)]

theorem Sound.step {appId : AppId} (h : Sound longest s appId) {label : Label}
    (hlabel : label.Obliging render longest) : Sound longest (s.step render label) appId := by
  have hevents (events : List (TenantLogEvent × EventIo)) :=
    writeEvents_induction (s := s) (P := Follows) events
      (fun event _ v hv => hv.writeLine _ (line render event.1) _) appId h.follows
  cases label with
  | publish events flush =>
    obtain ⟨hgood, hflush⟩ := hlabel
    obtain ⟨hfollows, hkeep⟩ := hevents events
    have hwhole := (whole_writeEvents hgood h.whole).1
    obtain ⟨hview, hkeep'⟩ := view_publish render s events flush appId
    rw [FileLogSink.step]
    by_cases hmem : appId ∈ (writeEvents render events s).2
    · rw [if_pos hmem] at hview
      refine ⟨?_, ?_, ?_⟩
      · rw [hview]
        exact hfollows.flush _
      · rw [hview, hkeep', hkeep]
        exact hwhole.flush _
      · rw [hview, AppFiles.flush, hflush, AppFiles.unflushed]
        cases ((writeEvents render events s).1.view appId).log with
        | none => rfl
        | some log => exact Nat.zero_min _
    · -- nothing was written for the app, so that nothing is in its buffer
      rw [if_neg hmem] at hview
      have hsame := (writeEvents_touched (s := s) render events appId fun event hevent _ =>
        ⟨(hgood event hevent).1.written, (hgood event hevent).1.directory,
          (hgood event hevent).1.opens⟩).resolve_left hmem
      refine ⟨?_, ?_, ?_⟩
      · rw [hview]
        exact hfollows
      · rw [hview, hkeep', hkeep]
        exact hwhole
      · rw [hview, hsame]
        exact h.flushed
  | restart events flush =>
    obtain ⟨hfollows, hkeep⟩ := hevents events
    have hwhole := (whole_writeEvents hlabel h.whole).1
    rw [FileLogSink.step]
    refine ⟨?_, ?_, ?_⟩
    · rw [view_letGo]
      exact hfollows.letGo _
    · rw [view_letGo, show ((writeEvents render events s).1.letGo flush).keepBytesPerApp =
        s.keepBytesPerApp from hkeep]
      exact hwhole.letGo hfollows _
    · rw [view_letGo]
      rfl
  | discard other lost current previous =>
    rw [FileLogSink.step]
    by_cases happ : appId = other
    · have hview := view_discard s other lost current previous appId
      rw [if_pos happ, ← happ] at hview
      refine ⟨?_, ?_, ?_⟩
      · rw [← happ, hview]
        exact follows_discard _ _ _ _
      · rw [← happ, hview]
        exact h.whole.discard lost current previous
      · rw [← happ, hview]
        rfl
    · have hview := view_discard s other lost current previous appId
      rw [if_neg happ] at hview
      refine ⟨?_, ?_, ?_⟩
      · rw [hview]
        exact h.follows
      · rw [hview]
        exact h.whole
      · rw [hview]
        exact h.flushed

/-- **What is kept of an app's output is the newest of it.** In every run of batches, restarts and
discards, whatever the filesystem answers, the files of an app hold some of what was written for
it, in its order, and nothing else. If the filesystem does what it is asked, then between any two
batches they hold the end of it, on disk: at least as much as an app is to be kept, if there was as
much, and at most twice that and a line; and a batch adds the lines of the app's events to it. -/
theorem newest_kept (render : TenantLogEvent → List UInt8) (keep : ℕ) (labels : List Label)
    (appId : AppId) :
    let s := run (step render) (new keep) labels
    (s.disk appId).kept.Sublist (s.taken appId) ∧
      ∀ longest, (∀ label ∈ labels, label.Obliging render longest) →
        s.flushed appId = (s.disk appId).kept ∧ (s.disk appId).kept <:+ s.taken appId ∧
          min keep (s.taken appId).length ≤ (s.disk appId).kept.length ∧
          (s.disk appId).kept.length ≤ 2 * keep + longest ∧
          ∀ events flush, (Label.publish events flush).Obliging render longest →
            (s.step render (.publish events flush)).taken appId =
              s.taken appId ++ output render appId events := by
  intro s
  have hkeep : s.keepBytesPerApp = keep ∧ ∀ appId, (s.view appId).Follows := by
    refine invariant
      (I := fun s : FileLogSink => s.keepBytesPerApp = keep ∧ ∀ appId, (s.view appId).Follows)
      (fun t label h => ?_) ⟨rfl, fun appId => ?_⟩ labels
    · exact ⟨(follows_step h.2 label appId).2.trans h.1,
        fun appId => (follows_step h.2 label appId).1⟩
    · rw [view_new]
      exact follows_of_closed rfl (List.Sublist.refl _)
  refine ⟨(hkeep.2 appId).sublist, fun longest hlabels => ?_⟩
  have hsound : Sound longest s appId := by
    refine Meets.invariant (I := fun s => Sound longest s appId)
      (fun t label h hlabel => h.step hlabel) ?_ (meets_of_forall hlabels (new keep))
    refine ⟨?_, ?_, ?_⟩
    · rw [view_new]
      exact follows_of_closed rfl (List.Sublist.refl _)
    · rw [view_new]
      exact ⟨List.suffix_rfl, fun _ => rfl, fun _ hnone => (by cases hnone),
        fun _ hnone => (by cases hnone), Nat.zero_le _⟩
    · rw [view_new]
      rfl
  have hwhole := hsound.whole
  rw [hkeep.1] at hwhole
  refine ⟨?_, hwhole.suffix, hwhole.le_length, hwhole.length_le, fun events flush hgood => ?_⟩
  · have hflushed : s.unflushed appId = 0 := hsound.flushed
    rw [flushed, hflushed, Nat.sub_zero, List.take_length]
  · have htaken := (whole_writeEvents hgood.1 hsound.whole).2
    obtain ⟨hview, -⟩ := view_publish render s events flush appId
    refine Eq.trans ?_ htaken
    show ((s.publish render events flush).view appId).taken = _
    rw [hview]
    split
    · rfl
    · rfl

private def numberOf (event : TenantLogEvent) : List UInt8 := [UInt8.ofNat event.sequence]

private def printed (sequence : ℕ) : TenantLogEvent × EventIo :=
  (⟨⟨"app-one"⟩, ⟨"deployment-one"⟩, "", sequence, ⟨""⟩, .gap 0⟩, ⟨true, true, 2, 2, true, 0, true⟩)

private def threeLines : List Label := [.publish ([1, 2, 3].map printed) fun _ => 0]

theorem newest_kept_three_lines :
    let s := run (step numberOf) (new 3) threeLines
    (s.disk ⟨"app-one"⟩).kept <:+ s.taken ⟨"app-one"⟩ ∧ 3 ≤ (s.disk ⟨"app-one"⟩).kept.length := by
  have hobliging : ∀ label ∈ threeLines, label.Obliging numberOf 2 := by
    intro label hlabel
    cases List.mem_singleton.mp hlabel
    refine ⟨fun event hevent => ?_, fun _ => rfl⟩
    obtain ⟨sequence, -, rfl⟩ := List.mem_map.mp hevent
    exact ⟨⟨rfl, rfl, Nat.le_refl 2, rfl, rfl⟩, Nat.le_refl 2⟩
  obtain ⟨-, hkept⟩ := newest_kept numberOf 3 threeLines ⟨"app-one"⟩
  obtain ⟨-, hsuffix, hlong, -⟩ := hkept 2 hobliging
  exact ⟨hsuffix, Nat.le_trans (by decide) hlong⟩

end Runs

end FileLogSink

end Nibrunner.TenantLogs

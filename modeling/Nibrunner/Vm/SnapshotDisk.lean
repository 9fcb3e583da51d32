import Mathlib.Algebra.BigOperators.Group.List.Basic
import Mathlib.Algebra.Order.BigOperators.Group.List
import Mathlib.Algebra.Order.Ring.Nat
import Nibrunner.ForStd.MachineInt
import Nibrunner.ForStd.Run

/-!
# The disk the snapshots go to

A sleep is admitted against the disk as it was measured, less what the snapshots in flight are
going to put on it; it holds its share until its snapshot is on the disk or has failed. Measuring
and admitting are two steps, and any number of sleeps take theirs in any order.

* `SnapshotStore.Sound`: the shares in flight are what the sleeps hold, and no sleep writes more
  than its share;
* `SnapshotStore.UpToDate`: an admission is against a measurement that counts every snapshot that
  has landed by then;
* `snapshots_within_budget`: in every run of such admissions the snapshots on the disk and in
  flight are within the budget and leave the reserve free;
* `stale_measurement_over_admits`: a snapshot that lands between a measurement and its admission
  is in neither.
-/

namespace Nibrunner

open MachineInt

def bytesPerGib : ℕ := 1073741824

def diskReserveBytes : ℕ := 8 * bytesPerGib

theorem diskReserveBytes_pos : 0 < diskReserveBytes := by
  simp [diskReserveBytes, bytesPerGib]

structure SnapshotDisk where
  totalBytes : ℕ
  availableBytes : ℕ
  cacheBytes : ℕ
  snapshotBytes : ℕ
deriving DecidableEq

def snapshotBytesFor (memoryMib : ℕ) : ℕ := memoryMib * 1048576

def snapshotBudget (disk : SnapshotDisk) : ℕ :=
  saturatingSub (saturatingSub disk.totalBytes disk.cacheBytes) diskReserveBytes

/-- Why the disk has no room for a snapshot. -/
inductive DiskRefusal where
  | overBudget (budget held : ℕ)
  | reserveNeeded (available : ℕ)
deriving DecidableEq

/-- The refusal in words; `gibibytes` writes a number of bytes with one decimal. -/
def DiskRefusal.message (gibibytes : ℕ → String) : DiskRefusal → String
  | overBudget budget held =>
    "snapshots on this host may hold " ++ gibibytes budget ++ " and already hold " ++
      gibibytes held
  | reserveNeeded available =>
    "the disk it would be written to has " ++ gibibytes available ++
      " left, which the filesystem every app runs from needs more than it does"

def refusalForDisk (disk : SnapshotDisk) (wantedBytes : ℕ) : Option DiskRefusal :=
  let budget := snapshotBudget disk
  if budget < disk.snapshotBytes + wantedBytes then some (.overBudget budget disk.snapshotBytes)
  else if saturatingSub disk.availableBytes wantedBytes < diskReserveBytes then
    some (.reserveNeeded disk.availableBytes)
  else none

/-- The admission of a snapshot: what is in flight counts as if it were on the disk already. The
answer is what is in flight from then on. -/
def admitSnapshot (heldBytes : ℕ) (disk : SnapshotDisk) (wantedBytes : ℕ) :
    Except DiskRefusal ℕ :=
  let spokenFor := { disk with
    availableBytes := saturatingSub disk.availableBytes heldBytes
    snapshotBytes := disk.snapshotBytes + heldBytes }
  match refusalForDisk spokenFor wantedBytes with
  | some refusal => .error refusal
  | none => .ok (heldBytes + wantedBytes)

/-! ### Sleeps at work on one disk -/

/-- Where a sleep is. -/
inductive SleepTask where
  | wanting (wantedBytes : ℕ)
  | measured (disk : SnapshotDisk) (wantedBytes : ℕ)
  | admitted (shareBytes writtenBytes : ℕ)
  | over
deriving DecidableEq

namespace SleepTask

def share : SleepTask → ℕ
  | admitted shareBytes _ => shareBytes
  | _ => 0

def written : SleepTask → ℕ
  | admitted _ writtenBytes => writtenBytes
  | _ => 0

end SleepTask

/-- A disk that only snapshots are written to, and the sleeps at work on it. -/
structure SnapshotStore where
  totalBytes : ℕ
  cacheBytes : ℕ
  /-- What is available with no snapshot on the disk. -/
  roomBytes : ℕ
  /-- The snapshots no sleep is at work on. -/
  landedBytes : ℕ
  /-- What `SnapshotsInFlight` counts. -/
  heldBytes : ℕ
  sleeps : List SleepTask

inductive SnapshotMove where
  /-- A sleep of an app with so much memory is asked for. -/
  | begin (memoryMib : ℕ)
  | measure (sleep : ℕ)
  | admission (sleep : ℕ)
  /-- The snapshot grows, and never past what was reserved for it. -/
  | write (sleep bytes : ℕ)
  /-- The snapshot has failed, and what there is of it is removed. -/
  | unwrite (sleep : ℕ)
  /-- The sleep is over one way or the other, and gives its share back. -/
  | giveBack (sleep : ℕ)
  /-- Snapshots are removed. -/
  | discard (bytes : ℕ)

namespace SnapshotStore

/-- The shares of the snapshots in flight. -/
def shares (s : SnapshotStore) : ℕ := (s.sleeps.map SleepTask.share).sum

def onDisk (s : SnapshotStore) : ℕ := s.landedBytes + (s.sleeps.map SleepTask.written).sum

/-- What is on the disk once every snapshot in flight has landed. -/
def committed (s : SnapshotStore) : ℕ := s.landedBytes + s.shares

def measure (s : SnapshotStore) : SnapshotDisk where
  totalBytes := s.totalBytes
  availableBytes := s.roomBytes - s.onDisk
  cacheBytes := s.cacheBytes
  snapshotBytes := s.onDisk

def budget (s : SnapshotStore) : ℕ := snapshotBudget s.measure

def step (s : SnapshotStore) : SnapshotMove → SnapshotStore
  | .begin memoryMib =>
    { s with sleeps := s.sleeps ++ [.wanting (snapshotBytesFor memoryMib)] }
  | .measure i =>
    match s.sleeps[i]? with
    | some (.wanting wantedBytes) =>
      { s with sleeps := s.sleeps.set i (.measured s.measure wantedBytes) }
    | _ => s
  | .admission i =>
    match s.sleeps[i]? with
    | some (.measured disk wantedBytes) =>
      match admitSnapshot s.heldBytes disk wantedBytes with
      | .ok heldBytes =>
        { s with
          heldBytes := heldBytes
          sleeps := s.sleeps.set i (.admitted wantedBytes 0) }
      | .error _ => { s with sleeps := s.sleeps.set i .over }
    | _ => s
  | .write i bytes =>
    match s.sleeps[i]? with
    | some (.admitted shareBytes writtenBytes) =>
      { s with
        sleeps := s.sleeps.set i (.admitted shareBytes (min shareBytes (writtenBytes + bytes))) }
    | _ => s
  | .unwrite i =>
    match s.sleeps[i]? with
    | some (.admitted shareBytes _) =>
      { s with sleeps := s.sleeps.set i (.admitted shareBytes 0) }
    | _ => s
  | .giveBack i =>
    match s.sleeps[i]? with
    | some (.admitted shareBytes writtenBytes) =>
      { s with
        landedBytes := s.landedBytes + writtenBytes
        heldBytes := s.heldBytes - shareBytes
        sleeps := s.sleeps.set i .over }
    | _ => s
  | .discard bytes => { s with landedBytes := s.landedBytes - bytes }

/-- A disk with no sleep at work on it. -/
def start (totalBytes cacheBytes roomBytes landedBytes : ℕ) : SnapshotStore :=
  ⟨totalBytes, cacheBytes, roomBytes, landedBytes, 0, []⟩

/-- The snapshots on the disk and in flight are within the budget and leave the reserve free. -/
structure Within (s : SnapshotStore) : Prop where
  budget : s.committed ≤ s.budget
  reserve : s.committed + diskReserveBytes ≤ s.roomBytes

/-- An admission is against a measurement that counts every snapshot that has landed by then. -/
def UpToDate (s : SnapshotStore) : SnapshotMove → Prop
  | .admission i => ∀ disk wantedBytes, s.sleeps[i]? = some (.measured disk wantedBytes) →
    s.landedBytes ≤ disk.snapshotBytes
  | _ => True

/-- The measurement was of this disk, whenever it was taken. -/
def Measures (s : SnapshotStore) (disk : SnapshotDisk) : Prop :=
  disk.totalBytes = s.totalBytes ∧ disk.cacheBytes = s.cacheBytes ∧
    disk.availableBytes + disk.snapshotBytes = s.roomBytes

/-- What is counted in flight is what the sleeps hold, none of which has written more than its
share, and every measurement is one of this disk. -/
structure Sound (s : SnapshotStore) : Prop where
  held : s.heldBytes = s.shares
  written : ∀ task ∈ s.sleeps, task.written ≤ task.share
  measured : ∀ disk wantedBytes, .measured disk wantedBytes ∈ s.sleeps → s.Measures disk

/-! ### Replacing one sleep -/

section Set

variable {s : SnapshotStore} {i : ℕ} {old new : SleepTask}

theorem sum_map_set {l : List SleepTask} (weight : SleepTask → ℕ) (h : l[i]? = some old) :
    ((l.set i new).map weight).sum + weight old = (l.map weight).sum + weight new := by
  induction l generalizing i with
  | nil => cases h
  | cons task l ih =>
    cases i with
    | zero =>
      cases h
      simp only [List.set_cons_zero, List.map_cons, List.sum_cons]
      omega
    | succ i =>
      have hrest := ih (i := i) h
      simp only [List.set_cons_succ, List.map_cons, List.sum_cons]
      omega

/-- The store with one sleep moved on, and its two counters. -/
def moved (s : SnapshotStore) (i : ℕ) (new : SleepTask) (landedBytes heldBytes : ℕ) :
    SnapshotStore :=
  { s with
    landedBytes := landedBytes
    heldBytes := heldBytes
    sleeps := s.sleeps.set i new }

variable {landed held : ℕ}

theorem shares_moved (new : SleepTask) (landed held : ℕ) (h : s.sleeps[i]? = some old) :
    (s.moved i new landed held).shares + old.share = s.shares + new.share :=
  sum_map_set SleepTask.share h

/-- A sleep moves on within its share, with what is in flight counted along. -/
theorem Sound.moved (hs : s.Sound) (h : s.sleeps[i]? = some old)
    (hwritten : new.written ≤ new.share)
    (hmeasured : ∀ disk wantedBytes, new = .measured disk wantedBytes → s.Measures disk)
    (hheld : held + old.share = s.heldBytes + new.share) : (s.moved i new landed held).Sound where
  held := by
    have hshares := shares_moved new landed held h
    have hbefore := hs.held
    change held = (s.moved i new landed held).shares
    omega
  written task htask := by
    rcases List.mem_or_eq_of_mem_set htask with htask | rfl
    · exact hs.written task htask
    · exact hwritten
  measured disk wantedBytes htask := by
    rcases List.mem_or_eq_of_mem_set htask with htask | heq
    · exact hs.measured disk wantedBytes htask
    · exact hmeasured disk wantedBytes heq.symm

/-- What a sleep commits the disk to does not grow. -/
theorem Within.moved (hs : s.Within) (h : s.sleeps[i]? = some old)
    (hle : landed + new.share ≤ s.landedBytes + old.share) :
    (s.moved i new landed held).Within := by
  have hshares := shares_moved new landed held h
  have hcommitted : (s.moved i new landed held).committed ≤ s.committed := by
    change landed + (s.moved i new landed held).shares ≤ s.landedBytes + s.shares
    omega
  exact ⟨hcommitted.trans hs.budget, (Nat.add_le_add_right hcommitted _).trans hs.reserve⟩

end Set

variable {s : SnapshotStore}

theorem onDisk_le_committed (hs : s.Sound) : s.onDisk ≤ s.committed :=
  Nat.add_le_add_left (List.sum_le_sum hs.written) _

theorem snapshotBudget_of_eq {a b : SnapshotDisk} (htotal : a.totalBytes = b.totalBytes)
    (hcache : a.cacheBytes = b.cacheBytes) : snapshotBudget a = snapshotBudget b := by
  rw [snapshotBudget, snapshotBudget, htotal, hcache]

theorem refusalForDisk_eq_none {disk : SnapshotDisk} {wantedBytes : ℕ}
    (h : refusalForDisk disk wantedBytes = none) :
    disk.snapshotBytes + wantedBytes ≤ snapshotBudget disk ∧
      diskReserveBytes ≤ disk.availableBytes - wantedBytes := by
  simp only [refusalForDisk, saturatingSub_eq_sub] at h
  split at h
  · cases h
  · rename_i hbudget
    split at h
    · cases h
    · rename_i hreserve
      exact ⟨Nat.le_of_not_lt hbudget, Nat.le_of_not_lt hreserve⟩

/-- What an admission has checked. -/
theorem admitSnapshot_eq_ok {heldBytes wantedBytes held : ℕ} {disk : SnapshotDisk}
    (h : admitSnapshot heldBytes disk wantedBytes = .ok held) :
    held = heldBytes + wantedBytes ∧
      disk.snapshotBytes + heldBytes + wantedBytes ≤ snapshotBudget disk ∧
      heldBytes + wantedBytes + diskReserveBytes ≤ disk.availableBytes := by
  simp only [admitSnapshot, saturatingSub_eq_sub] at h
  split at h
  · cases h
  · rename_i hnone
    obtain ⟨hbudget, hreserve⟩ := refusalForDisk_eq_none hnone
    refine ⟨(Except.ok.inj h).symm, hbudget, ?_⟩
    have hpositive := diskReserveBytes_pos
    simp only at hreserve
    omega

/-- **An admission keeps within the bounds** when its measurement is up to date: what it counts as
in flight and on the disk is all there is. -/
theorem within_admitted (hs : s.Sound) {i wantedBytes held : ℕ} {disk : SnapshotDisk}
    (h : s.sleeps[i]? = some (.measured disk wantedBytes))
    (hup : s.landedBytes ≤ disk.snapshotBytes)
    (hok : admitSnapshot s.heldBytes disk wantedBytes = .ok held) :
    (s.moved i (.admitted wantedBytes 0) s.landedBytes held).Within := by
  obtain ⟨-, hbudget, hreserve⟩ := admitSnapshot_eq_ok hok
  obtain ⟨htotal, hcache, hroom⟩ := hs.measured disk wantedBytes (List.mem_of_getElem? h)
  have hshares := shares_moved (.admitted wantedBytes 0) s.landedBytes held h
  have hheld := hs.held
  have hcommitted : (s.moved i (.admitted wantedBytes 0) s.landedBytes held).committed =
      s.landedBytes + s.heldBytes + wantedBytes := by
    change s.landedBytes + (s.moved i (.admitted wantedBytes 0) s.landedBytes held).shares = _
    simp only [SleepTask.share] at hshares
    omega
  have hbudgets : (s.moved i (.admitted wantedBytes 0) s.landedBytes held).budget =
      snapshotBudget disk := by
    exact snapshotBudget_of_eq htotal.symm hcache.symm
  constructor
  · rw [hcommitted, hbudgets]
    omega
  · rw [hcommitted]
    change _ ≤ s.roomBytes
    omega

theorem Sound.step (hs : s.Sound) (hw : s.Within) {e : SnapshotMove} (hup : s.UpToDate e) :
    (s.step e).Sound ∧ (s.step e).Within := by
  cases e with
  | begin memoryMib =>
    refine ⟨⟨?_, fun task htask => ?_, fun disk wantedBytes htask => ?_⟩, ?_⟩
    · change s.heldBytes = _
      rw [hs.held]
      simp [SnapshotStore.step, shares, SleepTask.share]
    · rcases List.mem_append.mp htask with htask | htask
      · exact hs.written task htask
      · rw [List.mem_singleton.mp htask]
        exact Nat.le_refl _
    · rcases List.mem_append.mp htask with htask | htask
      · exact hs.measured disk wantedBytes htask
      · cases List.mem_singleton.mp htask
    · have hcommitted : (s.step (.begin memoryMib)).committed = s.committed := by
        simp [SnapshotStore.step, committed, shares, SleepTask.share]
      exact ⟨hcommitted ▸ hw.budget, hcommitted ▸ hw.reserve⟩
  | measure i =>
    rw [SnapshotStore.step]
    split
    · rename_i wantedBytes htask
      -- what is on the disk fits the room, so it and what is free make up the room
      have hdisk : s.Measures s.measure := by
        refine ⟨rfl, rfl, Nat.sub_add_cancel ?_⟩
        have hreserve := hw.reserve
        have hle := onDisk_le_committed hs
        omega
      refine ⟨hs.moved htask (Nat.le_refl _) (fun disk wanted heq => ?_) rfl, hw.moved htask ?_⟩
      · cases heq
        exact hdisk
      · exact Nat.le_refl _
    · exact ⟨hs, hw⟩
  | admission i =>
    rw [SnapshotStore.step]
    split
    · rename_i disk wantedBytes htask
      generalize hok : admitSnapshot s.heldBytes disk wantedBytes = answer
      cases answer with
      | ok held =>
        refine ⟨hs.moved htask (Nat.zero_le _) (fun disk wanted heq => by cases heq) ?_,
          within_admitted hs htask (hup disk wantedBytes htask) hok⟩
        exact (admitSnapshot_eq_ok hok).1
      | error refusal =>
        exact ⟨hs.moved htask (Nat.le_refl _) (fun disk wanted heq => by cases heq) rfl,
          hw.moved htask (Nat.le_refl _)⟩
    · exact ⟨hs, hw⟩
  | write i bytes =>
    rw [SnapshotStore.step]
    split
    · rename_i shareBytes writtenBytes htask
      exact ⟨hs.moved htask (Nat.min_le_left _ _) (fun disk wanted heq => by cases heq) rfl,
        hw.moved htask (Nat.le_refl _)⟩
    · exact ⟨hs, hw⟩
  | unwrite i =>
    rw [SnapshotStore.step]
    split
    · rename_i shareBytes writtenBytes htask
      exact ⟨hs.moved htask (Nat.zero_le _) (fun disk wanted heq => by cases heq) rfl,
        hw.moved htask (Nat.le_refl _)⟩
    · exact ⟨hs, hw⟩
  | giveBack i =>
    rw [SnapshotStore.step]
    split
    · rename_i shareBytes writtenBytes htask
      have hwritten : writtenBytes ≤ shareBytes := hs.written _ (List.mem_of_getElem? htask)
      -- its share is part of what is held, so nothing is given back twice
      have hshare : shareBytes ≤ s.heldBytes := by
        rw [hs.held]
        exact List.single_le_sum (fun _ _ => Nat.zero_le _) _
          (List.mem_map.mpr ⟨_, List.mem_of_getElem? htask, rfl⟩)
      refine ⟨hs.moved htask (Nat.le_refl _) (fun disk wanted heq => by cases heq) ?_,
        hw.moved htask ?_⟩
      · simp only [SleepTask.share]
        omega
      · simp only [SleepTask.share]
        omega
    · exact ⟨hs, hw⟩
  | discard bytes =>
    have hcommitted : (s.step (.discard bytes)).committed ≤ s.committed := by
      change s.landedBytes - bytes + s.shares ≤ s.landedBytes + s.shares
      omega
    exact ⟨⟨hs.held, hs.written, hs.measured⟩, hcommitted.trans hw.budget,
      (Nat.add_le_add_right hcommitted _).trans hw.reserve⟩

/-- **Snapshots stay within the budget.** From a disk whose snapshots are within the bounds, in
every run of any number of sleeps whose admissions are against up-to-date measurements: what is on
the disk is no more than what is committed, and that is within the budget and leaves the reserve
free. -/
theorem snapshots_within_budget {totalBytes cacheBytes roomBytes landedBytes : ℕ}
    (hstart : (start totalBytes cacheBytes roomBytes landedBytes).Within)
    {es : List SnapshotMove}
    (hes : Run.Meets step UpToDate (start totalBytes cacheBytes roomBytes landedBytes) es)
    {s : SnapshotStore}
    (hs : s = Run.run step (start totalBytes cacheBytes roomBytes landedBytes) es) :
    s.onDisk ≤ s.committed ∧ s.committed ≤ s.budget ∧
      s.committed + diskReserveBytes ≤ s.roomBytes := by
  have hsound : (start totalBytes cacheBytes roomBytes landedBytes).Sound :=
    ⟨rfl, fun _ h => absurd h List.not_mem_nil, fun _ _ h => absurd h List.not_mem_nil⟩
  have hinv := Run.Meets.invariant (I := fun s => s.Sound ∧ s.Within)
    (fun s e h hup => h.1.step h.2 hup) ⟨hsound, hstart⟩ hes
  rw [← hs] at hinv
  exact ⟨onDisk_le_committed hinv.1, hinv.2.budget, hinv.2.reserve⟩

/-- A disk of twenty gibibytes with nothing on it. -/
def twentyGib : SnapshotStore := start (20 * bytesPerGib) 0 (20 * bytesPerGib) 0

theorem within_twentyGib : twentyGib.Within :=
  ⟨by decide +kernel, by decide +kernel⟩

/-- Three sleeps that overlap: the second is measured before the first is admitted, and the third,
once the first has landed, is refused. -/
def threeSleeps : List SnapshotMove :=
  [.begin 4096, .begin 4096, .begin 8192, .measure 0, .measure 1, .admission 0,
    .write 0 (4 * bytesPerGib), .admission 1, .giveBack 0, .measure 2, .admission 2,
    .write 1 (4 * bytesPerGib)]

theorem snapshots_within_budget_threeSleeps :
    (Run.run step twentyGib threeSleeps).onDisk = 8 * bytesPerGib ∧
      (Run.run step twentyGib threeSleeps).committed ≤ twentyGib.budget := by
  have hmeets : Run.Meets step UpToDate twentyGib threeSleeps := by
    refine ⟨trivial, trivial, trivial, trivial, trivial, ?_, trivial, ?_, trivial, trivial, ?_,
      trivial, trivial⟩
    all_goals
      intro disk wantedBytes htask
      cases htask
      decide +kernel
  exact ⟨by decide +kernel, (snapshots_within_budget within_twentyGib hmeets rfl).2.1⟩

/-- Two sleeps of eight gibibytes on a disk of twenty, of which eight are the reserve. The second
is measured before the first has written anything and admitted once it has landed and given its
share back, so that neither its measurement nor what is in flight counts the first: together they
are four gibibytes over the budget, and leave four of the eight of the reserve. -/
theorem stale_measurement_over_admits :
    twentyGib.Within ∧
      (Run.run step twentyGib [.begin 8192, .begin 8192, .measure 0, .measure 1, .admission 0,
        .write 0 (8 * bytesPerGib), .giveBack 0, .admission 1]).committed = 16 * bytesPerGib ∧
      twentyGib.budget = 12 * bytesPerGib ∧ twentyGib.roomBytes = 20 * bytesPerGib ∧
      diskReserveBytes = 8 * bytesPerGib :=
  ⟨within_twentyGib, by decide +kernel, by decide +kernel, rfl, rfl⟩

end SnapshotStore

end Nibrunner

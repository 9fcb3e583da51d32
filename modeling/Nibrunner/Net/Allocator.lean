import Mathlib.Algebra.Order.Ring.Int
import Mathlib.Data.List.Perm.Subperm
import Mathlib.Data.List.Nodup
import Nibrunner.ForStd.IdMap
import Nibrunner.Net.Slot

/-!
# The slot allocator

`SlotAllocator` hands slots out of a ring, looking for a free one from where the last allocation
left off, and keeps an app's slot until it is released.

* `allocate_of_held`, `allocate_spec`: what an allocation returns and leaves behind;
* `SlotAllocator.Injective`: no slot is held by two apps, kept by both operations;
* `exists_allocate`: an allocation succeeds while fewer apps hold a slot than the ring has;
* `SlotAllocator.Suffices`: the ring has a slot for each of a list of apps, and nobody else holds
  one.
-/

namespace Nibrunner

open Std

structure SlotAllocator where
  assignments : ExtTreeMap AppId ℕ
  cursor : ℤ
  limit : ℕ

/-- No slot is given to two apps. -/
def OneSlotEach (assignments : ExtTreeMap AppId ℕ) : Prop :=
  ∀ (a b : AppId) slot, assignments[a]? = some slot → assignments[b]? = some slot → a = b

namespace SlotAllocator

/-- A ring of `maxApps` slots from the first, as the configuration lays the host out. -/
def addressing (maxApps : ℕ) : SlotAllocator := ⟨∅, firstSlot, maxApps⟩

def span (s : SlotAllocator) : ℕ := s.limit - firstSlot

/-- The slot an offset comes to on the ring; the remainder is the truncated one. -/
def wrapped (s : SlotAllocator) (offset : ℤ) : ℕ :=
  firstSlot + (((offset.tmod s.span) + s.span).tmod s.span).toNat

/-- What an earlier daemon wrote down, less the slots past the ring of this one; a cursor past it
comes back inside. -/
def restore (s : SlotAllocator) (assignments : ExtTreeMap AppId ℕ) (cursor : ℤ) : SlotAllocator :=
  { s with
    assignments := assignments.filter fun _ slot => firstSlot ≤ slot ∧ slot < s.limit
    cursor := s.wrapped (cursor - firstSlot) }

def grow (s : SlotAllocator) (limit : ℕ) : SlotAllocator := { s with limit := max s.limit limit }

/-- The slots held. -/
def taken (s : SlotAllocator) : List ℕ := s.assignments.toList.map (·.2)

/-- The first slot nobody holds, from the cursor around the ring. -/
def nextFree (s : SlotAllocator) : Option ℕ :=
  ((List.range s.span).map fun step : ℕ => s.wrapped (s.cursor - firstSlot + step)).find?
    (fun slot => slot ∉ s.taken)

/-- The app's slot, a free one where it holds none. -/
def allocate (s : SlotAllocator) (app : AppId) : Option (AppSlot × SlotAllocator) :=
  match s.assignments[app]? with
  | some slot => some (describeSlot slot app, s)
  | none =>
    s.nextFree.map fun free =>
      (describeSlot free app,
        { s with assignments := s.assignments.insert app free, cursor := free + 1 })

def lookup (s : SlotAllocator) (app : AppId) : Option AppSlot :=
  s.assignments[app]?.map (describeSlot · app)

def release (s : SlotAllocator) (app : AppId) : SlotAllocator :=
  { s with assignments := s.assignments.erase app }

/-- The slot an app holds. -/
def slotOf (s : SlotAllocator) (app : AppId) : Option ℕ := s.assignments[app]?

/-- No slot is held by two apps. -/
def Injective (s : SlotAllocator) : Prop :=
  ∀ a b slot, s.slotOf a = some slot → s.slotOf b = some slot → a = b

/-! ### What an allocation does -/

@[simp] theorem slotOf_release (s : SlotAllocator) (app other : AppId) :
    (s.release app).slotOf other = if app = other then none else s.slotOf other :=
  ExtTreeMap.getElem?_erase_ite s.assignments app other

/-- An app that holds a slot is handed that one, and nothing changes. -/
theorem allocate_of_held {s : SlotAllocator} {app : AppId} {slot : ℕ}
    (h : s.slotOf app = some slot) : s.allocate app = some (describeSlot slot app, s) := by
  rw [slotOf] at h
  simp only [allocate, h]

/-- What a successful allocation leaves: the app holds the slot it was handed, one nobody held
before unless it was its own, and every other app holds what it held. -/
theorem allocate_spec {s t : SlotAllocator} {app : AppId} {slot : AppSlot}
    (h : s.allocate app = some (slot, t)) :
    slot = describeSlot slot.slot app ∧ t.limit = s.limit ∧ t.slotOf app = some slot.slot ∧
      (∀ other, other ≠ app → t.slotOf other = s.slotOf other) ∧
      (s.slotOf app = some slot.slot ∧ t = s ∨
        s.slotOf app = none ∧ ∀ other, s.slotOf other ≠ some slot.slot) := by
  unfold allocate at h
  split at h
  · rename_i held hheld
    simp only [Option.some.injEq, Prod.mk.injEq] at h
    obtain ⟨rfl, rfl⟩ := h
    exact ⟨rfl, rfl, hheld, fun _ _ => rfl, .inl ⟨hheld, rfl⟩⟩
  · rename_i hfree
    simp only [Option.map_eq_some_iff, Prod.mk.injEq] at h
    obtain ⟨free, hnext, rfl, rfl⟩ := h
    have hnot : free ∉ s.taken := by
      simpa using List.find?_some hnext
    refine ⟨rfl, rfl, ?_, fun other hne => ?_, .inr ⟨hfree, fun other hother => ?_⟩⟩
    · simp [slotOf, describeSlot]
    · simp only [slotOf, ExtTreeMap.getElem?_insert_ite, if_neg (Ne.symm hne)]
    · refine hnot (List.mem_map.mpr ⟨(other, free), ?_, rfl⟩)
      exact ExtTreeMap.mem_toList_iff_getElem?_eq_some.mpr hother

/-- An allocation keeps the slot of an app that holds one. -/
theorem slotOf_allocate_of_held {s t : SlotAllocator} {app other : AppId} {slot : AppSlot}
    {held : ℕ} (h : s.allocate app = some (slot, t)) (hheld : s.slotOf other = some held) :
    t.slotOf other = some held := by
  obtain ⟨-, -, happ, hother, hcases⟩ := allocate_spec h
  by_cases heq : other = app
  · subst heq
    rcases hcases with ⟨hs, rfl⟩ | ⟨hs, -⟩
    · exact hheld
    · rw [hs] at hheld
      cases hheld
  · rw [hother other heq, hheld]

/-! ### No slot is held twice -/

theorem Injective.allocate {s t : SlotAllocator} (hs : s.Injective) {app : AppId} {slot : AppSlot}
    (h : s.allocate app = some (slot, t)) : t.Injective := by
  obtain ⟨-, -, happ, hother, ⟨-, rfl⟩ | ⟨-, hfree⟩⟩ := allocate_spec h
  · exact hs
  · intro a b n ha hb
    by_cases haa : a = app <;> by_cases hba : b = app
    · rw [haa, hba]
    · subst haa
      rw [happ] at ha
      rw [hother b hba] at hb
      exact absurd (hb.trans ha.symm) (hfree b)
    · subst hba
      rw [happ] at hb
      rw [hother a haa] at ha
      exact absurd (ha.trans hb.symm) (hfree a)
    · rw [hother a haa] at ha
      rw [hother b hba] at hb
      exact hs a b n ha hb

theorem Injective.release {s : SlotAllocator} (hs : s.Injective) (app : AppId) :
    (s.release app).Injective := by
  intro a b n ha hb
  rw [slotOf_release] at ha hb
  split at ha <;> split at hb
  · cases ha
  · cases ha
  · cases hb
  · exact hs a b n ha hb

/-! ### An allocation succeeds while the ring has room -/

theorem wrapped_eq_emod (s : SlotAllocator) (h : 0 < s.span) (offset : ℤ) :
    s.wrapped offset = (offset % s.span).toNat := by
  have hpos : (0 : ℤ) < s.span := by exact_mod_cast h
  have hnonneg : 0 ≤ offset.tmod s.span + s.span := by
    have := Int.lt_tmod_of_pos offset hpos
    omega
  have hmod : (offset.tmod s.span + s.span).tmod s.span = offset % s.span := by
    rw [Int.tmod_eq_emod_of_nonneg hnonneg, Int.add_emod_right, eq_comm,
      Int.emod_eq_emod_iff_emod_sub_eq_zero]
    exact Int.emod_eq_zero_of_dvd Int.dvd_self_sub_tmod
  rw [wrapped, hmod, firstSlot, Nat.zero_add]

/-- The candidates a search goes through are the whole ring, each slot once. -/
private theorem nodup_candidates (s : SlotAllocator) :
    ((List.range s.span).map fun step : ℕ => s.wrapped (s.cursor - firstSlot + step)).Nodup := by
  refine List.Nodup.map_on (fun i hi j hj hij => ?_) List.nodup_range
  rw [List.mem_range] at hi hj
  have hpos : 0 < s.span := Nat.zero_lt_of_lt hi
  have hne : (s.span : ℤ) ≠ 0 := by omega
  rw [wrapped_eq_emod s hpos, wrapped_eq_emod s hpos] at hij
  have hi0 := Int.emod_nonneg (s.cursor - firstSlot + i) hne
  have hj0 := Int.emod_nonneg (s.cursor - firstSlot + j) hne
  have heq : (s.cursor - firstSlot + i) % s.span = (s.cursor - firstSlot + j) % s.span := by
    omega
  have hdvd : (s.span : ℤ) ∣ (i : ℤ) - j := by
    rw [Int.emod_eq_emod_iff_emod_sub_eq_zero] at heq
    have := Int.dvd_of_emod_eq_zero heq
    rwa [show s.cursor - (firstSlot : ℤ) + i - (s.cursor - firstSlot + j) = i - j by omega] at this
  have hzero : (i : ℤ) - j = 0 := by
    refine Int.eq_zero_of_dvd_of_natAbs_lt_natAbs hdvd ?_
    omega
  omega

/-- **The ring has room**: while fewer slots are held than there are, an app is handed one. -/
theorem exists_allocate (s : SlotAllocator) (app : AppId) (h : s.taken.length < s.span) :
    ∃ slot t, s.allocate app = some (slot, t) := by
  unfold allocate
  split
  · exact ⟨_, _, rfl⟩
  · cases hnext : s.nextFree with
    | some free => exact ⟨_, _, rfl⟩
    | none =>
      exfalso
      rw [nextFree, List.find?_eq_none] at hnext
      have hsub : ((List.range s.span).map fun step : ℕ =>
          s.wrapped (s.cursor - firstSlot + step)) ⊆ s.taken :=
        fun slot hslot => by simpa using hnext slot hslot
      have hle := (s.nodup_candidates.subperm hsub).length_le
      rw [List.length_map, List.length_range] at hle
      omega

/-- Only apps of `apps` hold slots, and the ring has one for each of them. -/
def Suffices (s : SlotAllocator) (apps : List AppId) : Prop :=
  apps.length ≤ s.limit ∧ ∀ app slot, s.slotOf app = some slot → app ∈ apps

section Suffices

variable {s : SlotAllocator} {apps : List AppId} {app : AppId}

/-- **Each of the apps is handed a slot** where the ring suffices for them. -/
theorem Suffices.exists_allocate (hs : s.Suffices apps) (happ : app ∈ apps) :
    ∃ slot t, s.allocate app = some (slot, t) := by
  obtain ⟨hlimit, hholders⟩ := hs
  cases hslot : s.slotOf app with
  | some slot => exact ⟨_, _, allocate_of_held hslot⟩
  | none =>
    -- the app and those that hold a slot are distinct apps of the list
    have hnot : app ∉ s.assignments.keys := by
      rw [ExtTreeMap.mem_keys, ExtTreeMap.mem_iff_isSome_getElem?, Option.not_isSome_iff_eq_none]
      exact hslot
    have hnodup : (app :: s.assignments.keys).Nodup :=
      List.nodup_cons.mpr ⟨hnot, ExtTreeMap.nodup_keys⟩
    have hsub : app :: s.assignments.keys ⊆ apps := by
      intro a ha
      rcases List.mem_cons.mp ha with rfl | ha
      · exact happ
      · rw [ExtTreeMap.mem_keys, ExtTreeMap.mem_iff_isSome_getElem?] at ha
        obtain ⟨slot, hslot⟩ := Option.isSome_iff_exists.mp ha
        exact hholders a slot hslot
    have hle := (hnodup.subperm hsub).length_le
    have htaken : s.taken.length = s.assignments.keys.length := by
      rw [taken, List.length_map, ← ExtTreeMap.map_fst_toList_eq_keys, List.length_map]
    refine s.exists_allocate app ?_
    rw [List.length_cons] at hle
    rw [htaken, span, firstSlot]
    omega

theorem Suffices.allocate {t : SlotAllocator} {slot : AppSlot} (hs : s.Suffices apps)
    (happ : app ∈ apps) (hal : s.allocate app = some (slot, t)) : t.Suffices apps := by
  obtain ⟨-, hlimit, -, hother, -⟩ := allocate_spec hal
  refine ⟨hlimit ▸ hs.1, fun a held ha => ?_⟩
  by_cases haa : a = app
  · exact haa ▸ happ
  · rw [hother a haa] at ha
    exact hs.2 a held ha

theorem Suffices.release (hs : s.Suffices apps) (app : AppId) : (s.release app).Suffices apps := by
  refine ⟨hs.1, fun a held ha => ?_⟩
  rw [slotOf_release] at ha
  split at ha
  · cases ha
  · exact hs.2 a held ha

end Suffices

end SlotAllocator

end Nibrunner

import Mathlib.Data.List.Induction
import Nibrunner.ForStd.Run
import Nibrunner.Net.Allocator

/-!
# The ring of slots over whole runs

An allocator is restored from what an earlier daemon wrote down, hands slots out, takes them back
and grows with the configuration. This file is about every run of those.

* `SlotAllocator.Ring`: no slot is held twice, and every slot held is on the ring;
* `nextFree_eq_some`, `nextFree_eq_none_iff`: a search takes the first free slot ahead of the
  cursor, and finds none only where every slot is held;
* `held_between`: a slot comes back to the cursor only after every other one was held;
* `slot_ring`: the two together, with what the slots of a ring lay out.
-/

namespace Nibrunner

open Std

/-- An allocation was refused: every slot of the ring is held. -/
structure SlotExhausted where
  limit : ℕ
deriving DecidableEq

def SlotExhausted.message (e : SlotExhausted) : String :=
  s!"all {e.limit} apps this host is laid out for hold a slot; raise max_apps in config.toml"

namespace SlotAllocator

/-- What is done with an allocator. -/
inductive Op where
  | restore (assignments : ExtTreeMap AppId ℕ) (cursor : ℤ)
  | allocate (app : AppId)
  | release (app : AppId)
  | grow (limit : ℕ)

namespace Op

/-- What is restored gives no slot to two apps, and the ring grows no further than the ports. -/
def Allowed : Op → Prop
  | restore assignments _ => OneSlotEach assignments
  | grow limit => limit ≤ mostAppsThePortsFit
  | _ => True

def isRestore : Op → Bool
  | restore _ _ => true
  | _ => false

end Op

/-- An allocation with its answer; a refusal leaves everything as it was. -/
def attempt (s : SlotAllocator) (app : AppId) : Except SlotExhausted AppSlot × SlotAllocator :=
  match s.allocate app with
  | some (slot, t) => (.ok slot, t)
  | none => (.error ⟨s.limit⟩, s)

def step (s : SlotAllocator) : Op → SlotAllocator
  | .restore assignments cursor => s.restore assignments cursor
  | .allocate app => (s.attempt app).2
  | .release app => s.release app
  | .grow limit => s.grow limit

/-- Some app holds the slot. -/
def Held (s : SlotAllocator) (slot : ℕ) : Prop := ∃ app, s.slotOf app = some slot

/-- The app holds no slot and is handed this one. -/
def Issues (s : SlotAllocator) (app : AppId) (slot : ℕ) : Prop :=
  s.slotOf app = none ∧ (s.attempt app).1 = .ok (describeSlot slot app)

/-- No slot is held twice, every slot held is on the ring, and the host has the ports for the
ring. -/
structure Ring (s : SlotAllocator) : Prop where
  injective : s.Injective
  inside : ∀ app slot, s.slotOf app = some slot → firstSlot ≤ slot ∧ slot < s.limit
  some_slot : 1 ≤ s.limit
  fits : s.limit ≤ mostAppsThePortsFit

theorem mem_taken_iff {s : SlotAllocator} {slot : ℕ} : slot ∈ s.taken ↔ s.Held slot := by
  rw [taken, List.mem_map]
  constructor
  · rintro ⟨⟨app, held⟩, hmem, rfl⟩
    exact ⟨app, ExtTreeMap.mem_toList_iff_getElem?_eq_some.mp hmem⟩
  · rintro ⟨app, hheld⟩
    exact ⟨(app, slot), ExtTreeMap.mem_toList_iff_getElem?_eq_some.mpr hheld, rfl⟩

/-! ### The search from the cursor -/

/-- How far ahead of the cursor a slot is. -/
def ahead (s : SlotAllocator) (slot : ℕ) : ℤ := (slot - s.cursor) % s.limit

section Search

variable {s : SlotAllocator} (h : 1 ≤ s.limit)

include h

theorem ahead_nonneg (slot : ℕ) : 0 ≤ s.ahead slot :=
  Int.emod_nonneg _ (by omega)

theorem ahead_lt (slot : ℕ) : s.ahead slot < s.limit :=
  Int.emod_lt_of_pos _ (by omega)

/-- The candidate at the distance of a slot is the slot. -/
theorem wrapped_ahead {slot : ℕ} (hslot : slot < s.limit) :
    s.wrapped (s.cursor - firstSlot + s.ahead slot) = slot := by
  have hspan : s.span = s.limit := rfl
  have hmod : (s.cursor + s.ahead slot) % s.limit = slot := by
    rw [ahead, Int.add_emod_emod, add_sub_cancel]
    exact Int.emod_eq_of_lt (by omega) (by omega)
  rw [wrapped_eq_emod s (hspan ▸ h), hspan, firstSlot, Int.natCast_zero, sub_zero, hmod]
  rfl

/-- A candidate is at its distance. -/
theorem ahead_wrapped {step : ℕ} (hstep : step < s.limit) :
    s.wrapped (s.cursor - firstSlot + step) < s.limit ∧
      s.ahead (s.wrapped (s.cursor - firstSlot + step)) = step := by
  have hspan : s.span = s.limit := rfl
  rw [wrapped_eq_emod s (hspan ▸ h), hspan, firstSlot, Int.natCast_zero, sub_zero]
  have hnonneg := Int.emod_nonneg (s.cursor + step) (b := s.limit) (by omega)
  have hlt := Int.emod_lt_of_pos (s.cursor + step) (b := s.limit) (by omega)
  constructor
  · omega
  · rw [ahead, Int.toNat_of_nonneg hnonneg, Int.emod_sub_emod, add_sub_cancel_left]
    exact Int.emod_eq_of_lt (by omega) (by omega)

/-- **A search takes the first free slot ahead of the cursor.** -/
theorem nextFree_eq_some {free : ℕ} (hfree : s.nextFree = some free) :
    free < s.limit ∧ ¬s.Held free ∧
      ∀ slot < s.limit, s.ahead slot < s.ahead free → s.Held slot := by
  rw [nextFree, List.find?_map, Option.map_eq_some_iff] at hfree
  obtain ⟨step, hfind, rfl⟩ := hfree
  rw [List.find?_range_eq_some] at hfind
  obtain ⟨hnot, hstep, hbefore⟩ := hfind
  have hstep : step < s.limit := List.mem_range.mp hstep
  obtain ⟨hlt, hahead⟩ := ahead_wrapped h hstep
  refine ⟨hlt, ?_, fun slot hslot hslot' => ?_⟩
  · rw [← mem_taken_iff]
    simpa using hnot
  · rw [hahead] at hslot'
    have hnonneg := ahead_nonneg h slot
    have hpassed := hbefore (s.ahead slot).toNat (by omega)
    rw [Function.comp_apply, Int.toNat_of_nonneg hnonneg, wrapped_ahead h hslot] at hpassed
    rw [← mem_taken_iff]
    simpa using hpassed

/-- **A search finds nothing exactly where every slot is held.** -/
theorem nextFree_eq_none_iff : s.nextFree = none ↔ ∀ slot < s.limit, s.Held slot := by
  rw [nextFree, List.find?_map, Option.map_eq_none_iff, List.find?_range_eq_none]
  constructor
  · intro hall slot hslot
    have hnonneg := ahead_nonneg h slot
    have hlt := ahead_lt h slot
    have hpassed := hall (s.ahead slot).toNat (by rw [span, firstSlot]; omega)
    rw [Function.comp_apply, Int.toNat_of_nonneg hnonneg, wrapped_ahead h hslot] at hpassed
    rw [← mem_taken_iff]
    simpa using hpassed
  · intro hall step hstep
    have hheld := hall _ (ahead_wrapped h hstep).1
    rw [← mem_taken_iff] at hheld
    simpa using hheld

/-- What lies further ahead than `passed` is that much closer once the cursor is past it. -/
theorem ahead_moved (passed slot : ℕ) (hlt : s.ahead passed < s.ahead slot) :
    ((slot : ℤ) - (passed + 1)) % s.limit = s.ahead slot - s.ahead passed - 1 := by
  have hslot : (slot : ℤ) - s.cursor = s.limit * ((slot - s.cursor) / s.limit) + s.ahead slot :=
    (Int.mul_ediv_add_emod _ _).symm
  have hpassed : (passed : ℤ) - s.cursor =
      s.limit * ((passed - s.cursor) / s.limit) + s.ahead passed :=
    (Int.mul_ediv_add_emod _ _).symm
  have hnonneg := ahead_nonneg h passed
  have hbound := ahead_lt h slot
  calc ((slot : ℤ) - (passed + 1)) % s.limit
      = (s.ahead slot - s.ahead passed - 1 +
          s.limit * ((slot - s.cursor) / s.limit - (passed - s.cursor) / s.limit)) % s.limit := by
        congr 1
        rw [mul_sub]
        omega
    _ = (s.ahead slot - s.ahead passed - 1) % s.limit := Int.add_mul_emod_self_left ..
    _ = s.ahead slot - s.ahead passed - 1 := Int.emod_eq_of_lt (by omega) (by omega)

end Search

/-! ### What an operation does -/

/-- The allocator once a free slot is handed to the app. -/
def issued (s : SlotAllocator) (app : AppId) (free : ℕ) : SlotAllocator :=
  { s with assignments := s.assignments.insert app free, cursor := free + 1 }

theorem slotOf_issued (s : SlotAllocator) (app other : AppId) (free : ℕ) :
    (s.issued app free).slotOf other = if app = other then some free else s.slotOf other :=
  ExtTreeMap.getElem?_insert_ite s.assignments app other free

theorem slotOf_restore (s : SlotAllocator) (assignments : ExtTreeMap AppId ℕ) (cursor : ℤ)
    (app : AppId) {slot : ℕ} (h : (s.restore assignments cursor).slotOf app = some slot) :
    assignments[app]? = some slot ∧ firstSlot ≤ slot ∧ slot < s.limit := by
  rw [slotOf, restore, ExtTreeMap.getElem?_filter', Option.filter_eq_some_iff,
    decide_eq_true_iff] at h
  exact h

/-- **What an allocation does**: it hands back the slot the app holds, is refused, or hands out
the first free slot ahead of the cursor and moves the cursor past it. -/
theorem attempt_cases (s : SlotAllocator) (app : AppId) :
    (∃ slot, s.slotOf app = some slot ∧ s.attempt app = (.ok (describeSlot slot app), s)) ∨
    (s.slotOf app = none ∧ s.nextFree = none ∧ s.attempt app = (.error ⟨s.limit⟩, s)) ∨
    ∃ free, s.slotOf app = none ∧ s.nextFree = some free ∧
      s.attempt app = (.ok (describeSlot free app), s.issued app free) := by
  cases hslot : s.slotOf app with
  | some slot =>
    refine .inl ⟨slot, rfl, ?_⟩
    rw [attempt, allocate_of_held hslot]
  | none =>
    rw [slotOf] at hslot
    cases hnext : s.nextFree with
    | none =>
      refine .inr (.inl ⟨rfl, rfl, ?_⟩)
      simp only [attempt, allocate, hslot, hnext, Option.map_none]
    | some free =>
      refine .inr (.inr ⟨free, rfl, rfl, ?_⟩)
      simp only [attempt, allocate, hslot, hnext, Option.map_some]
      rfl

theorem ring_addressing {maxApps : ℕ} (hone : 1 ≤ maxApps) (hfit : maxApps ≤ mostAppsThePortsFit) :
    (addressing maxApps).Ring where
  injective a b slot ha _ := by
    rw [slotOf, addressing, ExtTreeMap.getElem?_empty] at ha
    cases ha
  inside app slot happ := by
    rw [slotOf, addressing, ExtTreeMap.getElem?_empty] at happ
    cases happ
  some_slot := hone
  fits := hfit

/-- Handing out a free slot of the ring. -/
theorem Ring.issued {s : SlotAllocator} (hs : s.Ring) {free : ℕ} (hlt : free < s.limit)
    (hfree : ¬s.Held free) (app : AppId) : (s.issued app free).Ring where
  injective a b slot ha hb := by
    rw [slotOf_issued] at ha hb
    split at ha <;> split at hb
    · rename_i haa hba
      exact haa.symm.trans hba
    · cases ha
      exact absurd ⟨b, hb⟩ hfree
    · cases hb
      exact absurd ⟨a, ha⟩ hfree
    · exact hs.injective a b slot ha hb
  inside other slot hother := by
    rw [slotOf_issued] at hother
    split at hother
    · cases hother
      exact ⟨Nat.zero_le _, hlt⟩
    · exact hs.inside other slot hother
  some_slot := hs.some_slot
  fits := hs.fits

/-- **Every operation keeps the ring.** -/
theorem Ring.step {s : SlotAllocator} (hs : s.Ring) {op : Op} (hop : op.Allowed) :
    (s.step op).Ring := by
  cases op with
  | restore assignments cursor =>
    refine ⟨fun a b slot ha hb => ?_, fun app slot happ => ?_, hs.some_slot, hs.fits⟩
    · exact hop a b slot (slotOf_restore s _ _ a ha).1 (slotOf_restore s _ _ b hb).1
    · exact (slotOf_restore s _ _ app happ).2
  | allocate app =>
    rw [SlotAllocator.step]
    -- the app has a slot, there is none, or it gets the next free one
    rcases attempt_cases s app with ⟨slot, -, heq⟩ | ⟨-, -, heq⟩ | ⟨free, -, hnext, heq⟩
    · rw [heq]
      exact hs
    · rw [heq]
      exact hs
    · rw [heq]
      obtain ⟨hlt, hfree, -⟩ := nextFree_eq_some hs.some_slot hnext
      exact hs.issued hlt hfree app
  | release app =>
    refine ⟨hs.injective.release app, fun other slot hother => ?_, hs.some_slot, hs.fits⟩
    rw [SlotAllocator.step, slotOf_release] at hother
    split at hother
    · cases hother
    · exact hs.inside other slot hother
  | grow limit =>
    refine ⟨hs.injective, fun app slot happ => ?_, ?_, max_le hs.fits hop⟩
    · obtain ⟨hfirst, hlt⟩ := hs.inside app slot happ
      exact ⟨hfirst, lt_max_of_lt_left hlt⟩
    · exact le_max_of_le_left hs.some_slot

theorem ring_run {s : SlotAllocator} (hs : s.Ring) {ops : List Op} (hops : ∀ op ∈ ops, op.Allowed) :
    (Run.run SlotAllocator.step s ops).Ring := by
  induction ops generalizing s with
  | nil => exact hs
  | cons op ops ih =>
    exact ih (hs.step (hops op List.mem_cons_self)) fun op' hop' =>
      hops op' (List.mem_cons_of_mem _ hop')

/-! ### A slot comes back only after every other one -/

section Between

variable {s : SlotAllocator} {ops : List Op} {slot : ℕ}

/-- Some app held the slot in a state the operations went through. -/
def HeldDuring (s : SlotAllocator) (ops : List Op) (slot : ℕ) : Prop :=
  ∃ before, before <+: ops ∧ (Run.run SlotAllocator.step s before).Held slot

theorem HeldDuring.append (h : s.HeldDuring ops slot) (later : List Op) :
    s.HeldDuring (ops ++ later) slot := by
  obtain ⟨before, hprefix, hheld⟩ := h
  exact ⟨before, hprefix.trans (List.prefix_append ops later), hheld⟩

theorem HeldDuring.now (h : (Run.run SlotAllocator.step s ops).Held slot) :
    s.HeldDuring ops slot :=
  ⟨ops, List.prefix_rfl, h⟩

theorem limit_le_step (s : SlotAllocator) (op : Op) : s.limit ≤ (s.step op).limit := by
  cases op with
  | restore assignments cursor => exact Nat.le_refl _
  | allocate app =>
    rw [step]
    rcases attempt_cases s app with ⟨slot, -, heq⟩ | ⟨-, -, heq⟩ | ⟨free, -, -, heq⟩
    · rw [heq]
    · rw [heq]
    · rw [heq]
      exact Nat.le_refl _
  | release app => exact Nat.le_refl _
  | grow limit => exact le_max_left _ _

theorem limit_le_run (s : SlotAllocator) (ops : List Op) :
    s.limit ≤ (Run.run step s ops).limit :=
  Run.invariant (I := fun t => s.limit ≤ t.limit)
    (fun t op ht => ht.trans (limit_le_step t op)) (Nat.le_refl _) ops

theorem ahead_injective {m k : ℕ} (h : 1 ≤ s.limit) (hm : m < s.limit) (hk : k < s.limit)
    (heq : s.ahead m = s.ahead k) : m = k := by
  rw [← wrapped_ahead h hm, heq, wrapped_ahead h hk]

theorem Issues.nextFree {app : AppId} (h : s.Issues app slot) :
    s.nextFree = some slot ∧ (s.step (.allocate app)) = s.issued app slot := by
  obtain ⟨hnone, hok⟩ := h
  rw [step]
  rcases attempt_cases s app with ⟨held, hheld, -⟩ | ⟨-, -, heq⟩ | ⟨free, -, hnext, heq⟩
  · rw [hnone] at hheld
    cases hheld
  · rw [heq] at hok
    cases hok
  · rw [heq] at hok ⊢
    have hfree : free = slot := congrArg AppSlot.slot (Except.ok.inj hok)
    rw [hnext, hfree]
    exact ⟨rfl, rfl⟩

theorem issues_of_nextFree {app : AppId} (hnone : s.slotOf app = none)
    (hnext : s.nextFree = some slot) : s.Issues app slot := by
  refine ⟨hnone, ?_⟩
  rcases attempt_cases s app with ⟨held, hheld, -⟩ | ⟨-, hfull, -⟩ | ⟨free, -, hfree, heq⟩
  · rw [hnone] at hheld
    cases hheld
  · rw [hnext] at hfull
    cases hfull
  · rw [heq, Option.some.inj (hnext.symm.trans hfree)]

/-- Each slot other than `n` was held, or lies ahead of the cursor before `n` does. -/
def Swept (s : SlotAllocator) (n : ℕ) (held : ℕ → Prop) : Prop :=
  ∀ slot < s.limit, slot ≠ n → held slot ∨ s.ahead slot < s.ahead n

variable {n : ℕ} {held : ℕ → Prop}

/-- Right behind the cursor, `n` is the last of all. -/
theorem swept_issued (h : 1 ≤ s.limit) (hn : n < s.limit) (app : AppId) :
    (s.issued app n).Swept n held := by
  intro slot hslot hne
  right
  have hlast : (s.issued app n).ahead n = s.limit - 1 := by
    have hminus : (n : ℤ) - (n + 1) = s.limit - 1 + s.limit * (-1) := by omega
    change ((n : ℤ) - (n + 1)) % s.limit = s.limit - 1
    rw [hminus, Int.add_mul_emod_self_left]
    exact Int.emod_eq_of_lt (by omega) (by omega)
  have hlt : (s.issued app n).ahead slot < s.limit := ahead_lt (s := s.issued app n) h slot
  have hdiff : (s.issued app n).ahead slot ≠ (s.issued app n).ahead n :=
    fun heq => hne (ahead_injective (s := s.issued app n) h hslot hn heq)
  omega

/-- **A sweep goes on**: an operation other than a restore passes over held slots only. -/
theorem Swept.step (h : 1 ≤ s.limit) (hs : s.Swept n held) {op : Op}
    (hop : op.isRestore = false) (hlimit : (s.step op).limit = s.limit) :
    (s.step op).Swept n fun slot => held slot ∨ s.Held slot ∨ (s.step op).Held slot := by
  intro slot hslot hne
  rw [hlimit] at hslot
  rcases hs slot hslot hne with hheld | hahead
  · exact .inl (.inl hheld)
  · cases op with
    | restore assignments cursor => cases hop
    | release app => exact .inr hahead
    | grow limit =>
      right
      change (_ : ℤ) % (s.step (.grow limit)).limit < _ % (s.step (.grow limit)).limit
      rw [hlimit]
      exact hahead
    | allocate app =>
      rw [SlotAllocator.step]
      rcases attempt_cases s app with ⟨own, -, heq⟩ | ⟨-, -, heq⟩ | ⟨free, -, hnext, heq⟩
      · rw [heq]
        exact .inr hahead
      · rw [heq]
        exact .inr hahead
      · rw [heq]
        obtain ⟨hfree, -, hpassed⟩ := nextFree_eq_some h hnext
        by_cases hsame : slot = free
        · refine .inl (.inr (.inr ⟨app, ?_⟩))
          rw [slotOf_issued, if_pos rfl, hsame]
        · by_cases hbehind : s.ahead slot < s.ahead free
          · exact .inl (.inr (.inl (hpassed slot hslot hbehind)))
          · -- the cursor stops short of the slot, and so of `n` behind it
            have hdiff : s.ahead slot ≠ s.ahead free :=
              fun heq => hsame (ahead_injective h hslot hfree heq)
            have hslot' := ahead_moved h free slot (by omega)
            have hn' := ahead_moved h free n (by omega)
            right
            change ((slot : ℤ) - (free + 1)) % s.limit < ((n : ℤ) - (free + 1)) % s.limit
            omega

theorem swept_run (h : 1 ≤ s.limit) (hs : s.Swept n held)
    (hops : ∀ op ∈ ops, op.isRestore = false)
    (hlimit : (Run.run SlotAllocator.step s ops).limit = s.limit) :
    (Run.run SlotAllocator.step s ops).Swept n fun slot => held slot ∨ s.HeldDuring ops slot := by
  induction ops using List.reverseRecOn with
  | nil =>
    intro slot hslot hne
    exact (hs slot hslot hne).imp_left .inl
  | append_singleton ops op ih =>
    rw [Run.run_append, Run.run_cons, Run.run_nil] at hlimit ⊢
    -- a limit that is the same at the end was the same all along
    have hstay : (Run.run SlotAllocator.step s ops).limit = s.limit := by
      have hup := limit_le_run s ops
      have hon := limit_le_step (Run.run SlotAllocator.step s ops) op
      omega
    have hswept := ih (fun op' hop' => hops op' (List.mem_append_left _ hop')) hstay
    have hone : 1 ≤ (Run.run SlotAllocator.step s ops).limit := hstay ▸ h
    have hstep := hswept.step hone (hops op (by simp)) (hlimit.trans hstay.symm)
    intro slot hslot hne
    rcases hstep slot hslot hne with ((hheld | hduring) | hnow | hthen) | hahead
    · exact .inl (.inl hheld)
    · exact .inl (.inr (hduring.append _))
    · exact .inl (.inr ((HeldDuring.now hnow).append _))
    · refine .inl (.inr (HeldDuring.now ?_))
      rw [Run.run_append]
      exact hthen
    · exact .inr hahead

/-- **A slot comes back only after every other one was held**: between two issues of a slot, with
nothing restored and the ring no larger, every other slot was held at some moment. -/
theorem held_between (hs : s.Ring) {first second : AppId} (hissue : s.Issues first n)
    (hops : ∀ op ∈ ops, op.isRestore = false)
    (hlimit : (Run.run SlotAllocator.step s (.allocate first :: ops)).limit = s.limit)
    (hagain : (Run.run SlotAllocator.step s (.allocate first :: ops)).Issues second n) :
    ∀ slot < s.limit, slot ≠ n → (s.step (.allocate first)).HeldDuring ops slot := by
  obtain ⟨hnext, heq⟩ := hissue.nextFree
  have hn := (nextFree_eq_some hs.some_slot hnext).1
  rw [Run.run_cons, heq] at hlimit hagain
  rw [heq]
  have hstart : (s.issued first n).Swept n fun _ => False := swept_issued hs.some_slot hn first
  have hswept := swept_run (s := s.issued first n) hs.some_slot hstart hops hlimit
  intro slot hslot hne
  rcases hswept slot (hlimit ▸ hslot) hne with (hfalse | hduring) | hahead
  · exact hfalse.elim
  · exact hduring
  · have hone := hlimit ▸ hs.some_slot
    have hpassed := (nextFree_eq_some hone hagain.nextFree.1).2.2
    exact HeldDuring.now (hpassed slot (hlimit ▸ hslot) hahead)

end Between

/-! ### The ring -/

/-- **The ring of slots.** In every run of an allocator of a host laid out for no more apps than
its ports fit: no slot is held twice and every slot held is on the ring; an allocation hands back
the slot the app holds, and else is refused exactly where every slot is held, leaving the
allocator as it was; a slot is not issued again, with nothing restored in between and the ring no
larger, before every other slot was held; and the slots of the ring are apart, with their ports
in the reserved range and no one's device that of the export reader. -/
theorem slot_ring {maxApps : ℕ} (hone : 1 ≤ maxApps) (hfit : maxApps ≤ mostAppsThePortsFit)
    {ops : List Op} (hops : ∀ op ∈ ops, op.Allowed) {s : SlotAllocator}
    (hs : s = Run.run step (addressing maxApps) ops) :
    s.Injective ∧
    (∀ app slot, s.slotOf app = some slot → firstSlot ≤ slot ∧ slot < s.limit) ∧
    (∀ app slot, s.slotOf app = some slot → s.attempt app = (.ok (describeSlot slot app), s)) ∧
    (∀ app, s.slotOf app = none →
      ((∃ e, (s.attempt app).1 = .error e) ↔
        ∀ slot, firstSlot ≤ slot → slot < s.limit → s.Held slot) ∧
      ∀ e, (s.attempt app).1 = .error e → (s.attempt app).2 = s) ∧
    (∀ n first second later, (∀ op ∈ later, op.isRestore = false) → s.Issues first n →
      (Run.run step s (.allocate first :: later)).limit = s.limit →
      (Run.run step s (.allocate first :: later)).Issues second n →
      ∀ slot, firstSlot ≤ slot → slot < s.limit → slot ≠ n →
        (s.step (.allocate first)).HeldDuring later slot) ∧
    (∀ m n app other, m < s.limit → n < s.limit → m ≠ n →
      (describeSlot m app).Apart (describeSlot n other)) ∧
    (∀ slot index, slot < s.limit → index < portsPerSlot →
      ∃ low high port, reservedPortRange s.limit = some (low, high) ∧
        hostPortAt slot index = some port ∧ low ≤ port ∧ port ≤ high) ∧
    ∀ slot app, slot < s.limit →
      (describeSlot slot app).nbdDevicePath ≠ exportReaderDevicePath s.limit := by
  have hring : s.Ring := hs ▸ ring_run (ring_addressing hone hfit) hops
  refine ⟨hring.injective, hring.inside, ?_, ?_, ?_, ?_, ?_, ?_⟩
  · intro app slot hslot
    rw [attempt, allocate_of_held hslot]
  · intro app hnone
    rcases attempt_cases s app with ⟨slot, hslot, -⟩ | ⟨-, hnext, heq⟩ | ⟨free, -, hnext, heq⟩
    · rw [hnone] at hslot
      cases hslot
    · rw [heq]
      refine ⟨iff_of_true ⟨_, rfl⟩ fun slot _ hslot => ?_, fun e _ => rfl⟩
      exact (nextFree_eq_none_iff hring.some_slot).mp hnext slot hslot
    · rw [heq]
      refine ⟨iff_of_false (fun ⟨e, he⟩ => by cases he) fun hall => ?_, fun e he => by cases he⟩
      -- an allocation that went through found a slot that was not held
      obtain ⟨hlt, hfree, -⟩ := nextFree_eq_some hring.some_slot hnext
      exact hfree (hall free (Nat.zero_le _) hlt)
  · intro n first second later hlater hissue hlimit hagain slot _ hslot hne
    exact held_between hring hissue hlater hlimit hagain slot hslot hne
  · intro m n app other hm hn hne
    exact describeSlot_apart (hm.trans_le hring.fits) (hn.trans_le hring.fits) hne app other
  · intro slot index hslot hindex
    exact hostPortAt_mem_reserved hslot hring.fits hindex
  · intro slot app hslot heq
    exact absurd (nbdDevicePath_injective heq) (Nat.ne_of_lt hslot)

/-- What happens on a ring of three from the first slot's release until it is issued again. -/
def onceAround : List Op :=
  [.release ⟨"a"⟩, .allocate ⟨"b"⟩, .release ⟨"b"⟩, .allocate ⟨"c"⟩]

theorem slot_ring_onceAround :
    ((addressing 3).step (.allocate ⟨"a"⟩)).HeldDuring onceAround 1 ∧
      ((addressing 3).step (.allocate ⟨"a"⟩)).HeldDuring onceAround 2 := by
  have hheld := (slot_ring (by decide : 1 ≤ 3) (by decide) (List.forall_mem_nil _) rfl).2.2.2.2.1 0
    ⟨"a"⟩ ⟨"d"⟩ onceAround (by decide) (issues_of_nextFree (by decide +kernel) (by decide +kernel))
    rfl (issues_of_nextFree (by decide +kernel) (by decide +kernel))
  exact ⟨hheld 1 (by decide) (by decide) (by decide), hheld 2 (by decide) (by decide) (by decide)⟩

/-- A restore may put the cursor back: the slot just released is issued again, and the other one
was held at no moment in between. -/
theorem restored_cursor_reissues :
    (∀ op ∈ [Op.release ⟨"a"⟩, Op.restore ∅ 0], op.Allowed) ∧
    (addressing 2).Issues ⟨"a"⟩ 0 ∧
    (Run.run step (addressing 2) [.allocate ⟨"a"⟩, .release ⟨"a"⟩, .restore ∅ 0]).limit =
      (addressing 2).limit ∧
    (Run.run step (addressing 2) [.allocate ⟨"a"⟩, .release ⟨"a"⟩, .restore ∅ 0]).Issues ⟨"b"⟩ 0 ∧
    ¬((addressing 2).step (.allocate ⟨"a"⟩)).HeldDuring [.release ⟨"a"⟩, .restore ∅ 0] 1 := by
  refine ⟨?_, issues_of_nextFree (by decide +kernel) (by decide +kernel), rfl,
    issues_of_nextFree (by decide +kernel) (by decide +kernel), ?_⟩
  · intro op hop
    simp only [List.mem_cons, List.not_mem_nil, or_false] at hop
    rcases hop with rfl | rfl
    · trivial
    · intro a b slot ha
      rw [ExtTreeMap.getElem?_empty] at ha
      cases ha
  · rintro ⟨before, hbefore, hheld⟩
    rw [← mem_taken_iff] at hheld
    simp only [List.prefix_cons_iff, List.prefix_nil] at hbefore
    obtain rfl | ⟨_, rfl, rfl | ⟨_, rfl, rfl⟩⟩ := hbefore
    · exact absurd hheld (by decide +kernel)
    · exact absurd hheld (by decide +kernel)
    · exact absurd hheld (by decide +kernel)

end SlotAllocator

end Nibrunner

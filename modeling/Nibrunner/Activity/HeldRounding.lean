import Mathlib.Tactic.Ring
import Nibrunner.Activity.Meters

/-!
# What metering a level rounds away

`heldFor` rounds twice: the level down to whole mebibytes, and the mebibyte-milliseconds down to
whole seconds. The second floor takes less than a mebibyte-second from a pass; the first takes up to
a mebibyte for as long as the pass is. `HeldLevel.leftOut` is both together, and `rounds_under_iff`
says when what a sequence of passes leaves out stays under a mebibyte-second a pass.
-/

namespace Nibrunner

/-- A level, and the time a pass holds it for. -/
structure HeldLevel where
  bytes : UInt64
  elapsedMs : UInt64
deriving DecidableEq

/-- A mebibyte-second, in byte-milliseconds. -/
def mibSecond : ℕ := bytesPerMib * millisPerSecond

namespace HeldLevel

variable (p : HeldLevel)

/-- What the pass comes to before anything is rounded, in byte-milliseconds. -/
def exact : ℕ := p.bytes.toNat * p.elapsedMs.toNat

def held : ℕ := (heldFor p.bytes p.elapsedMs).toNat

/-- The product of `heldFor` fits its type. -/
def Unsaturated : Prop := p.bytes.toNat / bytesPerMib * p.elapsedMs.toNat < 2 ^ 64

/-- What the two floors leave out, in byte-milliseconds. -/
def leftOut : ℕ :=
  p.bytes.toNat % bytesPerMib * p.elapsedMs.toNat +
    bytesPerMib * (p.bytes.toNat / bytesPerMib * p.elapsedMs.toNat % millisPerSecond)

instance : Decidable p.Unsaturated := inferInstanceAs (Decidable (_ < _))

variable {p}

theorem held_eq (h : p.Unsaturated) :
    p.held = p.bytes.toNat / bytesPerMib * p.elapsedMs.toNat / millisPerSecond := by
  have hsmall : p.bytes.toNat / bytesPerMib * p.elapsedMs.toNat ≤ 2 ^ 64 - 1 :=
    Nat.le_sub_one_of_lt h
  rw [held, heldFor, min_eq_left hsmall]
  exact UInt64.toNat_ofNat_of_lt' (Nat.lt_of_le_of_lt (Nat.div_le_self _ _) h)

/-- **What a pass is metered and what it leaves out make up all of it.** -/
theorem exact_eq (h : p.Unsaturated) : p.exact = p.held * mibSecond + p.leftOut := by
  have hbytes := Nat.div_add_mod p.bytes.toNat bytesPerMib
  have hmillis := Nat.div_add_mod (p.bytes.toNat / bytesPerMib * p.elapsedMs.toNat) millisPerSecond
  rw [held_eq h, exact, leftOut, mibSecond]
  generalize p.bytes.toNat / bytesPerMib * p.elapsedMs.toNat / millisPerSecond = seconds at *
  generalize p.bytes.toNat / bytesPerMib * p.elapsedMs.toNat % millisPerSecond = rest at *
  calc p.bytes.toNat * p.elapsedMs.toNat
      = bytesPerMib * (p.bytes.toNat / bytesPerMib * p.elapsedMs.toNat) +
          p.bytes.toNat % bytesPerMib * p.elapsedMs.toNat := by
        rw [← Nat.mul_assoc, ← Nat.add_mul, hbytes]
    _ = bytesPerMib * (millisPerSecond * seconds + rest) +
          p.bytes.toNat % bytesPerMib * p.elapsedMs.toNat := by rw [hmillis]
    _ = seconds * (bytesPerMib * millisPerSecond) +
          (p.bytes.toNat % bytesPerMib * p.elapsedMs.toNat + bytesPerMib * rest) := by ring

end HeldLevel

/-! ### A sequence of passes -/

/-- The sum over the passes. -/
def overPasses (f : HeldLevel → ℕ) (passes : List HeldLevel) : ℕ :=
  passes.foldr (fun p total => f p + total) 0

/-- The passes are metered at most what they come to, and less than a mebibyte-second a pass below
it; both sides of either bound are in byte-milliseconds. -/
def RoundsUnder (passes : List HeldLevel) : Prop :=
  overPasses HeldLevel.held passes * mibSecond ≤ overPasses HeldLevel.exact passes ∧
    overPasses HeldLevel.exact passes <
      (overPasses HeldLevel.held passes + passes.length) * mibSecond

theorem exact_overPasses {passes : List HeldLevel} (h : ∀ p ∈ passes, p.Unsaturated) :
    overPasses HeldLevel.exact passes =
      overPasses HeldLevel.held passes * mibSecond + overPasses HeldLevel.leftOut passes := by
  induction passes with
  | nil => simp [overPasses]
  | cons p passes ih =>
    rw [List.forall_mem_cons] at h
    have hp := HeldLevel.exact_eq h.1
    have hpasses := ih h.2
    simp only [overPasses, List.foldr_cons] at hpasses ⊢
    rw [hp, hpasses, Nat.add_mul]
    omega

/-- **Metering rounds by less than a mebibyte-second a pass exactly where** what the two floors
leave out of all the passes is less than that. -/
theorem rounds_under_iff (passes : List HeldLevel) (h : ∀ p ∈ passes, p.Unsaturated) :
    RoundsUnder passes ↔ overPasses HeldLevel.leftOut passes < passes.length * mibSecond := by
  rw [RoundsUnder, exact_overPasses h, Nat.add_mul, Nat.add_lt_add_iff_left]
  exact and_iff_right (Nat.le_add_right _ _)

/-- Eight gibibytes held for two passes. -/
theorem rounds_under_iff_eightGib :
    RoundsUnder [⟨8589934592, 5000⟩, ⟨8589934592, 5001⟩] :=
  (rounds_under_iff _ (by decide)).mpr (by decide)

/-- A byte short of a mebibyte, held for one pass of five seconds, is metered as nothing. -/
theorem level_rounded_away :
    (⟨1048575, 5000⟩ : HeldLevel).Unsaturated ∧ ¬RoundsUnder [⟨1048575, 5000⟩] := by
  rw [RoundsUnder]
  decide

end Nibrunner

import Mathlib.Algebra.Order.Ring.Int

/-!
# Fixed-width integers

Counters are natural numbers and clock readings integers throughout; this file holds the three
places where the machine type shows: a 64-bit unsigned number read as a signed one (`asI64`), a
32-bit counter that wraps (`wrapU32`), and a subtraction that stops at zero (`saturatingSub`).
-/

namespace MachineInt

/-- An unsigned 64-bit number read as a signed one: two's complement, so that the upper half of
the range is negative. -/
def asI64 (n : ℕ) : ℤ := if n < 2 ^ 63 then n else n - 2 ^ 64

/-- Below `2 ^ 63` the cast keeps the value. -/
theorem asI64_of_lt {n : ℕ} (h : n < 2 ^ 63) : asI64 n = n := if_pos h

/-- A 32-bit counter after an unchecked addition: it wraps. -/
def wrapU32 (n : ℕ) : ℕ := n % 2 ^ 32

/-- A counter that fits does not wrap. -/
theorem wrapU32_of_lt {n : ℕ} (h : n < 2 ^ 32) : wrapU32 n = n := Nat.mod_eq_of_lt h

/-- A subtraction that stops at zero. It tests before it subtracts, so that a large constant on
the right is never counted down to. -/
def saturatingSub (a b : ℕ) : ℕ := if a < b then 0 else a - b

/-- A saturating subtraction is the truncated one of the natural numbers. -/
theorem saturatingSub_eq_sub (a b : ℕ) : saturatingSub a b = a - b := by
  rw [saturatingSub]
  split
  · omega
  · rfl

end MachineInt

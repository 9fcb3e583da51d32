import Mathlib.Data.List.Basic

/-!
# Stream sockets

One direction of a stream between two parties: what its writer wrote and its reader has not read
yet, in the order it was written in, and whether the writer is gone. A reader takes what is there
from the front, as little or as much of it as it likes; `take_append_pending` says that nothing is
lost or turned round by it.
-/

universe u

/-- One direction of a stream. -/
structure Socket (β : Type u) where
  pending : List β
  ended : Bool
deriving DecidableEq

namespace Socket

variable {β : Type u} (s : Socket β)

/-- A stream nothing was written to. -/
def fresh : Socket β := ⟨[], false⟩

def write (bytes : List β) : Socket β := { s with pending := s.pending ++ bytes }

/-- The front is read. -/
def drop (n : ℕ) : Socket β := { s with pending := s.pending.drop n }

/-- The writer is gone; what it wrote may still be read. -/
def finish : Socket β := { s with ended := true }

/-- All was read, and no more will come. -/
def atEnd : Bool := s.pending.isEmpty && s.ended

/-- A read would not block. -/
def isReadable : Bool := !s.pending.isEmpty || s.ended

@[simp] theorem pending_write (bytes : List β) : (s.write bytes).pending = s.pending ++ bytes := rfl

@[simp] theorem ended_write (bytes : List β) : (s.write bytes).ended = s.ended := rfl

@[simp] theorem pending_drop (n : ℕ) : (s.drop n).pending = s.pending.drop n := rfl

variable {s}

theorem write_nil : s.write [] = s := by
  rw [write, List.append_nil]

/-- What is read and what is left make up what was there. -/
theorem take_append_pending (n : ℕ) : s.pending.take n ++ (s.drop n).pending = s.pending :=
  List.take_append_drop n s.pending

theorem atEnd_iff : s.atEnd = true ↔ s.pending = [] ∧ s.ended = true := by
  rw [atEnd, Bool.and_eq_true, List.isEmpty_iff]

theorem isReadable_iff : s.isReadable = true ↔ s.pending ≠ [] ∨ s.ended = true := by
  rw [isReadable, Bool.or_eq_true, Bool.not_eq_true', List.isEmpty_eq_false_iff]

end Socket

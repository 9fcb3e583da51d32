import Nibrunner.ForStd.Fallible

/-!
# Reading back what was written

A reader takes what is written apart, or refuses it, and a printer writes what was read. What was
read from anything at all survives being written where the reader reads it back (`ReadsBack`): it
need not be written as it was, only as something that is read as the same. The parts of a document
are read back one by one: one that may be missing, one that must be there, a list, one that is
checked.
-/

namespace Except

universe u v

variable {ε : Type u} {α β γ : Type v} {read : α → Except ε β} {print : β → α}

/-- What was read is read again from what it is written as. -/
def ReadsBack (read : α → Except ε β) (print : β → α) : Prop :=
  ∀ a b, read a = .ok b → read (print b) = .ok b

/-- A part that may be missing. -/
def optional (read : α → Except ε β) : Option α → Except ε (Option β)
  | none => .ok none
  | some a => (read a).map some

theorem ReadsBack.optional (h : ReadsBack read print) :
    ReadsBack (Except.optional read) (Option.map print) := by
  intro a b hread
  cases a with
  | none =>
    cases hread
    rfl
  | some a =>
    obtain ⟨value, hvalue, rfl⟩ := map_eq_ok_iff.mp hread
    exact map_eq_ok_iff.mpr ⟨value, h a value hvalue, rfl⟩

/-- A part that must be there. -/
theorem ReadsBack.required (e : ε) (h : ReadsBack read print) :
    ReadsBack (fun a => ofOption e a >>= read) (some ∘ print) := by
  intro a b hread
  obtain ⟨value, -, hvalue⟩ := bind_eq_ok_iff.mp hread
  exact bind_eq_ok_iff.mpr ⟨print b, rfl, h value b hvalue⟩

theorem ReadsBack.list (h : ReadsBack read print) :
    ReadsBack (List.mapM read) (List.map print) := by
  intro l values hread
  induction l generalizing values with
  | nil =>
    cases hread
    rfl
  | cons a l ih =>
    rw [List.mapM_cons] at hread
    obtain ⟨value, hvalue, hread⟩ := bind_eq_ok_iff.mp hread
    obtain ⟨others, hothers, hread⟩ := bind_eq_ok_iff.mp hread
    cases hread
    rw [List.map_cons, List.mapM_cons]
    refine bind_eq_ok_iff.mpr ⟨value, h a value hvalue, ?_⟩
    exact bind_eq_ok_iff.mpr ⟨others, ih others hothers, rfl⟩

end Except

import Mathlib.Data.List.Basic

/-!
# Computations that may be stuck

A reader of bytes a peer chose ends in a value, in an error of its own, or it is stuck: it reached
past the end of what it was given, or a loop ran out of the rounds it was allowed. `Checked` keeps
the three apart, so that a model may index the way its program does and "it always ends" is a
statement about the model. `Checked.Ends.bind` is the rule that carries it through a sequence, and
`index_of_lt` and `slice_of_le` are what discharges an access.
-/

universe u v w

/-- What a computation ends in: a value, an error, or it is stuck. -/
inductive Checked (ε : Type u) (α : Type v) where
  | ok (a : α)
  | error (e : ε)
  | stuck
deriving DecidableEq

namespace Checked

variable {ε : Type u} {α : Type v} {β : Type w}

/-- One computation after another. -/
protected def bind (x : Checked ε α) (f : α → Checked ε β) : Checked ε β :=
  match x with
  | .ok a => f a
  | .error e => .error e
  | .stuck => .stuck

instance : Monad (Checked ε) where
  pure := .ok
  bind := Checked.bind

section Monad

variable {α β : Type v}

@[simp] theorem ok_bind (a : α) (f : α → Checked ε β) : (.ok a >>= f) = f a := rfl

@[simp] theorem error_bind (e : ε) (f : α → Checked ε β) : (.error e >>= f) = .error e := rfl

theorem pure_eq (a : α) : (pure a : Checked ε α) = .ok a := rfl

theorem bind_eq_ok_iff {x : Checked ε α} {f : α → Checked ε β} {b : β} :
    (x >>= f) = .ok b ↔ ∃ a, x = .ok a ∧ f a = .ok b := by
  constructor
  · intro h
    match x, h with
    | .ok a, h => exact ⟨a, rfl, h⟩
  · rintro ⟨a, rfl, h⟩
    exact h

end Monad

/-! ### Ending -/

/-- The computation is not stuck. -/
def Ends (x : Checked ε α) : Prop := x ≠ .stuck

@[simp] theorem ends_ok (a : α) : (ok a : Checked ε α).Ends := fun h => by cases h

@[simp] theorem ends_error (e : ε) : (error e : Checked ε α).Ends := fun h => by cases h

theorem ends_iff {x : Checked ε α} : x.Ends ↔ (∃ a, x = .ok a) ∨ ∃ e, x = .error e := by
  constructor
  · intro h
    match x, h with
    | .ok a, _ => exact .inl ⟨a, rfl⟩
    | .error e, _ => exact .inr ⟨e, rfl⟩
  · rintro (⟨a, rfl⟩ | ⟨e, rfl⟩)
    · exact ends_ok a
    · exact ends_error e

theorem Ends.bind {α β : Type v} {x : Checked ε α} {f : α → Checked ε β} (hx : x.Ends)
    (hf : ∀ a, x = .ok a → (f a).Ends) : (x >>= f).Ends := by
  rcases ends_iff.mp hx with ⟨a, rfl⟩ | ⟨e, rfl⟩
  · exact hf a rfl
  · exact ends_error e

/-! ### Refusals -/

/-- An early return with an error. -/
def refuse (bad : Prop) [Decidable bad] (e : ε) : Checked ε PUnit.{v + 1} :=
  if bad then .error e else .ok ⟨⟩

theorem refuse_of_not {bad : Prop} [Decidable bad] (h : ¬bad) (e : ε) :
    refuse.{u, v} bad e = .ok ⟨⟩ := if_neg h

theorem refuse_eq_ok_iff {bad : Prop} [Decidable bad] {e : ε} {a : PUnit.{v + 1}} :
    refuse bad e = .ok a ↔ ¬bad := by
  by_cases h : bad <;> simp [refuse, h]

theorem ends_refuse (bad : Prop) [Decidable bad] (e : ε) : (refuse.{u, v} bad e).Ends := by
  by_cases h : bad <;> simp [refuse, h]

/-- An optional value, or an error in its place. -/
def okOr (x : Option α) (e : ε) : Checked ε α :=
  match x with
  | some a => .ok a
  | none => .error e

@[simp] theorem okOr_some (a : α) (e : ε) : okOr (some a) e = .ok a := rfl

theorem okOr_eq_ok_iff {x : Option α} {e : ε} {a : α} : okOr x e = .ok a ↔ x = some a := by
  cases x <;> simp [okOr]

theorem ends_okOr (x : Option α) (e : ε) : (okOr x e).Ends := by
  cases x <;> simp [okOr]

/-! ### Accesses -/

/-- The element at an index, where there is one. -/
def index (l : List α) (i : ℕ) : Checked ε α :=
  match l[i]? with
  | some a => .ok a
  | none => .stuck

/-- The elements from one index up to another, where the list has both. -/
def slice (l : List α) (start stop : ℕ) : Checked ε (List α) :=
  if start ≤ stop ∧ stop ≤ l.length then .ok ((l.drop start).take (stop - start)) else .stuck

theorem index_of_lt {l : List α} {i : ℕ} (h : i < l.length) :
    (index l i : Checked ε α) = .ok l[i] := by
  rw [index, List.getElem?_eq_getElem h]

/-- What stands behind a part of a list is what indexing past the part gives. -/
theorem index_append (front : List α) (a : α) (back : List α) :
    (index (front ++ a :: back) front.length : Checked ε α) = .ok a := by
  rw [index, List.getElem?_append_right (Nat.le_refl _), Nat.sub_self]
  rfl

theorem ends_index {l : List α} {i : ℕ} (h : i < l.length) : (index l i : Checked ε α).Ends := by
  rw [index_of_lt h]
  exact ends_ok _

theorem slice_of_le {l : List α} {start stop : ℕ} (h : start ≤ stop) (hl : stop ≤ l.length) :
    (slice l start stop : Checked ε (List α)) = .ok ((l.drop start).take (stop - start)) :=
  if_pos ⟨h, hl⟩

theorem ends_slice {l : List α} {start stop : ℕ} (h : start ≤ stop) (hl : stop ≤ l.length) :
    (slice l start stop : Checked ε (List α)).Ends := by
  rw [slice_of_le h hl]
  exact ends_ok _

/-- A slice from the start is what is taken from there. -/
theorem slice_zero {l : List α} {stop : ℕ} (hl : stop ≤ l.length) :
    (slice l 0 stop : Checked ε (List α)) = .ok (l.take stop) :=
  slice_of_le (Nat.zero_le _) hl

/-- A slice to the end is what is left from there. -/
theorem slice_length {l : List α} {start : ℕ} (hl : start ≤ l.length) :
    (slice l start l.length : Checked ε (List α)) = .ok (l.drop start) := by
  have hall : (l.drop start).length ≤ l.length - start := Nat.le_of_eq List.length_drop
  rw [slice_of_le hl (Nat.le_refl _), List.take_of_length_le hall]

/-- What stands between two parts of a list is what a slice between them gives. -/
theorem slice_append (front middle back : List α) :
    (slice (front ++ middle ++ back) front.length (front.length + middle.length) :
      Checked ε (List α)) = .ok middle := by
  rw [slice_of_le (Nat.le_add_right _ _) (by simp), List.append_assoc, List.drop_left,
    Nat.add_sub_cancel_left, List.take_left]

end Checked

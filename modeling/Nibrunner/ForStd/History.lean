import Mathlib.Init

/-!
# Histories

A history is a list of what happened, each entry of which found a state and left one. It is chained
from a state to a state if each entry found what the one before it left: nothing happened between
them. What every entry preserves then holds at the end if it held at the start.
-/

namespace History

universe u v

variable {σ : Type u} {ε : Type v} (before after : ε → σ)

/-- Each entry found what the one before it left. -/
def Chained : σ → List ε → σ → Prop
  | first, [], last => first = last
  | first, e :: rest, last => before e = first ∧ Chained (after e) rest last

variable {before after} {first last : σ} {front rest : List ε}

/-- A history may be cut anywhere. -/
theorem chained_append_iff :
    Chained before after first (front ++ rest) last ↔
      ∃ middle, Chained before after first front middle ∧
        Chained before after middle rest last := by
  induction front generalizing first with
  | nil =>
    constructor
    · intro h
      exact ⟨first, rfl, h⟩
    · rintro ⟨_, rfl, h⟩
      exact h
  | cons e front ih =>
    rw [List.cons_append, Chained, ih]
    constructor
    · rintro ⟨he, middle, hfront, hrest⟩
      exact ⟨middle, ⟨he, hfront⟩, hrest⟩
    · rintro ⟨middle, ⟨he, hfront⟩, hrest⟩
      exact ⟨he, middle, hfront, hrest⟩

/-- An entry goes to the end of a history that leads to what it found. -/
theorem Chained.concat {e : ε} (h : Chained before after first front (before e)) :
    Chained before after first (front ++ [e]) (after e) :=
  chained_append_iff.mpr ⟨before e, h, rfl, rfl⟩

/-- **The rule for histories.** -/
theorem Chained.invariant {I : σ → Prop} (h : Chained before after first front last)
    (hentry : ∀ e ∈ front, I (before e) → I (after e)) (hfirst : I first) : I last := by
  induction front generalizing first with
  | nil =>
    obtain rfl : first = last := h
    exact hfirst
  | cons e front ih =>
    obtain ⟨rfl, hrest⟩ := h
    have hafter : I (after e) := hentry e List.mem_cons_self hfirst
    exact ih hrest (fun f hf => hentry f (List.mem_cons_of_mem e hf)) hafter

end History

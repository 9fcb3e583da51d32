import Mathlib.Data.Set.Lattice
import Mathlib.Order.Bounds.Basic

/-!
# The first element of a set, found by a scan

A scan looks at candidates one by one and keeps the first of those it accepts. `FirstOf S` says what
such a scan has found of a set `S`: its least element, or that there is none. A candidate joins the
set (`FirstOf.union_keepEarlier`), and `FirstOf.foldlM` is the rule for a loop that may stop with
an error.
-/

universe u v w

/-- What was found of a set: its least element, or that it is empty. -/
def FirstOf {α : Type u} [LE α] (S : Set α) : Option α → Prop
  | none => S = ∅
  | some a => IsLeast S a

namespace FirstOf

variable {α : Type u} [LinearOrder α] {S : Set α}

theorem nothing : FirstOf (∅ : Set α) none := rfl

/-- The earlier of what is held and a candidate, where the candidate is after a bound. -/
def keepEarlier (bound : α) (held : Option α) (candidate : α) : Option α :=
  if bound < candidate ∧ held.all (candidate < ·) then some candidate else held

/-- A candidate joins the set when it is after the bound. -/
theorem union_keepEarlier {bound candidate : α} {held : Option α} (h : FirstOf S held) :
    FirstOf (S ∪ {a | bound < a ∧ a = candidate}) (keepEarlier bound held candidate) := by
  rw [keepEarlier]
  split
  · rename_i hkeep
    refine ⟨.inr ⟨hkeep.1, rfl⟩, ?_⟩
    rintro a (ha | ⟨-, rfl⟩)
    · cases held with
      | none => exact absurd (h ▸ ha) (Set.notMem_empty a)
      | some b =>
        have hlt : candidate < b := by simpa using hkeep.2
        exact hlt.le.trans (h.2 ha)
    · exact le_rfl
  · rename_i hkeep
    rw [not_and] at hkeep
    cases held with
    | none =>
      have hnot : ¬ bound < candidate := fun hlt => hkeep hlt rfl
      have hS : S = ∅ := h
      refine Set.eq_empty_of_forall_notMem ?_
      rintro a (ha | ⟨hlt, rfl⟩)
      · exact absurd (hS ▸ ha) (Set.notMem_empty a)
      · exact hnot hlt
    | some b =>
      refine ⟨.inl h.1, ?_⟩
      rintro a (ha | ⟨hlt, rfl⟩)
      · exact h.2 ha
      · have hle := hkeep hlt
        simpa using hle

/-- **The rule for loops.** Where each round adds the set of its element, the loop adds them all. -/
theorem foldlM {ε : Type v} {β : Type w} {f : Option α → β → Except ε (Option α)}
    {T : β → Set α}
    (hf : ∀ S held b next, FirstOf S held → f held b = .ok next → FirstOf (S ∪ T b) next)
    {l : List β} {held next : Option α} (h : FirstOf S held) (hl : l.foldlM f held = .ok next) :
    FirstOf (S ∪ ⋃ b ∈ l, T b) next := by
  induction l generalizing S held with
  | nil =>
    obtain rfl : held = next := by simpa [pure, Except.pure] using hl
    simpa using h
  | cons b l ih =>
    rw [List.foldlM_cons] at hl
    cases hb : f held b with
    | error e => simp [hb, bind, Except.bind] at hl
    | ok mid =>
      have hrest : l.foldlM f mid = .ok next := by simpa [hb, bind, Except.bind] using hl
      have := ih (hf S held b mid h hb) hrest
      simpa [Set.union_assoc] using this

end FirstOf

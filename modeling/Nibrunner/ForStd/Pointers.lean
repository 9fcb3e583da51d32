import Mathlib.Data.Set.Card
import Mathlib.Logic.Relation

/-!
# Chains of pointers

A partial map says what an element points at. Its chains end where nothing is pointed at, or come
back to where they were; where only finitely many elements point, one of the two
(`ends_or_circles`).

A sweep goes over the elements in an order and settles those that point at what is settled.
`Settles` counts the sweeps an element takes: one that comes behind what it points at is settled in
the same sweep, and any other one sweep later. Where an element takes so many sweeps, some element
of its chain takes each smaller number (`Settles.exists_of_le`), so a sweep with work left does
some.
-/

namespace Pointers

open Relation

universe u

variable {α : Type u} (next : α → Option α) {a b c : α}

/-- An element points at another. -/
def Step (a b : α) : Prop := next a = some b

/-- The chain of an element ends at another, which points nowhere. -/
def Ends (a b : α) : Prop := ReflTransGen (Step next) a b ∧ next b = none

/-- The chain of an element comes to a circle. -/
def Circles (a : α) : Prop := ∃ b, ReflTransGen (Step next) a b ∧ TransGen (Step next) b b

variable {next}

theorem Ends.here (h : next a = none) : Ends next a a := ⟨.refl, h⟩

theorem Ends.step (h : next a = some b) (hb : Ends next b c) : Ends next a c :=
  ⟨.head h hb.1, hb.2⟩

/-- A chain ends behind its first step where it ends. -/
theorem Ends.tail (hab : next a = some b) (h : Ends next a c) : Ends next b c := by
  obtain ⟨hchain, hc⟩ := h
  rcases hchain.cases_head with rfl | ⟨b', hb', hchain⟩
  · rw [hab] at hc
    cases hc
  · obtain rfl : b = b' := Option.some.inj (hab.symm.trans hb')
    exact ⟨hchain, hc⟩

theorem Ends.unique (hb : Ends next a b) (hc : Ends next a c) : b = c := by
  obtain ⟨hchain, hstop⟩ := hb
  induction hchain using ReflTransGen.head_induction_on with
  | refl =>
    rcases hc.1.cases_head with rfl | ⟨d, hd, -⟩
    · rfl
    · exact absurd (hstop.symm.trans hd) (by simp)
  | head hstep _ ih => exact ih (hc.tail hstep)

/-- A chain that ends comes to no circle. -/
theorem Ends.not_circles (h : Ends next a b) : ¬Circles next a := by
  obtain ⟨hchain, hstop⟩ := h
  induction hchain using ReflTransGen.head_induction_on with
  | refl =>
    rintro ⟨c, hchain, hcircle⟩
    rcases hchain.cases_head with rfl | ⟨d, hd, -⟩
    · obtain ⟨d, hd, -⟩ := TransGen.head'_iff.mp hcircle
      exact absurd (hstop.symm.trans hd) (by simp)
    · exact absurd (hstop.symm.trans hd) (by simp)
  | @head a d hstep _ ih =>
    rintro ⟨c, hchain, hcircle⟩
    refine ih ?_
    rcases hchain.cases_head with rfl | ⟨d', hd', hchain⟩
    · obtain ⟨d', hd', hback⟩ := TransGen.head'_iff.mp hcircle
      obtain rfl : d = d' := Option.some.inj (hstep.symm.trans hd')
      exact ⟨a, hback, hcircle⟩
    · obtain rfl : d = d' := Option.some.inj (hstep.symm.trans hd')
      exact ⟨c, hchain, hcircle⟩

/-- Pointers that go up in an order form no circle. -/
theorem not_circles_of_lt {r : α → α → Prop} (htrans : ∀ {a b c}, r a b → r b c → r a c)
    (hirrefl : ∀ a, ¬r a a) (h : ∀ a b, next a = some b → r a b) : ¬Circles next a := by
  have hup : ∀ {b c}, TransGen (Step next) b c → r b c := by
    intro b c hchain
    induction hchain with
    | single hstep => exact h _ _ hstep
    | tail _ hstep ih => exact htrans ih (h _ _ hstep)
  rintro ⟨b, -, hcircle⟩
  exact hirrefl b (hup hcircle)

/-- Where finitely many elements point, each chain ends or comes to a circle. -/
theorem ends_or_circles (hfinite : {a | next a ≠ none}.Finite) (a : α) :
    (∃ b, Ends next a b) ∨ Circles next a := by
  have hpointing (a : α) : {b | ReflTransGen (Step next) a b ∧ next b ≠ none}.Finite :=
    hfinite.subset fun b hb => hb.2
  -- by the number of elements on the chain that point
  induction hsize : {b | ReflTransGen (Step next) a b ∧ next b ≠ none}.ncard using
    Nat.strong_induction_on generalizing a with
  | _ size ih =>
    cases hnext : next a with
    | none => exact .inl ⟨a, .here hnext⟩
    | some b =>
      by_cases hback : ReflTransGen (Step next) b a
      · exact .inr ⟨a, .refl, TransGen.head' hnext hback⟩
      · have hfewer : {c | ReflTransGen (Step next) b c ∧ next c ≠ none} ⊂
            {c | ReflTransGen (Step next) a c ∧ next c ≠ none} := by
          refine ⟨fun c hc => ⟨.head hnext hc.1, hc.2⟩, fun hsame => hback ?_⟩
          exact (hsame ⟨.refl, by simp [hnext]⟩).1
        rcases ih _ (hsize ▸ Set.ncard_lt_ncard hfewer (hpointing a)) b rfl with
          ⟨c, hc⟩ | ⟨c, hchain, hcircle⟩
        · exact .inl ⟨c, hc.step hnext⟩
        · exact .inr ⟨c, .head hnext hchain, hcircle⟩

/-! ### Sweeps -/

section Sweeps

/-- The sweeps an element takes that points at one that takes so many: it is settled in the same
sweep where it comes behind, but not before the first. -/
def sweepsAfter (behind : Prop) [Decidable behind] (sweeps : ℕ) : ℕ :=
  if sweeps ≠ 0 ∧ behind then sweeps else sweeps + 1

theorem le_sweepsAfter (behind : Prop) [Decidable behind] (sweeps : ℕ) :
    sweeps ≤ sweepsAfter behind sweeps ∧ sweepsAfter behind sweeps ≤ sweeps + 1 := by
  rw [sweepsAfter]
  split <;> omega

theorem sweepsAfter_ne_zero (behind : Prop) [Decidable behind] (sweeps : ℕ) :
    sweepsAfter behind sweeps ≠ 0 := by
  rw [sweepsAfter]
  split <;> omega

variable (next) (before : α → α → Prop) [DecidableRel before]

/-- An element takes so many sweeps until it is settled with the end of its chain. -/
inductive Settles : α → ℕ → α → Prop
  | here {a : α} (h : next a = none) : Settles a 0 a
  | step {a b c : α} {sweeps n : ℕ} (h : next a = some b) (hb : Settles b sweeps c)
      (hn : n = sweepsAfter (before b a) sweeps) : Settles a n c

variable {next before} {n m : ℕ}

theorem Settles.ends (h : Settles next before a n b) : Ends next a b := by
  induction h with
  | here h => exact .here h
  | step h _ _ ih => exact ih.step h

theorem exists_settles (h : Ends next a b) : ∃ n, Settles next before a n b := by
  obtain ⟨hchain, hstop⟩ := h
  induction hchain using ReflTransGen.head_induction_on with
  | refl => exact ⟨0, .here hstop⟩
  | head hstep _ ih =>
    obtain ⟨n, hn⟩ := ih
    exact ⟨_, .step hstep hn rfl⟩

/-- The sweeps of an element that points are those of what it points at, or one more. -/
theorem Settles.tail (hab : next a = some b) (h : Settles next before a n c) :
    ∃ m, Settles next before b m c ∧ n = sweepsAfter (before b a) m := by
  cases h with
  | here hnone => exact absurd (hab.symm.trans hnone) (by simp)
  | step hb' hsettles hn =>
    obtain rfl := Option.some.inj (hab.symm.trans hb')
    exact ⟨_, hsettles, hn⟩

theorem Settles.unique (h : Settles next before a n b) (h' : Settles next before a m c) :
    n = m ∧ b = c := by
  induction h generalizing m with
  | here hnone =>
    cases h' with
    | here => exact ⟨rfl, rfl⟩
    | step hb => exact absurd (hnone.symm.trans hb) (by simp)
  | step hstep _ hn ih =>
    obtain ⟨m', hm', hm⟩ := h'.tail hstep
    obtain ⟨rfl, rfl⟩ := ih hm'
    exact ⟨hn.trans hm.symm, rfl⟩

theorem Settles.eq_zero_iff (h : Settles next before a n b) : n = 0 ↔ next a = none := by
  cases h with
  | here hnone => simp [hnone]
  | step hb _ hn => simp [hb, hn, sweepsAfter_ne_zero]

/-- On the chain of an element, each smaller number of sweeps is that of some element. -/
theorem Settles.exists_of_le (h : Settles next before a n b) (hm : m ≤ n) :
    ∃ c, Settles next before c m b := by
  induction h with
  | here hnone =>
    obtain rfl := Nat.le_zero.mp hm
    exact ⟨_, .here hnone⟩
  | @step a b c sweeps n hstep hb hn ih =>
    by_cases hless : m ≤ sweeps
    · exact ih hless
    · obtain rfl : m = n := by
        have := (le_sweepsAfter (before b a) sweeps).2
        omega
      exact ⟨a, .step hstep hb hn⟩

end Sweeps

end Pointers

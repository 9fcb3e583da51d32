import Mathlib.Data.Nat.Notation

/-!
# Runs of a labelled transition system

A system is a total step function `step : σ → ι → σ`. Everything a run leaves open (which
task moves, what an adapter answers, what a clock reads) is in the labels, so a run is a list of
labels and the states it reaches are the values of `run` on its prefixes.

A condition on steps may read the state a step is taken from. `Meets step C s es` says that
every step of the run `es` from `s` meets `C` there, and `Meets.invariant` is the one induction
over runs of this development: what a step meeting `C` preserves, every run meeting `C`
preserves.
-/

namespace Run

universe u v

variable {σ : Type u} {ι : Type v} (step : σ → ι → σ)

/-- The state a list of labels reaches. -/
def run (s : σ) (es : List ι) : σ := es.foldl step s

@[simp] theorem run_nil (s : σ) : run step s [] = s := rfl

@[simp] theorem run_cons (s : σ) (e : ι) (es : List ι) :
    run step s (e :: es) = run step (step s e) es := rfl

theorem run_append (s : σ) (es fs : List ι) :
    run step s (es ++ fs) = run step (run step s es) fs := List.foldl_append

/-- Every step of the run meets `C` in the state it is taken from. -/
def Meets (C : σ → ι → Prop) : σ → List ι → Prop
  | _, [] => True
  | s, e :: es => C s e ∧ Meets C (step s e) es

/-- Whether a given run meets a decidable condition can be checked step by step. -/
instance decidableMeets (C : σ → ι → Prop) [∀ s e, Decidable (C s e)] :
    (s : σ) → (es : List ι) → Decidable (Meets step C s es)
  | _, [] => .isTrue trivial
  | s, e :: es =>
    have := decidableMeets C (step s e) es
    inferInstanceAs (Decidable (C s e ∧ Meets step C (step s e) es))

variable {step} {C : σ → ι → Prop} {I : σ → Prop}

theorem meets_append {s : σ} {es fs : List ι} :
    Meets step C s (es ++ fs) ↔ Meets step C s es ∧ Meets step C (run step s es) fs := by
  induction es generalizing s with
  | nil => simp [Meets]
  | cons e es ih =>
    rw [List.cons_append, Meets, ih, Meets, and_assoc]
    rfl

/-- A condition on the labels alone holds along a run whose labels all meet it. -/
theorem meets_of_forall {P : ι → Prop} {es : List ι} (h : ∀ e ∈ es, P e) (s : σ) :
    Meets step (fun _ e => P e) s es := by
  induction es generalizing s with
  | nil => trivial
  | cons e es ih =>
    exact ⟨h e List.mem_cons_self, ih (fun f hf => h f (List.mem_cons_of_mem _ hf)) _⟩

/-- **The invariant rule.** What holds at the start and is preserved by every step that meets
the condition holds wherever a run of such steps leads. -/
theorem Meets.invariant (hstep : ∀ s e, I s → C s e → I (step s e)) {s : σ} {es : List ι}
    (hs : I s) (hm : Meets step C s es) : I (run step s es) := by
  induction es generalizing s with
  | nil => exact hs
  | cons e es ih => exact ih (hstep s e hs hm.1) hm.2

/-- The rule where every step preserves. -/
theorem invariant (hstep : ∀ s e, I s → I (step s e)) {s : σ} (hs : I s) (es : List ι) :
    I (run step s es) := by
  induction es generalizing s with
  | nil => exact hs
  | cons e es ih => exact ih (hstep s e hs)

/-- **The ratchet rule.** Stages that every step of a run keeps, and that the good ones move on
by one, are climbed by as many as the run has good steps. -/
theorem Meets.ratchet {stage : ℕ → σ → Prop} {good : ι → Bool}
    (hkeep : ∀ n s e, stage n s → C s e → stage n (step s e))
    (hgood : ∀ n s e, stage n s → C s e → good e = true → stage (n + 1) (step s e))
    {n : ℕ} {s : σ} {es : List ι} (hs : stage n s) (hm : Meets step C s es) :
    stage (n + es.countP good) (run step s es) := by
  induction es generalizing n s with
  | nil => exact hs
  | cons e es ih =>
    rw [List.countP_cons]
    split
    · rename_i he
      rw [Nat.add_comm _ 1, ← Nat.add_assoc]
      exact ih (hgood n s e hs hm.1 he) hm.2
    · exact ih (hkeep n s e hs hm.1) hm.2

end Run

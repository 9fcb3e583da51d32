import Mathlib.Data.List.Nodup

/-!
# Folds of local steps

A state has parts under keys, and a step is *local* when it changes only the part under its own
key. A fold of local steps then leaves alone every part whose key is not in the list
(`Local.part_foldl_of_notMem`), and over a list of distinct keys it does to the part of one
element what that element's step does, taken from a state in which the part is still the one at
the start (`Local.part_foldl_of_mem`).

A step may be local only where an invariant holds; `Local` carries the invariant, and that the
steps keep it.

For steps whose keys may repeat there is `foldl_rel`: what relates a state to the next one, and
is reflexive and transitive, relates the first state of a fold to the last.
-/

namespace Frame

universe u v w x

variable {σ : Type u} {κ : Type v} {ν : Type w} {ι : Type x}

/-- Steps that keep `I` and change, where it holds, no part but that of their own key. -/
structure Local (I : σ → Prop) (part : σ → κ → ν) (key : ι → κ) (f : σ → ι → σ) : Prop where
  keeps : ∀ s x, I s → I (f s x)
  frame : ∀ s x k, I s → k ≠ key x → part (f s x) k = part s k

namespace Local

variable {I : σ → Prop} {part : σ → κ → ν} {key : ι → κ} {f : σ → ι → σ}

theorem keeps_foldl (hf : Local I part key f) {s : σ} (hs : I s) (l : List ι) :
    I (l.foldl f s) := by
  induction l generalizing s with
  | nil => exact hs
  | cons y l ih => exact ih (hf.keeps s y hs)

/-- A part whose key no step of the fold has is what it was. -/
theorem part_foldl_of_notMem (hf : Local I part key f) {s : σ} (hs : I s) {l : List ι} {k : κ}
    (hk : k ∉ l.map key) : part (l.foldl f s) k = part s k := by
  induction l generalizing s with
  | nil => rfl
  | cons y l ih =>
    rw [List.map_cons, List.mem_cons, not_or] at hk
    rw [List.foldl_cons, ih (hf.keeps s y hs) hk.2, hf.frame s y k hs hk.1]

/-- **One step of a fold.** Over distinct keys, what the fold does to the part of `y` is what the
step of `y` does to it, from where the steps before it lead. -/
theorem part_foldl_of_mem (hf : Local I part key f) {s : σ} (hs : I s) {l : List ι}
    (hl : (l.map key).Nodup) {y : ι} (hy : y ∈ l) :
    ∃ before after, l = before ++ y :: after ∧ I (before.foldl f s) ∧
      part (before.foldl f s) (key y) = part s (key y) ∧
      part (l.foldl f s) (key y) = part (f (before.foldl f s) y) (key y) := by
  obtain ⟨before, after, rfl⟩ := List.append_of_mem hy
  rw [List.map_append, List.map_cons, List.nodup_append] at hl
  obtain ⟨-, hafter, hdisjoint⟩ := hl
  have hbefore : key y ∉ before.map key := fun hmem =>
    hdisjoint _ hmem _ List.mem_cons_self rfl
  have hI := hf.keeps_foldl hs before
  refine ⟨before, after, rfl, hI, hf.part_foldl_of_notMem hs hbefore, ?_⟩
  rw [List.foldl_append, List.foldl_cons]
  exact hf.part_foldl_of_notMem (hf.keeps _ y hI) (List.nodup_cons.mp hafter).1

/-- A part whose key only a step that does nothing has is what it was. -/
theorem part_foldl_of_idle (hf : Local I part key f) {s : σ} (hs : I s) {l : List ι}
    (hl : (l.map key).Nodup) {y : ι} (hy : y ∈ l) (hidle : ∀ s, f s y = s) :
    part (l.foldl f s) (key y) = part s (key y) := by
  obtain ⟨before, after, -, -, hsame, hstep⟩ := hf.part_foldl_of_mem hs hl hy
  rw [hstep, hidle, hsame]

end Local

/-- A fold of related steps relates its ends. -/
theorem foldl_rel {R : σ → σ → Prop} (hrefl : ∀ s, R s s)
    (htrans : ∀ {s t r}, R s t → R t r → R s r) {f : σ → ι → σ} (l : List ι)
    (hstep : ∀ s, ∀ y ∈ l, R s (f s y)) (s : σ) : R s (l.foldl f s) := by
  induction l generalizing s with
  | nil => exact hrefl s
  | cons y l ih =>
    refine htrans (hstep s y List.mem_cons_self) ?_
    exact ih (fun t z hz => hstep t z (List.mem_cons_of_mem _ hz)) _

/-- A fold of steps that do nothing does nothing. -/
theorem foldl_eq_self {f : σ → ι → σ} {l : List ι} (hstep : ∀ s, ∀ y ∈ l, f s y = s) (s : σ) :
    l.foldl f s = s :=
  foldl_rel (R := fun s t => t = s) (fun _ => rfl) (fun h₁ h₂ => h₂.trans h₁) l hstep s

end Frame

import Mathlib.Data.List.Perm.Basic

/-!
# Fallible computations

A sequence of fallible steps succeeds exactly when each of them does: what is needed to take a
`do` block over `Except` apart without unfolding what it calls. An error that no step fails with is
none that the sequence fails with (`Avoids`), and steps whose results agree make up sequences whose
results do (`Agrees`).
-/

namespace Except

universe u v

variable {ε : Type u} {α β : Type v} {x : Except ε α}

theorem bind_eq_ok_iff {f : α → Except ε β} {b : β} :
    (x >>= f) = .ok b ↔ ∃ a, x = .ok a ∧ f a = .ok b := by
  constructor
  · intro h
    cases x with
    | error e => cases h
    | ok a => exact ⟨a, rfl, h⟩
  · rintro ⟨a, rfl, h⟩
    exact h

theorem map_eq_ok_iff {f : α → β} {b : β} : x.map f = .ok b ↔ ∃ a, x = .ok a ∧ f a = b := by
  cases x with
  | error e => simp [Except.map]
  | ok a => simp [Except.map]

/-- A step for each element of a list succeeds where it succeeds for each, with their results. -/
theorem mapM_eq_ok_iff {α : Type} {f : α → Except ε β} {l : List α} {results : List β} :
    l.mapM f = .ok results ↔ l.map f = results.map .ok := by
  induction l generalizing results with
  | nil =>
    rw [List.mapM_nil, List.map_nil, eq_comm (a := [])]
    simp [pure, Except.pure, eq_comm]
  | cons a l ih =>
    rw [List.mapM_cons, bind_eq_ok_iff, List.map_cons]
    simp only [bind_eq_ok_iff, ih, pure, Except.pure]
    cases results with
    | nil => simp
    | cons b results => simp

/-- Steps that do not fail one by one do not fail one after the other. -/
theorem exists_foldlM_eq_ok {α β : Type} {f : β → α → Except ε β} {l : List α}
    (h : ∀ b, ∀ a ∈ l, ∃ b', f b a = .ok b') (b : β) : ∃ b', l.foldlM f b = .ok b' := by
  induction l generalizing b with
  | nil => exact ⟨b, rfl⟩
  | cons a l ih =>
    obtain ⟨b', hb⟩ := h b a List.mem_cons_self
    obtain ⟨b'', hl⟩ := ih (fun b a ha => h b a (List.mem_cons_of_mem _ ha)) b'
    exact ⟨b'', by rw [List.foldlM_cons, bind_eq_ok_iff]; exact ⟨b', hb, hl⟩⟩

/-- What a step makes of the elements of a list it makes of them in any other order. -/
theorem exists_map_eq_of_perm {f : α → Except ε β} {l l' : List α} {results : List β}
    (hperm : l.Perm l') (h : l.map f = results.map .ok) :
    ∃ results', l'.map f = results'.map .ok ∧ results.Perm results' := by
  have hmaps : (l'.map f).Perm (results.map .ok) := h ▸ (hperm.map f).symm
  have hcomp : Relation.Comp (· = List.map Except.ok ·) (·.Perm ·) (l'.map f) results := by
    rw [List.eq_map_comp_perm]
    exact hmaps
  obtain ⟨results', hresults', hperm'⟩ := hcomp
  exact ⟨results', hresults', hperm'.symm⟩

/-! ### Checks -/

/-- An error where a condition holds. -/
def refuse (c : Prop) [Decidable c] (e : ε) : Except ε Unit := if c then .error e else .ok ()

theorem refuse_eq_ok_iff {c : Prop} [Decidable c] {e : ε} {u : Unit} :
    refuse c e = .ok u ↔ ¬c := by
  unfold refuse
  split <;> simp [*]

/-- A value, or an error where there is none. -/
def ofOption (e : ε) : Option α → Except ε α
  | some a => .ok a
  | none => .error e

theorem ofOption_eq_ok_iff {e : ε} {o : Option α} {a : α} :
    ofOption e o = .ok a ↔ o = some a := by
  cases o <;> simp [ofOption]

/-! ### An error that does not come up -/

/-- A computation that does not fail with an error. -/
def Avoids (e : ε) (x : Except ε α) : Prop := x ≠ .error e

variable {e : ε}

theorem Avoids.ok (a : α) : Avoids e (.ok a) := by
  rintro ⟨⟩

theorem Avoids.error {e' : ε} (h : e' ≠ e) : Avoids e (.error e' : Except ε α) :=
  fun heq => h (Except.error.inj heq)

theorem Avoids.bind {f : α → Except ε β} (hx : Avoids e x) (hf : ∀ a, Avoids e (f a)) :
    Avoids e (x >>= f) := by
  cases x with
  | error e' => exact fun heq => hx (congrArg Except.error (Except.error.inj heq))
  | ok a => exact hf a

theorem Avoids.map {f : α → β} (hx : Avoids e x) : Avoids e (x.map f) := by
  cases x with
  | error e' => exact fun heq => hx (congrArg Except.error (Except.error.inj heq))
  | ok a => exact .ok _

/-! ### Agreement -/

/-- Two computations that both succeed do so with one result. -/
def Agrees (x y : Except ε α) : Prop := ∀ a b, x = .ok a → y = .ok b → a = b

namespace Agrees

variable {y : Except ε α}

theorem refl (x : Except ε α) : Agrees x x := by
  rintro a b ha hb
  exact Except.ok.inj (ha.symm.trans hb)

theorem bind {f g : α → Except ε β} (h : Agrees x y) (hf : ∀ a, Agrees (f a) (g a)) :
    Agrees (x >>= f) (y >>= g) := by
  intro b b' hb hb'
  obtain ⟨a, ha, hb⟩ := bind_eq_ok_iff.mp hb
  obtain ⟨a', ha', hb'⟩ := bind_eq_ok_iff.mp hb'
  obtain rfl := h a a' ha ha'
  exact hf a b b' hb hb'

theorem ite {c : Prop} [Decidable c] {x' y' : Except ε α} (h : Agrees x y) (h' : Agrees x' y') :
    Agrees (if c then x else x') (if c then y else y') := by
  split
  · exact h
  · exact h'

theorem foldlM {α β : Type} {f g : β → α → Except ε β} (h : ∀ b a, Agrees (f b a) (g b a))
    (l : List α) (b : β) : Agrees (l.foldlM f b) (l.foldlM g b) := by
  induction l generalizing b with
  | nil => exact .refl _
  | cons a l ih =>
    rw [List.foldlM_cons, List.foldlM_cons]
    exact (h b a).bind fun b' => ih b'

end Agrees

end Except

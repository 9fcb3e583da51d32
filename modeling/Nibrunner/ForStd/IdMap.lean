import Mathlib.Data.List.Nodup

/-!
# Ordered maps keyed by identifiers

`Std.ExtTreeMap` is an ordered map with extensional equality. This file adds `indexBy`, which
collects a list under a key of each element, the later of two elements with one key winning,
and its lookup laws: what is found is an element of the list with that key, and over a list
with distinct keys every element is found. It also restates the lookups after an insertion, an
erasure and a modification for keys whose comparison decides equality.
-/

namespace Std.ExtTreeMap

universe u v

variable {α : Type u} {β : Type v} [Ord α] [TransOrd α]

/-! ### Lookups by equality of keys -/

section Lookup

variable [LawfulEqOrd α] [DecidableEq α] (m : ExtTreeMap α β) (k a : α)

theorem getElem?_insert_ite (v : β) : (m.insert k v)[a]? = if k = a then some v else m[a]? := by
  rw [getElem?_insert]
  simp only [LawfulEqOrd.compare_eq_iff_eq]

theorem getElem?_erase_ite : (m.erase k)[a]? = if k = a then none else m[a]? := by
  rw [getElem?_erase]
  simp only [LawfulEqOrd.compare_eq_iff_eq]

theorem getElem?_modify_ite (f : β → β) :
    (m.modify k f)[a]? = if k = a then m[a]?.map f else m[a]? := by
  rw [getElem?_modify]
  by_cases h : k = a
  · subst h
    simp
  · simp [h]

end Lookup

/-! ### Collecting a list under a key -/

/-- The map a list collects into under `f`; a later element replaces an earlier one. -/
def indexBy (f : β → α) (l : List β) : ExtTreeMap α β :=
  l.foldl (fun m x => m.insert (f x) x) ∅

/-- What a fold of insertions leaves under a key was inserted by it, or was there before. -/
theorem getElem?_foldl_insert {γ : Type v} [LawfulEqOrd α] (f : γ → α) (g : γ → β) (l : List γ)
    (m : ExtTreeMap α β) (k : α) {b : β}
    (h : (l.foldl (fun m x => m.insert (f x) (g x)) m)[k]? = some b) :
    (∃ x ∈ l, f x = k ∧ g x = b) ∨ m[k]? = some b := by
  induction l generalizing m with
  | nil => exact .inr h
  | cons y l ih =>
    rw [List.foldl_cons] at h
    rcases ih _ h with ⟨x, hx, hk⟩ | hm
    · exact .inl ⟨x, List.mem_cons_of_mem _ hx, hk⟩
    · rw [getElem?_insert] at hm
      split at hm
      · rename_i hkey
        exact .inl ⟨y, List.mem_cons_self, LawfulEqOrd.eq_of_compare hkey, by simpa using hm⟩
      · exact .inr hm

/-- A fold of insertions leaves a key it does not insert alone. -/
theorem getElem?_foldl_insert_of_notMem {γ : Type v} [LawfulEqOrd α] (f : γ → α) (g : γ → β)
    {l : List γ} (m : ExtTreeMap α β) {k : α} (hk : k ∉ l.map f) :
    (l.foldl (fun m x => m.insert (f x) (g x)) m)[k]? = m[k]? := by
  induction l generalizing m with
  | nil => rfl
  | cons y l ih =>
    rw [List.map_cons, List.mem_cons, not_or] at hk
    have hne : compare (f y) k ≠ .eq := fun h => hk.1 (LawfulEqOrd.eq_of_compare h).symm
    rw [List.foldl_cons, ih _ hk.2, getElem?_insert, if_neg hne]

/-- What a fold of insertions that may fail leaves under a key, and what another fold over the same
list leaves there, were inserted for the same element. -/
theorem getElem?_foldlM_insert {γ : Type v} {δ : Type v} {ε : Type v} [LawfulEqOrd α]
    [DecidableEq α] (f : γ → α) (g : γ → Except ε β) (g' : γ → δ) {l : List γ}
    {m m' : ExtTreeMap α β} (r : ExtTreeMap α δ)
    (h : l.foldlM (fun m x => (g x).map (m.insert (f x))) m = .ok m') {k : α} {b : β}
    (hb : m'[k]? = some b) :
    (∃ x ∈ l, f x = k ∧ g x = .ok b ∧
        (l.foldl (fun r x => r.insert (f x) (g' x)) r)[k]? = some (g' x)) ∨
      k ∉ l.map f ∧ m[k]? = some b := by
  induction l generalizing m r with
  | nil =>
    obtain rfl : m = m' := by simpa [pure, Except.pure] using h
    exact .inr ⟨by simp, hb⟩
  | cons y l ih =>
    rw [List.foldlM_cons] at h
    cases hy : g y with
    | error e => simp [hy, bind, Except.bind, Except.map] at h
    | ok c =>
      have hrest : l.foldlM (fun m x => (g x).map (m.insert (f x))) (m.insert (f y) c) =
          .ok m' := by
        simpa [hy, bind, Except.bind, Except.map] using h
      rw [List.foldl_cons]
      rcases ih (r.insert (f y) (g' y)) hrest with ⟨x, hx, hk⟩ | ⟨hnot, hm⟩
      · exact .inl ⟨x, List.mem_cons_of_mem _ hx, hk⟩
      · rw [getElem?_insert_ite] at hm
        split at hm
        · rename_i hkey
          obtain rfl := Option.some.inj hm
          refine .inl ⟨y, List.mem_cons_self, hkey, hy, ?_⟩
          rw [getElem?_foldl_insert_of_notMem f g' _ hnot, getElem?_insert_ite, if_pos hkey]
        · rename_i hkey
          refine .inr ⟨?_, hm⟩
          rw [List.map_cons, List.mem_cons, not_or]
          exact ⟨fun h => hkey h.symm, hnot⟩

/-- A fold of insertions that may fail inserts every key. -/
theorem isSome_foldlM_insert {γ : Type v} {ε : Type v} [LawfulEqOrd α] [DecidableEq α]
    (f : γ → α) (g : γ → Except ε β) {l : List γ} {m m' : ExtTreeMap α β}
    (h : l.foldlM (fun m x => (g x).map (m.insert (f x))) m = .ok m') {k : α}
    (hk : k ∈ l.map f ∨ m[k]?.isSome) : m'[k]?.isSome := by
  induction l generalizing m with
  | nil =>
    obtain rfl : m = m' := by simpa [pure, Except.pure] using h
    exact hk.resolve_left (by simp)
  | cons y l ih =>
    rw [List.foldlM_cons] at h
    cases hy : g y with
    | error e => simp [hy, bind, Except.bind, Except.map] at h
    | ok c =>
      refine ih (m := m.insert (f y) c)
        (by simpa [hy, bind, Except.bind, Except.map] using h) ?_
      rw [getElem?_insert_ite]
      rw [List.map_cons, List.mem_cons] at hk
      rcases hk with (rfl | hl) | hm
      · exact .inr (by simp)
      · exact .inl hl
      · exact .inr (by split <;> simp [hm])

/-- Over distinct keys, a fold of insertions leaves under each what it inserts there. -/
theorem getElem?_foldl_insert_of_mem {γ : Type v} [LawfulEqOrd α] (f : γ → α) (g : γ → β)
    {l : List γ} (hl : (l.map f).Nodup) (m : ExtTreeMap α β) {x : γ} (hx : x ∈ l) :
    (l.foldl (fun m x => m.insert (f x) (g x)) m)[f x]? = some (g x) := by
  obtain ⟨before, after, rfl⟩ := List.append_of_mem hx
  rw [List.map_append, List.map_cons, List.nodup_append] at hl
  have hafter : f x ∉ after.map f := (List.nodup_cons.mp hl.2.1).1
  rw [List.foldl_append, List.foldl_cons, getElem?_foldl_insert_of_notMem f g _ hafter]
  exact getElem?_insert_self

/-- A fold of erasures leaves nothing under the keys it erases, and the others alone. -/
theorem getElem?_foldl_erase [LawfulEqOrd α] [DecidableEq α] (l : List α) (m : ExtTreeMap α β)
    (k : α) : (l.foldl ExtTreeMap.erase m)[k]? = if k ∈ l then none else m[k]? := by
  induction l generalizing m with
  | nil => rw [if_neg List.not_mem_nil]; rfl
  | cons y l ih =>
    rw [List.foldl_cons, ih, getElem?_erase_ite]
    by_cases hl : k ∈ l
    · rw [if_pos hl, if_pos (List.mem_cons_of_mem y hl)]
    · rw [if_neg hl]
      simp only [List.mem_cons, hl, or_false, eq_comm]

/-- A fold of insertions of what each key says of itself. -/
theorem getElem?_foldl_insert_key [LawfulEqOrd α] [DecidableEq α] (g : α → β) (l : List α)
    (m : ExtTreeMap α β) (k : α) :
    (l.foldl (fun m x => m.insert x (g x)) m)[k]? = if k ∈ l then some (g k) else m[k]? := by
  induction l generalizing m with
  | nil => rfl
  | cons x l ih =>
    rw [List.foldl_cons, ih, getElem?_insert_ite]
    by_cases hk : k ∈ l
    · simp [hk]
    · by_cases hx : x = k
      · simp [hx]
      · simp [hk, hx, Ne.symm hx]

private theorem isSome_foldl_insert [LawfulEqOrd α] (f : β → α) (l : List β)
    (m : ExtTreeMap α β) (k : α) (h : k ∈ l.map f ∨ m[k]?.isSome) :
    (l.foldl (fun m x => m.insert (f x) x) m)[k]?.isSome := by
  induction l generalizing m with
  | nil => simpa using h
  | cons y l ih =>
    refine ih _ ?_
    rw [getElem?_insert]
    rcases h with h | h
    · rcases List.mem_cons.mp (by simpa using h : k ∈ f y :: l.map f) with rfl | hk
      · exact .inr (by simp)
      · exact .inl hk
    · by_cases hk : compare (f y) k = .eq
      · exact .inr (by simp [hk])
      · exact .inr (by simpa [hk] using h)

/-- What is found under a key is an element of the list with that key. -/
theorem mem_of_getElem?_indexBy [LawfulEqOrd α] {f : β → α} {l : List β} {k : α} {x : β}
    (h : (indexBy f l)[k]? = some x) : x ∈ l ∧ f x = k := by
  rcases getElem?_foldl_insert f id l ∅ k h with ⟨y, hy, hk, rfl⟩ | hx
  · exact ⟨hy, hk⟩
  · simp at hx

/-- Something is found under every key of the list. -/
theorem exists_getElem?_indexBy [LawfulEqOrd α] {f : β → α} {l : List β} {x : β}
    (h : x ∈ l) : ∃ y, (indexBy f l)[f x]? = some y :=
  Option.isSome_iff_exists.mp
    (isSome_foldl_insert f l ∅ (f x) (.inl (List.mem_map_of_mem h)))

/-- Nothing is found under a key exactly when no element of the list has it. -/
theorem getElem?_indexBy_eq_none_iff [LawfulEqOrd α] {f : β → α} {l : List β} {k : α} :
    (indexBy f l)[k]? = none ↔ ∀ x ∈ l, f x ≠ k := by
  constructor
  · rintro h x hx rfl
    obtain ⟨y, hy⟩ := exists_getElem?_indexBy (f := f) hx
    rw [h] at hy
    cases hy
  · intro h
    cases hx : (indexBy f l)[k]? with
    | none => rfl
    | some x =>
      obtain ⟨hmem, hkey⟩ := mem_of_getElem?_indexBy hx
      exact absurd hkey (h x hmem)

/-- In a list with distinct keys an element is found under its own key. -/
theorem getElem?_indexBy_of_mem [LawfulEqOrd α] {f : β → α} {l : List β}
    (hl : (l.map f).Nodup) {x : β} (hx : x ∈ l) : (indexBy f l)[f x]? = some x := by
  obtain ⟨y, hy⟩ := exists_getElem?_indexBy (f := f) hx
  obtain ⟨hmem, hkey⟩ := mem_of_getElem?_indexBy hy
  rw [hy, List.inj_on_of_nodup_map hl hmem hx hkey]

end Std.ExtTreeMap

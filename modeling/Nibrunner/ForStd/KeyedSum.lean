import Mathlib.Data.List.Nodup
import Mathlib.Algebra.BigOperators.Group.List.Basic
import Mathlib.Algebra.Order.BigOperators.Group.List
import Mathlib.Algebra.Order.Ring.Nat

/-!
# Comparing sums by key

`sum_le_sum_of_keyed`: a list whose elements have distinct keys weighs no more than another, once
every element finds one of the same key in the other that weighs as much.

`fiber key weight l k` is what the elements of key `k` weigh. The fibers of distinct keys weigh no
more than the list (`sum_fiber_le`).

`ChoicesWithin limit P` says that one weight for each of some keys, each allowed by `P`, never come
to more than `limit`. It is kept where weights shrink (`mono`) and where one key is allowed another
weight that fits beside every choice for the others (`insert`).
-/

namespace KeyedSum

universe u v w

variable {α : Type u} {β : Type v} {κ : Type w}

theorem sum_le_sum_of_keyed (key : α → κ) (key' : β → κ) (weight : α → ℕ) (weight' : β → ℕ)
    {l : List α} (hl : (l.map key).Nodup) {l' : List β}
    (h : ∀ x ∈ l, ∃ y ∈ l', key' y = key x ∧ weight x ≤ weight' y) :
    (l.map weight).sum ≤ (l'.map weight').sum := by
  induction l generalizing l' with
  | nil => exact Nat.zero_le _
  | cons x l ih =>
    rw [List.map_cons, List.nodup_cons] at hl
    obtain ⟨y, hy, hkey, hle⟩ := h x List.mem_cons_self
    obtain ⟨before, after, rfl⟩ := List.append_of_mem hy
    -- what the rest of the list finds is not the element taken by the first
    have hrest : ∀ z ∈ l, ∃ y ∈ before ++ after, key' y = key z ∧ weight z ≤ weight' y := by
      intro z hz
      obtain ⟨y', hy', hkey', hle'⟩ := h z (List.mem_cons_of_mem x hz)
      refine ⟨y', ?_, hkey', hle'⟩
      rcases List.mem_append.mp hy' with hb | ha
      · exact List.mem_append_left _ hb
      · rcases List.mem_cons.mp ha with rfl | ha
        · exact absurd (List.mem_map.mpr ⟨z, hz, hkey'.symm.trans hkey⟩) hl.1
        · exact List.mem_append_right _ ha
    have hsum := ih hl.2 hrest
    simp only [List.map_append, List.map_cons, List.sum_append, List.sum_cons] at hsum ⊢
    omega

section Fibers

variable [DecidableEq κ] (key : α → κ) (weight : α → ℕ)

/-- What the elements of key `k` weigh. -/
def fiber (l : List α) (k : κ) : ℕ := ((l.filter (key · = k)).map weight).sum

/-- The list weighs what the elements of one key and the others weigh. -/
private theorem fiber_add_sum (l : List α) (k : κ) :
    fiber key weight l k + ((l.filter (key · ≠ k)).map weight).sum = (l.map weight).sum := by
  induction l with
  | nil => rfl
  | cons x l ih =>
    rw [fiber] at ih ⊢
    by_cases hx : key x = k
    · rw [List.filter_cons_of_pos (by simpa using hx), List.filter_cons_of_neg (by simpa using hx)]
      simp only [List.map_cons, List.sum_cons]
      omega
    · rw [List.filter_cons_of_neg (by simpa using hx), List.filter_cons_of_pos (by simpa using hx)]
      simp only [List.map_cons, List.sum_cons]
      omega

theorem sum_fiber_le {ks : List κ} (hks : ks.Nodup) (l : List α) :
    (ks.map (fiber key weight l)).sum ≤ (l.map weight).sum := by
  induction ks generalizing l with
  | nil => exact Nat.zero_le _
  | cons k ks ih =>
    rw [List.nodup_cons] at hks
    -- the fibers of the other keys lie among the elements of another key
    have hrest : ks.map (fiber key weight l) =
        ks.map (fiber key weight (l.filter (key · ≠ k))) := by
      refine List.map_congr_left fun k' hk' => ?_
      have hne : k' ≠ k := fun h => hks.1 (h ▸ hk')
      rw [fiber, fiber, List.filter_filter]
      refine congrArg (fun l => (List.map weight l).sum) (List.filter_congr fun x _ => ?_)
      by_cases hx : key x = k'
      · simp [hx, hne]
      · simp [hx]
    have hsplit := fiber_add_sum key weight l k
    have hle := ih hks.2 (l.filter (key · ≠ k))
    rw [List.map_cons, List.sum_cons, hrest]
    omega

end Fibers

/-! ### One weight for each key -/

/-- No choice of one weight for each of some keys comes to more than `limit`. -/
def ChoicesWithin (limit : ℕ) (P : κ → ℕ → Prop) : Prop :=
  ∀ l : List (κ × ℕ), (l.map (·.1)).Nodup → (∀ n ∈ l, P n.1 n.2) → (l.map (·.2)).sum ≤ limit

namespace ChoicesWithin

variable {limit : ℕ} {P Q : κ → ℕ → Prop}

theorem mono (h : ChoicesWithin limit P) (hle : ∀ k w, Q k w → ∃ w', P k w' ∧ w ≤ w') :
    ChoicesWithin limit Q := by
  intro l hl hall
  choose! f hf using hle
  have hlimit := h (l.map fun n => (n.1, f n.1 n.2)) (by rwa [List.map_map]) fun n' hn' => by
    obtain ⟨n, hn, rfl⟩ := List.mem_map.mp hn'
    exact (hf n.1 n.2 (hall n hn)).1
  rw [List.map_map] at hlimit
  exact (List.sum_le_sum fun n hn => (hf n.1 n.2 (hall n hn)).2).trans hlimit

theorem insert (h : ChoicesWithin limit P) {k : κ} {w : ℕ}
    (hrest : ∀ l : List (κ × ℕ), (l.map (·.1)).Nodup → (∀ n ∈ l, n.1 ≠ k ∧ P n.1 n.2) →
      (l.map (·.2)).sum + w ≤ limit) :
    ChoicesWithin limit fun k' w' => P k' w' ∨ k' = k ∧ w' = w := by
  intro l hl hall
  by_cases hmem : (k, w) ∈ l
  · -- the others have other keys, and weights that were allowed before
    obtain ⟨before, after, rfl⟩ := List.append_of_mem hmem
    have hperm : (before ++ (k, w) :: after).Perm ((k, w) :: (before ++ after)) :=
      List.perm_middle
    rw [(hperm.map _).nodup_iff, List.map_cons, List.nodup_cons] at hl
    rw [(hperm.map _).sum_eq, List.map_cons, List.sum_cons, Nat.add_comm]
    refine hrest _ hl.2 fun n hn => ?_
    have hne : n.1 ≠ k := fun heq => hl.1 (List.mem_map.mpr ⟨n, hn, heq⟩)
    exact ⟨hne, (hall n (hperm.mem_iff.mpr (List.mem_cons_of_mem _ hn))).resolve_right
      fun hnew => hne hnew.1⟩
  · refine h l hl fun n hn => (hall n hn).resolve_right ?_
    rintro ⟨rfl, rfl⟩
    exact hmem hn

end ChoicesWithin

end KeyedSum

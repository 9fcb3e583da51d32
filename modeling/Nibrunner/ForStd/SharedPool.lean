import Mathlib.Data.List.Basic
import Nibrunner.ForStd.IdMap

/-!
# Values that are shared while someone refers to them

A pool makes a value for a key when it is asked for one, and gives the same value to all who ask
while anyone still refers to it. Values nobody refers to are dropped when the pool is asked next. A
value is a number, and values are numbered as they are made.

**Those who refer to a value at the same time have the same one exactly if they asked for the same
key** (`Shared`), and a pool that was asked holds nothing that nobody refers to
(`referred_of_get`).
-/

universe u

/-- Someone who refers to a value, and the key it was asked for under. -/
structure PoolReference (α : Type u) where
  holder : ℕ
  key : α
  id : ℕ
deriving DecidableEq

structure SharedPool (α : Type u) [Ord α] [Std.TransOrd α] where
  entries : Std.ExtTreeMap α ℕ
  made : ℕ
  references : List (PoolReference α)

namespace SharedPool

open Std

variable {α : Type u} [Ord α] [Std.TransOrd α] (p : SharedPool α)

def empty : SharedPool α := ⟨∅, 0, []⟩

/-- The pool's own reference to a value is the only one. -/
def unshared (id : ℕ) : Bool := p.references.all (·.id ≠ id)

/-- The values nobody refers to are dropped. -/
def prune : SharedPool α := { p with entries := p.entries.filter fun _ id => !p.unshared id }

def refer (holder : ℕ) (key : α) (id : ℕ) : SharedPool α :=
  { p with references := p.references ++ [⟨holder, key, id⟩] }

/-- The value of a key, which is made if there is none. -/
def get (holder : ℕ) (key : α) : SharedPool α :=
  let p := p.prune
  match p.entries[key]? with
  | some id => p.refer holder key id
  | none =>
    { p with entries := p.entries.insert key p.made, made := p.made + 1 }.refer holder key p.made

/-- Someone no longer refers to its value. -/
def drop (holder : ℕ) : SharedPool α :=
  { p with references := p.references.filter (·.holder ≠ holder) }

/-- The value someone refers to. -/
def reference? (holder : ℕ) : Option (PoolReference α) :=
  p.references.find? (·.holder = holder)

variable {p}

/-- What is referred to is what is in the pool, and no two keys share a value. -/
structure Shared (p : SharedPool α) : Prop where
  referred : ∀ r ∈ p.references, p.entries[r.key]? = some r.id
  distinct : ∀ (a b : α) id, p.entries[a]? = some id → p.entries[b]? = some id → a = b
  made : ∀ (a : α) id, p.entries[a]? = some id → id < p.made

theorem shared_empty : Shared (empty : SharedPool α) where
  referred r hr := by cases hr
  distinct a b id ha := by
    rw [empty, ExtTreeMap.getElem?_empty] at ha
    cases ha
  made a id ha := by
    rw [empty, ExtTreeMap.getElem?_empty] at ha
    cases ha

theorem Shared.drop (h : Shared p) (holder : ℕ) : Shared (p.drop holder) :=
  { h with referred := fun r hr => h.referred r (List.mem_filter.mp hr).1 }

theorem getElem?_prune (a : α) :
    p.prune.entries[a]? = p.entries[a]?.filter fun id => !p.unshared id := by
  rw [prune, ExtTreeMap.getElem?_filter]
  simp

theorem unshared_eq_false {id : ℕ} : p.unshared id = false ↔ ∃ r ∈ p.references, r.id = id := by
  rw [unshared, List.all_eq_false]
  simp

/-- What someone refers to stays. -/
theorem Shared.prune (h : Shared p) : Shared p.prune where
  referred r hr := by
    rw [getElem?_prune, h.referred r hr, Option.filter_some_eq_some, Bool.not_eq_true']
    exact unshared_eq_false.mpr ⟨r, hr, rfl⟩
  distinct a b id ha hb := by
    rw [getElem?_prune] at ha hb
    exact h.distinct a b id (Option.filter_eq_some_iff.mp ha).1 (Option.filter_eq_some_iff.mp hb).1
  made a id ha := by
    rw [getElem?_prune] at ha
    exact h.made a id (Option.filter_eq_some_iff.mp ha).1

/-- Someone more refers to a value. -/
theorem Shared.refer (h : Shared p) (holder : ℕ) {key : α} {id : ℕ}
    (hid : p.entries[key]? = some id) : Shared (p.refer holder key id) :=
  { h with
    referred := fun r hr => by
      rcases List.mem_append.mp hr with hr | hr
      · exact h.referred r hr
      · cases List.mem_singleton.mp hr
        exact hid }

/-- The value a key is given. -/
def idFor (p : SharedPool α) (key : α) : ℕ := (p.prune.entries[key]?).getD p.made

theorem references_get (holder : ℕ) (key : α) :
    (p.get holder key).references = p.references ++ [⟨holder, key, p.idFor key⟩] := by
  rw [SharedPool.get, idFor]
  cases p.prune.entries[key]? with
  | none => rfl
  | some id => rfl

section Get

variable [Std.LawfulEqOrd α] [DecidableEq α]

/-- A value is made for a key that has none. -/
theorem Shared.make (h : Shared p) {key : α} (hnone : p.entries[key]? = none) :
    Shared { p with entries := p.entries.insert key p.made, made := p.made + 1 } where
  referred r hr := by
    have hold := h.referred r hr
    rw [ExtTreeMap.getElem?_insert_ite, if_neg fun hsame => ?_, hold]
    rw [← hsame, hnone] at hold
    cases hold
  distinct a b id ha hb := by
    rw [ExtTreeMap.getElem?_insert_ite] at ha hb
    split at ha
    · rename_i hkey
      cases ha
      split at hb
      · rename_i hkey'
        exact hkey.symm.trans hkey'
      · exact absurd (h.made b p.made hb) (Nat.lt_irrefl _)
    · split at hb
      · cases hb
        exact absurd (h.made a p.made ha) (Nat.lt_irrefl _)
      · exact h.distinct a b id ha hb
  made a id ha := by
    rw [ExtTreeMap.getElem?_insert_ite] at ha
    split at ha
    · cases ha
      exact Nat.lt_succ_self _
    · exact Nat.lt_succ_of_lt (h.made a id ha)

theorem getElem?_get (holder : ℕ) (key a : α) :
    (p.get holder key).entries[a]? =
      if key = a then some (p.idFor key) else p.prune.entries[a]? := by
  rw [SharedPool.get, idFor]
  split
  · rename_i id hid
    rw [hid]
    split
    · rename_i hsame
      rw [← hsame]
      exact hid
    · rfl
  · rename_i hnone
    rw [hnone]
    exact ExtTreeMap.getElem?_insert_ite _ _ _ _

theorem Shared.get (h : Shared p) (holder : ℕ) (key : α) : Shared (p.get holder key) := by
  rw [SharedPool.get]
  split
  · rename_i id hid
    exact h.prune.refer holder hid
  · rename_i hnone
    refine (h.prune.make hnone).refer holder ?_
    rw [ExtTreeMap.getElem?_insert_ite, if_pos rfl]

/-- Nothing is left in a pool that was asked that nobody refers to. -/
theorem referred_of_get {holder : ℕ} {key a : α} {id : ℕ}
    (hid : (p.get holder key).entries[a]? = some id) :
    ∃ r ∈ (p.get holder key).references, r.id = id := by
  rw [getElem?_get] at hid
  rw [references_get]
  split at hid
  · cases hid
    exact ⟨_, List.mem_append_right _ List.mem_cons_self, rfl⟩
  · rw [getElem?_prune] at hid
    have hshared := (Option.filter_eq_some_iff.mp hid).2
    rw [Bool.not_eq_true'] at hshared
    obtain ⟨r, hr, hsame⟩ := unshared_eq_false.mp hshared
    exact ⟨r, List.mem_append_left _ hr, hsame⟩

end Get

end SharedPool

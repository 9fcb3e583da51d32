import Nibrunner.ForStd.IdMap

/-!
# Tables with a unique column

A table maps keys to rows, and no two rows hold one value: the constraint is a field, so a
statement that would break it cannot be carried out and fails. It is checked after each
statement, not at the end of a transaction, so whether a list of statements goes through depends
on their order.

* `deleteAll` always goes through, and leaves the rows of the other keys;
* `upsertAll_eq_some`: what a list of insertions leaves where it goes through;
* `exists_upsertAll_iff`: over keys in order and distinct values it goes through exactly when
  each value it writes is free, or held by a key the list has already moved away from it.
-/

namespace Std

universe u v

/-- A table keyed by `κ` whose rows hold distinct values. -/
structure UniqueTable (κ : Type u) (β : Type v) [Ord κ] [TransOrd κ] where
  rows : ExtTreeMap κ β
  unique : ∀ (a b : κ) (v : β), rows[a]? = some v → rows[b]? = some v → a = b

namespace UniqueTable

variable {κ : Type u} {β : Type v} [Ord κ] [TransOrd κ] [LawfulEqOrd κ] [DecidableEq κ]

/-- The table without rows. -/
def empty : UniqueTable κ β where
  rows := ∅
  unique a b v ha _ := by
    rw [ExtTreeMap.getElem?_empty] at ha
    cases ha

/-! ### Deleting rows -/

/-- The table without the row of `k`. -/
def delete (t : UniqueTable κ β) (k : κ) : UniqueTable κ β where
  rows := t.rows.erase k
  unique := by
    intro a b v ha hb
    rw [ExtTreeMap.getElem?_erase_ite] at ha hb
    split at ha
    · cases ha
    · split at hb
      · cases hb
      · exact t.unique a b v ha hb

def deleteAll (t : UniqueTable κ β) (ks : List κ) : UniqueTable κ β := ks.foldl delete t

theorem getElem?_delete (t : UniqueTable κ β) (k a : κ) :
    (t.delete k).rows[a]? = if k = a then none else t.rows[a]? :=
  ExtTreeMap.getElem?_erase_ite t.rows k a

theorem getElem?_deleteAll (t : UniqueTable κ β) (ks : List κ) (a : κ) :
    (t.deleteAll ks).rows[a]? = if a ∈ ks then none else t.rows[a]? := by
  induction ks generalizing t with
  | nil => rfl
  | cons k ks ih =>
    rw [deleteAll, List.foldl_cons, ← deleteAll, ih, getElem?_delete]
    by_cases hk : k = a
    · simp [hk]
    · simp [hk, Ne.symm hk]

/-! ### Lists of rows that fit -/

variable {t t' : UniqueTable κ β} {k : κ} {v : β} {l : List (κ × β)}

/-- Each value of the list is free, or held by a key that the list has moved to another value by
then. -/
def Fits (t : UniqueTable κ β) (l : List (κ × β)) : Prop :=
  ∀ row ∈ l, ∀ a, t.rows[a]? = some row.2 → a ≠ row.1 →
    a ∈ l.map Prod.fst ∧ compare a row.1 = .lt

omit [LawfulEqOrd κ] in
/-- The first value of a list that fits is free: a holder of it would have to come before the
first key. -/
private theorem Fits.free (hkeys : ((k, v) :: l).Pairwise fun p q => compare p.1 q.1 = .lt)
    (h : t.Fits ((k, v) :: l)) (a : κ) (ha : t.rows[a]? = some v) : a = k := by
  by_contra hne
  obtain ⟨hmem, hlt⟩ := h (k, v) List.mem_cons_self a ha hne
  rw [List.map_cons, List.mem_cons] at hmem
  obtain ⟨row, hrow, rfl⟩ := List.mem_map.mp (hmem.resolve_left hne)
  have hgt : compare k row.1 = .lt := (List.pairwise_cons.mp hkeys).1 row hrow
  rw [OrientedOrd.eq_swap, hlt] at hgt
  cases hgt

/-- Putting in the first row of a list whose keys come in order leaves what remains of it to fit
as before. -/
private theorem fits_cons_iff (hkeys : ((k, v) :: l).Pairwise fun p q => compare p.1 q.1 = .lt)
    (hvalues : (((k, v) :: l).map Prod.snd).Nodup) (ht' : t'.rows = t.rows.insert k v) :
    t.Fits ((k, v) :: l) ↔ (∀ a, t.rows[a]? = some v → a = k) ∧ t'.Fits l := by
  rw [List.map_cons, List.nodup_cons] at hvalues
  constructor
  · intro h
    refine ⟨h.free hkeys, fun row hrow a ha hne => ?_⟩
    rw [ht', ExtTreeMap.getElem?_insert_ite] at ha
    split at ha
    · cases ha
      exact absurd (List.mem_map_of_mem hrow) hvalues.1
    · rename_i hka
      obtain ⟨hmem, hlt⟩ := h row (List.mem_cons_of_mem _ hrow) a ha hne
      rw [List.map_cons, List.mem_cons] at hmem
      exact ⟨hmem.resolve_left (Ne.symm hka), hlt⟩
  · rintro ⟨hfirst, hrest⟩ row hrow a ha hne
    rcases List.mem_cons.mp hrow with rfl | hrow
    · exact absurd (hfirst a ha) hne
    · by_cases hka : k = a
      · subst hka
        exact ⟨List.mem_cons_self, (List.pairwise_cons.mp hkeys).1 row hrow⟩
      · have ha' : t'.rows[a]? = some row.2 := by
          rw [ht', ExtTreeMap.getElem?_insert_ite, if_neg hka, ha]
        obtain ⟨hmem, hlt⟩ := hrest row hrow a ha' hne
        exact ⟨List.mem_cons_of_mem _ hmem, hlt⟩

/-! ### Inserting rows -/

variable [DecidableEq β]

/-- Another row than that of `k` holds `v`. -/
def holdsElsewhere (t : UniqueTable κ β) (k : κ) (v : β) : Bool :=
  t.rows.toList.any fun row => row.1 ≠ k ∧ row.2 = v

theorem holdsElsewhere_iff :
    t.holdsElsewhere k v ↔ ∃ a, a ≠ k ∧ t.rows[a]? = some v := by
  rw [holdsElsewhere, List.any_eq_true]
  constructor
  · rintro ⟨⟨a, w⟩, hmem, hrow⟩
    obtain ⟨hne, rfl⟩ := of_decide_eq_true hrow
    exact ⟨a, hne, ExtTreeMap.mem_toList_iff_getElem?_eq_some.mp hmem⟩
  · rintro ⟨a, hne, hrow⟩
    exact ⟨(a, v), ExtTreeMap.mem_toList_iff_getElem?_eq_some.mpr hrow, decide_eq_true ⟨hne, rfl⟩⟩

/-- The table with `v` in the row of `k`, whether or not there was one; nothing where another
row holds `v`. -/
def upsert (t : UniqueTable κ β) (k : κ) (v : β) : Option (UniqueTable κ β) :=
  if h : t.holdsElsewhere k v then none
  else
    some {
      rows := t.rows.insert k v
      unique := by
        rw [holdsElsewhere_iff, not_exists] at h
        intro a b w ha hb
        rw [ExtTreeMap.getElem?_insert_ite] at ha hb
        split at ha <;> split at hb
        · rename_i hka hkb
          exact hka.symm.trans hkb
        · rename_i hka hkb
          cases ha
          exact absurd ⟨Ne.symm hkb, hb⟩ (h b)
        · rename_i hka hkb
          cases hb
          exact absurd ⟨Ne.symm hka, ha⟩ (h a)
        · exact t.unique a b w ha hb }

/-- The rows of a list are put into the table one after another. -/
def upsertAll (t : UniqueTable κ β) (l : List (κ × β)) : Option (UniqueTable κ β) :=
  l.foldlM (fun t row => t.upsert row.1 row.2) t

theorem upsert_eq_some (h : t.upsert k v = some t') : t'.rows = t.rows.insert k v := by
  rw [upsert] at h
  split at h
  · cases h
  · cases h
    rfl

theorem exists_upsert_iff :
    (∃ t', t.upsert k v = some t') ↔ ∀ a, t.rows[a]? = some v → a = k := by
  rw [upsert]
  constructor
  · rintro ⟨t', h⟩ a ha
    split at h
    · cases h
    · rename_i hfree
      rw [holdsElsewhere_iff] at hfree
      by_contra hne
      exact hfree ⟨a, hne, ha⟩
  · intro h
    have hfree : ¬t.holdsElsewhere k v := by
      rw [holdsElsewhere_iff]
      rintro ⟨a, hne, ha⟩
      exact hne (h a ha)
    rw [dif_neg hfree]
    exact ⟨_, rfl⟩

theorem upsertAll_eq_some (h : t.upsertAll l = some t') :
    t'.rows = l.foldl (fun m row => m.insert row.1 row.2) t.rows := by
  induction l generalizing t with
  | nil =>
    cases h
    rfl
  | cons row l ih =>
    rw [upsertAll, List.foldlM_cons, Option.bind_eq_bind, Option.bind_eq_some_iff] at h
    obtain ⟨t₁, hrow, hl⟩ := h
    rw [ih hl, upsert_eq_some hrow]
    rfl

/-- **When a list of insertions goes through**: exactly when it fits. -/
theorem exists_upsertAll_iff (hkeys : l.Pairwise fun p q => compare p.1 q.1 = .lt)
    (hvalues : (l.map Prod.snd).Nodup) : (∃ t', t.upsertAll l = some t') ↔ t.Fits l := by
  induction l generalizing t with
  | nil => exact iff_of_true ⟨t, rfl⟩ fun row hrow => absurd hrow List.not_mem_nil
  | cons row l ih =>
    obtain ⟨k, v⟩ := row
    have ih' := fun t₁ => ih (t := t₁) hkeys.of_cons (List.nodup_cons.mp hvalues).2
    rw [upsertAll, List.foldlM_cons, Option.bind_eq_bind]
    constructor
    · rintro ⟨t', h⟩
      rw [Option.bind_eq_some_iff] at h
      obtain ⟨t₁, hrow, hl⟩ := h
      rw [fits_cons_iff hkeys hvalues (upsert_eq_some hrow)]
      exact ⟨exists_upsert_iff.mp ⟨t₁, hrow⟩, (ih' t₁).mp ⟨t', hl⟩⟩
    · intro h
      obtain ⟨t₁, hrow⟩ := exists_upsert_iff.mpr (h.free hkeys)
      rw [fits_cons_iff hkeys hvalues (upsert_eq_some hrow)] at h
      obtain ⟨t', hl⟩ := (ih' t₁).mpr h.2
      exact ⟨t', Option.bind_eq_some_iff.mpr ⟨t₁, hrow, hl⟩⟩

end UniqueTable

end Std

import Nibrunner.ForStd.IdMap
import Nibrunner.Protocol.Identifier

/-!
# What a repository last wrote

A repository remembers what it last wrote to its table, and writes only what differs from it:
`Delta` is the way from what the table holds to what is wanted. Nothing is remembered before the
first write, which reads the table, and nothing of a write that failed.
-/

namespace Nibrunner

open Std

inductive StoreError where
  | unreadable (reason : String)
  | unwritable (reason : String)
deriving DecidableEq

namespace StoreError

def message : StoreError → String
  | unreadable reason => s!"the host's own notes could not be read: {reason}"
  | unwritable reason => s!"the host's own notes could not be written: {reason}"

end StoreError

/-! ### The rows of apps -/

/-- What the rows collected from a map of apps hold under the text of an app: distinct apps have
distinct texts. -/
theorem getElem?_foldl_insert_text {β γ : Type} (f : β → γ) (m : ExtTreeMap AppId β)
    (app : AppId) :
    (m.toList.foldl (fun rows held => rows.insert held.1.text (f held.2))
      (∅ : ExtTreeMap String γ))[app.text]? = m[app]?.map f := by
  have hkeys : (m.toList.map fun held => held.1.text).Nodup := by
    have hnodup : (m.toList.map Prod.fst).Nodup := by
      rw [ExtTreeMap.map_fst_toList_eq_keys]
      exact ExtTreeMap.nodup_keys
    have htext : Function.Injective fun app : AppId => app.text := by
      rintro ⟨a⟩ ⟨b⟩ rfl
      rfl
    simpa only [List.map_map, Function.comp_def] using hnodup.map htext
  cases hheld : m[app]? with
  | some value =>
    have hmem : (app, value) ∈ m.toList :=
      ExtTreeMap.mem_toList_iff_getElem?_eq_some.mpr hheld
    exact ExtTreeMap.getElem?_foldl_insert_of_mem (fun held : AppId × β => held.1.text)
      (fun held => f held.2) hkeys ∅ hmem
  | none =>
    have hnot : app.text ∉ m.toList.map fun held => held.1.text := by
      intro h
      obtain ⟨⟨other, value⟩, hmem, htext⟩ := List.mem_map.mp h
      obtain rfl : other = app := by
        cases other
        cases app
        exact congrArg Id.mk htext
      rw [ExtTreeMap.mem_toList_iff_getElem?_eq_some, hheld] at hmem
      cases hmem
    rw [ExtTreeMap.getElem?_foldl_insert_of_notMem (fun held : AppId × β => held.1.text)
      (fun held => f held.2) ∅ hnot]
    rfl

/-! ### What was last written -/

/-- The write that takes a table from `last` to `wanted`. -/
structure Delta (β : Type) where
  last : β
  wanted : β

namespace Delta

def isEmpty {β : Type} [DecidableEq β] (delta : Delta β) : Bool := delta.last = delta.wanted

variable {β : Type} [DecidableEq β] (delta : Delta (ExtTreeMap String β))

/-- The rows of `wanted` the table does not hold, or holds with another value. -/
def changed : List (String × β) :=
  delta.wanted.toList.filter fun row => delta.last[row.1]? ≠ some row.2

/-- The rows the table holds that `wanted` does not. -/
def gone : List String := delta.last.keys.filter fun key => ¬delta.wanted.contains key

/-- Leaves a row as the table holds it when its move is not `worthWriting`: neither written nor
remembered as though it had been. -/
def keepUnless (worthWriting : β → β → Bool) : Delta (ExtTreeMap String β) :=
  { delta with
    wanted := delta.wanted.map fun key wanted =>
      match delta.last[key]? with
      | some held => if held ≠ wanted ∧ ¬worthWriting held wanted then held else wanted
      | none => wanted }

variable {delta}

theorem mem_changed_iff {key : String} {value : β} :
    (key, value) ∈ delta.changed ↔
      delta.wanted[key]? = some value ∧ delta.last[key]? ≠ some value := by
  rw [changed, List.mem_filter, ExtTreeMap.mem_toList_iff_getElem?_eq_some, decide_eq_true_iff]

theorem mem_keys_changed_iff {key : String} :
    key ∈ delta.changed.map Prod.fst ↔
      ∃ value, delta.wanted[key]? = some value ∧ delta.last[key]? ≠ some value := by
  constructor
  · intro h
    obtain ⟨⟨key, value⟩, hrow, rfl⟩ := List.mem_map.mp h
    exact ⟨value, mem_changed_iff.mp hrow⟩
  · rintro ⟨value, hrow⟩
    exact List.mem_map.mpr ⟨(key, value), mem_changed_iff.mpr hrow, rfl⟩

omit [DecidableEq β] in
theorem mem_gone_iff {key : String} :
    key ∈ delta.gone ↔ delta.last[key]? ≠ none ∧ delta.wanted[key]? = none := by
  rw [gone, List.mem_filter, ExtTreeMap.mem_keys, ExtTreeMap.mem_iff_isSome_getElem?,
    decide_eq_true_iff, ExtTreeMap.contains_eq_isSome_getElem?, Option.isSome_iff_ne_none,
    Option.not_isSome_iff_eq_none]

/-- The changed rows come in the order of their keys. -/
theorem pairwise_changed (delta : Delta (ExtTreeMap String β)) :
    delta.changed.Pairwise fun p q => compare p.1 q.1 = .lt :=
  (ExtTreeMap.ordered_keys_toList (t := delta.wanted)).filter _

/-- The changed rows are distinct where no two wanted ones are equal. -/
theorem nodup_changed (delta : Delta (ExtTreeMap String β))
    (h : ∀ (a b : String) v, delta.wanted[a]? = some v → delta.wanted[b]? = some v → a = b) :
    (delta.changed.map Prod.snd).Nodup := by
  have hnodup : delta.changed.Nodup := by
    refine delta.pairwise_changed.imp fun {p q} hlt heq => ?_
    rw [heq, ReflOrd.compare_self] at hlt
    cases hlt
  refine List.Nodup.map_on (fun p hp q hq hpq => ?_) hnodup
  obtain ⟨a, v⟩ := p
  obtain ⟨b, w⟩ := q
  obtain rfl : v = w := hpq
  rw [h a b v (mem_changed_iff.mp hp).1 (mem_changed_iff.mp hq).1]

/-- The changed rows have distinct keys. -/
theorem nodup_keys_changed (delta : Delta (ExtTreeMap String β)) :
    (delta.changed.map Prod.fst).Nodup := by
  rw [List.Nodup, List.pairwise_map]
  refine delta.pairwise_changed.imp fun {p q} hlt heq => ?_
  rw [heq, ReflOrd.compare_self] at hlt
  cases hlt

/-- Writing the changed rows and deleting the gone ones takes the table to what is wanted. -/
theorem foldl_erase_gone (delta : Delta (ExtTreeMap String β)) :
    delta.gone.foldl ExtTreeMap.erase
      (delta.changed.foldl (fun table row => table.insert row.1 row.2) delta.last) =
      delta.wanted := by
  refine ExtTreeMap.ext_getElem? fun key => ?_
  simp only [ExtTreeMap.getElem?_foldl_erase, mem_gone_iff]
  by_cases hkey : key ∈ delta.changed.map Prod.fst
  · obtain ⟨value, hwanted, hheld⟩ := mem_keys_changed_iff.mp hkey
    rw [if_neg (by simp [hwanted]), hwanted]
    exact ExtTreeMap.getElem?_foldl_insert_of_mem (fun row : String × β => row.1) (·.2)
      delta.nodup_keys_changed _ (mem_changed_iff.mpr ⟨hwanted, hheld⟩)
  · rw [ExtTreeMap.getElem?_foldl_insert_of_notMem (fun row : String × β => row.1) (·.2) _ hkey]
    -- a row that stays is the one wanted, or there is none to have
    rw [mem_keys_changed_iff, not_exists] at hkey
    cases hwanted : delta.wanted[key]? with
    | none => cases delta.last[key]? <;> simp
    | some value =>
      rw [if_neg (by simp)]
      exact not_not.mp fun hne => hkey value ⟨hwanted, hne⟩

theorem getElem?_wanted_keepUnless (delta : Delta (ExtTreeMap String β))
    (worthWriting : β → β → Bool) (key : String) :
    (delta.keepUnless worthWriting).wanted[key]? = delta.wanted[key]?.map fun wanted =>
      match delta.last[key]? with
      | some held => if held ≠ wanted ∧ ¬worthWriting held wanted then held else wanted
      | none => wanted :=
  ExtTreeMap.getElem?_map

end Delta

/-- The delta towards `wanted`; the table is read only where nothing is remembered. -/
def towards {β : Type} (memory : Option β) (wanted held : β) : Delta β where
  last := memory.getD held
  wanted := wanted

end Nibrunner

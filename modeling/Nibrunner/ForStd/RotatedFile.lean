import Mathlib.Data.List.Infix

/-!
# Files that are cut

A file that is appended to until it is long enough, and is then moved over the one it was last cut
to. At most two generations are kept, `kept` is what is in both, the older first, and **what is kept
is always the end of what was appended** (`kept_suffix_of_append`, `kept_rotate_suffix`).
-/

universe u

/-- A file and the one before it, each if it is there. -/
structure RotatedFile (β : Type u) where
  previous : Option (List β)
  current : Option (List β)
deriving DecidableEq

namespace RotatedFile

variable {β : Type u} (f : RotatedFile β)

/-- Neither file is there. -/
def absent : RotatedFile β := ⟨none, none⟩

/-- The file is made, unless it is there. -/
def create : RotatedFile β := { f with current := some (f.current.getD []) }

/-- What is written goes to the end of the file. -/
def append (more : List β) : RotatedFile β := { f with current := some (f.current.getD [] ++ more) }

/-- The file is moved over the one before it. -/
def rotate : RotatedFile β :=
  match f.current with
  | some content => ⟨some content, none⟩
  | none => f

/-- Either file is removed, where that succeeds. -/
def remove (current previous : Bool) : RotatedFile β where
  current := if current then none else f.current
  previous := if previous then none else f.previous

/-- The end of the file is lost. -/
def truncate (lost : ℕ) : RotatedFile β :=
  { f with current := f.current.map fun content => content.take (content.length - lost) }

/-- What is in the two files, the older first. -/
def kept : List β := f.previous.getD [] ++ f.current.getD []

@[simp] theorem kept_create : f.create.kept = f.kept := rfl

@[simp] theorem kept_append (more : List β) : (f.append more).kept = f.kept ++ more := by
  rw [kept, kept, List.append_assoc]
  rfl

@[simp] theorem kept_remove : (f.remove true true).kept = [] := rfl

@[simp] theorem truncate_zero : f.truncate 0 = f := by
  obtain ⟨previous, current⟩ := f
  simp [truncate]

variable {f}

/-- A cut keeps the newer of the two files. -/
theorem kept_rotate_suffix : f.rotate.kept <:+ f.kept := by
  rw [rotate]
  split
  · rename_i content hcurrent
    rw [kept, kept, hcurrent]
    simp
  · exact List.suffix_rfl

/-- What is lost is the end of what was kept. -/
theorem kept_truncate {lost : ℕ} (h : lost ≤ (f.current.getD []).length) :
    (f.truncate lost).kept = f.kept.take (f.kept.length - lost) := by
  cases hcurrent : f.current with
  | none =>
    rw [hcurrent, Option.getD_none, List.length_nil, Nat.le_zero] at h
    rw [kept, kept, truncate, hcurrent, h, Nat.sub_zero, List.take_length]
    rfl
  | some content =>
    rw [hcurrent, Option.getD_some] at h
    rw [kept, kept, truncate, hcurrent]
    simp only [Option.map_some, Option.getD_some]
    have hsize : (f.previous.getD [] ++ content).length - lost =
        (f.previous.getD []).length + (content.length - lost) := by
      rw [List.length_append]
      omega
    rw [hsize, List.take_length_add_append]

theorem kept_remove_sublist (current previous : Bool) :
    (f.remove current previous).kept.Sublist f.kept := by
  rw [kept, kept, remove]
  refine List.Sublist.append ?_ ?_
  · cases previous
    · exact List.Sublist.refl _
    · exact List.nil_sublist _
  · cases current
    · exact List.Sublist.refl _
    · exact List.nil_sublist _

theorem kept_suffix_of_append {written : List β} (h : f.kept <:+ written) (more : List β) :
    (f.append more).kept <:+ written ++ more := by
  obtain ⟨front, rfl⟩ := h
  exact ⟨front, by rw [kept_append, List.append_assoc]⟩

end RotatedFile

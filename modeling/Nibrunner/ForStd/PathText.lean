import Mathlib.Data.List.Basic
import Mathlib.Order.Defs.LinearOrder

/-!
# Paths as texts

A path is a text of components with `/` between them; `split` takes it apart and `join` puts it
together. Over names (components that are not empty, no dots and without a separator) a text and
its components are the same thing: `join` is injective, and one text is below another exactly when
its components go on from the other's.
-/

namespace PathText

/-- The components of a path, empty ones among them. -/
def split (path : String) : List String := (path.toList.splitOn '/').map String.ofList

def join (components : List String) : String :=
  String.ofList (['/'].intercalate (components.map String.toList))

/-- Whether a text starts with another. -/
def startsWith (start text : String) : Bool := start.toList.isPrefixOf text.toList

/-- A component that names something. -/
structure IsName (c : String) : Prop where
  plain : '/' ∉ c.toList
  ne_empty : c ≠ ""
  ne_dot : c ≠ "."
  ne_dots : c ≠ ".."

/-- A path that names something below the root, or the root. -/
def Names (cs : List String) : Prop := ∀ c ∈ cs, IsName c

theorem names_nil : Names [] := fun _ h => absurd h List.not_mem_nil

theorem names_append {cs ds : List String} : Names (cs ++ ds) ↔ Names cs ∧ Names ds := by
  simp [Names, or_imp, forall_and]

theorem names_singleton {c : String} : Names [c] ↔ IsName c := by simp [Names]

@[simp] theorem join_nil : join [] = "" := rfl

/-- No component holds a separator. -/
theorem plain_of_mem_split {path c : String} (h : c ∈ split path) : '/' ∉ c.toList := by
  obtain ⟨part, hpart, rfl⟩ := List.mem_map.mp h
  rw [String.toList_ofList]
  clear h
  generalize path.toList = text at hpart
  induction text generalizing part with
  | nil =>
    rw [List.splitOn_nil, List.mem_singleton] at hpart
    simp [hpart]
  | cons x text ih =>
    rw [List.splitOn_cons_eq_if_modifyHead] at hpart
    split at hpart
    · rcases List.mem_cons.mp hpart with rfl | hpart
      · exact List.not_mem_nil
      · exact ih part hpart
    · rename_i hx
      cases hsplit : text.splitOn '/' with
      | nil => exact absurd hsplit (List.splitOn_ne_nil _ _)
      | cons head rest =>
        rw [hsplit, List.modifyHead_cons] at hpart
        rcases List.mem_cons.mp hpart with rfl | hpart
        · rw [List.mem_cons, not_or]
          exact ⟨fun h => hx (by simp [← h]), ih head (hsplit ▸ List.mem_cons_self)⟩
        · exact ih part (hsplit ▸ List.mem_cons_of_mem _ hpart)

/-- A path from the root starts with an empty component. -/
theorem split_of_startsWith {path : String} (h : startsWith "/" path = true) :
    ∃ parts, split path = "" :: parts := by
  rw [startsWith, List.isPrefixOf_iff_prefix] at h
  obtain ⟨rest, hrest⟩ := h
  refine ⟨(rest.splitOn '/').map String.ofList, ?_⟩
  rw [split, ← hrest]
  exact congrArg (List.map String.ofList) (List.splitOn_append_cons_self [] rest)

theorem split_ne_nil (path : String) : split path ≠ [] := by
  rw [split, ne_eq, List.map_eq_nil_iff]
  exact List.splitOn_ne_nil _ _

/-- Components are read back. -/
theorem split_join {cs : List String} (hne : cs ≠ []) (h : ∀ c ∈ cs, '/' ∉ c.toList) :
    split (join cs) = cs := by
  rw [split, join, String.toList_ofList, List.splitOn_intercalate]
  · simp
  · intro l hl
    obtain ⟨c, hc, rfl⟩ := List.mem_map.mp hl
    exact h c hc
  · simpa using hne

theorem Names.plain {cs : List String} (h : Names cs) : ∀ c ∈ cs, '/' ∉ c.toList :=
  fun c hc => (h c hc).plain

theorem join_ne_empty {cs : List String} (hne : cs ≠ []) (h : Names cs) : join cs ≠ "" := by
  intro hjoin
  have hsplit := split_join hne h.plain
  rw [hjoin] at hsplit
  have hempty : "" ∈ cs := hsplit ▸ List.mem_cons_self
  exact (h _ hempty).ne_empty rfl

theorem join_eq_empty_iff {cs : List String} (h : Names cs) : join cs = "" ↔ cs = [] := by
  constructor
  · intro hjoin
    by_contra hne
    exact join_ne_empty hne h hjoin
  · rintro rfl
    rfl

/-- **Names are read off their text.** -/
theorem join_injective {cs ds : List String} (hcs : Names cs) (hds : Names ds)
    (h : join cs = join ds) : cs = ds := by
  by_cases hne : cs = []
  · subst hne
    exact ((join_eq_empty_iff hds).mp (h ▸ rfl)).symm
  · have hne' : ds ≠ [] := fun hnil => hne ((join_eq_empty_iff hcs).mp (h.trans (hnil ▸ rfl)))
    rw [← split_join hne hcs.plain, h, split_join hne' hds.plain]

theorem join_cons {c : String} {cs : List String} (h : cs ≠ []) :
    join (c :: cs) = c ++ "/" ++ join cs := by
  have hne : cs.map String.toList ≠ [] := by simpa using h
  rw [← String.toList_inj]
  simp only [join, String.toList_ofList, String.toList_append, List.map_cons,
    List.intercalate_cons_of_ne_nil hne]
  rfl

@[simp] theorem join_singleton (c : String) : join [c] = c := by simp [join]

theorem join_append {cs ds : List String} (hcs : cs ≠ []) (hds : ds ≠ []) :
    join (cs ++ ds) = join cs ++ "/" ++ join ds := by
  induction cs with
  | nil => exact absurd rfl hcs
  | cons c cs ih =>
    by_cases hne : cs = []
    · subst hne
      rw [List.singleton_append, join_cons hds, join_singleton]
    · have happend : cs ++ ds ≠ [] := by simp [hds]
      rw [List.cons_append, join_cons happend, ih hne, join_cons hne]
      simp only [String.append_assoc]

/-- **One text is below another** exactly when its components go on from the other's. -/
theorem startsWith_join_iff {cs ds : List String} (hne : cs ≠ []) (hcs : Names cs)
    (hds : Names ds) :
    startsWith (join cs ++ "/") (join ds) = true ↔ ∃ rest, rest ≠ [] ∧ ds = cs ++ rest := by
  rw [startsWith, List.isPrefixOf_iff_prefix]
  constructor
  · rintro ⟨rest, hrest⟩
    rw [String.toList_append, List.append_assoc] at hrest
    have hne' : ds ≠ [] := by
      rintro rfl
      simp at hrest
    refine ⟨(rest.splitOn '/').map String.ofList, by simp [List.splitOn_ne_nil], ?_⟩
    have hsplit : split (join ds) = split (join cs) ++ (rest.splitOn '/').map String.ofList := by
      rw [split, ← hrest, split, ← List.map_append]
      congr 1
      exact List.splitOn_append_cons_self _ _
    rwa [split_join hne' hds.plain, split_join hne hcs.plain] at hsplit
  · rintro ⟨rest, hrest, rfl⟩
    have htext : (join (cs ++ rest)).toList = (join cs ++ "/").toList ++ (join rest).toList := by
      rw [join_append hne hrest]
      exact String.toList_append
    rw [htext]
    exact List.prefix_append _ _

/-- A text comes before those it starts. -/
theorem lt_append {a b : String} (hb : b ≠ "") : a < a ++ b := by
  change a.toList < (a ++ b).toList
  have hne : b.toList ≠ [] := by simpa using hb
  rw [String.toList_append]
  induction a.toList with
  | nil =>
    cases hlist : b.toList with
    | nil => exact absurd hlist hne
    | cons c rest => exact List.nil_lt_cons c rest
  | cons c rest ih => exact List.cons_lt_cons_self.mpr ih

/-- A path comes before what is below it. -/
theorem compare_join_append {cs rest : List String} (hnames : Names (cs ++ rest))
    (hrest : rest ≠ []) : compare (join cs) (join (cs ++ rest)) = .lt := by
  have hlt : join cs < join (cs ++ rest) := by
    by_cases hnil : cs = []
    · subst hnil
      have hne := join_ne_empty (by simpa using hrest) hnames
      simpa using lt_append (a := "") hne
    · rw [join_append hnil hrest, String.append_assoc]
      exact lt_append (by simp)
  exact compareOfLessAndEq_eq_lt.mpr hlt

/-! ### Dots -/

/-- The names a list of components comes to above `names`, where a component that goes up takes the
last name away; the root is above itself. -/
def resolveFrom (names : List String) : List String → List String
  | [] => names
  | c :: cs =>
    if c = "" ∨ c = "." then resolveFrom names cs
    else if c = ".." then resolveFrom names.dropLast cs
    else resolveFrom (names ++ [c]) cs

/-- The names a path from the root comes to, resolved by the text alone. -/
def resolve (path : String) : List String := resolveFrom [] (split path)

theorem resolveFrom_of_not_mem {cs : List String} (h : ".." ∉ cs) (names : List String) :
    resolveFrom names cs = names ++ cs.filter fun c => c ≠ "" && c ≠ "." := by
  induction cs generalizing names with
  | nil => exact (List.append_nil names).symm
  | cons c cs ih =>
    rw [List.mem_cons, not_or] at h
    obtain ⟨hc, hcs⟩ := h
    rw [resolveFrom, if_neg (Ne.symm hc)]
    split_ifs with hskip
    · rw [ih hcs, List.filter_cons_of_neg]
      rcases hskip with rfl | rfl <;> simp
    · rw [not_or] at hskip
      rw [ih hcs, List.filter_cons_of_pos (by simpa using hskip), List.append_assoc]
      rfl

/-- **A path that never goes up comes to its own names.** -/
theorem resolve_of_not_mem {path : String} (h : ".." ∉ split path) :
    resolve path = (split path).filter fun c => c ≠ "" && c ≠ "." :=
  resolveFrom_of_not_mem h []

end PathText

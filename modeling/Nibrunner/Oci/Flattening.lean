import Nibrunner.ForStd.Fallible
import Nibrunner.ForStd.IdMap
import Nibrunner.Oci.Filesystem

/-!
# What flattening keeps

Whatever the layers say, the nodes are a tree: the root is a directory, every path is of names, and
what a path goes through are directories. Each operation keeps that, `remove` because it takes away
what is below what it takes away, `place` because it clears what is below anything that is no
directory, and the patching of hard links because what it patches has nothing below it.

* `Filesystem.Sound`: the nodes are a tree;
* `Filesystem.resolve_all`: what a path resolves to is made of its own components and of those of
  the links it is resolved through;
* `Filesystem.Sound.apply`: a layer that is accepted leaves a tree without unresolved links.
-/

namespace Nibrunner

open Std PathText

namespace Filesystem

/-- The nodes are a tree of directories, with the root at its root. -/
structure Sound (fs : Filesystem) : Prop where
  root : ∃ node, fs.nodes[""]? = some node ∧ node.kind = .directory
  names : ∀ key node, fs.nodes[key]? = some node → ∃ cs, Names cs ∧ key = join cs
  parents : ∀ cs rest, Names (cs ++ rest) → rest ≠ [] →
    ∀ node, fs.nodes[join (cs ++ rest)]? = some node →
      ∃ parent, fs.nodes[join cs]? = some parent ∧ parent.kind = .directory

variable {fs fs' : Filesystem}

theorem Sound.of_nodes_eq (hs : fs.Sound) (h : fs'.nodes = fs.nodes) : fs'.Sound :=
  ⟨h ▸ hs.root, h ▸ hs.names, h ▸ hs.parents⟩

/-! ### Resolving -/

section Resolve

variable {Q : String → Prop} {followFinal : Bool} {links : ℕ} {pending resolved cs : List String}

/-- Components that name something and have a property. -/
def Named (Q : String → Prop) (cs : List String) : Prop :=
  ∀ c ∈ cs, Q c ∧ c ≠ "" ∧ c ≠ "." ∧ c ≠ ".."

/-- Where a walk stops, its components have the property. -/
def Walk.All (Q : String → Prop) : Walk → Prop
  | done resolved => Named Q resolved
  | link _ pending resolved => (∀ c ∈ pending, Q c) ∧ Named Q resolved
  | nonDirectory => True

/-- The targets of the links that are followed. -/
def followed (fs : Filesystem) (followFinal : Bool) :
    ℕ → List String → List String → List String
  | links, pending, resolved =>
    match fs.walk followFinal pending resolved, links with
    | .link (.utf8 target) pending resolved, links + 1 =>
      target :: followed fs followFinal links (split target ++ pending)
        (if startsWith "/" target then [] else resolved)
    | _, _ => []

theorem walk_all (fs : Filesystem) (followFinal : Bool) (hp : ∀ c ∈ pending, Q c)
    (hr : Named Q resolved) :
    (fs.walk followFinal pending resolved).All Q := by
  -- a component is empty or a dot, goes up, or is taken into the way
  induction pending generalizing resolved with
  | nil => exact hr
  | cons name pending ih =>
    have hrest : ∀ c ∈ pending, Q c := fun c hc => hp c (List.mem_cons_of_mem _ hc)
    rw [walk]
    split
    · exact ih hrest hr
    · rename_i hempty
      split
      · exact ih hrest fun c hc => hr c (List.dropLast_subset _ hc)
      · rename_i hdots
        simp only [Bool.or_eq_true, decide_eq_true_eq, not_or] at hempty
        have hnext : Named Q (resolved ++ [name]) := by
          intro c hc
          rcases List.mem_append.mp hc with hc | hc
          · exact hr c hc
          · rw [List.mem_singleton.mp hc]
            exact ⟨hp name List.mem_cons_self, hempty.1, hempty.2, hdots⟩
        split
        · split
          · exact ⟨hrest, hr⟩
          · exact ih hrest hnext
        · exact ih hrest hnext
        · split
          · trivial
          · exact ih hrest hnext
        · exact ih hrest hnext

theorem followed_of_link {target : String} {rest stopped : List String}
    (h : fs.walk followFinal pending resolved = .link (.utf8 target) rest stopped) :
    fs.followed followFinal (links + 1) pending resolved =
      target :: fs.followed followFinal links (split target ++ rest)
        (if startsWith "/" target then [] else stopped) := by
  rw [followed.eq_def]
  dsimp only
  rw [h]

theorem follow_all (hp : ∀ c ∈ pending, Q c) (hr : Named Q resolved)
    (ht : ∀ target ∈ fs.followed followFinal links pending resolved, ∀ c ∈ split target, Q c)
    (h : fs.follow followFinal links pending resolved = .ok cs) : Named Q cs := by
  -- a link that is followed puts its target's components before what is still to walk
  induction links generalizing pending resolved with
  | zero =>
    have hwalk := walk_all fs followFinal hp hr
    rw [follow] at h
    split at h
    · rename_i hdone
      cases h
      rwa [hdone] at hwalk
    · cases h
    · cases h
  | succ links ih =>
    have hwalk := walk_all fs followFinal hp hr
    rw [follow] at h
    split at h
    · rename_i hdone
      cases h
      rwa [hdone] at hwalk
    · cases h
    · rename_i target rest stopped hlink
      rw [hlink] at hwalk
      cases target with
      | notUtf8 bytes => cases h
      | utf8 target =>
        rw [followed_of_link hlink] at ht
        obtain ⟨htarget, ht⟩ := List.forall_mem_cons.mp ht
        refine ih (fun c hc => (List.mem_append.mp hc).elim (htarget c) (hwalk.1 c)) ?_ ht h
        split
        · exact fun _ hc => absurd hc List.not_mem_nil
        · exact hwalk.2

/-- The targets of the links that a path is resolved through. -/
def linksOn (fs : Filesystem) (path : String) (followFinal : Bool) : List String :=
  fs.followed followFinal 40 (split path) []

theorem resolve_all {path key : String} (hp : ∀ c ∈ split path, Q c)
    (ht : ∀ target ∈ fs.linksOn path followFinal, ∀ c ∈ split target, Q c)
    (h : fs.resolve path followFinal = .ok key) : ∃ cs, Named Q cs ∧ key = join cs := by
  obtain ⟨cs, hcs, rfl⟩ := Except.map_eq_ok_iff.mp h
  exact ⟨cs, follow_all hp (fun _ hc => absurd hc List.not_mem_nil) ht hcs, rfl⟩

/-- **A resolved path is one of names.** -/
theorem resolve_names {path key : String} (h : fs.resolve path followFinal = .ok key) :
    ∃ cs, Names cs ∧ key = join cs := by
  obtain ⟨cs, hcs, rfl⟩ := resolve_all (Q := fun c => '/' ∉ c.toList)
    (fun _ hc => plain_of_mem_split hc) (fun _ _ _ hc => plain_of_mem_split hc) h
  refine ⟨cs, fun c hc => ?_, rfl⟩
  obtain ⟨hplain, hempty, hdot, hdots⟩ := hcs c hc
  exact ⟨hplain, hempty, hdot, hdots⟩

end Resolve

/-! ### Taking away -/

section Remove

variable {p q : List String} {includeSelf : Bool}

/-- What is left: all but what is below, and but the path itself if it goes too. -/
theorem getElem?_remove (hp : Names p) (hq : Names q) {node : Node} :
    (fs.remove (join p) includeSelf).nodes[join q]? = some node ↔
      fs.nodes[join q]? = some node ∧ ¬(includeSelf = true ∧ q = p) ∧
        ¬∃ rest, rest ≠ [] ∧ q = p ++ rest := by
  have heq : join q = join p ↔ q = p := ⟨join_injective hq hp, fun h => h ▸ rfl⟩
  have hbelow : (join q ≠ join p ∧
      startsWith (if join p = "" then "" else join p ++ "/") (join q) = true) ↔
        ∃ rest, rest ≠ [] ∧ q = p ++ rest := by
    rw [ne_eq, heq]
    by_cases hnil : p = []
    · subst hnil
      simp [startsWith]
    · rw [if_neg (join_ne_empty hnil hp), startsWith_join_iff hnil hp hq]
      constructor
      · exact fun h => h.2
      · rintro ⟨rest, hrest, rfl⟩
        exact ⟨by simpa using hrest, rest, hrest, rfl⟩
  rw [← hbelow, ← heq]
  simp only [remove, ExtTreeMap.getElem?_filter', Option.filter_eq_some_iff]
  refine and_congr_right fun _ => ?_
  generalize startsWith _ (join q) = below
  cases includeSelf <;> cases below <;> simp

/-- Removing takes away only. -/
theorem getElem?_of_remove {path key : String} {node : Node}
    (h : (fs.remove path includeSelf).nodes[key]? = some node) : fs.nodes[key]? = some node := by
  simp only [remove, ExtTreeMap.getElem?_filter', Option.filter_eq_some_iff] at h
  exact h.1

/-- **What is taken away is taken away with all that is below it.** -/
theorem Sound.remove (hs : fs.Sound) (hp : Names p) (hroot : includeSelf = true → p ≠ []) :
    (fs.remove (join p) includeSelf).Sound where
  root := by
    obtain ⟨node, hnode, hkind⟩ := hs.root
    refine ⟨node, (getElem?_remove (q := []) hp names_nil).mpr ⟨hnode, ?_, ?_⟩, hkind⟩
    · rintro ⟨hself, rfl⟩
      exact hroot hself rfl
    · rintro ⟨rest, hrest, hnil⟩
      exact hrest (List.append_eq_nil_iff.mp hnil.symm).2
  names key node hnode := hs.names key node (getElem?_of_remove hnode)
  parents cs rest hnames hrest node hnode := by
    obtain ⟨hnode, hself, hbelow⟩ := (getElem?_remove hp hnames).mp hnode
    obtain ⟨parent, hparent, hkind⟩ := hs.parents cs rest hnames hrest node hnode
    refine ⟨parent, (getElem?_remove hp (names_append.mp hnames).1).mpr ⟨hparent, ?_, ?_⟩, hkind⟩
    · rintro ⟨-, rfl⟩
      exact hbelow ⟨rest, hrest, rfl⟩
    · rintro ⟨above, habove, rfl⟩
      exact hbelow ⟨above ++ rest, by simp [habove], List.append_assoc _ _ _⟩

end Remove

/-! ### Making parents -/

section Parents

variable {done components : List String}

/-- What a path is once a component is put behind it. -/
theorem join_concat {component : String} (hdone : Names done) :
    (if join done = "" then component else join done ++ "/" ++ component) =
      join (done ++ [component]) := by
  by_cases hnil : done = []
  · subst hnil
    simp
  · rw [if_neg (join_ne_empty hnil hdone), join_append hnil (List.cons_ne_nil _ _), join_singleton]

/-- A path is a directory. -/
def IsDir (fs : Filesystem) (cs : List String) : Prop :=
  ∃ node, fs.nodes[join cs]? = some node ∧ node.kind = .directory

/-- What making parents does: nothing that is there moves, what is new are directories on the way,
and all of the way is directories. -/
structure Paved (fs fs' : Filesystem) (done components : List String) : Prop where
  kept : ∀ (key : String) (node : Node), fs.nodes[key]? = some node → fs'.nodes[key]? = some node
  new : ∀ (key : String) (node : Node), fs'.nodes[key]? = some node → fs.nodes[key]? = some node ∨
    node.kind = .directory ∧ ∃ way rest, way ≠ [] ∧ components = way ++ rest ∧
      key = join (done ++ way)
  paved : ∀ way rest, way ≠ [] → components = way ++ rest → fs'.IsDir (done ++ way)

theorem Paved.cons {component : String} {middle : Filesystem}
    (hkept : ∀ (key : String) (node : Node), fs.nodes[key]? = some node →
      middle.nodes[key]? = some node)
    (hnew : ∀ (key : String) (node : Node), middle.nodes[key]? = some node →
      fs.nodes[key]? = some node ∨ node.kind = .directory ∧ key = join (done ++ [component]))
    (hdir : middle.IsDir (done ++ [component]))
    (h : Paved middle fs' (done ++ [component]) components) :
    Paved fs fs' done (component :: components) where
  kept key node hnode := h.kept key node (hkept key node hnode)
  new key node hnode := by
    rcases h.new key node hnode with hmiddle | ⟨hkind, way, rest, hway, hcomponents, rfl⟩
    · rcases hnew key node hmiddle with hfs | ⟨hkind, rfl⟩
      · exact .inl hfs
      · exact .inr ⟨hkind, [component], components, List.cons_ne_nil _ _, rfl, rfl⟩
    · refine .inr ⟨hkind, component :: way, rest, List.cons_ne_nil _ _, ?_, ?_⟩
      · rw [hcomponents, List.cons_append]
      · rw [List.append_assoc, List.singleton_append]
  paved way rest hway heq := by
    -- the first step of the way is the component, what is behind it was paved
    cases way with
    | nil => exact absurd rfl hway
    | cons head way =>
      rw [List.cons_append, List.cons.injEq] at heq
      obtain ⟨rfl, hcomponents⟩ := heq
      by_cases hnil : way = []
      · subst hnil
        obtain ⟨node, hnode, hkind⟩ := hdir
        exact ⟨node, h.kept _ node hnode, hkind⟩
      · have hdeep := h.paved way rest hnil hcomponents
        rwa [List.append_assoc, List.singleton_append] at hdeep

theorem paved_parentsFrom (hnames : Names (done ++ components))
    (h : fs.parentsFrom (join done) components = .ok fs') : Paved fs fs' done components := by
  induction components generalizing fs done with
  | nil =>
    cases h
    refine ⟨fun _ _ h => h, fun _ _ h => .inl h, fun way rest hway heq => ?_⟩
    exact absurd (List.append_eq_nil_iff.mp heq.symm).1 hway
  | cons component components ih =>
    have hnext : Names (done ++ [component] ++ components) := by
      rwa [List.append_assoc, List.singleton_append]
    simp only [parentsFrom, join_concat (names_append.mp hnames).1] at h
    -- there is something in the way, a directory, or nothing yet and a directory is made
    split at h
    · cases h
    · rename_i hdir
      obtain ⟨node, hnode, hkind⟩ := Option.map_eq_some_iff.mp hdir
      refine Paved.cons (fun _ _ h => h) (fun _ _ h => .inl h) ⟨node, hnode, ?_⟩ (ih hnext h)
      cases hnodeKind : node.kind <;> simp_all [Kind.isDirectory]
    · rename_i hmissing
      rw [Option.map_eq_none_iff] at hmissing
      refine Paved.cons (fun key node hnode => ?_) (fun key node hnode => ?_) ?_ (ih hnext h)
      · rw [ExtTreeMap.getElem?_insert_ite, if_neg]
        · exact hnode
        · rintro rfl
          rw [hmissing] at hnode
          cases hnode
      · rw [ExtTreeMap.getElem?_insert_ite] at hnode
        split at hnode
        · rename_i hkey
          cases hnode
          exact .inr ⟨rfl, hkey.symm⟩
        · exact .inl hnode
      · exact ⟨directoryNode fs.inodes, ExtTreeMap.getElem?_insert_self, rfl⟩

/-- The parents of a path of names. -/
theorem dropLast_split_join {p : List String} (hp : Names p) :
    (split (join p)).dropLast = p.dropLast := by
  by_cases hnil : p = []
  · subst hnil
    rfl
  · rw [split_join hnil hp.plain]

theorem paved_parents {p : List String} (hp : Names p)
    (h : fs.parents (join p) = .ok fs') : Paved fs fs' [] p.dropLast := by
  rw [parents, dropLast_split_join hp] at h
  exact paved_parentsFrom (fun c hc => hp c (List.dropLast_subset _ hc)) h

end Parents

/-! ### Putting down -/

section Place

variable {p : List String} {node : Node}

/-- Whatever a path goes through is a directory once its parents are made. -/
theorem isDir_of_paved (hs : fs.Sound) (hpaved : Paved fs fs' [] p.dropLast)
    {cs rest : List String} (heq : p = cs ++ rest) (hrest : rest ≠ []) : fs'.IsDir cs := by
  by_cases hnil : cs = []
  · subst hnil
    obtain ⟨root, hroot, hkind⟩ := hs.root
    exact ⟨root, hpaved.kept "" root hroot, hkind⟩
  · refine hpaved.paved cs rest.dropLast hnil ?_
    rw [heq, List.dropLast_append_of_ne_nil hrest]

/-- Nothing is below a path. -/
def Bare (fs : Filesystem) (p : List String) : Prop :=
  ∀ rest, rest ≠ [] → Names (p ++ rest) → fs.nodes[join (p ++ rest)]? = none

/-- A node is put where its parents are directories, over a directory if it is one, and otherwise
where nothing is below. -/
theorem Sound.insert (hs : fs.Sound) (hp : Names p) (hpaved : Paved fs fs' [] p.dropLast)
    (hroot : p = [] → node.kind = .directory) (hbelow : node.kind = .directory ∨ fs.Bare p) :
    { fs' with nodes := fs'.nodes.insert (join p) node }.Sound := by
  have hat : ∀ cs, Names cs → cs ≠ p →
      (fs'.nodes.insert (join p) node)[join cs]? = fs'.nodes[join cs]? := by
    intro cs hcs hne
    rw [ExtTreeMap.getElem?_insert_ite, if_neg]
    exact fun h => hne (join_injective hp hcs h).symm
  have hdir : ∀ cs rest, p = cs ++ rest → rest ≠ [] →
      ∃ parent, (fs'.nodes.insert (join p) node)[join cs]? = some parent ∧
        parent.kind = .directory := by
    intro cs rest heq hrest
    obtain ⟨parent, hparent, hkind⟩ := isDir_of_paved hs hpaved heq hrest
    have hcs : Names cs := (names_append.mp (heq ▸ hp)).1
    have hne : cs ≠ p := fun h => hrest (List.self_eq_append_right.mp (h.trans heq))
    exact ⟨parent, (hat cs hcs hne).trans hparent, hkind⟩
  constructor
  · by_cases hnil : p = []
    · subst hnil
      exact ⟨node, ExtTreeMap.getElem?_insert_self, hroot rfl⟩
    · exact hdir [] p rfl hnil
  · intro key other hother
    rw [ExtTreeMap.getElem?_insert_ite] at hother
    split at hother
    · rename_i hkey
      exact ⟨p, hp, hkey.symm⟩
    · rcases hpaved.new key other hother with hold | ⟨-, way, rest, -, hway, rfl⟩
      · exact hs.names key other hold
      · refine ⟨way, fun c hc => hp c (List.dropLast_subset _ ?_), rfl⟩
        exact hway ▸ List.mem_append_left _ hc
  · intro cs rest hnames hrest other hother
    by_cases hself : cs ++ rest = p
    · exact hdir cs rest hself.symm hrest
    · change (fs'.nodes.insert (join p) node)[join (cs ++ rest)]? = some other at hother
      rw [hat _ hnames hself] at hother
      rcases hpaved.new _ other hother with hold | ⟨-, way, more, -, hway, hkey⟩
      · -- it was there before: its parent was a directory, and still is unless it was replaced
        obtain ⟨parent, hparent, hkind⟩ := hs.parents cs rest hnames hrest other hold
        by_cases hreplaced : cs = p
        · subst hreplaced
          rcases hbelow with hdirectory | hbare
          · exact ⟨node, ExtTreeMap.getElem?_insert_self, hdirectory⟩
          · rw [hbare rest hrest hnames] at hold
            cases hold
        · exact ⟨parent, (hat cs (names_append.mp hnames).1 hreplaced).trans
            (hpaved.kept _ parent hparent), hkind⟩
      · -- it was made on the way to the path, and so was its parent
        have hwayNames : Names way :=
          fun c hc => hp c (List.dropLast_subset _ (hway ▸ List.mem_append_left _ hc))
        have heq := join_injective hnames hwayNames hkey
        have hne : p ≠ [] := by
          rintro rfl
          have hnil := List.append_eq_nil_iff.mp hway.symm
          rw [hnil.1] at heq
          exact hrest (List.append_eq_nil_iff.mp heq).2
        refine hdir cs (rest ++ more ++ [p.getLast hne]) ?_ (by simp)
        rw [← List.append_assoc, ← List.append_assoc, heq, ← hway, List.dropLast_append_getLast]

theorem isDirectory_iff {kind : Kind} : kind.isDirectory = true ↔ kind = .directory := by
  cases kind <;> simp [Kind.isDirectory]

/-- **A node that is put down leaves a tree.** -/
theorem Sound.place (hs : fs.Sound) (hp : Names p) (hroot : p = [] → node.kind = .directory)
    (h : fs.place (join p) node = .ok fs') : fs'.Sound := by
  obtain ⟨paved, hparents, hplaced⟩ := Except.bind_eq_ok_iff.mp h
  simp only at hplaced
  split at hplaced
  · cases hplaced
  · cases hplaced
    split at hparents
    · rename_i hmerging
      rw [Bool.and_eq_true, isDirectory_iff] at hmerging
      exact hs.insert hp (paved_parents hp hparents) hroot (.inl hmerging.1)
    · rename_i hmerging
      have hne : p ≠ [] := by
        rintro rfl
        obtain ⟨root, hnode, hkind⟩ := hs.root
        refine hmerging ?_
        rw [join_nil, hnode, Option.any_some, isDirectory_iff.mpr (hroot rfl),
          isDirectory_iff.mpr hkind]
        rfl
      have hremoved := hs.remove hp fun _ : true = true => hne
      refine hremoved.insert hp (paved_parents hp hparents) hroot (.inr fun rest hrest hnames => ?_)
      rw [Option.eq_none_iff_forall_ne_some]
      intro below hbelow
      exact ((getElem?_remove hp hnames).mp hbelow).2.2 ⟨rest, hrest, rfl⟩

/-- Anything may be put in the place of what is no directory. -/
theorem Sound.replace (hs : fs.Sound) {key : String} {old : Node}
    (hold : fs.nodes[key]? = some old) (hkind : old.kind ≠ .directory) :
    { fs with nodes := fs.nodes.insert key node }.Sound := by
  obtain ⟨p, hp, rfl⟩ := hs.names key old hold
  have hne : p ≠ [] := by
    rintro rfl
    obtain ⟨root, hroot, hdirectory⟩ := hs.root
    rw [join_nil, hroot] at hold
    cases hold
    exact hkind hdirectory
  have hpaved : Paved fs fs [] p.dropLast := by
    refine ⟨fun _ _ h => h, fun _ _ h => .inl h, fun way rest hway heq => ?_⟩
    have hsplit : p = way ++ (rest ++ [p.getLast hne]) := by
      rw [← List.append_assoc, ← heq, List.dropLast_append_getLast]
    exact hs.parents way _ (hsplit ▸ hp) (by simp) old (hsplit ▸ hold)
  refine hs.insert hp hpaved (fun h => absurd h hne) (.inr fun rest hrest hnames => ?_)
  rw [Option.eq_none_iff_forall_ne_some]
  intro below hbelow
  obtain ⟨parent, hparent, hdirectory⟩ := hs.parents p rest hnames hrest below hbelow
  rw [hold] at hparent
  cases hparent
  exact hkind hdirectory

end Place

/-! ### A layer -/

section Layer

variable {entries : List (String × Node)} {removals : List (String × Bool)}

/-- What a whiteout takes away is a path of names, and never the root itself. -/
theorem whiteout_names {name : String} {node : Node} {removal : String × Bool}
    (h : fs.whiteout name node = .ok removal) :
    ∃ p, Names p ∧ removal.1 = join p ∧ (removal.2 = true → p ≠ []) := by
  simp only [whiteout] at h
  split at h
  · cases h
  · rename_i hdeleted
    obtain ⟨parent, hparent, h⟩ := Except.bind_eq_ok_iff.mp h
    obtain ⟨cs, hcs, rfl⟩ := resolve_names hparent
    split at h
    · cases h
      exact ⟨cs, hcs, rfl, fun h => nomatch h⟩
    · split at h
      · cases h
      · rename_i hdots
        cases h
        simp only [Bool.or_eq_true, decide_eq_true_eq, not_or] at hdeleted hdots
        have hlast : (rsplitOnce name).2 ∈ split name := List.getLast_mem _
        have hplain : '/' ∉ (rsplitOnce name).2.toList.drop whiteoutPrefix.toList.length :=
          fun hc => plain_of_mem_split hlast (List.mem_of_mem_drop hc)
        refine ⟨cs ++ [String.ofList ((rsplitOnce name).2.toList.drop
          whiteoutPrefix.toList.length)], names_append.mpr ⟨hcs, names_singleton.mpr
          ⟨by rwa [String.toList_ofList], hdeleted.2, hdots.1, hdots.2⟩⟩, ?_, fun _ => by simp⟩
        exact join_concat hcs

theorem removals_names (h : fs.removals entries = .ok removals) :
    ∀ removal ∈ removals, ∃ p, Names p ∧ removal.1 = join p ∧ (removal.2 = true → p ≠ []) := by
  induction entries generalizing removals with
  | nil =>
    cases h
    exact fun _ h => absurd h List.not_mem_nil
  | cons entry entries ih =>
    rw [Filesystem.removals] at h
    split at h
    · obtain ⟨removal, hremoval, h⟩ := Except.bind_eq_ok_iff.mp h
      obtain ⟨others, hothers, h⟩ := Except.bind_eq_ok_iff.mp h
      cases h
      intro other hother
      rcases List.mem_cons.mp hother with rfl | hother
      · exact whiteout_names hremoval
      · exact ih hothers other hother
    · exact ih h

theorem Sound.removeAll (hs : fs.Sound)
    (h : ∀ removal ∈ removals, ∃ p, Names p ∧ removal.1 = join p ∧ (removal.2 = true → p ≠ [])) :
    (fs.removeAll removals).Sound := by
  induction removals generalizing fs with
  | nil => exact hs
  | cons removal removals ih =>
    obtain ⟨p, hp, hpath, hroot⟩ := h removal List.mem_cons_self
    refine ih ?_ fun other hother => h other (List.mem_cons_of_mem _ hother)
    change (fs.remove removal.1 removal.2).Sound
    rw [hpath]
    exact hs.remove hp hroot

/-- Linking moves no node, and makes no directory of what is none. -/
theorem linked_eq_ok {node node' : Node} (h : fs.linked node = .ok (fs', node')) :
    fs'.nodes = fs.nodes ∧ (node.kind = .directory → node'.kind = .directory) ∧
      (node' = node ∨ (∃ target, node'.kind = .hardlink target) ∨
        ∃ key : String, fs.nodes[key]? = some node') := by
  rw [linked] at h
  split at h
  · rename_i target hkind
    have hnot : node.kind ≠ .directory := by
      rw [hkind]
      exact fun h => nomatch h
    obtain ⟨resolved, -, h⟩ := Except.bind_eq_ok_iff.mp h
    split at h
    · rename_i existing hexisting
      split at h
      · cases h
      · cases h
        exact ⟨rfl, fun hdirectory => absurd hdirectory hnot, .inr (.inr ⟨_, hexisting⟩)⟩
    · cases h
      exact ⟨rfl, fun hdirectory => absurd hdirectory hnot, .inr (.inl ⟨_, rfl⟩)⟩
  · cases h
    exact ⟨rfl, fun hdirectory => hdirectory, .inl rfl⟩

theorem Sound.applyEntry (hs : fs.Sound) {entry : String × Node}
    (h : fs.applyEntry entry = .ok fs') : fs'.Sound := by
  rw [Filesystem.applyEntry] at h
  split at h
  · cases h
    exact hs
  · obtain ⟨name, hname, h⟩ := Except.bind_eq_ok_iff.mp h
    obtain ⟨p, hp, rfl⟩ := resolve_names hname
    split at h
    · cases h
    · rename_i hroot
      obtain ⟨⟨linkedFs, node⟩, hlinked, h⟩ := Except.bind_eq_ok_iff.mp h
      obtain ⟨hnodes, hdirectory, -⟩ := linked_eq_ok hlinked
      refine (hs.of_nodes_eq hnodes).place hp (fun hnil => hdirectory ?_) h
      subst hnil
      simpa [isDirectory_iff] using hroot

theorem Sound.applyEntries (hs : fs.Sound) (h : fs.applyEntries entries = .ok fs') :
    fs'.Sound := by
  induction entries generalizing fs with
  | nil =>
    cases h
    exact hs
  | cons entry entries ih =>
    obtain ⟨middle, hmiddle, h⟩ := Except.bind_eq_ok_iff.mp h
    exact ih (hs.applyEntry hmiddle) h

/-! ### Patching links -/

/-- The links of a round are no directories. -/
def Links (fs : Filesystem) (pending : List (String × String)) : Prop :=
  ∀ link ∈ pending, ∃ node, fs.nodes[link.1]? = some node ∧ node.kind ≠ .directory

theorem mem_pendingLinks {link : String × String} :
    link ∈ fs.pendingLinks ↔
      ∃ node, fs.nodes[link.1]? = some node ∧ node.kind = .hardlink link.2 := by
  rw [pendingLinks, List.mem_filterMap]
  constructor
  · rintro ⟨⟨name, node⟩, hmem, hlink⟩
    rw [ExtTreeMap.mem_toList_iff_getElem?_eq_some] at hmem
    simp only at hlink
    split at hlink
    · rename_i target hkind
      cases hlink
      exact ⟨node, hmem, hkind⟩
    · cases hlink
  · rintro ⟨node, hnode, hkind⟩
    exact ⟨(link.1, node), ExtTreeMap.mem_toList_iff_getElem?_eq_some.mpr hnode, by simp [hkind]⟩

theorem links_pendingLinks : fs.Links fs.pendingLinks := by
  intro link hlink
  obtain ⟨node, hnode, hkind⟩ := mem_pendingLinks.mp hlink
  exact ⟨node, hnode, by rw [hkind]; exact fun h => nomatch h⟩

/-- What it keeps to patch one link, all the rounds keep: a node that is there takes the place of
one that is no directory. -/
theorem patchLinks_invariant {P : Filesystem → Prop}
    (hpatch : ∀ {fs : Filesystem} {name target : String} {old node : Node}, P fs →
      fs.nodes[name]? = some old → old.kind ≠ .directory → fs.nodes[target]? = some node →
      P { fs with nodes := fs.nodes.insert name node })
    (hs : P fs) {pending : List (String × String)} {patched patched' : Bool}
    (hlinks : fs.Links pending) (h : fs.patchLinks pending patched = .ok (fs', patched')) :
    P fs' := by
  induction pending generalizing fs patched with
  | nil =>
    cases h
    exact hs
  | cons link pending ih =>
    have hrest : fs.Links pending :=
      fun other hother => hlinks other (List.mem_cons_of_mem _ hother)
    rw [Filesystem.patchLinks] at h
    split at h
    · rename_i node hnode
      split at h
      · exact ih hs hrest h
      · cases h
      · rename_i hdirectory
        obtain ⟨old, hold, hkind⟩ := hlinks link List.mem_cons_self
        refine ih (hpatch hs hold hkind hnode) (fun other hother => ?_) h
        rw [ExtTreeMap.getElem?_insert_ite]
        split
        · exact ⟨node, rfl, hdirectory⟩
        · exact hrest other hother
    · exact ih hs hrest h

theorem resolveLinks_invariant {P : Filesystem → Prop}
    (hpatch : ∀ {fs : Filesystem} {name target : String} {old node : Node}, P fs →
      fs.nodes[name]? = some old → old.kind ≠ .directory → fs.nodes[target]? = some node →
      P { fs with nodes := fs.nodes.insert name node })
    (hs : P fs) {rounds : ℕ} (h : fs.resolveLinks rounds = .ok fs') : P fs' := by
  induction rounds generalizing fs with
  | zero => cases h
  | succ rounds ih =>
    rw [Filesystem.resolveLinks] at h
    split at h
    · cases h
      exact hs
    · obtain ⟨⟨middle, patched⟩, hpatched, h⟩ := Except.bind_eq_ok_iff.mp h
      simp only at h
      split at h
      · exact ih (patchLinks_invariant hpatch hs links_pendingLinks hpatched) h
      · cases h

/-- No node is a link that was not resolved. -/
def Resolved (fs : Filesystem) : Prop :=
  ∀ (key : String) (node : Node) (target : String), fs.nodes[key]? = some node →
    node.kind ≠ .hardlink target

theorem resolved_of_resolveLinks {rounds : ℕ} (h : fs.resolveLinks rounds = .ok fs') :
    fs'.Resolved := by
  induction rounds generalizing fs with
  | zero => cases h
  | succ rounds ih =>
    rw [Filesystem.resolveLinks] at h
    split at h
    · rename_i hnone
      cases h
      intro key node target hnode hkind
      have hmem : (key, target) ∈ fs'.pendingLinks := mem_pendingLinks.mpr ⟨node, hnode, hkind⟩
      rw [hnone] at hmem
      exact absurd hmem List.not_mem_nil
    · obtain ⟨⟨middle, patched⟩, -, h⟩ := Except.bind_eq_ok_iff.mp h
      simp only at h
      split at h
      · exact ih h
      · cases h

theorem Sound.resolveLinks (hs : fs.Sound) {rounds : ℕ} (h : fs.resolveLinks rounds = .ok fs') :
    fs'.Sound ∧ fs'.Resolved :=
  ⟨resolveLinks_invariant (fun hs hold hkind _ => hs.replace hold hkind) hs h,
    resolved_of_resolveLinks h⟩

/-- **A layer that is accepted leaves a tree**, and no link unresolved. -/
theorem Sound.apply (hs : fs.Sound) {layer : List ArchiveEntry} (h : fs.apply layer = .ok fs') :
    fs'.Sound ∧ fs'.Resolved := by
  obtain ⟨entries, -, h⟩ := Except.bind_eq_ok_iff.mp h
  obtain ⟨removals, hremovals, h⟩ := Except.bind_eq_ok_iff.mp h
  obtain ⟨placed, hplaced, h⟩ := Except.bind_eq_ok_iff.mp h
  have hstart : { fs with inodes := fs.inodes + entries.length }.Sound := hs.of_nodes_eq rfl
  exact ((hstart.removeAll (removals_names hremovals)).applyEntries hplaced).resolveLinks h

theorem sound_new : new.Sound where
  root := ⟨directoryNode 0, ExtTreeMap.getElem?_insert_self, rfl⟩
  names key node h := by
    rw [new, ExtTreeMap.getElem?_insert_ite] at h
    split at h
    · rename_i hkey
      exact ⟨[], names_nil, hkey.symm⟩
    · simp at h
  parents cs rest hnames hrest node h := by
    rw [new, ExtTreeMap.getElem?_insert_ite, if_neg] at h
    · simp at h
    · exact (join_ne_empty (by simp [hrest]) hnames).symm

theorem resolved_new : new.Resolved := by
  intro key node target h
  rw [new, ExtTreeMap.getElem?_insert_ite] at h
  split at h
  · cases h
    exact fun h => nomatch h
  · simp at h

/-- Every sequence of layers that is accepted. -/
theorem Sound.flatten (hs : fs.Sound) (hr : fs.Resolved) {layers : List (List ArchiveEntry)}
    (h : fs.flatten layers = .ok fs') : fs'.Sound ∧ fs'.Resolved := by
  induction layers generalizing fs with
  | nil =>
    cases h
    exact ⟨hs, hr⟩
  | cons layer layers ih =>
    obtain ⟨middle, hmiddle, h⟩ := Except.bind_eq_ok_iff.mp h
    obtain ⟨hsound, hresolved⟩ := hs.apply hmiddle
    exact ih hsound hresolved h

end Layer

end Filesystem

end Nibrunner

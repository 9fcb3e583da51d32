import Nibrunner.Oci.Flattening

/-!
# The archive an image becomes

A flattened filesystem is written out with its directories first, and each in the order of the
paths. A path comes after what it starts with, so every directory is there before what is below it,
and what is written is where its path says it is: nothing on the way is a link.

* `Filesystem.WrittenInOrder`: paths below the root, none twice, each behind its directories;
* `Filesystem.flattened_image`: what holds of every sequence of layers that is accepted.
-/

namespace Nibrunner

open Std PathText

namespace Filesystem

variable {fs : Filesystem}

section Finish

variable {tar : List WrittenEntry}

theorem mem_ordered {key : String} {node : Node} :
    (key, node) ∈ fs.ordered ↔ fs.nodes[key]? = some node := by
  rw [ordered, List.mem_append, List.mem_filter, List.mem_filter,
    ExtTreeMap.mem_toList_iff_getElem?_eq_some]
  cases node.kind.isDirectory <;> simp

/-- Directories come before the rest, and each in the order of the paths. -/
theorem ordered_pairwise (fs : Filesystem) : fs.ordered.Pairwise fun x y =>
    (x.2.kind.isDirectory = true ∧ y.2.kind.isDirectory = false) ∨
      (x.2.kind.isDirectory = y.2.kind.isDirectory ∧ compare x.1 y.1 = .lt) := by
  have hsorted := ExtTreeMap.ordered_keys_toList (t := fs.nodes)
  rw [ordered, List.pairwise_append]
  refine ⟨?_, ?_, fun x hx y hy => ?_⟩
  · refine List.Pairwise.imp_of_mem (fun hx hy h => .inr ⟨?_, h⟩) (hsorted.filter _)
    rw [(List.mem_filter.mp hx).2, (List.mem_filter.mp hy).2]
  · refine List.Pairwise.imp_of_mem (fun {x y} hx hy h => .inr ⟨?_, h⟩) (hsorted.filter _)
    have hx := (List.mem_filter.mp hx).2
    have hy := (List.mem_filter.mp hy).2
    simp only [Bool.not_eq_true'] at hx hy
    rw [hx, hy]
  · have hy := (List.mem_filter.mp hy).2
    simp only [Bool.not_eq_true'] at hy
    exact .inl ⟨(List.mem_filter.mp hx).2, hy⟩

/-- **Every directory comes before what is below it.** -/
theorem Sound.ordered_parents (hs : fs.Sound) {before after : List (String × Node)}
    {cs rest : List String} {node : Node} (hnames : Names (cs ++ rest)) (hrest : rest ≠ [])
    (h : fs.ordered = before ++ (join (cs ++ rest), node) :: after) :
    ∃ parent, (join cs, parent) ∈ before ∧ parent.kind = .directory := by
  have hnode : fs.nodes[join (cs ++ rest)]? = some node :=
    mem_ordered.mp (h ▸ List.mem_append_right _ List.mem_cons_self)
  obtain ⟨parent, hparent, hkind⟩ := hs.parents cs rest hnames hrest node hnode
  have hlt := compare_join_append hnames hrest
  have hgt : compare (join (cs ++ rest)) (join cs) = .gt := by
    rw [OrientedOrd.eq_swap (α := String), hlt]
    rfl
  refine ⟨parent, ?_, hkind⟩
  have hmem : (join cs, parent) ∈ before ++ (join (cs ++ rest), node) :: after :=
    h ▸ mem_ordered.mpr hparent
  rcases List.mem_append.mp hmem with hbefore | hafter
  · exact hbefore
  · -- behind what is below it, it would have to be no directory, or to come later in the order
    have hpairwise := fs.ordered_pairwise
    rw [h] at hpairwise
    have hbehind := (List.pairwise_cons.mp (List.pairwise_append.mp hpairwise).2.1).1
    rcases List.mem_cons.mp hafter with heq | hafter
    · have hkey : join cs = join (cs ++ rest) := congrArg Prod.fst heq
      rw [← hkey, ReflOrd.compare_self] at hlt
      cases hlt
    · rcases hbehind _ hafter with ⟨-, hnot⟩ | ⟨-, hless⟩
      · rw [isDirectory_iff.mpr hkind] at hnot
        cases hnot
      · rw [hgt] at hless
        cases hless

/-- A node and the entry it is written as. -/
theorem map_writeOut {links : ExtTreeMap ℕ String} {l : List (String × Node)}
    (h : writeOut links l = .ok tar) :
    tar.map (fun entry => (entry.name, decide (entry.written = .directory))) =
      l.map fun entry => (writtenName entry.1, entry.2.kind.isDirectory) := by
  induction l generalizing links tar with
  | nil =>
    cases h
    rfl
  | cons entry l ih =>
    obtain ⟨path, node⟩ := entry
    simp only [writeOut] at h
    split at h
    · cases h
    · split at h
      -- the inode was written before: the node becomes a link, and is no directory
      · rename_i target htarget
        obtain ⟨others, hothers, h⟩ := Except.bind_eq_ok_iff.mp h
        cases h
        have hnot : node.kind.isDirectory = false := by
          by_contra hdirectory
          rw [Bool.not_eq_false] at hdirectory
          rw [if_pos hdirectory] at htarget
          cases htarget
        simp [ih hothers, hnot]
      · obtain ⟨written, hwritten, h⟩ := Except.bind_eq_ok_iff.mp h
        obtain ⟨others, hothers, h⟩ := Except.bind_eq_ok_iff.mp h
        cases h
        have hkind : decide (written = .directory) = node.kind.isDirectory := by
          cases hnode : node.kind with
          | hardlink target =>
            rw [hnode] at hwritten
            cases hwritten
          | _ =>
            rw [hnode] at hwritten
            cases hwritten
            simp [Kind.isDirectory]
        simp [ih hothers, hkind]

/-- What is written out: paths below the root, none twice, and each behind the directories it goes
through. -/
structure WrittenInOrder (tar : List WrittenEntry) : Prop where
  inside : ∀ entry ∈ tar, ∃ cs, Names cs ∧ entry.name = writtenName (join cs)
  nodup : (tar.map (·.name)).Nodup
  parentsFirst : ∀ before entry after, tar = before ++ entry :: after →
    ∀ cs rest, Names (cs ++ rest) → rest ≠ [] → entry.name = join (cs ++ rest) →
      ∃ parent ∈ before, parent.name = writtenName (join cs) ∧ parent.written = .directory

/-- The name a path is written under tells the path. -/
theorem writtenName_injective {cs ds : List String} (hcs : Names cs) (hds : Names ds)
    (h : writtenName (join cs) = writtenName (join ds)) : join cs = join ds := by
  have hdot : ∀ {es : List String}, Names es → join es ≠ "." := by
    intro es hes hjoin
    have hne : es ≠ [] := by
      rintro rfl
      exact absurd hjoin (by decide)
    have hsplit := split_join hne hes.plain
    rw [hjoin] at hsplit
    exact (hes "." (hsplit ▸ List.mem_cons_self)).ne_dot rfl
  rw [writtenName, writtenName] at h
  split at h
  · rename_i hroot
    split at h
    · rename_i hroot'
      rw [hroot, hroot']
    · exact absurd h.symm (hdot hds)
  · split at h
    · exact absurd h (hdot hcs)
    · exact h

theorem Sound.writtenInOrder (hs : fs.Sound) (h : writeOut ∅ fs.ordered = .ok tar) :
    WrittenInOrder tar := by
  have hmap := map_writeOut h
  have hnamesOf : tar.map (·.name) = fs.ordered.map fun entry => writtenName entry.1 := by
    have hfst := congrArg (List.map Prod.fst) hmap
    rwa [List.map_map, List.map_map] at hfst
  constructor
  · intro entry hentry
    have hname : entry.name ∈ fs.ordered.map fun entry => writtenName entry.1 :=
      hnamesOf ▸ List.mem_map_of_mem hentry
    obtain ⟨⟨key, node⟩, hmem, heq⟩ := List.mem_map.mp hname
    obtain ⟨cs, hcs, rfl⟩ := hs.names key node (mem_ordered.mp hmem)
    exact ⟨cs, hcs, heq.symm⟩
  · rw [hnamesOf, List.Nodup, List.pairwise_map]
    refine List.Pairwise.imp_of_mem (fun {x y} hx hy hxy heq => ?_) fs.ordered_pairwise
    obtain ⟨cs, hcs, hx'⟩ := hs.names x.1 x.2 (mem_ordered.mp hx)
    obtain ⟨ds, hds, hy'⟩ := hs.names y.1 y.2 (mem_ordered.mp hy)
    rw [hx', hy'] at heq
    have hkey : x.1 = y.1 := by
      rw [hx', hy']
      exact writtenName_injective hcs hds heq
    rcases hxy with ⟨hdirectory, hnot⟩ | ⟨-, hlt⟩
    · have hsame : some x.2 = some y.2 := by
        rw [← mem_ordered.mp hx, ← mem_ordered.mp hy, hkey]
      rw [Option.some.injEq] at hsame
      rw [hsame, hnot] at hdirectory
      cases hdirectory
    · rw [hkey, ReflOrd.compare_self] at hlt
      cases hlt
  · rintro before entry after rfl cs rest hnames hrest hname
    rw [List.map_append, List.map_cons] at hmap
    obtain ⟨front, back, hordered, hfront, hback⟩ := List.map_eq_append_iff.mp hmap.symm
    obtain ⟨⟨key, node⟩, others, rfl, hentry, -⟩ := List.map_eq_cons_iff.mp hback
    -- the entry is that of its own path
    obtain ⟨ds, hds, rfl⟩ := hs.names key node
      (mem_ordered.mp (hordered ▸ List.mem_append_right _ List.mem_cons_self))
    have hwritten : writtenName (join ds) = writtenName (join (cs ++ rest)) := by
      have hne := join_ne_empty (by simp [hrest]) hnames
      rw [writtenName.eq_def (join (cs ++ rest)), if_neg hne, ← hname]
      exact congrArg Prod.fst hentry
    rw [writtenName_injective hds hnames hwritten] at hordered
    obtain ⟨parent, hparent, hkind⟩ := hs.ordered_parents hnames hrest hordered
    have hmem : (writtenName (join cs), parent.kind.isDirectory) ∈
        before.map fun entry => (entry.name, decide (entry.written = .directory)) :=
      hfront ▸ List.mem_map_of_mem hparent
    obtain ⟨found, hfound, heq⟩ := List.mem_map.mp hmem
    rw [Prod.mk.injEq, isDirectory_iff.mpr hkind, decide_eq_true_iff] at heq
    exact ⟨found, hfound, heq.1, heq.2⟩

/-- Every attribute is named by a text. -/
def Attributed (fs : Filesystem) : Prop :=
  ∀ (key : String) (node : Node), fs.nodes[key]? = some node →
    ∀ pair ∈ node.attributes, pair.1.isUtf8 = true

theorem exists_writeOut {l : List (String × Node)} (links : ExtTreeMap ℕ String)
    (hresolved : ∀ entry ∈ l, ∀ target, entry.2.kind ≠ .hardlink target)
    (hattributes : ∀ entry ∈ l, ∀ pair ∈ entry.2.attributes, pair.1.isUtf8 = true) :
    ∃ tar, writeOut links l = .ok tar := by
  induction l generalizing links with
  | nil => exact ⟨[], rfl⟩
  | cons entry l ih =>
    obtain ⟨path, node⟩ := entry
    have hrest : ∀ links, ∃ tar, writeOut links l = .ok tar := fun links =>
      ih links (fun other hother => hresolved other (List.mem_cons_of_mem _ hother))
        (fun other hother => hattributes other (List.mem_cons_of_mem _ hother))
    simp only [writeOut]
    -- no attribute is refused, and every kind but an unresolved link can be written
    rw [if_neg]
    · split
      · obtain ⟨tar, htar⟩ := hrest links
        exact ⟨_, Except.bind_eq_ok_iff.mpr ⟨tar, htar, rfl⟩⟩
      · obtain ⟨tar, htar⟩ := hrest (links.insert node.inode (writtenName path))
        have hwritten : ∃ written, writtenAs node.kind = .ok written := by
          cases hkind : node.kind with
          | hardlink target => exact absurd hkind (hresolved _ List.mem_cons_self target)
          | _ => exact ⟨_, rfl⟩
        obtain ⟨written, hwritten⟩ := hwritten
        exact ⟨_, Except.bind_eq_ok_iff.mpr ⟨written, hwritten,
          Except.bind_eq_ok_iff.mpr ⟨tar, htar, rfl⟩⟩⟩
    · rw [List.any_eq_true]
      rintro ⟨pair, hpair, hnot⟩
      have hutf8 := hattributes _ List.mem_cons_self pair hpair
      simp only [Bool.not_eq_true'] at hnot
      rw [hutf8] at hnot
      cases hnot

/-- A tree without unresolved links is written out. -/
theorem Resolved.exists_finish (hr : fs.Resolved) (ha : fs.Attributed) :
    ∃ archive, fs.finish = .ok archive := by
  obtain ⟨tar, htar⟩ := exists_writeOut (l := fs.ordered) ∅
    (fun entry hentry target => hr entry.1 entry.2 target (mem_ordered.mp hentry))
    (fun entry hentry => ha entry.1 entry.2 (mem_ordered.mp hentry))
  exact ⟨_, Except.bind_eq_ok_iff.mpr ⟨tar, htar, rfl⟩⟩

end Finish

/-- **The filesystem of an image.** Over every sequence of layers that is accepted: the nodes are
a tree of names with a directory at its root and wherever a path goes through, no link is
unresolved, and what is written out is inside the root, with every directory before what is below
it and nothing but directories on the way. -/
theorem flattened_image {layers : List (List ArchiveEntry)} (h : new.flatten layers = .ok fs) :
    fs.Sound ∧ fs.Resolved ∧ (fs.Attributed → ∃ archive, fs.finish = .ok archive) ∧
      ∀ archive, fs.finish = .ok archive → WrittenInOrder archive.tar := by
  obtain ⟨hsound, hresolved⟩ := sound_new.flatten resolved_new h
  refine ⟨hsound, hresolved, hresolved.exists_finish, fun archive harchive => ?_⟩
  obtain ⟨tar, htar, heq⟩ := Except.bind_eq_ok_iff.mp harchive
  cases heq
  exact hsound.writtenInOrder htar

section Layers

def plainHeader : Header := ⟨0o751, 42, 43, 123⟩

def fileEntry (path : String) (data : List UInt8) : ArchiveEntry :=
  ⟨.utf8 path, .file, none, data, [], plainHeader⟩

def symlinkEntry (path target : String) : ArchiveEntry :=
  ⟨.utf8 path, .symlink, some (.utf8 target), [], [], plainHeader⟩

def hardLinkEntry (path target : String) : ArchiveEntry :=
  ⟨.utf8 path, .hardLink, some (.utf8 target), [], [], plainHeader⟩

/-- A file through a link out of the root, a link to what comes after it, and a whiteout. -/
def sampleLayers : List (List ArchiveEntry) :=
  [[symlinkEntry "alias" "/../../real", fileEntry "alias/file" [7],
      hardLinkEntry "copy" "real/late", fileEntry "real/late" [1, 2]],
    [fileEntry "alias/.wh.file" [], fileEntry "real/new" [3]]]

theorem flattened_sampleLayers : ∃ fs archive, new.flatten sampleLayers = .ok fs ∧ fs.Sound ∧
    fs.finish = .ok archive ∧ WrittenInOrder archive.tar ∧
    archive.tar.map (·.name) = [".", "real", "alias", "copy", "real/late", "real/new"] := by
  have hok : ((new.flatten sampleLayers).toOption.bind fun fs => fs.finish.toOption).map
      (fun archive => archive.tar.map (·.name)) =
        some [".", "real", "alias", "copy", "real/late", "real/new"] := by
    decide +kernel
  cases hflatten : new.flatten sampleLayers with
  | error message =>
    rw [hflatten] at hok
    cases hok
  | ok fs =>
    obtain ⟨hsound, -, -, hwritten⟩ := flattened_image hflatten
    cases hfinish : fs.finish with
    | error message =>
      rw [hflatten] at hok
      simp [Except.toOption, hfinish] at hok
    | ok archive =>
      rw [hflatten] at hok
      refine ⟨fs, archive, rfl, hsound, hfinish, hwritten archive hfinish, ?_⟩
      simpa [Except.toOption, hfinish] using hok

end Layers

end Filesystem

end Nibrunner

import Nibrunner.Oci.Archive

/-!
# Whiteouts that are left

A whiteout is told by the last component of an entry's own path. A directory that is only made
because something is below it, or because a link leads there, is not looked at: `a/.wh.x/b` leaves a
directory `a/.wh.x`.

* `Filesystem.putDowns`: where the entries of layers are put down, one after the other;
* `PutDown.Unmarked`: no marker is named on the way there, by the path or by a link it goes through;
* `Filesystem.no_whiteout_left`: layers whose entries are put down so leave no marker in any path.
-/

namespace Nibrunner

open Std PathText

/-- A component without a separator that is no marker. -/
structure Ordinary (c : String) : Prop where
  plain : '/' ∉ c.toList
  unmarked : startsWith whiteoutPrefix c = false

/-- An entry's path, and the filesystem it is to be put down in. -/
structure PutDown where
  fs : Filesystem
  path : String

/-- If the entry is no whiteout itself, then neither its path names one on the way, nor a link that
it is put down through. -/
def PutDown.Unmarked (put : PutDown) : Prop :=
  isWhiteout put.path = false →
    (∀ c ∈ split put.path, startsWith whiteoutPrefix c = false) ∧
      ∀ target ∈ put.fs.linksOn put.path false, ∀ c ∈ split target,
        startsWith whiteoutPrefix c = false

instance (put : PutDown) : Decidable put.Unmarked := inferInstanceAs (Decidable (_ → _ ∧ _))

namespace Filesystem

variable {fs fs' : Filesystem} {p : List String} {node : Node}

/-- Where the entries of a layer are put down. -/
def putDownEntries (fs : Filesystem) : List (String × Node) → List PutDown
  | [] => []
  | entry :: entries =>
    ⟨fs, entry.1⟩ :: (fs.applyEntry entry).toOption.elim [] fun fs => fs.putDownEntries entries

/-- Where the entries of layers are put down. -/
def putDowns (fs : Filesystem) : List (List ArchiveEntry) → List PutDown
  | [] => []
  | layer :: layers =>
    let entries := (readEntries fs.inodes [] layer).toOption.getD []
    let removals := (fs.removals entries).toOption.getD []
    let cleared := { fs with inodes := fs.inodes + entries.length }.removeAll removals
    cleared.putDownEntries entries ++
      (fs.apply layer).toOption.elim [] fun fs => fs.putDowns layers

theorem Named.names {cs : List String} (h : Named Ordinary cs) : Names cs := by
  intro c hc
  obtain ⟨hordinary, hempty, hdot, hdots⟩ := h c hc
  exact ⟨hordinary.plain, hempty, hdot, hdots⟩

/-- No path has a marker in it. -/
def Clean (fs : Filesystem) : Prop :=
  ∀ (key : String) (node : Node), fs.nodes[key]? = some node →
    ∃ cs, Named Ordinary cs ∧ key = join cs

theorem Clean.of_nodes_eq (hs : fs.Clean) (h : fs'.nodes = fs.nodes) : fs'.Clean :=
  fun key node hnode => hs key node (h ▸ hnode)

theorem Clean.remove (hs : fs.Clean) (path : String) (includeSelf : Bool) :
    (fs.remove path includeSelf).Clean :=
  fun key node hnode => hs key node (getElem?_of_remove hnode)

theorem Clean.removeAll (hs : fs.Clean) (removals : List (String × Bool)) :
    (fs.removeAll removals).Clean := by
  induction removals generalizing fs with
  | nil => exact hs
  | cons removal removals ih => exact ih (hs.remove removal.1 removal.2)

theorem Clean.insert (hs : fs.Clean) (hp : Named Ordinary p) (node : Node) :
    { fs with nodes := fs.nodes.insert (join p) node }.Clean := by
  intro key other hother
  rw [ExtTreeMap.getElem?_insert_ite] at hother
  split at hother
  · rename_i hkey
    exact ⟨p, hp, hkey.symm⟩
  · exact hs key other hother

/-- The parents of a path without markers have none. -/
theorem Clean.paved (hs : fs.Clean) (hp : Named Ordinary p)
    (hpaved : Paved fs fs' [] p.dropLast) : fs'.Clean := by
  intro key node hnode
  rcases hpaved.new key node hnode with hold | ⟨-, way, rest, -, hway, rfl⟩
  · exact hs key node hold
  · refine ⟨way, fun c hc => hp c (List.dropLast_subset _ ?_), rfl⟩
    exact hway ▸ List.mem_append_left _ hc

theorem Clean.place (hs : fs.Clean) (hp : Named Ordinary p)
    (h : fs.place (join p) node = .ok fs') : fs'.Clean := by
  obtain ⟨paved, hparents, hplaced⟩ := Except.bind_eq_ok_iff.mp h
  simp only at hplaced
  split at hplaced
  · cases hplaced
  · cases hplaced
    refine Clean.insert ?_ hp node
    refine Clean.paved ?_ hp (paved_parents hp.names hparents)
    split
    · exact hs
    · exact hs.remove _ _

/-- An entry that is put down without a marker on the way adds none. -/
theorem Clean.applyEntry (hs : fs.Clean) {entry : String × Node}
    (hput : PutDown.Unmarked ⟨fs, entry.1⟩) (h : fs.applyEntry entry = .ok fs') : fs'.Clean := by
  rw [Filesystem.applyEntry] at h
  split at h
  · cases h
    exact hs
  · rename_i hwhiteout
    rw [Bool.not_eq_true] at hwhiteout
    obtain ⟨hpath, hlinks⟩ := hput hwhiteout
    obtain ⟨name, hresolve, h⟩ := Except.bind_eq_ok_iff.mp h
    obtain ⟨p, hp, rfl⟩ := resolve_all (Q := Ordinary)
      (fun c hc => ⟨plain_of_mem_split hc, hpath c hc⟩)
      (fun target htarget c hc => ⟨plain_of_mem_split hc, hlinks target htarget c hc⟩) hresolve
    split at h
    · cases h
    · obtain ⟨⟨linkedFs, node⟩, hlinked, h⟩ := Except.bind_eq_ok_iff.mp h
      exact (hs.of_nodes_eq (linked_eq_ok hlinked).1).place hp h

theorem Clean.applyEntries (hs : fs.Clean) {entries : List (String × Node)}
    (hputs : ∀ put ∈ fs.putDownEntries entries, put.Unmarked)
    (h : fs.applyEntries entries = .ok fs') : fs'.Clean := by
  induction entries generalizing fs with
  | nil =>
    cases h
    exact hs
  | cons entry entries ih =>
    obtain ⟨middle, hmiddle, h⟩ := Except.bind_eq_ok_iff.mp h
    rw [putDownEntries, hmiddle] at hputs
    obtain ⟨hput, hputs⟩ := List.forall_mem_cons.mp hputs
    exact ih (hs.applyEntry hput hmiddle) hputs h

theorem Clean.resolveLinks (hs : fs.Clean) {rounds : ℕ} (h : fs.resolveLinks rounds = .ok fs') :
    fs'.Clean := by
  refine resolveLinks_invariant (fun {fs name target old node} hs hold _ _ => ?_) hs h
  obtain ⟨cs, hcs, rfl⟩ := hs name old hold
  exact hs.insert hcs node

theorem clean_new : new.Clean := by
  intro key node h
  rw [new, ExtTreeMap.getElem?_insert_ite] at h
  split at h
  · rename_i hkey
    exact ⟨[], fun _ hc => absurd hc List.not_mem_nil, hkey.symm⟩
  · simp at h

theorem Clean.flatten (hs : fs.Clean) {layers : List (List ArchiveEntry)}
    (hputs : ∀ put ∈ fs.putDowns layers, put.Unmarked) (h : fs.flatten layers = .ok fs') :
    fs'.Clean := by
  induction layers generalizing fs with
  | nil =>
    cases h
    exact hs
  | cons layer layers ih =>
    obtain ⟨middle, hmiddle, h⟩ := Except.bind_eq_ok_iff.mp h
    obtain ⟨entries, hentries, happly⟩ := Except.bind_eq_ok_iff.mp hmiddle
    obtain ⟨removals, hremovals, happly⟩ := Except.bind_eq_ok_iff.mp happly
    obtain ⟨placed, hplaced, hresolved⟩ := Except.bind_eq_ok_iff.mp happly
    rw [putDowns, hmiddle, hentries] at hputs
    dsimp only [Except.toOption, Option.getD_some] at hputs
    rw [hremovals] at hputs
    obtain ⟨hlayer, hlayers⟩ := List.forall_mem_append.mp hputs
    have hstart : { fs with inodes := fs.inodes + entries.length }.Clean := hs.of_nodes_eq rfl
    have hclean := ((hstart.removeAll removals).applyEntries hlayer hplaced).resolveLinks hresolved
    exact ih hclean hlayers h

/-- **No whiteout is left**, over every sequence of layers that is accepted and each of whose
entries that is no whiteout is put down with no marker on the way, neither in its path nor in what a
link it goes through leads to. -/
theorem no_whiteout_left {layers : List (List ArchiveEntry)}
    (hputs : ∀ put ∈ new.putDowns layers, put.Unmarked) (h : new.flatten layers = .ok fs)
    {key : String} (hkey : key ∈ fs.nodes) :
    ∀ c ∈ split key, startsWith whiteoutPrefix c = false := by
  have hclean := clean_new.flatten hputs h
  obtain ⟨node, hnode⟩ := Option.isSome_iff_exists.mp (ExtTreeMap.mem_iff_isSome_getElem?.mp hkey)
  obtain ⟨cs, hcs, rfl⟩ := hclean key node hnode
  intro c hc
  by_cases hnil : cs = []
  · subst hnil
    rw [List.mem_singleton.mp (hc : c ∈ [""])]
    decide
  · rw [split_join hnil hcs.names.plain] at hc
    exact (hcs c hc).1.unmarked

/-- A file, and a layer that takes it away again. A link to where that was marked is there, and one
that something is put down through. -/
def takenAway : List (List ArchiveEntry) :=
  [[fileEntry "dir/old" [1], symlinkEntry "alias" "dir"],
    [fileEntry "dir/.wh.old" [], symlinkEntry "aside" "dir/.wh.old", fileEntry "alias/new" [2]]]

theorem no_whiteout_left_in_takenAway : ∃ fs, new.flatten takenAway = .ok fs ∧
    "dir/new" ∈ fs.nodes ∧ ∀ c ∈ split "dir/new", startsWith whiteoutPrefix c = false := by
  have hok : (new.flatten takenAway).toOption.any
      (fun fs => fs.nodes.contains "dir/new") = true := by
    decide +kernel
  cases hflatten : new.flatten takenAway with
  | error message =>
    rw [hflatten] at hok
    cases hok
  | ok fs =>
    rw [hflatten] at hok
    have hmem : "dir/new" ∈ fs.nodes := ExtTreeMap.contains_iff_mem.mp hok
    exact ⟨fs, rfl, hmem, no_whiteout_left (by decide +kernel) hflatten hmem⟩

/-- The directory between is made, and is not looked at. -/
theorem whiteout_left_on_the_way : ∃ fs, new.flatten [[fileEntry "a/.wh.x/b" [7]]] = .ok fs ∧
    "a/.wh.x" ∈ fs.nodes ∧ ".wh.x" ∈ split "a/.wh.x" ∧
    startsWith whiteoutPrefix ".wh.x" = true := by
  have hok : (new.flatten [[fileEntry "a/.wh.x/b" [7]]]).toOption.any
      (fun fs => fs.nodes.contains "a/.wh.x") = true := by
    decide +kernel
  cases hflatten : new.flatten [[fileEntry "a/.wh.x/b" [7]]] with
  | error message =>
    rw [hflatten] at hok
    cases hok
  | ok fs =>
    rw [hflatten] at hok
    exact ⟨fs, rfl, ExtTreeMap.contains_iff_mem.mp hok, by decide +kernel, by decide +kernel⟩

end Filesystem

end Nibrunner

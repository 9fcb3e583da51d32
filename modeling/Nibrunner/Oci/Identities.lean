import Nibrunner.Oci.LinkRounds

/-!
# The identities of nodes

A node is given an identity when it is read, when it is made as a parent, and when it is kept as a
link; whether two paths are one file is told by it when an image is written out. Nothing else looks
at it: what is done to nodes is done to the same nodes under other identities, as long as those that
are still to be given stay what they are.

* `readEntries_eq_ok_iff`: a layer is read entry by entry, and numbered;
* `Filesystem.applyEntries_renumber`, `Filesystem.resolveLinks_renumber`: what is put down is put
  down under other identities;
* `Filesystem.fresh_of_flatten`: the next identity is above all there are.
-/

namespace Nibrunner

open Std PathText

/-! ### Reading -/

section Reading

variable {inode base : ℕ} {seen : List String} {entry : ArchiveEntry}
  {layer layer' : List ArchiveEntry} {entries reads reads' : List (String × Node)}

/-- What an entry is read as, but for its identity. -/
def readEntry (entry : ArchiveEntry) : Except String (String × Node) := do
  let name ← archivePath entry.path
  let attributes ← entryAttributes entry.extensions
  let kind ← entryKind name entry
  .ok (name, { header := entry.header, attributes, inode := 0, kind })

/-- The entries read, under identities of their own. -/
def numbered (inode : ℕ) : List (String × Node) → List (String × Node)
  | [] => []
  | (name, node) :: rest => (name, { node with inode }) :: numbered (inode + 1) rest

theorem readEntries_cons_eq_ok_iff : readEntries inode seen (entry :: layer) = .ok entries ↔
    seen.length < maxEntries ∧ ∃ read others, readEntry entry = .ok read ∧ read.1 ∉ seen ∧
      readEntries (inode + 1) (read.1 :: seen) layer = .ok others ∧
      entries = (read.1, { read.2 with inode }) :: others := by
  rw [readEntries]
  constructor
  · intro h
    split at h
    · cases h
    · rename_i hroom
      obtain ⟨name, hname, h⟩ := Except.bind_eq_ok_iff.mp h
      split at h
      · cases h
      · rename_i hseen
        rw [List.contains_iff_mem] at hseen
        obtain ⟨attributes, hattributes, h⟩ := Except.bind_eq_ok_iff.mp h
        obtain ⟨kind, hkind, h⟩ := Except.bind_eq_ok_iff.mp h
        obtain ⟨others, hothers, h⟩ := Except.bind_eq_ok_iff.mp h
        cases h
        let read := { header := entry.header, attributes, inode := 0, kind : Node }
        refine ⟨by omega, (name, read), others, ?_, hseen, hothers, rfl⟩
        refine Except.bind_eq_ok_iff.mpr ⟨name, hname, ?_⟩
        refine Except.bind_eq_ok_iff.mpr ⟨attributes, hattributes, ?_⟩
        exact Except.bind_eq_ok_iff.mpr ⟨kind, hkind, rfl⟩
  · rintro ⟨hroom, read, others, hread, hseen, hothers, rfl⟩
    obtain ⟨name, hname, hread⟩ := Except.bind_eq_ok_iff.mp hread
    obtain ⟨attributes, hattributes, hread⟩ := Except.bind_eq_ok_iff.mp hread
    obtain ⟨kind, hkind, hread⟩ := Except.bind_eq_ok_iff.mp hread
    cases hread
    rw [if_neg (by omega)]
    refine Except.bind_eq_ok_iff.mpr ⟨name, hname, ?_⟩
    rw [if_neg fun h => hseen (List.contains_iff_mem.mp h)]
    refine Except.bind_eq_ok_iff.mpr ⟨attributes, hattributes, ?_⟩
    refine Except.bind_eq_ok_iff.mpr ⟨kind, hkind, ?_⟩
    exact Except.bind_eq_ok_iff.mpr ⟨others, hothers, rfl⟩

/-- A layer is read where each of its entries is, no two have one path and they are not too many. -/
theorem readEntries_eq_ok_iff : readEntries inode seen layer = .ok entries ↔
    ∃ reads, layer.map readEntry = reads.map .ok ∧ (reads.map Prod.fst).Nodup ∧
      (∀ name ∈ reads.map Prod.fst, name ∉ seen) ∧
      (layer ≠ [] → seen.length + layer.length ≤ maxEntries) ∧ entries = numbered inode reads := by
  induction layer generalizing inode seen entries with
  | nil =>
    constructor
    · intro h
      cases h
      exact ⟨[], rfl, .nil, by simp, by simp, rfl⟩
    · rintro ⟨reads, hreads, -, -, -, rfl⟩
      obtain rfl := List.map_eq_nil_iff.mp hreads.symm
      rfl
  | cons entry layer ih =>
    rw [readEntries_cons_eq_ok_iff]
    constructor
    · rintro ⟨hroom, read, others, hread, hseen, hothers, rfl⟩
      obtain ⟨reads, hreads, hnodup, hnew, hcount, rfl⟩ := ih.mp hothers
      refine ⟨read :: reads, by rw [List.map_cons, List.map_cons, hread, hreads], ?_, ?_, ?_, rfl⟩
      · exact List.nodup_cons.mpr ⟨fun h => hnew _ h List.mem_cons_self, hnodup⟩
      · intro name hname
        rcases List.mem_cons.mp hname with rfl | hname
        · exact hseen
        · exact fun h => hnew name hname (List.mem_cons_of_mem _ h)
      · intro _
        cases layer with
        | nil =>
          simp only [List.length_cons, List.length_nil]
          omega
        | cons next layer =>
          have hcount := hcount (List.cons_ne_nil _ _)
          simp only [List.length_cons] at hcount ⊢
          omega
    · rintro ⟨reads, hreads, hnodup, hnew, hcount, rfl⟩
      cases reads with
      | nil => cases hreads
      | cons read reads =>
        have hcount := hcount (List.cons_ne_nil _ _)
        rw [List.length_cons] at hcount
        obtain ⟨hread, hreads⟩ := List.cons.inj hreads
        obtain ⟨hfirst, hnodup⟩ := List.nodup_cons.mp hnodup
        refine ⟨by omega, read, _, hread, hnew _ List.mem_cons_self, ih.mpr ?_, rfl⟩
        refine ⟨reads, hreads, hnodup, fun name hname h => ?_, fun _ => ?_, rfl⟩
        · rcases List.mem_cons.mp h with rfl | h
          · exact hfirst hname
          · exact hnew name (List.mem_cons_of_mem _ hname) h
        · rw [List.length_cons]
          omega

/-- What is read of an entry, under the identity its path is given. -/
def identified (identity : String → ℕ) (read : String × Node) : String × Node :=
  (read.1, { read.2 with inode := identity read.1 })

/-- The identity a path has where entries of such paths are numbered. -/
def numberOf (base : ℕ) (names : List String) (name : String) : ℕ := base + names.idxOf name

theorem numbered_eq_map {identity : String → ℕ}
    (h : ∀ n name, (reads.map Prod.fst)[n]? = some name → identity name = base + n) :
    numbered base reads = reads.map (identified identity) := by
  induction reads generalizing base with
  | nil => rfl
  | cons read reads ih =>
    obtain ⟨name, node⟩ := read
    have hfirst : identity name = base := h 0 name rfl
    rw [numbered, List.map_cons, identified, hfirst]
    refine congrArg _ (ih fun n other hother => ?_)
    rw [h (n + 1) other hother]
    omega

@[simp] theorem length_numbered (base : ℕ) (reads : List (String × Node)) :
    (numbered base reads).length = reads.length := by
  induction reads generalizing base with
  | nil => rfl
  | cons read reads ih => rw [numbered, List.length_cons, List.length_cons, ih]

theorem numbered_eq (hnodup : (reads.map Prod.fst).Nodup) :
    numbered base reads = reads.map (identified (numberOf base (reads.map Prod.fst))) := by
  refine numbered_eq_map fun n name hname => ?_
  obtain ⟨hn, rfl⟩ := List.getElem?_eq_some_iff.mp hname
  rw [numberOf, hnodup.idxOf_getElem]

end Reading

/-! ### Other identities -/

/-- The same node under another identity. -/
def Node.renumber (ρ : ℕ → ℕ) (node : Node) : Node := { node with inode := ρ node.inode }

@[simp] theorem Node.renumber_kind (ρ : ℕ → ℕ) (node : Node) :
    (node.renumber ρ).kind = node.kind := rfl

namespace Filesystem

/-- The same nodes under other identities. -/
def renumber (ρ : ℕ → ℕ) (fs : Filesystem) : Filesystem where
  nodes := fs.nodes.map fun _ node => node.renumber ρ
  inodes := fs.inodes

variable {ρ : ℕ → ℕ} {fs fs' : Filesystem} {node : Node}

@[simp] theorem renumber_inodes (ρ : ℕ → ℕ) (fs : Filesystem) :
    (fs.renumber ρ).inodes = fs.inodes := rfl

@[simp] theorem getElem?_renumber (ρ : ℕ → ℕ) (fs : Filesystem) (key : String) :
    (fs.renumber ρ).nodes[key]? = (fs.nodes[key]?).map (Node.renumber ρ) :=
  ExtTreeMap.getElem?_map

theorem ext_nodes (hinodes : fs.inodes = fs'.inodes)
    (h : ∀ key : String, fs.nodes[key]? = fs'.nodes[key]?) : fs = fs' := by
  obtain ⟨nodes, inodes⟩ := fs
  obtain ⟨nodes', inodes'⟩ := fs'
  obtain rfl : inodes = inodes' := hinodes
  obtain rfl : nodes = nodes' := ExtTreeMap.ext_getElem? h
  rfl

theorem renumber_renumber (σ ρ : ℕ → ℕ) (fs : Filesystem) :
    (fs.renumber ρ).renumber σ = fs.renumber (σ ∘ ρ) := by
  refine ext_nodes rfl fun key => ?_
  rw [getElem?_renumber, getElem?_renumber, getElem?_renumber, Option.map_map]
  rfl

@[simp] theorem renumber_id (fs : Filesystem) : fs.renumber id = fs := by
  refine ext_nodes rfl fun key => ?_
  rw [getElem?_renumber]
  exact Option.map_id'

theorem walk_renumber (ρ : ℕ → ℕ) (fs : Filesystem) (followFinal : Bool)
    (pending resolved : List String) :
    (fs.renumber ρ).walk followFinal pending resolved = fs.walk followFinal pending resolved := by
  have hkind : ∀ key : String, ((fs.renumber ρ).nodes[key]?).map Node.kind =
      (fs.nodes[key]?).map Node.kind := by
    intro key
    rw [getElem?_renumber, Option.map_map]
    rfl
  induction pending generalizing resolved with
  | nil => rfl
  | cons name pending ih => simp only [walk, hkind, ih]

theorem follow_renumber (ρ : ℕ → ℕ) (fs : Filesystem) (followFinal : Bool) (links : ℕ)
    (pending resolved : List String) :
    (fs.renumber ρ).follow followFinal links pending resolved =
      fs.follow followFinal links pending resolved := by
  induction links generalizing pending resolved with
  | zero =>
    rw [follow.eq_def, follow.eq_def]
    simp only [walk_renumber]
  | succ links ih =>
    rw [follow.eq_def, follow.eq_def]
    simp only [walk_renumber]
    cases fs.walk followFinal pending resolved with
    | done | nonDirectory => rfl
    | link target pending resolved =>
      cases target with
      | utf8 => exact ih _ _
      | notUtf8 => rfl

@[simp] theorem resolve_renumber (ρ : ℕ → ℕ) (fs : Filesystem) (path : String)
    (followFinal : Bool) :
    (fs.renumber ρ).resolve path followFinal = fs.resolve path followFinal := by
  rw [resolve, resolve, follow_renumber]

theorem insert_renumber (ρ : ℕ → ℕ) (fs : Filesystem) (key : String) (node : Node) (inodes : ℕ) :
    renumber ρ { nodes := fs.nodes.insert key node, inodes } =
      { nodes := (fs.renumber ρ).nodes.insert key (node.renumber ρ), inodes } := by
  refine ext_nodes rfl fun other => ?_
  rw [getElem?_renumber, ExtTreeMap.getElem?_insert_ite, ExtTreeMap.getElem?_insert_ite,
    getElem?_renumber]
  split <;> rfl

theorem remove_renumber (ρ : ℕ → ℕ) (fs : Filesystem) (path : String) (includeSelf : Bool) :
    (fs.remove path includeSelf).renumber ρ = (fs.renumber ρ).remove path includeSelf := by
  refine ext_nodes rfl fun key => ?_
  simp only [remove, getElem?_renumber, ExtTreeMap.getElem?_filter']
  cases fs.nodes[key]? with
  | none => rfl
  | some node =>
    simp only [Option.filter, Option.map_some]
    exact apply_ite _ _ _ _

theorem removeAll_inodes (fs : Filesystem) (removals : List (String × Bool)) :
    (fs.removeAll removals).inodes = fs.inodes := by
  induction removals generalizing fs with
  | nil => rfl
  | cons removal removals ih => exact ih (fs.remove removal.1 removal.2)

theorem removeAll_renumber (ρ : ℕ → ℕ) (fs : Filesystem) (removals : List (String × Bool)) :
    (fs.removeAll removals).renumber ρ = (fs.renumber ρ).removeAll removals := by
  induction removals generalizing fs with
  | nil => rfl
  | cons removal removals ih =>
    rw [removeAll, removeAll, List.foldl_cons, List.foldl_cons, ← remove_renumber]
    exact ih (fs.remove removal.1 removal.2)

/-! ### Putting down -/

/-- From an identity on, none is renamed. -/
def FixesFrom (ρ : ℕ → ℕ) (base : ℕ) : Prop := ∀ n, base ≤ n → ρ n = n

theorem parentsFrom_renumber {base : ℕ} (hρ : FixesFrom ρ base) (hbase : base ≤ fs.inodes)
    (parent : String) (components : List String) :
    (fs.renumber ρ).parentsFrom parent components =
      (fs.parentsFrom parent components).map (renumber ρ) ∧
    ∀ fs', fs.parentsFrom parent components = .ok fs' → base ≤ fs'.inodes := by
  induction components generalizing fs parent with
  | nil =>
    refine ⟨rfl, fun fs' h => ?_⟩
    cases h
    exact hbase
  | cons component components ih =>
    simp only [parentsFrom]
    generalize (if parent = "" then component else parent ++ "/" ++ component) = parent
    have hdir : ((fs.renumber ρ).nodes[parent]?).map (·.kind.isDirectory) =
        (fs.nodes[parent]?).map (·.kind.isDirectory) := by
      rw [getElem?_renumber, Option.map_map]
      rfl
    rw [hdir]
    cases (fs.nodes[parent]?).map (·.kind.isDirectory) with
    | none =>
      have hmade := insert_renumber ρ fs parent (directoryNode fs.inodes) (fs.inodes + 1)
      have hnode : (directoryNode fs.inodes).renumber ρ = directoryNode fs.inodes := by
        rw [Node.renumber, directoryNode, hρ _ hbase]
      rw [hnode] at hmade
      simp only [renumber_inodes, ← hmade]
      exact ih (Nat.le_succ_of_le hbase) parent
    | some isDirectory =>
      cases isDirectory with
      | true => exact ih hbase parent
      | false => exact ⟨rfl, fun fs' h => by cases h⟩

theorem linked_renumber {base : ℕ} (hρ : FixesFrom ρ base) (hbase : base ≤ fs.inodes)
    (node : Node) :
    (fs.renumber ρ).linked (node.renumber ρ) =
      (fs.linked node).map (Prod.map (renumber ρ) (Node.renumber ρ)) ∧
    ∀ fs' node', fs.linked node = .ok (fs', node') → base ≤ fs'.inodes := by
  rw [linked, linked, Node.renumber_kind]
  cases hkind : node.kind with
  | directory | file | symlink =>
    refine ⟨rfl, fun fs' node' h => ?_⟩
    cases h
    exact hbase
  | hardlink target =>
    dsimp only
    rw [resolve_renumber]
    cases fs.resolve target false with
    | error message => exact ⟨rfl, fun fs' node' h => by cases h⟩
    | ok goal =>
      simp only [bind, Except.bind, getElem?_renumber]
      cases fs.nodes[goal]? with
      | some existing =>
        simp only [Option.map_some]
        by_cases hdirectory : existing.kind = .directory
        · have hdirectory' : (existing.renumber ρ).kind = .directory := hdirectory
          rw [if_pos hdirectory, if_pos hdirectory']
          exact ⟨rfl, fun fs' node' h => by cases h⟩
        · have hdirectory' : (existing.renumber ρ).kind ≠ .directory := hdirectory
          rw [if_neg hdirectory, if_neg hdirectory']
          refine ⟨rfl, fun fs' node' h => ?_⟩
          cases h
          exact hbase
      | none =>
        refine ⟨?_, fun fs' node' h => ?_⟩
        · -- the node that is kept is given an identity of its own
          have hfresh := hρ _ hbase
          simp only [Option.map_none, Except.map, Prod.map, renumber, Node.renumber, hfresh]
        · cases h
          exact Nat.le_succ_of_le hbase

theorem place_renumber {base : ℕ} (hρ : FixesFrom ρ base) (hbase : base ≤ fs.inodes)
    (name : String) (node : Node) :
    (fs.renumber ρ).place name (node.renumber ρ) = (fs.place name node).map (renumber ρ) ∧
    ∀ fs', fs.place name node = .ok fs' → base ≤ fs'.inodes := by
  have hmerging : ((fs.renumber ρ).nodes[name]?).any (fun old => old.kind.isDirectory) =
      (fs.nodes[name]?).any fun old => old.kind.isDirectory := by
    rw [getElem?_renumber]
    cases fs.nodes[name]? <;> rfl
  rw [place, place, Node.renumber_kind, hmerging]
  generalize (node.kind.isDirectory && _) = mergingDirectories
  dsimp only
  have hcleared : (if mergingDirectories then fs.renumber ρ else (fs.renumber ρ).remove name true) =
      (if mergingDirectories then fs else fs.remove name true).renumber ρ := by
    rw [← remove_renumber]
    exact (apply_ite _ _ _ _).symm
  have hbase' : base ≤ (if mergingDirectories then fs else fs.remove name true).inodes := by
    split
    · exact hbase
    · exact hbase
  rw [hcleared]
  generalize (if mergingDirectories then fs else fs.remove name true) = cleared at hbase'
  obtain ⟨hparents, hmono⟩ := parentsFrom_renumber hρ hbase' "" (split name).dropLast
  rw [parents, parents, hparents]
  cases hpaved : cleared.parentsFrom "" (split name).dropLast with
  | error message => exact ⟨rfl, fun fs' h => by cases h⟩
  | ok paved =>
    have hsize : ((paved.renumber ρ).nodes.insert name (node.renumber ρ)).size =
        (paved.nodes.insert name node).size := by
      have h := insert_renumber ρ paved name node paved.inodes
      have hnodes : ((paved.nodes.insert name node).map fun _ node => node.renumber ρ) =
          (paved.renumber ρ).nodes.insert name (node.renumber ρ) := congrArg nodes h
      rw [← hnodes, ExtTreeMap.size_map]
    simp only [bind, Except.bind, Except.map, hsize, renumber_inodes]
    split
    · exact ⟨rfl, fun fs' h => by cases h⟩
    · refine ⟨congrArg Except.ok (insert_renumber ρ paved name node paved.inodes).symm,
        fun fs' h => ?_⟩
      cases h
      exact hmono paved hpaved

theorem applyEntry_renumber {base : ℕ} (hρ : FixesFrom ρ base) (hbase : base ≤ fs.inodes)
    (entry : String × Node) :
    (fs.renumber ρ).applyEntry (entry.1, entry.2.renumber ρ) =
      (fs.applyEntry entry).map (renumber ρ) ∧
    ∀ fs', fs.applyEntry entry = .ok fs' → base ≤ fs'.inodes := by
  rw [applyEntry, applyEntry]
  dsimp only
  by_cases hmark : isWhiteout entry.1 = true
  · simp only [if_pos hmark]
    refine ⟨rfl, fun fs' h => ?_⟩
    cases h
    exact hbase
  · simp only [if_neg hmark]
    rw [resolve_renumber]
    cases fs.resolve entry.1 false with
    | error message => exact ⟨rfl, fun fs' h => by cases h⟩
    | ok name =>
      simp only [bind, Except.bind]
      by_cases hroot : (name = "" && !entry.2.kind.isDirectory) = true
      · have hroot' : (name = "" && !(entry.2.renumber ρ).kind.isDirectory) = true := hroot
        rw [if_pos hroot, if_pos hroot']
        exact ⟨rfl, fun fs' h => by cases h⟩
      · obtain ⟨hlinked, hmono⟩ := linked_renumber hρ hbase entry.2
        have hroot' : ¬(name = "" && !(entry.2.renumber ρ).kind.isDirectory) = true := hroot
        rw [if_neg hroot, if_neg hroot', hlinked]
        cases hlink : fs.linked entry.2 with
        | error message => exact ⟨rfl, fun fs' h => by cases h⟩
        | ok linked => exact place_renumber hρ (hmono linked.1 linked.2 hlink) name linked.2

theorem applyEntries_renumber {base : ℕ} (hρ : FixesFrom ρ base) (hbase : base ≤ fs.inodes)
    (entries : List (String × Node)) :
    (fs.renumber ρ).applyEntries (entries.map fun entry => (entry.1, entry.2.renumber ρ)) =
      (fs.applyEntries entries).map (renumber ρ) := by
  induction entries generalizing fs with
  | nil => rfl
  | cons entry entries ih =>
    obtain ⟨hentry, hmono⟩ := applyEntry_renumber hρ hbase entry
    rw [List.map_cons, applyEntries, applyEntries, hentry]
    cases hnext : fs.applyEntry entry with
    | error message => rfl
    | ok next => exact ih (hmono next hnext)

/-! ### Links -/

theorem pendingLinks_renumber (ρ : ℕ → ℕ) (fs : Filesystem) :
    (fs.renumber ρ).pendingLinks = fs.pendingLinks := by
  rw [pendingLinks, pendingLinks, renumber, ExtTreeMap.toList_map, List.filterMap_map]
  rfl

theorem patchLinks_renumber (ρ : ℕ → ℕ) (fs : Filesystem) (pending : List (String × String))
    (patched : Bool) :
    (fs.renumber ρ).patchLinks pending patched =
      (fs.patchLinks pending patched).map (Prod.map (renumber ρ) id) := by
  induction pending generalizing fs patched with
  | nil => rfl
  | cons link pending ih =>
    rw [patchLinks, patchLinks, getElem?_renumber]
    cases fs.nodes[link.2]? with
    | none => exact ih fs patched
    | some node =>
      simp only [Option.map_some, Node.renumber_kind]
      split
      · exact ih fs patched
      · rfl
      · have h := ih { fs with nodes := fs.nodes.insert link.1 node } true
        rwa [insert_renumber] at h

theorem resolveLinks_renumber (ρ : ℕ → ℕ) (fs : Filesystem) (rounds : ℕ) :
    (fs.renumber ρ).resolveLinks rounds = (fs.resolveLinks rounds).map (renumber ρ) := by
  induction rounds generalizing fs with
  | zero => rfl
  | succ rounds ih =>
    rw [resolveLinks, resolveLinks, pendingLinks_renumber]
    split
    · rfl
    · rw [patchLinks_renumber]
      cases fs.patchLinks fs.pendingLinks false with
      | error message => rfl
      | ok result =>
        obtain ⟨next, patched⟩ := result
        simp only [bind, Except.bind, Except.map, Prod.map, id]
        split
        · exact ih next
        · rfl

/-! ### Identities that are given -/

/-- The next identity is above all there are. -/
def Fresh (fs : Filesystem) : Prop :=
  ∀ (key : String) (node : Node), fs.nodes[key]? = some node → node.inode < fs.inodes

variable {layer : List ArchiveEntry}

theorem inode_of_mem_numbered {base : ℕ} {reads : List (String × Node)} {entry : String × Node}
    (hentry : entry ∈ numbered base reads) : entry.2.inode < base + reads.length := by
  induction reads generalizing base with
  | nil => cases hentry
  | cons read reads ih =>
    obtain ⟨name, node⟩ := read
    rw [List.length_cons]
    rcases List.mem_cons.mp hentry with rfl | hentry
    · show base < _
      omega
    · have hless := ih hentry
      omega

theorem Fresh.of_nodes (hf : fs.Fresh) {fs' : Filesystem} (hinodes : fs.inodes ≤ fs'.inodes)
    (h : ∀ (key : String) (node : Node), fs'.nodes[key]? = some node →
      fs.nodes[key]? = some node ∨ node.inode < fs'.inodes) : fs'.Fresh := by
  intro key node hnode
  rcases h key node hnode with hold | hnew
  · exact Nat.lt_of_lt_of_le (hf key node hold) hinodes
  · exact hnew

theorem Fresh.insert (hf : fs.Fresh) {key : String} {node : Node} {inodes : ℕ}
    (hinodes : fs.inodes ≤ inodes) (hnode : node.inode < inodes) :
    Fresh { nodes := fs.nodes.insert key node, inodes } := by
  refine hf.of_nodes hinodes fun other there hthere => ?_
  rw [ExtTreeMap.getElem?_insert_ite] at hthere
  split at hthere
  · cases hthere
    exact .inr hnode
  · exact .inl hthere

theorem Fresh.remove (hf : fs.Fresh) (path : String) (includeSelf : Bool) :
    (fs.remove path includeSelf).Fresh :=
  hf.of_nodes (Nat.le_refl _) fun _ _ hnode => .inl (getElem?_of_remove hnode)

theorem Fresh.removeAll (hf : fs.Fresh) (removals : List (String × Bool)) :
    (fs.removeAll removals).Fresh := by
  induction removals generalizing fs with
  | nil => exact hf
  | cons removal removals ih => exact ih (hf.remove removal.1 removal.2)

theorem Fresh.parentsFrom (hf : fs.Fresh) {fs' : Filesystem} {parent : String}
    {components : List String} (h : fs.parentsFrom parent components = .ok fs') :
    fs'.Fresh ∧ fs.inodes ≤ fs'.inodes := by
  induction components generalizing fs parent with
  | nil =>
    cases h
    exact ⟨hf, Nat.le_refl _⟩
  | cons component components ih =>
    simp only [Filesystem.parentsFrom] at h
    split at h
    · cases h
    · exact ih hf h
    · obtain ⟨hfresh, hle⟩ := ih (hf.insert (Nat.le_succ _) (Nat.lt_succ_self _)) h
      exact ⟨hfresh, Nat.le_trans (Nat.le_succ _) hle⟩

theorem Fresh.place (hf : fs.Fresh) {fs' : Filesystem} {name : String} {node : Node}
    (hnode : node.inode < fs.inodes) (h : fs.place name node = .ok fs') :
    fs'.Fresh ∧ fs.inodes ≤ fs'.inodes := by
  obtain ⟨paved, hparents, hplaced⟩ := Except.bind_eq_ok_iff.mp h
  dsimp only at hplaced
  split at hplaced
  · cases hplaced
  · cases hplaced
    obtain ⟨hpaved, hle⟩ : paved.Fresh ∧ fs.inodes ≤ paved.inodes := by
      split at hparents
      · exact hf.parentsFrom hparents
      · exact (hf.remove name true).parentsFrom hparents
    exact ⟨hpaved.insert (Nat.le_refl _) (Nat.lt_of_lt_of_le hnode hle), hle⟩

theorem Fresh.applyEntry (hf : fs.Fresh) {fs' : Filesystem} {entry : String × Node}
    (hentry : entry.2.inode < fs.inodes) (h : fs.applyEntry entry = .ok fs') :
    fs'.Fresh ∧ fs.inodes ≤ fs'.inodes := by
  rw [Filesystem.applyEntry] at h
  split at h
  · cases h
    exact ⟨hf, Nat.le_refl _⟩
  · obtain ⟨name, -, h⟩ := Except.bind_eq_ok_iff.mp h
    split at h
    · cases h
    · obtain ⟨⟨linkedFs, node⟩, hlinked, h⟩ := Except.bind_eq_ok_iff.mp h
      have hlink : linkedFs.Fresh ∧ fs.inodes ≤ linkedFs.inodes ∧ node.inode < linkedFs.inodes := by
        rw [linked] at hlinked
        split at hlinked
        · obtain ⟨goal, -, hlinked⟩ := Except.bind_eq_ok_iff.mp hlinked
          split at hlinked
          · rename_i existing hexisting
            split at hlinked
            · cases hlinked
            · cases hlinked
              exact ⟨hf, Nat.le_refl _, hf goal _ hexisting⟩
          · cases hlinked
            exact ⟨hf.of_nodes (Nat.le_succ _) fun _ _ hnode => .inl hnode, Nat.le_succ _,
              Nat.lt_succ_self _⟩
        · cases hlinked
          exact ⟨hf, Nat.le_refl _, hentry⟩
      obtain ⟨hlinkedFresh, hle, hnode⟩ := hlink
      obtain ⟨hfresh, hle'⟩ := hlinkedFresh.place hnode h
      exact ⟨hfresh, Nat.le_trans hle hle'⟩

theorem Fresh.applyEntries (hf : fs.Fresh) {fs' : Filesystem} {entries : List (String × Node)}
    (hentries : ∀ entry ∈ entries, entry.2.inode < fs.inodes)
    (h : fs.applyEntries entries = .ok fs') : fs'.Fresh := by
  induction entries generalizing fs with
  | nil =>
    cases h
    exact hf
  | cons entry entries ih =>
    obtain ⟨next, hnext, h⟩ := Except.bind_eq_ok_iff.mp h
    obtain ⟨hfresh, hle⟩ := hf.applyEntry (hentries entry List.mem_cons_self) hnext
    exact ih hfresh (fun other hother => Nat.lt_of_lt_of_le
      (hentries other (List.mem_cons_of_mem _ hother)) hle) h

theorem Fresh.resolveLinks (hf : fs.Fresh) {fs' : Filesystem} {rounds : ℕ}
    (h : fs.resolveLinks rounds = .ok fs') : fs'.Fresh :=
  resolveLinks_invariant (fun hf _ _ hnode => hf.insert (Nat.le_refl _) (hf _ _ hnode)) hf h

theorem Fresh.apply (hf : fs.Fresh) {fs' : Filesystem} (h : fs.apply layer = .ok fs') :
    fs'.Fresh := by
  obtain ⟨entries, hentries, h⟩ := Except.bind_eq_ok_iff.mp h
  obtain ⟨removals, -, h⟩ := Except.bind_eq_ok_iff.mp h
  obtain ⟨placed, hplaced, h⟩ := Except.bind_eq_ok_iff.mp h
  have hstart : Fresh { fs with inodes := fs.inodes + entries.length } :=
    hf.of_nodes (Nat.le_add_right _ _) fun _ _ hnode => .inl hnode
  refine ((hstart.removeAll removals).applyEntries (fun entry hentry => ?_) hplaced).resolveLinks h
  obtain ⟨reads, -, -, -, -, rfl⟩ := readEntries_eq_ok_iff.mp hentries
  rw [removeAll_inodes, length_numbered]
  exact inode_of_mem_numbered hentry

/-- Whatever layers come to is fresh. -/
theorem fresh_of_flatten {layers : List (List ArchiveEntry)} (h : new.flatten layers = .ok fs) :
    fs.Fresh := by
  have hnew : new.Fresh := by
    have hempty : Fresh ⟨∅, 0⟩ := by
      intro key node h
      rw [ExtTreeMap.getElem?_empty] at h
      cases h
    exact hempty.insert (by decide) (by decide)
  have hflatten : ∀ (layers : List (List ArchiveEntry)) (start : Filesystem), start.Fresh →
      start.flatten layers = .ok fs → fs.Fresh := by
    intro layers
    induction layers with
    | nil =>
      intro start hstart h
      cases h
      exact hstart
    | cons layer layers ih =>
      intro start hstart h
      obtain ⟨next, hnext, h⟩ := Except.bind_eq_ok_iff.mp h
      exact ih next (hstart.apply hnext) h
  exact hflatten layers new hnew h

end Filesystem

end Nibrunner

import Nibrunner.Oci.HardLinks
import Nibrunner.Oci.Identities

/-!
# The order of whiteouts

The whiteouts of a layer are resolved in what there was before it, all of them before any takes
something away, and what they take away is gone before an entry is put down. So it makes no
difference where they stand in the layer, but for the numbers that tell the entries apart.

* `MovesWhiteouts`: a layer whose whiteouts stand elsewhere;
* `Filesystem.exists_apply_of_moves`: it comes to the same nodes under other identities;
* `Filesystem.exists_entry_of_apply`: what was taken away is there again only by an entry.
-/

namespace Nibrunner

open Std PathText

section Moves

variable {layer layer' : List ArchiveEntry} {reads : List (String × Node)}

/-- Whether the last component of an entry's path is that of a whiteout. -/
def ArchiveEntry.namesWhiteout (entry : ArchiveEntry) : Bool :=
  (archivePath entry.path).toOption.any isWhiteout

theorem filter_map_reads (hreads : layer.map readEntry = reads.map .ok) :
    (layer.filter fun entry => !entry.namesWhiteout).map readEntry =
      (reads.filter fun read => !isWhiteout read.1).map .ok := by
  induction layer generalizing reads with
  | nil =>
    obtain rfl := List.map_eq_nil_iff.mp hreads.symm
    rfl
  | cons entry layer ih =>
    cases reads with
    | nil => cases hreads
    | cons read reads =>
      obtain ⟨hread, hreads⟩ := List.cons.inj hreads
      have hmark : entry.namesWhiteout = isWhiteout read.1 := by
        obtain ⟨name, hname, hrest⟩ := Except.bind_eq_ok_iff.mp hread
        obtain ⟨attributes, -, hrest⟩ := Except.bind_eq_ok_iff.mp hrest
        obtain ⟨kind, -, hrest⟩ := Except.bind_eq_ok_iff.mp hrest
        cases hrest
        rw [ArchiveEntry.namesWhiteout, hname]
        rfl
      rw [List.filter_cons, List.filter_cons, hmark]
      split
      · rw [List.map_cons, List.map_cons, hread, ih hreads]
      · exact ih hreads

/-- A layer whose whiteouts stand elsewhere among its entries. -/
structure MovesWhiteouts (layer layer' : List ArchiveEntry) : Prop where
  perm : layer.Perm layer'
  others : layer.filter (fun entry => !entry.namesWhiteout) =
    layer'.filter fun entry => !entry.namesWhiteout

theorem MovesWhiteouts.symm (h : MovesWhiteouts layer layer') : MovesWhiteouts layer' layer :=
  ⟨h.perm.symm, h.others.symm⟩

/-- What is read of it are the same entries, and those that are no whiteouts in the same order. -/
theorem MovesWhiteouts.exists_reads (h : MovesWhiteouts layer layer')
    (hreads : layer.map readEntry = reads.map .ok) :
    ∃ reads', layer'.map readEntry = reads'.map .ok ∧ reads.Perm reads' ∧
      (reads.filter fun read => !isWhiteout read.1) =
        reads'.filter fun read => !isWhiteout read.1 := by
  obtain ⟨reads', hreads', hperm⟩ := Except.exists_map_eq_of_perm h.perm hreads
  refine ⟨reads', hreads', hperm, ?_⟩
  have hfilter := filter_map_reads hreads
  rw [h.others, filter_map_reads hreads'] at hfilter
  exact (List.map_injective_iff.mpr (fun _ _ h => Except.ok.inj h) hfilter).symm

end Moves

namespace Filesystem

variable {fs : Filesystem} {entries entries' : List (String × Node)}
  {removals removals' : List (String × Bool)}

/-! ### Taking away -/

theorem removals_identified (fs : Filesystem) (identity : String → ℕ)
    (reads : List (String × Node)) :
    fs.removals (reads.map (identified identity)) = fs.removals reads := by
  have hwhiteout : ∀ read : String × Node,
      fs.whiteout (identified identity read).1 (identified identity read).2 =
        fs.whiteout read.1 read.2 := fun _ => rfl
  induction reads with
  | nil => rfl
  | cons read reads ih =>
    rw [List.map_cons, removals, removals, ih, hwhiteout]
    rfl

theorem removals_eq_ok_iff : fs.removals entries = .ok removals ↔
    (entries.filter fun entry => isWhiteout entry.1).map (fun entry =>
      fs.whiteout entry.1 entry.2) = removals.map .ok := by
  induction entries generalizing removals with
  | nil =>
    constructor
    · intro h
      cases h
      rfl
    · intro h
      obtain rfl := List.map_eq_nil_iff.mp h.symm
      rfl
  | cons entry entries ih =>
    rw [Filesystem.removals, List.filter_cons]
    split
    · rw [Except.bind_eq_ok_iff, List.map_cons]
      constructor
      · rintro ⟨removal, hremoval, h⟩
        obtain ⟨others, hothers, h⟩ := Except.bind_eq_ok_iff.mp h
        cases h
        rw [hremoval, ih.mp hothers, List.map_cons]
      · intro h
        cases removals with
        | nil => cases h
        | cons removal removals =>
          obtain ⟨hremoval, hothers⟩ := List.cons.inj h
          exact ⟨removal, hremoval, Except.bind_eq_ok_iff.mpr ⟨removals, ih.mpr hothers, rfl⟩⟩
    · exact ih

/-- Whiteouts name the same whatever their order is. -/
theorem removals_perm (hperm : entries.Perm entries') (h : fs.removals entries = .ok removals) :
    ∃ removals', fs.removals entries' = .ok removals' ∧ removals.Perm removals' := by
  obtain ⟨removals', hremovals', hperm'⟩ :=
    Except.exists_map_eq_of_perm (hperm.filter _) (removals_eq_ok_iff.mp h)
  exact ⟨removals', removals_eq_ok_iff.mpr hremovals', hperm'⟩

theorem remove_comm (fs : Filesystem) (p q : String) (b c : Bool) :
    (fs.remove p b).remove q c = (fs.remove q c).remove p b := by
  refine ext_nodes rfl fun key => ?_
  simp only [remove, ExtTreeMap.getElem?_filter', Option.filter_filter]
  congr 1
  funext node
  rw [Bool.and_comm]

theorem removeAll_perm (hperm : removals.Perm removals') :
    fs.removeAll removals = fs.removeAll removals' :=
  hperm.foldl_eq' (fun _ _ _ _ fs => remove_comm fs _ _ _ _) fs

theorem applyEntries_filter (fs : Filesystem) (entries : List (String × Node)) :
    fs.applyEntries entries =
      fs.applyEntries (entries.filter fun entry => !isWhiteout entry.1) := by
  induction entries generalizing fs with
  | nil => rfl
  | cons entry entries ih =>
    rw [List.filter_cons]
    split
    · simp only [applyEntries, ih]
    · rename_i hmark
      have hskip : fs.applyEntry entry = .ok fs := by
        rw [applyEntry, if_pos (by simpa using hmark)]
      rw [applyEntries, hskip]
      exact ih fs

/-! ### Moving whiteouts -/

variable {layer layer' : List ArchiveEntry} {a : Filesystem}

/-- Two readings of the same entries that are no whiteouts put down the same, but for identities:
they are the same under two namings that name what is read, and what there was, the same. -/
theorem exists_putDown_of_reads {base : ℕ} {cleared placed : Filesystem}
    {reads reads' : List (String × Node)} {identity identity' : String → ℕ} {ρ ρ' : ℕ → ℕ}
    (hρ : FixesFrom ρ base) (hρ' : FixesFrom ρ' base) (hbase : base ≤ cleared.inodes)
    (hcleared : cleared.renumber ρ = cleared.renumber ρ')
    (hothers : (reads.filter fun read => !isWhiteout read.1) =
      reads'.filter fun read => !isWhiteout read.1)
    (hidentity : ∀ read ∈ reads, ρ (identity read.1) = ρ' (identity' read.1))
    (hplaced : cleared.applyEntries (reads.map (identified identity)) = .ok placed) :
    ∃ placed', cleared.applyEntries (reads'.map (identified identity')) = .ok placed' ∧
      placed.renumber ρ = placed'.renumber ρ' := by
  have hfilter : ∀ (reads : List (String × Node)) (identity : String → ℕ),
      (reads.map (identified identity)).filter (fun entry => !isWhiteout entry.1) =
        (reads.filter fun read => !isWhiteout read.1).map (identified identity) :=
    fun reads identity => List.filter_map
  rw [applyEntries_filter, hfilter] at hplaced ⊢
  rw [← hothers]
  have hrenumber := applyEntries_renumber hρ hbase
    ((reads.filter fun read => !isWhiteout read.1).map (identified identity))
  have hrenumber' := applyEntries_renumber hρ' hbase
    ((reads.filter fun read => !isWhiteout read.1).map (identified identity'))
  have hsame : ∀ read ∈ reads.filter fun read => !isWhiteout read.1,
      ((fun entry : String × Node => (entry.1, entry.2.renumber ρ)) ∘ identified identity) read =
        ((fun entry : String × Node => (entry.1, entry.2.renumber ρ')) ∘ identified identity')
          read := by
    intro read hread
    have h := hidentity read (List.mem_of_mem_filter hread)
    simp only [Function.comp_apply, identified, Node.renumber, h]
  rw [hplaced, hcleared, List.map_map] at hrenumber
  rw [List.map_map, ← List.map_congr_left hsame] at hrenumber'
  exact Except.map_eq_ok_iff.mp (hrenumber'.symm.trans hrenumber) |>.imp fun _ h => ⟨h.1, h.2.symm⟩

/-- What a layer comes to does not depend on where its whiteouts stand, but for the identities: they
are the same under two namings that name what is read, and what there was, the same. -/
theorem exists_apply_of_moves (h : MovesWhiteouts layer layer') (ha : fs.apply layer = .ok a) :
    ∃ names names' : List String, names.Nodup ∧ names.Perm names' ∧ names.length = layer.length ∧
      ∀ ρ ρ' : ℕ → ℕ, FixesFrom ρ (fs.inodes + layer.length) →
        FixesFrom ρ' (fs.inodes + layer.length) → fs.renumber ρ = fs.renumber ρ' →
        (∀ name ∈ names, ρ (numberOf fs.inodes names name) =
          ρ' (numberOf fs.inodes names' name)) →
        ∃ b, fs.apply layer' = .ok b ∧ a.renumber ρ = b.renumber ρ' := by
  obtain ⟨entries, hentries, ha⟩ := Except.bind_eq_ok_iff.mp ha
  obtain ⟨removals, hremovals, ha⟩ := Except.bind_eq_ok_iff.mp ha
  obtain ⟨placed, hplaced, hresolved⟩ := Except.bind_eq_ok_iff.mp ha
  obtain ⟨reads, hreads, hnodup, -, hcount, rfl⟩ := readEntries_eq_ok_iff.mp hentries
  obtain ⟨reads', hreads', hperm, hothers⟩ := h.exists_reads hreads
  have hpaths := hperm.map Prod.fst
  have hnodup' := hpaths.nodup_iff.mp hnodup
  have hlength : reads.length = layer.length := by
    rw [← List.length_map (f := (Except.ok : _ → Except String _)), ← hreads, List.length_map]
  refine ⟨reads.map Prod.fst, reads'.map Prod.fst, hnodup, hpaths, by rw [List.length_map, hlength],
    fun ρ ρ' hρ hρ' hfs hnames => ?_⟩
  -- the whiteouts are read, and resolved in what there was
  have hentries' : readEntries fs.inodes [] layer' = .ok (numbered fs.inodes reads') := by
    refine readEntries_eq_ok_iff.mpr ⟨reads', hreads', hnodup', by simp, fun hne => ?_, rfl⟩
    rw [← h.perm.length_eq]
    exact hcount fun hnil => hne (List.Perm.nil_eq (hnil ▸ h.perm)).symm
  rw [numbered_eq hnodup] at hremovals hplaced
  rw [removals_identified] at hremovals
  obtain ⟨removals', hremovals', hremoved⟩ := removals_perm hperm hremovals
  -- the same is taken away, and the same put down
  rw [removeAll_perm hremoved, List.length_map, hperm.length_eq] at hplaced
  have hcleared : ({ fs with inodes := fs.inodes + reads'.length }.removeAll removals').renumber ρ =
      ({ fs with inodes := fs.inodes + reads'.length }.removeAll removals').renumber ρ' := by
    rw [removeAll_renumber, removeAll_renumber]
    refine congrArg (removeAll · removals') (ext_nodes rfl fun key => ?_)
    show (fs.renumber ρ).nodes[key]? = (fs.renumber ρ').nodes[key]?
    rw [hfs]
  have hbase : fs.inodes + layer.length ≤
      ({ fs with inodes := fs.inodes + reads'.length }.removeAll removals').inodes := by
    rw [removeAll_inodes, ← hperm.length_eq, hlength]
  obtain ⟨placed', hplaced', hsame⟩ := exists_putDown_of_reads hρ hρ' hbase hcleared hothers
    (fun read hread => hnames _ (List.mem_map_of_mem hread)) hplaced
  have hlinks := resolveLinks_renumber ρ placed 40
  rw [hresolved, hsame, resolveLinks_renumber] at hlinks
  obtain ⟨b, hb, heq⟩ := Except.map_eq_ok_iff.mp hlinks
  refine ⟨b, ?_, heq.symm⟩
  refine Except.bind_eq_ok_iff.mpr ⟨_, hentries', ?_⟩
  rw [numbered_eq hnodup', List.length_map]
  refine Except.bind_eq_ok_iff.mpr ⟨removals', (removals_identified _ _ _).trans hremovals', ?_⟩
  exact Except.bind_eq_ok_iff.mpr ⟨placed', hplaced', hb⟩

/-- The nodes are the same, but for their identities. -/
theorem exists_apply_anonymous (h : MovesWhiteouts layer layer') (ha : fs.apply layer = .ok a) :
    ∃ b, fs.apply layer' = .ok b ∧ a.renumber (fun _ => 0) = b.renumber fun _ => 0 := by
  obtain ⟨names, names', hnodup, hperm, hlength, hall⟩ := exists_apply_of_moves h ha
  -- all identities from before the links are one
  let ρ (n : ℕ) : ℕ := if n < fs.inodes + layer.length then 0 else n
  have hρ : FixesFrom ρ (fs.inodes + layer.length) := fun n hn => if_neg (Nat.not_lt.mpr hn)
  have hnumber : ∀ names : List String, names.length = layer.length → ∀ name ∈ names,
      ρ (numberOf fs.inodes names name) = 0 := by
    intro names hlength name hname
    have hindex := List.idxOf_lt_length_iff.mpr hname
    refine if_pos ?_
    rw [numberOf]
    omega
  obtain ⟨b, hb, heq⟩ := hall ρ ρ hρ hρ rfl fun name hname => by
    rw [hnumber names hlength name hname,
      hnumber names' (hperm.length_eq ▸ hlength) name (hperm.mem_iff.mp hname)]
  refine ⟨b, hb, ?_⟩
  have h := congrArg (renumber fun _ => 0) heq
  rwa [renumber_renumber, renumber_renumber] at h

/-! ### Which identities they are -/

/-- The number that a path has in another order, for the number it has in one. -/
def renumbering (base : ℕ) (names names' : List String) (n : ℕ) : ℕ :=
  if n < base then n
  else
    match names[n - base]? with
    | some name => numberOf base names' name
    | none => n

theorem renumbering_renumbering {base : ℕ} {names names' : List String} (hnodup : names.Nodup)
    (hperm : names.Perm names') (n : ℕ) :
    renumbering base names' names (renumbering base names names' n) = n := by
  by_cases hn : n < base
  · simp only [renumbering, if_pos hn]
  · rw [renumbering.eq_def base names names', if_neg hn]
    cases hname : names[n - base]? with
    | some name =>
      obtain ⟨hlt, heq⟩ := List.getElem?_eq_some_iff.mp hname
      have hmem : name ∈ names' := hperm.mem_iff.mp (heq ▸ List.getElem_mem hlt)
      have hback : names'[names'.idxOf name]? = some name :=
        List.getElem?_idxOf hmem
      simp only [renumbering, numberOf, if_neg (Nat.not_lt.mpr (Nat.le_add_right base _)),
        Nat.add_sub_cancel_left, hback]
      rw [← heq, hnodup.idxOf_getElem]
      omega
    | none =>
      have hnone : names'[n - base]? = none := by
        rw [List.getElem?_eq_none_iff] at hname ⊢
        rwa [← hperm.length_eq]
      simp only [renumbering, if_neg hn, hnone]

theorem renumbering_numberOf {base : ℕ} {names names' : List String} {name : String}
    (hname : name ∈ names) :
    renumbering base names names' (numberOf base names name) = numberOf base names' name := by
  have hback : names[names.idxOf name]? = some name :=
    List.getElem?_idxOf hname
  simp only [renumbering, numberOf, if_neg (Nat.not_lt.mpr (Nat.le_add_right base _)),
    Nat.add_sub_cancel_left, hback]

def renumberingPerm (base : ℕ) {names names' : List String} (hnodup : names.Nodup)
    (hperm : names.Perm names') : Equiv.Perm ℕ where
  toFun := renumbering base names names'
  invFun := renumbering base names' names
  left_inv := renumbering_renumbering hnodup hperm
  right_inv := renumbering_renumbering (hperm.nodup_iff.mp hnodup) hperm.symm

/-- The nodes share what they share, under other identities. -/
theorem exists_apply_renumber (h : MovesWhiteouts layer layer') (hfresh : fs.Fresh)
    (ha : fs.apply layer = .ok a) :
    ∃ b, fs.apply layer' = .ok b ∧
      ∃ ρ : Equiv.Perm ℕ, (∀ n < fs.inodes, ρ n = n) ∧ b = a.renumber ρ := by
  obtain ⟨names, names', hnodup, hperm, hlength, hall⟩ := exists_apply_of_moves h ha
  let ρ := renumberingPerm fs.inodes hnodup hperm
  have hbelow : ∀ n < fs.inodes, ρ n = n := fun n hn => if_pos hn
  have hρ : FixesFrom ρ (fs.inodes + layer.length) := by
    intro n hn
    have hnone : names[n - fs.inodes]? = none := List.getElem?_eq_none_iff.mpr (by omega)
    show renumbering fs.inodes names names' n = n
    rw [renumbering.eq_def, if_neg (by omega), hnone]
  have hfs : fs.renumber ρ = fs.renumber id := by
    refine ext_nodes rfl fun key => ?_
    rw [getElem?_renumber, getElem?_renumber]
    cases hnode : fs.nodes[key]? with
    | none => rfl
    | some node =>
      show some { node with inode := ρ node.inode } = some node
      rw [hbelow _ (hfresh key node hnode)]
  obtain ⟨b, hb, heq⟩ := hall ρ id hρ (fun _ _ => rfl) hfs fun name hname =>
    renumbering_numberOf hname
  exact ⟨b, hb, ρ, hbelow, by rw [heq, renumber_id]⟩

/-! ### What is there again -/

/-- A whiteout of a layer takes a path away, which is at or below what it names, or below it where
it is opaque. -/
def TakesAway (fs : Filesystem) (layer : List ArchiveEntry) (key : String) : Prop :=
  ∃ entries name node target includeSelf, readEntries fs.inodes [] layer = .ok entries ∧
    (name, node) ∈ entries ∧ isWhiteout name = true ∧
    fs.whiteout name node = .ok (target, includeSelf) ∧
    (includeSelf = true ∧ key = target ∨
      key ≠ target ∧ (target = "" ∨ startsWith (target ++ "/") key = true))

theorem mem_removals {entry : String × Node} {removal : String × Bool} (hmem : entry ∈ entries)
    (hmark : isWhiteout entry.1 = true) (hwhiteout : fs.whiteout entry.1 entry.2 = .ok removal)
    (h : fs.removals entries = .ok removals) : removal ∈ removals := by
  have hfilter : entry ∈ entries.filter fun entry => isWhiteout entry.1 :=
    List.mem_filter.mpr ⟨hmem, hmark⟩
  have hmap := List.mem_map_of_mem (f := fun entry : String × Node =>
    fs.whiteout entry.1 entry.2) hfilter
  rw [removals_eq_ok_iff.mp h, hwhiteout] at hmap
  obtain ⟨other, hother, heq⟩ := List.mem_map.mp hmap
  exact Except.ok.inj heq ▸ hother

theorem getElem?_remove_eq_none {path key : String} {includeSelf : Bool}
    (h : includeSelf = true ∧ key = path ∨
      key ≠ path ∧ (path = "" ∨ startsWith (path ++ "/") key = true)) :
    (fs.remove path includeSelf).nodes[key]? = none := by
  have hgone : ((includeSelf && key = path) || (key ≠ path &&
      startsWith (if path = "" then "" else path ++ "/") key)) = true := by
    rcases h with ⟨hself, rfl⟩ | ⟨hne, hbelow⟩
    · simp [hself]
    · rcases hbelow with rfl | hbelow
      · simp [hne, startsWith]
      · split
        · simp [hne, startsWith]
        · simp [hne, hbelow]
  simp only [remove, ExtTreeMap.getElem?_filter', hgone, Bool.not_true]
  cases fs.nodes[key]? <;> rfl

theorem getElem?_removeAll_eq_none {removal : String × Bool} {key : String}
    (hmem : removal ∈ removals) (h : (fs.remove removal.1 removal.2).nodes[key]? = none) :
    (fs.removeAll removals).nodes[key]? = none := by
  have hkept : ∀ (removals : List (String × Bool)) (fs : Filesystem), fs.nodes[key]? = none →
      (fs.removeAll removals).nodes[key]? = none := by
    intro removals
    induction removals with
    | nil => exact fun fs hnone => hnone
    | cons first removals ih =>
      refine fun fs hnone => ih (fs.remove first.1 first.2) ?_
      refine Option.eq_none_iff_forall_ne_some.mpr fun node hnode => ?_
      rw [getElem?_of_remove hnode] at hnone
      cases hnone
  -- the removal may be done first
  have hperm := List.perm_cons_erase hmem
  rw [removeAll_perm hperm]
  exact hkept (removals.erase removal) (fs.remove removal.1 removal.2) h

/-- A path that comes to be comes to be by an entry. -/
theorem exists_entry_of_applyEntries {placed : Filesystem} {key : String}
    (hnone : fs.nodes[key]? = none) (h : fs.applyEntries entries = .ok placed)
    (hsome : placed.nodes[key]? ≠ none) :
    ∃ before entry after now behind, entries = before ++ entry :: after ∧
      fs.applyEntries before = .ok now ∧ now.nodes[key]? = none ∧
      now.applyEntry entry = .ok behind ∧ behind.nodes[key]? ≠ none ∧
      behind.applyEntries after = .ok placed := by
  induction entries generalizing fs with
  | nil =>
    cases h
    exact absurd hnone hsome
  | cons entry entries ih =>
    obtain ⟨next, hnext, h⟩ := Except.bind_eq_ok_iff.mp h
    by_cases hthere : next.nodes[key]? = none
    · obtain ⟨before, first, after, now, behind, rfl, hnow, hrest⟩ := ih hthere h
      refine ⟨entry :: before, first, after, now, behind, rfl, ?_, hrest⟩
      exact Except.bind_eq_ok_iff.mpr ⟨next, hnext, hnow⟩
    · exact ⟨[], entry, entries, fs, next, rfl, rfl, hnone, hnext, hthere, h⟩

/-- An entry puts down its own path and makes parents of it. -/
theorem applyEntry_puts {behind : Filesystem} {entry : String × Node} {key : String}
    (hnone : fs.nodes[key]? = none) (h : fs.applyEntry entry = .ok behind)
    (hsome : behind.nodes[key]? ≠ none) :
    isWhiteout entry.1 = false ∧ ∃ way rest, Names (way ++ rest) ∧ key = join way ∧
      fs.resolve entry.1 false = .ok (join (way ++ rest)) := by
  rw [applyEntry] at h
  split at h
  · cases h
    exact absurd hnone hsome
  · rename_i hmark
    rw [Bool.not_eq_true] at hmark
    obtain ⟨name, hresolve, h⟩ := Except.bind_eq_ok_iff.mp h
    obtain ⟨p, hp, rfl⟩ := resolve_names hresolve
    split at h
    · cases h
    · obtain ⟨⟨linkedFs, node⟩, hlinked, h⟩ := Except.bind_eq_ok_iff.mp h
      obtain ⟨hnodes, -⟩ := linked_eq_ok hlinked
      obtain ⟨paved, hparents, hplaced⟩ := Except.bind_eq_ok_iff.mp h
      have hpaved := paved_parents hp hparents
      dsimp only at hplaced
      split at hplaced
      · cases hplaced
      · cases hplaced
        rw [ExtTreeMap.getElem?_insert_ite] at hsome
        by_cases hkey : join p = key
        · refine ⟨hmark, p, [], ?_, hkey.symm, ?_⟩
          · rwa [List.append_nil]
          · rwa [List.append_nil]
        · rw [if_neg hkey] at hsome
          obtain ⟨there, hthere⟩ := Option.ne_none_iff_exists'.mp hsome
          rcases hpaved.new key there hthere with hold | ⟨-, way, rest, hway, hdrop, hkey⟩
          · -- there was nothing, and to clear the path makes nothing
            exfalso
            have hold : linkedFs.nodes[key]? = some there := by
              split at hold
              · exact hold
              · exact getElem?_of_remove hold
            rw [hnodes, hnone] at hold
            cases hold
          · have hne : p ≠ [] := by
              rintro rfl
              exact hway (List.append_eq_nil_iff.mp hdrop.symm).1
            have hpath : p = way ++ (rest ++ [p.getLast hne]) := by
              rw [← List.append_assoc, ← hdrop, List.dropLast_append_getLast]
            exact ⟨hmark, way, rest ++ [p.getLast hne], hpath ▸ hp, by simpa using hkey,
              hpath ▸ hresolve⟩

theorem getElem?_ne_none_of_resolveLinks {placed fs' : Filesystem} {rounds : ℕ} {key : String}
    (h : placed.resolveLinks rounds = .ok fs') (hsome : fs'.nodes[key]? ≠ none) :
    placed.nodes[key]? ≠ none := by
  by_cases hlink : placed.linkTarget key = none
  · rwa [← getElem?_of_resolveLinks h (.here hlink)]
  · obtain ⟨target, htarget⟩ := Option.ne_none_iff_exists'.mp hlink
    obtain ⟨node, hnode, -⟩ := linkTarget_eq_some_iff.mp htarget
    rw [hnode]
    exact Option.some_ne_none node

/-- What a whiteout takes away is there again only by an entry, which puts it down or makes a parent
of it. -/
theorem exists_entry_of_apply {fs' : Filesystem} {key : String} (h : fs.apply layer = .ok fs')
    (hgone : fs.TakesAway layer key) (hsome : fs'.nodes[key]? ≠ none) :
    ∃ entry now behind placed way rest, ComesBy fs layer entry now behind placed ∧
      isWhiteout entry.1 = false ∧ now.nodes[key]? = none ∧ behind.nodes[key]? ≠ none ∧
      Names (way ++ rest) ∧ key = join way ∧
      now.resolve entry.1 false = .ok (join (way ++ rest)) := by
  obtain ⟨entries, name, node, target, includeSelf, hentries, hmem, hmark, hwhiteout, hcovers⟩ :=
    hgone
  obtain ⟨entries', hentries', h⟩ := Except.bind_eq_ok_iff.mp h
  obtain rfl := Except.ok.inj (hentries.symm.trans hentries')
  obtain ⟨removals, hremovals, h⟩ := Except.bind_eq_ok_iff.mp h
  obtain ⟨placed, hplaced, h⟩ := Except.bind_eq_ok_iff.mp h
  have hremoval := mem_removals hmem hmark hwhiteout hremovals
  obtain ⟨before, entry, after, now, behind, rfl, hnow, hnone, hbehind, hthere, hafter⟩ :=
    exists_entry_of_applyEntries
      (getElem?_removeAll_eq_none hremoval (getElem?_remove_eq_none hcovers)) hplaced
      (getElem?_ne_none_of_resolveLinks h hsome)
  obtain ⟨hplain, way, rest, hnames, hkey, hresolve⟩ := applyEntry_puts hnone hbehind hthere
  exact ⟨entry, now, behind, placed, way, rest,
    ⟨_, removals, before, after, hentries, hremovals, rfl, hnow, hbehind, hafter⟩,
    hplain, hnone, hthere, hnames, hkey, hresolve⟩

/-- **Whiteouts act on what there was, in any order.** Where they are moved among the entries of a
layer it is accepted where it was, and comes to the same nodes; they share what they shared, under
other identities. And what a whiteout takes away is there afterwards only by an entry of the layer
that is none, which puts it down or makes a parent of it. -/
theorem whiteouts_in_any_order (fs : Filesystem) (layer : List ArchiveEntry) :
    (∀ layer', MovesWhiteouts layer layer' →
      ((∃ a, fs.apply layer = .ok a) ↔ ∃ b, fs.apply layer' = .ok b) ∧
      ∀ a b, fs.apply layer = .ok a → fs.apply layer' = .ok b →
        (a.renumber fun _ => 0) = (b.renumber fun _ => 0) ∧
        (fs.Fresh → ∃ ρ : Equiv.Perm ℕ, (∀ n < fs.inodes, ρ n = n) ∧ b = a.renumber ρ)) ∧
    ∀ fs' key, fs.apply layer = .ok fs' → fs.TakesAway layer key → fs'.nodes[key]? ≠ none →
      ∃ entry now behind placed way rest, ComesBy fs layer entry now behind placed ∧
        isWhiteout entry.1 = false ∧ now.nodes[key]? = none ∧ behind.nodes[key]? ≠ none ∧
        Names (way ++ rest) ∧ key = join way ∧
        now.resolve entry.1 false = .ok (join (way ++ rest)) := by
  refine ⟨fun layer' hmoves => ⟨⟨?_, ?_⟩, fun a b ha hb => ⟨?_, fun hfresh => ?_⟩⟩,
    fun fs' key h hgone hsome => exists_entry_of_apply h hgone hsome⟩
  · rintro ⟨a, ha⟩
    obtain ⟨b, hb, -⟩ := exists_apply_anonymous hmoves ha
    exact ⟨b, hb⟩
  · rintro ⟨b, hb⟩
    obtain ⟨a, ha, -⟩ := exists_apply_anonymous hmoves.symm hb
    exact ⟨a, ha⟩
  · obtain ⟨b', hb', heq⟩ := exists_apply_anonymous hmoves ha
    rw [hb] at hb'
    cases hb'
    exact heq
  · obtain ⟨b', hb', heq⟩ := exists_apply_renumber hmoves hfresh ha
    rw [hb] at hb'
    cases hb'
    exact heq

/-- A whiteout that stands behind what its layer puts in the place of what it takes away. -/
def replaced : List ArchiveEntry := [fileEntry "dir/new" [2], fileEntry "dir/.wh..wh..opq" []]

theorem replaced_in_any_order : ∃ fs a b, new.flatten [[fileEntry "dir/old" [1]]] = .ok fs ∧
    fs.apply replaced = .ok a ∧ fs.apply replaced.reverse = .ok b ∧
    ∃ ρ : Equiv.Perm ℕ, (∀ n < fs.inodes, ρ n = n) ∧ b = a.renumber ρ := by
  have hnew : (fileEntry "dir/new" [2]).namesWhiteout = false := by decide +kernel
  have hmark : (fileEntry "dir/.wh..wh..opq" []).namesWhiteout = true := by decide +kernel
  have hmoves : MovesWhiteouts replaced replaced.reverse :=
    ⟨(List.reverse_perm _).symm, by simp [replaced, hnew, hmark]⟩
  have hok : ((new.flatten [[fileEntry "dir/old" [1]]]) >>= fun fs => fs.apply replaced).isOk =
      true := by
    decide +kernel
  cases hfs : new.flatten [[fileEntry "dir/old" [1]]] with
  | error message =>
    rw [hfs] at hok
    cases hok
  | ok fs =>
    rw [hfs] at hok
    cases ha : fs.apply replaced with
    | error message =>
      change (fs.apply replaced).isOk = true at hok
      rw [ha] at hok
      cases hok
    | ok a =>
      obtain ⟨hiff, hall⟩ := (whiteouts_in_any_order fs replaced).1 _ hmoves
      obtain ⟨b, hb⟩ := hiff.mp ⟨a, ha⟩
      exact ⟨fs, a, b, rfl, ha, hb, (hall a b ha hb).2 (fresh_of_flatten hfs)⟩

end Filesystem

end Nibrunner

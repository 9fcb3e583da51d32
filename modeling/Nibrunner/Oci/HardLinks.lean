import Nibrunner.Oci.Archive
import Nibrunner.Oci.LinkRounds

/-!
# Hard links of a layer

A hard link whose target is there when it is put down is another name of it from then on; the others
are resolved when all entries are put down. Where the links that were kept form no circle and end in
nodes that are no directories, only the number of rounds can stand in the way: the loop has 40, and
the last may only look. A chain takes a round for each link that precedes its target, so that a long
one in the order of its names is refused (`Filesystem.chain_refused`).

* `Filesystem.avoids_putDown`: nothing before the links fails as the links do;
* `Filesystem.hard_links_of_apply`: what a layer's hard links come to.
-/

namespace Nibrunner

open Std PathText

namespace Filesystem

variable {fs fs' placed : Filesystem} {name target : String} {node : Node}

/-! ### A layer -/

section Layer

variable {layer : List ArchiveEntry}

/-- A layer without the end: its entries are put down, and its hard links not yet resolved. -/
def putDown (fs : Filesystem) (layer : List ArchiveEntry) : Except String Filesystem := do
  let entries ← readEntries fs.inodes [] layer
  let removals ← fs.removals entries
  ({ fs with inodes := fs.inodes + entries.length }.removeAll removals).applyEntries entries

theorem apply_eq (fs : Filesystem) (layer : List ArchiveEntry) :
    fs.apply layer = fs.putDown layer >>= fun placed => placed.resolveLinks 40 := by
  simp only [apply, putDown, bind_assoc]

theorem apply_of_putDown {fs placed : Filesystem} {layer : List ArchiveEntry}
    (h : fs.putDown layer = .ok placed) : fs.apply layer = placed.resolveLinks 40 := by
  rw [apply_eq, h]
  rfl

theorem avoids_archivePath (path : ArchiveText) :
    Except.Avoids unresolvedLinks (archivePath path) := by
  rw [archivePath.eq_def]
  split
  · exact .error (by decide)
  · split
    · exact .error (by decide)
    · exact .ok _

theorem avoids_readEntries {inode : ℕ} {seen : List String} :
    Except.Avoids unresolvedLinks (readEntries inode seen layer) := by
  have hattributes : ∀ extensions, Except.Avoids unresolvedLinks (entryAttributes extensions) := by
    intro extensions
    induction extensions with
    | nil => exact .ok _
    | cons extension rest ih =>
      rw [entryAttributes]
      split
      · exact .error (by decide)
      · refine ih.bind fun attributes => ?_
        split <;> exact .ok _
  have hkind : ∀ name entry, Except.Avoids unresolvedLinks (entryKind name entry) := by
    intro name entry
    rw [entryKind]
    split
    · exact .ok _
    · exact .ok _
    · split
      · exact .ok _
      · exact .error (by decide)
    · split
      · exact (avoids_archivePath _).map
      · exact .error (by decide)
    · refine .error fun heq => ?_
      have hfirst := congrArg (fun text => text.toList.head?) heq
      simp [unresolvedLinks] at hfirst
  induction layer generalizing inode seen with
  | nil => exact .ok _
  | cons entry layer ih =>
    rw [readEntries]
    split
    · exact .error (by decide)
    · refine (avoids_archivePath _).bind fun name => ?_
      split
      · exact .error (by decide)
      · refine (hattributes _).bind fun attributes => (hkind _ _).bind fun kind => ?_
        exact ih.bind fun others => .ok _

theorem avoids_resolve (fs : Filesystem) (path : String) (followFinal : Bool) :
    Except.Avoids unresolvedLinks (fs.resolve path followFinal) := by
  have hfollow : ∀ links pending resolved,
      Except.Avoids unresolvedLinks (fs.follow followFinal links pending resolved) := by
    intro links
    induction links with
    | zero =>
      intro pending resolved
      rw [follow]
      split
      · exact .ok _
      · exact .error (by decide)
      · exact .error (by decide)
    | succ links ih =>
      intro pending resolved
      rw [follow]
      split
      · exact .ok _
      · exact .error (by decide)
      · rename_i target _ _ _
        cases target with
        | notUtf8 => exact .error (by decide)
        | utf8 => exact ih _ _
  exact (hfollow _ _ _).map

theorem avoids_removals (fs : Filesystem) (entries : List (String × Node)) :
    Except.Avoids unresolvedLinks (fs.removals entries) := by
  have hwhiteout : ∀ name node, Except.Avoids unresolvedLinks (fs.whiteout name node) := by
    intro name node
    rw [whiteout]
    dsimp only
    split
    · exact .error (by decide)
    · refine (avoids_resolve _ _ _).bind fun parent => ?_
      split
      · exact .ok _
      · split
        · exact .error (by decide)
        · exact .ok _
  induction entries with
  | nil => exact .ok _
  | cons entry entries ih =>
    rw [removals]
    split
    · exact (hwhiteout _ _).bind fun removal => ih.bind fun others => .ok _
    · exact ih

theorem avoids_place (fs : Filesystem) (name : String) (node : Node) :
    Except.Avoids unresolvedLinks (fs.place name node) := by
  have hparents : ∀ components (fs : Filesystem) parent,
      Except.Avoids unresolvedLinks (fs.parentsFrom parent components) := by
    intro components
    induction components with
    | nil => exact fun _ _ => .ok _
    | cons component components ih =>
      intro fs parent
      rw [parentsFrom]
      split
      · exact .error (by decide)
      · exact ih _ _
      · exact ih _ _
  refine (hparents _ _ _).bind fun paved => ?_
  dsimp only
  split
  · exact .error (by decide)
  · exact .ok _

theorem avoids_applyEntries (fs : Filesystem) (entries : List (String × Node)) :
    Except.Avoids unresolvedLinks (fs.applyEntries entries) := by
  have hlinked : ∀ (fs : Filesystem) (node : Node),
      Except.Avoids unresolvedLinks (fs.linked node) := by
    intro fs node
    rw [linked]
    split
    · refine (avoids_resolve _ _ _).bind fun target => ?_
      split
      · split
        · exact .error (by decide)
        · exact .ok _
      · exact .ok _
    · exact .ok _
  induction entries generalizing fs with
  | nil => exact .ok _
  | cons entry entries ih =>
    refine Except.Avoids.bind ?_ fun next => ih next
    rw [applyEntry]
    split
    · exact .ok _
    · refine (avoids_resolve _ _ _).bind fun name => ?_
      split
      · exact .error (by decide)
      · exact (hlinked _ _).bind fun linked => avoids_place _ _ _

theorem avoids_putDown (fs : Filesystem) (layer : List ArchiveEntry) :
    Except.Avoids unresolvedLinks (fs.putDown layer) :=
  avoids_readEntries.bind fun _ => (avoids_removals _ _).bind fun _ =>
    avoids_applyEntries _ _

/-! ### What the links of a layer come to -/

/-- The links that were kept form no circle, and each chain ends in a node that is no directory. -/
structure LinksLead (placed : Filesystem) : Prop where
  acyclic : ∀ name, ¬Pointers.Circles placed.linkTarget name
  ending : ∀ name stop, placed.linkTarget name ≠ none →
    Pointers.Ends placed.linkTarget name stop →
      ∃ node, placed.nodes[stop]? = some node ∧ node.kind ≠ .directory

/-- No chain takes more rounds. -/
def LinksWithin (placed : Filesystem) (rounds : ℕ) : Prop :=
  ∀ name n stop, Pointers.Settles placed.linkTarget Precedes name n stop → n ≤ rounds

theorem finite_links (placed : Filesystem) : {name | placed.linkTarget name ≠ none}.Finite := by
  refine (List.finite_toSet placed.nodes.keys).subset fun name hlink => ?_
  obtain ⟨target, htarget⟩ := Option.ne_none_iff_exists'.mp hlink
  obtain ⟨node, hnode, -⟩ := linkTarget_eq_some_iff.mp htarget
  exact ExtTreeMap.mem_keys.mpr (ExtTreeMap.mem_iff_isSome_getElem?.mpr (by rw [hnode]; rfl))

theorem LinksLead.exists_leads (hl : placed.LinksLead) (hlink : placed.linkTarget name ≠ none) :
    ∃ n node, placed.LeadsTo name n node ∧ node.kind ≠ .directory := by
  obtain ⟨stop, hends⟩ :=
    (Pointers.ends_or_circles (finite_links placed) name).resolve_right (hl.acyclic name)
  obtain ⟨node, hnode, hplain⟩ := hl.ending name stop hlink hends
  obtain ⟨n, hsettles⟩ : ∃ n, Pointers.Settles placed.linkTarget Precedes name n stop :=
    Pointers.exists_settles hends
  exact ⟨n, node, ⟨stop, hsettles, hnode⟩, hplain⟩

/-- A layer has come by an entry: what there was then, what there was behind it, and what the layer
put down in all. -/
def ComesBy (fs : Filesystem) (layer : List ArchiveEntry) (entry : String × Node)
    (now behind placed : Filesystem) : Prop :=
  ∃ entries removals before after, readEntries fs.inodes [] layer = .ok entries ∧
    fs.removals entries = .ok removals ∧ entries = before ++ entry :: after ∧
    ({ fs with inodes := fs.inodes + entries.length }.removeAll removals).applyEntries before =
      .ok now ∧
    now.applyEntry entry = .ok behind ∧ behind.applyEntries after = .ok placed

theorem applyEntries_append {before after : List (String × Node)} :
    fs.applyEntries (before ++ after) =
      fs.applyEntries before >>= fun now => now.applyEntries after := by
  induction before generalizing fs with
  | nil => rfl
  | cons entry before ih => simp only [List.cons_append, applyEntries, ih, bind_assoc]

theorem ComesBy.putDown {entry : String × Node} {now behind : Filesystem}
    (h : fs.ComesBy layer entry now behind placed) : fs.putDown layer = .ok placed := by
  obtain ⟨entries, removals, before, after, hentries, hremovals, rfl, hnow, hbehind, hplaced⟩ := h
  refine Except.bind_eq_ok_iff.mpr ⟨_, hentries, ?_⟩
  refine Except.bind_eq_ok_iff.mpr ⟨removals, hremovals, ?_⟩
  rw [applyEntries_append]
  refine Except.bind_eq_ok_iff.mpr ⟨now, hnow, ?_⟩
  rw [applyEntries]
  exact Except.bind_eq_ok_iff.mpr ⟨behind, hbehind, hplaced⟩

theorem getElem?_of_place (h : fs.place name node = .ok fs') : fs'.nodes[name]? = some node := by
  obtain ⟨paved, -, hplaced⟩ := Except.bind_eq_ok_iff.mp h
  dsimp only at hplaced
  split at hplaced
  · cases hplaced
  · cases hplaced
    exact ExtTreeMap.getElem?_insert_self

/-- A hard link is put down as the node that is at its target then, or kept where there is none. -/
theorem applyEntry_link {now behind : Filesystem} (hmark : isWhiteout name = false)
    (hkind : node.kind = .hardlink target) (h : now.applyEntry (name, node) = .ok behind) :
    ∃ place goal put, now.resolve name false = .ok place ∧ now.resolve target false = .ok goal ∧
      behind.nodes[place]? = some put ∧
      (now.nodes[goal]? = some put ∧ put.kind ≠ .directory ∨
        now.nodes[goal]? = none ∧ put.kind = .hardlink goal) := by
  rw [applyEntry, hmark, if_neg Bool.false_ne_true] at h
  obtain ⟨place, hplace, h⟩ := Except.bind_eq_ok_iff.mp h
  split at h
  · cases h
  · obtain ⟨⟨linkedFs, put⟩, hlinked, h⟩ := Except.bind_eq_ok_iff.mp h
    have hput := getElem?_of_place h
    rw [linked, hkind] at hlinked
    obtain ⟨goal, hgoal, hlinked⟩ := Except.bind_eq_ok_iff.mp hlinked
    refine ⟨place, goal, put, hplace, hgoal, hput, ?_⟩
    split at hlinked
    · rename_i existing hexisting
      split at hlinked
      · cases hlinked
      · rename_i hplain
        cases hlinked
        exact .inl ⟨hexisting, hplain⟩
    · rename_i hnone
      cases hlinked
      exact .inr ⟨hnone, rfl⟩

/-- A link, and all that leads where it does, has the node its chain ends in. -/
theorem exists_shared {rounds : ℕ} (h : placed.resolveLinks rounds = .ok fs')
    (hlink : placed.linkTarget name = some target) :
    ∃ shared, fs'.nodes[name]? = some shared ∧ fs'.nodes[target]? = some shared ∧
      shared.kind ≠ .directory := by
  have hrounds : rounds ≠ 0 := by
    rintro rfl
    cases h
  obtain ⟨n, node, ⟨stop, hsettles, hnode⟩, -, hplain⟩ :=
    (exists_resolveLinks_iff hrounds).mp ⟨fs', h⟩ name (by simp [hlink])
  refine ⟨node, ?_, ?_, hplain⟩
  · rw [getElem?_of_resolveLinks h hsettles.ends, hnode]
  · rw [getElem?_of_resolveLinks h (hsettles.ends.tail hlink), hnode]

/-- Two paths that were put down as one node, or as a link and its target, have one node in the
end. -/
theorem shares_of_resolveLinks {rounds : ℕ} {place goal : String} {put : Node}
    (h : placed.resolveLinks rounds = .ok fs') (hput : placed.nodes[place]? = some put)
    (hgoal : placed.nodes[goal]? = some put ∧ put.kind ≠ .directory ∨ put.kind = .hardlink goal) :
    ∃ shared, fs'.nodes[place]? = some shared ∧ fs'.nodes[goal]? = some shared ∧
      shared.kind ≠ .directory := by
  rcases hgoal with ⟨hgoal, hplain⟩ | hkind
  · cases hlink : placed.linkTarget place with
    | some target =>
      obtain ⟨node, hnode, hkind⟩ := linkTarget_eq_some_iff.mp hlink
      obtain rfl := Option.some.inj (hput.symm.trans hnode)
      obtain ⟨shared, hplace, htarget, hshared⟩ := exists_shared h hlink
      obtain ⟨other, hother, htarget', -⟩ :=
        exists_shared h (linkTarget_eq_some_iff.mpr ⟨put, hgoal, hkind⟩)
      rw [htarget] at htarget'
      exact ⟨shared, hplace, by rw [hother, htarget'], hshared⟩
    | none =>
      have hnone : placed.linkTarget goal = none := by
        refine linkTarget_eq_none_iff.mpr fun node hnode => ?_
        rw [← Option.some.inj (hgoal.symm.trans hnode)]
        exact linkTarget_eq_none_iff.mp hlink put hput
      exact ⟨put, by rw [getElem?_of_resolveLinks h (.here hlink), hput],
        by rw [getElem?_of_resolveLinks h (.here hnone), hgoal], hplain⟩
  · exact exists_shared h (linkTarget_eq_some_iff.mpr ⟨put, hput, hkind⟩)

/-- **The hard links of a layer** that were kept are resolved where they form no circle, each chain
ends in a node that is no directory, and none takes more than 39 rounds; the layer is refused where
one is on a circle, leads to nothing or leads to a directory. What is accepted has at each path the
node that the chain there ends in; and a hard link shares the node of its target, where no later
entry took the place of either. -/
theorem hard_links_of_apply (fs : Filesystem) (layer : List ArchiveEntry) :
    (∀ placed, fs.putDown layer = .ok placed → placed.LinksLead → placed.LinksWithin 39 →
      ∃ fs', fs.apply layer = .ok fs') ∧
    ((∀ placed, fs.putDown layer = .ok placed → placed.LinksLead ∧ placed.LinksWithin 39) →
      fs.apply layer ≠ .error unresolvedLinks) ∧
    (∀ placed name, fs.putDown layer = .ok placed → placed.linkTarget name ≠ none →
      Pointers.Circles placed.linkTarget name ∨
        (∃ stop, Pointers.Ends placed.linkTarget name stop ∧
          ∀ node, placed.nodes[stop]? = some node → node.kind = .directory) →
      ∃ e, fs.apply layer = .error e) ∧
    (∀ placed fs' name stop, fs.putDown layer = .ok placed → fs.apply layer = .ok fs' →
      Pointers.Ends placed.linkTarget name stop → fs'.nodes[name]? = placed.nodes[stop]?) ∧
    ∀ name node target now behind placed fs', fs.ComesBy layer (name, node) now behind placed →
      isWhiteout name = false → node.kind = .hardlink target → fs.apply layer = .ok fs' →
      ∃ place goal, now.resolve name false = .ok place ∧ now.resolve target false = .ok goal ∧
        (placed.nodes[place]? = behind.nodes[place]? →
          (∀ there, now.nodes[goal]? = some there → placed.nodes[goal]? = some there) →
          ∃ shared, fs'.nodes[place]? = some shared ∧ fs'.nodes[goal]? = some shared ∧
            shared.kind ≠ .directory) := by
  have hgood : ∀ placed, fs.putDown layer = .ok placed → placed.LinksLead →
      placed.LinksWithin 39 → ∃ fs', fs.apply layer = .ok fs' := by
    intro placed hplaced hlead hwithin
    rw [apply_of_putDown hplaced, exists_resolveLinks_iff (by decide)]
    intro name hlink
    obtain ⟨n, node, hleads, hplain⟩ := hlead.exists_leads hlink
    obtain ⟨stop, hsettles, -⟩ := id hleads
    exact ⟨n, node, hleads, Nat.lt_succ_of_le (hwithin name n stop hsettles), hplain⟩
  refine ⟨hgood, fun hall herror => ?_, fun placed name hplaced hlink hbad => ?_, ?_, ?_⟩
  · cases hplaced : fs.putDown layer with
    | error message =>
      refine avoids_putDown fs layer (hplaced.trans ?_)
      rw [apply_eq, hplaced] at herror
      exact congrArg Except.error (Except.error.inj herror)
    | ok placed =>
      obtain ⟨hlead, hwithin⟩ := hall placed hplaced
      obtain ⟨fs', hok⟩ := hgood placed hplaced hlead hwithin
      rw [hok] at herror
      cases herror
  · rw [apply_of_putDown hplaced]
    cases hresolve : placed.resolveLinks 40 with
    | error e => exact ⟨e, rfl⟩
    | ok fs' =>
      exfalso
      obtain ⟨n, node, ⟨stop, hsettles, hnode⟩, -, hplain⟩ :=
        (exists_resolveLinks_iff (by decide)).mp ⟨fs', hresolve⟩ name hlink
      rcases hbad with hcircles | ⟨stop', hends, hdirectory⟩
      · exact hsettles.ends.not_circles hcircles
      · rw [hsettles.ends.unique hends] at hnode
        exact hplain (hdirectory node hnode)
  · intro placed fs' name stop hplaced hok hends
    rw [apply_of_putDown hplaced] at hok
    exact getElem?_of_resolveLinks hok hends
  · intro name node target now behind placed fs' hcomes hmark hkind hok
    rw [apply_of_putDown hcomes.putDown] at hok
    obtain ⟨-, -, -, -, -, -, -, -, hbehind, -⟩ := id hcomes
    obtain ⟨place, goal, put, hplace, hgoal, hput, hshares⟩ := applyEntry_link hmark hkind hbehind
    refine ⟨place, goal, hplace, hgoal, fun hstays hthere => ?_⟩
    refine shares_of_resolveLinks hok (hstays.trans hput) ?_
    rcases hshares with ⟨hnode, hplain⟩ | ⟨-, hkept⟩
    · exact .inl ⟨hthere put hnode, hplain⟩
    · exact .inr hkept

end Layer

/-! ### Chains in the order of their names -/

section Chain

def chainName (n : ℕ) : String := String.ofList [Char.ofNat (65 + n)]

/-- Hard links one after another, each to the next, and the file they end in. -/
def chainOfLinks (length : ℕ) : List ArchiveEntry :=
  ((List.range length).map fun n => hardLinkEntry (chainName n) (chainName (n + 1))) ++
    [fileEntry (chainName length) [7]]

def isChain (length : ℕ) (placed : Filesystem) : Bool :=
  ((List.range length).all fun n =>
    placed.linkTarget (chainName n) == some (chainName (n + 1)) &&
      compare (chainName n) (chainName (n + 1)) == .lt) &&
  (placed.nodes.keys.all fun name =>
    placed.linkTarget name == none || ((List.range length).map chainName).contains name) &&
  (placed.nodes[chainName length]?).any fun node => node.kind = .file [7]

variable {length : ℕ}

theorem isChain_iff : isChain length placed = true ↔
    (∀ n < length, placed.linkTarget (chainName n) = some (chainName (n + 1)) ∧
      Precedes (chainName n) (chainName (n + 1))) ∧
    (∀ name, placed.linkTarget name ≠ none → ∃ n < length, name = chainName n) ∧
    ∃ node, placed.nodes[chainName length]? = some node ∧ node.kind = .file [7] := by
  have hkeys : (∀ name ∈ placed.nodes.keys, placed.linkTarget name = none ∨
      name ∈ (List.range length).map chainName) ↔
      ∀ name, placed.linkTarget name ≠ none → ∃ n < length, name = chainName n := by
    refine forall_congr' fun name => ?_
    rw [List.mem_map]
    constructor
    · intro h hlink
      obtain ⟨target, htarget⟩ := Option.ne_none_iff_exists'.mp hlink
      obtain ⟨node, hnode, -⟩ := linkTarget_eq_some_iff.mp htarget
      have hmem : name ∈ placed.nodes.keys :=
        ExtTreeMap.mem_keys.mpr (ExtTreeMap.mem_iff_isSome_getElem?.mpr (by rw [hnode]; rfl))
      obtain ⟨n, hn, rfl⟩ := (h hmem).resolve_left hlink
      exact ⟨n, List.mem_range.mp hn, rfl⟩
    · intro h _
      rw [or_iff_not_imp_left]
      intro hlink
      obtain ⟨n, hn, rfl⟩ := h hlink
      exact ⟨n, List.mem_range.mpr hn, rfl⟩
  rw [isChain, Bool.and_eq_true, Bool.and_eq_true, and_assoc, ← hkeys]
  simp [Precedes, Option.any_eq_true]

/-- A chain whose links precede their targets takes a round for each. -/
theorem settles_chain (h : isChain length placed = true) {k : ℕ} (hk : k ≤ length) :
    Pointers.Settles placed.linkTarget Precedes (chainName (length - k)) k (chainName length) := by
  obtain ⟨hlinks, -, node, hnode, hkind⟩ := isChain_iff.mp h
  induction k with
  | zero =>
    refine .here (linkTarget_eq_none_iff.mpr fun other hother target hlink => ?_)
    rw [← Option.some.inj (hnode.symm.trans hother), hkind] at hlink
    cases hlink
  | succ k ih =>
    have hnext : length - (k + 1) + 1 = length - k := by omega
    obtain ⟨hstep, horder⟩ := hlinks (length - (k + 1)) (by omega)
    rw [hnext] at hstep horder
    refine .step hstep (ih (by omega)) ?_
    rw [Pointers.sweepsAfter, if_neg]
    rintro ⟨-, hback⟩
    rw [Precedes, OrientedCmp.gt_of_lt horder] at hback
    cases hback

theorem linksLead_chain (h : isChain length placed = true) : placed.LinksLead := by
  obtain ⟨hlinks, hnames, node, hnode, hkind⟩ := isChain_iff.mp h
  refine ⟨fun name => ?_, fun name stop hlink hends => ⟨node, ?_, ?_⟩⟩
  · refine Pointers.not_circles_of_lt (r := Precedes) (fun h h' => TransCmp.lt_trans h h')
      (fun a => by simp [Precedes]) fun a b hstep => ?_
    obtain ⟨n, hn, rfl⟩ := hnames a (by simp [hstep])
    obtain rfl := Option.some.inj ((hlinks n hn).1.symm.trans hstep)
    exact (hlinks n hn).2
  · obtain ⟨n, hn, rfl⟩ := hnames name hlink
    have hsettles := settles_chain h (Nat.sub_le length n)
    rw [Nat.sub_sub_self (Nat.le_of_lt hn)] at hsettles
    rw [hends.unique hsettles.ends, hnode]
  · rw [hkind]
    exact fun h => by cases h

theorem linksWithin_chain (h : isChain length placed = true) : placed.LinksWithin length := by
  intro name n stop hsettles
  by_cases hlink : placed.linkTarget name = none
  · rw [hsettles.eq_zero_iff.mpr hlink]
    exact Nat.zero_le _
  · obtain ⟨m, hm, rfl⟩ := (isChain_iff.mp h).2.1 name hlink
    have hchain := settles_chain h (Nat.sub_le length m)
    rw [Nat.sub_sub_self (Nat.le_of_lt hm)] at hchain
    rw [(hsettles.unique hchain).1]
    exact Nat.sub_le _ _

theorem exists_putDown_chain
    (h : (new.putDown (chainOfLinks length)).toOption.any (isChain length) = true) :
    ∃ placed, new.putDown (chainOfLinks length) = .ok placed ∧ isChain length placed = true := by
  cases hput : new.putDown (chainOfLinks length) with
  | error message =>
    rw [hput] at h
    cases h
  | ok placed =>
    rw [hput] at h
    exact ⟨placed, rfl, h⟩

/-- A chain that takes more rounds than there are is refused, though it ends in a file. -/
theorem chain_refused : ∃ placed, new.putDown (chainOfLinks 41) = .ok placed ∧
    placed.LinksLead ∧ new.apply (chainOfLinks 41) = .error unresolvedLinks := by
  obtain ⟨placed, hput, hchain⟩ := @exists_putDown_chain 41 (by decide +kernel)
  have hlead := linksLead_chain hchain
  have hlinked : placed.linkTarget (chainName 0) ≠ none := by
    rw [((isChain_iff.mp hchain).1 0 (by decide)).1]
    simp
  refine ⟨placed, hput, hlead, ?_⟩
  rw [apply_of_putDown hput]
  cases hresolve : placed.resolveLinks 40 with
  | error e =>
    rw [(patched_start placed).eq_of_resolveLinks_error (fun name n node hlink hleads => ?_)
      hresolve]
    obtain ⟨m, stop, hstop, hplain⟩ := hlead.exists_leads hlink
    rwa [(hleads.unique hstop).2]
  | ok fs' =>
    obtain ⟨n, node, ⟨stop, hsettles, -⟩, hn, -⟩ :=
      (exists_resolveLinks_iff (by decide)).mp ⟨fs', hresolve⟩ _ hlinked
    have hall := settles_chain hchain (Nat.le_refl 41)
    rw [(hsettles.unique hall).1] at hn
    omega

theorem chain_accepted : ∃ fs', new.apply (chainOfLinks 3) = .ok fs' := by
  obtain ⟨placed, hput, hchain⟩ := @exists_putDown_chain 3 (by decide +kernel)
  exact (hard_links_of_apply new (chainOfLinks 3)).1 placed hput (linksLead_chain hchain)
    fun name n stop hsettles => Nat.le_trans (linksWithin_chain hchain name n stop hsettles)
      (by decide)

end Chain

end Filesystem

end Nibrunner

import Nibrunner.ForStd.Pointers
import Nibrunner.Oci.Flattening

/-!
# Rounds over the hard links of a layer

A hard link whose target is not there when it is put down is kept, and patched by rounds over all
links that are left, each in the order of the names. A round settles a link whose target is settled
at its turn: in an earlier round, or in the same one where the target comes before. So the rounds a
link takes are the sweeps of `Pointers.Settles`.

* `Filesystem.Patched`: what the nodes are when so many rounds are over, and one is in part;
* `Filesystem.patchLinks_spec`: a round over the links that await it keeps that;
* `Filesystem.exists_resolveLinks_iff`: the loop ends well exactly where each link leads to a node
  that is no directory, in fewer rounds than there are;
* `Filesystem.getElem?_of_resolveLinks`: each path has the node then that its chain ends in.
-/

namespace Nibrunner

open Std PathText

namespace Filesystem

variable {fs fs' placed : Filesystem} {name target : String} {node : Node}

/-- What a hard link that was kept points at. -/
def linkTarget (fs : Filesystem) (name : String) : Option String :=
  (fs.nodes[name]?).bind fun node =>
    match node.kind with
    | .hardlink target => some target
    | _ => none

theorem linkTarget_eq_some_iff :
    fs.linkTarget name = some target ↔
      ∃ node, fs.nodes[name]? = some node ∧ node.kind = .hardlink target := by
  rw [linkTarget, Option.bind_eq_some_iff]
  refine exists_congr fun node => and_congr_right fun _ => ?_
  split
  · rename_i other hkind
    rw [hkind, Option.some.injEq, Kind.hardlink.injEq]
  · rename_i hkind
    exact iff_of_false (by simp) fun h => hkind target h

theorem linkTarget_eq_none_iff :
    fs.linkTarget name = none ↔
      ∀ node, fs.nodes[name]? = some node → ∀ target, node.kind ≠ .hardlink target := by
  rw [Option.eq_none_iff_forall_ne_some]
  constructor
  · intro h node hnode target hkind
    exact h target (linkTarget_eq_some_iff.mpr ⟨node, hnode, hkind⟩)
  · intro h target hlink
    obtain ⟨node, hnode, hkind⟩ := linkTarget_eq_some_iff.mp hlink
    exact h node hnode target hkind

/-- The order in which a round comes by the links. -/
def Precedes (a b : String) : Prop := compare a b = .lt

instance : DecidableRel Precedes := fun a b => inferInstanceAs (Decidable (compare a b = .lt))

/-- A path leads over links, in so many rounds, to a node. -/
def LeadsTo (fs : Filesystem) (name : String) (rounds : ℕ) (node : Node) : Prop :=
  ∃ stop, Pointers.Settles fs.linkTarget Precedes name rounds stop ∧ fs.nodes[stop]? = some node

theorem LeadsTo.unique {n m : ℕ} {other : Node} (h : fs.LeadsTo name n node)
    (h' : fs.LeadsTo name m other) : n = m ∧ node = other := by
  obtain ⟨stop, hsettles, hnode⟩ := h
  obtain ⟨stop', hsettles', hother⟩ := h'
  obtain ⟨rfl, rfl⟩ := hsettles.unique hsettles'
  exact ⟨rfl, Option.some.inj (hnode.symm.trans hother)⟩

/-- What a path leads to is no link. -/
theorem LeadsTo.kind_ne {n : ℕ} (h : fs.LeadsTo name n node) : node.kind ≠ .hardlink target := by
  obtain ⟨stop, hsettles, hnode⟩ := h
  exact linkTarget_eq_none_iff.mp hsettles.ends.2 node hnode target

theorem LeadsTo.eq_zero_iff {n : ℕ} (h : fs.LeadsTo name n node) :
    n = 0 ↔ fs.linkTarget name = none := by
  obtain ⟨stop, hsettles, -⟩ := h
  exact hsettles.eq_zero_iff

theorem leads_zero_iff : fs.LeadsTo name 0 node ↔
    fs.linkTarget name = none ∧ fs.nodes[name]? = some node := by
  constructor
  · rintro ⟨stop, hsettles, hnode⟩
    have hnone := hsettles.eq_zero_iff.mp rfl
    obtain ⟨-, rfl⟩ := hsettles.unique (.here hnone)
    exact ⟨hnone, hnode⟩
  · rintro ⟨hnone, hnode⟩
    exact ⟨name, .here hnone, hnode⟩

/-- A link leads where its target does, in the same round or in the next. -/
theorem leads_iff_of_link {n : ℕ} (hlink : fs.linkTarget name = some target) :
    fs.LeadsTo name n node ↔
      ∃ m, fs.LeadsTo target m node ∧ n = Pointers.sweepsAfter (Precedes target name) m := by
  constructor
  · rintro ⟨stop, hsettles, hnode⟩
    obtain ⟨m, hm, hn⟩ := hsettles.tail hlink
    exact ⟨m, ⟨stop, hm, hnode⟩, hn⟩
  · rintro ⟨m, ⟨stop, hsettles, hnode⟩, hn⟩
    exact ⟨stop, .step hlink hsettles hn, hnode⟩

/-! ### A round -/

section Rounds

/-- The rounds that are over when so many are, and the next is over for some links. -/
def Over (rounds : ℕ) (done : List String) (name : String) (n : ℕ) : Prop :=
  n ≤ rounds ∨ n = rounds + 1 ∧ name ∈ done

/-- In the rounds that are over, each link has been given the node it leads to, and that is no
directory; all else is as it was put down. -/
structure Patched (placed fs : Filesystem) (rounds : ℕ) (done : List String) : Prop where
  given : ∀ {name n node}, placed.LeadsTo name n node → Over rounds done name n →
    fs.nodes[name]? = some node
  kept : ∀ {name}, (∀ n node, placed.LeadsTo name n node → ¬Over rounds done name n) →
    fs.nodes[name]? = placed.nodes[name]?
  plain : ∀ {name n node}, placed.LeadsTo name n node → n ≠ 0 → Over rounds done name n →
    node.kind ≠ .directory

theorem patched_start (placed : Filesystem) : Patched placed placed 0 [] where
  given := by
    rintro name n node hleads (hn | ⟨-, hmem⟩)
    · obtain rfl := Nat.le_zero.mp hn
      exact (leads_zero_iff.mp hleads).2
    · exact absurd hmem List.not_mem_nil
  kept _ := rfl
  plain := by
    rintro name n node - hne (hn | ⟨-, hmem⟩)
    · omega
    · exact absurd hmem List.not_mem_nil

variable {rounds : ℕ} {done : List String}

/-- What a target is given while a round goes on: its node where it has been settled, and a link or
nothing where it has not. -/
theorem Patched.getElem?_target (hp : Patched placed fs rounds done) {n : ℕ}
    (hleads : placed.LeadsTo target n node) (hover : ¬Over rounds done target n) :
    ∃ link other, fs.nodes[target]? = some link ∧ link.kind = .hardlink other := by
  have hkept : fs.nodes[target]? = placed.nodes[target]? := by
    refine hp.kept fun m other hother => ?_
    rwa [(hother.unique hleads).1]
  rw [hkept]
  have hlink : placed.linkTarget target ≠ none := by
    intro hnone
    exact hover (.inl (by rw [hleads.eq_zero_iff.mpr hnone]; exact Nat.zero_le _))
  obtain ⟨other, hother⟩ := Option.ne_none_iff_exists'.mp hlink
  obtain ⟨link, hlink, hkind⟩ := linkTarget_eq_some_iff.mp hother
  exact ⟨link, other, hlink, hkind⟩

/-- Where a target leads nowhere the round finds a link or nothing. -/
theorem Patched.getElem?_astray (hp : Patched placed fs rounds done)
    (hastray : ∀ n node, ¬placed.LeadsTo target n node) :
    fs.nodes[target]? = none ∨
      ∃ link other, fs.nodes[target]? = some link ∧ link.kind = .hardlink other := by
  rw [hp.kept fun n node h => absurd h (hastray n node)]
  cases hnode : placed.nodes[target]? with
  | none => exact .inl rfl
  | some link =>
    refine .inr ⟨link, ?_⟩
    by_contra hplain
    refine hastray 0 link (leads_zero_iff.mpr ⟨?_, hnode⟩)
    refine linkTarget_eq_none_iff.mpr fun node hsame other hkind => hplain ⟨other, rfl, ?_⟩
    rwa [Option.some.inj (hnode.symm.trans hsame)]

/-- Coming by a link whose turn it is not changes what is over for no link. -/
theorem Patched.pass (hp : Patched placed fs rounds done)
    (hname : ∀ n node, placed.LeadsTo name n node → n ≠ rounds + 1) :
    Patched placed fs rounds (done ++ [name]) := by
  have hsame : ∀ {other n node}, placed.LeadsTo other n node →
      (Over rounds (done ++ [name]) other n ↔ Over rounds done other n) := by
    intro other n node hleads
    refine or_congr_right (and_congr_right fun hn => ?_)
    rw [List.mem_append, List.mem_singleton, or_iff_left]
    rintro rfl
    exact hname n node hleads hn
  exact ⟨fun h hover => hp.given h ((hsame h).mp hover),
    fun h => hp.kept fun n node hleads hover => h n node hleads ((hsame hleads).mpr hover),
    fun h hne hover => hp.plain h hne ((hsame h).mp hover)⟩

/-- A link is given the node it leads to. -/
theorem Patched.give (hp : Patched placed fs rounds done)
    (hleads : placed.LeadsTo name (rounds + 1) node) (hplain : node.kind ≠ .directory) :
    Patched placed { fs with nodes := fs.nodes.insert name node } rounds (done ++ [name]) where
  given := by
    intro other n node' hother hover
    rw [ExtTreeMap.getElem?_insert_ite]
    split
    · rename_i hsame
      subst hsame
      rw [(hleads.unique hother).2]
    · rename_i hne
      refine hp.given hother (hover.imp_right fun h => ⟨h.1, ?_⟩)
      rcases List.mem_append.mp h.2 with hmem | hmem
      · exact hmem
      · exact absurd (List.mem_singleton.mp hmem).symm hne
  kept := by
    intro other hother
    rw [ExtTreeMap.getElem?_insert_ite, if_neg]
    · exact hp.kept fun n node' h hover =>
        hother n node' h (hover.imp_right fun h => ⟨h.1, List.mem_append_left _ h.2⟩)
    · rintro rfl
      exact hother _ _ hleads (.inr ⟨rfl, List.mem_append_right _ List.mem_cons_self⟩)
  plain := by
    intro other n node' hother hne hover
    by_cases hsame : name = other
    · subst hsame
      rwa [← (hleads.unique hother).2]
    · refine hp.plain hother hne (hover.imp_right fun h => ⟨h.1, ?_⟩)
      rcases List.mem_append.mp h.2 with hmem | hmem
      · exact hmem
      · exact absurd (List.mem_singleton.mp hmem).symm hsame

/-- The links a round comes by, in their order: those that no round before has settled. -/
structure Awaiting (placed : Filesystem) (rounds : ℕ) (links : List (String × String)) : Prop where
  mem_iff : ∀ {name target}, (name, target) ∈ links ↔ placed.linkTarget name = some target ∧
    ∀ n node, placed.LeadsTo name n node → rounds < n
  sorted : links.Pairwise fun a b => Precedes a.1 b.1

/-- At its turn a link finds its target settled exactly where it is one that the round settles. -/
theorem Awaiting.over_iff {before after : List (String × String)}
    (hw : Awaiting placed rounds (before ++ (name, target) :: after)) {m : ℕ}
    (hleads : placed.LeadsTo target m node) :
    Over rounds (before.map Prod.fst) target m ↔
      Pointers.sweepsAfter (Precedes target name) m = rounds + 1 := by
  obtain ⟨hlink, hlate⟩ := hw.mem_iff.mp (List.mem_append_right _ List.mem_cons_self)
  have hlate := hlate _ _ ((leads_iff_of_link hlink).mpr ⟨m, hleads, rfl⟩)
  have hsorted := List.pairwise_append.mp hw.sorted
  have hbounds := Pointers.le_sweepsAfter (Precedes target name) m
  constructor
  · rintro (hm | ⟨rfl, hmem⟩)
    · omega
    · obtain ⟨⟨first, other⟩, hbefore, rfl⟩ := List.mem_map.mp hmem
      have hprecedes : Precedes first name := hsorted.2.2 _ hbefore _ List.mem_cons_self
      exact if_pos ⟨Nat.succ_ne_zero _, hprecedes⟩
  · rw [Pointers.sweepsAfter]
    split
    · rename_i hsame
      rintro rfl
      -- the target is a link that comes before, so the round has come by it
      obtain ⟨other, hother⟩ := Option.ne_none_iff_exists'.mp (mt hleads.eq_zero_iff.mpr hsame.1)
      have hmem : (target, other) ∈ before ++ (name, target) :: after :=
        hw.mem_iff.mpr ⟨hother, fun n node' h => (h.unique hleads).1 ▸ Nat.lt_succ_self _⟩
      refine .inr ⟨rfl, ?_⟩
      rcases List.mem_append.mp hmem with hmem | hmem
      · exact List.mem_map_of_mem hmem
      · exfalso
        have hback : target = name ∨ Precedes name target := by
          rcases List.mem_cons.mp hmem with hmem | hmem
          · exact .inl (Prod.mk.inj hmem).1
          · exact .inr ((List.pairwise_cons.mp hsorted.2.1).1 _ hmem)
        rcases hback with rfl | hback
        · exact absurd hsame.2 (by simp [Precedes])
        · have hprecedes : compare target name = .lt := hsame.2
          rw [OrientedCmp.gt_of_lt hback] at hprecedes
          cases hprecedes
    · intro hm
      exact .inl (by omega)

/-- At its turn a link is passed by, where the round does not settle it, or given the node it leads
to, or found to lead to a directory. -/
theorem patchLinks_cons {before after : List (String × String)}
    (hw : Awaiting placed rounds (before ++ (name, target) :: after))
    (hp : Patched placed fs rounds (before.map Prod.fst)) (patched : Bool) :
    (fs.patchLinks ((name, target) :: after) patched = fs.patchLinks after patched ∧
      ∀ n node, placed.LeadsTo name n node → n ≠ rounds + 1) ∨
    ∃ node, placed.LeadsTo name (rounds + 1) node ∧
      ((node.kind ≠ .directory ∧ fs.patchLinks ((name, target) :: after) patched =
        patchLinks { fs with nodes := fs.nodes.insert name node } after true) ∨
      (node.kind = .directory ∧ ∃ e, fs.patchLinks ((name, target) :: after) patched =
        .error e)) := by
  obtain ⟨hlink, -⟩ := hw.mem_iff.mp (List.mem_append_right _ List.mem_cons_self)
  by_cases hturn : ∃ m node, placed.LeadsTo target m node ∧
      Pointers.sweepsAfter (Precedes target name) m = rounds + 1
  · obtain ⟨m, node, hleads, hround⟩ := hturn
    have hnode := hp.given hleads ((hw.over_iff hleads).mpr hround)
    refine .inr ⟨node, (leads_iff_of_link hlink).mpr ⟨m, hleads, hround.symm⟩, ?_⟩
    by_cases hdirectory : node.kind = .directory
    · refine .inr ⟨hdirectory, "a hard link targets a directory", ?_⟩
      simp only [patchLinks, hnode, hdirectory]
    · refine .inl ⟨hdirectory, ?_⟩
      rw [patchLinks, hnode]
      dsimp only
      split
      · rename_i hkind
        exact absurd hkind hleads.kind_ne
      · rename_i hkind
        exact absurd hkind hdirectory
      · rfl
  · refine .inl ⟨?_, fun n node hleads hn => ?_⟩
    · -- the target is a link that this round has not settled, or nothing
      have hskip : fs.nodes[target]? = none ∨
          ∃ link other, fs.nodes[target]? = some link ∧ link.kind = .hardlink other := by
        by_cases hastray : ∀ n node, ¬placed.LeadsTo target n node
        · exact hp.getElem?_astray hastray
        · push Not at hastray
          obtain ⟨m, node, hleads⟩ := hastray
          exact .inr (hp.getElem?_target hleads fun hover =>
            hturn ⟨m, node, hleads, (hw.over_iff hleads).mp hover⟩)
      rcases hskip with hnone | ⟨link, other, hsome, hkind⟩
      · simp only [patchLinks, hnone]
      · simp only [patchLinks, hsome, hkind]
    · obtain ⟨m, hm, hround⟩ := (leads_iff_of_link hlink).mp hleads
      exact hturn ⟨m, node, hm, hround.symm.trans hn⟩

/-- A round over the links that await it gives each its node that it settles, or comes by one that
leads to a directory. -/
theorem patchLinks_spec {before pending : List (String × String)}
    (hw : Awaiting placed rounds (before ++ pending))
    (hp : Patched placed fs rounds (before.map Prod.fst)) (patched : Bool) :
    (∃ fs' patched', fs.patchLinks pending patched = .ok (fs', patched') ∧
      Patched placed fs' rounds ((before ++ pending).map Prod.fst) ∧
      (patched = true → patched' = true) ∧
      ∀ link ∈ pending, ∀ node, placed.LeadsTo link.1 (rounds + 1) node → patched' = true) ∨
    (∃ e, fs.patchLinks pending patched = .error e) ∧ ∃ name node,
      placed.LeadsTo name (rounds + 1) node ∧ node.kind = .directory := by
  induction pending generalizing fs before patched with
  | nil => exact .inl ⟨fs, patched, rfl, by rwa [List.append_nil], id, by simp⟩
  | cons link pending ih =>
    obtain ⟨name, target⟩ := link
    have hstep := patchLinks_cons hw hp patched
    have hdone : before.map Prod.fst ++ [name] = (before ++ [(name, target)]).map Prod.fst := by
      rw [List.map_append, List.map_singleton]
    rw [List.append_cons] at hw ⊢
    rcases hstep with ⟨hskip, hnot⟩ | ⟨node, hleads, ⟨hplain, hgive⟩ | ⟨hdirectory, e, herror⟩⟩
    · have hp' := hp.pass hnot
      rw [hdone] at hp'
      rw [hskip]
      refine (ih hw hp' patched).imp_left ?_
      rintro ⟨fs', patched', hok, hpatched, hmono, hsome⟩
      refine ⟨fs', patched', hok, hpatched, hmono, fun other hother node hleads => ?_⟩
      rcases List.mem_cons.mp hother with rfl | hother
      · exact absurd rfl (hnot _ node hleads)
      · exact hsome other hother node hleads
    · have hp' := hp.give hleads hplain
      rw [hdone] at hp'
      rw [hgive]
      refine (ih hw hp' true).imp_left ?_
      rintro ⟨fs', patched', hok, hpatched, hmono, -⟩
      exact ⟨fs', patched', hok, hpatched, fun _ => hmono rfl, fun _ _ _ _ => hmono rfl⟩
    · exact .inr ⟨⟨e, herror⟩, name, node, hleads, hdirectory⟩

theorem Patched.awaiting (hp : Patched placed fs rounds []) :
    Awaiting placed rounds fs.pendingLinks where
  mem_iff := by
    intro name target
    rw [mem_pendingLinks]
    constructor
    · rintro ⟨node, hnode, hkind⟩
      have hlate : ∀ n node, placed.LeadsTo name n node → rounds < n := by
        intro n node' hleads
        by_contra hn
        have hgiven := hp.given hleads (.inl (Nat.le_of_not_lt hn))
        rw [hnode] at hgiven
        exact hleads.kind_ne (Option.some.inj hgiven ▸ hkind)
      refine ⟨linkTarget_eq_some_iff.mpr ⟨node, ?_, hkind⟩, hlate⟩
      rw [← hnode]
      refine (hp.kept fun n node' hleads hover => ?_).symm
      rcases hover with hn | ⟨-, hmem⟩
      · exact absurd hn (Nat.not_le.mpr (hlate n node' hleads))
      · exact absurd hmem List.not_mem_nil
    · rintro ⟨hlink, hlate⟩
      obtain ⟨node, hnode, hkind⟩ := linkTarget_eq_some_iff.mp hlink
      refine ⟨node, ?_, hkind⟩
      rw [← hnode]
      refine hp.kept fun n node' hleads hover => ?_
      rcases hover with hn | ⟨-, hmem⟩
      · exact absurd hn (Nat.not_le.mpr (hlate n node' hleads))
      · exact absurd hmem List.not_mem_nil
  sorted := by
    rw [pendingLinks, List.pairwise_filterMap]
    refine ExtTreeMap.ordered_keys_toList.imp ?_
    rintro ⟨name, node⟩ ⟨name', node'⟩ hprecedes link hlink link' hlink'
    dsimp only at hlink hlink'
    split at hlink
    · cases hlink
      split at hlink'
      · cases hlink'
        exact hprecedes
      · cases hlink'
    · cases hlink

/-- After the links that awaited it, a round is over. -/
theorem Patched.next {links : List (String × String)} (hw : Awaiting placed rounds links)
    (hp : Patched placed fs rounds (links.map Prod.fst)) : Patched placed fs (rounds + 1) [] := by
  have hover : ∀ {name n node}, placed.LeadsTo name n node →
      (Over (rounds + 1) [] name n ↔ Over rounds (links.map Prod.fst) name n) := by
    intro name n node hleads
    constructor
    · rintro (hn | ⟨-, hmem⟩)
      · by_cases hless : n ≤ rounds
        · exact .inl hless
        · obtain rfl : n = rounds + 1 := by omega
          obtain ⟨target, htarget⟩ := Option.ne_none_iff_exists'.mp
            (mt hleads.eq_zero_iff.mpr (Nat.succ_ne_zero _))
          have hmem : (name, target) ∈ links :=
            hw.mem_iff.mpr ⟨htarget, fun m node' h => (h.unique hleads).1 ▸ Nat.lt_succ_self _⟩
          exact .inr ⟨rfl, List.mem_map_of_mem hmem⟩
      · exact absurd hmem List.not_mem_nil
    · rintro (hn | ⟨rfl, -⟩)
      · exact .inl (by omega)
      · exact .inl (Nat.le_refl _)
  exact ⟨fun h hn => hp.given h ((hover h).mp hn),
    fun h => hp.kept fun n node hleads hn => h n node hleads ((hover hleads).mpr hn),
    fun h hne hn => hp.plain h hne ((hover h).mp hn)⟩

/-- A round of the loop: every link it awaits is settled, and some link is where any of them leads
somewhere; or one leads to a directory. -/
theorem Patched.round (hp : Patched placed fs rounds []) :
    (∃ fs' patched', fs.patchLinks fs.pendingLinks false = .ok (fs', patched') ∧
      Patched placed fs' (rounds + 1) [] ∧
      ∀ name n node, placed.LeadsTo name n node → rounds < n → patched' = true) ∨
    (∃ e, fs.patchLinks fs.pendingLinks false = .error e) ∧ ∃ name node,
      placed.LeadsTo name (rounds + 1) node ∧ node.kind = .directory := by
  have hw : Awaiting placed rounds ([] ++ fs.pendingLinks) := hp.awaiting
  refine (patchLinks_spec hw hp false).imp_left ?_
  rintro ⟨fs', patched', hok, hpatched, -, hsome⟩
  refine ⟨fs', patched', hok, Patched.next hw hpatched, ?_⟩
  rintro name n node ⟨stop, hsettles, hnode⟩ hn
  obtain ⟨first, hfirst⟩ := hsettles.exists_of_le (Nat.succ_le_of_lt hn)
  have hleads : placed.LeadsTo first (rounds + 1) node := ⟨stop, hfirst, hnode⟩
  obtain ⟨target, htarget⟩ := Option.ne_none_iff_exists'.mp
    (mt hleads.eq_zero_iff.mpr (Nat.succ_ne_zero _))
  have hmem : (first, target) ∈ fs.pendingLinks :=
    hw.mem_iff.mpr ⟨htarget, fun m node' h => (h.unique hleads).1 ▸ Nat.lt_succ_self _⟩
  exact hsome _ hmem node hleads

/-- The loop ends with the links settled that so many rounds settle. -/
theorem Patched.of_resolveLinks {left : ℕ} (hp : Patched placed fs rounds [])
    (h : fs.resolveLinks left = .ok fs') :
    ∃ n < rounds + left, Patched placed fs' n [] ∧ fs'.pendingLinks = [] := by
  induction left generalizing fs rounds with
  | zero => cases h
  | succ left ih =>
    rw [resolveLinks] at h
    split at h
    · rename_i hnone
      cases h
      exact ⟨rounds, by omega, hp, hnone⟩
    · obtain ⟨⟨middle, patched⟩, hpatch, h⟩ := Except.bind_eq_ok_iff.mp h
      dsimp only at h
      split at h
      · rcases hp.round with ⟨fs₁, patched₁, hok, hnext, -⟩ | ⟨⟨e, herror⟩, -⟩
        · rw [hpatch] at hok
          cases hok
          obtain ⟨n, hn, hrest⟩ := ih hnext h
          exact ⟨n, by omega, hrest⟩
        · rw [hpatch] at herror
          cases herror
      · cases h

/-- The loop ends well where each link leads to a node that is no directory, in fewer rounds than
are left. -/
theorem Patched.exists_resolveLinks {left : ℕ} (hp : Patched placed fs rounds [])
    (hleft : left ≠ 0)
    (hlinks : ∀ name, placed.linkTarget name ≠ none →
      ∃ n node, placed.LeadsTo name n node ∧ n < rounds + left ∧ node.kind ≠ .directory) :
    ∃ fs', fs.resolveLinks left = .ok fs' := by
  induction left generalizing fs rounds with
  | zero => exact absurd rfl hleft
  | succ left ih =>
    rw [resolveLinks]
    split
    · exact ⟨fs, rfl⟩
    · rename_i hsome
      -- some link awaits this round, so the round patches one, and there is another round left
      obtain ⟨⟨name, target⟩, hmem⟩ := List.exists_mem_of_ne_nil _ hsome
      obtain ⟨hlink, hlate⟩ := hp.awaiting.mem_iff.mp hmem
      obtain ⟨n, node, hleads, hn, -⟩ := hlinks name (by simp [hlink])
      have hlate := hlate n node hleads
      rcases hp.round with ⟨fs₁, patched₁, hok, hnext, hpatched⟩ | ⟨-, first, stop, hfirst, hkind⟩
      · rw [hok, hpatched name n node hleads hlate]
        refine ih hnext (by omega) fun other hother => ?_
        obtain ⟨m, node', hm, hless, hplain⟩ := hlinks other hother
        exact ⟨m, node', hm, by omega, hplain⟩
      · obtain ⟨m, node', hm, -, hplain⟩ :=
          hlinks first (mt hfirst.eq_zero_iff.mpr (Nat.succ_ne_zero _))
        rw [(hfirst.unique hm).2] at hkind
        exact absurd hkind hplain

/-- Where no link leads to a directory the loop fails of links it does not resolve only. -/
theorem Patched.eq_of_resolveLinks_error {left : ℕ} {e : String}
    (hp : Patched placed fs rounds [])
    (hplain : ∀ name n node, placed.linkTarget name ≠ none → placed.LeadsTo name n node →
      node.kind ≠ .directory)
    (h : fs.resolveLinks left = .error e) : e = unresolvedLinks := by
  induction left generalizing fs rounds with
  | zero => exact (Except.error.inj h).symm
  | succ left ih =>
    rw [resolveLinks] at h
    split at h
    · cases h
    · rcases hp.round with ⟨fs₁, patched₁, hok, hnext, -⟩ | ⟨-, name, node, hleads, hkind⟩
      · rw [hok] at h
        dsimp only [Except.bind, bind] at h
        split at h
        · exact ih hnext h
        · exact (Except.error.inj h).symm
      · exact absurd hkind (hplain name _ node
          (mt hleads.eq_zero_iff.mpr (Nat.succ_ne_zero _)) hleads)

/-- Where no link awaits another round, each leads to its node, and that is no directory. -/
theorem Patched.leads_of_pendingLinks (hp : Patched placed fs rounds [])
    (hnone : fs.pendingLinks = []) (hlink : placed.linkTarget name ≠ none) :
    ∃ n node, placed.LeadsTo name n node ∧ n ≤ rounds ∧ node.kind ≠ .directory := by
  obtain ⟨target, htarget⟩ := Option.ne_none_iff_exists'.mp hlink
  by_contra hnot
  have hmem : (name, target) ∈ fs.pendingLinks := by
    refine hp.awaiting.mem_iff.mpr ⟨htarget, fun n node hleads => ?_⟩
    by_contra hn
    have hn := Nat.le_of_not_lt hn
    exact hnot ⟨n, node, hleads, hn, hp.plain hleads (mt hleads.eq_zero_iff.mp hlink) (.inl hn)⟩
  rw [hnone] at hmem
  exact absurd hmem List.not_mem_nil

end Rounds

/-- **The links of a layer are resolved** exactly where each leads to a node that is no directory in
fewer rounds than there are. -/
theorem exists_resolveLinks_iff {rounds : ℕ} (hrounds : rounds ≠ 0) :
    (∃ fs', placed.resolveLinks rounds = .ok fs') ↔
      ∀ name, placed.linkTarget name ≠ none →
        ∃ n node, placed.LeadsTo name n node ∧ n < rounds ∧ node.kind ≠ .directory := by
  have hstart := patched_start placed
  constructor
  · rintro ⟨fs', h⟩ name hlink
    obtain ⟨n, hn, hpatched, hnone⟩ := hstart.of_resolveLinks h
    obtain ⟨m, node, hleads, hm, hplain⟩ := hpatched.leads_of_pendingLinks hnone hlink
    exact ⟨m, node, hleads, by omega, hplain⟩
  · intro hlinks
    exact hstart.exists_resolveLinks hrounds fun name hlink => by simpa using hlinks name hlink

/-- Each path has the node then that its chain ends in. -/
theorem getElem?_of_resolveLinks {rounds : ℕ} {stop : String}
    (h : placed.resolveLinks rounds = .ok fs')
    (hends : Pointers.Ends placed.linkTarget name stop) :
    fs'.nodes[name]? = placed.nodes[stop]? := by
  obtain ⟨n, -, hpatched, hnone⟩ := (patched_start placed).of_resolveLinks h
  by_cases hlink : placed.linkTarget name = none
  · obtain rfl := hends.unique (.here hlink)
    cases hnode : placed.nodes[stop]? with
    | none =>
      rw [← hnode]
      refine hpatched.kept fun m node hleads => ?_
      rw [hleads.eq_zero_iff.mpr hlink, leads_zero_iff, hnode] at hleads
      cases hleads.2
    | some node => exact hpatched.given (leads_zero_iff.mpr ⟨hlink, hnode⟩) (.inl (Nat.zero_le _))
  · obtain ⟨m, node, hleads, hm, -⟩ := hpatched.leads_of_pendingLinks hnone hlink
    rw [hpatched.given hleads (.inl hm)]
    obtain ⟨stop', hsettles, hnode⟩ := hleads
    rw [← hnode, hsettles.ends.unique hends]

end Filesystem

end Nibrunner

import Mathlib.Data.List.Find
import Nibrunner.Guest.InstanceEnv

/-!
# Filling in references

What `expand` makes of a value, said without positions: from left to right, a complete `${NAME}`
of a value the runtime has becomes that value, and every other character stays (`fill`). The two
agree whenever every reference of the value is to something the runtime has (`expand_eq_ok_iff`).

The induction is on what is left of the value. A reference holds no dollar sign behind its opening,
so no other one begins within it and the positions never overlap.
-/

namespace Nibrunner.InstanceEnv

open Checked

/-- A complete reference. -/
def referenceTo (name : List Char) : List Char := opening ++ name ++ ['}']

/-- A text with its references to some values filled in. Behind one that was, as many characters
are skipped as it has left. -/
def fill (values : Entries) : ℕ → List Char → List Char
  | _, [] => []
  | skip + 1, _ :: text => fill values skip text
  | 0, c :: text =>
    match values.find? fun entry => (referenceTo entry.1).isPrefixOf (c :: text) with
    | some entry => entry.2 ++ fill values (entry.1.length + 2) text
    | none => c :: fill values 0 text

example : fill [("NIBRUN_HTTP_PORT".toList, "80".toList)] 0 "${X}:${NIBRUN_HTTP_PORT}".toList =
    "${X}:80".toList := by decide

/-- The values a reference may be to. -/
def offeredValues (runtime : Entries) : Entries :=
  runtimeValueNames.filterMap fun name => (named runtime name).map fun value => (name, value)

/-! ### Names -/

/-- A name a reference can hold. -/
structure IsRuntimeName (name : List Char) : Prop where
  hasPrefix : runtimeValuePrefix <+: name
  characters : ∀ c ∈ name, isNameCharacter c = true

theorem isRuntimeName_of_mem {name : List Char} (h : name ∈ runtimeValueNames) :
    IsRuntimeName name := by
  have hall : (runtimeValueNames.all fun name =>
      runtimeValuePrefix.isPrefixOf name && name.all isNameCharacter) = true := by decide
  obtain ⟨hbegins, hcharacters⟩ := Bool.and_eq_true_iff.mp (List.all_eq_true.mp hall name h)
  exact ⟨List.isPrefixOf_iff_prefix.mp hbegins, List.all_eq_true.mp hcharacters⟩

theorem IsRuntimeName.notMem {name : List Char} (h : IsRuntimeName name) {c : Char}
    (hc : isNameCharacter c = false) : c ∉ name := by
  intro hmem
  rw [h.characters c hmem] at hc
  cases hc

/-- What is found behind an opening is a name of the runtime and a closing brace. -/
theorem referenceName?_eq_some_iff {rest name : List Char} :
    referenceName? (opening ++ rest) = some name ↔
      IsRuntimeName name ∧ ∃ behind, rest = name ++ '}' :: behind := by
  have hdrop : (opening ++ rest).drop opening.length = rest := List.drop_left
  rw [referenceName?, hdrop]
  constructor
  · intro h
    split at h
    · cases h
    · rename_i hlead
      rw [Bool.not_eq_true, Bool.not_eq_false', List.isPrefixOf_iff_prefix] at hlead
      split at h
      · cases h
      · rename_i stop hstop
        split at h
        · rename_i hbrace
          -- the name ends at the first character that no name has, and that one is the brace
          obtain ⟨hlt, hlast, hbefore⟩ := List.findIdx?_eq_some_iff_getElem.mp hstop
          cases h
          have hchars : ∀ c ∈ rest.take stop, isNameCharacter c = true := by
            intro c hc
            obtain ⟨i, hi, rfl⟩ := List.mem_take_iff_getElem.mp hc
            have := hbefore i (by omega)
            simpa using this
          have hstop : runtimeValuePrefix.length ≤ stop := by
            -- every character of the prefix is one of a name
            by_contra hshort
            obtain ⟨back, rfl⟩ := hlead
            have hcharacter : ∀ i, (hi : i < runtimeValuePrefix.length) →
                isNameCharacter runtimeValuePrefix[i] = true := by decide
            rw [List.getElem_append_left (Nat.lt_of_not_le hshort),
              hcharacter stop (Nat.lt_of_not_le hshort)] at hlast
            cases hlast
          refine ⟨⟨List.prefix_take_iff.mpr ⟨hlead, hstop⟩, hchars⟩, rest.drop (stop + 1), ?_⟩
          have hdrop : rest.drop stop = '}' :: rest.drop (stop + 1) := by
            rw [List.drop_eq_getElem_cons hlt]
            rw [List.getElem?_eq_getElem hlt, Option.some.injEq] at hbrace
            rw [hbrace]
          rw [← hdrop, List.take_append_drop]
        · cases h
  · rintro ⟨hname, behind, rfl⟩
    have hlead : runtimeValuePrefix.isPrefixOf (name ++ '}' :: behind) = true :=
      List.isPrefixOf_iff_prefix.mpr (hname.hasPrefix.trans (List.prefix_append _ _))
    have hstop : (name ++ '}' :: behind).findIdx? (!isNameCharacter ·) = some name.length := by
      have hnone : name.findIdx? (!isNameCharacter ·) = none := by
        rw [List.findIdx?_eq_none_iff]
        intro c hc
        rw [hname.characters c hc]
        rfl
      have hbrace : ('}' :: behind).findIdx? (!isNameCharacter ·) = some 0 := by
        rw [List.findIdx?_cons, if_pos (by decide)]
      rw [List.findIdx?_append, hnone, hbrace]
      simp
    rw [if_neg (by simp [hlead]), hstop]
    show (if (name ++ '}' :: behind)[name.length]? = some '}' then
      some ((name ++ '}' :: behind).take name.length) else none) = _
    rw [List.getElem?_append_right (Nat.le_refl _), Nat.sub_self, List.take_left]
    rfl

/-! ### Openings -/

theorem matchIndices_opening (i : ℕ) (text : List Char) :
    matchIndices opening 0 i (opening ++ text) = i :: matchIndices opening 0 (i + 2) text := rfl

theorem matchIndices_of_no_opening {i : ℕ} {c : Char} {text : List Char}
    (h : ¬opening <+: c :: text) :
    matchIndices opening 0 i (c :: text) = matchIndices opening 0 (i + 1) text := by
  rw [matchIndices, if_neg (mt List.isPrefixOf_iff_prefix.mp h)]

theorem no_opening {c : Char} (hc : c ≠ '$') (text : List Char) :
    ¬opening <+: c :: text := by
  rintro ⟨back, hback⟩
  exact hc (List.cons.inj hback).1.symm

/-- No reference begins within what holds no dollar sign. -/
theorem matchIndices_append {front : List Char} (h : '$' ∉ front) (i : ℕ) (text : List Char) :
    matchIndices opening 0 i (front ++ text) =
      matchIndices opening 0 (i + front.length) text := by
  induction front generalizing i with
  | nil => rfl
  | cons c front ih =>
    rw [List.mem_cons, not_or] at h
    rw [List.cons_append, matchIndices_of_no_opening (no_opening (Ne.symm h.1) _),
      ih h.2, List.length_cons]
    congr 1
    omega

/-! ### Filling -/

section Fill

variable {values : Entries}

theorem fill_skip (front text : List Char) :
    fill values front.length (front ++ text) = fill values 0 text := by
  induction front with
  | nil => rfl
  | cons c front ih => exact ih

/-- A character at which no reference to one of the values stands is kept. -/
theorem fill_of_no_reference {c : Char} {text : List Char}
    (h : ∀ entry ∈ values, ¬referenceTo entry.1 <+: c :: text) :
    fill values 0 (c :: text) = c :: fill values 0 text := by
  have hnone : (values.find? fun entry => (referenceTo entry.1).isPrefixOf (c :: text)) = none :=
    List.find?_eq_none.mpr fun entry hentry hlead =>
      h entry hentry (List.isPrefixOf_iff_prefix.mp hlead)
  rw [fill, hnone]

/-- Two names before a closing brace are one. -/
theorem name_eq_of_append {name other behind rest : List Char} (hname : IsRuntimeName name)
    (hother : IsRuntimeName other) (h : name ++ '}' :: behind = other ++ '}' :: rest) :
    name = other := by
  have hbrace : isNameCharacter '}' = false := by decide
  have hsplit := TextLines.splitOnce_append (hname.notMem hbrace) behind
  rw [h, TextLines.splitOnce_append (hother.notMem hbrace)] at hsplit
  exact (congrArg Prod.fst (Option.some.inj hsplit)).symm

theorem referenceTo_prefix_iff {name other behind : List Char} (hname : IsRuntimeName name)
    (hother : IsRuntimeName other) :
    referenceTo other <+: referenceTo name ++ behind ↔ other = name := by
  constructor
  · rintro ⟨rest, hrest⟩
    simp only [referenceTo, List.append_assoc, List.append_cancel_left_eq] at hrest
    exact name_eq_of_append hother hname hrest
  · rintro rfl
    exact List.prefix_append _ _

/-- A complete reference to a value is filled in. -/
theorem fill_referenceTo (hvalues : ∀ entry ∈ values, IsRuntimeName entry.1) {name : List Char}
    (hname : IsRuntimeName name) {entry : List Char × List Char}
    (hfind : (values.find? fun entry => entry.1 = name) = some entry) (behind : List Char) :
    fill values 0 (referenceTo name ++ behind) = entry.2 ++ fill values 0 behind := by
  have hsame : entry.1 = name := by simpa using List.find?_some hfind
  have hfind : (values.find? fun entry =>
      (referenceTo entry.1).isPrefixOf (referenceTo name ++ behind)) = some entry := by
    rw [← hfind]
    refine List.find?_congr fun other hother => ?_
    rw [Bool.eq_iff_iff, List.isPrefixOf_iff_prefix, decide_eq_true_eq,
      referenceTo_prefix_iff hname (hvalues other hother)]
  have hcons : referenceTo name ++ behind = '$' :: (['{'] ++ name ++ ['}'] ++ behind) := rfl
  rw [hcons] at hfind ⊢
  rw [fill, hfind]
  show entry.2 ++ fill values (entry.1.length + 2) _ = _
  have hlength : (['{'] ++ name ++ ['}']).length = entry.1.length + 2 := by
    rw [hsame, List.length_append, List.length_append, List.length_singleton,
      List.length_singleton]
    omega
  rw [← hlength, fill_skip]

/-- An opening of no complete reference is kept. -/
theorem fill_opening (hvalues : ∀ entry ∈ values, IsRuntimeName entry.1) {text : List Char}
    (h : referenceName? (opening ++ text) = none) :
    fill values 0 (opening ++ text) = opening ++ fill values 0 text := by
  have hdollar : ∀ entry ∈ values, ¬referenceTo entry.1 <+: '$' :: '{' :: text := by
    rintro entry hentry ⟨behind, hbehind⟩
    have hrest : text = entry.1 ++ '}' :: behind := by
      simpa [referenceTo, opening] using hbehind.symm
    have hsome := referenceName?_eq_some_iff.mpr ⟨hvalues entry hentry, behind, hrest⟩
    rw [h] at hsome
    cases hsome
  have hbrace : ∀ entry ∈ values, ¬referenceTo entry.1 <+: '{' :: text := by
    rintro entry - ⟨behind, hbehind⟩
    have hne : '$' = '{' := (List.cons.inj hbehind).1
    exact absurd hne (by decide)
  show fill values 0 ('$' :: '{' :: text) = _
  rw [fill_of_no_reference hdollar, fill_of_no_reference hbrace]
  rfl

theorem fill_of_ne {c : Char} (text : List Char) (h : ¬opening <+: c :: text) :
    fill values 0 (c :: text) = c :: fill values 0 text := by
  refine fill_of_no_reference fun entry _ hlead => h ?_
  refine List.IsPrefix.trans ?_ hlead
  rw [referenceTo, List.append_assoc]
  exact List.prefix_append _ _

end Fill

/-! ### Expanding -/

/-- What a reference to a name is filled in with. -/
def lookup (runtime : Entries) (name : List Char) : Option (List Char × List Char) :=
  runtime.find? fun entry => entry.1 = name && runtimeValueNames.contains name

theorem isRuntimeName_of_offered {runtime : Entries} {entry : List Char × List Char}
    (h : entry ∈ offeredValues runtime) : IsRuntimeName entry.1 := by
  obtain ⟨name, hname, hentry⟩ := List.mem_filterMap.mp h
  obtain ⟨value, -, rfl⟩ := Option.map_eq_some_iff.mp hentry
  exact isRuntimeName_of_mem hname

/-- Among values made for some names, the one of a name is its own. -/
theorem find?_filterMap_names (values : List Char → Option (List Char)) {name value : List Char}
    {names : List (List Char)} (hname : name ∈ names) (h : values name = some value) :
    ((names.filterMap fun name => (values name).map fun value => (name, value)).find? fun entry =>
      entry.1 = name) = some (name, value) := by
  induction names with
  | nil => exact absurd hname List.not_mem_nil
  | cons other names ih =>
    by_cases hother : other = name
    · rw [hother, List.filterMap_cons, h]
      exact List.find?_cons_of_pos (decide_eq_true rfl)
    · have ih := ih ((List.mem_cons.mp hname).resolve_left (Ne.symm hother))
      rw [List.filterMap_cons]
      cases values other with
      | none => exact ih
      | some found =>
        show (((other, found) :: _).find? _) = _
        rw [List.find?_cons_of_neg (by simpa using hother)]
        exact ih

/-- What a reference is filled in with is one of the offered values. -/
theorem find?_offeredValues {runtime : Entries} {name : List Char}
    {found : List Char × List Char} (h : lookup runtime name = some found) :
    ((offeredValues runtime).find? fun entry => entry.1 = name) = some (name, found.2) := by
  have hoffered := List.find?_some h
  rw [Bool.and_eq_true, List.contains_iff_mem] at hoffered
  refine find?_filterMap_names (named runtime) hoffered.2 ?_
  have hnamed : (runtime.find? fun entry => entry.1 = name) = some found := by
    rw [← h, lookup]
    refine List.find?_congr fun entry _ => ?_
    rw [List.contains_iff_mem.mpr hoffered.2, Bool.and_true]
  rw [named, hnamed]
  rfl

/-- The references of a value that begin in its end from a position on. -/
def referencesFrom (value : List Char) (position : ℕ) (text : List Char) :
    List RuntimeReference :=
  (matchIndices opening 0 position text).filterMap fun start =>
    (referenceName? (value.drop start)).map fun name =>
      { start := start, stop := start + opening.length + name.length + 1, name := name }

/-- An opening that no name follows is no reference. -/
theorem referencesFrom_of_no_name {value rest : List Char} {position : ℕ}
    (hdrop : value.drop position = opening ++ rest)
    (hname : referenceName? (opening ++ rest) = none) :
    referencesFrom value position (opening ++ rest) =
      referencesFrom value (position + opening.length) rest := by
  rw [referencesFrom, matchIndices_opening, List.filterMap_cons, hdrop, hname]
  rfl

/-- A reference is read over: no other begins within it, its name holds no dollar sign. -/
theorem referencesFrom_of_name {value name behind : List Char} {position : ℕ}
    (hdrop : value.drop position = opening ++ (name ++ '}' :: behind))
    (hname : IsRuntimeName name) :
    referencesFrom value position (opening ++ (name ++ '}' :: behind)) =
      ⟨position, position + opening.length + name.length + 1, name⟩ ::
        referencesFrom value (position + opening.length + name.length + 1) behind := by
  have hread : referenceName? (opening ++ (name ++ '}' :: behind)) = some name :=
    referenceName?_eq_some_iff.mpr ⟨hname, behind, rfl⟩
  have hdollar : '$' ∉ name ++ ['}'] := by
    rw [List.mem_append, not_or]
    exact ⟨hname.notMem (by decide), by decide⟩
  have htail : matchIndices opening 0 (position + 2) (name ++ '}' :: behind) =
      matchIndices opening 0 (position + opening.length + name.length + 1) behind := by
    have happend : name ++ '}' :: behind = (name ++ ['}']) ++ behind := by simp
    have hsame : position + 2 + (name ++ ['}']).length =
        position + opening.length + name.length + 1 := by
      rw [List.length_append, List.length_singleton, ← Nat.add_assoc]
      rfl
    rw [happend, matchIndices_append hdollar, hsame]
  rw [referencesFrom, matchIndices_opening, List.filterMap_cons, hdrop, hread, htail]
  rfl

/-- No reference begins with a character that no opening begins with. -/
theorem referencesFrom_of_no_opening {value rest : List Char} {position : ℕ} {c : Char}
    (h : ¬opening <+: c :: rest) :
    referencesFrom value position (c :: rest) = referencesFrom value (position + 1) rest := by
  rw [referencesFrom, matchIndices_of_no_opening h]
  rfl

theorem slice_front {front text : List Char} {position : ℕ} (h : position ≤ front.length) :
    (slice (front ++ text) position front.length : Checked InstanceEnvError _) =
      .ok (front.drop position) := by
  have hdrop : ((front ++ text).drop position).take (front.length - position) =
      front.drop position := by
    rw [List.drop_append_of_le_length h, List.take_left' List.length_drop]
  rw [slice_of_le h (by rw [List.length_append]; exact Nat.le_add_right _ _), hdrop]

/-- From a position on, with the text behind it filled in. -/
theorem expandFrom_eq (key : List Char) {value : List Char} {runtime : Entries}
    (text front : List Char) (position : ℕ) (hvalue : value = front ++ text)
    (hposition : position ≤ front.length)
    (hfound : ∀ reference ∈ referencesFrom value front.length text,
      ∃ found, lookup runtime reference.name = some found) :
    expandFrom key value runtime position (referencesFrom value front.length text) =
      .ok (front.drop position ++ fill (offeredValues runtime) 0 text) := by
  have hnames : ∀ entry ∈ offeredValues runtime, IsRuntimeName entry.1 :=
    fun entry => isRuntimeName_of_offered
  -- on the length of the text, which a reference, an opening or a character shortens
  induction hn : text.length using Nat.strongRecOn generalizing text front position with
  | ind n ih =>
    by_cases hopening : opening <+: text
    · obtain ⟨rest, rfl⟩ := hopening
      have hdrop : value.drop front.length = opening ++ rest := by rw [hvalue, List.drop_left]
      cases hname : referenceName? (opening ++ rest) with
      | none =>
        rw [referencesFrom_of_no_name hdrop hname, ← List.length_append] at hfound ⊢
        have hrest := ih rest.length (by rw [← hn, List.length_append, opening]; simp) rest
          (front ++ opening) position (by rw [hvalue, List.append_assoc])
          (by rw [List.length_append]; omega) hfound rfl
        rw [hrest, List.drop_append_of_le_length hposition, fill_opening hnames hname,
          List.append_assoc]
      | some name =>
        obtain ⟨hruntime, behind, rfl⟩ := referenceName?_eq_some_iff.mp hname
        have hcut : opening ++ (name ++ '}' :: behind) = referenceTo name ++ behind := by
          simp [referenceTo]
        have hlength : (front ++ referenceTo name).length =
            front.length + opening.length + name.length + 1 := by
          simp [referenceTo]
          omega
        rw [referencesFrom_of_name hdrop hruntime, ← hlength] at hfound ⊢
        obtain ⟨⟨found, hlookup⟩, hfound⟩ := List.forall_mem_cons.mp hfound
        -- what stands before the reference is copied, and the text behind it is filled in
        have hbehind := ih behind.length
          (by rw [← hn, List.length_append, List.length_append, List.length_cons]; omega) behind
          (front ++ referenceTo name) (front ++ referenceTo name).length
          (by rw [hvalue, hcut, List.append_assoc]) (Nat.le_refl _) hfound rfl
        have hslice : (slice value position front.length : Checked InstanceEnvError _) =
            .ok (front.drop position) := by
          rw [hvalue]
          exact slice_front hposition
        rw [expandFrom]
        show (okOr (lookup runtime name) _ >>= fun _ => _) = _
        rw [hlookup, okOr_some, ok_bind, hslice, ok_bind, hbehind, ok_bind, hcut,
          fill_referenceTo hnames hruntime (find?_offeredValues hlookup), List.drop_length,
          List.nil_append, List.append_assoc]
        rfl
    · cases text with
      | nil =>
        have hslice : (slice value position value.length : Checked InstanceEnvError _) =
            .ok (value.drop position) :=
          slice_length (by rw [hvalue, List.append_nil]; exact hposition)
        have hnone : referencesFrom value front.length [] = [] := rfl
        rw [hnone, expandFrom, hslice, hvalue, List.append_nil]
        exact congrArg Checked.ok (List.append_nil _).symm
      | cons c rest =>
        have hone : (front ++ [c]).length = front.length + 1 := List.length_append
        rw [referencesFrom_of_no_opening hopening, ← hone] at hfound ⊢
        have hrest := ih rest.length (by rw [← hn]; simp) rest (front ++ [c]) position
          (by rw [hvalue, List.append_assoc]; rfl) (by rw [List.length_append]; omega) hfound rfl
        rw [hrest, List.drop_append_of_le_length hposition, fill_of_ne rest hopening,
          List.append_assoc]
        rfl

/-- A value that is filled in holds references to what the runtime has. -/
theorem found_of_expandFrom {key value : List Char} {runtime : Entries}
    {references : List RuntimeReference} {position : ℕ} {expanded : List Char}
    (h : expandFrom key value runtime position references = .ok expanded) :
    ∀ reference ∈ references, ∃ found, lookup runtime reference.name = some found := by
  induction references generalizing position expanded with
  | nil => exact fun reference hreference => absurd hreference List.not_mem_nil
  | cons reference references ih =>
    obtain ⟨found, hfound, h⟩ := bind_eq_ok_iff.mp h
    obtain ⟨_, -, h⟩ := bind_eq_ok_iff.mp h
    obtain ⟨_, hrest, -⟩ := bind_eq_ok_iff.mp h
    exact List.forall_mem_cons.mpr ⟨⟨found, okOr_eq_ok_iff.mp hfound⟩, ih hrest⟩

/-- **A value is expanded** exactly when each of its references is to something the runtime has,
and then it is the value with its references filled in. -/
theorem expand_eq_ok_iff {key value : List Char} {runtime : Entries} {expanded : List Char} :
    expand key value runtime = .ok expanded ↔
      (∀ reference ∈ runtimeReferences value, ∃ found, lookup runtime reference.name = some found) ∧
        expanded = fill (offeredValues runtime) 0 value := by
  constructor
  · intro h
    have hfound := found_of_expandFrom h
    have heq := expandFrom_eq key value [] 0 rfl (Nat.le_refl _) hfound
    have hexpand : expand key value runtime = .ok (fill (offeredValues runtime) 0 value) := heq
    rw [hexpand] at h
    cases h
    exact ⟨hfound, rfl⟩
  · rintro ⟨hfound, rfl⟩
    exact expandFrom_eq key value [] 0 rfl (Nat.le_refl _) hfound

end Nibrunner.InstanceEnv

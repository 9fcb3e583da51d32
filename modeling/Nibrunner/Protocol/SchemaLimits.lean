import Nibrunner.Protocol.Schema

/-!
# Limits in bytes and limits in characters

A guest path, the path of a program, an object key and an argument of a tenant are checked against
a limit in bytes and published with the same number as a limit in characters. The rest of their
rules is one rule: `matches_guestPathPattern` reads the pattern of guest paths, whose look ahead
leaves out the segments `.` and `..` wherever they stand. So check and schema part on the texts
that are of the form, within the limit in characters and beyond it in bytes, and on no others
(`limits_agree_iff`).
-/

namespace Nibrunner

open Patterns Pattern CharClass Words Schema

/-! ### The pattern of guest paths -/

theorem segmentCharacters_mem (c : Char) : segmentCharacters.mem c =
    (decide (c ≠ '/') && decide (c ≠ '\\') && decide (c.toNat ≠ 0x22) && decide (c.toNat ≠ 0x27) &&
      decide (0x1f < c.toNat)) := by
  have hcode (d : Char) : decide (c = d) = decide (c.toNat = d.toNat) :=
    decide_eq_decide.mpr ⟨congrArg Char.toNat, Char.toNat_inj.mp⟩
  have hcontrol : (decide (Char.ofNat 0 ≤ c) && decide (c ≤ Char.ofNat 0x1f)) =
      !decide (0x1f < c.toNat) := by
    rw [← decide_not, ← Bool.decide_and, decide_eq_decide, Nat.not_lt]
    exact ⟨fun h => h.2, fun h => ⟨Nat.zero_le c.toNat, h⟩⟩
  rw [CharClass.mem, segmentCharacters]
  simp only [List.any_cons, List.any_nil, range_self, hcontrol, hcode (Char.ofNat 0x22),
    hcode (Char.ofNat 0x27), decide_not, Bool.or_false, Bool.true_bne, Bool.not_or, Bool.not_not,
    Bool.and_assoc]
  rfl

/-- A text is over here, or goes on with another segment. -/
def Ends (rest : List Char) : Prop := rest = [] ∨ ∃ t, rest = '/' :: t

/-- What the look ahead of the pattern leaves out. -/
theorem leads_dots {whole s : List Char} :
    (∃ r, (seq (char '.') (seq (times (char '.') 0 (some 1)) (alt (char '/') stop))).Leads whole s
        r) ↔
      (∃ t, s = '.' :: t ∧ Ends t) ∨ ∃ t, s = '.' :: '.' :: t ∧ Ends t := by
  constructor
  · rintro ⟨r, u, rfl, w, ⟨n, ⟨-, hn⟩, hdots⟩, hend⟩
    have hends : Ends w := hend.symm.imp And.left fun h => ⟨r, h⟩
    rcases Nat.le_one_iff_eq_zero_or_eq_one.mp (hn 1 rfl) with rfl | rfl
    · obtain rfl : u = w := hdots
      exact .inl ⟨u, rfl, hends⟩
    · obtain ⟨x, rfl, rfl⟩ := hdots
      exact .inr ⟨x, rfl, hends⟩
  · have hend {t : List Char} (h : Ends t) : ∃ r, (alt (char '/') stop).Leads whole t r := by
      rcases h with rfl | ⟨r, rfl⟩
      · exact ⟨[], .inr ⟨rfl, rfl⟩⟩
      · exact ⟨r, .inl rfl⟩
    rintro (⟨t, rfl, ht⟩ | ⟨t, rfl, ht⟩)
    · obtain ⟨r, hr⟩ := hend ht
      exact ⟨r, t, rfl, t, ⟨0, ⟨le_rfl, fun m _ => Nat.zero_le m⟩, rfl⟩, hr⟩
    · obtain ⟨r, hr⟩ := hend ht
      refine ⟨r, '.' :: t, rfl, t, ⟨1, ⟨Nat.zero_le 1, fun m hm => ?_⟩, t, rfl, rfl⟩, hr⟩
      exact (Option.some.inj hm).le

/-- Behind a segment the text ends exactly where the segment does. -/
theorem ends_append {segment rest : List Char} (hslash : '/' ∉ segment) (hrest : Ends rest) :
    Ends (segment ++ rest) ↔ segment = [] := by
  cases segment with
  | nil => exact iff_of_true hrest rfl
  | cons c cs =>
    refine iff_of_false ?_ (List.cons_ne_nil c cs)
    rintro (h | ⟨t, h⟩)
    · exact List.cons_ne_nil _ _ h
    · rw [List.cons_append, List.cons.injEq] at h
      exact hslash (h.1 ▸ List.mem_cons_self)

/-- **The look ahead** leaves out the two segments of dots. -/
theorem dots_iff {segment rest : List Char} (hne : segment ≠ []) (hslash : '/' ∉ segment)
    (hrest : Ends rest) :
    ((∃ t, segment ++ rest = '.' :: t ∧ Ends t) ∨
        ∃ t, segment ++ rest = '.' :: '.' :: t ∧ Ends t) ↔
      segment = ['.'] ∨ segment = ['.', '.'] := by
  obtain ⟨c, cs, rfl⟩ := List.exists_cons_of_ne_nil hne
  rw [List.mem_cons, not_or] at hslash
  obtain ⟨-, hslash⟩ := hslash
  constructor
  · rintro (⟨t, heq, ht⟩ | ⟨t, heq, ht⟩)
    · obtain ⟨rfl, rfl⟩ := List.cons.inj heq
      exact .inl (congrArg ('.' :: ·) ((ends_append hslash hrest).mp ht))
    · rw [List.cons_append, List.cons.injEq] at heq
      obtain ⟨rfl, heq⟩ := heq
      cases cs with
      | nil =>
        rw [List.nil_append] at heq
        rcases hrest with rfl | ⟨u, rfl⟩
        · cases heq
        · exact absurd (List.cons.inj heq).1 (by decide)
      | cons d ds =>
        rw [List.cons_append, List.cons.injEq] at heq
        obtain ⟨rfl, rfl⟩ := heq
        rw [List.mem_cons, not_or] at hslash
        exact .inr (congrArg (['.', '.'] ++ ·) ((ends_append hslash.2 hrest).mp ht))
  · rintro (h | h)
    · obtain ⟨rfl, rfl⟩ := List.cons.inj h
      exact .inl ⟨rest, rfl, hrest⟩
    · obtain ⟨rfl, rfl⟩ := List.cons.inj h
      exact .inr ⟨rest, rfl, hrest⟩

/-- The segments of guest paths. -/
def guestPathSegments : Language Char := { segment | isGuestPathSegment segment = true }

theorem mem_someSegmentCharacters {segment : List Char} :
    segment ∈ timesOf (letter segmentCharacters.mem) 1 none ↔
      segment ≠ [] ∧ ∀ c ∈ segment, segmentCharacters.mem c = true := by
  rw [mem_timesOf_letter, Within, ← List.length_pos_iff]
  exact and_congr_left' ⟨fun h => h.1, fun h => ⟨h, fun _ hm => by cases hm⟩⟩

theorem mem_guestPathSegments {segment : List Char} :
    segment ∈ guestPathSegments ↔
      segment ∈ timesOf (letter segmentCharacters.mem) 1 none ∧
        ¬(segment = ['.'] ∨ segment = ['.', '.']) := by
  change isGuestPathSegment segment = true ↔ _
  rw [mem_someSegmentCharacters, isGuestPathSegment]
  simp only [segmentCharacters_mem, Bool.and_eq_true, decide_eq_true_eq, List.all_eq_true, not_or]
  exact ⟨fun h => ⟨⟨h.1.1.1, h.2⟩, h.1.1.2, h.1.2⟩, fun h => ⟨⟨⟨h.1.1, h.2.1⟩, h.2.2⟩, h.1.2⟩⟩

/-- A segment holds no slash. -/
theorem notMem_segment {segment : List Char}
    (h : segment ∈ timesOf (letter segmentCharacters.mem) 1 none) : '/' ∉ segment := by
  intro hmem
  have hslash := (mem_someSegmentCharacters.mp h).2 '/' hmem
  exact absurd hslash (by decide)

/-- One segment of the pattern. -/
def segmentPattern : Pattern :=
  seq (char '/')
    (seq (notAhead (seq (char '.') (seq (times (char '.') 0 (some 1)) (alt (char '/') stop))))
      (someOf segmentCharacters))

theorem leads_segment {whole s t : List Char} (ht : Ends t) :
    segmentPattern.Leads whole s t ↔ ∃ segment ∈ guestPathSegments, s = '/' :: (segment ++ t) := by
  have hsome := (spells_oneOf segmentCharacters).times 1 none
  have hdots {segment : List Char} (h : segment ∈ timesOf (letter segmentCharacters.mem) 1 none) :=
    dots_iff (mem_someSegmentCharacters.mp h).1 (notMem_segment h) ht
  constructor
  · rintro ⟨u, rfl, v, ⟨rfl, hahead⟩, h⟩
    obtain ⟨segment, hsegment, rfl⟩ := (hsome whole _ t).mp h
    rw [leads_dots, hdots hsegment] at hahead
    exact ⟨segment, mem_guestPathSegments.mpr ⟨hsegment, hahead⟩, rfl⟩
  · rintro ⟨segment, h, rfl⟩
    obtain ⟨hsegment, hahead⟩ := mem_guestPathSegments.mp h
    rw [← hdots hsegment, ← leads_dots] at hahead
    exact ⟨segment ++ t, rfl, segment ++ t, ⟨rfl, hahead⟩,
      (hsome whole _ t).mpr ⟨segment, hsegment, rfl⟩⟩

/-- The segments of a text behind each other. -/
theorem iterated_segments {whole : List Char} (n : ℕ) (s : List Char) :
    Iterated (segmentPattern.Leads whole) n s [] ↔
      s ∈ (letter (· == '/') * guestPathSegments) ^ n := by
  have hends {n : ℕ} {s : List Char} (h : s ∈ (letter (· == '/') * guestPathSegments) ^ n) :
      Ends s := by
    cases n with
    | zero => exact .inl h
    | succ n =>
      rw [pow_succ', mul_assoc] at h
      obtain ⟨c, t, rfl, hc, -⟩ := mem_letter_mul.mp h
      exact .inr ⟨t, congrArg (· :: t) (beq_iff_eq.mp hc)⟩
  induction n generalizing s with
  | zero => exact Iff.rfl
  | succ n ih =>
    rw [Iterated, pow_succ', mul_assoc]
    constructor
    · rintro ⟨r, hs, hr⟩
      have hr := (ih r).mp hr
      obtain ⟨segment, hsegment, rfl⟩ := (leads_segment (hends hr)).mp hs
      exact cons_mem_letter_mul.mpr ⟨rfl, Language.append_mem_mul hsegment hr⟩
    · intro h
      obtain ⟨c, -, rfl, hc, segment, hsegment, r, hr, rfl⟩ := mem_letter_mul.mp h
      obtain rfl := beq_iff_eq.mp hc
      exact ⟨r, (leads_segment (hends hr)).mpr ⟨segment, hsegment, rfl⟩, (ih r).mpr hr⟩

/-- The rule of guest paths without its limit. -/
def hasGuestPathForm (path : String) : Bool :=
  path.toList.head? = some '/' &&
    (path = "/" || (path.toList.tail.splitOn '/').all isGuestPathSegment)

theorem isGuestPath_iff (path : String) :
    isGuestPath path = true ↔
      hasGuestPathForm path = true ∧ path.utf8ByteSize ≤ maxGuestPathLength := by
  rw [isGuestPath, hasGuestPathForm]
  by_cases hlong : maxGuestPathLength < path.utf8ByteSize
  · simp [hlong]
  · by_cases hslash : path.toList.head? = some '/'
    · by_cases hroot : path = "/"
      · simp [hroot]
      · simp [hlong, hslash, hroot, Nat.le_of_not_lt hlong]
    · simp [hslash]

/-- **The pattern of guest paths** takes the texts of their form. -/
theorem matches_guestPathPattern (path : String) :
    guestPathPattern.Matches path.toList ↔ hasGuestPathForm path = true := by
  have hroot : (anchored (char '/')).Matches path.toList ↔ path = "/" := by
    rw [matches_anchored, ← String.toList_inj]
    exact Iff.rfl
  have hfree : ∀ segment ∈ guestPathSegments, ∀ c ∈ segment, (c == '/') = false := by
    intro segment h c hc
    have hslash := notMem_segment (mem_guestPathSegments.mp h).1
    exact beq_eq_false_iff_ne.mpr fun heq => hslash (heq ▸ hc)
  have hsegments : (anchored (times segmentPattern 1 none)).Matches path.toList ↔
      path.toList ∈ letter (· == '/') *
        (guestPathSegments * timesOf (letter (· == '/') * guestPathSegments) 0 none) := by
    rw [matches_anchored, ← mul_assoc, ← timesOf_one]
    simp only [Leads, iterated_segments]
    exact Iff.rfl
  have halt : guestPathPattern.Matches path.toList ↔ (anchored (char '/')).Matches path.toList ∨
      (anchored (times segmentPattern 1 none)).Matches path.toList := matches_alt
  rw [halt, hroot, hsegments, hasGuestPathForm, Bool.and_eq_true, Bool.or_eq_true,
    decide_eq_true_eq, decide_eq_true_eq, List.all_eq_true, List.splitOn_eq_splitOnP]
  constructor
  · rintro (rfl | h)
    · exact ⟨rfl, .inl rfl⟩
    · obtain ⟨c, rest, heq, hc, h⟩ := mem_letter_mul.mp h
      rw [heq, beq_iff_eq.mp hc]
      exact ⟨rfl, .inr ((mem_separated_any hfree).mp h)⟩
  · rintro ⟨hhead, hpath | hall⟩
    · exact .inl hpath
    · obtain ⟨rest, heq⟩ := List.head?_eq_some_iff.mp hhead
      rw [heq] at hall ⊢
      exact .inr (cons_mem_letter_mul.mpr ⟨rfl, (mem_separated_any hfree).mpr hall⟩)

/-! ### Where check and schema part -/

/-- A limit in bytes and one in characters part between the two lengths. -/
theorem limit_agree (form : Prop) (most : ℕ) (s : String) :
    ((form ∧ s.utf8ByteSize ≤ most) ↔ (form ∧ s.toList.length ≤ most)) ↔
      s.utf8ByteSize ≤ most ∨ most < s.toList.length ∨ ¬form := by
  have hle := Bytes.length_le_size s
  by_cases hform : form
  · simp only [hform, true_and, not_true_eq_false, or_false]
    omega
  · simp only [hform, false_and, not_false_eq_true, or_true]

theorem accepts_guestPath (path : String) : guestPathSchema.Accepts path ↔
    hasGuestPathForm path = true ∧ path.toList.length ≤ maxGuestPathLength := by
  rw [guestPathSchema, TextSchema.accepts_pattern, matches_guestPathPattern]
  exact and_congr_right' (and_iff_left List.not_mem_nil)

theorem accepts_executablePath (path : String) : executablePathSchema.Accepts path ↔
    (hasGuestPathForm path = true ∧ path ≠ "/" ∧ path ≠ initPath) ∧
      path.toList.length ≤ maxGuestPathLength := by
  rw [executablePathSchema, TextSchema.accepts_pattern, matches_guestPathPattern, List.mem_cons,
    List.mem_singleton, not_or, and_assoc]
  exact and_congr_right' and_comm

theorem accepts_objectKey (key : String) : objectKeySchema.Accepts key ↔
    key ≠ "" ∧ key.toList.length ≤ maxObjectKeyLength := by
  have hne : key ≠ "" ↔ 1 ≤ key.toList.length := by
    rw [Nat.one_le_iff_ne_zero, Ne, Ne, List.length_eq_zero_iff, ← String.toList_inj]
    exact Iff.rfl
  rw [hne]
  constructor
  · exact fun h => ⟨h.2.1.1, h.2.1.2 _ rfl⟩
  · refine fun h => ⟨fun q hq => (by cases hq), ⟨h.1, fun m hm => ?_⟩, List.not_mem_nil⟩
    rw [← Option.some.inj hm]
    exact h.2

theorem accepts_tenantArgument (argument : String) : tenantArgumentSchema.Accepts argument ↔
    argument.toList.length ≤ maxArgumentLength := by
  constructor
  · exact fun h => h.2.1.2 _ rfl
  · refine fun h => ⟨fun q hq => (by cases hq), ⟨Nat.zero_le _, fun m hm => ?_⟩, List.not_mem_nil⟩
    rwa [← Option.some.inj hm]

theorem isOk_tryFrom (arguments : List String) :
    (∃ checked, TenantArguments.tryFrom arguments = .ok checked) ↔
      arguments.length ≤ maxArguments ∧
        ∀ argument ∈ arguments, argument.utf8ByteSize ≤ maxArgumentLength := by
  rw [TenantArguments.tryFrom]
  split
  · next hmany => exact iff_of_false (by rintro ⟨_, h⟩; cases h) fun h => by omega
  · next hmany =>
    split
    · next hlong =>
      refine iff_of_false (by rintro ⟨_, h⟩; cases h) fun h => ?_
      obtain ⟨argument, hmem, hlt⟩ := hlong
      exact Nat.not_lt.mpr (h.2 argument hmem) hlt
    · next hlong =>
      refine iff_of_true ⟨_, rfl⟩ ⟨Nat.le_of_not_lt hmany, fun argument hmem => ?_⟩
      exact Nat.le_of_not_lt fun hlt => hlong ⟨argument, hmem, hlt⟩

/-- **Where the check and the schema part**: on the texts of the form that are within the limit in
characters and beyond it in bytes; there the schema accepts what the host refuses. -/
theorem limits_agree_iff (path key : String) (arguments : List String) :
    ((isGuestPath path = true ↔ guestPathSchema.Accepts path) ↔
        path.utf8ByteSize ≤ maxGuestPathLength ∨ maxGuestPathLength < path.toList.length ∨
          ¬guestPathPattern.Matches path.toList) ∧
      ((isExecutablePath path = true ↔ executablePathSchema.Accepts path) ↔
        path.utf8ByteSize ≤ maxGuestPathLength ∨ maxGuestPathLength < path.toList.length ∨
          ¬guestPathPattern.Matches path.toList) ∧
      ((isObjectKey key = true ↔ objectKeySchema.Accepts key) ↔
        key.utf8ByteSize ≤ maxObjectKeyLength ∨ maxObjectKeyLength < key.toList.length) ∧
      (((∃ checked, TenantArguments.tryFrom arguments = .ok checked) ↔
          TenantArguments.Accepts arguments) ↔
        maxArguments < arguments.length ∨
          (∀ argument ∈ arguments, argument.utf8ByteSize ≤ maxArgumentLength) ∨
            ∃ argument ∈ arguments, maxArgumentLength < argument.toList.length) := by
  refine ⟨?_, ?_, ?_, ?_⟩
  · rw [isGuestPath_iff, accepts_guestPath, matches_guestPathPattern, limit_agree]
  · have hshort : path.utf8ByteSize ≤ maxGuestPathLength ∨ path ≠ "/" ∧ path ≠ initPath := by
      by_cases hroot : path = "/"
      · exact .inl (hroot ▸ by decide)
      · by_cases hinit : path = initPath
        · exact .inl (hinit ▸ by decide)
        · exact .inr ⟨hroot, hinit⟩
    have hcheck : isExecutablePath path = true ↔
        (hasGuestPathForm path = true ∧ path ≠ "/" ∧ path ≠ initPath) ∧
          path.utf8ByteSize ≤ maxGuestPathLength := by
      rw [isExecutablePath, Bool.and_eq_true, Bool.and_eq_true, isGuestPath_iff, decide_eq_true_eq,
        decide_eq_true_eq]
      tauto
    rw [hcheck, accepts_executablePath, matches_guestPathPattern, limit_agree]
    tauto
  · have hempty : key.utf8ByteSize ≤ maxObjectKeyLength ∨ key ≠ "" := by
      by_cases hkey : key = ""
      · exact .inl (hkey ▸ Nat.zero_le _)
      · exact .inr hkey
    rw [accepts_objectKey, isObjectKey, Bool.and_eq_true, decide_eq_true_eq, decide_eq_true_eq,
      limit_agree]
    tauto
  · have hle (argument : String) := Bytes.length_le_size argument
    simp only [isOk_tryFrom, TenantArguments.Accepts, accepts_tenantArgument]
    by_cases hmany : maxArguments < arguments.length
    · simp [hmany, Nat.not_le.mpr hmany]
    · have hfew := Nat.le_of_not_lt hmany
      simp only [hfew, hmany, true_and, false_or]
      constructor
      · intro h
        by_cases hlong : ∃ argument ∈ arguments, maxArgumentLength < argument.toList.length
        · exact .inr hlong
        · exact .inl (h.mpr fun argument hmem => Nat.le_of_not_lt fun hlt =>
            hlong ⟨argument, hmem, hlt⟩)
      · rintro (hshort | ⟨argument, hmem, hlt⟩)
        · exact iff_of_true hshort fun argument hmem => (hle argument).trans (hshort argument hmem)
        · refine iff_of_false (fun h => ?_) fun h => Nat.not_lt.mpr (h argument hmem) hlt
          exact Nat.not_lt.mpr ((hle argument).trans (h argument hmem)) hlt

/-- An object key of 513 characters of two bytes each satisfies the schema, and the host refuses
it. -/
theorem objectKey_refused :
    ¬((∀ path : String, isGuestPath path = true ↔ guestPathSchema.Accepts path) ∧
      (∀ path : String, isExecutablePath path = true ↔ executablePathSchema.Accepts path) ∧
      (∀ key : String, isObjectKey key = true ↔ objectKeySchema.Accepts key) ∧
      ∀ arguments : List String, (∃ checked, TenantArguments.tryFrom arguments = .ok checked) ↔
        TenantArguments.Accepts arguments) := by
  rintro ⟨-, -, hkeys, -⟩
  have hsize := Bytes.size_replicate 513 'é'
  have hlen : (String.ofList (List.replicate 513 'é')).toList.length = 513 := by
    rw [String.toList_ofList, List.length_replicate]
  have hwide : 'é'.utf8Size = 2 := by decide
  generalize String.ofList (List.replicate 513 'é') = key at hsize hlen
  have hne : key ≠ "" := by
    rintro rfl
    cases hlen
  have htaken := (hkeys key).mpr ((accepts_objectKey key).mpr ⟨hne, hlen ▸ by decide⟩)
  rw [isObjectKey, Bool.and_eq_true, decide_eq_true_eq, decide_eq_true_eq, hsize, hwide,
    maxObjectKeyLength] at htaken
  omega

end Nibrunner

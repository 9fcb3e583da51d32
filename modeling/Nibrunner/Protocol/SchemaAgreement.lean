import Nibrunner.Protocol.Schema

/-!
# The checks say what their patterns say

An identifier, a name of a port, a digest, a timestamp, a label, a hostname and a repository are
each checked by a scanner written by hand and published as a pattern. For each the language of the
pattern is read off it, and the scanner takes the texts of that language.

* `checks_agree`: the seven checks accept what their schemas accept;
* `isRegistryHost_iff`: the host of a registry, whose pattern keeps its last dot apart from what
  stands before it;
* `isTimestamp_iff`: the scanner over bytes, its pattern taken to bytes as well.
-/

namespace Nibrunner

open Patterns Pattern CharClass Words Schema

/-! ### Classes -/

section Classes

theorem digits_mem : digits.mem = Char.isDigit := by
  funext c
  simp only [digits, mem_ranges, List.any_cons, List.any_nil, range_digit, Bool.or_false]

theorem lowers_mem : lowers.mem = Char.isLower := by
  funext c
  simp only [lowers, mem_ranges, List.any_cons, List.any_nil, range_lower, Bool.or_false]

theorem alphanumerics_mem : alphanumerics.mem = isAlphanumeric := by
  funext c
  simp only [alphanumerics, mem_ranges, List.any_cons, List.any_nil, range_lower, range_digit,
    Bool.or_false, isAlphanumeric]

theorem alphanumericsOrDash_mem :
    alphanumericsOrDash.mem = fun c => c.isLower || c.isDigit || decide (c = '-') := by
  funext c
  simp only [alphanumericsOrDash, mem_ranges, List.any_cons, List.any_nil, range_lower,
    range_digit, range_self, Bool.or_false, Bool.or_assoc]


theorem identifierFirst_mem :
    identifierFirst.mem = Char.isAlphanum := by
  funext c
  simp only [identifierFirst, mem_ranges, List.any_cons, List.any_nil, range_upper, range_lower,
    range_digit, Bool.or_false, Bool.or_assoc, Char.isAlphanum, upper_or_lower]

theorem identifierRest_mem :
    identifierRest.mem =
      isIdentifierCharacter := by
  funext c
  simp only [identifierRest, mem_ranges, List.any_cons, List.any_nil, range_upper, range_lower,
    range_digit, range_self, Bool.or_false, Bool.or_assoc, isIdentifierCharacter, Char.isAlphanum,
    upper_or_lower]

theorem hexDigits_mem : hexDigits.mem =
    fun c => c.isDigit || (decide ('a' ≤ c) && decide (c ≤ 'f')) := by
  funext c
  simp only [hexDigits, mem_ranges, List.any_cons, List.any_nil, range_digit, Bool.or_false]

theorem hostSeparators_mem :
    hostSeparators.mem = fun c => decide (c = '.') || decide (c = '-') := by
  funext c
  simp only [hostSeparators, mem_ranges, List.any_cons, List.any_nil, range_self, Bool.or_false]

theorem repositoryInside_mem :
    repositoryInside.mem =
      fun c => isAlphanumeric c || decide (c = '.') || decide (c = '_') || decide (c = '-') := by
  funext c
  simp only [repositoryInside, mem_ranges, List.any_cons, List.any_nil, range_lower, range_digit,
    range_self, Bool.or_false, Bool.or_assoc, isAlphanumeric]

end Classes

/-! ### One character and then others -/

/-- Repetition between zero and a bound. -/
private theorem within_zero {most n : ℕ} : Within 0 (some most) n ↔ n ≤ most :=
  ⟨fun h => h.2 most rfl, fun h => ⟨Nat.zero_le n, fun _ hm => Option.some.inj hm ▸ h⟩⟩

/-- A character of one class and then some of another, as the scanners read it: the limit is on the
bytes of the text. -/
theorem mem_headed {first rest : CharClass} {most : ℕ} {s : String}
    (hascii : (seq (oneOf first) (times (oneOf rest) 0 (some most))).isAscii = true) :
    s.toList ∈ letter first.mem * timesOf (letter rest.mem) 0 (some most) ↔
      ∃ c cs, s.toList = c :: cs ∧ first.mem c = true ∧ s.utf8ByteSize ≤ most + 1 ∧
        cs.all rest.mem = true := by
  have hspells := (spells_oneOf first).seq ((spells_oneOf rest).times 0 (some most))
  constructor
  · intro h
    have hsize := Bytes.size_of_ascii (hspells.ascii hascii h)
    obtain ⟨c, cs, heq, hc, hcs⟩ := mem_letter_mul.mp h
    obtain ⟨hlen, hcs⟩ := mem_timesOf_letter.mp hcs
    rw [heq, List.length_cons] at hsize
    exact ⟨c, cs, heq, hc, hsize ▸ Nat.succ_le_succ (within_zero.mp hlen),
      List.all_eq_true.mpr hcs⟩
  · rintro ⟨c, cs, heq, hc, hsize, hcs⟩
    have hlen := (Bytes.length_le_size s).trans hsize
    rw [heq] at hlen ⊢
    refine cons_mem_letter_mul.mpr ⟨hc, mem_timesOf_letter.mpr ⟨?_, List.all_eq_true.mp hcs⟩⟩
    exact within_zero.mpr (Nat.le_of_succ_le_succ hlen)

theorem isIdentifier_iff (s : String) : isIdentifier s = true ↔ identifierSchema.Accepts s := by
  rw [identifierSchema, identifierPattern,
    TextSchema.accepts_iff
      ((spells_oneOf identifierFirst).seq ((spells_oneOf identifierRest).times 0 (some 62))),
    mem_headed (by decide), identifierFirst_mem, identifierRest_mem, isIdentifier]
  cases s.toList with
  | nil => simp
  | cons c cs => simp

theorem isPortName_iff (s : String) : isPortName s = true ↔ portNameSchema.Accepts s := by
  rw [portNameSchema, portNamePattern,
    TextSchema.accepts_iff
      ((spells_oneOf lowers).seq ((spells_oneOf alphanumericsOrDash).times 0 (some 15))),
    mem_headed (by decide), lowers_mem, alphanumericsOrDash_mem, isPortName]
  have hne : s.toList ≠ [] → s ≠ "" := fun h heq => h (heq ▸ rfl)
  cases hs : s.toList with
  | nil => simp
  | cons c cs =>
    have hne := hne (hs ▸ List.cons_ne_nil c cs)
    have hmax : maxPortNameLength = 15 + 1 := rfl
    simp [hne, hmax]

/-! ### Digests -/

theorem isSha256Hex_iff (s : String) : isSha256Hex s = true ↔ sha256DigestSchema.Accepts s := by
  have hspells := (spells_oneOf hexDigits).times 64 (some 64)
  have hascii {c : Char} (hc : hexDigits.mem c = true) :
      c.toNat < 128 := ascii_of_mayHold (p := .oneOf _) (by decide) hc
  rw [sha256DigestSchema, sha256HexPattern, TextSchema.accepts_iff hspells, mem_timesOf_letter,
    isSha256Hex, Bool.and_eq_true, decide_eq_true_eq, List.all_eq_true]
  have hexact : Within 64 (some 64) s.toList.length ↔ s.toList.length = sha256HexLength := by
    rw [Within, sha256HexLength]
    exact ⟨fun h => Nat.le_antisymm (h.2 64 rfl) h.1,
      fun h => ⟨h.ge, fun m hm => Option.some.inj hm ▸ h.le⟩⟩
  have hover : s.toList ∈ Over hexDigits.mem ↔
      ∀ c ∈ s.toList, (c.isDigit || (decide ('a' ≤ c) && decide (c ≤ 'f'))) = true := by
    rw [hexDigits_mem]
    exact Iff.rfl
  rw [hexact, ← hover]
  refine and_congr_left fun hall => ?_
  rw [Bytes.size_of_ascii fun c hc => hascii (hall c hc)]

/-! ### Labels and hostnames -/

theorem spells_label (edge inner : CharClass) (most : Option ℕ) :
    (labelPattern edge inner most).Spells
      (letter edge.mem * (1 + timesOf (letter inner.mem) 0 most * letter edge.mem)) := by
  rw [← timesOf_zero_one]
  exact (spells_oneOf edge).seq
    ((((spells_oneOf inner).times 0 most).seq (spells_oneOf edge)).times 0 (some 1))

/-- The labels of DNS. -/
def dnsLabels : Language Char :=
  letter alphanumerics.mem *
    (1 + timesOf (letter alphanumericsOrDash.mem) 0 (some 61) * letter alphanumerics.mem)

theorem mem_dnsLabels {label : List Char} : label ∈ dnsLabels ↔ isDnsLabel label = true := by
  have hinner : ∀ c, alphanumerics.mem c = true → alphanumericsOrDash.mem c = true := by
    intro c hc
    rw [alphanumerics_mem, isAlphanumeric] at hc
    simp only [alphanumericsOrDash_mem, hc, Bool.true_or]
  rw [dnsLabels, mem_label hinner, alphanumerics_mem, alphanumericsOrDash_mem, isDnsLabel,
    within_zero, maxDnsLabelLength]
  simp only [Bool.and_eq_true, decide_eq_true_eq]
  constructor
  · rintro ⟨hhead, hlast, hall, hlen⟩
    have hne : label ≠ [] := by
      rintro rfl
      cases hhead
    exact ⟨⟨⟨⟨hne, by omega⟩, hhead⟩, hlast⟩, List.all_eq_true.mpr hall⟩
  · rintro ⟨⟨⟨⟨-, hlen⟩, hhead⟩, hlast⟩, hall⟩
    exact ⟨hhead, hlast, List.all_eq_true.mp hall, by omega⟩

theorem spells_dnsLabel :
    (labelPattern alphanumerics alphanumericsOrDash (some 61)).Spells dnsLabels :=
  spells_label _ _ _

theorem isDnsLabel_iff (s : String) :
    isDnsLabel s.toList = true ↔ dnsLabelSchema.Accepts s := by
  rw [dnsLabelSchema, dnsLabelPattern, TextSchema.accepts_iff spells_dnsLabel, mem_dnsLabels]

/-- What a pattern that cannot take a character spells does not hold it. -/
private theorem free {p : Pattern} {v : Language Char} (hp : p.Spells v) (sep : Char)
    (hsep : p.mayHold sep = false) : ∀ x ∈ v, ∀ c ∈ x, (c == sep) = false := by
  intro x hx c hc
  rw [beq_eq_false_iff_ne]
  rintro rfl
  rw [hp.over hx c hc] at hsep
  cases hsep

theorem isHostname_iff (s : String) : isHostname s = true ↔ hostnameSchema.Accepts s := by
  have hspells := spells_dnsLabel.seq (((spells_char '.').seq spells_dnsLabel).times 1 none)
  rw [hostnameSchema, hostnamePattern, TextSchema.accepts_iff_le hspells, isHostname]
  simp only [Bool.and_eq_true, decide_eq_true_eq, List.all_eq_true]
  rw [mem_separated_some (free spells_dnsLabel '.' (by decide)), List.splitOn_eq_splitOnP]
  simp only [mem_dnsLabels]
  constructor
  · rintro ⟨⟨hsize, hlen⟩, hlabels⟩
    exact ⟨⟨hlen, hlabels⟩, (Bytes.length_le_size s).trans hsize⟩
  · rintro ⟨⟨hlen, hlabels⟩, hsize⟩
    refine ⟨⟨?_, hlen⟩, hlabels⟩
    have hmem : s.toList ∈ dnsLabels * timesOf (letter (· == '.') * dnsLabels) 1 none := by
      rw [mem_separated_some (free spells_dnsLabel '.' (by decide))]
      simp only [mem_dnsLabels]
      exact ⟨hlen, hlabels⟩
    rwa [Bytes.size_of_ascii (hspells.ascii (by decide) hmem)]

/-! ### Repositories -/

section Repositories

/-- The parts of a registry's host. -/
def hostParts : Language Char := timesOf (letter alphanumerics.mem) 1 none

/-- The hosts with a dot, as their pattern has them. -/
def dottedHosts : Language Char :=
  hostParts * (timesOf (letter hostSeparators.mem * hostParts) 0 none *
    (letter (· == '.') * (hostParts * timesOf (letter (· == '-') * hostParts) 0 none)))

def registryHosts : Language Char := {"localhost".toList} + dottedHosts

/-- The ports of a registry, behind their colon, and no port. -/
def registryPorts : Language Char :=
  timesOf (letter (· == ':') * timesOf (letter digits.mem) 1 (some 5)) 0 (some 1)

def repositoryParts : Language Char :=
  letter alphanumerics.mem *
    (1 + timesOf (letter repositoryInside.mem) 0 none *
        letter alphanumerics.mem)

theorem spells_hostParts : (someOf alphanumerics).Spells hostParts :=
  (spells_oneOf alphanumerics).times 1 none

theorem spells_registryHosts : registryHostPattern.Spells registryHosts :=
  (spells_literal 'l' "ocalhost".toList).alt
    (spells_hostParts.seq ((((spells_oneOf _).seq spells_hostParts).times 0 none).seq
      ((spells_char '.').seq
        (spells_hostParts.seq (((spells_char '-').seq spells_hostParts).times 0 none)))))

theorem spells_registryPorts : registryPortPattern.Spells registryPorts :=
  ((spells_char ':').seq ((spells_oneOf digits).times 1 (some 5))).times 0 (some 1)

theorem spells_repositoryParts :
    (labelPattern alphanumerics repositoryInside none).Spells repositoryParts :=
  spells_label _ _ _

theorem mem_hostParts {part : List Char} :
    part ∈ hostParts ↔ (decide (part ≠ []) && part.all isAlphanumeric) = true := by
  rw [hostParts, mem_timesOf_letter, alphanumerics_mem, Bool.and_eq_true, decide_eq_true_eq,
    List.all_eq_true]
  refine and_congr_left' ?_
  rw [Within, ← List.length_pos_iff]
  exact ⟨fun h => h.1, fun h => ⟨h, fun _ hm => by cases hm⟩⟩

/-- **The host of a registry** is its parts with a dot among what is between them, or it is
`localhost`. -/
theorem isRegistryHost_iff {host : List Char} :
    isRegistryHost host = true ↔ host ∈ registryHosts := by
  let separates (c : Char) : Bool := decide (c = '.') || decide (c = '-')
  have hfree : ∀ x ∈ hostParts, ∀ c ∈ x, separates c = false := by
    intro x hx c hc
    have hdot := free spells_hostParts '.' (by decide) x hx c hc
    have hdash := free spells_hostParts '-' (by decide) x hx c hc
    rw [beq_eq_decide] at hdot hdash
    exact Bool.or_eq_false_iff.mpr ⟨hdot, hdash⟩
  have hparts : (host.splitOnP separates).all
        (fun part => decide (part ≠ []) && part.all isAlphanumeric) = true ↔
      host ∈ hostParts * timesOf (letter separates * hostParts) 0 none := by
    rw [mem_separated_any hfree]
    simp only [List.all_eq_true, mem_hostParts]
  have hdotted : host ∈ dottedHosts ↔
      host ∈ hostParts * timesOf (letter separates * hostParts) 0 none ∧
        ∃ c ∈ host, (c == '.') = true := by
    rw [dottedHosts, hostSeparators_mem]
    refine mem_marked (fun c => ?_) (free spells_hostParts '.' (by decide))
    simp only [beq_eq_decide]
  have hdot : (∃ c ∈ host, (c == '.') = true) ↔ host.contains '.' = true := by
    simp
  rw [isRegistryHost, Bool.and_eq_true, Bool.or_eq_true, decide_eq_true_eq, hparts, registryHosts,
    Language.mem_add, hdotted, hdot]
  constructor
  · rintro ⟨hlocal | hcontains, hhost⟩
    · exact .inl hlocal
    · exact .inr ⟨hhost, hcontains⟩
  · rintro (hlocal | ⟨hhost, hcontains⟩)
    · refine ⟨.inl hlocal, hparts.mp ?_⟩
      rw [show host = "localhost".toList from hlocal]
      decide +kernel
    · exact ⟨.inr hcontains, hhost⟩

theorem registryHost?_iff {registry : List Char} :
    (∃ host, registryHost? registry = some host ∧ isRegistryHost host = true) ↔
      registry ∈ registryHosts * registryPorts := by
  have hcolon : ∀ x ∈ registryHosts, ':' ∉ x := by
    intro x hx hc
    have hfree := free spells_registryHosts ':' (by decide) x hx ':' hc
    cases hfree
  have hport {port : List Char} : port ∈ timesOf (letter digits.mem) 1 (some 5) ↔
      port ≠ [] ∧ (String.ofList port).utf8ByteSize ≤ 5 ∧ port.all Char.isDigit = true := by
    rw [mem_timesOf_letter, digits_mem, ← List.length_pos_iff, List.all_eq_true, ← and_assoc]
    refine and_congr_left fun hall => ?_
    have hascii : ∀ c ∈ (String.ofList port).toList, c.toNat < 128 := by
      intro c hc
      rw [String.toList_ofList] at hc
      exact ascii_of_mayHold (p := .oneOf digits) (by decide) (by
        rw [mayHold, digits_mem]
        exact hall c hc)
    rw [Bytes.size_of_ascii hascii, String.toList_ofList]
    exact ⟨fun h => ⟨h.1, h.2 5 rfl⟩, fun h => ⟨h.1, fun _ hm => Option.some.inj hm ▸ h.2⟩⟩
  simp only [isRegistryHost_iff]
  rw [registryPorts, timesOf_zero_one, mul_add, mul_one, Language.mem_add]
  constructor
  · rintro ⟨host, hhost, hvalid⟩
    rw [registryHost?] at hhost
    split at hhost
    · next front port hsplit =>
      obtain ⟨rfl, -⟩ := TextLines.splitOnce_eq_some.mp hsplit
      split at hhost
      · next hok =>
        obtain rfl := Option.some.inj hhost
        exact .inr ⟨front, hvalid, _, ⟨[':'], ⟨':', rfl, rfl⟩, port, hport.mpr hok, rfl⟩, rfl⟩
      · cases hhost
    · obtain rfl := Option.some.inj hhost
      exact .inl hvalid
  · rintro (hhost | ⟨host, hhost, -, ⟨-, ⟨c, hc, rfl⟩, port, hp, rfl⟩, rfl⟩)
    · refine ⟨registry, ?_, hhost⟩
      rw [registryHost?, TextLines.splitOnce_eq_none.mpr (hcolon registry hhost)]
    · refine ⟨host, ?_, hhost⟩
      obtain rfl := beq_iff_eq.mp hc
      have hsplit : TextLines.splitOnce ':' (host ++ ([':'] ++ port)) = some (host, port) :=
        TextLines.splitOnce_append (hcolon host hhost) port
      simp only [registryHost?, hsplit, if_pos (hport.mp hp)]

/-- What stands before the first separator is of a language that does not have the separator. -/
theorem mem_splitOnce {sep : Char} {v w : Language Char} (hv : ∀ x ∈ v, sep ∉ x)
    {text : List Char} :
    text ∈ v * (letter (· == sep) * w) ↔
      ∃ front back, TextLines.splitOnce sep text = some (front, back) ∧ front ∈ v ∧ back ∈ w := by
  constructor
  · rintro ⟨front, hfront, -, ⟨-, ⟨c, hc, rfl⟩, back, hback, rfl⟩, rfl⟩
    obtain rfl := beq_iff_eq.mp hc
    exact ⟨front, back, TextLines.splitOnce_append (hv front hfront) back, hfront, hback⟩
  · rintro ⟨front, back, hsplit, hfront, hback⟩
    obtain ⟨rfl, -⟩ := TextLines.splitOnce_eq_some.mp hsplit
    exact ⟨front, hfront, _, cons_mem_letter_mul.mpr ⟨beq_self_eq_true sep, hback⟩, rfl⟩

theorem mem_repositoryParts {part : List Char} :
    part ∈ repositoryParts ↔ isRepositoryPart part = true := by
  have hinside : ∀ c, alphanumerics.mem c = true → repositoryInside.mem c = true := by
    intro c hc
    rw [alphanumerics_mem] at hc
    simp only [repositoryInside_mem, hc, Bool.true_or]
  rw [repositoryParts, mem_label hinside, alphanumerics_mem, repositoryInside_mem, isRepositoryPart,
    Bool.and_eq_true, Bool.and_eq_true, List.all_eq_true, and_assoc]
  have hany : Within 0 none (part.length - 2) := ⟨Nat.zero_le _, fun _ hm => by cases hm⟩
  exact ⟨fun h => ⟨h.1, h.2.1, h.2.2.1⟩, fun h => ⟨h.1, h.2.1, h.2.2, hany⟩⟩

theorem isOciRepository_iff (s : String) :
    isOciRepository s = true ↔ ociRepositorySchema.Accepts s := by
  have hspells := spells_registryHosts.seq
    (spells_registryPorts.seq (((spells_char '/').seq spells_repositoryParts).times 1 none))
  have hwords : registryHosts *
        (registryPorts * timesOf (letter (· == '/') * repositoryParts) 1 none) =
      registryHosts * registryPorts * (letter (· == '/') *
        (repositoryParts * timesOf (letter (· == '/') * repositoryParts) 0 none)) := by
    rw [timesOf_one]
    simp only [mul_assoc]
  have hslash : ∀ x ∈ registryHosts * registryPorts, '/' ∉ x := by
    intro x hx hc
    have hfree := free (spells_registryHosts.seq spells_registryPorts) '/' (by decide) x hx '/' hc
    cases hfree
  have hrepository {repository : List Char} :
      (repository.splitOn '/').all isRepositoryPart = true ↔
        repository ∈ repositoryParts * timesOf (letter (· == '/') * repositoryParts) 0 none := by
    rw [mem_separated_any (free spells_repositoryParts '/' (by decide)), List.splitOn_eq_splitOnP,
      List.all_eq_true]
    simp only [mem_repositoryParts]
  rw [ociRepositorySchema, ociRepositoryPattern, TextSchema.accepts_iff_le hspells, hwords,
    mem_splitOnce hslash]
  have hascii (h : s.toList ∈ registryHosts *
      (registryPorts * timesOf (letter (· == '/') * repositoryParts) 1 none)) :=
    Bytes.size_of_ascii (hspells.ascii (by decide) h)
  rw [hwords, mem_splitOnce hslash] at hascii
  rw [isOciRepository]
  constructor
  · intro h
    split at h
    · cases h
    · next registry repository hsplit =>
      split at h
      · cases h
      · next host hhost =>
        rw [Bool.and_eq_true, Bool.and_eq_true, decide_eq_true_eq] at h
        obtain ⟨⟨hsize, hvalid⟩, hall⟩ := h
        exact ⟨⟨registry, repository, hsplit, registryHost?_iff.mp ⟨host, hhost, hvalid⟩,
          hrepository.mp hall⟩, (Bytes.length_le_size s).trans hsize⟩
  · rintro ⟨hform, hlen⟩
    have hsize := hascii hform
    obtain ⟨registry, repository, hsplit, hregistry, hall⟩ := hform
    obtain ⟨host, hhost, hvalid⟩ := registryHost?_iff.mpr hregistry
    simp only [hsplit, hhost, hvalid, hrepository.mpr hall, hsize, hlen, decide_true, Bool.and_self]

end Repositories

/-! ### Timestamps -/

section Timestamps

/-- A character of ASCII as its byte. -/
def toByte (c : Char) : UInt8 := c.val.toUInt8

theorem toByte_eq (c : Char) : toByte c = UInt8.ofNat c.toNat := by
  rw [← UInt8.toNat_inj, UInt8.toNat_ofNat']
  exact UInt32.toNat_toUInt8 c.val

/-- A text is of a language of ASCII when its bytes are of the language of bytes. -/
theorem ofText_mem_map {v : Language Char} (hv : ∀ x ∈ v, ∀ c ∈ x, c.toNat < 128) {s : String} :
    Bytes.ofText s ∈ Language.map toByte v ↔ s.toList ∈ v := by
  constructor
  · rintro ⟨x, hx, heq⟩
    have hbytes : Bytes.ofText (String.ofList x) = Bytes.ofText s :=
      (Bytes.ofText_of_ascii (hv x hx)).trans heq
    have htext := congrArg Bytes.fromUtf8Lossy hbytes
    rw [Bytes.fromUtf8Lossy_ofText, Bytes.fromUtf8Lossy_ofText] at htext
    rwa [← htext, String.toList_ofList]
  · intro h
    have hbytes := Bytes.ofText_of_ascii (hv _ h)
    rw [String.ofList_toList] at hbytes
    exact ⟨s.toList, h, hbytes.symm⟩

theorem map_digit : Language.map toByte (letter Char.isDigit) = letter isAsciiDigit := by
  refine map_letter fun b => ?_
  have hdigits : ∀ d < 10, (Nat.digitChar d).isDigit = true ∧
      toByte (Nat.digitChar d) = UInt8.ofNat (48 + d) := by decide
  rw [isAsciiDigit, Bool.and_eq_true, decide_eq_true_eq, decide_eq_true_eq, UInt8.le_iff_toNat_le,
    UInt8.le_iff_toNat_le]
  constructor
  · rintro ⟨hleast, hmost⟩
    change 48 ≤ b.toNat at hleast
    change b.toNat ≤ 57 at hmost
    obtain ⟨hdigit, hbyte⟩ := hdigits (b.toNat - 48) (by omega)
    rw [Nat.add_sub_cancel' hleast, UInt8.ofNat_toNat] at hbyte
    exact ⟨_, hdigit, hbyte⟩
  · rintro ⟨c, hc, rfl⟩
    rw [Char.isDigit, Bool.and_eq_true, decide_eq_true_eq, decide_eq_true_eq] at hc
    have hleast : 48 ≤ c.toNat := hc.1
    have hmost : c.toNat ≤ 57 := hc.2
    rw [toByte_eq, UInt8.toNat_ofNat']
    change 48 ≤ c.toNat % 256 ∧ c.toNat % 256 ≤ 57
    omega

theorem map_char (c : Char) :
    Language.map toByte (letter (· == c)) = letter (· == toByte c) := by
  refine map_letter fun b => ⟨fun hb => ⟨c, beq_self_eq_true c, (beq_iff_eq.mp hb).symm⟩, ?_⟩
  rintro ⟨d, hd, rfl⟩
  rw [beq_iff_eq.mp hd]
  exact beq_self_eq_true _

theorem charAt_iff {bytes : List UInt8} {i : ℕ} {c : Char} {m : Language UInt8} :
    bytes.drop i ∈ letter (· == toByte c) * m ↔
      charAt bytes i c = true ∧ bytes.drop (i + 1) ∈ m := by
  rw [charAt, beq_iff_eq, ← toByte_eq]
  by_cases hi : i < bytes.length
  · rw [List.drop_eq_getElem_cons hi, cons_mem_letter_mul, beq_iff_eq, List.getElem?_eq_getElem hi,
      Option.some.injEq]
  · rw [List.drop_of_length_le (Nat.le_of_not_lt hi), nil_mem_letter_mul,
      List.getElem?_eq_none (Nat.le_of_not_lt hi)]
    simp

theorem digitsIn_iff {bytes : List UInt8} {i n : ℕ} (hn : 0 < n) {m : Language UInt8} :
    bytes.drop i ∈ timesOf (letter isAsciiDigit) n (some n) * m ↔
      digitsIn bytes i (i + n) = true ∧ bytes.drop (i + n) ∈ m := by
  rw [digitsIn, Nat.add_sub_cancel_left, Bool.and_eq_true, decide_eq_true_eq, List.all_eq_true]
  constructor
  · rintro ⟨x, hx, y, hy, heq⟩
    obtain ⟨hlen, hx⟩ := mem_timesOf_letter.mp hx
    have hlen : x.length = n := Nat.le_antisymm (hlen.2 n rfl) hlen.1
    have htake : (bytes.drop i).take n = x := by rw [← heq, List.take_left' hlen]
    have hdrop : bytes.drop (i + n) = y := by rw [← List.drop_drop, ← heq, List.drop_left' hlen]
    have hle := congrArg List.length heq
    rw [List.length_append, List.length_drop, hlen] at hle
    rw [htake, hdrop]
    exact ⟨⟨by omega, hx⟩, hy⟩
  · rintro ⟨⟨hle, hall⟩, hm⟩
    refine ⟨(bytes.drop i).take n, mem_timesOf_letter.mpr ⟨?_, hall⟩, bytes.drop (i + n), hm, ?_⟩
    · rw [List.length_take, List.length_drop, Nat.min_eq_left (by omega)]
      exact ⟨le_rfl, fun _ h => Option.some.inj h ▸ le_rfl⟩
    · rw [← List.drop_drop]
      exact List.take_append_drop n _

/-- The bytes of so many digits. -/
def byteDigits (n : ℕ) : Language UInt8 := timesOf (letter isAsciiDigit) n (some n)

/-- The byte of a character. -/
def byteOf (c : Char) : Language UInt8 := letter (· == toByte c)

/-- The zones of timestamps, in bytes. -/
def zoneBytes : Language UInt8 :=
  byteOf 'Z' + (byteOf '+' + byteOf '-') * (byteDigits 2 * (byteOf ':' * byteDigits 2))

/-- At one index stands one character. -/
private theorem charAt_false {bytes : List UInt8} {i : ℕ} {c d : Char}
    (hc : charAt bytes i c = true) (hne : toByte c ≠ toByte d) : charAt bytes i d = false := by
  rw [charAt, beq_iff_eq, ← toByte_eq] at hc
  rw [charAt, hc, ← toByte_eq]
  exact beq_eq_false_iff_ne.mpr fun h => hne (Option.some.inj h)

private theorem lt_of_charAt {bytes : List UInt8} {i : ℕ} {c : Char}
    (hc : charAt bytes i c = true) : i < bytes.length := by
  rw [charAt, beq_iff_eq] at hc
  exact (List.getElem?_eq_some_iff.mp hc).1

theorem isZone_iff {bytes : List UInt8} {cursor : ℕ} :
    isZone bytes cursor = true ↔ bytes.drop cursor ∈ zoneBytes := by
  have hwords : zoneBytes = byteOf 'Z' * 1 +
      (byteOf '+' * (byteDigits 2 * (byteOf ':' * (byteDigits 2 * 1))) +
        byteOf '-' * (byteDigits 2 * (byteOf ':' * (byteDigits 2 * 1)))) := by
    rw [zoneBytes, add_mul, mul_one, mul_one]
  rw [hwords]
  simp only [Language.mem_add, byteOf, byteDigits, charAt_iff, digitsIn_iff (Nat.succ_pos 1),
    Language.mem_one, List.drop_eq_nil_iff]
  rw [isZone]
  have hcolon : (digitsIn bytes (cursor + 1) (cursor + 3) && charAt bytes (cursor + 3) ':' &&
      digitsIn bytes (cursor + 4) (cursor + 6) && decide (cursor + 6 = bytes.length)) = true ↔
      digitsIn bytes (cursor + 1) (cursor + 1 + 2) = true ∧
        charAt bytes (cursor + 1 + 2) ':' = true ∧
          digitsIn bytes (cursor + 1 + 2 + 1) (cursor + 1 + 2 + 1 + 2) = true ∧
            bytes.length ≤ cursor + 1 + 2 + 1 + 2 := by
    simp only [Bool.and_eq_true, decide_eq_true_eq, and_assoc]
    refine and_congr_right fun _ => and_congr_right fun _ => and_congr_right fun hdigits => ?_
    rw [digitsIn, Bool.and_eq_true, decide_eq_true_eq] at hdigits
    omega
  rw [← hcolon]
  cases hz : charAt bytes cursor 'Z' with
  | true =>
    have hlt := lt_of_charAt hz
    rw [if_pos rfl, decide_eq_true_eq, charAt_false hz (by decide), charAt_false hz (by decide)]
    simp only [Bool.false_eq_true, false_and, or_false, true_and]
    omega
  | false =>
    rw [if_neg Bool.false_ne_true]
    simp only [Bool.false_eq_true, false_and, false_or, ← or_and_right, ← Bool.or_eq_true]
    split
    · next h => exact (and_iff_right h).symm
    · next h => exact iff_of_false Bool.false_ne_true fun h' => h h'.1

/-- What follows the digits of a fraction is no digit, so that their number is settled. -/
theorem fraction_iff {bytes : List UInt8} {least most : ℕ} {m : Language UInt8}
    (hm : ∀ x ∈ m, x.head?.any isAsciiDigit = false) :
    bytes ∈ timesOf (letter isAsciiDigit) least (some most) * m ↔
      (least ≤ (bytes.takeWhile isAsciiDigit).length ∧
        (bytes.takeWhile isAsciiDigit).length ≤ most) ∧
          bytes.drop (bytes.takeWhile isAsciiDigit).length ∈ m := by
  constructor
  · rintro ⟨x, hx, y, hy, rfl⟩
    obtain ⟨hlen, hx⟩ := mem_timesOf_letter.mp hx
    have htake : (x ++ y).takeWhile isAsciiDigit = x := by
      rw [List.takeWhile_append_of_pos hx]
      cases y with
      | nil => simp
      | cons b y =>
        have hb : isAsciiDigit b = false := hm _ hy
        simp [hb]
    change (least ≤ ((x ++ y).takeWhile isAsciiDigit).length ∧ _) ∧ (x ++ y).drop _ ∈ m
    rw [htake, List.drop_left]
    exact ⟨⟨hlen.1, hlen.2 most rfl⟩, hy⟩
  · rintro ⟨⟨hleast, hmost⟩, hrest⟩
    refine ⟨bytes.takeWhile isAsciiDigit, mem_timesOf_letter.mpr ⟨⟨hleast, fun _ h => ?_⟩, ?_⟩, _,
      hrest, ?_⟩
    · rwa [← Option.some.inj h]
    · exact List.all_eq_true.mp List.all_takeWhile
    · exact List.prefix_iff_eq_append.mp (List.takeWhile_prefix _)

/-- So many digits. -/
def digitWords (n : ℕ) : Language Char := timesOf (letter digits.mem) n (some n)

theorem spells_digitsOf (n : ℕ) : (digitsOf n).Spells (digitWords n) :=
  (spells_oneOf digits).times n (some n)

/-- The end of a timestamp, from its fraction on. -/
def timestampEnds : Language Char :=
  timesOf (letter (· == '.') * timesOf (letter digits.mem) 1 (some 9)) 0 (some 1) *
    (letter (· == 'Z') + letter signs.mem * (digitWords 2 * (letter (· == ':') * digitWords 2)))

def timestamps : Language Char :=
  digitWords 4 * (letter (· == '-') * (digitWords 2 * (letter (· == '-') * (digitWords 2 *
    (letter (· == 'T') * (digitWords 2 * (letter (· == ':') * (digitWords 2 *
      (letter (· == ':') * (digitWords 2 * timestampEnds))))))))))

theorem spells_timestamps : ∃ p, timestampPattern = anchored p ∧ p.Spells timestamps ∧
    p.isAscii = true := by
  have hends := (((spells_char '.').seq ((spells_oneOf digits).times 1 (some 9))).times 0
    (some 1)).seq ((spells_char 'Z').alt ((spells_oneOf signs).seq
      ((spells_digitsOf 2).seq ((spells_char ':').seq (spells_digitsOf 2)))))
  have h (c : Char) {p : Pattern} {v : Language Char} (hp : p.Spells v) :=
    (spells_char c).seq ((spells_digitsOf 2).seq hp)
  refine ⟨_, rfl, (spells_digitsOf 4).seq (h '-' (h '-' (h 'T' (h ':' (h ':' hends))))), by decide⟩

theorem map_digitWords (n : ℕ) : Language.map toByte (digitWords n) = byteDigits n := by
  rw [digitWords, map_timesOf, digits_mem, map_digit, byteDigits]

theorem map_timestampEnds : Language.map toByte timestampEnds =
    zoneBytes + byteOf '.' * (timesOf (letter isAsciiDigit) 1 (some 9) * zoneBytes) := by
  have hsigns : (letter signs.mem : Language Char) = letter (· == '+') + letter (· == '-') := by
    have hmem : signs.mem = fun c => c == '+' || c == '-' := by
      funext c
      simp only [signs, mem_ranges, List.any_cons, List.any_nil, range_self, Bool.or_false,
        beq_eq_decide]
    rw [hmem]
    exact letter_or
  rw [timestampEnds, timesOf_zero_one, hsigns]
  simp only [map_mul, map_add, map_one, map_timesOf, map_digitWords, digits_mem, map_digit,
    map_char]
  rw [add_mul, one_mul, mul_assoc]
  rfl

/-- What a zone begins with is no digit. -/
private theorem zone_head : ∀ x ∈ zoneBytes, x.head?.any isAsciiDigit = false := by
  intro x hx
  have hbyte {c : Char} {m : Language UInt8} (hc : isAsciiDigit (toByte c) = false)
      (hx : x ∈ byteOf c * m) : x.head?.any isAsciiDigit = false := by
    obtain ⟨b, y, rfl, hb, -⟩ := mem_letter_mul.mp hx
    rw [List.head?_cons, Option.any_some, beq_iff_eq.mp hb, hc]
  rw [zoneBytes, add_mul, Language.mem_add, Language.mem_add] at hx
  rcases hx with hx | hx | hx
  · rw [← mul_one (byteOf 'Z')] at hx
    exact hbyte (by decide) hx
  · exact hbyte (by decide) hx
  · exact hbyte (by decide) hx

/-- The end of a timestamp as the scanner reads it: the fraction where there is a dot, and the
zone. -/
theorem ends_iff (bytes : List UInt8) (cursor : ℕ) :
    (if charAt bytes cursor '.' = true then
        let fraction := ((bytes.drop (cursor + 1)).takeWhile isAsciiDigit).length
        if fraction = 0 || 9 < fraction then false else isZone bytes (cursor + 1 + fraction)
      else isZone bytes cursor) = true ↔
      bytes.drop cursor ∈ zoneBytes ∨ charAt bytes cursor '.' = true ∧
        bytes.drop (cursor + 1) ∈ timesOf (letter isAsciiDigit) 1 (some 9) * zoneBytes := by
  rw [fraction_iff zone_head, ← isZone_iff, List.drop_drop, ← isZone_iff]
  cases hdot : charAt bytes cursor '.' with
  | true =>
    have hzone : isZone bytes cursor = false := by
      rw [isZone, charAt_false hdot (by decide), charAt_false hdot (by decide),
        charAt_false hdot (by decide)]
      rfl
    rw [if_pos rfl, hzone]
    simp only [Bool.false_eq_true, false_or, true_and]
    split
    · next h =>
      rw [Bool.or_eq_true, decide_eq_true_eq, decide_eq_true_eq] at h
      exact iff_of_false Bool.false_ne_true fun h' => by omega
    · next h =>
      rw [Bool.or_eq_true, decide_eq_true_eq, decide_eq_true_eq] at h
      exact (and_iff_right (by omega)).symm
  | false =>
    rw [if_neg Bool.false_ne_true]
    simp only [Bool.false_eq_true, false_and, or_false]

/-- A zone takes six bytes at most, and a fraction ten. -/
theorem length_le_of_ends {bytes : List UInt8} {cursor : ℕ}
    (h : bytes.drop cursor ∈ zoneBytes ∨ charAt bytes cursor '.' = true ∧
      bytes.drop (cursor + 1) ∈ timesOf (letter isAsciiDigit) 1 (some 9) * zoneBytes) :
    bytes.length ≤ cursor + 16 := by
  have hzone {i : ℕ} (h : bytes.drop i ∈ zoneBytes) : bytes.length ≤ i + 6 := by
    rw [← isZone_iff, isZone] at h
    split at h
    · rw [decide_eq_true_eq] at h
      omega
    · split at h
      · rw [Bool.and_eq_true, decide_eq_true_eq] at h
        omega
      · cases h
  rcases h with h | ⟨-, h⟩
  · have := hzone h
    omega
  · rw [fraction_iff zone_head, List.drop_drop] at h
    have := hzone h.2
    omega

/-- **The scanner of timestamps** takes the bytes of the texts of its pattern. -/
theorem isTimestamp_iff (s : String) : isTimestamp s = true ↔ timestampSchema.Accepts s := by
  obtain ⟨p, hp, hspells, hascii⟩ := spells_timestamps
  have hfour : 0 < 4 := by decide
  have htwo : 0 < 2 := by decide
  rw [timestampSchema, hp, TextSchema.accepts_iff hspells,
    ← ofText_mem_map fun x hx => hspells.ascii hascii hx, ← List.drop_zero (l := Bytes.ofText s)]
  -- the pattern, index by index
  simp only [timestamps, map_mul, map_digitWords, map_char, map_timestampEnds, byteDigits, byteOf,
    charAt_iff, digitsIn_iff hfour, digitsIn_iff htwo, Language.mem_add, Nat.reduceAdd]
  rw [isTimestamp]
  simp only [← ends_iff _ 19]
  generalize Bytes.ofText s = bytes
  by_cases hlong : maxTimestampLength < bytes.length
  · rw [if_pos hlong]
    refine iff_of_false Bool.false_ne_true ?_
    rintro ⟨-, -, -, -, -, -, -, -, -, -, -, hends⟩
    have hlen := length_le_of_ends ((ends_iff bytes 19).mp hends)
    rw [maxTimestampLength] at hlong
    omega
  · rw [if_neg hlong]
    simp only [← Bool.and_eq_true, ← Bool.and_assoc]
    split
    · next h => rw [Bool.not_eq_true'] at h; rw [h, Bool.false_and]
    · next h => rw [Bool.not_eq_true', Bool.not_eq_false] at h; rw [h, Bool.true_and]

end Timestamps

/-- **The checks of the wire types say what their patterns say**: an identifier, a name of a port,
a digest, a timestamp, a label, a hostname and a repository are taken by their check when their
schema accepts them, and only then. -/
theorem checks_agree (s : String) :
    (isIdentifier s = true ↔ identifierSchema.Accepts s) ∧
      (isPortName s = true ↔ portNameSchema.Accepts s) ∧
        (isSha256Hex s = true ↔ sha256DigestSchema.Accepts s) ∧
          (isTimestamp s = true ↔ timestampSchema.Accepts s) ∧
            (isDnsLabel s.toList = true ↔ dnsLabelSchema.Accepts s) ∧
              (isHostname s = true ↔ hostnameSchema.Accepts s) ∧
                (isOciRepository s = true ↔ ociRepositorySchema.Accepts s) :=
  ⟨isIdentifier_iff s, isPortName_iff s, isSha256Hex_iff s, isTimestamp_iff s, isDnsLabel_iff s,
    isHostname_iff s, isOciRepository_iff s⟩

end Nibrunner

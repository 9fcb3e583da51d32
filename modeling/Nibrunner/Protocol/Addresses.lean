import Nibrunner.Protocol.Schema

/-!
# Addresses with a sign

An octet of an address is read by the integer parser of the standard library, which takes a plus
before the digits; the published pattern does not, and neither does the parser of addresses behind
`addr`, which is called as if it could not fail. So an address with a sign is accepted and makes
`addr` panic, and it has the MAC of the address without the sign (`meets_pattern_iff`). Every other
address is as the pattern has it.
-/

namespace Nibrunner

open Patterns Pattern CharClass Words Schema

/-! ### The octets of the pattern -/

/-- The octets of the pattern. -/
def ipv4Octets : Language Char :=
  letter (· == '2') * (letter (· == '5') * letter (CharClass.mk false [('0', '5')]).mem) +
    (letter (· == '2') * (letter (CharClass.mk false [('0', '4')]).mem * letter digits.mem) +
      (letter (· == '1') * timesOf (letter digits.mem) 2 (some 2) +
        (letter (CharClass.mk false [('1', '9')]).mem * letter digits.mem + letter digits.mem)))

theorem spells_ipv4Octet : ipv4Octet.Spells ipv4Octets :=
  ((spells_char '2').seq ((spells_char '5').seq (spells_oneOf _))).alt
    (((spells_char '2').seq ((spells_oneOf _).seq (spells_oneOf digits))).alt
      (((spells_char '1').seq ((spells_oneOf digits).times 2 (some 2))).alt
        (((spells_oneOf _).seq (spells_oneOf digits)).alt (spells_oneOf digits))))

private theorem range_iff (a b c : Char) : (CharClass.mk false [(a, b)]).mem c = true ↔
    a.toNat ≤ c.toNat ∧ c.toNat ≤ b.toNat := by
  simp only [mem_ranges, List.any_cons, List.any_nil, Bool.or_false, Bool.and_eq_true,
    decide_eq_true_eq]
  exact Iff.rfl

private theorem char_iff (a c : Char) : (c == a) = true ↔ c.toNat = a.toNat := by
  rw [beq_iff_eq, Char.toNat_inj]

private theorem digit_iff (c : Char) : c.isDigit = true ↔ 48 ≤ c.toNat ∧ c.toNat ≤ 57 := by
  rw [Char.isDigit, Bool.and_eq_true, decide_eq_true_eq, decide_eq_true_eq]
  exact Iff.rfl

private theorem eq_char_iff (a c : Char) : c = a ↔ c.toNat = a.toNat := Char.toNat_inj.symm

/-- **An octet of the pattern** is one as the standard library reads it. -/
theorem mem_ipv4Octets {octet : List Char} :
    octet ∈ ipv4Octets ↔ Ipv4Address.isAddrOctet octet = true := by
  have hlast (p : Char → Bool) : letter p = letter p * 1 := (mul_one _).symm
  rw [ipv4Octets, timesOf_exact, pow_two, hlast digits.mem,
    hlast (CharClass.mk false [('0', '5')]).mem]
  simp only [Language.mem_add, mul_assoc, one_mul]
  -- one case for each number of characters; in each, the codes of the characters are compared
  rcases octet with - | ⟨a, - | ⟨b, - | ⟨c, - | ⟨d, rest⟩⟩⟩⟩ <;>
    simp only [nil_mem_letter_mul, cons_mem_letter_mul, Language.mem_one, digits, range_iff,
      char_iff, Ipv4Address.isAddrOctet, Bool.and_eq_true, decide_eq_true_eq, Bool.or_eq_true,
      List.all_cons, List.all_nil, digit_iff, Nat.ofDigitChars_cons, Nat.ofDigitChars_nil,
      List.cons.injEq, reduceCtorEq, List.head?_cons, Option.some.injEq, List.length_cons,
      List.length_nil, eq_char_iff, Char.reduceToNat, ne_eq, and_false, and_true, false_and,
      or_false, false_or, true_and, not_true_eq_false, not_false_eq_true]
  · omega
  · omega
  · omega
  · exact iff_of_false id fun h => by omega

/-- The octets of an address, as its text has them. -/
def octetsOf (value : String) : List (List Char) := value.toList.splitOn '.'

theorem accepts_ipv4Address (value : String) : ipv4AddressSchema.Accepts value ↔
    (octetsOf value).length = 4 ∧
      ∀ octet ∈ octetsOf value, Ipv4Address.isAddrOctet octet = true := by
  have hspells := ((spells_ipv4Octet.seq (spells_char '.')).times 3 (some 3)).seq spells_ipv4Octet
  have hwords : timesOf (ipv4Octets * letter (· == '.')) 3 (some 3) * ipv4Octets =
      ipv4Octets * (letter (· == '.') * ipv4Octets) ^ 3 := by
    rw [timesOf_exact]
    simp only [pow_succ, pow_zero, one_mul, mul_assoc]
  have hfree : ∀ octet ∈ ipv4Octets, ∀ c ∈ octet, (c == '.') = false := by
    intro octet h c hc
    have hhold := spells_ipv4Octet.over h c hc
    rw [beq_eq_false_iff_ne]
    rintro rfl
    exact absurd hhold (by decide)
  rw [ipv4AddressSchema, ipv4Pattern, TextSchema.accepts_iff hspells, hwords, mem_separated hfree,
    octetsOf, List.splitOn_eq_splitOnP]
  simp only [mem_ipv4Octets]

/-! ### What the check takes -/

/-- A plus and one digit or two. -/
def isSignedOctet (octet : List Char) : Bool :=
  octet.head? = some '+' && octet.tail ≠ [] && octet.length ≤ 3 && octet.tail.all Char.isDigit

/-- What the check asks of one octet. -/
def isCheckedOctet (octet : List Char) : Bool :=
  octet ≠ [] && (String.ofList octet).utf8ByteSize ≤ 3 && (parseU8 octet).isSome &&
    (octet = ['0'] || octet.head? ≠ some '0')

private theorem size_of_digits {chars : List Char} (h : ∀ c ∈ chars, c = '+' ∨ c.isDigit = true) :
    (String.ofList chars).utf8ByteSize = chars.length := by
  have hascii : ∀ c ∈ (String.ofList chars).toList, c.toNat < 128 := by
    intro c hc
    rw [String.toList_ofList] at hc
    rcases h c hc with rfl | hdigit
    · decide
    · have hcode := (digit_iff c).mp hdigit
      omega
  rw [Bytes.size_of_ascii hascii, String.toList_ofList]

private theorem parseU8_plus (rest : List Char) : (parseU8 ('+' :: rest)).isSome = true ↔
    rest ≠ [] ∧ rest.all Char.isDigit = true ∧ Nat.ofDigitChars 10 rest 0 < 256 := by
  rw [parseU8, List.head?_cons, if_pos rfl, List.tail_cons]
  split
  · next h => exact iff_of_true rfl h
  · next h => exact iff_of_false Bool.false_ne_true h

private theorem parseU8_plain {text : List Char} (h : text.head? ≠ some '+') :
    (parseU8 text).isSome = true ↔
      text ≠ [] ∧ text.all Char.isDigit = true ∧ Nat.ofDigitChars 10 text 0 < 256 := by
  rw [parseU8, if_neg h]
  split
  · next h => exact iff_of_true rfl h
  · next h => exact iff_of_false Bool.false_ne_true h

/-- Two digits make less than a hundred. -/
private theorem ofDigitChars_lt {digits : List Char} (hlen : digits.length ≤ 2)
    (hall : digits.all Char.isDigit = true) : Nat.ofDigitChars 10 digits 0 < 256 := by
  rcases digits with - | ⟨a, - | ⟨b, - | ⟨c, rest⟩⟩⟩
  · decide
  all_goals
    simp only [List.all_cons, List.all_nil, Bool.and_eq_true, digit_iff, and_true] at hall
    simp only [Nat.ofDigitChars_cons, Nat.ofDigitChars_nil, Char.reduceToNat]
  · omega
  · omega
  · simp only [List.length_cons] at hlen
    omega

/-- **An octet that passes the check** is one of the pattern, or it has a sign. -/
theorem isCheckedOctet_iff {octet : List Char} : isCheckedOctet octet = true ↔
    Ipv4Address.isAddrOctet octet = true ∨ isSignedOctet octet = true := by
  rw [isCheckedOctet, Ipv4Address.isAddrOctet, isSignedOctet]
  simp only [Bool.and_eq_true, decide_eq_true_eq]
  by_cases hsign : octet.head? = some '+'
  · obtain ⟨rest, rfl⟩ := List.head?_eq_some_iff.mp hsign
    rw [parseU8_plus]
    constructor
    · rintro ⟨⟨⟨-, hsize⟩, hne, hall, -⟩, -⟩
      refine .inr ⟨⟨⟨rfl, hne⟩, ?_⟩, hall⟩
      rwa [← size_of_digits]
      exact fun c hc => (List.mem_cons.mp hc).imp_right fun hc => List.all_eq_true.mp hall c hc
    · rintro (⟨⟨⟨-, hall⟩, -⟩, -⟩ | ⟨⟨⟨-, hne⟩, hlen⟩, hall⟩)
      · rw [List.all_cons, Bool.and_eq_true] at hall
        exact absurd hall.1 (by decide)
      · rw [List.tail_cons] at hne hall
        refine ⟨⟨⟨List.cons_ne_nil _ _, ?_⟩, hne, hall, ?_⟩, by simp⟩
        · rwa [size_of_digits]
          exact fun c hc => (List.mem_cons.mp hc).imp_right fun hc => List.all_eq_true.mp hall c hc
        · exact ofDigitChars_lt (Nat.le_of_succ_le_succ hlen) hall
  · rw [parseU8_plain hsign]
    constructor
    · rintro ⟨⟨⟨hne, hsize⟩, -, hall, hvalue⟩, hzero⟩
      refine .inl ⟨⟨⟨⟨hne, ?_⟩, hall⟩, hzero⟩, hvalue⟩
      rwa [← size_of_digits]
      exact fun c hc => .inr (List.all_eq_true.mp hall c hc)
    · rintro (⟨⟨⟨⟨hne, hlen⟩, hall⟩, hzero⟩, hvalue⟩ | ⟨⟨⟨hplus, -⟩, -⟩, -⟩)
      · refine ⟨⟨⟨hne, ?_⟩, hne, hall, hvalue⟩, hzero⟩
        rwa [size_of_digits]
        exact fun c hc => .inr (List.all_eq_true.mp hall c hc)
      · exact absurd hplus hsign

/-- Four octets of three bytes at most, and the dots between them. -/
private theorem size_le_of_octets {value : String} (hfour : (octetsOf value).length = 4)
    (hsize : ∀ octet ∈ octetsOf value, (String.ofList octet).utf8ByteSize ≤ 3) :
    value.utf8ByteSize ≤ 15 := by
  obtain ⟨a, b, c, d, heq⟩ := List.length_eq_four.mp hfour
  have hjoin : ['.'].intercalate (octetsOf value) = value.toList := List.intercalate_splitOn '.'
  rw [heq] at hjoin hsize
  simp only [List.forall_mem_cons, List.not_mem_nil, false_implies, implies_true, and_true] at hsize
  have hvalue : value = String.ofList a ++ "." ++ String.ofList b ++ "." ++ String.ofList c ++
      "." ++ String.ofList d := by
    rw [← String.toList_inj, ← hjoin]
    simp [List.intercalate]
  have hdot : ".".utf8ByteSize = 1 := by decide
  rw [hvalue]
  simp only [String.utf8ByteSize_append, hdot]
  omega

/-- **An address that passes the check** has four octets that do; the limit on its length is met
by then. -/
theorem isIpv4_iff (value : String) : isIpv4 value = true ↔
    (octetsOf value).length = 4 ∧ ∀ octet ∈ octetsOf value,
      Ipv4Address.isAddrOctet octet = true ∨ isSignedOctet octet = true := by
  simp only [← isCheckedOctet_iff]
  rw [isIpv4]
  simp only [Bool.and_eq_true, decide_eq_true_eq, List.all_eq_true, ← octetsOf.eq_1]
  constructor
  · rintro ⟨⟨⟨-, hfour⟩, hoctets⟩, hzeros⟩
    refine ⟨hfour, fun octet h => ?_⟩
    rw [isCheckedOctet, Bool.and_eq_true, Bool.and_eq_true, Bool.and_eq_true, decide_eq_true_eq,
      decide_eq_true_eq]
    exact ⟨hoctets octet h, hzeros octet h⟩
  · rintro ⟨hfour, hall⟩
    simp only [isCheckedOctet, Bool.and_eq_true, decide_eq_true_eq] at hall
    refine ⟨⟨⟨?_, hfour⟩, fun octet h => (hall octet h).1⟩, fun octet h => (hall octet h).2⟩
    exact size_le_of_octets hfour fun octet h => (hall octet h).1.1.2

/-! ### What a sign does -/

/-- An address in whose octets there is a sign: there are four, each as the pattern has it or with a
sign before one digit or two, and one has a sign. -/
def IsSigned (value : String) : Prop :=
  ((octetsOf value).length = 4 ∧ ∀ octet ∈ octetsOf value,
      Ipv4Address.isAddrOctet octet = true ∨ isSignedOctet octet = true) ∧
    ∃ octet ∈ octetsOf value, isSignedOctet octet = true

theorem not_isAddrOctet_of_isSigned {octet : List Char} (h : isSignedOctet octet = true) :
    Ipv4Address.isAddrOctet octet = false := by
  simp only [isSignedOctet, Bool.and_eq_true, decide_eq_true_eq] at h
  obtain ⟨rest, rfl⟩ := List.head?_eq_some_iff.mp h.1.1.1
  rw [← Bool.not_eq_true]
  intro haddr
  simp only [Ipv4Address.isAddrOctet, Bool.and_eq_true, List.all_cons] at haddr
  exact absurd haddr.1.1.2.1 (by decide)

/-- An address that passes the check has no sign when all of its octets are as the pattern has
them. -/
theorem all_isAddrOctet_iff {value : String} (hvalid : isIpv4 value = true) :
    (∀ octet ∈ octetsOf value, Ipv4Address.isAddrOctet octet = true) ↔ ¬IsSigned value := by
  have hcheck := (isIpv4_iff value).mp hvalid
  constructor
  · rintro hall ⟨-, octet, hmem, hsigned⟩
    have haddr := hall octet hmem
    rw [not_isAddrOctet_of_isSigned hsigned] at haddr
    cases haddr
  · intro hunsigned octet hmem
    refine (hcheck.2 octet hmem).resolve_right fun hsigned => hunsigned ⟨hcheck, octet, hmem, ?_⟩
    exact hsigned

theorem addr_ne_none (address : Ipv4Address) :
    address.addr ≠ none ↔ ¬IsSigned address.text := by
  rw [← all_isAddrOctet_iff address.valid]
  obtain ⟨hfour, -⟩ := (isIpv4_iff address.text).mp address.valid
  have hvalid := address.valid
  simp only [isIpv4, Bool.and_eq_true, decide_eq_true_eq] at hvalid
  have hlen : address.text.utf8ByteSize ≤ 15 := hvalid.1.1.1
  rw [Ipv4Address.addr]
  simp only [← octetsOf.eq_1, hlen, hfour, true_and, List.all_eq_true]
  split
  · next h => exact iff_of_true (Option.some_ne_none _) h
  · next h => exact iff_of_false (fun h' => h' rfl) h

/-- **An address without a sign** is as its pattern has it and does not make `addr` panic, and no
address with one is. -/
theorem agrees_iff (value : String) :
    ((Ipv4Address.parse? value).isSome = true ↔ ipv4AddressSchema.Accepts value) ∧
      (∀ address, Ipv4Address.parse? value = some address → address.addr ≠ none) ↔
    ¬IsSigned value := by
  rw [accepts_ipv4Address]
  by_cases hvalid : isIpv4 value = true
  · have hparse : Ipv4Address.parse? value = some ⟨value, hvalid⟩ := dif_pos hvalid
    rw [hparse, ← all_isAddrOctet_iff hvalid]
    constructor
    · exact fun h => (h.1.mp rfl).2
    · refine fun hall => ⟨iff_of_true rfl ⟨((isIpv4_iff value).mp hvalid).1, hall⟩, ?_⟩
      rintro address heq
      rw [addr_ne_none, ← Option.some.inj heq, ← all_isAddrOctet_iff hvalid]
      exact hall
  · have hparse : Ipv4Address.parse? value = none := dif_neg hvalid
    rw [hparse]
    refine iff_of_true ⟨iff_of_false Bool.false_ne_true fun h => hvalid ?_, fun _ h => ?_⟩
      fun h => hvalid ((isIpv4_iff value).mpr h.1)
    · exact (isIpv4_iff value).mpr ⟨h.1, fun octet hmem => .inl (h.2 octet hmem)⟩
    · cases h

theorem isAddrOctet_toDigits :
    ∀ n < 256, Ipv4Address.isAddrOctet (Nat.toDigits 10 n) = true := by
  decide +kernel

/-- What an octet of the pattern looks like: digits, three at most, the first of more than one not
zero. -/
private theorem isAddrOctet_cases {octet : List Char} (h : Ipv4Address.isAddrOctet octet = true) :
    (∃ a, octet = [a] ∧ 48 ≤ a.toNat ∧ a.toNat ≤ 57) ∨
      (∃ a b, octet = [a, b] ∧ (49 ≤ a.toNat ∧ a.toNat ≤ 57) ∧ 48 ≤ b.toNat ∧ b.toNat ≤ 57) ∨
        ∃ a b c, octet = [a, b, c] ∧ (49 ≤ a.toNat ∧ a.toNat ≤ 57) ∧
          (48 ≤ b.toNat ∧ b.toNat ≤ 57) ∧ 48 ≤ c.toNat ∧ c.toNat ≤ 57 := by
  simp only [Ipv4Address.isAddrOctet, Bool.and_eq_true, decide_eq_true_eq, Bool.or_eq_true] at h
  obtain ⟨⟨⟨⟨hne, hlen⟩, hall⟩, hzero⟩, -⟩ := h
  rcases octet with - | ⟨a, - | ⟨b, - | ⟨c, - | ⟨d, rest⟩⟩⟩⟩
  · exact absurd rfl hne
  all_goals
    simp only [List.all_cons, List.all_nil, Bool.and_eq_true, digit_iff, List.cons.injEq,
      reduceCtorEq, List.head?_cons, Option.some.injEq, eq_char_iff, Char.reduceToNat, ne_eq,
      and_true, and_false, false_or] at hall hzero
  · exact .inl ⟨a, rfl, hall⟩
  · exact .inr (.inl ⟨a, b, rfl, by omega⟩)
  · exact .inr (.inr ⟨a, b, c, rfl, by omega⟩)
  · simp only [List.length_cons] at hlen
    omega

/-- **An octet of the pattern is read back off its value.** -/
theorem eq_of_value {x y : List Char} (hx : Ipv4Address.isAddrOctet x = true)
    (hy : Ipv4Address.isAddrOctet y = true)
    (h : Nat.ofDigitChars 10 x 0 = Nat.ofDigitChars 10 y 0) : x = y := by
  rcases isAddrOctet_cases hx with ⟨a, rfl, ha⟩ | ⟨a, b, rfl, ha⟩ | ⟨a, b, c, rfl, ha⟩ <;>
    rcases isAddrOctet_cases hy with ⟨d, rfl, hd⟩ | ⟨d, e, rfl, hd⟩ | ⟨d, e, f, rfl, hd⟩ <;>
      simp only [Nat.ofDigitChars_cons, Nat.ofDigitChars_nil, Char.reduceToNat, List.cons.injEq,
        reduceCtorEq, eq_char_iff, and_true, and_false] at h ⊢ <;>
      omega

/-- An octet as the pattern has it is the decimal digits of a number below 256. -/
theorem exists_toDigits {octet : List Char} (h : Ipv4Address.isAddrOctet octet = true) :
    ∃ n < 256, octet = Nat.toDigits 10 n := by
  have hlt := h
  simp only [Ipv4Address.isAddrOctet, Bool.and_eq_true, decide_eq_true_eq] at hlt
  exact ⟨_, hlt.2, eq_of_value h (isAddrOctet_toDigits _ hlt.2)
    Nat.ofDigitChars_ten_toDigits.symm⟩

/-- Without signs, addresses of the same octets are one address. -/
theorem eq_of_octetValues {a b : Ipv4Address} (ha : ¬IsSigned a.text) (hb : ¬IsSigned b.text)
    (h : octetValues a.text = octetValues b.text) : a = b := by
  have hoctets : octetsOf a.text = octetsOf b.text := by
    refine eq_of_map_eq (P := fun octet => Ipv4Address.isAddrOctet octet = true) ?_
      ((all_isAddrOctet_iff a.valid).mpr ha) ((all_isAddrOctet_iff b.valid).mpr hb) h
    intro x y hx hy hvalue
    obtain ⟨m, hm, rfl⟩ := exists_toDigits hx
    obtain ⟨n, hn, rfl⟩ := exists_toDigits hy
    rw [parseU8_toDigits hm, parseU8_toDigits hn] at hvalue
    exact congrArg _ hvalue
  have htext : a.text = b.text := by
    have ha := @List.intercalate_splitOn _ a.text.toList _ _ '.'
    have hb := @List.intercalate_splitOn _ b.text.toList _ _ '.'
    rw [← String.toList_inj, ← ha, ← hb]
    exact congrArg _ hoctets
  obtain ⟨text, hvalid⟩ := a
  obtain ⟨text', hvalid'⟩ := b
  obtain rfl : text = text' := htext
  rfl

/-- An address with a sign has the octets of one without. -/
theorem exists_unsigned (a : Ipv4Address) :
    ∃ b : Ipv4Address, ¬IsSigned b.text ∧ octetValues b.text = octetValues a.text := by
  let digits := (octetValues a.text).map (Nat.toDigits 10)
  have hdigits : ∀ octet ∈ digits, Ipv4Address.isAddrOctet octet = true := by
    intro octet hmem
    obtain ⟨n, hn, rfl⟩ := List.mem_map.mp hmem
    exact isAddrOctet_toDigits n (octetValues_lt hn)
  have hfour : digits.length = 4 := by
    rw [List.length_map, octetValues, List.length_map]
    exact ((isIpv4_iff a.text).mp a.valid).1
  have hsplit : octetsOf (String.ofList (['.'].intercalate digits)) = digits := by
    rw [octetsOf, String.toList_ofList]
    refine List.splitOn_intercalate '.' (fun octet hmem hdot => ?_) (by
      rintro hnil
      rw [hnil] at hfour
      cases hfour)
    obtain ⟨n, -, rfl⟩ := exists_toDigits (hdigits octet hmem)
    exact absurd (Nat.isDigit_of_mem_toDigits (by decide) (by decide) hdot) (by decide)
  have hvalid : isIpv4 (String.ofList (['.'].intercalate digits)) = true := by
    rw [isIpv4_iff, hsplit]
    exact ⟨hfour, fun octet hmem => .inl (hdigits octet hmem)⟩
  refine ⟨⟨_, hvalid⟩, ?_, ?_⟩
  · rw [← all_isAddrOctet_iff hvalid, hsplit]
    exact hdigits
  · have hvalues : octetValues (String.ofList (['.'].intercalate digits)) =
        digits.map fun octet => (parseU8 octet).getD 0 := congrArg _ hsplit
    rw [hvalues, List.map_map]
    refine (List.map_congr_left fun n hn => ?_).trans (List.map_id _)
    rw [Function.comp_apply, parseU8_toDigits (octetValues_lt hn)]
    rfl

/-- **Addresses are as their pattern has them but for signs.** The check and the pattern agree on a
text, and `addr` does not panic on it, exactly where no octet has a sign; addresses without signs
have a MAC each of their own; and one with a sign shares its MAC with one without. -/
theorem Ipv4Address.meets_pattern_iff (value : String) (a b : Ipv4Address) :
    (((parse? value).isSome = true ↔ ipv4AddressSchema.Accepts value) ∧
          (∀ address, parse? value = some address → address.addr ≠ none) ↔
        ¬IsSigned value) ∧
      (¬IsSigned a.text → ¬IsSigned b.text → a ≠ b → macFor a.text ≠ macFor b.text) ∧
      (IsSigned a.text →
        ∃ c : Ipv4Address, ¬IsSigned c.text ∧ a ≠ c ∧ macFor a.text = macFor c.text) := by
  refine ⟨agrees_iff value, fun ha hb hne hmac => ?_, fun ha => ?_⟩
  · exact hne (eq_of_octetValues ha hb (macFor_eq_iff.mp hmac))
  · obtain ⟨c, hc, hvalues⟩ := exists_unsigned a
    refine ⟨c, hc, ?_, macFor_eq_iff.mpr hvalues.symm⟩
    rintro rfl
    exact hc ha

/-- `+1.2.3.4` passes the check and is not of the pattern. -/
theorem Ipv4Address.takes_sign :
    ¬((∀ value : String, (parse? value).isSome = true ↔ ipv4AddressSchema.Accepts value) ∧
      (∀ address : Ipv4Address, address.addr ≠ none) ∧
      ∀ a b : Ipv4Address, a ≠ b → macFor a.text ≠ macFor b.text) := by
  rintro ⟨-, hpanics, -⟩
  exact hpanics ⟨"+1.2.3.4", by decide +kernel⟩ (by decide +kernel)

end Nibrunner

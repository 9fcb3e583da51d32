import Nibrunner.ForStd.Words

/-!
# Regular expressions

Patterns as JSON Schema writes them, with what they match. `Pattern.Leads` says from which rest of
a text a pattern may go on to which, so that the anchors and a look ahead, which are about where in
the text they stand, have their meaning beside the rest. A pattern without these spells a language
(`Pattern.Spells`), and between anchors it matches the texts of its language
(`Spells.matches_iff`).

`Pattern.text` writes a pattern out. A `TextSchema` is what a schema says of a text; its lengths
count characters.
-/

namespace Patterns

open Words (letter timesOf Within Over)

/-- What stands between brackets: some ranges of characters, or everything else. -/
structure CharClass where
  negated : Bool
  ranges : List (Char × Char)

namespace CharClass

/-- Whether a character is of the class. -/
def mem (k : CharClass) (c : Char) : Bool :=
  k.negated != k.ranges.any fun range => range.1 ≤ c && c ≤ range.2

/-- A range of one character. -/
theorem range_self (a c : Char) : (decide (a ≤ c) && decide (c ≤ a)) = decide (c = a) := by
  rw [← Bool.decide_and, decide_eq_decide]
  exact ⟨fun ⟨h, h'⟩ => Char.le_antisymm h' h, fun h => h ▸ ⟨Char.le_refl c, Char.le_refl c⟩⟩

theorem range_lower (c : Char) : (decide ('a' ≤ c) && decide (c ≤ 'z')) = c.isLower := rfl

theorem range_digit (c : Char) : (decide ('0' ≤ c) && decide (c ≤ '9')) = c.isDigit := rfl

theorem range_upper (c : Char) : (decide ('A' ≤ c) && decide (c ≤ 'Z')) = c.isUpper :=
  (Bool.decide_and _ _).symm

theorem upper_or_lower (c : Char) : c.isAlpha = (c.isUpper || c.isLower) := rfl

/-- A class takes what one of its ranges holds. -/
theorem mem_ranges (ranges : List (Char × Char)) :
    (CharClass.mk false ranges).mem = fun c => ranges.any fun range =>
      decide (range.1 ≤ c) && decide (c ≤ range.2) :=
  funext fun _ => Bool.false_bne _

end CharClass

inductive Pattern where
  /-- The start of the text. -/
  | start
  /-- The end of the text. -/
  | stop
  | char (c : Char)
  | oneOf (k : CharClass)
  | seq (p q : Pattern)
  | alt (p q : Pattern)
  /-- So many times at least, and so many at most. -/
  | times (p : Pattern) (least : ℕ) (most : Option ℕ)
  /-- What follows does not start like this. -/
  | notAhead (p : Pattern)

/-- A step taken `n` times. -/
def Iterated {α : Type} (step : α → α → Prop) : ℕ → α → α → Prop
  | 0, s, t => s = t
  | n + 1, s, t => ∃ r, step s r ∧ Iterated step n r t

namespace Pattern

/-! ### How a pattern is written -/

/-- A character as it is written between brackets. -/
def classChar (c : Char) : String :=
  if c = '\\' then "\\\\"
  else if c.toNat < 0x20 then
    "\\x" ++ String.ofList [Nat.digitChar (c.toNat / 16), Nat.digitChar (c.toNat % 16)]
  else c.toString

def classText (k : CharClass) : String :=
  let ranges := k.ranges.map fun range =>
    if range.1 = range.2 then classChar range.1
    else classChar range.1 ++ "-" ++ classChar range.2
  "[" ++ (if k.negated then "^" else "") ++ String.join ranges ++ "]"

def timesText (least : ℕ) : Option ℕ → String
  | none =>
    if least = 0 then "*" else if least = 1 then "+"
    else "\x7b" ++ toString least ++ ",\x7d"
  | some most =>
    if least = 0 ∧ most = 1 then "?"
    else if least = most then "\x7b" ++ toString least ++ "\x7d"
    else "\x7b" ++ toString least ++ "," ++ toString most ++ "\x7d"

/-- Whether a pattern is written as one character or one class. -/
def isOne : Pattern → Bool
  | char _ | oneOf _ => true
  | _ => false

def isAlt : Pattern → Bool
  | alt _ _ => true
  | _ => false

def inParens (wanted : Bool) (text : String) : String :=
  if wanted then "(" ++ text ++ ")" else text

/-- The pattern as it is written; what binds less than its place asks for is put in parentheses. -/
def text : Pattern → String
  | start => "^"
  | stop => "$"
  | char c => if c = '.' then "\\." else c.toString
  | oneOf k => classText k
  | seq p q => inParens p.isAlt p.text ++ inParens q.isAlt q.text
  | alt p q => p.text ++ "|" ++ q.text
  | times p least most => inParens (!p.isOne) p.text ++ timesText least most
  | notAhead p => "(?!" ++ p.text ++ ")"

/-! ### What a pattern matches -/

/-- The pattern may go on from the rest `s` of a text to the rest `t`. -/
def Leads (whole : List Char) : Pattern → List Char → List Char → Prop
  | start, s, t => s = whole ∧ t = s
  | stop, s, t => s = [] ∧ t = s
  | char c, s, t => s = c :: t
  | oneOf k, s, t => ∃ c, k.mem c = true ∧ s = c :: t
  | seq p q, s, t => ∃ r, Leads whole p s r ∧ Leads whole q r t
  | alt p q, s, t => Leads whole p s t ∨ Leads whole q s t
  | times p least most, s, t => ∃ n, Within least most n ∧ Iterated (Leads whole p) n s t
  | notAhead p, s, t => t = s ∧ ¬ ∃ r, Leads whole p s r

/-- The pattern matches somewhere in the text. -/
def Matches (p : Pattern) (whole : List Char) : Prop :=
  ∃ s t, s <:+ whole ∧ p.Leads whole s t

/-- The pattern between the start and the end of the text. -/
def anchored (p : Pattern) : Pattern := seq start (seq p stop)

/-- The pattern takes the words of a language, wherever it stands. -/
def Spells (p : Pattern) (words : Language Char) : Prop :=
  ∀ whole s t, p.Leads whole s t ↔ ∃ w ∈ words, s = w ++ t

theorem spells_oneOf (k : CharClass) : Spells (.oneOf k) (letter k.mem) := by
  intro whole s t
  constructor
  · rintro ⟨c, hc, rfl⟩
    exact ⟨[c], ⟨c, hc, rfl⟩, rfl⟩
  · rintro ⟨-, ⟨c, hc, rfl⟩, rfl⟩
    exact ⟨c, hc, rfl⟩

theorem spells_char (c : Char) : Spells (.char c) (letter (· == c)) := by
  intro whole s t
  constructor
  · rintro rfl
    exact ⟨[c], ⟨c, beq_self_eq_true c, rfl⟩, rfl⟩
  · rintro ⟨-, ⟨d, hd, rfl⟩, rfl⟩
    rw [beq_iff_eq.mp hd]
    rfl

section Spells

variable {p q : Pattern} {v w : Language Char}

theorem Spells.seq (hp : p.Spells v) (hq : q.Spells w) : (Pattern.seq p q).Spells (v * w) := by
  intro whole s t
  constructor
  · rintro ⟨r, hs, hr⟩
    obtain ⟨x, hx, rfl⟩ := (hp whole s r).mp hs
    obtain ⟨y, hy, rfl⟩ := (hq whole r t).mp hr
    exact ⟨x ++ y, Language.append_mem_mul hx hy, (List.append_assoc x y t).symm⟩
  · rintro ⟨-, ⟨x, hx, y, hy, rfl⟩, rfl⟩
    exact ⟨y ++ t, (hp whole _ _).mpr ⟨x, hx, List.append_assoc x y t⟩,
      (hq whole _ _).mpr ⟨y, hy, rfl⟩⟩

theorem Spells.alt (hp : p.Spells v) (hq : q.Spells w) : (Pattern.alt p q).Spells (v + w) := by
  intro whole s t
  simp only [Leads, hp whole s t, hq whole s t, Language.mem_add, or_and_right, exists_or]

theorem Spells.times (hp : p.Spells v) (least : ℕ) (most : Option ℕ) :
    (Pattern.times p least most).Spells (timesOf v least most) := by
  have hpow : ∀ (whole : List Char) (n : ℕ) s t,
      Iterated (p.Leads whole) n s t ↔ ∃ w ∈ v ^ n, s = w ++ t := by
    intro whole n
    induction n with
    | zero =>
      intro s t
      simp only [Iterated, pow_zero, Language.mem_one, exists_eq_left, List.nil_append]
    | succ n ih =>
      intro s t
      rw [pow_succ']
      constructor
      · rintro ⟨r, hs, hr⟩
        obtain ⟨x, hx, rfl⟩ := (hp whole s r).mp hs
        obtain ⟨y, hy, rfl⟩ := (ih r t).mp hr
        exact ⟨x ++ y, Language.append_mem_mul hx hy, (List.append_assoc x y t).symm⟩
      · rintro ⟨-, ⟨x, hx, y, hy, rfl⟩, rfl⟩
        exact ⟨y ++ t, (hp whole _ _).mpr ⟨x, hx, List.append_assoc x y t⟩,
          (ih _ _).mpr ⟨y, hy, rfl⟩⟩
  intro whole s t
  constructor
  · rintro ⟨n, hn, hs⟩
    obtain ⟨x, hx, rfl⟩ := (hpow whole n s t).mp hs
    exact ⟨x, ⟨n, hn, hx⟩, rfl⟩
  · rintro ⟨x, ⟨n, hn, hx⟩, rfl⟩
    exact ⟨n, hn, (hpow whole n _ t).mpr ⟨x, hx, rfl⟩⟩

/-- Between anchors a pattern matches when it leads from the start of the text to its end. -/
theorem matches_anchored {whole : List Char} :
    p.anchored.Matches whole ↔ p.Leads whole whole [] := by
  constructor
  · rintro ⟨s, t, -, r, ⟨rfl, rfl⟩, u, h, rfl, rfl⟩
    exact h
  · intro h
    exact ⟨whole, [], List.suffix_rfl, whole, ⟨rfl, rfl⟩, [], h, rfl, rfl⟩

/-- **Between anchors** a pattern matches the texts of its language and no others. -/
theorem Spells.matches_iff (hp : p.Spells v) {whole : List Char} :
    p.anchored.Matches whole ↔ whole ∈ v := by
  rw [matches_anchored, hp]
  constructor
  · rintro ⟨x, hx, rfl⟩
    rwa [List.append_nil]
  · exact fun hw => ⟨whole, hw, (List.append_nil _).symm⟩

theorem matches_alt {whole : List Char} :
    (alt p q).Matches whole ↔ p.Matches whole ∨ q.Matches whole := by
  simp only [Matches, Leads, and_or_left, exists_or]

end Spells

/-! ### The characters a pattern takes -/

/-- Whether a character may occur in what the pattern takes. -/
def mayHold : Pattern → Char → Bool
  | start, _ | stop, _ | notAhead _, _ => false
  | char c, d => d == c
  | oneOf k, d => k.mem d
  | seq p q, d | alt p q, d => mayHold p d || mayHold q d
  | times p _ _, d => mayHold p d

/-- Whether the pattern takes characters of ASCII only. -/
def isAscii : Pattern → Bool
  | start | stop | notAhead _ => true
  | char c => c.toNat < 128
  | oneOf k => !k.negated && k.ranges.all fun range => range.2.toNat < 128
  | seq p q | alt p q => isAscii p && isAscii q
  | times p _ _ => isAscii p

theorem ascii_of_mayHold {p : Pattern} {c : Char} (hp : p.isAscii = true)
    (hc : p.mayHold c = true) : c.toNat < 128 := by
  induction p with
  | start | stop => cases hc
  | notAhead _ _ => cases hc
  | char d =>
    rw [mayHold, beq_iff_eq] at hc
    rw [hc]
    exact of_decide_eq_true hp
  | oneOf k =>
    rw [isAscii, Bool.and_eq_true, Bool.not_eq_true', List.all_eq_true] at hp
    rw [mayHold, CharClass.mem, hp.1, Bool.false_bne, List.any_eq_true] at hc
    obtain ⟨range, hrange, hc⟩ := hc
    rw [Bool.and_eq_true, decide_eq_true_eq, decide_eq_true_eq] at hc
    exact Nat.lt_of_le_of_lt hc.2 (of_decide_eq_true (hp.2 range hrange))
  | seq p q ihp ihq | alt p q ihp ihq =>
    rw [isAscii, Bool.and_eq_true] at hp
    rw [mayHold, Bool.or_eq_true] at hc
    exact hc.elim (ihp hp.1) (ihq hp.2)
  | times p _ _ ih => exact ih hp hc

/-- What a pattern takes is made of the characters it may hold. -/
theorem over_of_leads {whole : List Char} {p : Pattern} {s t : List Char}
    (h : p.Leads whole s t) : ∃ x ∈ Over p.mayHold, s = x ++ t := by
  have hnil {f : Char → Bool} : [] ∈ Over f := fun c hc => absurd hc List.not_mem_nil
  induction p generalizing s t with
  | start | stop => exact ⟨[], hnil, h.2.symm⟩
  | notAhead _ _ => exact ⟨[], hnil, h.1.symm⟩
  | char c => exact ⟨[c], List.forall_mem_singleton.mpr (beq_self_eq_true c), h⟩
  | oneOf k =>
    obtain ⟨c, hc, rfl⟩ := h
    exact ⟨[c], List.forall_mem_singleton.mpr hc, rfl⟩
  | seq p q ihp ihq =>
    obtain ⟨r, hs, hr⟩ := h
    obtain ⟨x, hx, rfl⟩ := ihp hs
    obtain ⟨y, hy, rfl⟩ := ihq hr
    refine ⟨x ++ y, List.forall_mem_append.mpr ⟨fun c hc => ?_, fun c hc => ?_⟩,
      (List.append_assoc x y t).symm⟩
    · rw [mayHold, hx c hc, Bool.true_or]
    · rw [mayHold, hy c hc, Bool.or_true]
  | alt p q ihp ihq =>
    rcases h with h | h
    · obtain ⟨x, hx, rfl⟩ := ihp h
      exact ⟨x, fun c hc => by rw [mayHold, hx c hc, Bool.true_or], rfl⟩
    · obtain ⟨x, hx, rfl⟩ := ihq h
      exact ⟨x, fun c hc => by rw [mayHold, hx c hc, Bool.or_true], rfl⟩
  | times p least most ih =>
    obtain ⟨n, -, h⟩ := h
    induction n generalizing s with
    | zero => exact ⟨[], hnil, h⟩
    | succ n ihn =>
      obtain ⟨r, hs, hr⟩ := h
      obtain ⟨x, hx, rfl⟩ := ih hs
      obtain ⟨y, hy, rfl⟩ := ihn hr
      exact ⟨x ++ y, List.forall_mem_append.mpr ⟨hx, hy⟩, (List.append_assoc x y t).symm⟩

/-- The words of a pattern's language are made of the characters the pattern may hold. -/
theorem Spells.over {p : Pattern} {v : Language Char} (hp : p.Spells v) {x : List Char}
    (hx : x ∈ v) : x ∈ Over p.mayHold := by
  obtain ⟨y, hy, heq⟩ := over_of_leads ((hp [] (x ++ []) []).mpr ⟨x, hx, rfl⟩)
  rwa [List.append_cancel_right heq]

theorem Spells.ascii {p : Pattern} {v : Language Char} (hp : p.Spells v)
    (hascii : p.isAscii = true) {x : List Char} (hx : x ∈ v) : ∀ c ∈ x, c.toNat < 128 :=
  fun c hc => ascii_of_mayHold hascii (hp.over hx c hc)

/-- A text, character for character. -/
def literal : Char → List Char → Pattern
  | c, [] => char c
  | c, d :: text => seq (char c) (literal d text)

theorem leads_literal {whole : List Char} (c : Char) (text s t : List Char) :
    (literal c text).Leads whole s t ↔ s = c :: text ++ t := by
  induction text generalizing c s with
  | nil => exact Iff.rfl
  | cons d text ih =>
    simp only [literal, Leads, ih, exists_eq_right, List.cons_append]

theorem spells_literal (c : Char) (text : List Char) : (literal c text).Spells {c :: text} := by
  intro whole s t
  rw [leads_literal]
  constructor
  · exact fun h => ⟨c :: text, rfl, h⟩
  · rintro ⟨x, rfl, h⟩
    exact h

end Pattern

/-! ### What a schema says of a text -/

structure TextSchema where
  pattern : Option Pattern := none
  minLength : ℕ := 0
  maxLength : Option ℕ := none
  /-- The texts under `not`. -/
  excluded : List String := []

/-- A text satisfies the schema. -/
def TextSchema.Accepts (schema : TextSchema) (text : String) : Prop :=
  (∀ p, schema.pattern = some p → p.Matches text.toList) ∧
    Within schema.minLength schema.maxLength text.toList.length ∧ text ∉ schema.excluded

section Accepts

variable {p : Pattern} {v : Language Char} {text : String}

theorem TextSchema.accepts_iff (hp : p.Spells v) :
    (TextSchema.mk (some p.anchored) 0 none []).Accepts text ↔ text.toList ∈ v := by
  rw [Accepts, ← hp.matches_iff]
  constructor
  · exact fun h => h.1 p.anchored rfl
  · intro h
    refine ⟨fun q hq => ?_, ⟨Nat.zero_le _, fun m hm => by cases hm⟩, List.not_mem_nil⟩
    rwa [← Option.some.inj hq]

theorem TextSchema.accepts_pattern {most : ℕ} {excluded : List String} :
    (TextSchema.mk (some p) 0 (some most) excluded).Accepts text ↔
      p.Matches text.toList ∧ text.toList.length ≤ most ∧ text ∉ excluded := by
  constructor
  · exact fun h => ⟨h.1 p rfl, h.2.1.2 most rfl, h.2.2⟩
  · refine fun h => ⟨fun q hq => ?_, ⟨Nat.zero_le _, fun m hm => ?_⟩, h.2.2⟩
    · rw [← Option.some.inj hq]
      exact h.1
    · rw [← Option.some.inj hm]
      exact h.2.1

theorem TextSchema.accepts_iff_le (hp : p.Spells v) {most : ℕ} :
    (TextSchema.mk (some p.anchored) 0 (some most) []).Accepts text ↔
      text.toList ∈ v ∧ text.toList.length ≤ most := by
  rw [accepts_pattern, hp.matches_iff]
  exact and_congr_right' (and_iff_left List.not_mem_nil)

end Accepts

end Patterns

import Mathlib.Data.List.Basic

/-!
# Lines and their parts

Texts as lists of characters: a part before and behind the first occurrence of a separator
(`splitOnce`), the lines of a text (`lines`) and its words, and numbers written in decimal
(`decimal`, `parseDecimal?`). Each reader gives back what was written by its writer, for parts that
hold nothing the writer uses to keep them apart.
-/

namespace TextLines

/-! ### Parts -/

/-- What stands before the first occurrence of a separator, and what stands behind it. -/
def splitOnce (separator : Char) : List Char → Option (List Char × List Char)
  | [] => none
  | c :: text =>
    if c = separator then some ([], text)
    else (splitOnce separator text).map fun (front, back) => (c :: front, back)

/-- A text splits behind a part that does not hold the separator. -/
theorem splitOnce_append {separator : Char} {front : List Char} (h : separator ∉ front)
    (back : List Char) : splitOnce separator (front ++ separator :: back) = some (front, back) := by
  induction front with
  | nil => simp [splitOnce]
  | cons c front ih =>
    rw [List.mem_cons, not_or] at h
    rw [List.cons_append, splitOnce, if_neg (Ne.symm h.1), ih h.2]
    rfl

/-- **What is split off** is what stands before the first separator. -/
theorem splitOnce_eq_some {separator : Char} {text front back : List Char} :
    splitOnce separator text = some (front, back) ↔
      text = front ++ separator :: back ∧ separator ∉ front := by
  constructor
  · intro h
    induction text generalizing front with
    | nil => cases h
    | cons c text ih =>
      rw [splitOnce] at h
      split at h
      · next heq =>
        obtain ⟨rfl, rfl⟩ := Prod.mk.inj (Option.some.inj h)
        exact ⟨congrArg (· :: text) heq, List.not_mem_nil⟩
      · next hne =>
        obtain ⟨⟨front', back'⟩, hsplit, heq⟩ := Option.map_eq_some_iff.mp h
        obtain ⟨rfl, rfl⟩ := Prod.mk.inj heq
        obtain ⟨rfl, hfront⟩ := ih hsplit
        exact ⟨rfl, List.not_mem_cons_of_ne_of_not_mem (Ne.symm hne) hfront⟩
  · rintro ⟨rfl, hfront⟩
    exact splitOnce_append hfront back

theorem splitOnce_eq_none {separator : Char} {text : List Char} :
    splitOnce separator text = none ↔ separator ∉ text := by
  induction text with
  | nil => exact iff_of_true rfl List.not_mem_nil
  | cons c text ih =>
    rw [splitOnce]
    split
    · next heq => exact iff_of_false (Option.some_ne_none _) fun h => h (heq ▸ List.mem_cons_self)
    · next hne =>
      rw [Option.map_eq_none_iff, ih, List.mem_cons, not_or]
      exact ⟨fun h => ⟨Ne.symm hne, h⟩, And.right⟩

theorem eq_or_mem_of_mem_intercalate {separator c : Char} {parts : List (List Char)}
    (h : c ∈ [separator].intercalate parts) : c = separator ∨ ∃ part ∈ parts, c ∈ part := by
  induction parts with
  | nil => exact absurd h List.not_mem_nil
  | cons part parts ih =>
    cases parts with
    | nil =>
      rw [List.intercalate_singleton] at h
      exact .inr ⟨part, List.mem_cons_self, h⟩
    | cons next parts =>
      rw [List.intercalate_cons_cons, List.mem_append, List.mem_append, List.mem_singleton] at h
      rcases h with (h | h) | h
      · exact .inr ⟨part, List.mem_cons_self, h⟩
      · exact .inl h
      · exact (ih h).imp_right fun ⟨part, hpart, hc⟩ => ⟨part, List.mem_cons_of_mem _ hpart, hc⟩

/-- A character of a text is the separator or one of a part. -/
theorem eq_or_mem_splitOn {c : Char} {text : List Char} (separator : Char) (h : c ∈ text) :
    c = separator ∨ ∃ part ∈ text.splitOn separator, c ∈ part := by
  have hjoined : [separator].intercalate (text.splitOn separator) = text :=
    List.intercalate_splitOn separator
  rw [← hjoined] at h
  exact eq_or_mem_of_mem_intercalate h

/-- The induction over the parts of a list. -/
theorem splitOn_induction {α : Type*} [BEq α] [LawfulBEq α] (separator : α)
    {motive : List α → Prop} (last : ∀ part, separator ∉ part → motive part)
    (parted : ∀ part rest, separator ∉ part → motive rest → motive (part ++ separator :: rest))
    (list : List α) : motive list := by
  by_cases h : separator ∈ list
  · obtain ⟨part, rest, hlist, hpart⟩ := List.eq_append_cons_of_mem h
    rw [hlist]
    exact parted part rest hpart (splitOn_induction separator last parted rest)
  · exact last list h
termination_by list.length
decreasing_by
  rw [hlist, List.length_append, List.length_cons]
  omega

theorem notMem_of_mem_splitOn {α : Type*} [BEq α] [LawfulBEq α] {separator : α}
    {list part : List α} (h : part ∈ list.splitOn separator) : separator ∉ part := by
  induction list using splitOn_induction separator with
  | last list hlist =>
    rw [List.splitOn_eq_singleton hlist, List.mem_singleton] at h
    rwa [h]
  | parted first rest hfirst ih =>
    rw [List.splitOn_append_cons_self_of_not_mem hfirst, List.mem_cons] at h
    rcases h with rfl | h
    · exact hfirst
    · exact ih h

/-- What comes before a list that holds no separator comes before its first part. -/
theorem exists_splitOn_append {α : Type*} [BEq α] [LawfulBEq α] (separator : α) (list : List α) :
    ∃ first others, separator ∉ first ∧ ∀ front, separator ∉ front →
      (front ++ list).splitOn separator = (front ++ first) :: others := by
  have hfree : ∀ {front part : List α}, separator ∉ front → separator ∉ part →
      separator ∉ front ++ part := fun hfront hpart => by
    rw [List.mem_append, not_or]
    exact ⟨hfront, hpart⟩
  by_cases h : separator ∈ list
  · obtain ⟨part, rest, rfl, hpart⟩ := List.eq_append_cons_of_mem h
    refine ⟨part, rest.splitOn separator, hpart, fun front hfront => ?_⟩
    rw [← List.append_assoc, List.splitOn_append_cons_self_of_not_mem (hfree hfront hpart)]
  · exact ⟨list, [], h, fun front hfront => List.splitOn_eq_singleton (hfree hfront h)⟩

/-! ### Lines -/

/-- A line without the carriage return it may end in. -/
def stripReturn (line : List Char) : List Char :=
  if line.getLast? = some '\r' then line.dropLast else line

/-- The lines of a text. A line ends with a line feed, or with a carriage return and one; what
stands behind the last of them is a line of its own if it is not empty. -/
def lines (text : List Char) : List (List Char) :=
  let pieces := text.splitOn '\n'
  pieces.dropLast.map stripReturn ++ pieces.getLast?.toList.filter (· ≠ [])

/-- Some lines as a text, with a line feed between them and one behind the last. -/
def unlines (ls : List (List Char)) : List Char := ['\n'].intercalate ls ++ ['\n']

theorem unlines_eq {ls : List (List Char)} (h : ls ≠ []) :
    unlines ls = ['\n'].intercalate (ls ++ [[]]) := by
  induction ls with
  | nil => exact absurd rfl h
  | cons line ls ih =>
    cases ls with
    | nil => simp [unlines, List.intercalate]
    | cons next ls =>
      have ih := ih (List.cons_ne_nil _ _)
      rw [unlines] at ih ⊢
      rw [List.cons_append, List.cons_append, List.intercalate_cons_cons,
        List.intercalate_cons_cons, List.append_assoc, ih]
      rfl

/-- The lines a text was made of are its lines. -/
theorem lines_unlines {ls : List (List Char)} (hne : ls ≠ [])
    (h : ∀ line ∈ ls, '\n' ∉ line ∧ '\r' ∉ line) : lines (unlines ls) = ls := by
  have hpieces : (unlines ls).splitOn '\n' = ls ++ [[]] := by
    rw [unlines_eq hne]
    refine List.splitOn_intercalate '\n' (fun line hline => ?_) (by simp)
    rcases List.mem_append.mp hline with hline | hline
    · exact (h line hline).1
    · rw [List.mem_singleton.mp hline]
      exact List.not_mem_nil
  have hreturn : ls.map stripReturn = ls := by
    refine (List.map_congr_left fun line hline => ?_).trans (List.map_id ls)
    exact if_neg fun hlast => (h line hline).2 (List.mem_of_getLast? hlast)
  rw [lines, hpieces, List.dropLast_concat, hreturn, List.getLast?_concat]
  simp

/-! ### White space -/

/-- The white space of Unicode. -/
def isWhitespace (c : Char) : Bool :=
  (9 ≤ c.toNat && c.toNat ≤ 13) || (0x2000 ≤ c.toNat && c.toNat ≤ 0x200A) ||
    [0x20, 0x85, 0xA0, 0x1680, 0x2028, 0x2029, 0x202F, 0x205F, 0x3000].contains c.toNat

/-- The words of a text: what stands between white space. -/
def words (text : List Char) : List (List Char) :=
  (text.splitOnP isWhitespace).filter (· ≠ [])

/-! ### Numbers -/

/-- A number in decimal. -/
def decimal (n : ℕ) : List Char := Nat.toDigits 10 n

/-- The number below a bound some text is the decimal digits of. A plus may stand before them. -/
def parseDecimal? (bound : ℕ) (text : List Char) : Option ℕ :=
  let digits := if text.head? = some '+' then text.tail else text
  if digits = [] ∨ digits.all Char.isDigit = false then none
  else if Nat.ofDigitChars 10 digits 0 < bound then some (Nat.ofDigitChars 10 digits 0)
  else none

theorem isDigit_of_mem_decimal {n : ℕ} {c : Char} (h : c ∈ decimal n) : c.isDigit = true :=
  Nat.isDigit_of_mem_toDigits (by decide) (by decide) h

theorem notMem_decimal {c : Char} (hc : c.isDigit = false) (n : ℕ) : c ∉ decimal n := by
  intro h
  rw [isDigit_of_mem_decimal h] at hc
  cases hc

theorem decimal_injective : Function.Injective decimal := by
  intro m n h
  have hm : Nat.ofDigitChars 10 (decimal m) 0 = m := Nat.ofDigitChars_ten_toDigits
  rw [← hm, h]
  exact Nat.ofDigitChars_ten_toDigits

/-- A number is read back exactly when it is below the bound. -/
theorem parseDecimal?_decimal (bound n : ℕ) :
    parseDecimal? bound (decimal n) = if n < bound then some n else none := by
  have hvalue : Nat.ofDigitChars 10 (decimal n) 0 = n := Nat.ofDigitChars_ten_toDigits
  have hsign : ¬(decimal n).head? = some '+' := fun h =>
    notMem_decimal (by decide) n (List.mem_of_head? h)
  have hdigits : (decimal n).all Char.isDigit = true :=
    List.all_eq_true.mpr fun c hc => isDigit_of_mem_decimal hc
  have hne : decimal n ≠ [] := Nat.toDigits_ne_nil
  simp only [parseDecimal?, if_neg hsign, hvalue, hdigits, hne, Bool.true_eq_false, or_self,
    if_false]

end TextLines

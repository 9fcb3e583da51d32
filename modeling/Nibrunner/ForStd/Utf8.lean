import Nibrunner.ForStd.Bytes

/-!
# The sequences of UTF-8 in any bytes

Any bytes are read as UTF-8 sequence by sequence: a sequence is a character, a longest run that
only begins one, or, at the end of the bytes, one that more bytes may go on with (`head`). A cut
of the bytes leaves their text as it is (`lossyChars_append`), except where it splits a sequence
that goes on behind it: then the parts have more characters than the whole
(`length_lossyChars_lt`).
-/

namespace Utf8

open Bytes

/-! ### One sequence -/

/-- What some bytes begin with. -/
inductive Head where
  | ended (length : ℕ) (isCharacter : Bool)
  | unfinished
deriving DecidableEq

/-- What the bytes behind a first byte must be for a character of more than one. -/
def wanted (first : UInt8) : Option (List (UInt8 → Bool)) :=
  if 0xc2 ≤ first && first ≤ 0xdf then some [isContinuation]
  else if 0xe0 ≤ first && first ≤ 0xef then some [secondOfThree first, isContinuation]
  else if 0xf0 ≤ first && first ≤ 0xf4 then
    some [secondOfFour first, isContinuation, isContinuation]
  else none

/-- What a sequence becomes of which some bytes have been taken and some are still wanted. -/
def follow : List (UInt8 → Bool) → ℕ → List UInt8 → Head
  | [], taken, _ => .ended taken true
  | _ :: _, _, [] => .unfinished
  | next :: others, taken, byte :: rest =>
    if next byte then follow others (taken + 1) rest else .ended taken false

def head : List UInt8 → Head
  | [] => .unfinished
  | first :: rest =>
    if first < 0x80 then .ended 1 true
    else
      match wanted first with
      | some others => follow others 1 rest
      | none => .ended 1 false

theorem wanted_spec {first : UInt8} {others : List (UInt8 → Bool)}
    (h : wanted first = some others) :
    0xc2 ≤ first ∧ 1 ≤ others.length ∧ others.length ≤ 3 ∧
      ∀ next ∈ others, ∀ byte, next byte → isContinuation byte := by
  have hthree : ∀ first second : UInt8, secondOfThree first second → isContinuation second := by
    intro first second
    simp only [secondOfThree, isContinuation, UInt8.le_iff_toNat_le, Bool.and_eq_true,
      decide_eq_true_eq]
    grind
  have hfour : ∀ first second : UInt8, secondOfFour first second → isContinuation second := by
    intro first second
    simp only [secondOfFour, isContinuation, UInt8.le_iff_toNat_le, Bool.and_eq_true,
      decide_eq_true_eq]
    grind
  have hc2 : ∀ {least most : UInt8}, 0xc2 ≤ least → (least ≤ first && first ≤ most) = true →
      0xc2 ≤ first := by
    intro least most hleast hfirst
    rw [Bool.and_eq_true, decide_eq_true_iff] at hfirst
    exact UInt8.le_trans hleast hfirst.1
  rw [wanted] at h
  split at h
  · rename_i hfirst
    obtain rfl := Option.some.inj h
    exact ⟨hc2 (by decide) hfirst, by decide, by decide, by simp⟩
  · split at h
    · rename_i hfirst
      obtain rfl := Option.some.inj h
      exact ⟨hc2 (by decide) hfirst, by simp, by simp, by simpa using hthree first⟩
    · split at h
      · rename_i hfirst
        obtain rfl := Option.some.inj h
        exact ⟨hc2 (by decide) hfirst, by simp, by simp, by simpa using hfour first⟩
      · cases h

/-! ### What follows does not matter to a sequence that has ended -/

section Follow

variable {others : List (UInt8 → Bool)} {taken n : ℕ} {ok : Bool} {rest : List UInt8}

theorem follow_append (h : follow others taken rest = .ended n ok) (b : List UInt8) :
    follow others taken (rest ++ b) = .ended n ok := by
  induction others generalizing taken rest with
  | nil => exact h
  | cons next others ih =>
    cases rest with
    | nil => cases h
    | cons byte rest =>
      rw [follow] at h
      rw [List.cons_append, follow]
      split
      · rename_i hnext
        rw [if_pos hnext] at h
        exact ih h
      · rename_i hnext
        rwa [if_neg hnext] at h

theorem follow_bounds (h : follow others taken rest = .ended n ok) :
    taken ≤ n ∧ n ≤ taken + rest.length ∧ n ≤ taken + others.length := by
  induction others generalizing taken rest with
  | nil =>
    obtain ⟨rfl, -⟩ := Head.ended.inj h
    omega
  | cons next others ih =>
    cases rest with
    | nil => cases h
    | cons byte rest =>
      rw [follow] at h
      split at h
      · have := ih h
        simp only [List.length_cons]
        omega
      · obtain ⟨rfl, -⟩ := Head.ended.inj h
        omega

theorem length_lt_of_follow (h : follow others taken rest = .unfinished) :
    rest.length < others.length := by
  induction others generalizing taken rest with
  | nil => cases h
  | cons next others ih =>
    cases rest with
    | nil => exact Nat.succ_pos _
    | cons byte rest =>
      rw [follow] at h
      split at h
      · exact Nat.succ_lt_succ (ih h)
      · cases h

/-- A head that has ended is neither unfinished nor of a later end. -/
theorem Head.not_later {n m : ℕ} {ok : Bool} (hle : n ≤ m)
    (h : Head.ended n ok = .unfinished ∨ ∃ n' ok', Head.ended n ok = .ended n' ok' ∧ m < n') :
    False := by
  rcases h with h | ⟨n', ok', h, hn⟩
  · cases h
  · obtain ⟨rfl, -⟩ := Head.ended.inj h
    omega

/-- The bytes of a sequence behind its first one go on a character. -/
theorem isContinuation_of_follow
    (hothers : ∀ next ∈ others, ∀ byte, next byte → isContinuation byte) {front : List UInt8}
    {byte : UInt8} {b : List UInt8} (hrest : rest = front ++ byte :: b)
    (h : follow others taken rest = .unfinished ∨
      ∃ n ok, follow others taken rest = .ended n ok ∧ taken + front.length < n) :
    isContinuation byte := by
  induction others generalizing taken rest front with
  | nil =>
    exact (Head.not_later (Nat.le_add_right ..) h).elim
  | cons next others ih =>
    have hmore := fun next hnext => hothers next (List.mem_cons_of_mem _ hnext)
    subst hrest
    cases front with
    | nil =>
      rw [List.nil_append, follow] at h
      by_cases hnext : next byte
      · exact hothers next List.mem_cons_self byte hnext
      · rw [if_neg hnext] at h
        exact (Head.not_later (Nat.le_add_right ..) h).elim
    | cons first front =>
      rw [List.cons_append, follow] at h
      by_cases hnext : next first
      · rw [if_pos hnext] at h
        refine ih hmore rfl (h.imp id ?_)
        rintro ⟨n, ok, h, hn⟩
        rw [List.length_cons] at hn
        exact ⟨n, ok, h, by omega⟩
      · rw [if_neg hnext] at h
        exact (Head.not_later (Nat.le_add_right ..) h).elim

/-- The next byte ends an unfinished sequence before it, or is one of the sequence. -/
theorem follow_concat (hothers : ∀ next ∈ others, ∀ byte, next byte → isContinuation byte)
    (h : follow others taken rest = .unfinished) (byte : UInt8) :
    follow others taken (rest ++ [byte]) = .ended (taken + rest.length) false ∨
      isContinuation byte ∧ (follow others taken (rest ++ [byte]) = .unfinished ∨
        follow others taken (rest ++ [byte]) = .ended (taken + rest.length + 1) true) := by
  induction others generalizing taken rest with
  | nil => cases h
  | cons next others ih =>
    cases rest with
    | nil =>
      rw [List.nil_append, follow]
      split
      · rename_i hnext
        refine .inr ⟨hothers next List.mem_cons_self byte hnext, ?_⟩
        cases others with
        | nil => exact .inr rfl
        | cons _ _ => exact .inl rfl
      · exact .inl rfl
    | cons first rest =>
      rw [follow] at h
      rw [List.cons_append, follow]
      split
      · rename_i hfirst
        rw [if_pos hfirst] at h
        have := ih (fun next hnext => hothers next (List.mem_cons_of_mem _ hnext)) h
        rwa [List.length_cons, Nat.add_comm rest.length 1, ← Nat.add_assoc]
      · rename_i hfirst
        rw [if_neg hfirst] at h
        cases h

end Follow

section Head

variable {a p : List UInt8} {n : ℕ} {ok : Bool}

theorem head_bounds (h : head a = .ended n ok) : 1 ≤ n ∧ n ≤ a.length := by
  cases a with
  | nil => cases h
  | cons first rest =>
    rw [List.length_cons]
    rw [head] at h
    split at h
    · obtain ⟨rfl, -⟩ := Head.ended.inj h
      omega
    · cases hwanted : wanted first with
      | none =>
        rw [hwanted] at h
        obtain ⟨rfl, -⟩ := Head.ended.inj h
        omega
      | some others =>
        rw [hwanted] at h
        have := follow_bounds h
        omega

/-- What an unfinished sequence begins with. -/
theorem exists_wanted (h : head p = .unfinished) (hne : p ≠ []) :
    ∃ first rest others, p = first :: rest ∧ wanted first = some others ∧
      follow others 1 rest = .unfinished ∧ ∀ b, head (first :: b) = follow others 1 b := by
  cases p with
  | nil => exact absurd rfl hne
  | cons first rest =>
    cases hwanted : wanted first with
    | none =>
      rw [head, hwanted] at h
      split at h <;> cases h
    | some others =>
      have hhead : ∀ b, head (first :: b) = follow others 1 b := by
        intro b
        have hc2 := (wanted_spec hwanted).1
        rw [head, if_neg (UInt8.not_lt.mpr (UInt8.le_trans (by decide) hc2)), hwanted]
      exact ⟨first, rest, others, rfl, hwanted, (hhead rest).symm.trans h, hhead⟩

/-- The first byte of an unfinished sequence goes on no other. -/
theorem not_isContinuation {first : UInt8} {rest : List UInt8}
    (h : head (first :: rest) = .unfinished) : ¬isContinuation first := by
  obtain ⟨_, _, others, hcons, hwanted, -, -⟩ := exists_wanted h (List.cons_ne_nil _ _)
  obtain ⟨rfl, rfl⟩ := List.cons.inj hcons
  rw [isContinuation, Bool.and_eq_true, decide_eq_true_iff, decide_eq_true_iff]
  rintro ⟨-, hbf⟩
  have := UInt8.le_trans (wanted_spec hwanted).1 hbf
  exact absurd this (by decide)

/-- An unfinished sequence does not begin inside of another one. -/
theorem head_ne_unfinished_of_inside {front : List UInt8} (hfront : front ≠ []) (hp : p ≠ [])
    (h : head (front ++ p) = .unfinished ∨
      ∃ n ok, head (front ++ p) = .ended n ok ∧ front.length < n) : head p ≠ .unfinished := by
  obtain ⟨byte, b, rfl⟩ := List.exists_cons_of_ne_nil hp
  obtain ⟨first, front, rfl⟩ := List.exists_cons_of_ne_nil hfront
  intro hunfinished
  refine not_isContinuation hunfinished ?_
  rw [List.cons_append, head] at h
  split at h
  · exact (Head.not_later (by simp) h).elim
  · cases hwanted : wanted first with
    | none =>
      rw [hwanted] at h
      exact (Head.not_later (by simp) h).elim
    | some others =>
      rw [hwanted] at h
      refine isContinuation_of_follow (wanted_spec hwanted).2.2.2 rfl (h.imp id ?_)
      rintro ⟨n, ok, h, hn⟩
      rw [List.length_cons] at hn
      exact ⟨n, ok, h, by omega⟩

theorem length_le_three (h : head p = .unfinished) : p.length ≤ 3 := by
  by_cases hne : p = []
  · simp [hne]
  · obtain ⟨first, rest, others, rfl, hwanted, hfollow, -⟩ := exists_wanted h hne
    have hlt := length_lt_of_follow hfollow
    have hothers := (wanted_spec hwanted).2.2.1
    rw [List.length_cons]
    omega

/-- The next byte ends an unfinished sequence before it, or is one of the sequence. -/
theorem head_concat (h : head p = .unfinished) (hne : p ≠ []) (byte : UInt8) :
    head (p ++ [byte]) = .ended p.length false ∨
      isContinuation byte ∧ (head (p ++ [byte]) = .unfinished ∨
        head (p ++ [byte]) = .ended (p.length + 1) true) := by
  obtain ⟨first, rest, others, rfl, hwanted, hfollow, hhead⟩ := exists_wanted h hne
  rw [List.cons_append, hhead, List.length_cons, Nat.add_comm rest.length 1]
  exact follow_concat (wanted_spec hwanted).2.2.2 hfollow byte

end Head

/-! ### The characters of a sequence -/

/-- The text of a first byte with more wanted and of what is behind it. -/
def charsOf (lead : ℕ) (rest : List UInt8) : Head → List Char
  | .ended n true => assemble lead (rest.take (n - 1)) :: lossyChars (rest.drop (n - 1))
  | .ended n false => replacement :: lossyChars (rest.drop (n - 1))
  | .unfinished => [replacement]

section Characters

variable {first : UInt8} {others : List (UInt8 → Bool)} {a p : List UInt8} {n : ℕ} {ok : Bool}

theorem lossyChars_of_wanted (h : wanted first = some others) :
    ∃ lead, ∀ rest, lossyChars (first :: rest) = charsOf lead rest (follow others 1 rest) := by
  have hone : ¬first < 0x80 :=
    UInt8.not_lt.mpr (UInt8.le_trans (by decide) (wanted_spec h).1)
  rw [wanted] at h
  split at h
  · rename_i htwo
    obtain rfl := Option.some.inj h
    refine ⟨first.toNat % 32, fun rest => ?_⟩
    rw [lossyChars.eq_def]
    simp only [hone, htwo, if_true, if_false]
    rcases rest with _ | ⟨second, rest⟩
    · rfl
    · simp only [follow]
      split <;> rfl
  · rename_i htwo
    split at h
    · rename_i hthree
      obtain rfl := Option.some.inj h
      refine ⟨first.toNat % 16, fun rest => ?_⟩
      rw [lossyChars.eq_def]
      simp only [hone, htwo, hthree, if_true, if_false, Bool.false_eq_true]
      rcases rest with _ | ⟨second, _ | ⟨third, rest⟩⟩
      · rfl
      · simp only [follow]
        split <;> rfl
      · simp only [follow]
        split
        · split <;> rfl
        · rfl
    · rename_i hthree
      split at h
      · rename_i hfour
        obtain rfl := Option.some.inj h
        refine ⟨first.toNat % 8, fun rest => ?_⟩
        rw [lossyChars.eq_def]
        simp only [hone, htwo, hthree, hfour, if_true, if_false, Bool.false_eq_true]
        rcases rest with _ | ⟨second, _ | ⟨third, _ | ⟨fourth, rest⟩⟩⟩
        · rfl
        · simp only [follow]
          split <;> rfl
        · simp only [follow]
          split
          · split <;> rfl
          · rfl
        · simp only [follow]
          split
          · split
            · split <;> rfl
            · rfl
          · rfl
      · cases h

theorem lossyChars_of_not_wanted (hone : ¬first < 0x80) (h : wanted first = none)
    (rest : List UInt8) : lossyChars (first :: rest) = replacement :: lossyChars rest := by
  rw [wanted] at h
  rw [lossyChars.eq_def]
  grind

/-- A sequence that has ended is one character of the text, U+FFFD where it is none itself. -/
theorem exists_lossyChars_eq (h : head a = .ended n ok) :
    ∃ c, (ok = false → c = replacement) ∧
      ∀ b, lossyChars (a ++ b) = c :: lossyChars (a.drop n ++ b) := by
  cases a with
  | nil => cases h
  | cons first rest =>
    rw [head] at h
    split at h
    · rename_i hone
      obtain ⟨rfl, rfl⟩ := Head.ended.inj h
      exact ⟨_, fun h => Bool.noConfusion h, fun b => lossyChars_one hone (rest ++ b)⟩
    · rename_i hone
      cases hwanted : wanted first with
      | none =>
        rw [hwanted] at h
        obtain ⟨rfl, rfl⟩ := Head.ended.inj h
        exact ⟨_, fun _ => rfl, fun b => lossyChars_of_not_wanted hone hwanted (rest ++ b)⟩
      | some others =>
        rw [hwanted] at h
        obtain ⟨lead, hlead⟩ := lossyChars_of_wanted hwanted
        have hbounds := follow_bounds h
        have hle : n - 1 ≤ rest.length := by omega
        have hdrop : (first :: rest).drop n = rest.drop (n - 1) := by
          obtain ⟨k, rfl⟩ := Nat.exists_eq_add_of_le' hbounds.1
          rfl
        rw [hdrop]
        cases ok with
        | true =>
          refine ⟨assemble lead (rest.take (n - 1)), fun h => Bool.noConfusion h, fun b => ?_⟩
          rw [List.cons_append, hlead, follow_append h, charsOf, List.take_append_of_le_length hle,
            List.drop_append_of_le_length hle]
        | false =>
          refine ⟨replacement, fun _ => rfl, fun b => ?_⟩
          rw [List.cons_append, hlead, follow_append h, charsOf, List.drop_append_of_le_length hle]

theorem lossyChars_of_unfinished (h : head p = .unfinished) (hne : p ≠ []) :
    lossyChars p = [replacement] := by
  obtain ⟨first, rest, others, rfl, hwanted, hfollow, -⟩ := exists_wanted h hne
  obtain ⟨lead, hlead⟩ := lossyChars_of_wanted hwanted
  rw [hlead, hfollow, charsOf]

theorem lossyChars_of_isContinuation {byte : UInt8} (h : isContinuation byte) (rest : List UInt8) :
    lossyChars (byte :: rest) = replacement :: lossyChars rest := by
  rw [isContinuation, Bool.and_eq_true, decide_eq_true_iff, decide_eq_true_iff] at h
  apply lossyChars_of_not_wanted (UInt8.not_lt.mpr h.1)
  by_contra hwanted
  obtain ⟨others, hwanted⟩ := Option.ne_none_iff_exists'.mp hwanted
  have := UInt8.le_trans (wanted_spec hwanted).1 h.2
  exact absurd this (by decide)

/-- Bytes that are taken into an unfinished sequence make no character more of the text. -/
theorem length_lossyChars_unfinished_append (h : head p = .unfinished) (hne : p ≠ [])
    (b : List UInt8) : (lossyChars (p ++ b)).length ≤ (lossyChars b).length + 1 := by
  induction b generalizing p with
  | nil => simp [lossyChars_of_unfinished h hne]
  | cons byte b ih =>
    have hassoc : p ++ byte :: b = p ++ [byte] ++ b := by simp
    rcases head_concat h hne byte with hends | ⟨hbyte, hgoes | hends⟩
    · obtain ⟨c, -, hc⟩ := exists_lossyChars_eq hends
      rw [hassoc, hc, List.drop_left]
      exact le_rfl
    · rw [hassoc, lossyChars_of_isContinuation hbyte, List.length_cons]
      exact (ih hgoes (by simp)).trans (Nat.le_succ _)
    · obtain ⟨c, -, hc⟩ := exists_lossyChars_eq hends
      rw [hassoc, hc, List.drop_of_length_le (by simp), List.nil_append,
        lossyChars_of_isContinuation hbyte, List.length_cons, List.length_cons]
      exact Nat.le_succ _

end Characters

/-! ### The sequence at the end -/

/-- The sequence that the end of some bytes is in the middle of. -/
def unfinishedEnd : List UInt8 → List UInt8
  | [] => []
  | first :: rest =>
    match head (first :: rest) with
    | .ended length _ => unfinishedEnd (rest.drop (length - 1))
    | .unfinished => first :: rest
termination_by bytes => bytes.length

/-- A sequence of the bytes before a cut goes on behind it. -/
def Splits (a b : List UInt8) : Prop :=
  unfinishedEnd a ≠ [] ∧
    ∃ byte ∈ b.head?, head (unfinishedEnd a ++ [byte]) ≠ .ended (unfinishedEnd a).length false

instance (a b : List UInt8) : Decidable (Splits a b) := inferInstanceAs (Decidable (_ ∧ _))

section End

variable {a b p : List UInt8} {n : ℕ} {ok : Bool}

/-- The induction over the sequences of some bytes. -/
theorem sequences_induction {motive : List UInt8 → Prop}
    (unfinished : ∀ a, head a = .unfinished → motive a)
    (ended : ∀ a n ok, head a = .ended n ok → motive (a.drop n) → motive a) (a : List UInt8) :
    motive a := by
  cases h : head a with
  | unfinished => exact unfinished a h
  | ended n ok =>
    have hbounds := head_bounds h
    exact ended a n ok h (sequences_induction unfinished ended (a.drop n))
termination_by a.length
decreasing_by
  rw [List.length_drop]
  omega

theorem unfinishedEnd_of_ended (h : head a = .ended n ok) :
    unfinishedEnd a = unfinishedEnd (a.drop n) := by
  cases a with
  | nil => cases h
  | cons first rest =>
    obtain ⟨k, rfl⟩ := Nat.exists_eq_add_of_le' (head_bounds h).1
    rw [unfinishedEnd, h]
    rfl

theorem unfinishedEnd_of_unfinished (h : head p = .unfinished) : unfinishedEnd p = p := by
  cases p with
  | nil => rw [unfinishedEnd]
  | cons first rest => rw [unfinishedEnd, h]

theorem head_unfinishedEnd (a : List UInt8) : head (unfinishedEnd a) = .unfinished := by
  induction a using sequences_induction with
  | unfinished a h => rwa [unfinishedEnd_of_unfinished h]
  | ended a n ok h ih => rwa [unfinishedEnd_of_ended h]

theorem length_unfinishedEnd_le (a : List UInt8) : (unfinishedEnd a).length ≤ 3 :=
  length_le_three (head_unfinishedEnd a)

theorem exists_eq_append_unfinishedEnd (a : List UInt8) :
    ∃ whole, a = whole ++ unfinishedEnd a := by
  induction a using sequences_induction with
  | unfinished a h => exact ⟨[], by rw [unfinishedEnd_of_unfinished h, List.nil_append]⟩
  | ended a n ok h ih =>
    obtain ⟨whole, hwhole⟩ := ih
    refine ⟨a.take n ++ whole, ?_⟩
    rw [unfinishedEnd_of_ended h, List.append_assoc, ← hwhole, List.take_append_drop]

/-- Where the bytes end in an unfinished sequence, that is the one they are in the middle of. -/
theorem unfinishedEnd_append {front : List UInt8} (hp : head p = .unfinished) (hne : p ≠ []) :
    unfinishedEnd (front ++ p) = p := by
  induction ha : front ++ p using sequences_induction generalizing front with
  | unfinished a h =>
    subst ha
    by_cases hfront : front = []
    · rw [hfront, List.nil_append, unfinishedEnd_of_unfinished hp]
    · exact absurd hp (head_ne_unfinished_of_inside hfront hne (.inl h))
  | ended a n ok h ih =>
    subst ha
    rw [unfinishedEnd_of_ended h]
    by_cases hn : front.length < n
    · have hfront : front ≠ [] := by
        rintro rfl
        rw [List.nil_append, hp] at h
        cases h
      exact absurd hp (head_ne_unfinished_of_inside hfront hne (.inr ⟨n, ok, h, hn⟩))
    · exact ih (List.drop_append_of_le_length (Nat.le_of_not_lt hn)).symm

/-- The bytes end in a character that is cut off. -/
def EndsUnfinished (a : List UInt8) : Prop :=
  ∃ front p, a = front ++ p ∧ p ≠ [] ∧ head p = .unfinished

theorem endsUnfinished_iff : EndsUnfinished a ↔ unfinishedEnd a ≠ [] := by
  constructor
  · rintro ⟨front, p, rfl, hne, hp⟩
    rwa [unfinishedEnd_append hp hne]
  · intro hne
    obtain ⟨whole, hwhole⟩ := exists_eq_append_unfinishedEnd a
    exact ⟨whole, unfinishedEnd a, hwhole, hne, head_unfinishedEnd a⟩

/-! ### Cuts -/

theorem splits_of_ended (h : head a = .ended n ok) : Splits a b ↔ Splits (a.drop n) b := by
  rw [Splits, Splits, unfinishedEnd_of_ended h]

/-- A cut before an unfinished sequence splits none. -/
theorem not_splits_unfinishedEnd {whole : List UInt8} (h : a = whole ++ unfinishedEnd a)
    (b : List UInt8) : ¬Splits whole (unfinishedEnd a ++ b) := by
  rintro ⟨hwhole, byte, hbyte, hgoes⟩
  by_cases hend : unfinishedEnd a = []
  · rw [hend, List.append_nil] at h
    exact hwhole (h ▸ hend)
  · obtain ⟨first, rest, hfirst⟩ := List.exists_cons_of_ne_nil hend
    have hunfinished := head_unfinishedEnd a
    rw [hfirst] at hunfinished
    rw [hfirst, List.cons_append, List.head?_cons] at hbyte
    obtain rfl := Option.some.inj hbyte
    rcases head_concat (head_unfinishedEnd whole) hwhole first with hends | ⟨hcontinues, -⟩
    · exact hgoes hends
    · exact not_isContinuation hunfinished hcontinues

/-- A cut that splits no sequence leaves the text as it is. -/
theorem lossyChars_append (h : ¬Splits a b) :
    lossyChars (a ++ b) = lossyChars a ++ lossyChars b := by
  induction a using sequences_induction with
  | unfinished a ha =>
    by_cases hne : a = []
    · rw [hne]
      rfl
    · cases b with
      | nil => simp [lossyChars]
      | cons byte b =>
        have hends : head (a ++ [byte]) = .ended a.length false := by
          by_contra hgoes
          rw [← unfinishedEnd_of_unfinished ha] at hne hgoes
          exact h ⟨hne, byte, rfl, hgoes⟩
        obtain ⟨c, hc, hchars⟩ := exists_lossyChars_eq hends
        rw [show a ++ byte :: b = a ++ [byte] ++ b by simp, hchars, hc rfl, List.drop_left,
          lossyChars_of_unfinished ha hne]
        rfl
  | ended a n ok ha ih =>
    obtain ⟨c, -, hchars⟩ := exists_lossyChars_eq ha
    have hself := hchars []
    rw [List.append_nil, List.append_nil] at hself
    rw [hchars, ih (mt (splits_of_ended ha).mpr h), hself, List.cons_append]

/-- A cut that splits a sequence makes more characters of it. -/
theorem length_lossyChars_lt (h : Splits a b) :
    (lossyChars (a ++ b)).length < (lossyChars a).length + (lossyChars b).length := by
  induction a using sequences_induction with
  | unfinished a ha =>
    obtain ⟨hne, byte, hbyte, hgoes⟩ := h
    rw [unfinishedEnd_of_unfinished ha] at hne hgoes
    obtain ⟨b, rfl⟩ : ∃ rest, b = byte :: rest := by
      cases b with
      | nil => cases hbyte
      | cons first rest => exact ⟨rest, congrArg (· :: rest) (Option.some.inj hbyte)⟩
    have hassoc : a ++ byte :: b = a ++ [byte] ++ b := by simp
    rcases head_concat ha hne byte with hends | ⟨hcontinues, hunfinished | hcharacter⟩
    · exact absurd hends hgoes
    · have hle := length_lossyChars_unfinished_append hunfinished (by simp) b
      rw [hassoc, lossyChars_of_unfinished ha hne, lossyChars_of_isContinuation hcontinues,
        List.length_singleton, List.length_cons]
      omega
    · obtain ⟨c, -, hchars⟩ := exists_lossyChars_eq hcharacter
      rw [hassoc, hchars, List.drop_of_length_le (by simp), List.nil_append,
        lossyChars_of_unfinished ha hne, lossyChars_of_isContinuation hcontinues,
        List.length_singleton, List.length_cons, List.length_cons]
      omega
  | ended a n ok ha ih =>
    obtain ⟨c, -, hchars⟩ := exists_lossyChars_eq ha
    have hself := hchars []
    rw [List.append_nil, List.append_nil] at hself
    have hlt := ih ((splits_of_ended ha).mp h)
    rw [hchars, hself, List.length_cons, List.length_cons]
    omega

theorem length_lossyChars_append_le (a b : List UInt8) :
    (lossyChars (a ++ b)).length ≤ (lossyChars a).length + (lossyChars b).length := by
  by_cases h : Splits a b
  · exact (length_lossyChars_lt h).le
  · rw [lossyChars_append h, List.length_append]

/-! ### The first error -/

structure Utf8Error where
  validUpTo : ℕ
  errorLen : Option ℕ
deriving DecidableEq

/-- The error that some bytes are no UTF-8 by, which has no length where they only end too
early. -/
def fromUtf8Error? : List UInt8 → Option Utf8Error
  | [] => none
  | first :: rest =>
    match head (first :: rest) with
    | .ended length true =>
      (fromUtf8Error? (rest.drop (length - 1))).map fun error =>
        { error with validUpTo := length + error.validUpTo }
    | .ended length false => some ⟨0, some length⟩
    | .unfinished => some ⟨0, none⟩
termination_by bytes => bytes.length

theorem fromUtf8Error?_of_character (h : head a = .ended n true) :
    fromUtf8Error? a = (fromUtf8Error? (a.drop n)).map fun error =>
      { error with validUpTo := n + error.validUpTo } := by
  cases a with
  | nil => cases h
  | cons first rest =>
    obtain ⟨k, rfl⟩ := Nat.exists_eq_add_of_le' (head_bounds h).1
    rw [fromUtf8Error?, h]
    rfl

theorem fromUtf8Error?_of_invalid (h : head a = .ended n false) :
    fromUtf8Error? a = some ⟨0, some n⟩ := by
  cases a with
  | nil => cases h
  | cons first rest => rw [fromUtf8Error?, h]

theorem fromUtf8Error?_of_unfinished (h : head p = .unfinished) :
    fromUtf8Error? p = if p = [] then none else some ⟨0, none⟩ := by
  cases p with
  | nil => rw [fromUtf8Error?, if_pos rfl]
  | cons first rest => rw [fromUtf8Error?, h, if_neg (List.cons_ne_nil _ _)]

/-- Bytes have no error, or end too early behind what is valid, or hold a sequence there that is no
character. -/
theorem fromUtf8Error?_cases (a : List UInt8) :
    fromUtf8Error? a = none ∧ unfinishedEnd a = [] ∨
      (∃ valid, a = valid ++ unfinishedEnd a ∧ unfinishedEnd a ≠ [] ∧
        fromUtf8Error? a = some ⟨valid.length, none⟩) ∨
      ∃ valid rest n, a = valid ++ rest ∧ head rest = .ended n false ∧
        fromUtf8Error? a = some ⟨valid.length, some n⟩ ∧
        unfinishedEnd a = unfinishedEnd (rest.drop n) := by
  induction a using sequences_induction with
  | unfinished a h =>
    rw [fromUtf8Error?_of_unfinished h, unfinishedEnd_of_unfinished h]
    by_cases hne : a = []
    · exact .inl ⟨if_pos hne, hne⟩
    · exact .inr (.inl ⟨[], rfl, hne, if_neg hne⟩)
  | ended a n ok h ih =>
    rw [unfinishedEnd_of_ended h]
    cases ok with
    | false =>
      exact .inr (.inr ⟨[], a, n, rfl, h, fromUtf8Error?_of_invalid h, rfl⟩)
    | true =>
      have hlength : (a.take n).length = n := List.length_take_of_le (head_bounds h).2
      rw [fromUtf8Error?_of_character h]
      rcases ih with ⟨hnone, hend⟩ | ⟨valid, hvalid, hne, hsome⟩ |
        ⟨valid, rest, k, hvalid, hrest, hsome, hend⟩
      · exact .inl ⟨by rw [hnone, Option.map_none], hend⟩
      · refine .inr (.inl ⟨a.take n ++ valid, ?_, hne, ?_⟩)
        · rw [List.append_assoc, ← hvalid, List.take_append_drop]
        · rw [hsome, Option.map_some, List.length_append, hlength]
      · refine .inr (.inr ⟨a.take n ++ valid, rest, k, ?_, hrest, ?_, hend⟩)
        · rw [List.append_assoc, ← hvalid, List.take_append_drop]
        · rw [hsome, Option.map_some, List.length_append, hlength]

end End

end Utf8

import Mathlib.Data.List.Induction
import Mathlib.Data.Nat.ModEq

/-!
# Numbers and texts as bytes

`toBe` writes a number in a fixed count of bytes, the most significant first, and `ofBe` reads
one: reading what was written gives the number modulo what the bytes can hold (`ofBe_toBe`), and
writing what was read gives the bytes back (`toBe_ofBe`), so the two are inverse bijections
between numbers that fit and byte strings of that length. `ofText` and `toText?` do the same for
texts and their UTF-8 encoding. `fromUtf8Lossy` reads any bytes as text: what is valid UTF-8 is
kept, and each longest run of bytes that only begins a character is replaced by one U+FFFD; so a
text is read back from its own encoding (`fromUtf8Lossy_ofText`).
-/

namespace Bytes

/-! ### Big-endian numbers -/

/-- The last bytes of a number, the most significant first. -/
def toBe : ℕ → ℕ → List UInt8
  | 0, _ => []
  | width + 1, n => toBe width (n / 256) ++ [UInt8.ofNat n]

/-- The number some bytes are the digits of, the most significant first. -/
def ofBe (bytes : List UInt8) : ℕ := bytes.foldl (fun n byte => n * 256 + byte.toNat) 0

@[simp] theorem length_toBe (width n : ℕ) : (toBe width n).length = width := by
  induction width generalizing n with
  | zero => rfl
  | succ width ih => rw [toBe, List.length_append, ih, List.length_singleton]

theorem ofBe_concat (bytes : List UInt8) (byte : UInt8) :
    ofBe (bytes ++ [byte]) = ofBe bytes * 256 + byte.toNat := by
  simp [ofBe, List.foldl_append]

theorem ofBe_toBe (width n : ℕ) : ofBe (toBe width n) = n % 256 ^ width := by
  induction width generalizing n with
  | zero => simp [toBe, ofBe, Nat.mod_one]
  | succ width ih =>
    have hmod : n % 256 ^ (width + 1) = n % 256 + 256 * (n / 256 % 256 ^ width) := by
      rw [Nat.pow_succ', Nat.mod_mul]
    rw [toBe, ofBe_concat, ih, UInt8.toNat_ofNat', hmod]
    omega

theorem ofBe_toBe_of_lt {width n : ℕ} (h : n < 256 ^ width) : ofBe (toBe width n) = n := by
  rw [ofBe_toBe, Nat.mod_eq_of_lt h]

theorem toBe_ofBe (bytes : List UInt8) : toBe bytes.length (ofBe bytes) = bytes := by
  induction bytes using List.reverseRecOn with
  | nil => rfl
  | append_singleton bytes byte ih =>
    have hdiv : (ofBe bytes * 256 + byte.toNat) / 256 = ofBe bytes := by
      have := byte.toNat_lt
      omega
    have hmod : UInt8.ofNat (ofBe bytes * 256 + byte.toNat) = byte := by
      apply UInt8.toNat_inj.mp
      have := byte.toNat_lt
      rw [UInt8.toNat_ofNat']
      omega
    rw [List.length_append, List.length_singleton, toBe, ofBe_concat, hdiv, ih, hmod]

theorem ofBe_lt (bytes : List UInt8) : ofBe bytes < 256 ^ bytes.length := by
  have h := ofBe_toBe bytes.length (ofBe bytes)
  rw [toBe_ofBe] at h
  rw [h]
  exact Nat.mod_lt _ (Nat.pow_pos (by decide))

/-- A 32-bit number is the four bytes it is written in. -/
theorem u32_toBe (n : UInt32) : UInt32.ofNat (ofBe (toBe 4 n.toNat)) = n := by
  rw [ofBe_toBe_of_lt n.toNat_lt, UInt32.ofNat_toNat]

/-- A 64-bit number is the eight bytes it is written in. -/
theorem u64_toBe (n : UInt64) : UInt64.ofNat (ofBe (toBe 8 n.toNat)) = n := by
  rw [ofBe_toBe_of_lt n.toNat_lt, UInt64.ofNat_toNat]

theorem toBe_u32 {bytes : List UInt8} (h : bytes.length = 4) :
    toBe 4 (UInt32.ofNat (ofBe bytes)).toNat = bytes := by
  have hlt : ofBe bytes < 2 ^ 32 := by
    have := ofBe_lt bytes
    rwa [h] at this
  have hback := toBe_ofBe bytes
  rwa [UInt32.toNat_ofNat_of_lt' hlt, ← h]

/-! ### Texts -/

/-- The UTF-8 encoding of a text. -/
def ofText (text : String) : List UInt8 := text.toByteArray.data.toList

/-- The text some bytes are the encoding of. -/
def toText? (bytes : List UInt8) : Option String := String.fromUTF8? ⟨bytes.toArray⟩

@[simp] theorem length_ofText (text : String) : (ofText text).length = text.utf8ByteSize := rfl

@[simp] theorem toText?_ofText (text : String) : toText? (ofText text) = some text := by
  rw [toText?, ofText, Array.toArray_toList, String.fromUTF8?, dif_pos text.isValidUTF8]
  exact congrArg some (String.toByteArray_inj.mp rfl)

theorem ofText_of_toText? {bytes : List UInt8} {text : String} (h : toText? bytes = some text) :
    ofText text = bytes := by
  rw [toText?, String.fromUTF8?] at h
  split at h
  · rw [← Option.some.inj h]
    rfl
  · cases h

/-- The bytes that the encoding of some characters takes. -/
def size : List Char → ℕ
  | [] => 0
  | c :: chars => c.utf8Size + size chars

theorem size_ofList (chars : List Char) : (String.ofList chars).utf8ByteSize = size chars := by
  induction chars with
  | nil => rfl
  | cons c chars ih =>
    rw [String.ofList_cons, String.utf8ByteSize_append, String.utf8ByteSize_singleton, ih, size]

theorem utf8ByteSize_eq (text : String) : text.utf8ByteSize = size text.toList := by
  rw [← size_ofList, String.ofList_toList]

theorem size_append (a b : List Char) : size (a ++ b) = size a + size b := by
  induction a with
  | nil => exact (Nat.zero_add _).symm
  | cons c a ih => rw [List.cons_append, size, ih, size, Nat.add_assoc]

theorem size_le_of_sublist {a b : List Char} (h : a.Sublist b) : size a ≤ size b := by
  induction h with
  | slnil => exact le_rfl
  | cons c _ ih => exact ih.trans (Nat.le_add_left _ _)
  | cons_cons c _ ih => exact Nat.add_le_add_left ih _

/-- The bytes of a text of ASCII are its characters. -/
theorem ofText_of_ascii {chars : List Char} (h : ∀ c ∈ chars, c.toNat < 128) :
    ofText (String.ofList chars) = chars.map fun c => c.val.toUInt8 := by
  induction chars with
  | nil => decide
  | cons c chars ih =>
    have hone : c.utf8Size = 1 := by
      rw [Char.utf8Size_eq_one_iff, UInt32.le_iff_toNat_le]
      exact Nat.le_of_lt_succ (h c List.mem_cons_self)
    have hcons : ofText (String.ofList (c :: chars)) =
        String.utf8EncodeChar c ++ ofText (String.ofList chars) := by
      simp [ofText, List.utf8Encode]
    rw [hcons, String.utf8EncodeChar_eq_singleton hone,
      ih fun c hc => h c (List.mem_cons_of_mem _ hc)]
    rfl

/-- A character of ASCII takes one byte. -/
theorem size_of_ascii {text : String} (h : ∀ c ∈ text.toList, c.toNat < 128) :
    text.utf8ByteSize = text.toList.length := by
  have hbytes := congrArg List.length (ofText_of_ascii h)
  rwa [String.ofList_toList, length_ofText, List.length_map] at hbytes

theorem size_replicate (n : ℕ) (c : Char) :
    (String.ofList (List.replicate n c)).utf8ByteSize = n * c.utf8Size := by
  rw [size_ofList]
  induction n with
  | zero => exact (Nat.zero_mul _).symm
  | succ n ih => rw [List.replicate_succ, size, ih, Nat.succ_mul, Nat.add_comm]

/-- A text has no more characters than bytes. -/
theorem length_le_size (text : String) : text.toList.length ≤ text.utf8ByteSize := by
  rw [utf8ByteSize_eq]
  induction text.toList with
  | nil => exact le_rfl
  | cons c chars ih =>
    have hpos := c.utf8Size_pos
    rw [List.length_cons, size]
    omega

/-- A character takes four bytes at most. -/
theorem utf8ByteSize_le (text : String) : text.utf8ByteSize ≤ 4 * text.toList.length := by
  rw [utf8ByteSize_eq]
  induction text.toList with
  | nil => exact le_rfl
  | cons c chars ih =>
    have hone := c.utf8Size_le_four
    rw [List.length_cons, size]
    omega

/-! ### Texts of any bytes -/

def replacement : Char := Char.ofNat 0xfffd

/-- A byte that goes on a character. -/
def isContinuation (byte : UInt8) : Bool := 0x80 ≤ byte && byte ≤ 0xbf

/-- Which second bytes a first byte of a character of three bytes allows. -/
def secondOfThree (first second : UInt8) : Bool :=
  if first = 0xe0 then 0xa0 ≤ second && second ≤ 0xbf
  else if first = 0xed then 0x80 ≤ second && second ≤ 0x9f
  else 0xe1 ≤ first && first ≤ 0xef && isContinuation second

/-- Which second bytes a first byte of a character of four bytes allows. -/
def secondOfFour (first second : UInt8) : Bool :=
  if first = 0xf0 then 0x90 ≤ second && second ≤ 0xbf
  else if first = 0xf4 then 0x80 ≤ second && second ≤ 0x8f
  else 0xf1 ≤ first && first ≤ 0xf3 && isContinuation second

/-- The character of a first byte's low bits and the bytes that go on from it. -/
def assemble (lead : ℕ) (rest : List UInt8) : Char :=
  Char.ofNat (rest.foldl (fun n byte => n * 64 + byte.toNat % 64) lead)

/-- The characters of some bytes, each run that is no character replaced. -/
def lossyChars : List UInt8 → List Char
  | [] => []
  | first :: rest =>
    if first < 0x80 then Char.ofNat first.toNat :: lossyChars rest
    else if 0xc2 ≤ first && first ≤ 0xdf then
      match rest with
      | second :: rest =>
        if isContinuation second then assemble (first.toNat % 32) [second] :: lossyChars rest
        else replacement :: lossyChars (second :: rest)
      | [] => [replacement]
    else if 0xe0 ≤ first && first ≤ 0xef then
      match rest with
      | second :: rest =>
        if secondOfThree first second then
          match rest with
          | third :: rest =>
            if isContinuation third then
              assemble (first.toNat % 16) [second, third] :: lossyChars rest
            else replacement :: lossyChars (third :: rest)
          | [] => [replacement]
        else replacement :: lossyChars (second :: rest)
      | [] => [replacement]
    else if 0xf0 ≤ first && first ≤ 0xf4 then
      match rest with
      | second :: rest =>
        if secondOfFour first second then
          match rest with
          | third :: rest =>
            if isContinuation third then
              match rest with
              | fourth :: rest =>
                if isContinuation fourth then
                  assemble (first.toNat % 8) [second, third, fourth] :: lossyChars rest
                else replacement :: lossyChars (fourth :: rest)
              | [] => [replacement]
            else replacement :: lossyChars (third :: rest)
          | [] => [replacement]
        else replacement :: lossyChars (second :: rest)
      | [] => [replacement]
    else replacement :: lossyChars rest

/-- The text of some bytes. -/
def fromUtf8Lossy (bytes : List UInt8) : String := String.ofList (lossyChars bytes)

section Lossy

variable {first second third fourth : UInt8}

theorem lossyChars_one (h : first < 0x80) (rest : List UInt8) :
    lossyChars (first :: rest) = Char.ofNat first.toNat :: lossyChars rest := by
  rw [lossyChars.eq_def]
  exact if_pos h

theorem lossyChars_two (hfirst : 0xc2 ≤ first ∧ first ≤ 0xdf) (hsecond : isContinuation second)
    (rest : List UInt8) :
    lossyChars (first :: second :: rest) =
      assemble (first.toNat % 32) [second] :: lossyChars rest := by
  have h80 : ¬first < 0x80 := UInt8.not_lt.mpr (UInt8.le_trans (by decide) hfirst.1)
  rw [lossyChars.eq_def]
  simp only [h80, hfirst, hsecond, if_true, if_false, decide_true, Bool.and_self]

theorem lossyChars_three (hfirst : 0xe0 ≤ first ∧ first ≤ 0xef)
    (hsecond : secondOfThree first second) (hthird : isContinuation third) (rest : List UInt8) :
    lossyChars (first :: second :: third :: rest) =
      assemble (first.toNat % 16) [second, third] :: lossyChars rest := by
  have h80 : ¬first < 0x80 := UInt8.not_lt.mpr (UInt8.le_trans (by decide) hfirst.1)
  have hdf : ¬first ≤ 0xdf := UInt8.not_le.mpr (UInt8.lt_of_lt_of_le (by decide) hfirst.1)
  rw [lossyChars.eq_def]
  simp only [h80, hdf, hfirst, hsecond, hthird, if_true, if_false, decide_true, decide_false,
    Bool.and_self, Bool.and_false, Bool.false_eq_true]

theorem lossyChars_four (hfirst : 0xf0 ≤ first ∧ first ≤ 0xf4)
    (hsecond : secondOfFour first second) (hthird : isContinuation third)
    (hfourth : isContinuation fourth) (rest : List UInt8) :
    lossyChars (first :: second :: third :: fourth :: rest) =
      assemble (first.toNat % 8) [second, third, fourth] :: lossyChars rest := by
  have h80 : ¬first < 0x80 := UInt8.not_lt.mpr (UInt8.le_trans (by decide) hfirst.1)
  have hdf : ¬first ≤ 0xdf := UInt8.not_le.mpr (UInt8.lt_of_lt_of_le (by decide) hfirst.1)
  have hef : ¬first ≤ 0xef := UInt8.not_le.mpr (UInt8.lt_of_lt_of_le (by decide) hfirst.1)
  rw [lossyChars.eq_def]
  simp only [h80, hdf, hef, hfirst, hsecond, hthird, hfourth, if_true, if_false, decide_true,
    decide_false, Bool.and_self, Bool.and_false, Bool.false_eq_true]

theorem ofNat_le_ofNat_iff {n m : ℕ} (hn : n < 256) (hm : m < 256) :
    UInt8.ofNat n ≤ UInt8.ofNat m ↔ n ≤ m := by
  rw [UInt8.le_iff_toNat_le, UInt8.toNat_ofNat_of_lt' hn, UInt8.toNat_ofNat_of_lt' hm]

/-- A byte between two others, said of their numbers. -/
theorem between_ofNat {least n most : ℕ} (hleast : least ≤ n) (hmost : n ≤ most)
    (h256 : most < 256) :
    UInt8.ofNat least ≤ UInt8.ofNat n ∧ UInt8.ofNat n ≤ UInt8.ofNat most :=
  ⟨(ofNat_le_ofNat_iff (by omega) (by omega)).mpr hleast,
    (ofNat_le_ofNat_iff (by omega) h256).mpr hmost⟩

theorem eq_of_ofNat_eq {n m : ℕ} (hn : n < 256) (hm : m < 256)
    (h : UInt8.ofNat n = UInt8.ofNat m) : n = m := by
  rw [← UInt8.toNat_inj, UInt8.toNat_ofNat_of_lt' hn, UInt8.toNat_ofNat_of_lt' hm] at h
  exact h

theorem isContinuation_ofNat {n : ℕ} (hleast : 0x80 ≤ n) (hmost : n ≤ 0xbf) :
    isContinuation (UInt8.ofNat n) := by
  rw [isContinuation, Bool.and_eq_true, decide_eq_true_iff, decide_eq_true_iff]
  exact between_ofNat hleast hmost (by decide)

/-- The second byte of a character of three, which is no surrogate. -/
theorem secondOfThree_ofNat {v : ℕ} (hleast : 0x800 ≤ v) (hmost : v ≤ 0xffff)
    (hvalid : v < 0xd800 ∨ 0xdfff < v) :
    secondOfThree (UInt8.ofNat (v / 4096 % 0x10 + 0xe0)) (UInt8.ofNat (v / 64 % 0x40 + 0x80)) := by
  rw [secondOfThree]
  split
  · rename_i hfirst
    have hfirst := eq_of_ofNat_eq (m := 0xe0) (by omega) (by decide) hfirst
    rw [Bool.and_eq_true, decide_eq_true_iff, decide_eq_true_iff]
    exact @between_ofNat 0xa0 _ 0xbf (by omega) (by omega) (by decide)
  · rename_i hfirst
    have hfirst : v / 4096 % 0x10 + 0xe0 ≠ 0xe0 := fun h => hfirst (by rw [h]; rfl)
    split
    · rename_i hsurrogates
      have hsurrogates := eq_of_ofNat_eq (m := 0xed) (by omega) (by decide) hsurrogates
      rw [Bool.and_eq_true, decide_eq_true_iff, decide_eq_true_iff]
      exact @between_ofNat 0x80 _ 0x9f (by omega) (by omega) (by decide)
    · rw [Bool.and_eq_true, Bool.and_eq_true, decide_eq_true_iff, decide_eq_true_iff]
      exact ⟨@between_ofNat 0xe1 _ 0xef (by omega) (by omega) (by decide),
        isContinuation_ofNat (by omega) (by omega)⟩

/-- The second byte of a character of four, which is none past the last. -/
theorem secondOfFour_ofNat {v : ℕ} (hleast : 0x10000 ≤ v) (hmost : v < 0x110000) :
    secondOfFour (UInt8.ofNat (v / 262144 % 0x08 + 0xf0))
      (UInt8.ofNat (v / 4096 % 0x40 + 0x80)) := by
  rw [secondOfFour]
  split
  · rename_i hfirst
    have hfirst := eq_of_ofNat_eq (m := 0xf0) (by omega) (by decide) hfirst
    rw [Bool.and_eq_true, decide_eq_true_iff, decide_eq_true_iff]
    exact @between_ofNat 0x90 _ 0xbf (by omega) (by omega) (by decide)
  · rename_i hfirst
    have hfirst : v / 262144 % 0x08 + 0xf0 ≠ 0xf0 := fun h => hfirst (by rw [h]; rfl)
    split
    · rename_i hlast
      have hlast := eq_of_ofNat_eq (m := 0xf4) (by omega) (by decide) hlast
      rw [Bool.and_eq_true, decide_eq_true_iff, decide_eq_true_iff]
      exact @between_ofNat 0x80 _ 0x8f (by omega) (by omega) (by decide)
    · rename_i hlast
      have hlast : v / 262144 % 0x08 + 0xf0 ≠ 0xf4 := fun h => hlast (by rw [h]; rfl)
      rw [Bool.and_eq_true, Bool.and_eq_true, decide_eq_true_iff, decide_eq_true_iff]
      exact ⟨@between_ofNat 0xf1 _ 0xf3 (by omega) (by omega) (by decide),
        isContinuation_ofNat (by omega) (by omega)⟩

/-- A character is read back from its own encoding, whatever comes behind it. -/
theorem lossyChars_utf8EncodeChar (c : Char) (rest : List UInt8) :
    lossyChars (String.utf8EncodeChar c ++ rest) = c :: lossyChars rest := by
  have hvalid : c.toNat < 0xd800 ∨ 0xdfff < c.toNat ∧ c.toNat < 0x110000 := c.valid
  have hbyte : ∀ n, n < 256 → (UInt8.ofNat n).toNat = n := fun n hn =>
    UInt8.toNat_ofNat_of_lt' hn
  -- the bits of the bytes put together are the character's number
  have hchar : ∀ n, n = c.toNat → Char.ofNat n = c := by
    rintro n rfl
    exact Char.ofNat_toNat c
  rw [String.utf8EncodeChar, show c.val.toNat = c.toNat from rfl]
  split
  · rename_i hone
    have hn := hbyte c.toNat (by omega)
    rw [List.singleton_append, lossyChars_one, hn, hchar _ rfl]
    rw [UInt8.lt_iff_toNat_lt, hn]
    exact Nat.lt_succ_of_le hone
  · split
    · show lossyChars (_ :: _ :: rest) = _
      rw [lossyChars_two, assemble, List.foldl_cons, List.foldl_nil, hbyte _ (by omega),
        hbyte _ (by omega), hchar _ (by omega)]
      · exact @between_ofNat 0xc2 _ 0xdf (by omega) (by omega) (by decide)
      · exact isContinuation_ofNat (by omega) (by omega)
    · split
      · show lossyChars (_ :: _ :: _ :: rest) = _
        rw [lossyChars_three, assemble, List.foldl_cons, List.foldl_cons, List.foldl_nil,
          hbyte _ (by omega), hbyte _ (by omega), hbyte _ (by omega), hchar _ (by omega)]
        · exact @between_ofNat 0xe0 _ 0xef (by omega) (by omega) (by decide)
        · exact secondOfThree_ofNat (by omega) (by omega) (by omega)
        · exact isContinuation_ofNat (by omega) (by omega)
      · show lossyChars (_ :: _ :: _ :: _ :: rest) = _
        rw [lossyChars_four, assemble, List.foldl_cons, List.foldl_cons, List.foldl_cons,
          List.foldl_nil, hbyte _ (by omega), hbyte _ (by omega), hbyte _ (by omega),
          hbyte _ (by omega), hchar _ (by omega)]
        · exact @between_ofNat 0xf0 _ 0xf4 (by omega) (by omega) (by decide)
        · exact secondOfFour_ofNat (by omega) (by omega)
        · exact isContinuation_ofNat (by omega) (by omega)
        · exact isContinuation_ofNat (by omega) (by omega)

end Lossy

/-- A text is read back from its encoding. -/
@[simp] theorem fromUtf8Lossy_ofText (text : String) : fromUtf8Lossy (ofText text) = text := by
  have hchars : ∀ chars : List Char, lossyChars (ofText (String.ofList chars)) = chars := by
    intro chars
    induction chars with
    | nil => rfl
    | cons c chars ih =>
      have hcons : ofText (String.ofList (c :: chars)) =
          String.utf8EncodeChar c ++ ofText (String.ofList chars) := by
        simp [ofText, List.utf8Encode]
      rw [hcons, lossyChars_utf8EncodeChar, ih]
  have h := hchars text.toList
  rw [String.ofList_toList] at h
  rw [fromUtf8Lossy, h, String.ofList_toList]

example : fromUtf8Lossy [0x61, 0xc3, 0xa9, 0xff, 0xe2, 0x82, 0x62] = "aé\ufffd\ufffdb" := by decide

end Bytes

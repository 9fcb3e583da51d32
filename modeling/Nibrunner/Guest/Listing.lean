import Mathlib.Data.List.Nodup
import Nibrunner.ForStd.Calendar
import Nibrunner.Guest.FilesystemCodec

/-!
# Directory listings

* `listingFrom_cut`: the guest writes the first of a directory's entries, as many as fit its frame,
  and a flag where one does not.
* `timestampFrom_eq`: a time is shown as its civil time in the years 0000 to 9999 and as the epoch
  otherwise, whatever second of 64 bits it is.
* `entriesFrom_entryBytes`: the host reads the entries back one after another, leaves out the
  hidden one and stops behind as many as a listing carries.
* `exact_decodeListing_iff`: the two together. The listing shows the first of the visible entries,
  and its flag is right but where the hidden entry is the last of all and one of the two cuts is
  right before it: both are made before it is known that the entry is hidden.
-/

namespace Nibrunner.GuestFilesystem

open Calendar Checked

/-! ### What the guest writes -/

/-- What the guest says of a file; its time is a signed number of 64 bits. -/
structure EntryDetails where
  kind : FilesystemEntryKind
  sizeBytes : UInt64
  modifiedSeconds : ℤ
  least_le : -2 ^ 63 ≤ modifiedSeconds
  lt_most : modifiedSeconds < 2 ^ 63
deriving DecidableEq

def encodeReply (status : UInt8) (body : List UInt8) : List UInt8 :=
  headerOf status body.length ++ body

def kindByte : FilesystemEntryKind → UInt8
  | .file => 1
  | .directory => 2
  | .other => 0

def detailsBytesOf (details : EntryDetails) : List UInt8 :=
  [kindByte details.kind] ++ Bytes.toBe 8 details.sizeBytes.toNat ++
    Bytes.toBe 8 (details.modifiedSeconds % 2 ^ 64).toNat

def maxEntryNameBytes : ℕ := 255

/-- The loop over the entries: those that fit behind the body so far, and whether one did not. -/
def listingFrom : List UInt8 → List (String × EntryDetails) → List UInt8 × Bool
  | body, [] => (body, false)
  | body, (name, details) :: entries =>
    let name := Bytes.ofText name
    if name = [] ∨ maxEntryNameBytes < name.length then listingFrom body entries
    else if bodyMaxBytes < body.length + (detailsBytes + 1 + name.length) then (body, true)
    else
      listingFrom (body ++ detailsBytesOf details ++ [UInt8.ofNat name.length] ++ name) entries

def encodeListing (entries : List (String × EntryDetails)) : List UInt8 :=
  let (body, truncated) := listingFrom [0] entries
  encodeReply statusOk (body.set 0 (if truncated then 1 else 0))

/-! ### Times -/

/-- What the time library is relied on for: a second of the years 0000 to 9999 is rendered as its
civil time, and one of another year with a sign before its year, or as the epoch where the library
has no rendering for it. -/
structure RendersCivil (render : ℤ → String) : Prop where
  civil : ∀ time : CivilTime, CivilTime.InYears time.epochSeconds →
    render (time.epochSeconds * 1000) = String.ofList (time.chars ++ ".000Z".toList)
  signed : ∀ seconds, ¬CivilTime.InYears seconds →
    render (seconds * 1000) = "1970-01-01T00:00:00.000Z" ∨
      ∃ sign rest, (sign = '+' ∨ sign = '-') ∧ (∀ c ∈ rest, c.toNat < 128) ∧
        23 ≤ rest.length ∧ render (seconds * 1000) = String.ofList (sign :: rest)

/-- The timestamp of a second: its civil time in the years 0000 to 9999, the epoch otherwise. -/
def shownTime (seconds : ℤ) : Timestamp :=
  if CivilTime.InYears seconds then
    ⟨String.ofList ((CivilTime.ofEpochSeconds seconds).chars ++ ['Z'])⟩
  else ⟨"1970-01-01T00:00:00Z"⟩

/-- A civil time is a timestamp. -/
theorem isTimestamp_chars (time : CivilTime) :
    isTimestamp (String.ofList (time.chars ++ ['Z'])) = true := by
  have hascii : ∀ c ∈ time.chars ++ ['Z'], c.toNat < 128 := by
    intro c hc
    rcases List.mem_append.mp hc with hc | hc
    · exact CivilTime.ascii_chars hc
    · rw [List.mem_singleton.mp hc]
      decide
  have hdigit : ∀ n, isAsciiDigit (Nat.digitChar (n % 10)).val.toUInt8 = true := by
    have hall : ∀ d < 10, isAsciiDigit (Nat.digitChar d).val.toUInt8 = true := by decide
    exact fun n => hall (n % 10) (Nat.mod_lt n (by decide))
  rw [isTimestamp, Bytes.ofText_of_ascii hascii]
  simp only [CivilTime.chars, digits, List.nil_append, List.cons_append, List.map_cons,
    List.map_nil]
  simp only [digitsIn, charAt, isZone, hdigit, maxTimestampLength, List.length_cons,
    List.length_nil, List.drop_zero, List.drop_succ_cons, List.take_succ_cons, List.take_zero,
    List.all_cons, List.all_nil]
  simp

/-- A text that begins with a sign is none. -/
theorem isTimestamp_signed {sign : Char} (hsign : sign = '+' ∨ sign = '-') {rest : List Char}
    (hrest : ∀ c ∈ rest, c.toNat < 128) :
    isTimestamp (String.ofList (sign :: rest)) = false := by
  have hascii : ∀ c ∈ sign :: rest, c.toNat < 128 := by
    intro c hc
    rcases List.mem_cons.mp hc with rfl | hc
    · rcases hsign with rfl | rfl <;> decide
    · exact hrest c hc
  have hyear : digitsIn ((sign :: rest).map fun c => c.val.toUInt8) 0 4 = false := by
    have hdigit : isAsciiDigit sign.val.toUInt8 = false := by
      rcases hsign with rfl | rfl <;> decide
    rw [digitsIn, List.map_cons, List.drop_zero, List.take_succ_cons, List.all_cons, hdigit,
      Bool.false_and, Bool.and_false]
  rw [isTimestamp, Bytes.ofText_of_ascii hascii]
  simp only [hyear, Bool.false_and, Bool.not_false, if_true]
  exact ite_self _

section Reading

theorem asI64_modifiedSeconds (details : EntryDetails) :
    MachineInt.asI64 (details.modifiedSeconds % 2 ^ 64).toNat = details.modifiedSeconds := by
  have hleast := details.least_le
  have hmost := details.lt_most
  rw [MachineInt.asI64]
  split <;> omega

variable {ε : Type} {render : ℤ → String}

theorem chronoSeconds_of_epoch {epochMs : ℤ}
    (h : "1970-01-01T00:00:00".toList <+: (render epochMs).toList) (hne : epochMs ≠ 0) :
    (chronoSeconds render epochMs : Checked ε (Option Timestamp)) = .ok none :=
  if_pos (Bool.and_eq_true_iff.mpr ⟨List.isPrefixOf_iff_prefix.mpr h, decide_eq_true hne⟩)

theorem chronoSeconds_of_other {epochMs : ℤ}
    (h : "1970-01-01T00:00:00".toList <+: (render epochMs).toList → epochMs = 0) :
    (chronoSeconds render epochMs : Checked ε (Option Timestamp)) =
      textPrefix (render epochMs) 19 >>= fun seconds =>
        .ok (Timestamp.parse? (seconds ++ "Z")) := by
  refine if_neg fun hboth => ?_
  obtain ⟨hlead, hne⟩ := Bool.and_eq_true_iff.mp hboth
  exact of_decide_eq_true hne (h (List.isPrefixOf_iff_prefix.mp hlead))

variable (hrender : RendersCivil render)
include hrender

/-- A second of the years 0000 to 9999 is cut to its civil time. It begins as the epoch does where
it is the epoch only. -/
theorem chronoSeconds_civil (time : CivilTime) (hyears : CivilTime.InYears time.epochSeconds) :
    (chronoSeconds render (time.epochSeconds * 1000) : Checked ε (Option Timestamp)) =
      .ok (some ⟨String.ofList (time.chars ++ ['Z'])⟩) := by
  have hepoch : (CivilTime.ofEpochSeconds 0).chars = "1970-01-01T00:00:00".toList := by
    decide +kernel
  have hascii : ∀ c ∈ time.chars ++ ".000Z".toList, c.toNat < 128 := by
    have hfraction : (".000Z".toList.all fun c => decide (c.toNat < 128)) = true := by decide
    intro c hc
    rcases List.mem_append.mp hc with hc | hc
    · exact CivilTime.ascii_chars hc
    · exact of_decide_eq_true (List.all_eq_true.mp hfraction c hc)
  have hfront : (time.chars ++ ".000Z".toList).take 19 = time.chars :=
    List.take_left' time.length_chars
  have htext : String.ofList time.chars ++ "Z" = String.ofList (time.chars ++ ['Z']) :=
    String.ofList_append.symm
  rw [chronoSeconds_of_other, hrender.civil time hyears, textPrefix_of_ascii hascii (by simp),
    ok_bind, hfront, htext, Timestamp.parse?, if_pos (isTimestamp_chars time)]
  rw [hrender.civil time hyears, ← hepoch, String.toList_ofList]
  intro hlead
  have hchars : (CivilTime.ofEpochSeconds 0).chars = time.chars :=
    (List.prefix_of_prefix_length_le hlead (List.prefix_append ..) (by simp)).eq_of_length
      (by simp)
  have hzero : CivilTime.InYears (CivilTime.ofEpochSeconds 0).epochSeconds := by decide +kernel
  rw [CivilTime.inYears_epochSeconds_iff] at hyears hzero
  rw [← CivilTime.chars_injOn hzero hyears hchars]
  decide +kernel

/-- A second of another year has no timestamp. -/
theorem chronoSeconds_signed {seconds : ℤ} (hyears : ¬CivilTime.InYears seconds) :
    (chronoSeconds render (seconds * 1000) : Checked ε (Option Timestamp)) = .ok none := by
  rcases hrender.signed seconds hyears with hepoch | ⟨sign, rest, hsign, hrest, hlong, htext⟩
  · have hlead : "1970-01-01T00:00:00".toList <+: "1970-01-01T00:00:00.000Z".toList := by decide
    refine chronoSeconds_of_epoch (by rwa [hepoch]) ?_
    rw [CivilTime.InYears] at hyears
    omega
  · have hascii : ∀ c ∈ sign :: rest, c.toNat < 128 := by
      intro c hc
      rcases List.mem_cons.mp hc with rfl | hc
      · rcases hsign with rfl | rfl <;> decide
      · exact hrest c hc
    have hcut : String.ofList ((sign :: rest).take 19) ++ "Z" =
        String.ofList (sign :: (rest.take 18 ++ ['Z'])) := String.ofList_append.symm
    have hback : ∀ c ∈ rest.take 18 ++ ['Z'], c.toNat < 128 := by
      intro c hc
      rcases List.mem_append.mp hc with hc | hc
      · exact hrest c (List.mem_of_mem_take hc)
      · rw [List.mem_singleton.mp hc]
        decide
    rw [chronoSeconds_of_other, htext,
      textPrefix_of_ascii hascii (by rw [List.length_cons]; omega), ok_bind, hcut,
      Timestamp.parse?, isTimestamp_signed hsign hback]
    · rfl
    · -- a text that begins with a sign does not begin as the epoch does
      intro hlead
      rw [htext, @String.toList_ofList (sign :: rest)] at hlead
      have hsame : '1' = sign := (List.cons_prefix_cons.mp hlead).1
      rcases hsign with rfl | rfl <;> exact absurd hsame (by decide)

theorem timestampFrom_eq (seconds : ℤ) :
    (timestampFrom render seconds : Checked ε Timestamp) = .ok (shownTime seconds) := by
  rw [timestampFrom, shownTime]
  split
  · split
    · rename_i hyears
      have hsame := CivilTime.epochSeconds_ofEpochSeconds hyears.1
      have hcivil := chronoSeconds_civil (ε := ε) hrender (CivilTime.ofEpochSeconds seconds)
        (by rwa [hsame])
      rw [hsame] at hcivil
      rw [hcivil]
      rfl
    · rename_i hyears
      rw [chronoSeconds_signed hrender hyears, ok_bind, epochTimestamp_eq]
  · rename_i hwide
    rw [if_neg, epochTimestamp_eq]
    intro hyears
    rw [CivilTime.InYears] at hyears
    omega

/-- The details of an entry are read back where its bytes begin. -/
theorem detailsAt_detailsBytesOf (front back : List UInt8) (details : EntryDetails) :
    (detailsAt render (front ++ detailsBytesOf details ++ back) front.length :
      Checked ε FilesystemDetails) =
      .ok { kind := details.kind, sizeBytes := details.sizeBytes
            modifiedAt := shownTime details.modifiedSeconds } := by
  have hfits : (details.modifiedSeconds % 2 ^ 64).toNat < 256 ^ 8 := by omega
  have hkind : (index (front ++ detailsBytesOf details ++ back) front.length : Checked ε UInt8) =
      .ok (kindByte details.kind) := by
    rw [detailsBytesOf, List.append_assoc, List.append_assoc, List.append_assoc]
    exact index_append ..
  have hsize : (u64At (front ++ detailsBytesOf details ++ back) (front.length + 1) :
      Checked ε UInt64) = .ok details.sizeBytes := by
    have hslice := slice_append (ε := ε) (front ++ [kindByte details.kind])
      (Bytes.toBe 8 details.sizeBytes.toNat)
      (Bytes.toBe 8 (details.modifiedSeconds % 2 ^ 64).toNat ++ back)
    rw [List.length_append, List.length_singleton, Bytes.length_toBe] at hslice
    rw [u64At, detailsBytesOf]
    simp only [List.append_assoc] at hslice ⊢
    rw [hslice, ok_bind, Bytes.u64_toBe]
    rfl
  have htime : (u64At (front ++ detailsBytesOf details ++ back) (front.length + 9) :
      Checked ε UInt64) = .ok (UInt64.ofNat (details.modifiedSeconds % 2 ^ 64).toNat) := by
    have hslice := slice_append (ε := ε)
      (front ++ [kindByte details.kind] ++ Bytes.toBe 8 details.sizeBytes.toNat)
      (Bytes.toBe 8 (details.modifiedSeconds % 2 ^ 64).toNat) back
    rw [List.length_append, List.length_append, List.length_singleton, Bytes.length_toBe,
      Bytes.length_toBe, Nat.add_assoc front.length] at hslice
    rw [u64At, detailsBytesOf]
    simp only [List.append_assoc] at hslice ⊢
    rw [hslice, ok_bind, Bytes.ofBe_toBe_of_lt hfits]
    rfl
  have hsame : (UInt64.ofNat (details.modifiedSeconds % 2 ^ 64).toNat).toNat =
      (details.modifiedSeconds % 2 ^ 64).toNat := UInt64.toNat_ofNat_of_lt' (by omega)
  rw [detailsAt, hkind, ok_bind, hsize, ok_bind, htime, ok_bind, hsame, asI64_modifiedSeconds,
    timestampFrom_eq hrender]
  cases details.kind <;> rfl

end Reading

/-! ### The entries of a body -/

/-- The names a directory's entries have: of 1 to 255 bytes. -/
def Named (entries : List (String × EntryDetails)) : Prop :=
  ∀ entry ∈ entries, 1 ≤ entry.1.utf8ByteSize ∧ entry.1.utf8ByteSize ≤ 255

def entryBytes (entry : String × EntryDetails) : List UInt8 :=
  detailsBytesOf entry.2 ++ [UInt8.ofNat entry.1.utf8ByteSize] ++ Bytes.ofText entry.1

/-- The bytes entries take in a body. -/
def entriesSize (entries : List (String × EntryDetails)) : ℕ :=
  (entries.map fun entry => detailsBytes + 1 + entry.1.utf8ByteSize).sum

@[simp] theorem length_detailsBytesOf (details : EntryDetails) :
    (detailsBytesOf details).length = detailsBytes := by
  simp [detailsBytesOf, detailsBytes]

@[simp] theorem length_entryBytes (entry : String × EntryDetails) :
    (entryBytes entry).length = detailsBytes + 1 + entry.1.utf8ByteSize := by
  simp [entryBytes, Nat.add_assoc, Nat.add_comm 1]

@[simp] theorem length_flatMap_entryBytes (entries : List (String × EntryDetails)) :
    (entries.flatMap entryBytes).length = entriesSize entries := by
  simp [entriesSize, List.length_flatMap]

@[simp] theorem entriesSize_nil : entriesSize [] = 0 := rfl

@[simp] theorem entriesSize_cons (entry : String × EntryDetails)
    (entries : List (String × EntryDetails)) :
    entriesSize (entry :: entries) =
      detailsBytes + 1 + entry.1.utf8ByteSize + entriesSize entries := by
  simp [entriesSize]

@[simp] theorem entriesSize_append (entries more : List (String × EntryDetails)) :
    entriesSize (entries ++ more) = entriesSize entries + entriesSize more := by
  simp [entriesSize]

theorem length_le_entriesSize (entries : List (String × EntryDetails)) :
    entries.length ≤ entriesSize entries := by
  induction entries with
  | nil => exact Nat.zero_le _
  | cons entry entries ih =>
    rw [List.length_cons, entriesSize_cons]
    omega

/-- A name of 1 to 255 bytes is not skipped. -/
theorem listingFrom_cons {entry : String × EntryDetails} (hpos : 1 ≤ entry.1.utf8ByteSize)
    (hlong : entry.1.utf8ByteSize ≤ 255) (body : List UInt8)
    (entries : List (String × EntryDetails)) :
    listingFrom body (entry :: entries) =
      if bodyMaxBytes < body.length + (detailsBytes + 1 + entry.1.utf8ByteSize) then (body, true)
      else listingFrom (body ++ entryBytes entry) entries := by
  obtain ⟨name, details⟩ := entry
  have hskip : ¬(Bytes.ofText name = [] ∨ maxEntryNameBytes < (Bytes.ofText name).length) := by
    rintro (hempty | htoo)
    · have hlength : name.utf8ByteSize = 0 := congrArg List.length hempty
      exact absurd hpos (by rw [hlength]; decide)
    · exact absurd hlong (Nat.not_le.mpr htoo)
  have hbytes : body ++ entryBytes (name, details) =
      body ++ detailsBytesOf details ++ [UInt8.ofNat name.utf8ByteSize] ++ Bytes.ofText name := by
    simp only [entryBytes, List.append_assoc]
  rw [hbytes]
  exact if_neg hskip

/-- The guest writes the entries that fit, and says so where one did not. -/
theorem listingFrom_cut {entries : List (String × EntryDetails)} (hnamed : Named entries)
    (body : List UInt8) (hbody : body.length ≤ bodyMaxBytes) :
    ∃ sent rest, entries = sent ++ rest ∧
      listingFrom body entries = (body ++ sent.flatMap entryBytes, decide (rest ≠ [])) ∧
      body.length + entriesSize sent ≤ bodyMaxBytes ∧
      ∀ next after, rest = next :: after →
        bodyMaxBytes < body.length + entriesSize (sent ++ [next]) := by
  induction entries generalizing body with
  | nil => exact ⟨[], [], rfl, by simp [listingFrom], by simpa using hbody, by simp⟩
  | cons entry entries ih =>
    obtain ⟨hpos, hlong⟩ := hnamed _ List.mem_cons_self
    have hstep := listingFrom_cons hpos hlong body entries
    have hsize : (body ++ entryBytes entry).length =
        body.length + (detailsBytes + 1 + entry.1.utf8ByteSize) := by
      rw [List.length_append, length_entryBytes]
    split at hstep
    · rename_i hroom
      refine ⟨[], entry :: entries, rfl, ?_, by simpa using hbody, ?_⟩
      · rw [hstep, List.flatMap_nil, List.append_nil, decide_eq_true (List.cons_ne_nil _ _)]
      · rintro next after hrest
        rw [← (List.cons.inj hrest).1]
        simpa using hroom
    · rename_i hroom
      obtain ⟨sent, rest, hsplit, hwritten, hfits, hfull⟩ :=
        ih (fun e he => hnamed e (List.mem_cons_of_mem _ he)) (body ++ entryBytes entry)
          (by rw [hsize]; exact Nat.le_of_not_lt hroom)
      refine ⟨entry :: sent, rest, by rw [hsplit, List.cons_append], ?_, ?_, ?_⟩
      · rw [hstep, hwritten, List.flatMap_cons, List.append_assoc]
      · rw [hsize] at hfits
        rw [entriesSize_cons]
        omega
      · intro next after hrest
        have hfull := hfull next after hrest
        rw [hsize] at hfull
        rw [List.cons_append, entriesSize_cons]
        omega

/-! ### What is shown of them -/

/-- Whether an entry is what the tool that made the volume put into its root. -/
def isHidden (atRoot : Bool) (entry : String × EntryDetails) : Bool :=
  atRoot && entry.1 = "lost+found"

/-- The entries an app has: all of them, less `lost+found` in the root. -/
def visible (atRoot : Bool) (entries : List (String × EntryDetails)) :
    List (String × EntryDetails) :=
  entries.filter fun entry => !isHidden atRoot entry

theorem visible_cons_of_hidden {atRoot : Bool} {entry : String × EntryDetails}
    (h : isHidden atRoot entry = true) (entries : List (String × EntryDetails)) :
    visible atRoot (entry :: entries) = visible atRoot entries :=
  List.filter_cons_of_neg (by simp [h])

theorem visible_cons_of_shown {atRoot : Bool} {entry : String × EntryDetails}
    (h : ¬isHidden atRoot entry = true) (entries : List (String × EntryDetails)) :
    visible atRoot (entry :: entries) = entry :: visible atRoot entries :=
  List.filter_cons_of_pos (by simp [h])

theorem visible_append (atRoot : Bool) (entries more : List (String × EntryDetails)) :
    visible atRoot (entries ++ more) = visible atRoot entries ++ visible atRoot more :=
  List.filter_append ..

/-- The entry a listing shows. -/
def shown (entry : String × EntryDetails) : FilesystemEntry where
  name := entry.1
  kind := entry.2.kind
  sizeBytes := entry.2.sizeBytes
  modifiedAt := shownTime entry.2.modifiedSeconds

/-- An entry comes behind as many visible ones as a listing carries. -/
def Overflows (atRoot : Bool) (room : ℕ) (entries : List (String × EntryDetails)) : Prop :=
  ∃ before next after, entries = before ++ next :: after ∧ (visible atRoot before).length = room

theorem overflows_zero_cons (atRoot : Bool) (entry : String × EntryDetails)
    (entries : List (String × EntryDetails)) : Overflows atRoot 0 (entry :: entries) :=
  ⟨[], entry, entries, rfl, rfl⟩

theorem overflows_cons_of_pos {atRoot : Bool} {room : ℕ} (hroom : room ≠ 0)
    {entry : String × EntryDetails} {entries : List (String × EntryDetails)} :
    Overflows atRoot room (entry :: entries) ↔
      Overflows atRoot (if isHidden atRoot entry then room else room - 1) entries := by
  have hcount : ∀ before, (visible atRoot (entry :: before)).length = room ↔
      (visible atRoot before).length = if isHidden atRoot entry then room else room - 1 := by
    intro before
    split
    · rename_i hhidden
      rw [visible_cons_of_hidden hhidden]
    · rename_i hshown
      rw [visible_cons_of_shown hshown, List.length_cons]
      omega
  constructor
  · rintro ⟨before, next, after, hsplit, hlength⟩
    cases before with
    | nil => exact absurd hlength.symm hroom
    | cons first before =>
      obtain ⟨rfl, rfl⟩ := List.cons.inj hsplit
      exact ⟨before, next, after, rfl, (hcount before).mp hlength⟩
  · rintro ⟨before, next, after, rfl, hlength⟩
    exact ⟨entry :: before, next, after, rfl, (hcount before).mpr hlength⟩

section Decoding

variable {render : ℤ → String} (hrender : RendersCivil render)

/-- The name of an entry is read back where its bytes begin. -/
theorem entryName_entryBytes {entry : String × EntryDetails} (hpos : 1 ≤ entry.1.utf8ByteSize)
    (hlong : entry.1.utf8ByteSize ≤ 255) (front back : List UInt8) :
    entryName (front ++ entryBytes entry ++ back) front.length =
      .ok (entry.1, (front ++ entryBytes entry).length) := by
  have hsmall : (UInt8.ofNat entry.1.utf8ByteSize).toNat = entry.1.utf8ByteSize :=
    UInt8.toNat_ofNat_of_lt' (Nat.lt_succ_of_le hlong)
  have hbody : (front ++ entryBytes entry ++ back).length =
      front.length + (detailsBytes + 1 + entry.1.utf8ByteSize) + back.length := by
    rw [List.length_append, List.length_append, length_entryBytes]
  have hindex : (index (front ++ entryBytes entry ++ back) (front.length + detailsBytes) :
      Checked MalformedGuestReply UInt8) = .ok (UInt8.ofNat entry.1.utf8ByteSize) := by
    have h := index_append (ε := MalformedGuestReply) (front ++ detailsBytesOf entry.2)
      (UInt8.ofNat entry.1.utf8ByteSize) (Bytes.ofText entry.1 ++ back)
    rw [List.length_append, length_detailsBytesOf] at h
    rw [entryBytes]
    simp only [List.append_assoc, List.singleton_append] at h ⊢
    exact h
  have hslice : (slice (front ++ entryBytes entry ++ back) (front.length + detailsBytes + 1)
      (front.length + detailsBytes + 1 + entry.1.utf8ByteSize) :
      Checked MalformedGuestReply (List UInt8)) = .ok (Bytes.ofText entry.1) := by
    have h := slice_append (ε := MalformedGuestReply)
      (front ++ detailsBytesOf entry.2 ++ [UInt8.ofNat entry.1.utf8ByteSize])
      (Bytes.ofText entry.1) back
    rw [List.length_append, List.length_append, length_detailsBytesOf, List.length_singleton,
      Bytes.length_ofText] at h
    rw [entryBytes]
    simp only [List.append_assoc] at h ⊢
    exact h
  have hnext : (front ++ entryBytes entry).length =
      front.length + detailsBytes + 1 + entry.1.utf8ByteSize := by
    rw [List.length_append, length_entryBytes]
    omega
  simp only [entryName]
  rw [refuse_of_not (by omega), ok_bind, hindex, ok_bind, hsmall,
    refuse_of_not (by rintro (h | h) <;> omega), ok_bind, hslice, ok_bind,
    Bytes.fromUtf8Lossy_ofText, hnext]
  rfl

include hrender

/-- The loop over a body of entries shows the visible ones, as many as a listing carries. -/
theorem entriesFrom_entryBytes (atRoot : Bool) {sent : List (String × EntryDetails)}
    (hnamed : Named sent) {rounds : ℕ} (hrounds : sent.length < rounds) (front : List UInt8)
    (entries : List FilesystemEntry) (hlimit : entries.length ≤ directoryEntryLimit)
    (truncated : Bool) :
    ∃ cut, entriesFrom render (front ++ sent.flatMap entryBytes) atRoot rounds front.length
        entries truncated =
      .ok (entries ++ ((visible atRoot sent).take (directoryEntryLimit - entries.length)).map shown,
        cut) ∧
      (cut = true ↔ truncated = true ∨
        Overflows atRoot (directoryEntryLimit - entries.length) sent) := by
  induction sent generalizing rounds front entries with
  | nil =>
    obtain ⟨rounds, rfl⟩ := Nat.exists_eq_add_one_of_ne_zero (Nat.ne_zero_of_lt hrounds)
    refine ⟨truncated, ?_, ?_⟩
    · rw [entriesFrom, if_neg (by simp)]
      simp [visible, pure_eq]
    · simp [Overflows]
  | cons entry sent ih =>
    obtain ⟨rounds, rfl⟩ := Nat.exists_eq_add_one_of_ne_zero (Nat.ne_zero_of_lt hrounds)
    have hrounds : sent.length < rounds := Nat.lt_of_succ_lt_succ hrounds
    obtain ⟨hpos, hlong⟩ := hnamed _ List.mem_cons_self
    have hnamed : Named sent := fun e he => hnamed e (List.mem_cons_of_mem _ he)
    have hmore : front.length < (front ++ (entry :: sent).flatMap entryBytes).length := by
      rw [List.length_append, List.flatMap_cons, List.length_append, length_entryBytes]
      omega
    have hname := entryName_entryBytes hpos hlong front (sent.flatMap entryBytes)
    have hdetails := detailsAt_detailsBytesOf (ε := MalformedGuestReply) hrender front
      ([UInt8.ofNat entry.1.utf8ByteSize] ++ Bytes.ofText entry.1 ++ sent.flatMap entryBytes)
      entry.2
    have hbody : front ++ detailsBytesOf entry.2 ++ ([UInt8.ofNat entry.1.utf8ByteSize] ++
        Bytes.ofText entry.1 ++ sent.flatMap entryBytes) =
        front ++ entryBytes entry ++ sent.flatMap entryBytes := by
      simp only [entryBytes, List.append_assoc]
    have hhidden : (atRoot && mkfsRootEntries.contains entry.1) = isHidden atRoot entry := by
      simp [mkfsRootEntries, isHidden]
    rw [entriesFrom, if_pos hmore, List.flatMap_cons, ← List.append_assoc, hname, ok_bind]
    rw [hbody] at hdetails
    simp only
    rw [hhidden]
    split
    · rename_i hfull
      refine ⟨true, ?_, ?_⟩
      · simp [hfull, pure_eq]
      · simp [hfull, overflows_zero_cons]
    · rename_i hroom
      have hspace : directoryEntryLimit - entries.length ≠ 0 := by omega
      rw [overflows_cons_of_pos hspace]
      split
      · rename_i hhidden
        rw [visible_cons_of_hidden hhidden]
        exact ih hnamed hrounds (front ++ entryBytes entry) entries hlimit
      · rename_i hshown
        have hleft : directoryEntryLimit - (entries ++ [shown entry]).length =
            directoryEntryLimit - entries.length - 1 := by
          rw [List.length_append, List.length_singleton]
          omega
        obtain ⟨cut, hloop, hcut⟩ := ih hnamed hrounds (front ++ entryBytes entry)
          (entries ++ [shown entry]) (by rw [List.length_append, List.length_singleton]; omega)
        rw [hleft] at hloop hcut
        refine ⟨cut, ?_, hcut⟩
        obtain ⟨room, hspace⟩ := Nat.exists_eq_add_one_of_ne_zero hspace
        rw [hspace, Nat.add_sub_cancel] at hloop
        rw [visible_cons_of_shown hshown, hdetails, ok_bind, hspace, List.take_succ_cons,
          List.map_cons, List.append_cons entries (shown entry)]
        exact hloop

/-- What the host reads of a listing its guest wrote: the entries sent are read back, and no more
are shown than a listing carries. -/
theorem decodeListing_encodeListing {entries : List (String × EntryDetails)}
    (hnamed : Named entries) (path : GuestPath) :
    ∃ sent rest listing, entries = sent ++ rest ∧
      decodeListing render ((encodeListing entries).drop frameHeaderBytes) path = .ok listing ∧
      listing.path = path ∧
      listing.entries =
        ((visible (path.text = "/") sent).take directoryEntryLimit).map shown ∧
      (listing.truncated = true ↔
        rest ≠ [] ∨ Overflows (path.text = "/") directoryEntryLimit sent) ∧
      1 + entriesSize sent ≤ bodyMaxBytes ∧
      ∀ next after, rest = next :: after →
        bodyMaxBytes < 1 + entriesSize (sent ++ [next]) := by
  obtain ⟨sent, rest, hsplit, hwritten, hfits, hfull⟩ :=
    listingFrom_cut hnamed [0] (by decide)
  have hsent : Named sent := fun e he => hnamed e (hsplit ▸ List.mem_append_left _ he)
  obtain ⟨flag, hbody, hflag⟩ : ∃ flag : UInt8,
      (encodeListing entries).drop frameHeaderBytes = [flag] ++ sent.flatMap entryBytes ∧
        ((flag != 0) = true ↔ rest ≠ []) := by
    refine ⟨if decide (rest ≠ []) then 1 else 0, ?_, ?_⟩
    · simp only [encodeListing, hwritten, encodeReply]
      rw [List.drop_left' (length_headerOf _ _), List.singleton_append, List.set_cons_zero,
        List.singleton_append]
    · by_cases hrest : rest = [] <;> simp [hrest]
  have hrounds : sent.length < ([flag] ++ sent.flatMap entryBytes).length := by
    have hshort := length_le_entriesSize sent
    rw [List.length_append, length_flatMap_entryBytes, List.length_singleton]
    omega
  obtain ⟨cut, hloop, hcut⟩ := entriesFrom_entryBytes hrender (path.text = "/") hsent hrounds
    [flag] [] (Nat.zero_le _) (flag != 0)
  refine ⟨sent, rest, ⟨path, _, cut⟩, hsplit, ?_, rfl, rfl, ?_, hfits, hfull⟩
  · rw [hbody, decodeListing, refuse_of_not (by simp), ok_bind]
    have hindex : (index ([flag] ++ sent.flatMap entryBytes) 0 :
        Checked MalformedGuestReply UInt8) = .ok flag := rfl
    rw [hindex, ok_bind]
    simp only [List.length_singleton] at hloop
    rw [hloop]
    rfl
  · rw [hcut, hflag]
    rfl

end Decoding

/-! ### Exact listings -/

/-- A timestamp shows a second: its civil time in the years 0000 to 9999, the epoch otherwise. -/
def ShowsTime (seconds : ℤ) (modifiedAt : Timestamp) : Prop :=
  if CivilTime.InYears seconds then
    ∃ time : CivilTime, time.epochSeconds = seconds ∧ modifiedAt.text = time.text ++ "Z"
  else modifiedAt.text = "1970-01-01T00:00:00Z"

/-- An entry of a listing is an entry of the directory. -/
structure Shows (entry : String × EntryDetails) (shown : FilesystemEntry) : Prop where
  name_eq : shown.name = entry.1
  kind_eq : shown.kind = entry.2.kind
  sizeBytes_eq : shown.sizeBytes = entry.2.sizeBytes
  modifiedAt : ShowsTime entry.2.modifiedSeconds shown.modifiedAt

theorem shows_shown (entry : String × EntryDetails) : Shows entry (shown entry) where
  name_eq := rfl
  kind_eq := rfl
  sizeBytes_eq := rfl
  modifiedAt := by
    rw [ShowsTime, shown, shownTime]
    split
    · rename_i hyears
      exact ⟨_, CivilTime.epochSeconds_ofEpochSeconds hyears.1, String.ofList_append⟩
    · rfl

/-- A listing shows the first of a directory's visible entries, as many as it carries at most, and
says so exactly where it leaves one out. -/
structure ExactListing (path : GuestPath) (entries : List (String × EntryDetails))
    (listing : DirectoryListing) : Prop where
  path_eq : listing.path = path
  limit : listing.entries.length ≤ directoryEntryLimit
  exact : ∃ kept left, visible (path.text = "/") entries = kept ++ left ∧
    List.Forall₂ Shows kept listing.entries ∧ (listing.truncated = true ↔ left ≠ [])

/-- `lost+found` in the root is the last entry, all the others are in the listing, and the cut, of
the guest's frame or of the host's listing, is right before it. -/
def HiddenAtTheCut (path : GuestPath) (entries : List (String × EntryDetails)) : Prop :=
  path.text = "/" ∧ ∃ before details, entries = before ++ [("lost+found", details)] ∧
    before.length ≤ directoryEntryLimit ∧ 1 + entriesSize before ≤ bodyMaxBytes ∧
    (bodyMaxBytes < 1 + entriesSize entries ∨ before.length = directoryEntryLimit)

section Exact

variable {entries : List (String × EntryDetails)} {path : GuestPath} {listing : DirectoryListing}

/-- A listing that shows what the host reads is exact where its flag tells of what it leaves out:
a visible entry that was not sent, or one behind as many as a listing carries. -/
theorem exactListing_iff {sent rest : List (String × EntryDetails)}
    (hsplit : entries = sent ++ rest) (hpath : listing.path = path)
    (hentries : listing.entries =
      ((visible (path.text = "/") sent).take directoryEntryLimit).map shown) :
    ExactListing path entries listing ↔
      (listing.truncated = true ↔ visible (path.text = "/") rest ≠ [] ∨
        directoryEntryLimit < (visible (path.text = "/") sent).length) := by
  have hall : visible (path.text = "/") entries =
      (visible (path.text = "/") sent).take directoryEntryLimit ++
        ((visible (path.text = "/") sent).drop directoryEntryLimit ++
          visible (path.text = "/") rest) := by
    rw [hsplit, visible_append, ← List.append_assoc, List.take_append_drop]
  have hleft : (visible (path.text = "/") sent).drop directoryEntryLimit ++
      visible (path.text = "/") rest ≠ [] ↔
        visible (path.text = "/") rest ≠ [] ∨
          directoryEntryLimit < (visible (path.text = "/") sent).length := by
    rw [Ne, List.append_eq_nil_iff, List.drop_eq_nil_iff, not_and_or, Nat.not_le, or_comm]
  constructor
  · rintro ⟨-, -, kept, left, hkept, hshows, hflag⟩
    -- what is kept is as long as what is shown, so what is left is the same
    have hlength : ((visible (path.text = "/") sent).take directoryEntryLimit).length =
        kept.length := by
      rw [hshows.length_eq, hentries, List.length_map]
    obtain ⟨-, hsame⟩ := List.append_inj (hall.symm.trans hkept) hlength
    rw [hflag, ← hsame, hleft]
  · intro hflag
    refine ⟨hpath, ?_, _, _, hall, ?_, hflag.trans hleft.symm⟩
    · rw [hentries, List.length_map]
      exact List.length_take_le _ _
    · rw [hentries, List.forall₂_map_right_iff]
      exact List.forall₂_same.mpr fun entry _ => shows_shown entry

theorem eq_of_isHidden {atRoot : Bool} {entry : String × EntryDetails}
    (h : isHidden atRoot entry = true) : atRoot = true ∧ entry.1 = "lost+found" := by
  obtain ⟨hroot, hname⟩ := Bool.and_eq_true_iff.mp h
  exact ⟨hroot, of_decide_eq_true hname⟩

/-- Entries of other names are all visible. -/
theorem visible_of_forall_ne {atRoot : Bool} (h : ∀ entry ∈ entries, entry.1 ≠ "lost+found") :
    visible atRoot entries = entries := by
  refine List.filter_eq_self.mpr fun entry hentry => ?_
  by_contra hhidden
  rw [Bool.not_eq_true', Bool.not_eq_false] at hhidden
  exact h entry hentry (eq_of_isHidden hhidden).2

/-- In front of `lost+found` is no other of its name. -/
theorem ne_of_nodup {before after : List (String × EntryDetails)} {name : String}
    {details : EntryDetails}
    (hnodup : ((before ++ (name, details) :: after).map Prod.fst).Nodup) :
    ∀ entry ∈ before, entry.1 ≠ name := by
  intro entry hentry hname
  rw [List.map_append, List.map_cons, List.nodup_append] at hnodup
  exact hnodup.2.2 entry.1 (List.mem_map_of_mem hentry) name List.mem_cons_self hname

/-- Entries of which none is visible are `lost+found` alone, in the root. -/
theorem eq_of_visible_eq_nil {atRoot : Bool} {before tail : List (String × EntryDetails)}
    (hnodup : ((before ++ tail).map Prod.fst).Nodup) (htail : tail ≠ [])
    (hnone : visible atRoot tail = []) :
    atRoot = true ∧ ∃ details, tail = [("lost+found", details)] := by
  have hhidden : ∀ entry ∈ tail, isHidden atRoot entry = true := by
    intro entry hentry
    have h := List.filter_eq_nil_iff.mp hnone entry hentry
    rwa [Bool.not_eq_true, Bool.not_eq_false'] at h
  obtain ⟨⟨name, details⟩, after, rfl⟩ := List.exists_cons_of_ne_nil htail
  obtain ⟨hroot, rfl : name = "lost+found"⟩ := eq_of_isHidden (hhidden _ List.mem_cons_self)
  refine ⟨hroot, details, ?_⟩
  cases after with
  | nil => rfl
  | cons next after =>
    have hname := (eq_of_isHidden (hhidden next (List.mem_cons_of_mem _ List.mem_cons_self))).2
    rw [List.map_append, List.nodup_append, List.map_cons, List.map_cons, hname] at hnodup
    exact absurd List.mem_cons_self (List.nodup_cons.mp hnodup.2.1).1

theorem overflows_of_lt {atRoot : Bool} {room : ℕ} (h : room < (visible atRoot entries).length) :
    Overflows atRoot room entries := by
  induction entries generalizing room with
  | nil => exact absurd h (Nat.not_lt_zero _)
  | cons entry entries ih =>
    by_cases hroom : room = 0
    · rw [hroom]
      exact overflows_zero_cons ..
    · rw [overflows_cons_of_pos hroom]
      split
      · rename_i hhidden
        rw [visible_cons_of_hidden hhidden] at h
        exact ih h
      · rename_i hshown
        rw [visible_cons_of_shown hshown, List.length_cons] at h
        exact ih (by omega)

/-- The flag is set for the hidden entry alone only at the cut. -/
theorem hiddenAtTheCut_of_flag (hnodup : (entries.map Prod.fst).Nodup)
    {sent rest : List (String × EntryDetails)} (hsplit : entries = sent ++ rest)
    (hfits : 1 + entriesSize sent ≤ bodyMaxBytes)
    (hfull : ∀ next after, rest = next :: after →
      bodyMaxBytes < 1 + entriesSize (sent ++ [next]))
    (hflag : rest ≠ [] ∨ Overflows (path.text = "/") directoryEntryLimit sent)
    (hrest : visible (path.text = "/") rest = [])
    (hlimit : (visible (path.text = "/") sent).length ≤ directoryEntryLimit) :
    HiddenAtTheCut path entries := by
  rcases hflag with hne | ⟨before, next, after, rfl, hcount⟩
  · -- the guest's frame is full before the hidden entry
    obtain ⟨hroot, details, rfl⟩ := eq_of_visible_eq_nil (hsplit ▸ hnodup) hne hrest
    rw [visible_of_forall_ne (ne_of_nodup (hsplit ▸ hnodup))] at hlimit
    refine ⟨of_decide_eq_true hroot, sent, details, hsplit, hlimit, hfits, .inl ?_⟩
    rw [hsplit]
    exact hfull _ [] rfl
  · -- the host's listing is full before it
    have htail : visible (path.text = "/") (next :: after ++ rest) = [] := by
      rw [visible_append, List.length_append, hcount] at hlimit
      rw [visible_append, hrest, List.append_nil, ← List.length_eq_zero_iff]
      omega
    rw [List.append_assoc] at hsplit
    have hne : next :: after ++ rest ≠ [] := List.cons_ne_nil _ _
    obtain ⟨hroot, details, hlast⟩ := eq_of_visible_eq_nil (hsplit ▸ hnodup) hne htail
    rw [hlast] at hsplit
    rw [visible_of_forall_ne (ne_of_nodup (hsplit ▸ hnodup))] at hcount
    refine ⟨of_decide_eq_true hroot, before, details, hsplit, Nat.le_of_eq hcount, ?_,
      .inr hcount⟩
    rw [entriesSize_append] at hfits
    omega

/-- Where `lost+found` is at the cut, it is the entry not sent, or one too many. -/
theorem flag_of_hiddenAtTheCut (hnodup : (entries.map Prod.fst).Nodup)
    {sent rest : List (String × EntryDetails)} (hsplit : entries = sent ++ rest)
    (hfits : 1 + entriesSize sent ≤ bodyMaxBytes)
    (hfull : ∀ next after, rest = next :: after →
      bodyMaxBytes < 1 + entriesSize (sent ++ [next]))
    (hcut : HiddenAtTheCut path entries) :
    (rest ≠ [] ∨ Overflows (path.text = "/") directoryEntryLimit sent) ∧
      visible (path.text = "/") rest = [] ∧
      (visible (path.text = "/") sent).length ≤ directoryEntryLimit := by
  obtain ⟨hroot, before, details, hlast, hcount, hsize, hcut⟩ := hcut
  rw [decide_eq_true hroot]
  have hbefore : visible true before = before :=
    visible_of_forall_ne (ne_of_nodup (hlast ▸ hnodup))
  have hnone : visible true [("lost+found", details)] = [] := rfl
  rcases List.eq_nil_or_concat' rest with rfl | ⟨more, last, rfl⟩
  · -- everything was sent: the cut is the host's
    rw [List.append_nil] at hsplit
    subst hsplit
    have hfull : before.length = directoryEntryLimit := by omega
    refine ⟨.inr ⟨before, _, [], hlast, by rw [hbefore, hfull]⟩, rfl, ?_⟩
    rw [hlast, visible_append, hbefore, hnone, List.append_nil]
    exact hcount
  · rw [hsplit, ← List.append_assoc] at hlast
    obtain ⟨rfl, hsame⟩ := List.append_inj' hlast rfl
    -- what was not sent is `lost+found` alone: all before it fits
    cases more with
    | nil =>
      rw [List.append_nil] at hbefore hcount
      rw [List.nil_append, hsame, hbefore]
      exact ⟨.inl (List.cons_ne_nil _ _), hnone, hcount⟩
    | cons next more =>
      have hfull := hfull next _ rfl
      rw [entriesSize_append, entriesSize_cons] at hsize hfull
      simp only [entriesSize_nil] at hfull
      omega

variable {render : ℤ → String}

/-- Where `lost+found` is at the cut the listing says that it is cut, and is not. -/
theorem not_exact_of_hiddenAtTheCut (hrender : RendersCivil render)
    (hnodup : (entries.map Prod.fst).Nodup) (hnamed : Named entries)
    (hcut : HiddenAtTheCut path entries) :
    ¬∃ listing,
      decodeListing render ((encodeListing entries).drop frameHeaderBytes) path = .ok listing ∧
        ExactListing path entries listing := by
  obtain ⟨sent, rest, listing, hsplit, hread, hpath, hentries, hflag, hfits, hfull⟩ :=
    decodeListing_encodeListing hrender hnamed path
  obtain ⟨hset, hrest, hlimit⟩ := flag_of_hiddenAtTheCut hnodup hsplit hfits hfull hcut
  rintro ⟨listing', hread', hexact⟩
  rw [hread] at hread'
  obtain rfl := Checked.ok.inj hread'
  rw [exactListing_iff hsplit hpath hentries, hflag] at hexact
  rcases hexact.mp hset with hleft | hleft
  · exact hleft hrest
  · omega

/-- **A listing is exact** but where the hidden entry is the last one and a cut is right before it:
then the listing shows every visible entry and says that it is cut. -/
theorem exact_decodeListing_iff (hrender : RendersCivil render)
    (hnodup : (entries.map Prod.fst).Nodup) (hnamed : Named entries) :
    (∃ listing,
      decodeListing render ((encodeListing entries).drop frameHeaderBytes) path = .ok listing ∧
        ExactListing path entries listing) ↔
      ¬HiddenAtTheCut path entries := by
  constructor
  · exact fun hexact hcut => not_exact_of_hiddenAtTheCut hrender hnodup hnamed hcut hexact
  · intro hcut
    obtain ⟨sent, rest, listing, hsplit, hread, hpath, hentries, hflag, hfits, hfull⟩ :=
      decodeListing_encodeListing hrender hnamed path
    refine ⟨listing, hread, (exactListing_iff hsplit hpath hentries).mpr ?_⟩
    rw [hflag]
    constructor
    · intro hset
      by_contra hnone
      rw [not_or, not_not, Nat.not_lt] at hnone
      exact hcut (hiddenAtTheCut_of_flag hnodup hsplit hfits hfull hset hnone.1 hnone.2)
    · rintro (hleft | hleft)
      · exact .inl fun hrest => hleft (by rw [hrest]; rfl)
      · exact .inr (overflows_of_lt hleft)

end Exact

/-- A rendering of the instants from the year 0 on. -/
def renderCivil (epochMs : ℤ) : String :=
  if CivilTime.InYears (epochMs / 1000) then
    String.ofList ((CivilTime.ofEpochSeconds (epochMs / 1000)).chars ++
      '.' :: (digits 3 (epochMs % 1000).toNat ++ ['Z']))
  else "1970-01-01T00:00:00.000Z"

theorem rendersCivil_renderCivil : RendersCivil renderCivil where
  civil := by
    intro time hyears
    have hseconds : time.epochSeconds * 1000 / 1000 = time.epochSeconds := by omega
    have hmillis : (time.epochSeconds * 1000 % 1000).toNat = 0 := by omega
    have hsame : CivilTime.ofEpochSeconds time.epochSeconds = time :=
      CivilTime.epochSeconds_injective (CivilTime.epochSeconds_ofEpochSeconds hyears.1)
    rw [renderCivil, hseconds, if_pos hyears, hsame, hmillis]
    rfl
  signed := by
    intro seconds hyears
    have hseconds : seconds * 1000 / 1000 = seconds := by omega
    rw [renderCivil, hseconds, if_neg hyears]
    exact .inl rfl

/-- A file of no bytes that was written at the epoch. -/
def emptyFile : EntryDetails where
  kind := .file
  sizeBytes := 0
  modifiedSeconds := 0
  least_le := by decide
  lt_most := by decide

/-- A root of a thousand files, `000` to `999`, and of `lost+found`. -/
def thousandFiles : List (String × EntryDetails) :=
  ((List.range 1000).map fun n => (String.ofList (digits 3 n), emptyFile)) ++
    [("lost+found", emptyFile)]

theorem utf8ByteSize_digits (width n : ℕ) :
    (String.ofList (digits width n)).utf8ByteSize = width := by
  have hascii : ∀ c ∈ digits width n, c.toNat < 128 := fun c hc =>
    Nat.lt_of_le_of_lt (isDigit_of_mem_digits hc).2 (by decide)
  rw [← Bytes.length_ofText, Bytes.ofText_of_ascii hascii, List.length_map, length_digits]

theorem nodup_thousandFiles : (thousandFiles.map Prod.fst).Nodup := by
  rw [thousandFiles, List.map_append, List.map_map, List.nodup_append]
  refine ⟨?_, List.nodup_singleton _, ?_⟩
  · refine List.Nodup.map_on ?_ List.nodup_range
    intro n hn m hm hsame
    have hn : n < 10 ^ 3 := List.mem_range.mp hn
    have hm : m < 10 ^ 3 := List.mem_range.mp hm
    exact digits_injOn hn hm (String.ofList_injective hsame)
  · intro name hname hidden hhidden
    obtain ⟨n, -, rfl⟩ := List.mem_map.mp hname
    rw [List.mem_singleton.mp hhidden]
    intro hsame
    have hsize := congrArg String.utf8ByteSize hsame
    rw [Function.comp_apply, utf8ByteSize_digits] at hsize
    exact absurd hsize (by decide)

theorem named_thousandFiles : Named thousandFiles := by
  intro entry hentry
  rcases List.mem_append.mp hentry with hentry | hentry
  · obtain ⟨n, -, rfl⟩ := List.mem_map.mp hentry
    rw [utf8ByteSize_digits]
    decide
  · rw [List.mem_singleton.mp hentry]
    decide

theorem hiddenAtTheCut_thousandFiles : HiddenAtTheCut rootPath thousandFiles := by
  have hsize : entriesSize
      ((List.range 1000).map fun n => (String.ofList (digits 3 n), emptyFile)) = 21000 := by
    rw [entriesSize, List.map_map]
    have hone : (fun entry : String × EntryDetails => detailsBytes + 1 + entry.1.utf8ByteSize) ∘
        (fun n => (String.ofList (digits 3 n), emptyFile)) = fun _ => 21 := by
      funext n
      rw [Function.comp_apply, utf8ByteSize_digits]
      rfl
    rw [hone, List.map_const', List.sum_replicate_nat, List.length_range]
  refine ⟨rfl, _, emptyFile, rfl, ?_, ?_, .inr ?_⟩
  · rw [List.length_map, List.length_range]
    decide
  · rw [hsize]
    decide
  · rw [List.length_map, List.length_range]
    rfl

/-- A root of a thousand files is listed whole, and said to be cut. -/
theorem not_exact_thousandFiles :
    RendersCivil renderCivil ∧ (thousandFiles.map Prod.fst).Nodup ∧ Named thousandFiles ∧
    ¬∃ listing, decodeListing renderCivil ((encodeListing thousandFiles).drop frameHeaderBytes)
        rootPath = .ok listing ∧ ExactListing rootPath thousandFiles listing :=
  ⟨rendersCivil_renderCivil, nodup_thousandFiles, named_thousandFiles,
    not_exact_of_hiddenAtTheCut rendersCivil_renderCivil nodup_thousandFiles
      named_thousandFiles hiddenAtTheCut_thousandFiles⟩

/-- A root of two entries is listed exactly. -/
theorem exact_decodeListing_twoEntries :
    ∃ listing, decodeListing renderCivil
        ((encodeListing [("notes.txt", emptyFile), ("lost+found", emptyFile)]).drop
          frameHeaderBytes) rootPath = .ok listing ∧
      ExactListing rootPath [("notes.txt", emptyFile), ("lost+found", emptyFile)] listing := by
  refine (exact_decodeListing_iff rendersCivil_renderCivil (by decide) fun entry hentry => ?_).mpr
    ?_
  · simp only [List.mem_cons, List.not_mem_nil, or_false] at hentry
    rcases hentry with rfl | rfl <;> decide
  · rintro ⟨-, before, details, hentries, -, -, hfull | hfull⟩
    · exact absurd hfull (by decide)
    · have hlength := congrArg List.length hentries
      simp [hfull, directoryEntryLimit] at hlength

end Nibrunner.GuestFilesystem

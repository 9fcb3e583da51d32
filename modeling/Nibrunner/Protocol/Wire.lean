import Nibrunner.ForStd.Bytes
import Nibrunner.ForStd.TextLines

/-!
# Validated texts

The texts the wire types check when they are built: paths inside a guest, timestamps, and the
messages a state carries, which are cut rather than refused. A validated text is a structure with
the check as a field. Lengths are in bytes of UTF-8 where the source takes `len` and in characters
where it counts `chars`.

Rendering an instant is the time library's; it is a parameter of `timestampFrom` and of whatever
calls it.
-/

namespace Nibrunner

/-! ### Paths inside a guest -/

def maxGuestPathLength : ℕ := 4096

/-- One component of a guest path: it names something, and holds no separator, no backslash, no
quote of either kind and no control character. -/
def isGuestPathSegment (segment : List Char) : Bool :=
  segment ≠ [] && segment ≠ ['.'] && segment ≠ ['.', '.'] &&
    segment.all fun c =>
      c ≠ '/' && c ≠ '\\' && c.toNat ≠ 0x22 && c.toNat ≠ 0x27 && 0x1f < c.toNat

def isGuestPath (path : String) : Bool :=
  if maxGuestPathLength < path.utf8ByteSize || path.toList.head? != some '/' then false
  else if path = "/" then true
  else (path.toList.tail.splitOn '/').all isGuestPathSegment

structure GuestPath where
  text : String
  valid : isGuestPath text = true
deriving DecidableEq

namespace GuestPath

def parse? (text : String) : Option GuestPath :=
  if h : isGuestPath text = true then some ⟨text, h⟩ else none

@[simp] theorem parse?_text (path : GuestPath) : parse? path.text = some path := dif_pos path.valid

/-- A path is no longer than a path may be. -/
theorem size_le (path : GuestPath) : path.text.utf8ByteSize ≤ maxGuestPathLength := by
  have hvalid := path.valid
  rw [isGuestPath] at hvalid
  by_contra hlong
  have hlong : maxGuestPathLength < path.text.utf8ByteSize := Nat.lt_of_not_le hlong
  simp [hlong] at hvalid

/-- A path holds no control character. -/
theorem notMem_of_control (path : GuestPath) {c : Char} (hc : c.toNat ≤ 0x1f) :
    c ∉ path.text.toList := by
  have hslash : c ≠ '/' := by
    rintro rfl
    exact absurd hc (by decide)
  intro hmem
  have hvalid := path.valid
  rw [isGuestPath] at hvalid
  split at hvalid
  · cases hvalid
  · rename_i hlead
    split at hvalid
    · rename_i hroot
      rw [hroot] at hmem
      exact hslash (List.mem_singleton.mp hmem)
    · cases htext : path.text.toList with
      | nil =>
        rw [htext] at hmem
        exact absurd hmem List.not_mem_nil
      | cons first rest =>
        rw [htext] at hvalid hmem hlead
        have hfirst : first = '/' := by
          by_contra hne
          simp [hne] at hlead
        have hrest := (List.mem_cons.mp hmem).resolve_left (hfirst ▸ hslash)
        -- a character of a path is a slash or in a segment, and those hold no control character
        rcases TextLines.eq_or_mem_splitOn '/' hrest with heq | ⟨segment, hsegment, hmem⟩
        · exact hslash heq
        · have hsegment := List.all_eq_true.mp hvalid segment hsegment
          rw [isGuestPathSegment, Bool.and_eq_true, List.all_eq_true] at hsegment
          have hc' := hsegment.2 c hmem
          simp only [Bool.and_eq_true, decide_eq_true_eq] at hc'
          exact absurd hc'.2 (Nat.not_lt.mpr hc)

end GuestPath

/-! ### Timestamps -/

def maxTimestampLength : ℕ := 35

def isAsciiDigit (byte : UInt8) : Bool := 48 ≤ byte && byte ≤ 57

/-- Whether some bytes hold digits from one index up to another. -/
def digitsIn (bytes : List UInt8) (start stop : ℕ) : Bool :=
  stop ≤ bytes.length && ((bytes.drop start).take (stop - start)).all isAsciiDigit

/-- Whether some bytes hold a character at an index. -/
def charAt (bytes : List UInt8) (i : ℕ) (expected : Char) : Bool :=
  bytes[i]? == some (UInt8.ofNat expected.toNat)

/-- The end of a timestamp, from where its fraction is over: `Z`, or an offset from UTC. -/
def isZone (bytes : List UInt8) (cursor : ℕ) : Bool :=
  if charAt bytes cursor 'Z' then cursor + 1 = bytes.length
  else if charAt bytes cursor '+' || charAt bytes cursor '-' then
    digitsIn bytes (cursor + 1) (cursor + 3) && charAt bytes (cursor + 3) ':' &&
      digitsIn bytes (cursor + 4) (cursor + 6) && cursor + 6 = bytes.length
  else false

def isTimestamp (value : String) : Bool :=
  let bytes := Bytes.ofText value
  if maxTimestampLength < bytes.length then false
  else if !(digitsIn bytes 0 4 && charAt bytes 4 '-' && digitsIn bytes 5 7 && charAt bytes 7 '-' &&
      digitsIn bytes 8 10 && charAt bytes 10 'T' && digitsIn bytes 11 13 && charAt bytes 13 ':' &&
      digitsIn bytes 14 16 && charAt bytes 16 ':' && digitsIn bytes 17 19) then false
  else if charAt bytes 19 '.' then
    let fraction := ((bytes.drop 20).takeWhile isAsciiDigit).length
    if fraction = 0 || 9 < fraction then false else isZone bytes (20 + fraction)
  else isZone bytes 19

/-- An instant as text. One that was parsed has the form of `isTimestamp`; one rendered from a
clock is whatever was rendered. -/
structure Timestamp where
  text : String
deriving DecidableEq

def Timestamp.parse? (text : String) : Option Timestamp :=
  if isTimestamp text then some ⟨text⟩ else none

/-! ### The message of a state -/

def maxStateMessageLength : ℕ := 512

/-- The first characters of a text. -/
def truncateChars (value : String) (maxChars : ℕ) : String :=
  String.ofList (value.toList.take maxChars)

/-- A message, never longer than a state may carry. -/
structure StateMessage where
  text : String
  short : text.toList.length ≤ maxStateMessageLength
deriving DecidableEq

namespace StateMessage

/-- The message of a text: what is too long is cut. -/
def new (message : String) : StateMessage where
  text := truncateChars message maxStateMessageLength
  short := by
    rw [truncateChars, String.toList_ofList, List.length_take]
    exact Nat.min_le_left _ _

/-- What is kept is kept again. -/
@[simp] theorem new_text (message : StateMessage) : new message.text = message := by
  have h : truncateChars message.text maxStateMessageLength = message.text := by
    rw [truncateChars, List.take_of_length_le message.short, String.ofList_toList]
  obtain ⟨text, short⟩ := message
  simp only [new, mk.injEq]
  exact h

end StateMessage

end Nibrunner

import Nibrunner.ForStd.Bytes
import Nibrunner.ForStd.Checked
import Nibrunner.ForStd.MachineInt
import Nibrunner.Protocol.Wire

/-!
# Requests about a guest's files

The frames in which a host asks its guest about the tenant's files and the guest answers: a magic,
one byte of code, the length of the body in four bytes, and the body. The host encodes a request
and reads the reply; the guest reads the request. Fields are written one after another, numbers
big-endian, texts and contents behind their length.

A reader indexes the bytes a peer sent, so it is a `Checked` computation: an index past the end is
`stuck`, as is a loop that runs out of rounds. What the time library renders for an instant is the
parameter `render`.
-/

namespace Nibrunner.GuestFilesystem

open Checked

def frameMagic : List UInt8 := Bytes.ofText "NBF1"

def codeOffset : ℕ := 4

def lengthOffset : ℕ := 5

def frameHeaderBytes : ℕ := 9

def bodyMaxBytes : ℕ := 65536

def guestFilesystemChunkBytes : ℕ := 32768

def statusOk : UInt8 := 0

def truncateFlag : UInt8 := 1

def noFlags : UInt8 := 0

/-! ### A request -/

inductive GuestFilesystemRequest where
  | list (path : GuestPath)
  | stat (path : GuestPath)
  | read (path : GuestPath) (offset : UInt64) (length : UInt32)
  | write (path : GuestPath) (offset : UInt64) (content : List UInt8) (truncate : Bool)
  | makeDirectory (path : GuestPath)
  | remove (path : GuestPath)
  | move (path destination : GuestPath)
  | usage
  | compute
deriving DecidableEq

def GuestFilesystemRequest.verb : GuestFilesystemRequest → UInt8
  | list .. => 1
  | stat .. => 2
  | read .. => 3
  | write .. => 4
  | makeDirectory .. => 5
  | remove .. => 6
  | move .. => 7
  | usage => 8
  | compute => 9

/-- Some bytes behind their length, which is cut to 32 bits. -/
def field (value : List UInt8) : List UInt8 := Bytes.toBe 4 value.length ++ value

def pathField (path : GuestPath) : List UInt8 := field (Bytes.ofText path.text)

def bodyOf : GuestFilesystemRequest → List UInt8
  | .usage | .compute => []
  | .read path offset length =>
    pathField path ++ Bytes.toBe 8 offset.toNat ++ Bytes.toBe 4 length.toNat
  | .write path offset content truncate =>
    pathField path ++ Bytes.toBe 8 offset.toNat ++
      [if truncate then truncateFlag else noFlags] ++ field content
  | .move path destination => pathField path ++ pathField destination
  | .list path | .stat path | .makeDirectory path | .remove path => pathField path

def encodeRequest (request : GuestFilesystemRequest) : List UInt8 :=
  frameMagic ++ [request.verb] ++ Bytes.toBe 4 (bodyOf request).length ++ bodyOf request

def fitsOneRequest (request : GuestFilesystemRequest) : Bool :=
  (bodyOf request).length ≤ bodyMaxBytes

/-! ### Reading a header -/

/-- What a frame's header says: its code, and how long its body is. -/
structure FrameHeader where
  code : UInt8
  bodyLength : ℕ
deriving DecidableEq

/-- The check of a header, the same for the host and for the guest. -/
def decodeFrameHeader {ε : Type} (refusal : String → ε) (header : List UInt8) :
    Checked ε FrameHeader := do
  refuse (header.length ≠ frameHeaderBytes) (refusal "the header is the wrong length")
  let magic ← slice header 0 4
  refuse (magic ≠ frameMagic) (refusal "invalid magic value")
  let b0 ← index header lengthOffset
  let b1 ← index header (lengthOffset + 1)
  let b2 ← index header (lengthOffset + 2)
  let b3 ← index header (lengthOffset + 3)
  let bodyLength := Bytes.ofBe [b0, b1, b2, b3]
  refuse (bodyMaxBytes < bodyLength) (refusal "the body exceeds the limit")
  let code ← index header codeOffset
  return { code := code, bodyLength := bodyLength }

structure MalformedGuestReply where
  reason : String
deriving DecidableEq

structure MalformedRequest where
  reason : String
deriving DecidableEq

/-- The host reads the header of a reply; its code is the reply's status. -/
def decodeHeader (header : List UInt8) : Checked MalformedGuestReply FrameHeader :=
  decodeFrameHeader .mk header

/-- The guest reads the header of a request; its code is the request's verb. -/
def decodeRequestHeader (header : List UInt8) : Checked MalformedRequest FrameHeader :=
  decodeFrameHeader .mk header

/-! ### Reading a reply -/

inductive FilesystemEntryKind where
  | file
  | directory
  | other
deriving DecidableEq

structure FilesystemDetails where
  kind : FilesystemEntryKind
  sizeBytes : UInt64
  modifiedAt : Timestamp
deriving DecidableEq

structure FilesystemEntry where
  name : String
  kind : FilesystemEntryKind
  sizeBytes : UInt64
  modifiedAt : Timestamp
deriving DecidableEq

structure DirectoryListing where
  path : GuestPath
  entries : List FilesystemEntry
  truncated : Bool
deriving DecidableEq

structure MeasuredBytes where
  totalBytes : UInt64
  usedBytes : UInt64
deriving DecidableEq

structure MeasuredCompute where
  memoryTotalBytes : UInt64
  memoryUsedBytes : UInt64
  cpuTotalTicks : UInt64
  cpuBusyTicks : UInt64
deriving DecidableEq

def detailsBytes : ℕ := 17

def directoryEntryLimit : ℕ := 1000

/-- What the tool that made the volume put into its root, which no app did. -/
def mkfsRootEntries : List String := ["lost+found"]

section Replies

variable {ε : Type}

def u64At (body : List UInt8) (offset : ℕ) : Checked ε UInt64 := do
  let bytes ← slice body offset (offset + 8)
  return UInt64.ofNat (Bytes.ofBe bytes)

/-- The first bytes of a text, which is cut between two characters or not at all. -/
def textPrefix (text : String) (bytes : ℕ) : Checked ε String := do
  let front ← slice (Bytes.ofText text) 0 bytes
  match Bytes.toText? front with
  | some front => return front
  | none => .stuck

/-- The instant without its fraction. An instant the time library has no rendering for comes back
as the epoch, which only the epoch itself is. -/
def chronoSeconds (render : ℤ → String) (epochMs : ℤ) : Checked ε (Option Timestamp) :=
  let text := render epochMs
  if ("1970-01-01T00:00:00".toList.isPrefixOf text.toList && epochMs ≠ 0) = true then .ok none
  else do
    let seconds ← textPrefix text 19
    return Timestamp.parse? (seconds ++ "Z")

/-- The epoch as a timestamp, which its own check accepts. -/
def epochTimestamp : Checked ε Timestamp :=
  match Timestamp.parse? "1970-01-01T00:00:00Z" with
  | some epoch => .ok epoch
  | none => .stuck

def timestampFrom (render : ℤ → String) (seconds : ℤ) : Checked ε Timestamp :=
  let epochMs := seconds * 1000
  if -2 ^ 63 ≤ epochMs ∧ epochMs < 2 ^ 63 then do
    match ← chronoSeconds render epochMs with
    | some instant => return instant
    | none => epochTimestamp
  else epochTimestamp

def detailsAt (render : ℤ → String) (body : List UInt8) (offset : ℕ) :
    Checked ε FilesystemDetails := do
  let kind ← index body offset
  let sizeBytes ← u64At body (offset + 1)
  let seconds ← u64At body (offset + 9)
  let modifiedAt ← timestampFrom render (MachineInt.asI64 seconds.toNat)
  return {
    kind := if kind = 1 then .file else if kind = 2 then .directory else .other
    sizeBytes := sizeBytes
    modifiedAt := modifiedAt }

end Replies

def decodeDetails (render : ℤ → String) (body : List UInt8) :
    Checked MalformedGuestReply FilesystemDetails := do
  refuse (body.length < detailsBytes) ⟨"the details are the wrong length"⟩
  detailsAt render body 0

def decodeWritten (body : List UInt8) : Checked MalformedGuestReply UInt32 := do
  refuse (body.length < 4) ⟨"no count came back from a write"⟩
  let b0 ← index body 0
  let b1 ← index body 1
  let b2 ← index body 2
  let b3 ← index body 3
  return UInt32.ofNat (Bytes.ofBe [b0, b1, b2, b3])

def decodeUsage (body : List UInt8) : Checked MalformedGuestReply MeasuredBytes := do
  refuse (body.length < 16) ⟨"the usage is the wrong length"⟩
  let totalBytes ← u64At body 0
  let usedBytes ← u64At body 8
  return { totalBytes := totalBytes, usedBytes := usedBytes }

def decodeCompute (body : List UInt8) : Checked MalformedGuestReply MeasuredCompute := do
  refuse (body.length < 32) ⟨"the compute reading is the wrong length"⟩
  let memoryTotalBytes ← u64At body 0
  let memoryUsedBytes ← u64At body 8
  let cpuTotalTicks ← u64At body 16
  let cpuBusyTicks ← u64At body 24
  return {
    memoryTotalBytes := memoryTotalBytes, memoryUsedBytes := memoryUsedBytes
    cpuTotalTicks := cpuTotalTicks, cpuBusyTicks := cpuBusyTicks }

/-- The name of the entry at an offset, and the offset behind it. -/
def entryName (body : List UInt8) (offset : ℕ) : Checked MalformedGuestReply (String × ℕ) := do
  let nameLengthAt := offset + detailsBytes
  refuse (body.length ≤ nameLengthAt) ⟨"an entry was cut short"⟩
  let nameLength ← index body nameLengthAt
  let nameAt := nameLengthAt + 1
  refuse (nameLength.toNat = 0 ∨ body.length < nameAt + nameLength.toNat)
    ⟨"an entry names nothing readable"⟩
  let name ← slice body nameAt (nameAt + nameLength.toNat)
  return (Bytes.fromUtf8Lossy name, nameAt + nameLength.toNat)

/-- The loop over the entries of a listing, in at most `rounds` rounds. -/
def entriesFrom (render : ℤ → String) (body : List UInt8) (atRoot : Bool) :
    ℕ → ℕ → List FilesystemEntry → Bool →
      Checked MalformedGuestReply (List FilesystemEntry × Bool)
  | 0, _, _, _ => .stuck
  | rounds + 1, offset, entries, truncated =>
    if offset < body.length then do
      let (name, next) ← entryName body offset
      if entries.length = directoryEntryLimit then return (entries, true)
      else if (atRoot && mkfsRootEntries.contains name) = true then
        entriesFrom render body atRoot rounds next entries truncated
      else do
        let details ← detailsAt render body offset
        let entry : FilesystemEntry :=
          { name := name, kind := details.kind, sizeBytes := details.sizeBytes
            modifiedAt := details.modifiedAt }
        entriesFrom render body atRoot rounds next (entries ++ [entry]) truncated
    else return (entries, truncated)

def decodeListing (render : ℤ → String) (body : List UInt8) (path : GuestPath) :
    Checked MalformedGuestReply DirectoryListing := do
  refuse (body = []) ⟨"a listing came back with nothing in it"⟩
  let cut ← index body 0
  let (entries, truncated) ←
    entriesFrom render body (path.text = "/") body.length 1 [] (cut != 0)
  return { path := path, entries := entries, truncated := truncated }

/-! ### Reading a request -/

/-- A body, and how far it was read. -/
structure Cursor where
  body : List UInt8
  position : ℕ
deriving DecidableEq

namespace Cursor

def new (body : List UInt8) : Cursor := { body := body, position := 0 }

/-- The next bytes, or an error where there are not that many: the end is computed with a check
for overflow and the bytes are asked for, not indexed. -/
def take (cursor : Cursor) (count : ℕ) (reason : String) :
    Checked MalformedRequest (List UInt8 × Cursor) := do
  let stop := cursor.position + count
  refuse (2 ^ 64 ≤ stop) ⟨reason⟩
  refuse (cursor.body.length < stop) ⟨reason⟩
  let taken ← slice cursor.body cursor.position stop
  return (taken, { cursor with position := stop })

/-- The next bytes as a number. -/
def number (cursor : Cursor) (width : ℕ) (reason : String) :
    Checked MalformedRequest (ℕ × Cursor) := do
  let (bytes, cursor) ← cursor.take width reason
  refuse (bytes.length ≠ width) ⟨reason⟩
  return (Bytes.ofBe bytes, cursor)

def field (cursor : Cursor) (reason : String) : Checked MalformedRequest (List UInt8 × Cursor) := do
  let (length, cursor) ← cursor.number 4 reason
  cursor.take length reason

def path (cursor : Cursor) (reason : String) : Checked MalformedRequest (GuestPath × Cursor) := do
  let (bytes, cursor) ← cursor.field reason
  let text ← okOr (Bytes.toText? bytes) ⟨reason⟩
  let path ← okOr (GuestPath.parse? text) ⟨reason⟩
  return (path, cursor)

def offset (cursor : Cursor) (reason : String) : Checked MalformedRequest (UInt64 × Cursor) := do
  let (n, cursor) ← cursor.number 8 reason
  return (UInt64.ofNat n, cursor)

def length (cursor : Cursor) (reason : String) : Checked MalformedRequest (UInt32 × Cursor) := do
  let (n, cursor) ← cursor.number 4 reason
  return (UInt32.ofNat n, cursor)

def byte (cursor : Cursor) (reason : String) : Checked MalformedRequest (UInt8 × Cursor) := do
  let (bytes, cursor) ← cursor.take 1 reason
  let byte ← index bytes 0
  return (byte, cursor)

end Cursor

def decodeRequest (header : FrameHeader) (body : List UInt8) :
    Checked MalformedRequest GuestFilesystemRequest := do
  refuse (body.length ≠ header.bodyLength) ⟨"the body is not the length the header gave"⟩
  let cursor := Cursor.new body
  if header.code = 1 then
    let (path, _) ← cursor.path "a list names no readable path"
    return .list path
  else if header.code = 2 then
    let (path, _) ← cursor.path "a stat names no readable path"
    return .stat path
  else if header.code = 3 then
    let (path, cursor) ← cursor.path "a read names no readable path"
    let (offset, cursor) ← cursor.offset "a read carries no offset"
    let (length, _) ← cursor.length "a read carries no length"
    return .read path offset length
  else if header.code = 4 then
    let (path, cursor) ← cursor.path "a write names no readable path"
    let (offset, cursor) ← cursor.offset "a write carries no offset"
    let (flags, cursor) ← cursor.byte "a write carries no flags"
    let (content, _) ← cursor.field "a write carries no content"
    return .write path offset content (flags == truncateFlag)
  else if header.code = 5 then
    let (path, _) ← cursor.path "a mkdir names no readable path"
    return .makeDirectory path
  else if header.code = 6 then
    let (path, _) ← cursor.path "a remove names no readable path"
    return .remove path
  else if header.code = 7 then
    let (path, cursor) ← cursor.path "a move names no readable path"
    let (destination, _) ← cursor.path "a move names no readable destination"
    return .move path destination
  else if header.code = 8 then return .usage
  else if header.code = 9 then return .compute
  else .error ⟨"a verb this guest does not have"⟩

end Nibrunner.GuestFilesystem

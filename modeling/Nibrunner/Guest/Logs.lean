import Nibrunner.ForStd.Bytes
import Nibrunner.ForStd.Checked
import Nibrunner.ForStd.StreamReader
import Nibrunner.Protocol.Wire

/-!
# The log frames of a guest

What a guest writes to its log socket: what its tenant printed, how much of that was dropped, and
each restart of the tenant. The host reads the socket in chunks of any size and keeps what is not a
whole frame yet for the next read.

The bytes still to be read are passed along where the source keeps an offset into them. A round of
the loop takes at least a header, so as many rounds as there are bytes are enough.
-/

namespace Nibrunner.GuestLogs

open Checked

def frameMagic : List UInt8 := Bytes.ofText "NBL1"

def frameHeaderBytes : ℕ := 9

def kindOffset : ℕ := 4

def lengthOffset : ℕ := 5

def maxFramePayloadBytes : ℕ := 65536

def gapPayloadBytes : ℕ := 8

def kindStdout : UInt8 := 1

def kindStderr : UInt8 := 2

def kindGap : UInt8 := 3

def kindRestart : UInt8 := 4

def restartHeaderBytes : ℕ := 21

def exitCode : UInt8 := 0

def exitSignal : UInt8 := 1

inductive TenantLogStream where
  | stdout
  | stderr
deriving DecidableEq

inductive TenantExit where
  | code (status : Int32)
  | signal (number : Int32)
deriving DecidableEq

structure TenantRestart where
  attempt : UInt32
  budget : UInt32
  exit : TenantExit
  reason : StateMessage
  backoffMs : UInt64
deriving DecidableEq

inductive GuestLogFrame where
  | data (stream : TenantLogStream) (bytes : List UInt8)
  | gap (droppedBytes : UInt64)
  | restart (restart : TenantRestart)
deriving DecidableEq

structure InvalidGuestLogFrame where
  reason : String
deriving DecidableEq

/-! ### Reading -/

/-- The 32-bit number at an offset of a payload. -/
def u32At (payload : List UInt8) (offset : ℕ) : Checked InvalidGuestLogFrame UInt32 := do
  let b0 ← index payload offset
  let b1 ← index payload (offset + 1)
  let b2 ← index payload (offset + 2)
  let b3 ← index payload (offset + 3)
  return UInt32.ofNat (Bytes.ofBe [b0, b1, b2, b3])

def exitFrom (kind : UInt8) (endedWith : Int32) : Checked InvalidGuestLogFrame TenantExit :=
  if kind = exitCode then return .code endedWith
  else if kind = exitSignal then return .signal endedWith
  else .error ⟨"unknown tenant exit kind"⟩

def decodeRestart (payload : List UInt8) : Checked InvalidGuestLogFrame TenantRestart := do
  refuse (payload.length < restartHeaderBytes) ⟨"invalid restart payload length"⟩
  let endedWith ← u32At payload 9
  let endedWith := endedWith.toInt32
  let kind ← index payload 8
  let exit ← exitFrom kind endedWith
  let backoff ← slice payload 13 restartHeaderBytes
  let reason ← slice payload restartHeaderBytes payload.length
  let reason ← okOr (Bytes.toText? reason) ⟨"the restart reason is not text"⟩
  let attempt ← u32At payload 0
  let budget ← u32At payload 4
  return {
    attempt := attempt
    budget := budget
    exit := exit
    reason := StateMessage.new reason
    backoffMs := UInt64.ofNat (Bytes.ofBe backoff) }

def frameFrom (kind : UInt8) (payload : List UInt8) :
    Checked InvalidGuestLogFrame GuestLogFrame :=
  if kind = kindStdout then return .data .stdout payload
  else if kind = kindStderr then return .data .stderr payload
  else if kind = kindGap then do
    refuse (payload.length ≠ gapPayloadBytes) ⟨"invalid gap payload length"⟩
    return .gap (UInt64.ofNat (Bytes.ofBe payload))
  else if kind = kindRestart then do
    let restart ← decodeRestart payload
    return .restart restart
  else .error ⟨"unknown frame kind"⟩

/-- How long the payload behind a header is. -/
def payloadLength (header : List UInt8) : Checked InvalidGuestLogFrame ℕ := do
  let magic ← slice header 0 4
  refuse (magic ≠ frameMagic) ⟨"invalid magic value"⟩
  let b0 ← index header lengthOffset
  let b1 ← index header 6
  let b2 ← index header 7
  let b3 ← index header 8
  let payloadLength := Bytes.ofBe [b0, b1, b2, b3]
  refuse (maxFramePayloadBytes < payloadLength) ⟨"payload exceeds the limit"⟩
  return payloadLength

/-- One round of the loop: the next frame and what is left behind it, or that a frame has not come
whole yet. -/
def nextFrame (rest : List UInt8) :
    Checked InvalidGuestLogFrame (Option (GuestLogFrame × List UInt8)) := do
  if rest.length < frameHeaderBytes then return none
  else
    let header ← slice rest 0 frameHeaderBytes
    let payloadLength ← payloadLength header
    let frameLength := frameHeaderBytes + payloadLength
    if rest.length < frameLength then return none
    else
      let payload ← slice rest frameHeaderBytes frameLength
      let kind ← index header kindOffset
      let frame ← frameFrom kind payload
      return some (frame, rest.drop frameLength)

def decodeRounds : ℕ → List UInt8 →
    Checked InvalidGuestLogFrame (List GuestLogFrame × List UInt8)
  | 0, _ => .stuck
  | rounds + 1, rest => do
    match ← nextFrame rest with
    | none => return ([], rest)
    | some (frame, rest) =>
      let (frames, rest) ← decodeRounds rounds rest
      return (frame :: frames, rest)

/-- The frames in what was left over and the chunk that came, and what is left over now. -/
def decodeFrames (buffered chunk : List UInt8) :
    Checked InvalidGuestLogFrame (List GuestLogFrame × List UInt8) :=
  let rest := buffered ++ chunk
  decodeRounds (rest.length + 1) rest

/-- The frames a connection is read as, and what is left over or the error that ended it. -/
def pump (chunks : List (List UInt8)) :
    List GuestLogFrame × Checked InvalidGuestLogFrame (List UInt8) :=
  StreamReader.feed decodeFrames [] chunks

/-! ### Writing -/

def kindOf : TenantLogStream → UInt8
  | .stdout => kindStdout
  | .stderr => kindStderr

def encodeFrame (kind : UInt8) (payload : List UInt8) : List UInt8 :=
  frameMagic ++ [kind] ++ Bytes.toBe 4 payload.length ++ payload

def encodeGap (droppedBytes : UInt64) : List UInt8 :=
  encodeFrame kindGap (Bytes.toBe 8 droppedBytes.toNat)

/-- The byte a tenant's end is sent as, and the number beside it. -/
def exitOf : TenantExit → UInt8 × Int32
  | .code code => (exitCode, code)
  | .signal signal => (exitSignal, signal)

def restartPayload (restart : TenantRestart) : List UInt8 :=
  let (kind, endedWith) := exitOf restart.exit
  Bytes.toBe 4 restart.attempt.toNat ++ Bytes.toBe 4 restart.budget.toNat ++ [kind] ++
    Bytes.toBe 4 endedWith.toUInt32.toNat ++ Bytes.toBe 8 restart.backoffMs.toNat ++
      Bytes.ofText restart.reason.text

def encodeRestart (restart : TenantRestart) : List UInt8 :=
  encodeFrame kindRestart (restartPayload restart)

end Nibrunner.GuestLogs

import Nibrunner.ForStd.Bytes
import Nibrunner.ForStd.Checked
import Nibrunner.ForStd.TextLines

/-!
# Running a cron job in a guest

The frames in which a host asks its guest to run the command of a cron job and the guest answers
with what came of it. A request is the command and its environment, each text behind its length; a
reply is one of the frames of `ExecutionFrame`. Both sides check what they write and what they
read, in their own order.

A request's accumulating slice is passed along as what is left of the body.
-/

namespace Nibrunner.CronExecution

open Checked

def maxCrontabBytes : ℕ := 65536

def maxCronEnvironmentVariables : ℕ := 256

def maxCronCommandLength : ℕ := 4096

def headerBytes : ℕ := 9

def maxRequestBytes : ℕ := maxCrontabBytes + (maxCronEnvironmentVariables + 2) * 4

def maxOutputBytes : ℕ := 4096

def magic : List UInt8 := Bytes.ofText "NBR1"

def maxExitCode : UInt32 := 255

def maxSignal : UInt32 := 64

structure ExecutionRequest where
  command : String
  environment : List String
deriving DecidableEq

inductive Rejection where
  | malformed
  | spawnFailed
  | busy
deriving DecidableEq

def Rejection.code : Rejection → UInt8
  | malformed => 1
  | spawnFailed => 2
  | busy => 3

inductive ExecutionFrame where
  | started
  | stdout (bytes : List UInt8)
  | stderr (bytes : List UInt8)
  | exit (code signal : UInt32)
  | rejected (reason : Rejection)
deriving DecidableEq

structure FrameHeader where
  code : UInt8
  bodyLength : ℕ
deriving DecidableEq

/-- The one error of the protocol: it says nothing of what was wrong. -/
inductive MalformedExecution where
  | malformedExecution
deriving DecidableEq

open MalformedExecution

/-! ### Headers -/

def decodeHeader (bytes : List UInt8) : Checked MalformedExecution FrameHeader := do
  refuse (bytes.length ≠ headerBytes) malformedExecution
  let front ← slice bytes 0 4
  refuse (front ≠ magic) malformedExecution
  let length ← slice bytes 5 9
  refuse (length.length ≠ 4) malformedExecution
  let code ← index bytes 4
  return { code := code, bodyLength := Bytes.ofBe length }

def decodeRequestHeader (bytes : List UInt8) : Checked MalformedExecution FrameHeader := do
  let header ← decodeHeader bytes
  refuse (header.code ≠ 0 ∨ maxRequestBytes < header.bodyLength) malformedExecution
  return header

/-- How long the body of a reply with a code may be. -/
def replyLength (code : UInt8) (bodyLength : ℕ) : Bool :=
  if code = 1 then bodyLength = 0
  else if code = 2 ∨ code = 3 then 1 ≤ bodyLength && bodyLength ≤ maxOutputBytes
  else if code = 4 then bodyLength = 8
  else if code = 5 then bodyLength = 1
  else false

def decodeReplyHeader (bytes : List UInt8) : Checked MalformedExecution FrameHeader := do
  let header ← decodeHeader bytes
  refuse (replyLength header.code header.bodyLength = false) malformedExecution
  return header

def frame (code : UInt8) (body : List UInt8) : List UInt8 :=
  magic ++ [code] ++ Bytes.toBe 4 body.length ++ body

/-! ### Requests -/

def isAsciiAlphabetic (byte : UInt8) : Bool :=
  65 ≤ byte && byte ≤ 90 || 97 ≤ byte && byte ≤ 122

def isAsciiDigit (byte : UInt8) : Bool := 48 ≤ byte && byte ≤ 57

/-- An entry of an environment: a name, which does not begin with a digit, before the first `=`. -/
def environmentEntry (entry : String) : Bool :=
  match TextLines.splitOnce '=' entry.toList with
  | none => false
  | some (name, _) =>
    !entry.toList.contains (Char.ofNat 0) && name ≠ [] &&
      (Bytes.ofText (String.ofList name)).zipIdx.all fun (byte, i) =>
        isAsciiAlphabetic byte || byte == 95 || 0 < i && isAsciiDigit byte

def validRequest (request : ExecutionRequest) : Bool :=
  request.command ≠ "" &&
    request.command.utf8ByteSize ≤ maxCronCommandLength &&
    !request.command.toList.contains (Char.ofNat 0) &&
    request.environment.length ≤ maxCronEnvironmentVariables &&
    request.environment.all environmentEntry

/-- A text behind its length. -/
def textField (text : String) : List UInt8 :=
  Bytes.toBe 4 text.utf8ByteSize ++ Bytes.ofText text

/-- How long the body of a request is. -/
def requestLength (request : ExecutionRequest) : ℕ :=
  8 + request.command.utf8ByteSize +
    (request.environment.map fun entry => 4 + entry.utf8ByteSize).sum

def requestBody (request : ExecutionRequest) : List UInt8 :=
  textField request.command ++ Bytes.toBe 4 request.environment.length ++
    request.environment.flatMap textField

def encodeRequest (request : ExecutionRequest) : Except MalformedExecution (List UInt8) :=
  if !validRequest request then .error malformedExecution
  else if maxRequestBytes < requestLength request then .error malformedExecution
  else .ok (frame 0 (requestBody request))

/-- The next four bytes as a length, and what is left. -/
def takeLength (bytes : List UInt8) : Checked MalformedExecution (ℕ × List UInt8) := do
  refuse (bytes.length < 4) malformedExecution
  let length ← slice bytes 0 4
  refuse (length.length ≠ 4) malformedExecution
  let rest ← slice bytes 4 bytes.length
  return (Bytes.ofBe length, rest)

/-- The next text behind its length, and what is left. -/
def takeString (bytes : List UInt8) : Checked MalformedExecution (String × List UInt8) := do
  let (length, bytes) ← takeLength bytes
  refuse (bytes.length < length) malformedExecution
  let value ← slice bytes 0 length
  let value ← okOr (Bytes.toText? value) malformedExecution
  let rest ← slice bytes length bytes.length
  return (value, rest)

/-- As many texts as there are to be, one after another. -/
def takeStrings : ℕ → List UInt8 → Checked MalformedExecution (List String × List UInt8)
  | 0, bytes => return ([], bytes)
  | count + 1, bytes => do
    let (value, bytes) ← takeString bytes
    let (values, rest) ← takeStrings count bytes
    return (value :: values, rest)

def decodeRequest (header : FrameHeader) (body : List UInt8) :
    Checked MalformedExecution ExecutionRequest := do
  refuse
    (header.code ≠ 0 ∨ maxRequestBytes < header.bodyLength ∨ body.length ≠ header.bodyLength)
    malformedExecution
  let (command, rest) ← takeString body
  let (count, rest) ← takeLength rest
  refuse (maxCronEnvironmentVariables < count) malformedExecution
  let (environment, rest) ← takeStrings count rest
  let request : ExecutionRequest := { command := command, environment := environment }
  refuse (rest ≠ [] ∨ validRequest request = false) malformedExecution
  return request

/-! ### Replies -/

/-- The frames that are refused before they are written. -/
def unwritable : ExecutionFrame → Bool
  | .stdout bytes | .stderr bytes => !(1 ≤ bytes.length && bytes.length ≤ maxOutputBytes)
  | .exit code signal => maxExitCode < code || maxSignal < signal || code != 0 && signal != 0
  | _ => false

/-- A reply's frame. -/
def replyFrame : ExecutionFrame → List UInt8
  | .started => frame 1 []
  | .stdout bytes => frame 2 bytes
  | .stderr bytes => frame 3 bytes
  | .exit code signal => frame 4 (Bytes.toBe 4 code.toNat ++ Bytes.toBe 4 signal.toNat)
  | .rejected reason => frame 5 [reason.code]

/-- A reply is checked as its reader would check it before it is handed out. -/
def encodeReply (reply : ExecutionFrame) : Checked MalformedExecution (List UInt8) := do
  refuse (unwritable reply = true) malformedExecution
  let bytes := replyFrame reply
  let front ← slice bytes 0 headerBytes
  let _ ← decodeReplyHeader front
  return bytes

def decodeReply (header : FrameHeader) (body : List UInt8) :
    Checked MalformedExecution ExecutionFrame := do
  refuse (body.length ≠ header.bodyLength) malformedExecution
  if header.code = 1 ∧ body = [] then return .started
  else if (header.code = 2 ∨ header.code = 3) ∧ 1 ≤ body.length ∧ body.length ≤ maxOutputBytes then
    return if header.code = 2 then .stdout body else .stderr body
  else if header.code = 4 ∧ body.length = 8 then
    let code ← slice body 0 4
    let signal ← slice body 4 body.length
    refuse (code.length ≠ 4 ∨ signal.length ≠ 4) malformedExecution
    let code := UInt32.ofNat (Bytes.ofBe code)
    let signal := UInt32.ofNat (Bytes.ofBe signal)
    refuse (maxExitCode < code ∨ maxSignal < signal ∨ signal ≠ 0 ∧ code ≠ 0) malformedExecution
    return .exit code signal
  else if header.code = 5 ∧ body.length = 1 then
    let reason ← index body 0
    if reason = 1 then return .rejected .malformed
    else if reason = 2 then return .rejected .spawnFailed
    else if reason = 3 then return .rejected .busy
    else .error malformedExecution
  else .error malformedExecution

end Nibrunner.CronExecution

import Nibrunner.Cron.RunOutput
import Nibrunner.ForStd.Run
import Nibrunner.ForStd.Socket
import Nibrunner.Guest.CronExecutionCodec

/-!
# The exchange in which a guest runs a cron command

A host asks its guest to run a command and follows what it prints. The host's side is `execute`
with the buffered reader it reads through, the guest's is the process that `serve` forks for a
connection, and between them are the two directions of the connection. Either moves on its own, by
as many bytes at a time as the sockets give, and either may be stopped or lose patience at any
moment; what the command prints, and when, is up to it. All this is in the labels of a step.

A host finds out whether anything is left to read by looking (`quiescent`), and need not see yet
what has just come in. A guest's poll sees at once what the host sent or that it hung up. The one
log there is takes the events of a cron run at once, so that a frame is received and its events are
published in one step.
-/

namespace Nibrunner.CronExchange

open Bytes CronExecution Cron GuestLogs

def ack : UInt8 := 0x06

def connectReplyMaxBytes : ℕ := 64

structure CronExitStatus where
  code : UInt32
  signal : UInt32
deriving DecidableEq

inductive CronExecutionError where
  | disconnected
  | malformed
  | rejected (reason : Rejection)
  | tooLarge
  | cancelled
deriving DecidableEq

/-! ### The host -/

/-- What `execute` is at. -/
inductive HostStage where
  | connecting
  /-- What is left to send of the request. -/
  | requesting (rest : List UInt8)
  | starting
  | acknowledging
  | receiving
  | finished (outcome : Except CronExecutionError CronExitStatus)
deriving DecidableEq

structure Host where
  stage : HostStage
  /-- What the buffered reader holds. -/
  buffer : List UInt8
  output : CronRunOutput
  published : List TenantLogEvent
  /-- The output frames taken, in their order. -/
  received : List (TenantLogStream × List UInt8)

/-- The number of an accepted connection. -/
def connectNumber? (line : List UInt8) : Option (List UInt8) :=
  match line with
  | 0x4f :: 0x4b :: 0x20 :: rest =>
    if rest.getLast? = some newline then some rest.dropLast else none
  | _ => none

/-- A reply `OK` with the number of a port behind it. -/
def connected (line : List UInt8) : Bool :=
  match connectNumber? line with
  | none => false
  | some digits =>
    let number := Nat.ofDigitChars 10 (digits.map fun byte => Char.ofNat byte.toNat) 0
    digits ≠ [] && digits.length ≤ 10 && digits.all isAsciiDigit && number < 2 ^ 32 && 0 < number

/-- A line off the front of a buffer, if the buffer has all of it: up to a line feed, and no longer
than a reply may be. -/
def connectLine? (buffer : List UInt8) (atEnd : Bool) : Option (List UInt8 × List UInt8) :=
  let front := buffer.take connectReplyMaxBytes
  if newline ∈ front then
    let length := front.idxOf newline + 1
    some (buffer.take length, buffer.drop length)
  else if connectReplyMaxBytes ≤ buffer.length then
    some (front, buffer.drop connectReplyMaxBytes)
  else if atEnd then some (buffer, [])
  else none

/-- Nothing is left to read. A look (`seen`) may miss what has just come in. -/
def quiescent (buffer : List UInt8) (toHost : Socket UInt8) (seen : Bool) :
    Except CronExecutionError Unit :=
  if buffer ≠ [] then .error .malformed
  else if !seen || !toHost.isReadable then .ok ()
  else if toHost.pending ≠ [] then .error .malformed
  else .error .disconnected

/-- The next frame off the front of a buffer, if the buffer has all of it. -/
def receive? (buffer : List UInt8) (atEnd : Bool) :
    Option (Except CronExecutionError (ExecutionFrame × List UInt8)) :=
  let short := if atEnd then some (.error .disconnected) else none
  if buffer.length < headerBytes then short
  else
    match decodeReplyHeader (buffer.take headerBytes) with
    | .ok header =>
      if buffer.length < headerBytes + header.bodyLength then short
      else
        let body := (buffer.drop headerBytes).take header.bodyLength
        let rest := buffer.drop (headerBytes + header.bodyLength)
        if rest ≠ [] then some (.error .malformed)
        else
          match decodeReply header body with
          | .ok reply => some (.ok (reply, rest))
          | _ => some (.error .malformed)
    | _ => some (.error .malformed)

inductive HostAction where
  /-- The reader takes some of what has come in. -/
  | fill (n : ℕ)
  /-- Goes on with what the reader holds. -/
  | proceed (seen : Bool)
  /-- Sends some of the request. -/
  | send (n : ℕ)
  /-- A time-out, or an error of the connection. -/
  | lose
  | cancel
deriving DecidableEq

section Host

-- what the clock reads when the event of a number is made
variable (clock : ℕ → Timestamp)

namespace Host

/-- The run ends, and what is held of its last lines is published. -/
def finish (h : Host) (outcome : Except CronExecutionError CronExitStatus) : Host :=
  { h with
    stage := .finished outcome
    output := (h.output.close clock).1
    published := h.published ++ (h.output.close clock).2 }

/-- A frame of output is taken. -/
def take (h : Host) (kind : TenantLogStream) (bytes buffer : List UInt8) : Host where
  stage := .acknowledging
  buffer := buffer
  output := (h.output.receive clock kind bytes).1
  published := h.published ++ (h.output.receive clock kind bytes).2
  received := h.received ++ [(kind, bytes)]

/-- What the first reply leads to. -/
def start (h : Host) (buffer : List UInt8) : ExecutionFrame → Host
  | .started => { h with stage := .acknowledging, buffer := buffer }
  | .rejected reason => h.finish clock (.error (.rejected reason))
  | _ => h.finish clock (.error .malformed)

/-- What a later reply leads to. -/
def follow (h : Host) (buffer : List UInt8) : ExecutionFrame → Host
  | .stdout bytes => h.take clock .stdout bytes buffer
  | .stderr bytes => h.take clock .stderr bytes buffer
  | .exit code signal => h.finish clock (.ok ⟨code, signal⟩)
  | _ => h.finish clock (.error .malformed)

/-- The host goes on as far as what its reader holds lets it, and what it sends. -/
def proceed (request : List UInt8) (toHost : Socket UInt8) (seen : Bool) (h : Host) :
    Host × List UInt8 :=
  match h.stage with
  | .connecting =>
    match connectLine? h.buffer toHost.atEnd with
    | none => (h, [])
    | some (line, buffer) =>
      if !connected line then (h.finish clock (.error .malformed), [])
      else
        match quiescent buffer toHost seen with
        | .ok _ => ({ h with stage := .requesting request, buffer := buffer }, [])
        | .error e => (h.finish clock (.error e), [])
  | .starting =>
    match receive? h.buffer toHost.atEnd with
    | none => (h, [])
    | some (.error e) => (h.finish clock (.error e), [])
    | some (.ok (reply, buffer)) => (h.start clock buffer reply, [])
  | .acknowledging =>
    match quiescent h.buffer toHost seen with
    | .ok _ => ({ h with stage := .receiving }, [ack])
    | .error e => (h.finish clock (.error e), [])
  | .receiving =>
    match receive? h.buffer toHost.atEnd with
    | none => (h, [])
    | some (.error e) => (h.finish clock (.error e), [])
    | some (.ok (reply, buffer)) => (h.follow clock buffer reply, [])
  | .requesting _ | .finished _ => (h, [])

end Host

end Host

/-! ### The guest -/

/-- How a process of the guest came to its end. -/
inductive GuestEnd where
  | refused (reason : Rejection)
  | exited (status : CronExitStatus)
  /-- A byte that acknowledges nothing. -/
  | badAck
  /-- The host sent more or hung up while the command was running. -/
  | aborted
  /-- The host hung up where it was to acknowledge. -/
  | unacknowledged
  /-- A time-out, a signal or an error of a call. -/
  | failed
deriving DecidableEq

/-- What follows a reply: the pipes to read next, behind the host's acknowledgement, or the end. -/
inductive AfterReply where
  | forward (pipes : List TenantLogStream)
  | leave (why : GuestEnd)
deriving DecidableEq

inductive GuestStage where
  | listening
  /-- `read_request`, with what was read of it. -/
  | reading (got : List UInt8)
  | spawning
  /-- `send_reply`, with what is left to send. -/
  | sending (rest : List UInt8) (after : AfterReply)
  | awaiting (pipes : List TenantLogStream)
  /-- `forward`, with the pipes the last poll found ready and that are not yet read. -/
  | forwarding (pipes : List TenantLogStream)
  | finishing
  | gone (why : GuestEnd)
deriving DecidableEq

/-- A `CommandProcess` and what its process is at. -/
structure Guest where
  stage : GuestStage
  request : Option ExecutionRequest
  stdout : Bool
  stderr : Bool
  exited : Bool
  /-- What was read off the command's pipes, in its order. -/
  printed : List (TenantLogStream × List UInt8)
deriving DecidableEq

namespace Guest

/-- Whether a pipe is open. -/
def isOpen (g : Guest) : TenantLogStream → Bool
  | .stdout => g.stdout
  | .stderr => g.stderr

def close (g : Guest) : TenantLogStream → Guest
  | .stdout => { g with stdout := false }
  | .stderr => { g with stderr := false }

end Guest

/-- How `serve` takes a connection: by a process of its own, or itself, to refuse it. -/
inductive Serving where
  | worker
  | busy
  | forkFailed
deriving DecidableEq

/-- What `waitpid` tells. -/
inductive WaitStatus where
  | exited (status : UInt8)
  | signaled (signal : UInt32)
deriving DecidableEq

def WaitStatus.toExit : WaitStatus → CronExitStatus
  | exited status => ⟨status.toUInt32, 0⟩
  | signaled signal => ⟨0, signal⟩

inductive GuestAction where
  | accept (serving : Serving)
  | recv (n : ℕ)
  | spawn (succeeds : Bool)
  | send (n : ℕ)
  | recvAck
  /-- The command's leader may be over, and the pipes may have something to read. -/
  | poll (exits : Bool) (ready : TenantLogStream → Bool)
  /-- A read of a pipe: some bytes, its end, or nothing yet. -/
  | read (bytes : Option (List UInt8))
  | reap (status : WaitStatus)
  /-- A time-out, or an error of a call. -/
  | fail
  | stop

/-- The request that was read, if all of it was. -/
def readRequest? (got : List UInt8) : Option (Checked MalformedExecution ExecutionRequest) :=
  if got.length < headerBytes then none
  else
    match decodeRequestHeader (got.take headerBytes) with
    | .ok header =>
      if got.length < headerBytes + header.bodyLength then none
      else some (decodeRequest header (got.drop headerBytes))
    | .error e => some (.error e)
    | .stuck => some .stuck

/-- How much `read_request` asks for next. -/
def wanted (got : List UInt8) : ℕ :=
  if got.length < headerBytes then headerBytes - got.length
  else
    match decodeRequestHeader (got.take headerBytes) with
    | .ok header => headerBytes + header.bodyLength - got.length
    | _ => 0

/-- The frame of some output. -/
def outputFrame : TenantLogStream → List UInt8 → ExecutionFrame
  | .stdout, bytes => .stdout bytes
  | .stderr, bytes => .stderr bytes

/-! ### The two and their connection -/

structure Exchange where
  host : Host
  guest : Guest
  toHost : Socket UInt8
  toGuest : Socket UInt8

inductive Label where
  | host (action : HostAction)
  | guest (action : GuestAction)

namespace Exchange

/-- The guest's process ends, and its side of the connection with it. -/
def leave (s : Exchange) (why : GuestEnd) : Exchange :=
  { s with guest := { s.guest with stage := .gone why }, toHost := s.toHost.finish }

/-- `send_reply`, up to its first byte. -/
def reply (s : Exchange) (frame : ExecutionFrame) (after : AfterReply) : Exchange :=
  match encodeReply frame with
  | .ok bytes => { s with guest := { s.guest with stage := .sending bytes after } }
  | _ => s.leave .failed

def refuse (s : Exchange) (reason : Rejection) : Exchange :=
  s.reply (.rejected reason) (.leave (.refused reason))

/-- Some of the request is read. -/
def recv (s : Exchange) (got : List UInt8) (n : ℕ) : Exchange :=
  if s.toGuest.atEnd then s.refuse .malformed
  else
    let n := min n (wanted got)
    let got := got ++ s.toGuest.pending.take n
    let s := { s with
      guest := { s.guest with stage := .reading got }, toGuest := s.toGuest.drop n }
    match readRequest? got with
    | none => s
    | some (.ok request) =>
      { s with guest := { s.guest with stage := .spawning, request := some request } }
    | some _ => s.refuse .malformed

/-- Some of a reply is sent. A reply that is not the last is to be acknowledged. -/
def sendReply (s : Exchange) (rest : List UInt8) (after : AfterReply) (n : ℕ) : Exchange :=
  let s := { s with toHost := s.toHost.write (rest.take n) }
  if rest.drop n ≠ [] then
    { s with guest := { s.guest with stage := .sending (rest.drop n) after } }
  else
    match after with
    | .forward pipes => { s with guest := { s.guest with stage := .awaiting pipes } }
    | .leave why => s.leave why

def recvAck (s : Exchange) (pipes : List TenantLogStream) : Exchange :=
  match s.toGuest.pending with
  | byte :: _ =>
    let s := { s with toGuest := s.toGuest.drop 1 }
    if byte = ack then { s with guest := { s.guest with stage := .forwarding pipes } }
    else s.leave .badAck
  | [] => if s.toGuest.ended then s.leave .unacknowledged else s

/-- A round of `forward`, up to its reads. -/
def poll (s : Exchange) (exits : Bool) (ready : TenantLogStream → Bool) : Exchange :=
  let exited := s.guest.exited || exits
  let s := { s with guest := { s.guest with exited := exited } }
  if exited && !s.guest.stdout && !s.guest.stderr then
    { s with guest := { s.guest with stage := .finishing } }
  else if s.toGuest.isReadable then s.leave .aborted
  else
    let pipes := [TenantLogStream.stdout, .stderr].filter fun pipe =>
      s.guest.isOpen pipe && ready pipe
    { s with guest := { s.guest with stage := .forwarding pipes } }

/-- A pipe that is ready is read. -/
def readPipe (s : Exchange) (pipe : TenantLogStream) (pipes : List TenantLogStream) :
    Option (List UInt8) → Exchange
  | none => { s with guest := { s.guest with stage := .forwarding pipes } }
  | some bytes =>
    let bytes := bytes.take maxOutputBytes
    if bytes = [] then
      { s with guest := { s.guest.close pipe with stage := .forwarding pipes } }
    else
      let s := { s with guest := { s.guest with printed := s.guest.printed ++ [(pipe, bytes)] } }
      s.reply (outputFrame pipe bytes) (.forward pipes)

def stepGuest (s : Exchange) (action : GuestAction) : Exchange :=
  match s.guest.stage, action with
  | .gone _, _ => s
  | _, .stop => s.leave .failed
  | .reading _, .fail => s.refuse .malformed
  | _, .fail => s.leave .failed
  | .listening, .accept .worker => { s with guest := { s.guest with stage := .reading [] } }
  | .listening, .accept .busy => s.refuse .busy
  | .listening, .accept .forkFailed => s.refuse .spawnFailed
  | .reading got, .recv n => s.recv got n
  | .spawning, .spawn true =>
    { s with guest := { s.guest with stdout := true, stderr := true } }.reply .started
      (.forward [])
  | .spawning, .spawn false => s.refuse .spawnFailed
  | .sending rest after, .send n => s.sendReply rest after n
  | .awaiting pipes, .recvAck => s.recvAck pipes
  | .forwarding [], .poll exits ready => s.poll exits ready
  | .forwarding (pipe :: pipes), .read bytes => s.readPipe pipe pipes bytes
  | .finishing, .reap status =>
    s.reply (.exit status.toExit.code status.toExit.signal) (.leave (.exited status.toExit))
  | _, _ => s

section Step

variable (clock : ℕ → Timestamp) (request : List UInt8)

/-- The host is where it is now; if it has finished, its side of the connection is closed. -/
def withHost (s : Exchange) (h : Host) (sent : List UInt8) : Exchange :=
  let toGuest := s.toGuest.write sent
  { s with
    host := h
    toGuest := match h.stage with
      | .finished _ => toGuest.finish
      | _ => toGuest }

def stepHost (s : Exchange) (action : HostAction) : Exchange :=
  match s.host.stage, action with
  | .finished _, _ => s
  | _, .cancel => s.withHost (s.host.finish clock (.error .cancelled)) []
  | _, .lose => s.withHost (s.host.finish clock (.error .disconnected)) []
  | .requesting rest, .send n =>
    let stage := if rest.drop n = [] then .starting else .requesting (rest.drop n)
    s.withHost { s.host with stage := stage } (rest.take n)
  | .connecting, .fill n | .starting, .fill n | .receiving, .fill n =>
    { s with
      host := { s.host with buffer := s.host.buffer ++ s.toHost.pending.take n }
      toHost := s.toHost.drop n }
  | _, .proceed seen =>
    let (h, sent) := s.host.proceed clock request s.toHost seen
    s.withHost h sent
  | _, _ => s

def step (s : Exchange) : Label → Exchange
  | .host action => s.stepHost clock request action
  | .guest action => s.stepGuest action

end Step

/-- The reply of the relay between the two, which it sends before anything of the guest's. -/
def connectReply (port : ℕ) : List UInt8 :=
  [0x4f, 0x4b, 0x20] ++ (Nat.toDigits 10 port).map (fun c => c.val.toUInt8) ++ [newline]

/-- An exchange at its start: the host has asked for the guest's port, and the relay has connected
it. -/
def opened (output : CronRunOutput) (port : ℕ) : Exchange where
  host := { stage := .connecting, buffer := [], output := output, published := [], received := [] }
  guest := {
    stage := .listening, request := none, stdout := false, stderr := false, exited := false,
    printed := [] }
  toHost := Socket.fresh.write (connectReply port)
  toGuest := Socket.fresh

end Exchange

end Nibrunner.CronExchange

import Mathlib.Data.Nat.Notation
import Nibrunner.Guest.Logs

/-!
# Forwarding the tenant's output

The guest's supervisor hands in what the tenant prints and each restart of it, and forwards it to
the host over a connection it dials. A frame that cannot be delivered on the connection is tried
once more on a fresh one and then given up: its bytes are counted, and the count is announced in a
gap frame on the next connection before anything else.

What the outside does is in the label of a call: what the clock says, whether a dial comes through,
and for each `write_all` whether it succeeds, or how many bytes of the frame the host still got.
Beside the forwarder the state keeps what was handed in, what was pending at each dial, and what
arrived.
-/

namespace Nibrunner.GuestLogs

/-! ### The outside -/

/-- What a `write_all` comes to. -/
inductive WriteAll where
  | ok
  | error (delivered : ℕ)

/-- The bytes of a frame that arrive: all of it, or at most a strict prefix. -/
def WriteAll.arriving (frame : List UInt8) : WriteAll → List UInt8
  | .ok => frame
  | .error delivered => frame.take (min delivered (frame.length - 1))

abbrev CallId := ℕ
abbrev ConnectionId := ℕ

/-- A frame written: the one a call handed in, or a gap. -/
inductive Sent where
  | handedIn (call : CallId) (frame : List UInt8)
  | gap (droppedBytes : UInt64)

def Sent.frame : Sent → List UInt8
  | .handedIn _ frame => frame
  | .gap droppedBytes => encodeGap droppedBytes

/-- What arrived of a frame. -/
structure Arrival where
  connection : ConnectionId
  sent : Sent
  bytes : List UInt8

def Arrival.isWhole (a : Arrival) : Bool := a.bytes = a.sent.frame

/-- What a call finds: the clock when it asks whether to dial, what becomes of the write on the
connection it holds, whether the dial comes through, what becomes of the gap, the clock after it,
and what becomes of the write on the fresh connection. -/
structure Answers where
  now : ℕ
  first : WriteAll
  dialed : Bool
  gap : WriteAll
  redialedAt : ℕ
  second : WriteAll

/-! ### The forwarder -/

/-- In nanoseconds, as all times here. -/
def retryFloor : ℕ := 200000000

def retryCeiling : ℕ := 5000000000

structure Forwarder where
  connection : Option ConnectionId
  retryAfter : ℕ
  backoff : ℕ
  droppedBytes : UInt64

/-- The forwarder and what happened around it. -/
structure Forwarding extends Forwarder where
  handedIn : List (List UInt8)
  /-- What was pending when each connection was dialed. -/
  pendingAt : List UInt64
  arrivals : List Arrival

namespace Forwarding

/-- A forwarder made at a time. -/
def new (now : ℕ) : Forwarding where
  connection := none
  retryAfter := now
  backoff := retryFloor
  droppedBytes := 0
  handedIn := []
  pendingAt := []
  arrivals := []

def arrive (s : Forwarding) (a : Arrival) : Forwarding :=
  { s with arrivals := s.arrivals ++ [a] }

def disconnect (s : Forwarding) : Forwarding := { s with connection := none }

/-- Whether the host has the frame; the connection is gone when it has not. -/
def deliver (s : Forwarding) (sent : Sent) (outcome : WriteAll) : Bool × Forwarding :=
  match s.connection with
  | none => (false, s)
  | some connection =>
    let s := s.arrive
      { connection := connection, sent := sent, bytes := outcome.arriving sent.frame }
    match outcome with
    | .ok => (true, s)
    | .error _ => (false, s.disconnect)

def declareGap (s : Forwarding) (outcome : WriteAll) : Bool × Forwarding :=
  if s.droppedBytes = 0 then (true, s)
  else
    match s.deliver (.gap s.droppedBytes) outcome with
    | (true, s) => (true, { s with droppedBytes := 0 })
    | (false, s) => (false, s)

def dial (s : Forwarding) (dialed : Bool) : Forwarding :=
  if dialed then
    { s with connection := some s.pendingAt.length, pendingAt := s.pendingAt ++ [s.droppedBytes] }
  else s.disconnect

/-- A fresh connection, told first what it missed. -/
def redial (s : Forwarding) (answers : Answers) : Bool × Forwarding :=
  let s := s.dial answers.dialed
  let declared := if s.connection.isSome then s.declareGap answers.gap else (false, s)
  match declared with
  | (true, s) =>
    (true, { s with backoff := retryFloor, retryAfter := answers.redialedAt + retryFloor })
  | (false, s) =>
    (false, { s with
      retryAfter := answers.redialedAt + s.backoff
      backoff := min (s.backoff * 2) retryCeiling })

/-- A frame on a fresh connection. -/
def resend (s : Forwarding) (sent : Sent) (answers : Answers) : Bool × Forwarding :=
  match s.redial answers with
  | (true, s) => s.deliver sent answers.second
  | (false, s) => (false, s)

def attempt (s : Forwarding) (sent : Sent) (answers : Answers) : Bool × Forwarding :=
  if s.connection.isSome then
    match s.deliver sent answers.first with
    | (true, s) => (true, s)
    | (false, s) => s.resend sent answers
  else if s.retryAfter ≤ answers.now then s.resend sent answers
  else (false, s)

def send (s : Forwarding) (call : CallId) (frame : List UInt8) (answers : Answers) : Forwarding :=
  match s.attempt (.handedIn call frame) answers with
  | (true, s) => s
  | (false, s) =>
    { s with droppedBytes := s.droppedBytes + UInt64.ofNat (frame.length - frameHeaderBytes) }

/-- How long before a pending gap may be dialed out. -/
def reconnectDueIn (s : Forwarding) (now : ℕ) : Option ℕ :=
  if s.connection.isSome || s.droppedBytes == 0 then none
  else some (s.retryAfter - now)

inductive Call where
  | write (stream : TenantLogStream) (bytes : List UInt8) (answers : Answers)
  | restarted (restart : TenantRestart) (answers : Answers)
  | reconnectIfDue (answers : Answers)

def handIn (s : Forwarding) (payload : List UInt8) : Forwarding :=
  { s with handedIn := s.handedIn ++ [payload] }

def step (s : Forwarding) : Call → Forwarding
  | .write stream bytes answers =>
    (s.handIn bytes).send s.handedIn.length (encodeFrame (kindOf stream) bytes) answers
  | .restarted restart answers =>
    (s.handIn (restartPayload restart)).send s.handedIn.length (encodeRestart restart) answers
  | .reconnectIfDue answers =>
    if s.reconnectDueIn answers.now = some 0 then (s.redial answers).2 else s

end Forwarding

/-! ### What the host has -/

/-- The payload bytes a whole frame brings, or announces as missing. -/
def Arrival.accounted (a : Arrival) : ℕ :=
  if a.isWhole then
    match a.sent with
    | .handedIn _ frame => frame.length - frameHeaderBytes
    | .gap droppedBytes => droppedBytes.toNat
  else 0

/-- The call whose frame arrived whole. -/
def Arrival.wholeCall (a : Arrival) : Option CallId :=
  match a.sent with
  | .handedIn call _ => if a.isWhole then some call else none
  | .gap _ => none

/-! ### What is announced -/

/-- What was pending when a connection was dialed is announced on it, or nothing was. -/
def Told (pendingAt : List UInt64) (before : List Arrival) (connection : ConnectionId) : Prop :=
  ∃ pending, pendingAt[connection]? = some pending ∧
    (pending = 0 ∨ ∃ b ∈ before, b.connection = connection ∧ b.sent = .gap pending ∧ b.isWhole)

/-- A gap is the first frame of its connection and announces what was pending at its dial; a frame
that was handed in comes once that is announced. -/
def Announced (pendingAt : List UInt64) (before : List Arrival) (a : Arrival) : Prop :=
  match a.sent with
  | .gap droppedBytes => pendingAt[a.connection]? = some droppedBytes ∧
      ∀ b ∈ before, b.connection ≠ a.connection
  | .handedIn _ _ => Told pendingAt before a.connection

namespace Forwarding

def received (s : Forwarding) : ℕ := (s.arrivals.map Arrival.accounted).sum

def handedInBytes (s : Forwarding) : ℕ := (s.handedIn.map List.length).sum

def wholeCalls (s : Forwarding) : List CallId := s.arrivals.filterMap Arrival.wholeCall

/-- On every connection what was pending is announced before any later frame. -/
def AnnouncesFirst (s : Forwarding) : Prop :=
  ∀ (before : List Arrival) (a : Arrival) (after : List Arrival),
    s.arrivals = before ++ a :: after → Announced s.pendingAt before a

end Forwarding

end Nibrunner.GuestLogs

import Mathlib.Algebra.Order.Ring.Nat
import Nibrunner.ForStd.Run
import Nibrunner.ForStd.Socket
import Nibrunner.ForStd.TextLines

/-!
# The control port of a guest

Before a guest is put to sleep the host has it freeze the processes of its tenant; when it wakes the
host has it set its clock and release them; and while a checkpoint is cut the host has it hold the
filesystem of its volume still. A connection carries one of these conversations, a line at a time,
and the guest answers one connection after the other. A freeze that nobody ends is ended by the
guest: the one of the tenant when its lease is over, the one of the volume at its ceiling.

The host may give up on a conversation at any time, whatever the guest has read of it. Time passes
on its own, and does not while the guest is paused. How long the kernel takes to freeze the
processes and how the system answers the calls of the guest is given with its steps; a line is
written as a whole or not at all.
-/

namespace Nibrunner.GuestControl

open Run TextLines

/-! ### What is said -/

def tenantFreezeRequest : String := "SLEEP"
def tenantFreezeReady : String := "READY"
def tenantFreezeCommit : String := "HOLD"
def tenantFreezeHeld : String := "OK"
def tenantClockRequest : String := "WAKE"
def tenantClockReady : String := "READY"
def tenantClockRelease : String := "GO "
def tenantClockReleased : String := "OK"
def freezeRequest : String := "FREEZE"
def freezeHeld : String := "OK"
def refused : String := "REFUSED"

/-- The line that lets the clock go, with the time of the host in nanoseconds. -/
def releaseLine (nanos : ℕ) : String := tenantClockRelease ++ String.ofList (decimal nanos)

/-- The time of the host in a line. -/
def hostTime (line : String) : Option ℕ :=
  let text := line.toList
  let mark := tenantClockRelease.toList
  if text.take mark.length = mark then parseDecimal? (2 ^ 128) (text.drop mark.length) else none

/-! In milliseconds, as the guest counts them. -/

def maxHold : ℕ := 900000
def tenantLease : ℕ := 30000
def freezeTimeout : ℕ := 3000

/-! ### Conversations -/

inductive Purpose where
  | sleep
  | wake
  | freeze
deriving DecidableEq

def Purpose.request : Purpose → String
  | .sleep => tenantFreezeRequest
  | .wake => tenantClockRequest
  | .freeze => freezeRequest

/-- How far the host is with a conversation. -/
inductive HostPhase where
  | asked
  /-- The guest is ready, and was told to go on. -/
  | answered
  | granted
  | failed
deriving DecidableEq

structure Conversation where
  purpose : Purpose
  phase : HostPhase
  toGuest : Socket String
  toHost : Socket String
  accepted : Bool
  /-- The time of the host when it told the guest to go on. -/
  told : Option ℕ
  /-- All that the guest said, and what of it the host has read. -/
  said : List String
  heard : List String
  /-- When the volume was frozen for it. -/
  heldFrom : Option ℕ
deriving DecidableEq

namespace Conversation

def start (purpose : Purpose) : Conversation where
  purpose := purpose
  phase := .asked
  toGuest := Socket.fresh.write [purpose.request]
  toHost := .fresh
  accepted := false
  told := none
  said := []
  heard := []
  heldFrom := none

variable (v : Conversation)

/-- The host lets the connection go. -/
def leave (phase : HostPhase) : Conversation :=
  { v with phase := phase, toGuest := v.toGuest.finish }

/-- The host tells a guest that is ready to go on. -/
def tell (time : ℕ) : Conversation :=
  { v with
    phase := .answered
    told := some time
    toGuest := v.toGuest.write
      [if v.purpose = .sleep then tenantFreezeCommit else releaseLine time] }

/-- The volume is held, for as long as the host keeps the connection. -/
def grant : Conversation := { v with phase := .granted }

/-- What the host makes of a line it has read. -/
def answerTo (line : String) (time : ℕ) : Conversation :=
  match v.phase, v.purpose with
  | .asked, .sleep => if line = tenantFreezeReady then v.tell time else v.leave .failed
  | .asked, .wake => if line = tenantClockReady then v.tell time else v.leave .failed
  | .asked, .freeze =>
    if line = freezeHeld then v.grant else v.leave .failed
  | .answered, .sleep => v.leave (if line = tenantFreezeHeld then .granted else .failed)
  | .answered, _ => v.leave (if line = tenantClockReleased then .granted else .failed)
  | .granted, _ | .failed, _ => v

/-- A line is read. -/
def hears (line : String) : Conversation :=
  { v with toHost := v.toHost.drop 1, heard := v.heard ++ [line] }

/-- The host takes what there is of the guest's. -/
def hostStep (time : ℕ) : Conversation :=
  if v.phase = .granted ∨ v.phase = .failed then v
  else
    match v.toHost.pending with
    | line :: _ => (v.hears line).answerTo line time
    | [] => if v.toHost.ended then v.leave .failed else v

/-- The host gives up, or no longer needs the volume held. -/
def giveUp : Conversation :=
  v.leave (if v.phase = .granted then .granted else .failed)

/-- Whether the host finds a freeze of the volume still held. -/
def assertHeld : Bool := v.toHost.pending.isEmpty && !v.toHost.ended

end Conversation

/-! ### The guest -/

/-- What the guest is at, and with which connection. -/
inductive Server where
  | listening
  | reading (c : ℕ)
  /-- It is ready to freeze the tenant, and waits for the host to say so. -/
  | confirming (c : ℕ)
  /-- The processes are told to freeze. -/
  | freezing (c deadline : ℕ)
  | synchronizing (c : ℕ)
  | holding (c deadline : ℕ)
  /-- The volume was let go, and the connection is next. -/
  | leaving (c deadline : ℕ)
deriving DecidableEq

/-- How a freeze of the tenant came to its end: by its lease, by a conversation that woke it, or by
one that could not freeze it again. -/
inductive Ending where
  | lease (time : ℕ)
  | woken (c : ℕ)
  | failed (c : ℕ)
deriving DecidableEq

/-- A freeze of the tenant. -/
structure Freeze where
  conversation : ℕ
  time : ℕ
  ending : Option Ending
deriving DecidableEq

/-- A time the clock was set to, and whether the tenant was released then. -/
structure ClockSet where
  conversation : ℕ
  nanos : ℕ
  released : Bool
deriving DecidableEq

structure Guest where
  now : ℕ
  server : Server
  backlog : List ℕ
  frozenUntil : Option ℕ
  /-- What the processes of the tenant are told, and whether all of them are frozen. -/
  freeze : Bool
  frozen : Bool
  volumeFrozen : Bool
  freezes : List Freeze
  clockSets : List ClockSet
  /-- A freeze failed, and could not be taken back. -/
  stuck : Bool
  /-- The volume could not be let go. -/
  volumeStuck : Bool
deriving DecidableEq

/-- How the system answers the calls of a step. -/
structure GuestIo where
  options : Bool
  /-- A read ends without a line. -/
  timesOut : Bool
  reply : Bool
  cgroup : Bool
  events : Bool
  clock : Bool
  freezes : Bool
  thaws : Bool
deriving DecidableEq

structure System where
  guest : Guest
  conversations : List Conversation
deriving DecidableEq

inductive Label where
  | connect (purpose : Purpose)
  | host (c time : ℕ)
  | giveUp (c : ℕ)
  | guest (io : GuestIo)
  /-- The kernel has frozen the last of the processes. -/
  | settle
  | elapse (time : ℕ)
deriving DecidableEq

namespace Guest

variable (g : Guest)

/-- The processes are released. -/
def release (ending : Ending) : Guest :=
  { g with
    freeze := false
    frozen := false
    stuck := false
    freezes := g.freezes.map fun f => { f with ending := some (f.ending.getD ending) } }

def leaseOver : Bool := g.frozenUntil.any (· ≤ g.now)

/-- A lease that is over is ended before the next connection is taken. -/
def endLease (io : GuestIo) : Guest :=
  if g.leaseOver && io.cgroup then { g.release (.lease g.now) with frozenUntil := none } else g

/-- A freeze that failed is taken back. -/
def takeBack (c : ℕ) (io : GuestIo) : Guest :=
  if io.cgroup then g.release (.failed c) else { g with stuck := true }

/-- The processes are frozen, and the lease begins. -/
def held (c : ℕ) : Guest :=
  { g with
    stuck := false
    frozenUntil := some (g.now + tenantLease)
    freezes := g.freezes ++ [⟨c, g.now, none⟩] }

def thaw (io : GuestIo) : Guest :=
  if io.thaws then { g with volumeFrozen := false, volumeStuck := false }
  else { g with volumeStuck := true }

end Guest

inductive Reading where
  | line (text : String)
  | failed
  | waits
deriving DecidableEq

namespace System

variable (s : System)

def modify (c : ℕ) (f : Conversation → Conversation) : System :=
  { s with conversations := s.conversations.modify c f }

def withGuest (g : Guest) : System := { s with guest := g }

def goTo (server : Server) : System := s.withGuest { s.guest with server := server }

/-- A line is written to a connection, where that works. -/
def say (c : ℕ) (line : String) (io : GuestIo) : System :=
  if io.reply then
    s.modify c fun v => { v with toHost := v.toHost.write [line], said := v.said ++ [line] }
  else s

/-- The guest is through with a connection. -/
def hangUp (c : ℕ) : System :=
  (s.modify c fun v => { v with toHost := v.toHost.finish }).goTo .listening

def refuse (c : ℕ) (io : GuestIo) : System := (s.say c refused io).hangUp c

/-- What a read of a connection comes to. -/
def reads (c : ℕ) (io : GuestIo) : Reading :=
  if io.timesOut then .failed
  else
    match s.conversations[c]? with
    | none => .failed
    | some v =>
      match v.toGuest.pending with
      | line :: _ => .line line
      | [] => if v.toGuest.ended then .failed else .waits

def take (c : ℕ) : System := s.modify c fun v => { v with toGuest := v.toGuest.drop 1 }

def listen (io : GuestIo) : System :=
  let s := s.withGuest (s.guest.endLease io)
  match s.guest.backlog with
  | [] => s
  | c :: backlog =>
    let s := s.withGuest { s.guest with backlog := backlog }
    let s := s.modify c fun v => { v with accepted := true }
    if io.options then s.goTo (.reading c) else s.hangUp c

/-- The request decides what the connection is for. -/
def request (c : ℕ) (line : String) (io : GuestIo) : System :=
  if line = tenantFreezeRequest then
    if io.reply then (s.say c tenantFreezeReady io).goTo (.confirming c) else s.refuse c io
  else if line = tenantClockRequest then
    if io.reply then (s.say c tenantClockReady io).goTo (.synchronizing c) else s.refuse c io
  else if line ≠ freezeRequest || s.guest.frozenUntil.isSome then s.hangUp c
  else if !io.freezes then s.refuse c io
  else
    let s := s.withGuest { s.guest with volumeFrozen := true }
    if io.reply then
      let now := s.guest.now
      ((s.say c freezeHeld io).modify c fun v => { v with heldFrom := some now }).goTo
        (.holding c (now + maxHold))
    else (s.withGuest (s.guest.thaw io)).hangUp c

/-- The host confirmed that it still wants the tenant frozen, or did not. -/
def confirm (c : ℕ) (line : String) (io : GuestIo) : System :=
  if line ≠ tenantFreezeCommit || !io.cgroup then s.refuse c io
  else
    (s.withGuest { s.guest with freeze := true }).goTo
      (.freezing c (s.guest.now + freezeTimeout))

/-- A look at whether the processes are frozen by now. -/
def poll (c deadline : ℕ) (io : GuestIo) : System :=
  if !io.events then (s.withGuest (s.guest.takeBack c io)).refuse c io
  else if s.guest.frozen then
    let s := s.withGuest (s.guest.held c)
    if io.reply then (s.say c tenantFreezeHeld io).hangUp c
    else if io.cgroup then
      (s.withGuest { s.guest.release (.failed c) with frozenUntil := none }).hangUp c
    else s.hangUp c
  else if deadline ≤ s.guest.now then (s.withGuest (s.guest.takeBack c io)).refuse c io
  else s

/-- The clock is set, the tenant released, and the host told so. -/
def synchronize (c : ℕ) (line : String) (io : GuestIo) : System :=
  match hostTime line with
  | none => s.refuse c io
  | some nanos =>
    if nanos / 10 ^ 9 ≥ 2 ^ 63 || !io.clock then s.refuse c io
    else
      let set : ClockSet := ⟨c, nanos, io.cgroup⟩
      let s := s.withGuest { s.guest with clockSets := s.guest.clockSets ++ [set] }
      if !io.cgroup then s.refuse c io
      else
        let s := s.withGuest (s.guest.release (.woken c))
        if io.reply then
          ((s.withGuest { s.guest with frozenUntil := none }).say c tenantClockReleased io).hangUp c
        else s.refuse c io

/-- A volume is held until its connection says anything or ends, or to the ceiling. -/
def hold (c deadline : ℕ) (io : GuestIo) : System :=
  if s.conversations[c]?.any (·.toGuest.isReadable) || deadline ≤ s.guest.now then
    (s.withGuest (s.guest.thaw io)).goTo (.leaving c deadline)
  else s

def guestStep (io : GuestIo) : System :=
  match s.guest.server with
  | .listening => s.listen io
  | .reading c =>
    match s.reads c io with
    | .line line => (s.take c).request c line io
    | .failed => s.hangUp c
    | .waits => s
  | .confirming c =>
    match s.reads c io with
    | .line line => (s.take c).confirm c line io
    | .failed => s.refuse c io
    | .waits => s
  | .freezing c deadline => s.poll c deadline io
  | .synchronizing c =>
    match s.reads c io with
    | .line line => (s.take c).synchronize c line io
    | .failed => s.refuse c io
    | .waits => s
  | .holding c deadline => s.hold c deadline io
  | .leaving c _ => s.hangUp c

def step (s : System) : Label → System
  | .connect purpose =>
    { (s.withGuest { s.guest with backlog := s.guest.backlog ++ [s.conversations.length] }) with
      conversations := s.conversations ++ [.start purpose] }
  | .host c time => s.modify c (·.hostStep time)
  | .giveUp c => s.modify c (·.giveUp)
  | .guest io => s.guestStep io
  | .settle => s.withGuest { s.guest with frozen := s.guest.freeze }
  | .elapse time => s.withGuest { s.guest with now := s.guest.now + time }

/-- A guest that has booted. -/
def booted : System where
  guest :=
    { now := 0
      server := .listening
      backlog := []
      frozenUntil := none
      freeze := false
      frozen := false
      volumeFrozen := false
      freezes := []
      clockSets := []
      stuck := false
      volumeStuck := false }
  conversations := []

end System

end Nibrunner.GuestControl

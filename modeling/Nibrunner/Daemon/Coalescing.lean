import Nibrunner.ForStd.IdMap
import Nibrunner.ForStd.Run
import Nibrunner.Protocol.Identifier

/-!
# Coalesced wakes

Many requests may wake one app at once. The first of them leads: it makes an entry for the app,
with a channel, and boots the guest. A wake that finds the entry follows: it subscribes and waits
for what the leader says. The leader takes its entry out and says how the boot ended; if its
future is dropped before that, its drop does the same with a word of its own.

A call of `wake` is known by a number, and a channel by the call that made it. A step is what a call
does between two awaits, and the part of `broadcast` on either side of taking the entry out: the
lock on the entries is held until the outcome is sent. What a boot does is open.
-/

namespace Nibrunner.Coalescing

open Std

inductive WakeFailure where
  | hostStarting
  | notNamed
  | notOnRequest
  | notIsolated
  | volumeUnusable
  | wouldNotStart
  | neverAnswered
  | abandoned
deriving DecidableEq

inductive WakeRefusal where
  | noRoom (shortfallMib : ℕ)
  | failed (kind : WakeFailure) (reason : String)
deriving DecidableEq

abbrev Outcome := Except WakeRefusal Unit

/-- What a wake ends with whose leader went away. -/
def abandoned : Outcome := .error (.failed .abandoned "the wake was abandoned")

/-! ### Broadcast channels -/

/-- A channel that keeps one message: what was sent, and whether its sender is gone. -/
structure Channel where
  messages : List Outcome
  closed : Bool

/-- A channel nothing was sent on yet. -/
def Channel.new : Channel where
  messages := []
  closed := false

/-- What a receiver that has read some messages is answered: nothing yet, the next message, or an
error, because it is gone or was overtaken. -/
def Channel.recv (channel : Channel) (read : ℕ) : Option (Except Unit Outcome) :=
  if channel.messages.length > read + 1 then some (.error ())
  else
    match channel.messages[read]? with
    | some outcome => some (.ok outcome)
    | none => if channel.closed then some (.error ()) else none

/-- The last message of a sender that is dropped once it was sent. -/
def Channel.sendLast (channel : Channel) (outcome : Outcome) : Channel where
  messages := channel.messages ++ [outcome]
  closed := true

/-! ### Calls -/

abbrev CallId := ℕ

/-- Where a call of `wake` is. A leader boots, then it settles with an outcome, then it holds the
lock and has its sender, and then it is over; a call that was dropped goes the same way. -/
inductive Phase where
  | booting
  | settling (outcome : Outcome) (gone : Bool)
  | sending (outcome : Outcome) (gone : Bool) (sender : CallId)
  | waiting (read : ℕ)
  | returned (outcome : Outcome)
  | dropped
deriving DecidableEq

/-- What a leader ends in once it has said how its boot ended. -/
def Phase.ended (outcome : Outcome) (gone : Bool) : Phase :=
  if gone then .dropped else .returned outcome

/-- A call: for which app, whose boot it waits for (its own if it leads), and where it is. -/
structure Call where
  appId : AppId
  leader : CallId
  phase : Phase
deriving DecidableEq

/-- An app's entry: the channel of its leader, and how many joined. -/
structure Entry where
  sender : CallId
  count : ℕ
deriving DecidableEq

structure AppWaker where
  inFlight : ExtTreeMap AppId Entry
  /-- The call that holds the lock on the entries across a step. -/
  locked : Option CallId
  channels : ExtTreeMap CallId Channel
  calls : ExtTreeMap CallId Call

def AppWaker.new : AppWaker where
  inFlight := ∅
  locked := none
  channels := ∅
  calls := ∅

namespace AppWaker

/-- A call goes on to a phase. -/
def goOn (s : AppWaker) (id : CallId) (phase : Phase) : AppWaker :=
  { s with calls := s.calls.modify id fun call => { call with phase := phase } }

/-! ### Steps -/

/-- A call's first step: it follows the app's leader, or it leads. -/
def wake (s : AppWaker) (id : CallId) (appId : AppId) : AppWaker :=
  if s.locked.isSome || s.calls.contains id then s
  else
    match s.inFlight[appId]? with
    | some entry =>
      let read := (s.channels[entry.sender]?.map fun channel => channel.messages.length).getD 0
      { s with
        inFlight := s.inFlight.insert appId { entry with count := entry.count + 1 }
        calls := s.calls.insert id
          { appId := appId, leader := entry.sender, phase := .waiting read } }
    | none =>
      { s with
        inFlight := s.inFlight.insert appId { sender := id, count := 0 }
        channels := s.channels.insert id .new
        calls := s.calls.insert id { appId := appId, leader := id, phase := .booting } }

/-- A leader's boot ends. -/
def bootEnds (s : AppWaker) (id : CallId) (outcome : Outcome) : AppWaker :=
  match s.calls[id]? with
  | some ⟨_, _, .booting⟩ => s.goOn id (.settling outcome false)
  | _ => s

/-- A call's future is dropped at an await. -/
def drop (s : AppWaker) (id : CallId) : AppWaker :=
  match s.calls[id]? with
  | some ⟨_, _, .booting⟩ => s.goOn id (.settling abandoned true)
  | some ⟨_, _, .waiting _⟩ => s.goOn id .dropped
  | _ => s

/-- A leader locks the entries and takes its own out. -/
def take (s : AppWaker) (id : CallId) : AppWaker :=
  match s.calls[id]? with
  | some ⟨appId, _, .settling outcome gone⟩ =>
    if s.locked.isSome then s
    else
      match s.inFlight[appId]? with
      | some entry =>
        { s with inFlight := s.inFlight.erase appId, locked := some id }.goOn id
          (.sending outcome gone entry.sender)
      | none => s.goOn id (.ended outcome gone)
  | _ => s

/-- A leader sends its outcome and lets go of the lock. -/
def send (s : AppWaker) (id : CallId) : AppWaker :=
  match s.calls[id]? with
  | some ⟨_, _, .sending outcome gone sender⟩ =>
    { s with
      channels := s.channels.modify sender fun channel => channel.sendLast outcome
      locked := none }.goOn id (.ended outcome gone)
  | _ => s

/-- A follower looks at its channel. -/
def receive (s : AppWaker) (id : CallId) : AppWaker :=
  match s.calls[id]? with
  | some ⟨_, leader, .waiting read⟩ =>
    match s.channels[leader]?.bind fun channel => channel.recv read with
    | some (.ok outcome) => s.goOn id (.returned outcome)
    | some (.error _) => s.goOn id (.returned abandoned)
    | none => s
  | _ => s

inductive Move where
  | wake (id : CallId) (appId : AppId)
  | bootEnds (id : CallId) (outcome : Outcome)
  | drop (id : CallId)
  | take (id : CallId)
  | send (id : CallId)
  | receive (id : CallId)

def step (s : AppWaker) : Move → AppWaker
  | .wake id appId => s.wake id appId
  | .bootEnds id outcome => s.bootEnds id outcome
  | .drop id => s.drop id
  | .take id => s.take id
  | .send id => s.send id
  | .receive id => s.receive id

end AppWaker

end Nibrunner.Coalescing

import Nibrunner.Guest.Logs
import Nibrunner.Protocol.Identifier

/-!
# The log events of a tenant

What a host publishes of what a tenant printed. A source numbers its events (`Numbered`), in a `u64`
that would overflow only after 2^64 of them.
-/

namespace Nibrunner

open GuestLogs

/-- What ends a line of a log. -/
def newline : UInt8 := 10

inductive TenantLogBody where
  | data (stream : TenantLogStream) (text : String)
  | cronData (stream : TenantLogStream) (text jobId runId : String)
  | gap (droppedBytes : UInt64)
  | restart (restart : TenantRestart)
deriving DecidableEq

structure TenantLogEvent where
  appId : AppId
  deploymentId : DeploymentId
  sourceId : String
  sequence : ℕ
  observedAt : Timestamp
  body : TenantLogBody
deriving DecidableEq

namespace TenantLogBody

/-- The text of an event, if it is one of the stream. -/
def text? (stream : TenantLogStream) : TenantLogBody → Option String
  | .data printed text | .cronData printed text _ _ => if printed = stream then some text else none
  | .gap _ | .restart _ => none

/-- What some events say of a stream. -/
def texts (stream : TenantLogStream) (bodies : List TenantLogBody) : List String :=
  bodies.filterMap (text? stream)

@[simp] theorem texts_append (stream : TenantLogStream) (a b : List TenantLogBody) :
    texts stream (a ++ b) = texts stream a ++ texts stream b := List.filterMap_append

end TenantLogBody

namespace TenantLogEvent

def texts (stream : TenantLogStream) (events : List TenantLogEvent) : List String :=
  TenantLogBody.texts stream (events.map (·.body))

@[simp] theorem texts_append (stream : TenantLogStream) (a b : List TenantLogEvent) :
    texts stream (a ++ b) = texts stream a ++ texts stream b := by
  rw [texts, List.map_append, TenantLogBody.texts_append, texts, texts]

/-- The events have the numbers from the first on, in their order. -/
def Numbered (first : ℕ) (events : List TenantLogEvent) : Prop :=
  events.map (·.sequence) = List.range' first events.length

theorem Numbered.append {first : ℕ} {a b : List TenantLogEvent} (ha : Numbered first a)
    (hb : Numbered (first + a.length) b) : Numbered first (a ++ b) := by
  rw [Numbered] at ha hb ⊢
  rw [List.map_append, ha, hb, List.length_append, List.range'_append_1]

end TenantLogEvent

end Nibrunner

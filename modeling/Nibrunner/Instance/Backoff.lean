import Nibrunner.ForStd.MachineInt
import Nibrunner.Protocol.Document

/-!
# Start attempts and their backoff

An attempt is a boot. The window on a record counts the attempts spent and says when the last
one was made; `nextAttemptWindow` spends one, `isReadyToRetry` says whether the backoff after the
last one is done.

The backoff delay is computed in 64-bit floats. That computation, like the two texts read out of
other libraries' tables, is a parameter of the whole development (`Platform`): nothing here
depends on what it returns, only on the cap `backoffDelayMs` puts on it.
-/

namespace Nibrunner

open MachineInt

/-- What the daemon computes with the platform's arithmetic and other libraries' tables. -/
class Platform where
  /-- The initial backoff times the factor to the power of the attempts before this one, in
  64-bit floats, rounded and saturated to an unsigned 64-bit number. -/
  grown : (initialBackoffMs : ℕ) → (backoffFactor : UInt64) → (attempt : ℕ) → ℕ
  /-- The canonical reason phrase of an HTTP status. -/
  canonicalReason : (status : ℕ) → Option String
  /-- The name of a signal. -/
  signalName : (signal : ℤ) → Option String

/-- A platform whose backoff does not grow and whose tables are empty. -/
@[reducible] def Platform.plain : Platform where
  grown initialBackoffMs _ _ := initialBackoffMs
  canonicalReason _ := none
  signalName _ := none

/-- The attempts spent on an app and when the last of them was made. -/
structure AttemptWindow where
  attempts : ℕ
  lastAttemptAtMs : Option ℤ
deriving DecidableEq

def noStartAttempts : AttemptWindow where
  attempts := 0
  lastAttemptAtMs := none

/-- How long to wait after `attempt` attempts: grown by the policy's factor, capped. -/
def backoffDelayMs [Platform] (attempt : ℕ) (policy : RestartPolicy) : ℕ :=
  if attempt = 0 then 0
  else min (Platform.grown policy.initialBackoffMs policy.backoffFactor attempt) policy.maxBackoffMs

/-- The window with one more attempt in it: the first of a fresh window once `resetAfterMs` has
passed since the last. The cap is compared as a signed number and the count is a 32-bit one. -/
def nextAttemptWindow (window : AttemptWindow) (nowMs : ℤ) (resetAfterMs : ℕ) : AttemptWindow :=
  let elapsed := window.lastAttemptAtMs.elim 0 (nowMs - ·)
  { attempts := if asI64 resetAfterMs ≤ elapsed then 1 else wrapU32 (window.attempts + 1)
    lastAttemptAtMs := some nowMs }

/-- Whether the backoff after the last attempt is done. -/
def isReadyToRetry [Platform] (window : AttemptWindow) (nowMs : ℤ) (policy : RestartPolicy) :
    Bool :=
  match window.lastAttemptAtMs with
  | none => true
  | some last => asI64 (backoffDelayMs window.attempts policy) ≤ nowMs - last

/-- The delay never exceeds the policy's cap. -/
theorem backoffDelayMs_le [Platform] (attempt : ℕ) (policy : RestartPolicy) :
    backoffDelayMs attempt policy ≤ policy.maxBackoffMs := by
  unfold backoffDelayMs
  split
  · exact Nat.zero_le _
  · exact Nat.min_le_right _ _

end Nibrunner

import Nibrunner.Instance.Record

/-!
# Memory on the host

Which records count against the host's memory, and whether one more instance fits beside them.
-/

namespace Nibrunner

/-- The states behind which there is no microVM. -/
def holdsNothing : List InstanceState := [.idle, .stopped, .failed]

/-- **A record holds what it was given** while there is a microVM behind it or one on its way. A
boot in flight is pending with its attempt spent; a record pending with none spent is one waiting
for room. -/
def holdsSomething (r : InstanceRecord) : Bool :=
  r.state ∉ holdsNothing && !(r.state = .pending && r.startAttempts = noStartAttempts)

def committedResources (records : List InstanceRecord) : List InstanceResources :=
  (records.filter holdsSomething).map (·.resources)

def committedMemoryMib (committed : List InstanceResources) : ℕ :=
  (committed.map (·.memoryMib)).sum

/-- What the host is short of taking `wanted` beside what is committed. -/
def memoryShortfallMib (hostMemoryMib : ℕ) (committed : List InstanceResources)
    (wanted : InstanceResources) : ℕ :=
  committedMemoryMib committed + wanted.memoryMib - hostMemoryMib

/-- What the host is short of bringing `app` up beside everything else it holds; nothing where it
fits. The app's own record is left out. -/
def memoryShortfallFor (guestMemoryMib : ℕ) (records : List InstanceRecord) (app : AppId)
    (wanted : InstanceResources) : Option ℕ :=
  let others := (records.filter fun r => r.appId ≠ app && holdsSomething r).map (·.resources)
  let shortfall := memoryShortfallMib guestMemoryMib others wanted
  if 0 < shortfall then some shortfall else none

/-- There is room for an app exactly when it fits beside what the others are committed. -/
theorem memoryShortfallFor_eq_none_iff {guestMemoryMib : ℕ} {records : List InstanceRecord}
    {app : AppId} {wanted : InstanceResources} :
    memoryShortfallFor guestMemoryMib records app wanted = none ↔
      committedMemoryMib
          ((records.filter fun r => r.appId ≠ app && holdsSomething r).map (·.resources)) +
        wanted.memoryMib ≤ guestMemoryMib := by
  unfold memoryShortfallFor memoryShortfallMib
  dsimp only
  split
  · rename_i hshort
    exact iff_of_false (Option.some_ne_none _) (by omega)
  · rename_i hroom
    exact iff_of_true rfl (by omega)

end Nibrunner

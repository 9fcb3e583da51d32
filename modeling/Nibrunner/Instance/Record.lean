import Nibrunner.Instance.Health
import Nibrunner.Net.Allocator

/-!
# Instance records

A record is what the daemon keeps of an app: what the document said of it when it was last taken
up (`RecordFields`), and what became of it since. The two ways of taking a document up are a
fresh record (`InstanceRecord.new`) and an update of a held one (`InstanceRecord.adopt`), which
keeps everything that is not a field of the document's.
-/

namespace Nibrunner

/-- A port beyond the HTTP one, and the host port the slot handed it. -/
structure RecordPort where
  name : String
  hostPort : ℕ
  guestPort : ℕ
deriving DecidableEq

/-- What a record takes from the document and the app's slot. -/
structure RecordFields where
  appId : AppId
  deploymentId : DeploymentId
  volumeId : VolumeId
  hostnames : List String
  /-- Absent where the app never held a slot. -/
  hostPort : Option ℕ
  httpPort : ℕ
  ports : List RecordPort
  guestIpv4 : Option String
  layerDigests : List String
  healthCheck : HealthCheck
  resources : InstanceResources
  restartPolicy : RestartPolicy
  desiredRunning : Bool
  onRequest : Bool
deriving DecidableEq

structure InstanceRecord extends RecordFields where
  state : InstanceState
  health : HealthTracker
  startAttempts : AttemptWindow
  /-- Restarts of the tenant inside its guest since the host last booted the app afresh. -/
  restartCount : ℕ
  stopRequested : Bool
  startedAt : Option ℤ
  lastExitCode : Option ℤ
  message : Option String
deriving DecidableEq

namespace InstanceRecord

/-- A record nothing has happened to yet. -/
def new (fields : RecordFields) (state : InstanceState) (health : HealthTracker) :
    InstanceRecord where
  toRecordFields := fields
  state := state
  health := health
  startAttempts := noStartAttempts
  restartCount := 0
  stopRequested := false
  startedAt := none
  lastExitCode := none
  message := none

/-- The record with the document's fields; the app it is of stays. -/
def adopt (r : InstanceRecord) (fields : RecordFields) : InstanceRecord :=
  { r with toRecordFields := { fields with appId := r.appId } }

end InstanceRecord

/-! ### The fields of an instance -/

/-- The host ports a slot hands an app's extra ports; index 0 of the slot is the HTTP port. -/
def recordPorts (desired : DesiredInstance) (slot : AppSlot) : List RecordPort :=
  desired.config.ports.zipIdx.filterMap fun (port, index) =>
    (hostPortAt slot.slot (index + 1)).map fun hostPort =>
      { name := port.name, hostPort := hostPort, guestPort := port.guestPort }

/-- The fields for the one case no slot backs them: a start refused before the app held one. -/
def recordFieldsWithoutSlot (desired : DesiredInstance) : RecordFields where
  appId := desired.appId
  deploymentId := desired.deploymentId
  volumeId := desired.volumeId
  hostnames := desired.hostnames
  hostPort := none
  httpPort := desired.config.httpPort
  ports := []
  guestIpv4 := none
  layerDigests := desired.layers.map (·.digest)
  healthCheck := desired.config.healthCheck
  resources := desired.config.resources
  restartPolicy := desired.config.restartPolicy
  desiredRunning := desired.desiredState ≠ .stopped
  onRequest := desired.desiredState = .onRequest

/-- The fields of an instance on its slot. -/
def recordFields (desired : DesiredInstance) (slot : AppSlot) : RecordFields :=
  { recordFieldsWithoutSlot desired with
    hostPort := some slot.hostPort
    ports := recordPorts desired slot
    guestIpv4 := some slot.guestIpv4 }

end Nibrunner

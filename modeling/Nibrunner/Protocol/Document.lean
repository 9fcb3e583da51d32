import Mathlib.Data.Nat.Notation
import Nibrunner.Protocol.Identifier

/-!
# The desired document

The document a host converges on, as far as the daemon's decisions read it: what each instance
is to boot from and onto, which volumes, checkpoints and exports are to be there, and the values
the status loop judges a guest by (`HealthCheck`, `RestartPolicy`).

Machine integers are natural numbers; the two casts at which their width shows are in
`ForStd.MachineInt`. The backoff factor is a 64-bit float on the wire and is carried as its bits:
nothing computes with it but the backoff delay, which takes that computation as a parameter.
-/

namespace Nibrunner

/-! ### What an instance asks for -/

inductive DesiredInstanceState where
  /-- Keeps the microVM up. -/
  | running
  /-- Brings the microVM up for the first deploy and for every request that finds it asleep. -/
  | onRequest
  /-- Takes the microVM down and leaves the app reachable enough to say so. -/
  | stopped
deriving DecidableEq, Repr

inductive DesiredPresence where
  | present
  | absent
deriving DecidableEq, Repr

structure InstanceResources where
  vcpuCount : ℕ
  memoryMib : ℕ
deriving DecidableEq

def defaultInstanceResources : InstanceResources where
  vcpuCount := 1
  memoryMib := 256

/-- How a port is asked, and how many answers either way it takes to change the verdict. -/
structure Probe where
  intervalMs : ℕ
  timeoutMs : ℕ
  gracePeriodMs : ℕ
  healthyThreshold : ℕ
  unhealthyThreshold : ℕ
deriving DecidableEq

/-- What `boot-completed` runs the state machine of a probed port on. -/
def ofTheMicrovm : Probe where
  intervalMs := 5000
  timeoutMs := 2000
  gracePeriodMs := 30000
  healthyThreshold := 1
  unhealthyThreshold := 1

/-- What tells the host an instance is well. -/
inductive HealthCheck where
  | http (path : String) (probe : Probe)
  | tcp (probe : Probe)
  | bootCompleted
deriving DecidableEq

namespace HealthCheck

/-- Whether liveness is read from a port inside the guest, or from the microVM being up. -/
def probesAPort : HealthCheck → Bool
  | bootCompleted => false
  | _ => true

def probe : HealthCheck → Probe
  | http _ probe => probe
  | tcp probe => probe
  | bootCompleted => ofTheMicrovm

def kind : HealthCheck → String
  | http .. => "http"
  | tcp .. => "tcp"
  | bootCompleted => "boot-completed"

end HealthCheck

structure RestartPolicy where
  maxRestarts : ℕ
  initialBackoffMs : ℕ
  maxBackoffMs : ℕ
  /-- The bits of a 64-bit float. -/
  backoffFactor : UInt64
  resetAfterMs : ℕ
deriving DecidableEq

def defaultRestartPolicy : RestartPolicy where
  maxRestarts := 5
  initialBackoffMs := 500
  maxBackoffMs := 30000
  backoffFactor := 0x4000000000000000
  resetAfterMs := 60000

/-- The HTTP port of an app that names none. -/
def defaultHttpPort : ℕ := 3000

/-- A port beside the HTTP one. -/
structure InstancePort where
  name : String
  guestPort : ℕ
deriving DecidableEq

structure AppConfig where
  httpPort : ℕ
  ports : List InstancePort
  resources : InstanceResources
  healthCheck : HealthCheck
  restartPolicy : RestartPolicy
deriving DecidableEq

/-- A configuration that names no ports of its own and takes every default. -/
instance : Inhabited AppConfig where
  default :=
    { httpPort := defaultHttpPort
      ports := []
      resources := defaultInstanceResources
      healthCheck := .bootCompleted
      restartPolicy := defaultRestartPolicy }

/-- One layer of the root filesystem; of what it names only the digest is read here. -/
structure DesiredLayer where
  digest : String
deriving DecidableEq

structure DesiredInstance where
  appId : AppId
  deploymentId : DeploymentId
  /-- Mounted in the guest as the app's data directory. -/
  volumeId : VolumeId
  desiredState : DesiredInstanceState
  layers : List DesiredLayer
  config : AppConfig
  hostnames : List String
deriving DecidableEq

/-! ### Volumes, checkpoints and exports -/

structure DesiredVolume where
  volumeId : VolumeId
  appId : AppId
  sizeBytes : ℕ
  desiredState : DesiredPresence
deriving DecidableEq

structure DesiredCheckpoint where
  checkpointId : CheckpointId
  volumeId : VolumeId
  desiredState : DesiredPresence
deriving DecidableEq

structure DesiredExport where
  exportId : ExportId
  appId : AppId
  volumeId : VolumeId
  objectKey : String
  desiredState : DesiredPresence
deriving DecidableEq

/-- What one host should be running. -/
structure HostDesiredState where
  volumes : List DesiredVolume
  instances : List DesiredInstance
  checkpoints : List DesiredCheckpoint
  exports : List DesiredExport
deriving DecidableEq

namespace HostDesiredState

/-- The apps the document names. -/
def appIds (d : HostDesiredState) : List AppId := d.instances.map (·.appId)

/-- The volumes the document lists, present or absent. -/
def volumeIds (d : HostDesiredState) : List VolumeId := d.volumes.map (·.volumeId)

end HostDesiredState

end Nibrunner

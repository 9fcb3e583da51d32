import Nibrunner.Host.State

/-!
# What a host cannot put within reach

A document may ask for more than a host is configured to answer for. `ingressRefusal` says why,
before anything is fetched or attached for the instance.
-/

namespace Nibrunner

def httpPortName : String := "http"

/-- Every port the app answers on, the HTTP one first. -/
def AppConfig.allPorts (config : AppConfig) : List InstancePort :=
  { name := httpPortName, guestPort := config.httpPort } :: config.ports

private def validatePortsFrom (names : List String) (guestPorts : List ℕ) :
    List InstancePort → Option String
  | [] => none
  | port :: rest =>
    if port.name ∈ names then
      some s!"{port.name} is named twice, and each port is reached by its own name"
    else if port.guestPort ∈ guestPorts then
      some s!"guest port {port.guestPort} is claimed twice, and one port cannot answer two ways"
    else validatePortsFrom (port.name :: names) (port.guestPort :: guestPorts) rest

/-- Why the ports of an app are not a set of ports; nothing where they are. -/
def AppConfig.validatePorts (config : AppConfig) : Option String :=
  validatePortsFrom [] [] config.allPorts

/-- Why this host cannot put the instance within reach, or nothing. -/
def ingressRefusal (desired : DesiredInstance) (config : HostConfig) : Option String :=
  match desired.config.validatePorts with
  | some invalid => some invalid
  | none =>
    if desired.hostnames ≠ [] ∧ ¬ config.proxyHttp then
      some (s!"it answers for {desired.hostnames.length} but this host runs no proxy, " ++
        "so nothing would reach it")
    else
      let named := desired.config.ports.length
      let allowed := config.maxPortsPerGuest.getD 0
      if allowed < named then
        if allowed = 0 then
          some (s!"it asks for {named} port beside its HTTP one and this host names no " ++
            "[proxy.raw] to bind them on")
        else some s!"it asks for {named} ports beside its HTTP one and [proxy.raw] allows {allowed}"
      else none

end Nibrunner

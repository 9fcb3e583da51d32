import Nibrunner.ForStd.Checked
import Nibrunner.ForStd.TextLines
import Nibrunner.Protocol.Document
import Nibrunner.Protocol.Tenant

/-!
# The file a guest is configured by

The host writes what a guest is to run as lines of `KEY=VALUE`, its own keys under one prefix and
the tenant's variables under another, and the guest reads the lines back when it boots. The
numbered keys of the arguments are read until one is missing, which is an unbroken run from 0; the
references in the tenant's values are filled in on the way.

Texts are lists of characters. How a 64-bit float is written and read is the platform's: it is a
parameter (`FloatText`), and the factor is carried as its bits.
-/

namespace Nibrunner.InstanceEnv

open Checked TextLines

def runtimePrefix : List Char := "NIBRUN_".toList

def tenantPrefix : List Char := "ENV_".toList

def dnsServers : List (List Char) := ["1.1.1.1".toList, "1.0.0.1".toList]

/-- How a float is written, whole numbers without a fraction, and how one is read. -/
structure FloatText where
  jsNumber : UInt64 → List Char
  parse : List Char → Option UInt64

/-! ### Writing -/

structure InstanceEnvContent where
  httpPort : HttpPort
  /-- How many layer drives follow the three every guest has. -/
  layers : ℕ
  hostnames : List AppHostname
  program : GuestPath
  workingDirectory : GuestPath
  args : TenantArguments
  environment : TenantEnvironment
  restartPolicy : RestartPolicy
  layers_lt : layers < 2 ^ 64
  maxRestarts_lt : restartPolicy.maxRestarts < 2 ^ 32
  initialBackoffMs_lt : restartPolicy.initialBackoffMs < 2 ^ 64
  maxBackoffMs_lt : restartPolicy.maxBackoffMs < 2 ^ 64
  resetAfterMs_lt : restartPolicy.resetAfterMs < 2 ^ 64

structure UnrepresentableEnvironment where
  variableName : List Char
deriving DecidableEq

def hasForbiddenCharacter (value : List Char) : Bool :=
  value.any fun c => c = '\n' || c = '\r' || c = Char.ofNat 0

def platformHostname (hostnames : List AppHostname) : Option Hostname :=
  (hostnames.find? fun each => each.kind = .platform).map AppHostname.hostname

/-- One line of the file. -/
def line (key value : List Char) : List Char := key ++ '=' :: value

/-- A key of the runtime's own. -/
def runtimeKey (name : String) : List Char := runtimePrefix ++ name.toList

/-- The key of an argument. -/
def argumentKey (index : ℕ) : List Char := runtimeKey "ARG_" ++ decimal index

/-- The lines of the arguments from an index on. -/
def argumentLines : ℕ → List String → Except UnrepresentableEnvironment (List (List Char))
  | _, [] => .ok []
  | index, argument :: arguments => do
    if hasForbiddenCharacter argument.toList then
      throw { variableName := argumentKey index }
    let lines ← argumentLines (index + 1) arguments
    return line (argumentKey index) argument.toList :: lines

/-- The lines of the tenant's variables. -/
def environmentLines :
    List (String × TenantValue) → Except UnrepresentableEnvironment (List (List Char))
  | [] => .ok []
  | (name, value) :: entries => do
    if hasForbiddenCharacter value.text.toList then
      throw { variableName := name.toList }
    let lines ← environmentLines entries
    return line (tenantPrefix ++ name.toList) value.text.toList :: lines

/-- The lines every file has. -/
def runtimeLines (floats : FloatText) (content : InstanceEnvContent) : List (List Char) :=
  let policy := content.restartPolicy
  [line (runtimeKey "HTTP_PORT") (decimal content.httpPort.port),
    line (runtimeKey "LAYERS") (decimal content.layers),
    line (runtimeKey "PROGRAM") content.program.text.toList,
    line (runtimeKey "CWD") content.workingDirectory.text.toList] ++
  (platformHostname content.hostnames).toList.map
    (fun hostname => line (runtimeKey "HOSTNAME") hostname.text.toList) ++
  [line (runtimeKey "MAX_RESTARTS") (decimal policy.maxRestarts),
    line (runtimeKey "INITIAL_BACKOFF_MS") (decimal policy.initialBackoffMs),
    line (runtimeKey "MAX_BACKOFF_MS") (decimal policy.maxBackoffMs),
    line (runtimeKey "BACKOFF_FACTOR") (floats.jsNumber policy.backoffFactor),
    line (runtimeKey "RESET_AFTER_MS") (decimal policy.resetAfterMs),
    line (runtimeKey "DNS") ([','].intercalate dnsServers)]

def renderInstanceEnv (floats : FloatText) (content : InstanceEnvContent) :
    Except UnrepresentableEnvironment (List Char) := do
  let arguments ← argumentLines 0 content.args.list
  let tenant ← environmentLines content.environment.entries
  return unlines (runtimeLines floats content ++ arguments ++ tenant)

/-! ### Reading -/

inductive InstanceEnvError where
  | missing (key : List Char)
  | malformed (key : List Char) (rule : String)
  | unknownReference (key reference : List Char)
  | tooMany (what : String)
deriving DecidableEq

open InstanceEnvError

def maxNameservers : ℕ := 3

def maxTenantVariables : ℕ := 256

def configMaxBytes : ℕ := 128 * 1024

structure InstanceConfig where
  httpPort : ℕ
  layers : ℕ
  program : List Char
  workingDirectory : List Char
  hostname : Option (List Char)
  maxRestarts : ℕ
  initialBackoffMs : ℕ
  maxBackoffMs : ℕ
  backoffFactor : UInt64
  resetAfterMs : ℕ
  nameservers : List (List Char)
  arguments : List (List Char)
  environment : List (List Char × List Char)
deriving DecidableEq

/-- Keys and their values, in the order they were read. -/
abbrev Entries := List (List Char × List Char)

/-- The value the first entry of a key has. -/
def named (runtime : Entries) (key : List Char) : Option (List Char) :=
  (runtime.find? fun entry => entry.1 = key).map Prod.snd

/-- A value from a position on, its references filled in. -/
def expandFrom (key value : List Char) (runtime : Entries) :
    ℕ → List RuntimeReference → Checked InstanceEnvError (List Char)
  | position, [] => slice value position value.length
  | position, reference :: references => do
    let found ← okOr
      (runtime.find? fun entry =>
        entry.1 = reference.name && runtimeValueNames.contains reference.name)
      (unknownReference key reference.name)
    let front ← slice value position reference.start
    let back ← expandFrom key value runtime reference.stop references
    return front ++ found.2 ++ back

def expand (key value : List Char) (runtime : Entries) : Checked InstanceEnvError (List Char) :=
  expandFrom key value runtime 0 (runtimeReferences value)

/-- The entries of some lines: those under the runtime's prefix with their whole keys, and those
under the tenant's without it. What is under neither is passed over. -/
def readLines : List (List Char) → Checked InstanceEnvError (Entries × Entries)
  | [] => return ([], [])
  | line :: lines => do
    if line = [] then readLines lines
    else
      let (key, value) ← okOr (splitOnce '=' line) (malformed (line.take 32) "a KEY=VALUE line")
      let (runtime, tenant) ← readLines lines
      match runtimePrefix.isPrefixOf? key with
      | some name => return ((runtimePrefix ++ name, value) :: runtime, tenant)
      | none =>
        match tenantPrefix.isPrefixOf? key with
        | some name => return (runtime, (name, value) :: tenant)
        | none => return (runtime, tenant)

def required (runtime : Entries) (key : List Char) : Checked InstanceEnvError (List Char) :=
  okOr (named runtime key) (missing key)

def number (runtime : Entries) (key : List Char) : Checked InstanceEnvError ℕ := do
  let value ← required runtime key
  okOr (parseDecimal? (2 ^ 32) value) (malformed key "a number")

/-- The arguments behind those read already, for as many rounds as are allowed. -/
def readArguments (runtime : Entries) :
    ℕ → List (List Char) → Checked InstanceEnvError (List (List Char))
  | 0, _ => .stuck
  | rounds + 1, arguments =>
    match named runtime (argumentKey arguments.length) with
    | none => return arguments
    | some argument => do
      refuse (arguments.length = maxArguments) (tooMany "arguments")
      readArguments runtime rounds (arguments ++ [argument])

/-- The tenant's variables, each value filled in. -/
def expandAll (runtime : Entries) : Entries → Checked InstanceEnvError Entries
  | [] => return []
  | (name, value) :: tenant => do
    let value ← expand name value runtime
    let environment ← expandAll runtime tenant
    return (name, value) :: environment

/-- What is read of the entries of a file. -/
def readConfig (floats : FloatText) (runtime tenant : Entries) :
    Checked InstanceEnvError InstanceConfig := do
  let dns ← required runtime (runtimeKey "DNS")
  let nameservers := ((dns.splitOn ',').filter (· ≠ [])).take maxNameservers
  let arguments ← readArguments runtime (maxArguments + 1) []
  let numbered := runtime.countP fun entry => (runtimeKey "ARG_").isPrefixOf entry.1
  refuse (numbered ≠ arguments.length)
    (malformed (argumentKey arguments.length) "the next argument in an unbroken run from 0")
  refuse (maxTenantVariables < tenant.length) (tooMany "environment variables")
  let environment ← expandAll runtime tenant
  let httpPort ← number runtime (runtimeKey "HTTP_PORT")
  let layers ← number runtime (runtimeKey "LAYERS")
  let program ← required runtime (runtimeKey "PROGRAM")
  let workingDirectory ← required runtime (runtimeKey "CWD")
  let hostname := named runtime (runtimeKey "HOSTNAME")
  let maxRestarts ← number runtime (runtimeKey "MAX_RESTARTS")
  let initialBackoffMs ← number runtime (runtimeKey "INITIAL_BACKOFF_MS")
  let maxBackoffMs ← number runtime (runtimeKey "MAX_BACKOFF_MS")
  let factor ← required runtime (runtimeKey "BACKOFF_FACTOR")
  let backoffFactor ←
    okOr (floats.parse factor) (malformed (runtimeKey "BACKOFF_FACTOR") "a number")
  let resetAfterMs ← number runtime (runtimeKey "RESET_AFTER_MS")
  return {
    httpPort := httpPort
    layers := layers
    program := program
    workingDirectory := workingDirectory
    hostname := hostname
    maxRestarts := maxRestarts
    initialBackoffMs := initialBackoffMs
    maxBackoffMs := maxBackoffMs
    backoffFactor := backoffFactor
    resetAfterMs := resetAfterMs
    nameservers := nameservers
    arguments := arguments
    environment := environment }

def parseInstanceEnv (floats : FloatText) (text : List Char) :
    Checked InstanceEnvError InstanceConfig := do
  let (runtime, tenant) ← readLines (lines text)
  readConfig floats runtime tenant

end Nibrunner.InstanceEnv

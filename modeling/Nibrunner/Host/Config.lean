import Nibrunner.ForStd.PathText
import Nibrunner.ForStd.ReadBack
import Nibrunner.Net.Slot
import Nibrunner.Protocol.Cron

/-!
# The configuration of a host

A host is configured by a document of sections, in which nothing has a default: a key that is
missing is refused by name, and only whole sections may be absent. `fromDocument` checks and
converts it, and `toDocument` writes a configuration out as such a document. The addresses, time
zones and URLs in it are read and written by the libraries they are from (`Formats`).

A path is held as its text; two texts are one path where their components are the same
(`components`), so configurations are compared by the components of their paths.
-/

namespace Nibrunner.Config

open PathText TextLines

def maxStoragePrefixBytes : ℕ := 512

def mebibytesPerGibibyte : ℕ := 1024

def bytesPerMebibyte : ℕ := 1024 * 1024

/-- Where ZeroFS serves its own scrape page. -/
def zerofsPrometheusPort : ℕ := 9091

/-- What a slot has left over for an app once its HTTP port is taken. -/
def maxRawPorts : ℕ := portsPerSlot - 1

/-- Addresses, time zones and URLs: what they are read from and written as, and what is asked of
them. -/
structure Formats (Ip Zone Url : Type) where
  parseIp : String → Option Ip
  printIp : Ip → String
  isIpv4 : String → Bool
  isIpv6 : String → Bool
  parseZone : String → Option Zone
  printZone : Zone → String
  parseUrl : String → Option Url
  printUrl : Url → String
  scheme : Url → String
  hasHost : Url → Bool
  username : Url → String
  hasPassword : Url → Bool
  hostStr : Url → Option String
  isHeaderValue : String → Bool

/-! ### Errors and texts -/

inductive ConfigError where
  | malformed (path reason : String)
  | invalid (field rule : String)
deriving DecidableEq

def required {α : Type} (field : String) (value : Option α) : Except ConfigError α :=
  .ofOption (.invalid field "specified, and nothing here is optional") value

/-- A key that must be there, and is checked. -/
def key {α β : Type} (read : String → α → Except ConfigError β) (field : String)
    (value : Option α) : Except ConfigError β :=
  required field value >>= read field

/-- A text without the white space at its ends. -/
def trim (text : String) : String := String.ofList (Cron.trim isWhitespace text.toList)

/-- What stands before the first of a mark, and what after. -/
def splitOnceText (mark : List Char) : List Char → Option (List Char × List Char)
  | [] => if mark = [] then some ([], []) else none
  | c :: text =>
    if mark.isPrefixOf (c :: text) then some ([], (c :: text).drop mark.length)
    else (splitOnceText mark text).map fun (front, back) => (c :: front, back)

def isControl (c : Char) : Bool := c.toNat < 0x20 || (0x7F ≤ c.toNat && c.toNat ≤ 0x9F)

/-- The components of a path: the root, which is `/`, the names and the dots that count. -/
def components (path : String) : List String :=
  let names := (split path).filter fun name => name ≠ "" && name ≠ "."
  if startsWith "/" path then "/" :: names
  else if (split path).head? = some "." then "." :: names
  else names

/-! ### The configuration -/

abbrev NonZeroU16 := { n : ℕ // 0 < n ∧ n < 2 ^ 16 }

section Types

variable (Path Ip Zone Url : Type)

structure ZerofsSettings where
  binary : Path
  configFile : Path
  mountPath : Path
  nbdSocketPath : Path
  ninepSocketPath : Path
  rpcSocketPath : Path
  storageUrl : String
  cacheDir : Path
  cacheDiskMib : ℕ
  cacheMemoryMib : ℕ
  checkpointRuntimeDir : Path
  checkpointConfigFile : Path
  checkpointCacheDir : Path
deriving DecidableEq

inductive VolumeBackend where
  | localFile
  | zerofs (settings : ZerofsSettings Path)
deriving DecidableEq

structure HttpConcurrency where
  hostConcurrent : NonZeroU16
  appConcurrent : NonZeroU16
deriving DecidableEq

structure HttpFallback where
  originHost : Hostname
  redirect : Url
deriving DecidableEq

structure TlsMaterial where
  certificate : Path
  key : Path
  clientCa : Option Path
deriving DecidableEq

structure HttpListener where
  fallback : Option (HttpFallback Url)
  concurrency : Option HttpConcurrency
  listenAddress : Ip
  port : ℕ
  tls : Option (TlsMaterial Path)
deriving DecidableEq

structure RawPorts where
  listenAddress : Ip
  maxPortsPerGuest : ℕ
deriving DecidableEq

structure ProxyConfig where
  http : Option (HttpListener Path Ip Url)
  raw : Option (RawPorts Ip)
deriving DecidableEq

structure MetricsConfig where
  port : ℕ
  listenAddress : Ip
deriving DecidableEq

structure FilesystemConfig where
  socket : Path
deriving DecidableEq

structure LogsConfig where
  keepBytesPerApp : ℕ
deriving DecidableEq

structure CronConfig where
  maxJobsPerApp : ℕ
  timeZone : Zone
deriving DecidableEq

inductive StorageFilesystem where
  | ext4
  | xfs
deriving DecidableEq

structure HostStorage where
  device : Path
  mountPoint : Path
  filesystem : StorageFilesystem
deriving DecidableEq

structure HostConfig where
  maxConcurrentVmStarts : NonZeroU16
  maxApps : ℕ
  cron : CronConfig Zone
  hostStorage : Option (HostStorage Path)
  stateDir : Path
  runtimeDir : Path
  snapshotDir : Path
  guestImageDir : Path
  firecrackerDir : Path
  desiredStateFile : Path
  versionsFile : Path
  artifactStoreUrl : String
  storagePrefix : String
  volumes : VolumeBackend Path
  deniedEgressAddressesV4 : List String
  deniedEgressAddressesV6 : List String
  proxy : ProxyConfig Path Ip Url
  metrics : Option (MetricsConfig Ip)
  filesystem : Option (FilesystemConfig Path)
  logs : LogsConfig
  exportStoreUrl : String
  exportStagingDir : Path
deriving DecidableEq

end Types

/-- A host that keeps what it always kept: the newest 256 MiB of an app's output. -/
def LogsConfig.default : LogsConfig where
  keepBytesPerApp := 256 * bytesPerMebibyte

def ProxyConfig.default {Path Ip Url : Type} : ProxyConfig Path Ip Url where
  http := none
  raw := none

def VolumeBackend.asStr {Path : Type} : VolumeBackend Path → String
  | localFile => "local-file"
  | zerofs _ => "zerofs"

def VolumeBackend.zerofs? {Path : Type} : VolumeBackend Path → Option (ZerofsSettings Path)
  | localFile => none
  | zerofs settings => some settings

/-! ### The document -/

namespace File

structure Cron where
  maxJobsPerApp : Option ℕ
  timeZone : Option String
deriving DecidableEq

structure Storage where
  device : Option String
  mountPoint : Option String
  filesystem : Option StorageFilesystem
deriving DecidableEq

structure Paths where
  stateDir : Option String
  runtimeDir : Option String
  snapshotDir : Option String
  guestImageDir : Option String
  desiredStateFile : Option String
  versionsFile : Option String
deriving DecidableEq

structure Artifacts where
  storeUrl : Option String
deriving DecidableEq

structure Exports where
  storeUrl : Option String
  stagingDir : Option String
deriving DecidableEq

structure Zerofs where
  binary : Option String
  configFile : Option String
  mountPath : Option String
  nbdSocketPath : Option String
  ninepSocketPath : Option String
  rpcSocketPath : Option String
  storageUrl : Option String
  cacheDir : Option String
  cacheDiskGib : Option ℕ
  cacheMemoryGib : Option ℕ
  checkpointRuntimeDir : Option String
  checkpointConfigFile : Option String
  checkpointCacheDir : Option String
deriving DecidableEq

structure Volumes where
  backend : Option String
  storagePrefix : Option String
  zerofs : Option Zerofs
deriving DecidableEq

structure Network where
  deniedEgressAddressesV4 : Option (List String)
  deniedEgressAddressesV6 : Option (List String)
deriving DecidableEq

structure Fallback where
  originHost : String
  redirect : String
deriving DecidableEq

structure ClientCa where
  certificate : Option String
deriving DecidableEq

structure Tls where
  certificate : Option String
  key : Option String
  clientCa : Option ClientCa
deriving DecidableEq

structure Http where
  listenAddress : Option String
  port : Option ℕ
  tls : Option Tls
  concurrency : Option HttpConcurrency
  fallback : Option Fallback
deriving DecidableEq

structure Raw where
  listenAddress : Option String
  maxPortsPerGuest : Option ℕ
deriving DecidableEq

structure Proxy where
  http : Option Http
  raw : Option Raw
deriving DecidableEq

structure Metrics where
  port : Option ℕ
  listenAddress : Option String
deriving DecidableEq

structure Filesystem where
  socket : Option String
deriving DecidableEq

structure Logs where
  keepMibPerApp : Option ℕ
deriving DecidableEq

structure ConfigFile where
  maxApps : Option ℕ
  maxConcurrentVmStarts : Option NonZeroU16
  cron : Option Cron
  hostStorage : Option Storage
  paths : Option Paths
  artifacts : Option Artifacts
  volumes : Option Volumes
  exports : Option Exports
  network : Option Network
  proxy : Option Proxy
  metrics : Option Metrics
  filesystem : Option Filesystem
  logs : Option Logs
deriving DecidableEq

end File

/-! ### Checks of a value -/

def absolute (field value : String) : Except ConfigError String :=
  let trimmed := trim value
  if trimmed = "" then .error (.invalid field "a path")
  else if startsWith "/" trimmed then .ok trimmed
  else .error (.invalid field s!"an absolute path, but {trimmed} is not")

def pathKey : String → Option String → Except ConfigError String := key absolute

/-- A product a machine word could hold. -/
def scaled (field : String) (unit value : ℕ) : Except ConfigError ℕ :=
  if value = 0 then .error (.invalid field "more than nothing")
  else if value * unit < 2 ^ 64 then .ok (value * unit)
  else .error (.invalid field "a size this machine could hold")

def mebibytes (field : String) (gibibytes : ℕ) : Except ConfigError ℕ :=
  scaled field mebibytesPerGibibyte gibibytes

/-- As many apps as a host may be laid out for. -/
structure AppCount where
  count : ℕ
  pos : 0 < count
  fits : count ≤ mostAppsThePortsFit

def apps (field : String) (count : ℕ) : Except ConfigError AppCount :=
  if hzero : count = 0 then .error (.invalid field "at least 1")
  else if hmost : mostAppsThePortsFit < count then
    .error (.invalid field (s!"at most {mostAppsThePortsFit}, which is as many slots of " ++
      s!"{portsPerSlot} ports as fit above {hostPortBase}"))
  else .ok ⟨count, Nat.pos_of_ne_zero hzero, Nat.le_of_not_lt hmost⟩

theorem AppCount.isSome_reserved (apps : AppCount) : (reservedPortRange apps.count).isSome := by
  have hfits := apps.fits
  have hlast : hostPortBase + apps.count * portsPerSlot - 1 < 2 ^ 16 := by
    simp only [mostAppsThePortsFit, hostPortBase, portsPerSlot] at hfits ⊢
    omega
  rw [reservedPortRange, if_pos hlast]
  rfl

/-- The ports of the slots, the first and the last. -/
def AppCount.reserved (apps : AppCount) : ℕ × ℕ :=
  (reservedPortRange apps.count).get apps.isSome_reserved

def listener (maxApps : AppCount) (field : String) (port : ℕ) : Except ConfigError ℕ :=
  let (base, last) := maxApps.reserved
  if port = 0 then .error (.invalid field "a port, and 0 is the kernel picking one")
  else if base ≤ port ∧ port ≤ last then
    .error (.invalid field
      s!"free, because {base}-{last} is what a slot takes for an app's loopback port")
  else .ok port

inductive Family where
  | v4
  | v6

section Formats

variable {Ip Zone Url : Type} (F : Formats Ip Zone Url)

/-- How wide an address of a family is. -/
def widest (field : String) (family : Family) (address : String) : Except ConfigError ℕ :=
  match family with
  | .v4 =>
    if F.isIpv4 address then .ok 32
    else .error (.invalid field s!"an IPv4 range, but {address} is not an IPv4 address")
  | .v6 =>
    if F.isIpv6 address then .ok 128
    else .error (.invalid field s!"an IPv6 range, but {address} is not an IPv6 address")

def cidr (family : Family) (field value : String) : Except ConfigError String :=
  let value := trim value
  match splitOnce '/' value.toList with
  | none => .error (.invalid field s!"a CIDR range, but {value} has no prefix length")
  | some (address, length) => do
    let bits ← Except.ofOption (.invalid field
      s!"a CIDR range, but {String.ofList length} is not a prefix length")
      (parseDecimal? 256 length)
    let widest ← widest F field family (String.ofList address)
    if widest < bits then
      .error (.invalid field
        s!"a range, and /{bits} is wider than the {widest} bits an address has")
    else .ok value

def cidrs (family : Family) (field : String) (values : List String) :
    Except ConfigError (List String) :=
  values.mapM (cidr F family field)

def objectStoreUrl (field value : String) : Except ConfigError String :=
  let value := trim value
  if startsWith "s3://" value then
    let rest := String.ofList (value.toList.drop "s3://".toList.length)
    if (split rest).head? = some "" then
      .error (.invalid field "an s3:// URL with a bucket in it")
    else .ok value
  else
    match splitOnceText "://".toList value.toList with
    | some (scheme, _) =>
      .error (.invalid field
        s!"a store this host can reach, and there is no {String.ofList scheme} backend")
    | none => absolute field value

def storagePrefix (field value : String) : Except ConfigError String :=
  let value := trim value
  if value = "" then
    .error (.invalid field "a prefix, and an empty one names the bucket root")
  else if maxStoragePrefixBytes < value.utf8ByteSize then
    .error (.invalid field
      s!"at most {maxStoragePrefixBytes} bytes, and this is {value.utf8ByteSize}")
  else if value.toList.head? = some '/' ∨ value.toList.getLast? = some '/' then
    .error (.invalid field "a prefix without a leading or trailing /")
  else if (split value).any fun segment => segment = "" || segment = "." || segment = ".." then
    .error (.invalid field "a prefix whose every segment names something")
  else .ok value

/-! ### Sections of the document -/

/-- A time zone is read as it is written, and an address without the white space around it. -/
def timeZone (field value : String) : Except ConfigError Zone :=
  .ofOption (.invalid field "an IANA time zone") (F.parseZone value)

def bindAddress (field value : String) : Except ConfigError Ip :=
  .ofOption (.invalid field "an IP address to bind") (F.parseIp (trim value))

def cron (document : File.Cron) : Except ConfigError (CronConfig Zone) := do
  let maxJobsPerApp ← required "cron.max_jobs_per_app" document.maxJobsPerApp
  let timeZone ← key (timeZone F) "cron.time_zone" document.timeZone
  .ok { maxJobsPerApp, timeZone }

def zerofs (document : File.Zerofs) : Except ConfigError (ZerofsSettings String) := do
  let binary ← pathKey "volumes.zerofs.binary" document.binary
  let configFile ← pathKey "volumes.zerofs.config_file" document.configFile
  let mountPath ← pathKey "volumes.zerofs.mount_path" document.mountPath
  let nbdSocketPath ← pathKey "volumes.zerofs.nbd_socket_path" document.nbdSocketPath
  let ninepSocketPath ← pathKey "volumes.zerofs.ninep_socket_path" document.ninepSocketPath
  let rpcSocketPath ← pathKey "volumes.zerofs.rpc_socket_path" document.rpcSocketPath
  let storageUrl ← key objectStoreUrl "volumes.zerofs.storage_url" document.storageUrl
  let cacheDir ← pathKey "volumes.zerofs.cache_dir" document.cacheDir
  let cacheDiskMib ← key mebibytes "volumes.zerofs.cache_disk_gib" document.cacheDiskGib
  let cacheMemoryMib ← key mebibytes "volumes.zerofs.cache_memory_gib" document.cacheMemoryGib
  let checkpointRuntimeDir ←
    pathKey "volumes.zerofs.checkpoint_runtime_dir" document.checkpointRuntimeDir
  let checkpointConfigFile ←
    pathKey "volumes.zerofs.checkpoint_config_file" document.checkpointConfigFile
  let checkpointCacheDir ←
    pathKey "volumes.zerofs.checkpoint_cache_dir" document.checkpointCacheDir
  .ok { binary, configFile, mountPath, nbdSocketPath, ninepSocketPath, rpcSocketPath, storageUrl,
        cacheDir, cacheDiskMib, cacheMemoryMib, checkpointRuntimeDir, checkpointConfigFile,
        checkpointCacheDir }

def backend (volumes : File.Volumes) : Except ConfigError (VolumeBackend String) := do
  let named ← required "volumes.backend" volumes.backend
  if named = "local-file" then
    if volumes.zerofs.isSome then
      .error (.invalid "volumes.zerofs"
        "read by the local-file backend, which is what volumes.backend says")
    else .ok .localFile
  else if named = "zerofs" then do
    let document ← required "volumes.zerofs" volumes.zerofs
    let settings ← zerofs document
    .ok (.zerofs settings)
  else
    .error (.invalid "volumes.backend"
      s!"a backend this host has, and there is no {named}")

def hostname? (text : String) : Option Hostname :=
  if h : isHostname text = true then some ⟨text, h⟩ else none

/-- A URL that may not be redirected to. -/
def isRefusedRedirect (value : String) (redirect : Url) : Bool :=
  !(F.scheme redirect = "http" || F.scheme redirect = "https") || !F.hasHost redirect ||
    F.username redirect ≠ "" || F.hasPassword redirect || trim value ≠ value ||
    value.toList.any isControl || !F.isHeaderValue (F.printUrl redirect)

/-- Whether a URL leads back to the host that redirects to it. -/
def isLoop (originHost : Hostname) (redirect : Url) : Bool :=
  (F.hostStr redirect).any fun host =>
    (host.toList.rdropWhile (· = '.')).map Char.toLower = originHost.text.toList.map Char.toLower

def httpFallback (document : File.Fallback) : Except ConfigError (HttpFallback Url) := do
  let originHost ← Except.ofOption (.invalid "proxy.http.fallback.origin_host"
    "a lowercase DNS hostname without a scheme, port or wildcard")
    (hostname? document.originHost)
  let field := "proxy.http.fallback.redirect"
  let invalid := ConfigError.invalid field
    "an absolute HTTP or HTTPS URL without credentials or control characters"
  let redirect ← Except.ofOption invalid (F.parseUrl document.redirect)
  if isRefusedRedirect F document.redirect redirect then .error invalid
  else if isLoop F originHost redirect then
    .error (.invalid field "a URL on a different hostname to avoid a redirect loop")
  else .ok { originHost, redirect }

def clientCa (document : File.ClientCa) : Except ConfigError String :=
  pathKey "proxy.http.tls.client_ca.certificate" document.certificate

def tls (document : File.Tls) : Except ConfigError (TlsMaterial String) := do
  let certificate ← pathKey "proxy.http.tls.certificate" document.certificate
  let key ← pathKey "proxy.http.tls.key" document.key
  let clientCa ← Except.optional clientCa document.clientCa
  .ok { certificate, key, clientCa }

def http (maxApps : AppCount) (document : File.Http) :
    Except ConfigError (HttpListener String Ip Url) := do
  let fallback ← Except.optional (httpFallback F) document.fallback
  let listenAddress ← key (bindAddress F) "proxy.http.listen_address" document.listenAddress
  let port ← key (listener maxApps) "proxy.http.port" document.port
  let tls ← Except.optional tls document.tls
  .ok { fallback, concurrency := document.concurrency, listenAddress, port, tls }

/-- As many raw ports as a slot reserves. -/
def rawPorts (field : String) (named : ℕ) : Except ConfigError ℕ :=
  if named = 0 ∨ maxRawPorts < named then
    .error (.invalid field (s!"between 1 and {maxRawPorts}, which is what a slot reserves " ++
      "beside the HTTP port"))
  else .ok named

def raw (document : File.Raw) : Except ConfigError (RawPorts Ip) := do
  let maxPortsPerGuest ← key rawPorts "proxy.raw.max_ports_per_guest" document.maxPortsPerGuest
  let listenAddress ← key (bindAddress F) "proxy.raw.listen_address" document.listenAddress
  .ok { listenAddress, maxPortsPerGuest }

def proxy (maxApps : AppCount) :
    Option File.Proxy → Except ConfigError (ProxyConfig String Ip Url)
  | none => .ok .default
  | some document => do
    let http ← Except.optional (http F maxApps) document.http
    let raw ← Except.optional (raw F) document.raw
    .ok { http, raw }

/-- The ports that are held, each with what holds it. -/
def heldPorts (proxy : ProxyConfig String Ip Url) (volumes : VolumeBackend String) :
    List (Option ℕ × String) :=
  [(proxy.http.map HttpListener.port, "proxy.http.port"),
    (volumes.zerofs?.map fun _ => zerofsPrometheusPort, "the port ZeroFS scrapes on")]

def metrics (proxy : ProxyConfig String Ip Url) (volumes : VolumeBackend String)
    (maxApps : AppCount) (document : File.Metrics) : Except ConfigError (MetricsConfig Ip) := do
  let port ← key (listener maxApps) "metrics.port" document.port
  match (heldPorts proxy volumes).find? fun held => held.1 = some port with
  | some (_, field) =>
    .error (.invalid "metrics.port"
      s!"a different port from {field}, which is also {port}")
  | none => do
    let listenAddress ← key (bindAddress F) "metrics.listen_address" document.listenAddress
    .ok { port, listenAddress }

def filesystem (document : File.Filesystem) : Except ConfigError (FilesystemConfig String) := do
  let socket ← pathKey "filesystem.socket" document.socket
  .ok { socket }

def logs : Option File.Logs → Except ConfigError LogsConfig
  | none => .ok .default
  | some document => do
    let keepBytesPerApp ←
      key (fun field => scaled field bytesPerMebibyte) "logs.keep_mib_per_app"
        document.keepMibPerApp
    .ok { keepBytesPerApp }

def storage (document : File.Storage) : Except ConfigError (HostStorage String) := do
  let device ← pathKey "host_storage.device" document.device
  let mountPoint ← pathKey "host_storage.mount_point" document.mountPoint
  let filesystem ← required "host_storage.filesystem" document.filesystem
  .ok { device, mountPoint, filesystem }

/-! ### Storage that is managed -/

/-- Whether a path is below another, or is it. -/
def below (path above : String) : Bool := (components above).isPrefixOf (components path)

def isNormalized (text : String) : Bool :=
  startsWith "/" text &&
    !((split text).drop 1).any (fun part => part = "" || part = "." || part = "..") &&
    text.toList.all fun c => c.isAlphanum || ['/', '_', '.', ':', '-'].contains c

/-- Whether a path is strictly below another, with nothing that goes up on the way. -/
def isBeneath (path above : String) : Bool :=
  below path above &&
    ((components path).drop (components above).length ≠ [] &&
      !((components path).drop (components above).length).contains "..")

/-- No directory of a list is below another, or is it. -/
def areSeparate : List String → Bool
  | [] => true
  | path :: others =>
    others.all (fun other => !(below path other || below other path)) && areSeparate others

/-- The directories that must be on the storage, by their keys. -/
def storageDirectories (config : HostConfig String Ip Zone Url) : List (String × String) :=
  ("paths.snapshot_dir", config.snapshotDir) ::
    match config.volumes with
    | .localFile => []
    | .zerofs settings =>
      [("volumes.zerofs.cache_dir", settings.cacheDir),
        ("volumes.zerofs.checkpoint_cache_dir", settings.checkpointCacheDir)]

/-- What ZeroFS may not have on the storage, or below a directory that is root's. -/
def validateZerofs (config : HostConfig String Ip Zone Url) (storage : HostStorage String)
    (settings : ZerofsSettings String) : Except ConfigError Unit := do
  Except.refuse (below settings.mountPath storage.mountPoint = true)
    (.invalid "volumes.zerofs.mount_path"
      "outside host_storage.mount_point, which cannot contain nested mounts")
  Except.refuse ([config.stateDir, config.guestImageDir, config.exportStagingDir].any
      (fun directory => below settings.cacheDir directory) = true)
    (.invalid "volumes.zerofs.cache_dir"
      "outside private root-owned host directories so the zerofs account can reach it")

def validateHostStorage (config : HostConfig String Ip Zone Url) : Except ConfigError Unit :=
  match config.hostStorage with
  | none => .ok ()
  | some storage => do
    let _ ← [("host_storage.device", storage.device),
        ("host_storage.mount_point", storage.mountPoint)].mapM fun (field, path) =>
      Except.refuse (isNormalized path = false)
        (.invalid field "a normalized absolute path using letters, digits, /, _, ., : or -")
    Except.refuse (below storage.device "/dev" = false ∨
        components storage.device = components "/dev")
      (.invalid "host_storage.device" "a block device under /dev")
    let _ ← Except.optional (validateZerofs config storage) config.volumes.zerofs?
    let _ ← (storageDirectories config).mapM fun (field, path) =>
      Except.refuse (isBeneath path storage.mountPoint = false)
        (.invalid field
          "a directory beneath host_storage.mount_point without . or .. segments")
    Except.refuse (areSeparate ((storageDirectories config).map Prod.snd) = false)
      (.invalid "host_storage"
        "separate snapshot and cache directories that do not contain each other")

/-! ### Reading the document -/

/-- The directory of the runtime that is for firecracker. -/
def firecrackerDir (runtimeDir : String) : String :=
  if runtimeDir.toList.getLast?.any (· ≠ '/') then runtimeDir ++ "/firecracker"
  else runtimeDir ++ "firecracker"

def fromDocument (document : File.ConfigFile) :
    Except ConfigError (HostConfig String Ip Zone Url) := do
  let maxApps ← key apps "max_apps" document.maxApps
  let cronSection ← required "cron" document.cron
  let cron ← cron F cronSection
  let paths ← required "paths" document.paths
  let stateDir ← pathKey "paths.state_dir" paths.stateDir
  let runtimeDir ← pathKey "paths.runtime_dir" paths.runtimeDir
  let volumesSection ← required "volumes" document.volumes
  let volumes ← backend volumesSection
  let network ← required "network" document.network
  let exports ← required "exports" document.exports
  let artifacts ← required "artifacts" document.artifacts
  let proxy ← proxy F maxApps document.proxy
  let metrics ← Except.optional (metrics F proxy volumes maxApps) document.metrics
  let filesystem ← Except.optional filesystem document.filesystem
  let logs ← logs document.logs
  let maxConcurrentVmStarts ← required "max_concurrent_vm_starts" document.maxConcurrentVmStarts
  let hostStorage ← Except.optional storage document.hostStorage
  let snapshotDir ← pathKey "paths.snapshot_dir" paths.snapshotDir
  let guestImageDir ← pathKey "paths.guest_image_dir" paths.guestImageDir
  let desiredStateFile ← pathKey "paths.desired_state_file" paths.desiredStateFile
  let versionsFile ← pathKey "paths.versions_file" paths.versionsFile
  let artifactStoreUrl ← key objectStoreUrl "artifacts.store_url" artifacts.storeUrl
  let storagePrefix ← key storagePrefix "volumes.storage_prefix" volumesSection.storagePrefix
  let deniedEgressAddressesV4 ←
    key (cidrs F .v4) "network.denied_egress_addresses_v4" network.deniedEgressAddressesV4
  let deniedEgressAddressesV6 ←
    key (cidrs F .v6) "network.denied_egress_addresses_v6" network.deniedEgressAddressesV6
  let exportStoreUrl ← key objectStoreUrl "exports.store_url" exports.storeUrl
  let exportStagingDir ← pathKey "exports.staging_dir" exports.stagingDir
  let config : HostConfig String Ip Zone Url :=
    { maxConcurrentVmStarts, maxApps := maxApps.count, cron, hostStorage, stateDir, runtimeDir,
      snapshotDir, guestImageDir, firecrackerDir := firecrackerDir runtimeDir, desiredStateFile,
      versionsFile, artifactStoreUrl, storagePrefix, volumes, deniedEgressAddressesV4,
      deniedEgressAddressesV6, proxy, metrics, filesystem, logs, exportStoreUrl,
      exportStagingDir }
  validateHostStorage config
  .ok config

/-! ### Writing it out -/

def ZerofsSettings.toDocument (settings : ZerofsSettings String) : File.Zerofs where
  binary := some settings.binary
  configFile := some settings.configFile
  mountPath := some settings.mountPath
  nbdSocketPath := some settings.nbdSocketPath
  ninepSocketPath := some settings.ninepSocketPath
  rpcSocketPath := some settings.rpcSocketPath
  storageUrl := some settings.storageUrl
  cacheDir := some settings.cacheDir
  cacheDiskGib := some (settings.cacheDiskMib / mebibytesPerGibibyte)
  cacheMemoryGib := some (settings.cacheMemoryMib / mebibytesPerGibibyte)
  checkpointRuntimeDir := some settings.checkpointRuntimeDir
  checkpointConfigFile := some settings.checkpointConfigFile
  checkpointCacheDir := some settings.checkpointCacheDir

def HttpFallback.toDocument (fallback : HttpFallback Url) : File.Fallback where
  originHost := fallback.originHost.text
  redirect := F.printUrl fallback.redirect

def TlsMaterial.toDocument (tls : TlsMaterial String) : File.Tls where
  certificate := some tls.certificate
  key := some tls.key
  clientCa := tls.clientCa.map fun certificate => { certificate := some certificate }

def HttpListener.toDocument (http : HttpListener String Ip Url) : File.Http where
  listenAddress := some (F.printIp http.listenAddress)
  port := some http.port
  tls := http.tls.map TlsMaterial.toDocument
  concurrency := http.concurrency
  fallback := http.fallback.map (HttpFallback.toDocument F)

def RawPorts.toDocument (raw : RawPorts Ip) : File.Raw where
  listenAddress := some (F.printIp raw.listenAddress)
  maxPortsPerGuest := some raw.maxPortsPerGuest

def ProxyConfig.toDocument (proxy : ProxyConfig String Ip Url) : File.Proxy where
  http := proxy.http.map (HttpListener.toDocument F)
  raw := proxy.raw.map (RawPorts.toDocument F)

def MetricsConfig.toDocument (metrics : MetricsConfig Ip) : File.Metrics where
  port := some metrics.port
  listenAddress := some (F.printIp metrics.listenAddress)

def FilesystemConfig.toDocument (filesystem : FilesystemConfig String) : File.Filesystem where
  socket := some filesystem.socket

def LogsConfig.toDocument (logs : LogsConfig) : File.Logs where
  keepMibPerApp := some (logs.keepBytesPerApp / bytesPerMebibyte)

def CronConfig.toDocument (cron : CronConfig Zone) : File.Cron where
  maxJobsPerApp := some cron.maxJobsPerApp
  timeZone := some (F.printZone cron.timeZone)

def HostStorage.toDocument (storage : HostStorage String) : File.Storage where
  device := some storage.device
  mountPoint := some storage.mountPoint
  filesystem := some storage.filesystem

def VolumeBackend.toDocument (volumes : VolumeBackend String) (storagePrefix : String) :
    File.Volumes where
  backend := some volumes.asStr
  storagePrefix := some storagePrefix
  zerofs := volumes.zerofs?.map ZerofsSettings.toDocument

/-- A proxy that serves nothing is left out. -/
def HostConfig.toDocument (config : HostConfig String Ip Zone Url) : File.ConfigFile where
  maxApps := some config.maxApps
  maxConcurrentVmStarts := some config.maxConcurrentVmStarts
  cron := some (config.cron.toDocument F)
  hostStorage := config.hostStorage.map HostStorage.toDocument
  paths := some
    { stateDir := some config.stateDir
      runtimeDir := some config.runtimeDir
      snapshotDir := some config.snapshotDir
      guestImageDir := some config.guestImageDir
      desiredStateFile := some config.desiredStateFile
      versionsFile := some config.versionsFile }
  artifacts := some { storeUrl := some config.artifactStoreUrl }
  volumes := some (config.volumes.toDocument config.storagePrefix)
  exports := some
    { storeUrl := some config.exportStoreUrl
      stagingDir := some config.exportStagingDir }
  network := some
    { deniedEgressAddressesV4 := some config.deniedEgressAddressesV4
      deniedEgressAddressesV6 := some config.deniedEgressAddressesV6 }
  proxy :=
    if config.proxy.http.isNone ∧ config.proxy.raw.isNone then none
    else some (config.proxy.toDocument F)
  metrics := config.metrics.map (MetricsConfig.toDocument F)
  filesystem := config.filesystem.map FilesystemConfig.toDocument
  logs := some config.logs.toDocument

end Formats

end Nibrunner.Config

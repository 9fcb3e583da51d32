import Nibrunner.Host.ConfigRoundTrip
import Nibrunner.Net.Allocator

/-!
# Reloading the configuration

A host that runs answers requests for another configuration: it takes on more apps where nothing
else is different and its volumes are files of its own, and for anything else it says that it has to
be started again. What a request asks for is the text of a configuration, which is compared with the
one that runs after it was read; so nothing depends on how a configuration is written.

* `Current.apply`: the answer to a request, and what runs then;
* `Current.answers_of_apply`: what a request for a configuration that was read is answered;
* `reload_keeps_configuration`: the same over every run of such requests.
-/

namespace Nibrunner.Config

open Except (bind_eq_ok_iff)

/-! ### The same configuration -/

section MapPaths

variable {P Q Ip Zone Url : Type} (f : P → Q)

def ZerofsSettings.mapPaths (settings : ZerofsSettings P) : ZerofsSettings Q where
  binary := f settings.binary
  configFile := f settings.configFile
  mountPath := f settings.mountPath
  nbdSocketPath := f settings.nbdSocketPath
  ninepSocketPath := f settings.ninepSocketPath
  rpcSocketPath := f settings.rpcSocketPath
  storageUrl := settings.storageUrl
  cacheDir := f settings.cacheDir
  cacheDiskMib := settings.cacheDiskMib
  cacheMemoryMib := settings.cacheMemoryMib
  checkpointRuntimeDir := f settings.checkpointRuntimeDir
  checkpointConfigFile := f settings.checkpointConfigFile
  checkpointCacheDir := f settings.checkpointCacheDir

def VolumeBackend.mapPaths : VolumeBackend P → VolumeBackend Q
  | localFile => .localFile
  | zerofs settings => .zerofs (settings.mapPaths f)

def TlsMaterial.mapPaths (tls : TlsMaterial P) : TlsMaterial Q where
  certificate := f tls.certificate
  key := f tls.key
  clientCa := tls.clientCa.map f

def HttpListener.mapPaths (http : HttpListener P Ip Url) : HttpListener Q Ip Url where
  fallback := http.fallback
  concurrency := http.concurrency
  listenAddress := http.listenAddress
  port := http.port
  tls := http.tls.map (TlsMaterial.mapPaths f)

def ProxyConfig.mapPaths (proxy : ProxyConfig P Ip Url) : ProxyConfig Q Ip Url where
  http := proxy.http.map (HttpListener.mapPaths f)
  raw := proxy.raw

def FilesystemConfig.mapPaths (filesystem : FilesystemConfig P) : FilesystemConfig Q where
  socket := f filesystem.socket

def HostStorage.mapPaths (storage : HostStorage P) : HostStorage Q where
  device := f storage.device
  mountPoint := f storage.mountPoint
  filesystem := storage.filesystem

def HostConfig.mapPaths (config : HostConfig P Ip Zone Url) : HostConfig Q Ip Zone Url where
  maxConcurrentVmStarts := config.maxConcurrentVmStarts
  maxApps := config.maxApps
  cron := config.cron
  hostStorage := config.hostStorage.map (HostStorage.mapPaths f)
  stateDir := f config.stateDir
  runtimeDir := f config.runtimeDir
  snapshotDir := f config.snapshotDir
  guestImageDir := f config.guestImageDir
  firecrackerDir := f config.firecrackerDir
  desiredStateFile := f config.desiredStateFile
  versionsFile := f config.versionsFile
  artifactStoreUrl := config.artifactStoreUrl
  storagePrefix := config.storagePrefix
  volumes := config.volumes.mapPaths f
  deniedEgressAddressesV4 := config.deniedEgressAddressesV4
  deniedEgressAddressesV6 := config.deniedEgressAddressesV6
  proxy := config.proxy.mapPaths f
  metrics := config.metrics
  filesystem := config.filesystem.map (FilesystemConfig.mapPaths f)
  logs := config.logs
  exportStoreUrl := config.exportStoreUrl
  exportStagingDir := f config.exportStagingDir

end MapPaths

variable {Ip Zone Url : Type}

/-- Configurations are compared field by field, and a path by its components. -/
def HostConfig.Same (a b : HostConfig String Ip Zone Url) : Prop :=
  a.mapPaths components = b.mapPaths components

instance [DecidableEq Ip] [DecidableEq Zone] [DecidableEq Url]
    (a b : HostConfig String Ip Zone Url) : Decidable (a.Same b) :=
  inferInstanceAs (Decidable (_ = _))

namespace HostConfig

variable {a b c : HostConfig String Ip Zone Url} {n : ℕ}

theorem Same.symm (h : a.Same b) : b.Same a := Eq.symm h

/-- A configuration for another number of apps. -/
def withMaxApps {P : Type} (config : HostConfig P Ip Zone Url) (n : ℕ) :
    HostConfig P Ip Zone Url :=
  { config with maxApps := n }

@[simp] theorem withMaxApps_maxApps (a : HostConfig String Ip Zone Url) :
    a.withMaxApps a.maxApps = a := rfl

theorem Same.maxApps_eq (h : a.Same b) : a.maxApps = b.maxApps :=
  congrArg (fun config : HostConfig (List String) Ip Zone Url => config.maxApps) h

theorem Same.withMaxApps (h : a.Same b) (n : ℕ) : (a.withMaxApps n).Same (b.withMaxApps n) :=
  congrArg (fun config : HostConfig (List String) Ip Zone Url => config.withMaxApps n) h

/-- For the apps the other is for, two configurations are the same where they are for as many. -/
theorem same_iff_of_withMaxApps (h : (a.withMaxApps b.maxApps).Same b) :
    b.Same a ↔ b.maxApps = a.maxApps := by
  refine ⟨Same.maxApps_eq, fun heq => ?_⟩
  rw [heq, withMaxApps_maxApps] at h
  exact h.symm

/-- The backend of the same configuration is the same. -/
theorem Same.localFile_iff (h : (a.withMaxApps n).Same b) :
    a.volumes = .localFile ↔ b.volumes = .localFile := by
  have hvolumes : a.volumes.mapPaths components = b.volumes.mapPaths components :=
    congrArg (fun config : HostConfig (List String) Ip Zone Url => config.volumes) h
  cases ha : a.volumes with
  | localFile =>
    cases hb : b.volumes with
    | localFile => simp
    | zerofs settings =>
      rw [ha, hb] at hvolumes
      cases hvolumes
  | zerofs settings =>
    cases hb : b.volumes with
    | localFile =>
      rw [ha, hb] at hvolumes
      cases hvolumes
    | zerofs settings' => simp

/-- Only more apps are asked for. -/
def OnlyGrows (a b : HostConfig String Ip Zone Url) : Prop :=
  (a.withMaxApps b.maxApps).Same b ∧ a.maxApps < b.maxApps

end HostConfig

/-! ### Requests -/

structure FileStamp where
  device : ℕ
  inode : ℕ
  length : ℕ
  changed : ℤ
  changedNanos : ℤ
deriving DecidableEq

/-- What is found where a file is looked for. -/
abbrev Disk := String → Except String (Option FileStamp)

abbrev Inputs := List (String × Option FileStamp)

def Inputs.unchanged (inputs : Inputs) (stamp : Disk) : Bool :=
  inputs.all fun (path, before) =>
    match stamp path with
    | .ok now => now = before
    | .error _ => false

structure Program where
  device : ℕ
  inode : ℕ
deriving DecidableEq

structure Request where
  program : Program
  configuration : String

inductive Reply where
  | unchanged
  | grown
  | restartRequired
  | rejected
deriving DecidableEq

/-- How a document is written as a text and read from one; some documents cannot be written. -/
structure Toml where
  print : File.ConfigFile → Option String
  parse : String → Except String File.ConfigFile

/-- What is written is read as what it was. -/
def Toml.Exact (toml : Toml) : Prop :=
  ∀ document text, toml.print document = some text → toml.parse text = .ok document

def HostConfig.toToml (F : Formats Ip Zone Url) (toml : Toml)
    (config : HostConfig String Ip Zone Url) : Option String :=
  toml.print (config.toDocument F)

/-- A message on one line. -/
def oneLine (message : String) : String :=
  String.ofList ((trim message).toList.flatMap fun c => if c = '\n' then [';', ' '] else [c])

def fromToml (F : Formats Ip Zone Url) (toml : Toml) (text : String) :
    Except ConfigError (HostConfig String Ip Zone Url) := do
  let document ← (toml.parse text).mapError fun message =>
    .malformed "the configuration" (oneLine message)
  fromDocument F document

structure Current (Ip Zone Url : Type) where
  configuration : HostConfig String Ip Zone Url
  program : Program
  allocator : SlotAllocator
  inputs : Inputs

namespace Current

variable {F : Formats Ip Zone Url} {toml : Toml} {current : Current Ip Zone Url} {disk : Disk}
  {request : Request} {next : HostConfig String Ip Zone Url}

/-- A request for a configuration that was read from some document, of the program that runs, while
what it reads beside the configuration is as it was. -/
structure Asks (F : Formats Ip Zone Url) (toml : Toml) (current : Current Ip Zone Url) (disk : Disk)
    (request : Request) (next : HostConfig String Ip Zone Url) : Prop where
  program : request.program = current.program
  inputs : current.inputs.unchanged disk = true
  readable : ∃ document, fromDocument F document = .ok next
  written : next.toToml F toml = some request.configuration

/-- What a request is answered, and what runs then. -/
structure Answers (current : Current Ip Zone Url) (next : HostConfig String Ip Zone Url)
    (answer : Reply × Current Ip Zone Url) : Prop where
  accepted : answer.1 ≠ .rejected
  unchanged : answer.1 = .unchanged ↔ next.Same current.configuration
  grown : answer.1 = .grown ↔
    current.configuration.OnlyGrows next ∧ current.configuration.volumes = .localFile
  grows : answer.1 = .grown → answer.2 = { current with
    configuration := next
    allocator := current.allocator.grow next.maxApps }
  kept : answer.1 ≠ .grown → answer.2 = current

/-- What a configuration is written as is read as that configuration. -/
theorem fromToml_of_asks (hF : F.Exact) (htoml : toml.Exact)
    (h : Asks F toml current disk request next) :
    fromToml F toml request.configuration = .ok next := by
  obtain ⟨document, hread⟩ := h.readable
  have hparse := htoml _ _ h.written
  rw [fromToml, hparse]
  exact readsBack_fromDocument hF _ _ hread

variable [DecidableEq Ip] [DecidableEq Zone] [DecidableEq Url]

def apply (F : Formats Ip Zone Url) (toml : Toml) (current : Current Ip Zone Url) (disk : Disk)
    (request : Request) : Reply × Current Ip Zone Url :=
  if request.program ≠ current.program ∨ current.inputs.unchanged disk = false then
    (.restartRequired, current)
  else
    match fromToml F toml request.configuration with
    | .error _ => (.rejected, current)
    | .ok next =>
      let supported := current.configuration.withMaxApps next.maxApps
      if ¬supported.Same next ∨ next.maxApps < current.configuration.maxApps then
        (.restartRequired, current)
      else if next.Same current.configuration then (.unchanged, current)
      -- the export reader holds the device past the last slot
      else if next.volumes.zerofs?.isSome then (.restartRequired, current)
      else
        (.grown, { current with
          configuration := next
          allocator := current.allocator.grow next.maxApps })

/-- What runs after requests. -/
def serve (F : Formats Ip Zone Url) (toml : Toml) (current : Current Ip Zone Url)
    (requests : List (Disk × Request)) : Current Ip Zone Url :=
  requests.foldl (fun current asked => (current.apply F toml asked.1 asked.2).2) current

theorem answers_of_apply (hF : F.Exact) (htoml : toml.Exact)
    (h : Asks F toml current disk request next) :
    Answers current next (current.apply F toml disk request) := by
  rw [apply, if_neg (by simp [h.program, h.inputs]), fromToml_of_asks hF htoml h]
  dsimp only
  by_cases hsupported : (current.configuration.withMaxApps next.maxApps).Same next
  · have hsame := HostConfig.same_iff_of_withMaxApps hsupported
    have hbackend := hsupported.localFile_iff
    by_cases hless : next.maxApps < current.configuration.maxApps
    · -- fewer apps
      rw [if_pos (.inr hless)]
      refine ⟨by simp, ?_, ?_, by simp, fun _ => rfl⟩
      · simp only [reduceCtorEq, false_iff, hsame]
        omega
      · simp only [reduceCtorEq, false_iff, HostConfig.OnlyGrows]
        omega
    · rw [if_neg (by simp [hsupported, hless])]
      by_cases hequal : next.Same current.configuration
      · rw [if_pos hequal]
        have heq := hsame.mp hequal
        refine ⟨by simp, by simp [hequal], ?_, by simp, fun _ => rfl⟩
        simp only [reduceCtorEq, false_iff, HostConfig.OnlyGrows]
        omega
      · rw [if_neg hequal]
        have hgrows : current.configuration.OnlyGrows next := by
          have hne := mt hsame.mpr hequal
          exact ⟨hsupported, by omega⟩
        cases hvolumes : next.volumes with
        | localFile =>
          refine ⟨by simp [VolumeBackend.zerofs?], by simp [VolumeBackend.zerofs?, hequal], ?_,
            fun _ => rfl, by simp [VolumeBackend.zerofs?]⟩
          simp [VolumeBackend.zerofs?, hgrows, hbackend.mpr hvolumes]
        | zerofs settings =>
          have hzerofs : current.configuration.volumes ≠ .localFile := by
            intro hlocal
            rw [hbackend.mp hlocal] at hvolumes
            cases hvolumes
          refine ⟨by simp [VolumeBackend.zerofs?], by simp [VolumeBackend.zerofs?, hequal], ?_,
            by simp [VolumeBackend.zerofs?], fun _ => rfl⟩
          simp [VolumeBackend.zerofs?, hzerofs]
  · -- something else is different
    rw [if_pos (.inl hsupported)]
    refine ⟨by simp, ?_, ?_, by simp, fun _ => rfl⟩
    · simp only [reduceCtorEq, false_iff]
      exact fun hequal => hsupported (hequal.withMaxApps next.maxApps).symm
    · simp only [reduceCtorEq, false_iff]
      exact fun hgrown => hsupported hgrown.1.1

/-! ### Runs -/

/-- Neither the program nor what else is read is ever replaced. -/
theorem apply_frame (F : Formats Ip Zone Url) (toml : Toml) (current : Current Ip Zone Url)
    (disk : Disk) (request : Request) :
    (current.apply F toml disk request).2.program = current.program ∧
      (current.apply F toml disk request).2.inputs = current.inputs := by
  rw [apply]
  split
  · exact ⟨rfl, rfl⟩
  · split
    · exact ⟨rfl, rfl⟩
    · dsimp only
      split
      · exact ⟨rfl, rfl⟩
      · split
        · exact ⟨rfl, rfl⟩
        · split <;> exact ⟨rfl, rfl⟩

theorem serve_frame (F : Formats Ip Zone Url) (toml : Toml) (current : Current Ip Zone Url)
    (requests : List (Disk × Request)) :
    (current.serve F toml requests).program = current.program ∧
      (current.serve F toml requests).inputs = current.inputs := by
  induction requests generalizing current with
  | nil => exact ⟨rfl, rfl⟩
  | cons asked requests ih =>
    obtain ⟨hprogram, hinputs⟩ := apply_frame F toml current asked.1 asked.2
    obtain ⟨hprogram', hinputs'⟩ := ih (current.apply F toml asked.1 asked.2).2
    exact ⟨hprogram'.trans hprogram, hinputs'.trans hinputs⟩

/-- A request stands as long as the host runs. -/
theorem Asks.serve (h : Asks F toml current disk request next)
    (requests : List (Disk × Request)) :
    Asks F toml (current.serve F toml requests) disk request next := by
  obtain ⟨hprogram, hinputs⟩ := serve_frame F toml current requests
  exact ⟨by rw [hprogram, h.program], by rw [hinputs, h.inputs], h.readable, h.written⟩

end Current

/-- **A configuration survives its own rendering, and a reload neither hides a change nor takes on
half of it**: over every run of requests for configurations that were read, a request is answered as
unchanged exactly where it asks for what runs, as grown exactly where it asks for more apps only and
the volumes are files of the host's own, and nothing is different then but for these. -/
theorem reload_keeps_configuration [DecidableEq Ip] [DecidableEq Zone] [DecidableEq Url]
    {F : Formats Ip Zone Url} {toml : Toml} (hF : F.Exact) (htoml : toml.Exact) :
    (∀ document config, fromDocument F document = .ok config →
      fromDocument F (config.toDocument F) = .ok config) ∧
    ∀ (current : Current Ip Zone Url) (requests : List (Disk × Request)),
      (∀ asked ∈ requests, ∃ next, current.Asks F toml asked.1 asked.2 next) →
      ∀ before disk request after, requests = before ++ (disk, request) :: after →
        ∀ next, current.Asks F toml disk request next →
          (current.serve F toml before).Answers next
            ((current.serve F toml before).apply F toml disk request) := by
  refine ⟨readsBack_fromDocument hF, ?_⟩
  intro current requests _ before disk request after _ next h
  exact Current.answers_of_apply hF htoml (h.serve before)

/-! ### A host laid out from nothing -/

/-- Two addresses, one zone and one URL. -/
def sampleFormats : Formats Bool Unit Unit where
  parseIp text := if text = "0.0.0.0" then some false
    else if text = "127.0.0.1" then some true else none
  printIp loopback := if loopback then "127.0.0.1" else "0.0.0.0"
  isIpv4 text := text = "0.0.0.0" || text = "127.0.0.1"
  isIpv6 _ := false
  parseZone text := if text = "UTC" then some () else none
  printZone _ := "UTC"
  parseUrl text := if text = "https://www.example.com/" then some () else none
  printUrl _ := "https://www.example.com/"
  scheme _ := "https"
  hasHost _ := true
  username _ := ""
  hasPassword _ := false
  hostStr _ := some "www.example.com"
  isHeaderValue text := text.toList.all fun c => !isControl c && c.toNat < 128

theorem exact_sampleFormats : sampleFormats.Exact where
  ip a := by cases a <;> decide
  ip_plain a c hc := by
    have hall : ∀ loopback, (sampleFormats.printIp loopback).toList.all (fun c =>
        !TextLines.isWhitespace c) = true := by decide +kernel
    have hplain := List.all_eq_true.mp (hall a) c hc
    rwa [Bool.not_eq_true'] at hplain
  zone a := by simp [sampleFormats]
  url a := by simp [sampleFormats]
  url_plain _ _ _ c hc := by
    have hall : "https://www.example.com/".toList.all (fun c =>
        !TextLines.isWhitespace c && !isControl c) = true := by decide +kernel
    have hplain := List.all_eq_true.mp hall c hc
    rwa [Bool.and_eq_true, Bool.not_eq_true', Bool.not_eq_true'] at hplain

/-- A host laid out where a distribution would put it. -/
def starter (maxApps : ℕ) : HostConfig String Bool Unit Unit where
  maxConcurrentVmStarts := ⟨2, by decide⟩
  maxApps := maxApps
  cron := { maxJobsPerApp := 10, timeZone := () }
  hostStorage := none
  stateDir := "/var/lib/nibrunner"
  runtimeDir := "/run/nibrunner"
  snapshotDir := "/var/lib/nibrunner/snapshots"
  guestImageDir := "/var/lib/nibrunner/guest"
  firecrackerDir := "/run/nibrunner/firecracker"
  desiredStateFile := "/var/lib/nibrunner/desired.json"
  versionsFile := "/var/lib/nibrunner/versions.json"
  artifactStoreUrl := "/var/lib/nibrunner/artifact-store"
  storagePrefix := "volumes"
  volumes := .localFile
  deniedEgressAddressesV4 := []
  deniedEgressAddressesV6 := []
  proxy :=
    { http := some
        { fallback := none, concurrency := none, listenAddress := false, port := 80, tls := none }
      raw := none }
  metrics := some { port := 9100, listenAddress := true }
  filesystem := none
  logs := .default
  exportStoreUrl := "/var/lib/nibrunner/export-store"
  exportStagingDir := "/var/lib/nibrunner/exports"

def starterText (maxApps : String) : String :=
  "max_apps = " ++ maxApps ++ "\nmax_concurrent_vm_starts = 2\n\n" ++
  "[cron]\nmax_jobs_per_app = 10\ntime_zone = \"UTC\"\n\n" ++
  "[paths]\nstate_dir = \"/var/lib/nibrunner\"\nruntime_dir = \"/run/nibrunner\"\n" ++
  "snapshot_dir = \"/var/lib/nibrunner/snapshots\"\n" ++
  "guest_image_dir = \"/var/lib/nibrunner/guest\"\n" ++
  "desired_state_file = \"/var/lib/nibrunner/desired.json\"\n" ++
  "versions_file = \"/var/lib/nibrunner/versions.json\"\n\n" ++
  "[artifacts]\nstore_url = \"/var/lib/nibrunner/artifact-store\"\n\n" ++
  "[volumes]\nbackend = \"local-file\"\nstorage_prefix = \"volumes\"\n\n" ++
  "[exports]\nstore_url = \"/var/lib/nibrunner/export-store\"\n" ++
  "staging_dir = \"/var/lib/nibrunner/exports\"\n\n" ++
  "[network]\ndenied_egress_addresses_v4 = []\ndenied_egress_addresses_v6 = []\n\n" ++
  "[proxy.http]\nlisten_address = \"0.0.0.0\"\nport = 80\n\n" ++
  "[metrics]\nport = 9100\nlisten_address = \"127.0.0.1\"\n\n" ++
  "[logs]\nkeep_mib_per_app = 256\n"

/-- The documents of two such hosts. -/
def sampleToml : Toml where
  print document :=
    if document = (starter 2).toDocument sampleFormats then some (starterText "2")
    else if document = (starter 3).toDocument sampleFormats then some (starterText "3")
    else none
  parse text :=
    if text = starterText "2" then .ok ((starter 2).toDocument sampleFormats)
    else if text = starterText "3" then .ok ((starter 3).toDocument sampleFormats)
    else .error "expected a configuration"

theorem exact_sampleToml : sampleToml.Exact := by
  have hne : starterText "3" ≠ starterText "2" := by decide +kernel
  intro document text h
  simp only [sampleToml] at h ⊢
  split at h
  · rename_i heq
    cases h
    rw [if_pos rfl, heq]
  · split at h
    · rename_i heq
      cases h
      rw [if_neg hne, if_pos rfl, heq]
    · cases h

def starterCurrent : Current Bool Unit Unit where
  configuration := starter 2
  program := ⟨1, 2⟩
  allocator := .addressing 2
  inputs := []

theorem reload_starter :
    fromDocument sampleFormats ((starter 3).toDocument sampleFormats) = .ok (starter 3) ∧
    (starterCurrent.apply sampleFormats sampleToml (fun _ => .ok none)
      ⟨⟨1, 2⟩, starterText "3"⟩).1 = .grown := by
  have hread :
      fromDocument sampleFormats ((starter 3).toDocument sampleFormats) = .ok (starter 3) := rfl
  have hkeeps := reload_keeps_configuration exact_sampleFormats exact_sampleToml
  have hasks : starterCurrent.Asks sampleFormats sampleToml (fun _ => .ok none)
      ⟨⟨1, 2⟩, starterText "3"⟩ (starter 3) :=
    ⟨rfl, rfl, ⟨_, hread⟩, by decide +kernel⟩
  have hanswers := hkeeps.2 starterCurrent [(_, _)] (fun asked hasked => by
    obtain rfl := List.mem_singleton.mp hasked
    exact ⟨_, hasks⟩) [] _ _ [] rfl _ hasks
  exact ⟨hkeeps.1 _ _ hread, hanswers.grown.mpr ⟨⟨rfl, by decide⟩, rfl⟩⟩

end Nibrunner.Config

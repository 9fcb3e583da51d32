import Nibrunner.Host.Reload

/-!
# The layout of the host storage

`validateHostStorage` keeps the directories on the host storage apart from each other, and the mount
of ZeroFS and the directories that are root's apart from them. Its tests go by the components of
paths, and `..` is a component like any other to them. The device, the mount point and the
directories beneath it may have none; the mount of ZeroFS and the directories of root may.

`IsSeparated` is the layout with every path resolved, and `GoesUpElsewhere` says of the paths that
go up that they come to no place the layout forbids. `storage_separated_iff`: of the layouts
accepted, exactly these are separated.
-/

namespace Nibrunner.Config

open PathText Except

variable {Ip Zone Url : Type}

/-- The directories that are root's alone. -/
def HostConfig.privateDirectories (config : HostConfig String Ip Zone Url) : List String :=
  [config.stateDir, config.guestImageDir, config.exportStagingDir]

/-- The directories that are to be on the storage. -/
def HostConfig.storedDirectories (config : HostConfig String Ip Zone Url) : List String :=
  config.snapshotDir :: config.volumes.zerofs?.elim [] fun settings =>
    [settings.cacheDir, settings.checkpointCacheDir]

/-- One path is at or beneath another, resolved. -/
def Within (path above : String) : Prop := resolve above <+: resolve path

instance (path above : String) : Decidable (Within path above) :=
  inferInstanceAs (Decidable (_ <+: _))

/-- What is stored is strictly beneath the mount point and apart, ZeroFS is mounted off it, its
cache is in no directory of root's, and the device is a device. -/
structure IsSeparated (config : HostConfig String Ip Zone Url) (storage : HostStorage String) :
    Prop where
  beneath : ∀ dir ∈ config.storedDirectories,
    Within dir storage.mountPoint ∧ resolve dir ≠ resolve storage.mountPoint
  apart : config.storedDirectories.Pairwise fun a b => ¬Within a b ∧ ¬Within b a
  mountPath : ∀ settings, config.volumes.zerofs? = some settings →
    ¬Within settings.mountPath storage.mountPoint
  cacheDir : ∀ settings, config.volumes.zerofs? = some settings →
    ∀ dir ∈ config.privateDirectories, ¬Within settings.cacheDir dir
  device : Within storage.device "/dev" ∧ resolve storage.device ≠ resolve "/dev"

/-- Where a path goes up: ZeroFS's mount does not come to the mount point or beneath it, and no
directory of root's to ZeroFS's cache or above it. -/
def GoesUpElsewhere (config : HostConfig String Ip Zone Url) (storage : HostStorage String) :
    Prop :=
  ∀ settings, config.volumes.zerofs? = some settings →
    (".." ∈ split settings.mountPath → ¬Within settings.mountPath storage.mountPoint) ∧
      ∀ dir ∈ config.privateDirectories, ".." ∈ split dir → ¬Within settings.cacheDir dir

/-! ### Components and names -/

theorem components_of_absolute {path : String} (h : startsWith "/" path = true) :
    components path = "/" :: (split path).filter fun name => name ≠ "" && name ≠ "." := by
  rw [components, if_pos h]

/-- Of paths from the root that never go up, the tests by components are those by names. -/
theorem below_iff {path above : String} (hpath : startsWith "/" path = true)
    (habove : startsWith "/" above = true) (hplain : ".." ∉ split path)
    (hplain' : ".." ∉ split above) : below path above = true ↔ Within path above := by
  rw [below, Within, components_of_absolute hpath, components_of_absolute habove,
    resolve_of_not_mem hplain, resolve_of_not_mem hplain', List.isPrefixOf_iff_prefix,
    List.cons_prefix_cons]
  exact and_iff_right rfl

/-- A path from the root, none of whose components goes up. -/
structure IsPlain (path : String) : Prop where
  absolute : startsWith "/" path = true
  plain : ".." ∉ split path

theorem IsPlain.below_iff {path above : String} (hpath : IsPlain path) (habove : IsPlain above) :
    below path above = true ↔ Within path above :=
  Config.below_iff hpath.absolute habove.absolute hpath.plain habove.plain

theorem mem_components_iff {path : String} (h : startsWith "/" path = true) :
    ".." ∈ components path ↔ ".." ∈ split path := by
  rw [components_of_absolute h, List.mem_cons, List.mem_filter]
  simp

theorem isPlain_of_isNormalized {text : String} (h : isNormalized text = true) :
    IsPlain text := by
  rw [isNormalized, Bool.and_eq_true, Bool.and_eq_true, Bool.not_eq_true'] at h
  obtain ⟨⟨habsolute, hparts⟩, -⟩ := h
  refine ⟨habsolute, fun hmem => ?_⟩
  obtain ⟨parts, hsplit⟩ := split_of_startsWith habsolute
  rw [hsplit, List.drop_one, List.tail_cons, List.any_eq_false] at hparts
  rw [hsplit, List.mem_cons] at hmem
  rcases hmem with hmem | hmem
  · exact absurd hmem (by decide)
  · exact hparts _ hmem (by decide)

/-- A directory the check lets through never goes up, and is strictly beneath. -/
theorem isPlain_of_isBeneath {path above : String} (hpath : startsWith "/" path = true)
    (habove : IsPlain above) (h : isBeneath path above = true) :
    IsPlain path ∧ Within path above ∧ resolve path ≠ resolve above := by
  rw [isBeneath, Bool.and_eq_true, Bool.and_eq_true, Bool.not_eq_true', decide_eq_true_eq] at h
  obtain ⟨hbelow, hrest, hup⟩ := h
  obtain ⟨rest, hcomponents⟩ := List.isPrefixOf_iff_prefix.mp hbelow
  rw [← hcomponents, List.drop_left] at hrest hup
  have hplain : IsPlain path := by
    refine ⟨hpath, fun hmem => ?_⟩
    rw [← mem_components_iff hpath, ← hcomponents, List.mem_append,
      mem_components_iff habove.absolute] at hmem
    rcases hmem with hmem | hmem
    · exact habove.plain hmem
    · rw [List.contains_eq_mem, decide_eq_false_iff_not] at hup
      exact hup hmem
  refine ⟨hplain, (hplain.below_iff habove).mp hbelow, fun hsame => hrest ?_⟩
  have hlength : (components path).length = (components above).length := by
    rw [components_of_absolute hpath, components_of_absolute habove.absolute,
      ← resolve_of_not_mem hplain.plain, ← resolve_of_not_mem habove.plain, hsame]
  rw [← hcomponents, List.length_append] at hlength
  exact List.eq_nil_of_length_eq_zero (by omega)

/-! ### What is checked of a layout -/

theorem areSeparate_iff {paths : List String} :
    areSeparate paths = true ↔
      paths.Pairwise fun a b => below a b = false ∧ below b a = false := by
  induction paths with
  | nil => simp [areSeparate]
  | cons path others ih =>
    rw [areSeparate, Bool.and_eq_true, List.all_eq_true, ih, List.pairwise_cons]
    simp only [Bool.not_eq_true', Bool.or_eq_false_iff]

theorem map_snd_storageDirectories (config : HostConfig String Ip Zone Url) :
    (storageDirectories config).map Prod.snd = config.storedDirectories := by
  rw [storageDirectories, HostConfig.storedDirectories]
  cases config.volumes with
  | localFile => rfl
  | zerofs settings => rfl

/-- What `validateHostStorage` finds of a layout it lets through. -/
structure IsChecked (config : HostConfig String Ip Zone Url) (storage : HostStorage String) :
    Prop where
  device : isNormalized storage.device = true
  mountPoint : isNormalized storage.mountPoint = true
  below_dev : below storage.device "/dev" = true
  ne_dev : components storage.device ≠ components "/dev"
  mountPath : ∀ settings, config.volumes.zerofs? = some settings →
    below settings.mountPath storage.mountPoint = false
  cacheDir : ∀ settings, config.volumes.zerofs? = some settings →
    ∀ dir ∈ config.privateDirectories, below settings.cacheDir dir = false
  beneath : ∀ dir ∈ config.storedDirectories, isBeneath dir storage.mountPoint = true
  apart : areSeparate config.storedDirectories = true

/-- What a list of refusals lets through. -/
theorem mapM_refuse_eq_ok {α : Type} {bad : α → Prop} [DecidablePred bad] {e : α → ConfigError}
    {l : List α} {us : List Unit} (h : l.mapM (fun a => refuse (bad a) (e a)) = .ok us) :
    ∀ a ∈ l, ¬bad a := by
  intro a ha
  rw [mapM_eq_ok_iff] at h
  have hmem : refuse (bad a) (e a) ∈ us.map .ok := h ▸ List.mem_map_of_mem ha
  obtain ⟨u, -, hu⟩ := List.mem_map.mp hmem
  exact refuse_eq_ok_iff.mp hu.symm

theorem isChecked_of_validate {config : HostConfig String Ip Zone Url}
    {storage : HostStorage String} {u : Unit} (hstorage : config.hostStorage = some storage)
    (h : validateHostStorage config = .ok u) : IsChecked config storage := by
  rw [validateHostStorage, hstorage] at h
  obtain ⟨_, hnormalized, h⟩ := bind_eq_ok_iff.mp h
  obtain ⟨_, hdevice, h⟩ := bind_eq_ok_iff.mp h
  obtain ⟨_, hzerofs, h⟩ := bind_eq_ok_iff.mp h
  obtain ⟨_, hbeneath, hapart⟩ := bind_eq_ok_iff.mp h
  have hnormalized := mapM_refuse_eq_ok hnormalized
  have hdevice := refuse_eq_ok_iff.mp hdevice
  rw [not_or, Bool.not_eq_false] at hdevice
  have hsettings : ∀ settings, config.volumes.zerofs? = some settings →
      ∃ v, validateZerofs config storage settings = .ok v := by
    intro settings hsome
    rw [hsome] at hzerofs
    obtain ⟨v, hv, -⟩ := map_eq_ok_iff.mp hzerofs
    exact ⟨v, hv⟩
  exact {
    device := eq_true_of_ne_false (hnormalized _ List.mem_cons_self)
    mountPoint := eq_true_of_ne_false (hnormalized _ (List.mem_cons_of_mem _ List.mem_cons_self))
    below_dev := hdevice.1
    ne_dev := hdevice.2
    mountPath := by
      intro settings hsome
      obtain ⟨_, hv⟩ := hsettings settings hsome
      obtain ⟨_, hmount, -⟩ := bind_eq_ok_iff.mp hv
      exact eq_false_of_ne_true (refuse_eq_ok_iff.mp hmount)
    cacheDir := by
      intro settings hsome dir hdir
      obtain ⟨_, hv⟩ := hsettings settings hsome
      obtain ⟨_, -, hcache⟩ := bind_eq_ok_iff.mp hv
      have hany := refuse_eq_ok_iff.mp hcache
      rw [List.any_eq_true, not_exists] at hany
      exact eq_false_of_ne_true fun hbelow => hany dir ⟨hdir, hbelow⟩
    beneath := by
      intro dir hdir
      rw [← map_snd_storageDirectories] at hdir
      obtain ⟨named, hnamed, rfl⟩ := List.mem_map.mp hdir
      exact eq_true_of_ne_false (mapM_refuse_eq_ok hbeneath named hnamed)
    apart := by
      rw [← map_snd_storageDirectories]
      exact eq_true_of_ne_false (refuse_eq_ok_iff.mp hapart) }

/-! ### What is read of a document -/

theorem startsWith_of_pathKey {field : String} {value : Option String} {path : String}
    (h : pathKey field value = .ok path) : startsWith "/" path = true := by
  obtain ⟨text, -, htext⟩ := bind_eq_ok_iff.mp h
  rw [absolute] at htext
  split_ifs at htext with hempty habsolute
  cases htext
  exact habsolute

/-- The paths a layout is judged by are from the root. -/
structure HasAbsolutePaths (config : HostConfig String Ip Zone Url) : Prop where
  stored : ∀ dir ∈ config.storedDirectories, startsWith "/" dir = true
  ofRoot : ∀ dir ∈ config.privateDirectories, startsWith "/" dir = true
  mountPath : ∀ settings, config.volumes.zerofs? = some settings →
    startsWith "/" settings.mountPath = true

theorem startsWith_of_zerofs {document : File.Zerofs} {settings : ZerofsSettings String}
    (h : zerofs document = .ok settings) :
    startsWith "/" settings.mountPath = true ∧ startsWith "/" settings.cacheDir = true ∧
      startsWith "/" settings.checkpointCacheDir = true := by
  obtain ⟨binary, -, h⟩ := bind_eq_ok_iff.mp h
  obtain ⟨configFile, -, h⟩ := bind_eq_ok_iff.mp h
  obtain ⟨mountPath, hmountPath, h⟩ := bind_eq_ok_iff.mp h
  obtain ⟨nbd, -, h⟩ := bind_eq_ok_iff.mp h
  obtain ⟨ninep, -, h⟩ := bind_eq_ok_iff.mp h
  obtain ⟨rpc, -, h⟩ := bind_eq_ok_iff.mp h
  obtain ⟨storageUrl, -, h⟩ := bind_eq_ok_iff.mp h
  obtain ⟨cacheDir, hcacheDir, h⟩ := bind_eq_ok_iff.mp h
  obtain ⟨disk, -, h⟩ := bind_eq_ok_iff.mp h
  obtain ⟨memory, -, h⟩ := bind_eq_ok_iff.mp h
  obtain ⟨runtimeDir, -, h⟩ := bind_eq_ok_iff.mp h
  obtain ⟨checkpointFile, -, h⟩ := bind_eq_ok_iff.mp h
  obtain ⟨checkpointDir, hcheckpointDir, h⟩ := bind_eq_ok_iff.mp h
  cases h
  exact ⟨startsWith_of_pathKey hmountPath, startsWith_of_pathKey hcacheDir,
    startsWith_of_pathKey hcheckpointDir⟩

theorem startsWith_of_backend {volumes : File.Volumes} {backend : VolumeBackend String}
    (h : Config.backend volumes = .ok backend) :
    ∀ settings, backend.zerofs? = some settings →
      startsWith "/" settings.mountPath = true ∧ startsWith "/" settings.cacheDir = true ∧
        startsWith "/" settings.checkpointCacheDir = true := by
  obtain ⟨named, -, h⟩ := bind_eq_ok_iff.mp h
  split_ifs at h
  · cases h
    exact fun _ hnone => by cases hnone
  · obtain ⟨document, -, h⟩ := bind_eq_ok_iff.mp h
    obtain ⟨settings, hsettings, h⟩ := bind_eq_ok_iff.mp h
    cases h
    rintro _ ⟨⟩
    exact startsWith_of_zerofs hsettings

/-- A document that is accepted has been checked, and its paths are from the root. -/
theorem checked_of_fromDocument {F : Formats Ip Zone Url} {document : File.ConfigFile}
    {config : HostConfig String Ip Zone Url} (h : fromDocument F document = .ok config) :
    validateHostStorage config = .ok () ∧ HasAbsolutePaths config := by
  obtain ⟨maxApps, -, h⟩ := bind_eq_ok_iff.mp h
  obtain ⟨cronSection, -, h⟩ := bind_eq_ok_iff.mp h
  obtain ⟨cron, -, h⟩ := bind_eq_ok_iff.mp h
  obtain ⟨paths, -, h⟩ := bind_eq_ok_iff.mp h
  obtain ⟨stateDir, hstateDir, h⟩ := bind_eq_ok_iff.mp h
  obtain ⟨runtimeDir, -, h⟩ := bind_eq_ok_iff.mp h
  obtain ⟨volumesSection, -, h⟩ := bind_eq_ok_iff.mp h
  obtain ⟨volumes, hvolumes, h⟩ := bind_eq_ok_iff.mp h
  obtain ⟨network, -, h⟩ := bind_eq_ok_iff.mp h
  obtain ⟨exports, -, h⟩ := bind_eq_ok_iff.mp h
  obtain ⟨artifacts, -, h⟩ := bind_eq_ok_iff.mp h
  obtain ⟨proxy, -, h⟩ := bind_eq_ok_iff.mp h
  obtain ⟨metrics, -, h⟩ := bind_eq_ok_iff.mp h
  obtain ⟨filesystem, -, h⟩ := bind_eq_ok_iff.mp h
  obtain ⟨logs, -, h⟩ := bind_eq_ok_iff.mp h
  obtain ⟨maxStarts, -, h⟩ := bind_eq_ok_iff.mp h
  obtain ⟨hostStorage, -, h⟩ := bind_eq_ok_iff.mp h
  obtain ⟨snapshotDir, hsnapshotDir, h⟩ := bind_eq_ok_iff.mp h
  obtain ⟨guestImageDir, hguestImageDir, h⟩ := bind_eq_ok_iff.mp h
  obtain ⟨desiredStateFile, -, h⟩ := bind_eq_ok_iff.mp h
  obtain ⟨versionsFile, -, h⟩ := bind_eq_ok_iff.mp h
  obtain ⟨artifactStoreUrl, -, h⟩ := bind_eq_ok_iff.mp h
  obtain ⟨storagePrefix, -, h⟩ := bind_eq_ok_iff.mp h
  obtain ⟨deniedV4, -, h⟩ := bind_eq_ok_iff.mp h
  obtain ⟨deniedV6, -, h⟩ := bind_eq_ok_iff.mp h
  obtain ⟨exportStoreUrl, -, h⟩ := bind_eq_ok_iff.mp h
  obtain ⟨exportStagingDir, hexportStagingDir, h⟩ := bind_eq_ok_iff.mp h
  obtain ⟨_, hvalid, h⟩ := bind_eq_ok_iff.mp h
  cases h
  have hsettings := startsWith_of_backend hvolumes
  refine ⟨hvalid, ?_, ?_, fun settings hsome => (hsettings settings hsome).1⟩
  · rw [HostConfig.storedDirectories, List.forall_mem_cons]
    refine ⟨startsWith_of_pathKey hsnapshotDir, ?_⟩
    dsimp only
    cases hzerofs : volumes.zerofs? with
    | none => simp
    | some settings =>
      have hpaths := hsettings settings hzerofs
      simp [hpaths.2.1, hpaths.2.2]
  · simp [HostConfig.privateDirectories, startsWith_of_pathKey hstateDir,
      startsWith_of_pathKey hguestImageDir, startsWith_of_pathKey hexportStagingDir]

/-- **The layouts that are separated**: of the documents accepted with a storage of the host's own,
those in which no path that goes up comes to a place its check keeps it from. -/
theorem storage_separated_iff {F : Formats Ip Zone Url} {document : File.ConfigFile}
    {config : HostConfig String Ip Zone Url} {storage : HostStorage String}
    (h : fromDocument F document = .ok config) (hstorage : config.hostStorage = some storage) :
    IsSeparated config storage ↔ GoesUpElsewhere config storage := by
  obtain ⟨hvalid, habsolute⟩ := checked_of_fromDocument h
  have hchecked := isChecked_of_validate hstorage hvalid
  have hmount := isPlain_of_isNormalized hchecked.mountPoint
  have hdevice := isPlain_of_isNormalized hchecked.device
  have hdev : IsPlain "/dev" := ⟨by decide, by decide⟩
  have hstored : ∀ dir ∈ config.storedDirectories, IsPlain dir ∧ Within dir storage.mountPoint ∧
      resolve dir ≠ resolve storage.mountPoint := fun dir hdir =>
    isPlain_of_isBeneath (habsolute.stored dir hdir) hmount (hchecked.beneath dir hdir)
  have hcache : ∀ settings, config.volumes.zerofs? = some settings →
      settings.cacheDir ∈ config.storedDirectories := by
    intro settings hsome
    simp [HostConfig.storedDirectories, hsome]
  constructor
  · intro hseparated settings hsome
    exact ⟨fun _ => hseparated.mountPath settings hsome,
      fun dir hdir _ => hseparated.cacheDir settings hsome dir hdir⟩
  · intro hup
    exact {
      beneath := fun dir hdir => (hstored dir hdir).2
      apart := by
        refine (areSeparate_iff.mp hchecked.apart).imp_of_mem fun {a b} ha hb hab => ?_
        have hplain := (hstored a ha).1
        have hplain' := (hstored b hb).1
        rw [← hplain.below_iff hplain', ← hplain'.below_iff hplain, hab.1, hab.2]
        exact ⟨Bool.false_ne_true, Bool.false_ne_true⟩
      mountPath := by
        intro settings hsome hwithin
        by_cases hplain : ".." ∈ split settings.mountPath
        · exact (hup settings hsome).1 hplain hwithin
        · have hbelow := (below_iff (habsolute.mountPath settings hsome) hmount.absolute hplain
            hmount.plain).mpr hwithin
          rw [hchecked.mountPath settings hsome] at hbelow
          cases hbelow
      cacheDir := by
        intro settings hsome dir hdir hwithin
        by_cases hplain : ".." ∈ split dir
        · exact (hup settings hsome).2 dir hdir hplain hwithin
        · have hcachePlain := (hstored _ (hcache settings hsome)).1
          have hbelow := (hcachePlain.below_iff ⟨habsolute.ofRoot dir hdir, hplain⟩).mpr hwithin
          rw [hchecked.cacheDir settings hsome dir hdir] at hbelow
          cases hbelow
      device := by
        refine ⟨(hdevice.below_iff hdev).mp hchecked.below_dev, fun hsame => hchecked.ne_dev ?_⟩
        rw [components_of_absolute hdevice.absolute, components_of_absolute hdev.absolute,
          ← resolve_of_not_mem hdevice.plain, ← resolve_of_not_mem hdev.plain, hsame] }

/-! ### A disk for the host's own storage -/

/-- A host with a disk of its own, over ZeroFS. -/
def diskHost (stateDir mountPath : String) : HostConfig String Bool Unit Unit :=
  { starter 2 with
    hostStorage := some ⟨"/dev/nvme1n1", "/data", .ext4⟩
    stateDir := stateDir
    snapshotDir := "/data/snapshots"
    volumes := .zerofs
      { binary := "/usr/bin/zerofs"
        configFile := "/etc/zerofs/zerofs.toml"
        mountPath := mountPath
        nbdSocketPath := "/run/zerofs/nbd.sock"
        ninepSocketPath := "/run/zerofs/9p.sock"
        rpcSocketPath := "/run/zerofs/rpc.sock"
        storageUrl := "/var/lib/zerofs"
        cacheDir := "/data/zerofs"
        cacheDiskMib := 10240
        cacheMemoryMib := 1024
        checkpointRuntimeDir := "/run/zerofs-checkpoint"
        checkpointConfigFile := "/etc/zerofs/checkpoint.toml"
        checkpointCacheDir := "/data/zerofs-checkpoint" } }

/-- A mount of ZeroFS that goes up comes down beside the disk. -/
theorem storage_separated_diskHost :
    IsSeparated (diskHost "/var/lib/nibrunner" "/mnt/../srv/zerofs")
      ⟨"/dev/nvme1n1", "/data", .ext4⟩ := by
  have haccepted : fromDocument sampleFormats
      ((diskHost "/var/lib/nibrunner" "/mnt/../srv/zerofs").toDocument sampleFormats) =
        .ok (diskHost "/var/lib/nibrunner" "/mnt/../srv/zerofs") := by
    decide +kernel
  refine (storage_separated_iff haccepted rfl).mpr fun settings hsettings => ?_
  cases hsettings
  exact ⟨fun _ => by decide, by decide⟩

/-- A mount of ZeroFS that goes up and down again into the disk is accepted. -/
theorem mount_inside_disk :
    fromDocument sampleFormats
        ((diskHost "/var/lib/nibrunner" "/mnt/../data/mnt").toDocument sampleFormats) =
      .ok (diskHost "/var/lib/nibrunner" "/mnt/../data/mnt") ∧
    ¬IsSeparated (diskHost "/var/lib/nibrunner" "/mnt/../data/mnt")
      ⟨"/dev/nvme1n1", "/data", .ext4⟩ := by
  refine ⟨by decide +kernel, fun hseparated => ?_⟩
  exact hseparated.mountPath _ rfl (by decide)

end Nibrunner.Config

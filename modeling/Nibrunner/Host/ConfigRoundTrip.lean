import Nibrunner.Host.Config

/-!
# A configuration survives its own rendering

What a document was read as is read again from the document it is written as: white space is gone
once it was trimmed, a size was a whole number of the units it is written in, a section that is left
out is read as the one that says nothing, and every check that passed passes on the same values.

* `Formats.Exact`: what is taken of the libraries that read and write addresses, time zones and
  URLs;
* `readsBack_fromDocument`: every configuration that is read survives being written.
-/

namespace Nibrunner.Config

open PathText TextLines
open Except (ReadsBack bind_eq_ok_iff ofOption_eq_ok_iff refuse_eq_ok_iff)

/-! ### Texts -/

theorem trim_trim (text : String) : trim (trim text) = trim text := by
  rw [trim, trim, String.toList_ofList]
  congr 1
  generalize text.toList = l
  rw [Cron.trim, Cron.trim]
  have hdrop : ((l.dropWhile isWhitespace).rdropWhile isWhitespace).dropWhile isWhitespace =
      (l.dropWhile isWhitespace).rdropWhile isWhitespace := by
    obtain ⟨rest, hrest⟩ := List.rdropWhile_prefix isWhitespace (l := l.dropWhile isWhitespace)
    cases hfront : (l.dropWhile isWhitespace).rdropWhile isWhitespace with
    | nil => rfl
    | cons c front =>
      -- the first character is the first of what is left in front
      rw [hfront] at hrest
      have hfirst := List.dropWhile_eq_self_iff.mp (List.dropWhile_idempotent isWhitespace l)
      rw [← hrest] at hfirst
      exact List.dropWhile_cons_of_neg (hfirst (by simp))
  rw [hdrop, List.rdropWhile_idempotent]

theorem trim_of_plain {text : String} (h : ∀ c ∈ text.toList, isWhitespace c = false) :
    trim text = text := by
  have hdrop : text.toList.dropWhile isWhitespace = text.toList :=
    List.dropWhile_eq_self_iff.mpr fun hl => by rw [h _ (List.getElem_mem hl)]; decide
  have hrdrop : text.toList.rdropWhile isWhitespace = text.toList :=
    List.rdropWhile_eq_self_iff.mpr fun hl => by rw [h _ (List.getLast_mem hl)]; decide
  rw [trim, Cron.trim, hdrop, hrdrop, String.ofList_toList]

/-! ### Values -/

theorem readsBack_key {α β : Type} {read : String → α → Except ConfigError β} {print : β → α}
    {field : String} (h : ReadsBack (read field) print) :
    ReadsBack (key read field) (some ∘ print) :=
  h.required _

theorem readsBack_required {α : Type} (field : String) :
    ReadsBack (required (α := α) field) some := by
  intro value a _
  rfl

theorem readsBack_absolute (field : String) : ReadsBack (absolute field) id := by
  intro value path h
  rw [absolute] at h
  split at h
  · cases h
  · rename_i hne
    split at h
    · rename_i habsolute
      cases h
      rw [id, absolute, trim_trim]
      simp only [if_neg hne, if_pos habsolute]
    · cases h

theorem readsBack_pathKey (field : String) : ReadsBack (pathKey field) some :=
  readsBack_key (readsBack_absolute field)

theorem readsBack_scaled (field : String) {unit : ℕ} (hunit : 0 < unit) :
    ReadsBack (scaled field unit) (· / unit) := by
  intro value size h
  rw [scaled] at h
  split at h
  · cases h
  · rename_i hne
    split at h
    · rename_i hfits
      cases h
      dsimp only
      rw [Nat.mul_div_cancel _ hunit, scaled, if_neg hne, if_pos hfits]
    · cases h

theorem readsBack_apps (field : String) : ReadsBack (apps field) AppCount.count := by
  rintro value ⟨count, hpos, hfits⟩ -
  rw [apps]
  simp only [dif_neg (Nat.ne_of_gt hpos), dif_neg (Nat.not_lt.mpr hfits)]

theorem readsBack_listener (maxApps : AppCount) (field : String) :
    ReadsBack (listener maxApps field) id := by
  intro value port h
  have hsame : port = value := by
    rw [listener] at h
    simp only at h
    split at h
    · cases h
    · split at h
      · cases h
      · exact (Except.ok.inj h).symm
  subst hsame
  exact h

theorem readsBack_rawPorts (field : String) : ReadsBack (rawPorts field) id := by
  intro value named h
  have hsame : named = value := by
    rw [rawPorts] at h
    split at h
    · cases h
    · exact (Except.ok.inj h).symm
  subst hsame
  exact h

theorem readsBack_objectStoreUrl (field : String) : ReadsBack (objectStoreUrl field) id := by
  intro value url h
  have hsame : url = trim value := by
    rw [objectStoreUrl] at h
    simp only at h
    split at h
    · split at h
      · cases h
      · exact (Except.ok.inj h).symm
    · split at h
      · cases h
      · rw [absolute, trim_trim] at h
        split at h
        · cases h
        · split at h
          · exact (Except.ok.inj h).symm
          · cases h
  subst hsame
  rw [objectStoreUrl] at h ⊢
  rwa [id, trim_trim]

theorem readsBack_storagePrefix (field : String) : ReadsBack (storagePrefix field) id := by
  intro value text h
  have hsame : text = trim value := by
    rw [storagePrefix] at h
    split at h
    · cases h
    · split at h
      · cases h
      · split at h
        · cases h
        · split at h
          · cases h
          · exact (Except.ok.inj h).symm
  subst hsame
  rw [storagePrefix] at h ⊢
  rwa [id, trim_trim]

section Formats

variable {Ip Zone Url : Type} {F : Formats Ip Zone Url}

theorem readsBack_cidr (family : Family) (field : String) :
    ReadsBack (cidr F family field) id := by
  intro value range h
  have hsame : range = trim value := by
    rw [cidr] at h
    split at h
    · cases h
    · obtain ⟨bits, -, h⟩ := bind_eq_ok_iff.mp h
      obtain ⟨widest, -, h⟩ := bind_eq_ok_iff.mp h
      split at h
      · cases h
      · exact (Except.ok.inj h).symm
  subst hsame
  rw [cidr] at h ⊢
  rwa [id, trim_trim]

theorem readsBack_cidrs (family : Family) (field : String) :
    ReadsBack (cidrs F family field) id := by
  have hlist := (readsBack_cidr (F := F) family field).list
  rw [List.map_id_fun] at hlist
  exact hlist

/-- What is taken of the libraries: each reads what it writes as what it wrote; an address is
written without white space, and so is a URL with a host, of either scheme, which escapes it. -/
structure Formats.Exact (F : Formats Ip Zone Url) : Prop where
  ip : ∀ a, F.parseIp (F.printIp a) = some a
  ip_plain : ∀ a, ∀ c ∈ (F.printIp a).toList, isWhitespace c = false
  zone : ∀ a, F.parseZone (F.printZone a) = some a
  url : ∀ a, F.parseUrl (F.printUrl a) = some a
  url_plain : ∀ a, F.scheme a = "http" ∨ F.scheme a = "https" → F.hasHost a = true →
    ∀ c ∈ (F.printUrl a).toList, isWhitespace c = false ∧ isControl c = false

theorem readsBack_timeZone (hF : F.Exact) (field : String) :
    ReadsBack (timeZone F field) F.printZone := by
  intro value zone _
  rw [timeZone, hF.zone]
  rfl

theorem readsBack_bindAddress (hF : F.Exact) (field : String) :
    ReadsBack (bindAddress F field) F.printIp := by
  intro value address _
  rw [bindAddress, trim_of_plain (hF.ip_plain address), hF.ip]
  rfl

/-! ### Sections -/

theorem readsBack_cron (hF : F.Exact) : ReadsBack (cron F) (CronConfig.toDocument F) := by
  intro document config h
  obtain ⟨maxJobsPerApp, hjobs, h⟩ := bind_eq_ok_iff.mp h
  obtain ⟨timeZone, hzone, h⟩ := bind_eq_ok_iff.mp h
  cases h
  refine bind_eq_ok_iff.mpr ⟨_, readsBack_required _ _ _ hjobs, ?_⟩
  exact bind_eq_ok_iff.mpr ⟨_, readsBack_key (readsBack_timeZone hF _) _ _ hzone, rfl⟩

theorem readsBack_zerofs : ReadsBack zerofs ZerofsSettings.toDocument := by
  have hpath := fun field => readsBack_pathKey field
  have hsize : ∀ field, ReadsBack (key mebibytes field) (some ∘ (· / mebibytesPerGibibyte)) :=
    fun field => readsBack_key (readsBack_scaled field (by decide))
  intro document settings h
  obtain ⟨binary, hbinary, h⟩ := bind_eq_ok_iff.mp h
  obtain ⟨configFile, hconfigFile, h⟩ := bind_eq_ok_iff.mp h
  obtain ⟨mountPath, hmountPath, h⟩ := bind_eq_ok_iff.mp h
  obtain ⟨nbd, hnbd, h⟩ := bind_eq_ok_iff.mp h
  obtain ⟨ninep, hninep, h⟩ := bind_eq_ok_iff.mp h
  obtain ⟨rpc, hrpc, h⟩ := bind_eq_ok_iff.mp h
  obtain ⟨storageUrl, hstorageUrl, h⟩ := bind_eq_ok_iff.mp h
  obtain ⟨cacheDir, hcacheDir, h⟩ := bind_eq_ok_iff.mp h
  obtain ⟨disk, hdisk, h⟩ := bind_eq_ok_iff.mp h
  obtain ⟨memory, hmemory, h⟩ := bind_eq_ok_iff.mp h
  obtain ⟨runtimeDir, hruntimeDir, h⟩ := bind_eq_ok_iff.mp h
  obtain ⟨checkpointFile, hcheckpointFile, h⟩ := bind_eq_ok_iff.mp h
  obtain ⟨checkpointDir, hcheckpointDir, h⟩ := bind_eq_ok_iff.mp h
  cases h
  refine bind_eq_ok_iff.mpr ⟨_, hpath _ _ _ hbinary, ?_⟩
  refine bind_eq_ok_iff.mpr ⟨_, hpath _ _ _ hconfigFile, ?_⟩
  refine bind_eq_ok_iff.mpr ⟨_, hpath _ _ _ hmountPath, ?_⟩
  refine bind_eq_ok_iff.mpr ⟨_, hpath _ _ _ hnbd, ?_⟩
  refine bind_eq_ok_iff.mpr ⟨_, hpath _ _ _ hninep, ?_⟩
  refine bind_eq_ok_iff.mpr ⟨_, hpath _ _ _ hrpc, ?_⟩
  refine bind_eq_ok_iff.mpr ⟨_, readsBack_key (readsBack_objectStoreUrl _) _ _ hstorageUrl, ?_⟩
  refine bind_eq_ok_iff.mpr ⟨_, hpath _ _ _ hcacheDir, ?_⟩
  refine bind_eq_ok_iff.mpr ⟨_, hsize _ _ _ hdisk, ?_⟩
  refine bind_eq_ok_iff.mpr ⟨_, hsize _ _ _ hmemory, ?_⟩
  refine bind_eq_ok_iff.mpr ⟨_, hpath _ _ _ hruntimeDir, ?_⟩
  refine bind_eq_ok_iff.mpr ⟨_, hpath _ _ _ hcheckpointFile, ?_⟩
  exact bind_eq_ok_iff.mpr ⟨_, hpath _ _ _ hcheckpointDir, rfl⟩

theorem readsBack_backend (storagePrefix : String) :
    ReadsBack backend fun volumes => volumes.toDocument storagePrefix := by
  intro document volumes h
  obtain ⟨named, -, h⟩ := bind_eq_ok_iff.mp h
  refine bind_eq_ok_iff.mpr ⟨volumes.asStr, rfl, ?_⟩
  split at h
  · split at h
    · cases h
    · cases h
      rfl
  · split at h
    · obtain ⟨section', -, h⟩ := bind_eq_ok_iff.mp h
      obtain ⟨settings, hsettings, h⟩ := bind_eq_ok_iff.mp h
      cases h
      rw [if_neg (by simp [VolumeBackend.asStr]), if_pos (by simp [VolumeBackend.asStr])]
      refine bind_eq_ok_iff.mpr ⟨settings.toDocument, rfl, ?_⟩
      exact bind_eq_ok_iff.mpr ⟨settings, readsBack_zerofs _ _ hsettings, rfl⟩
    · cases h

theorem hostname?_text (hostname : Hostname) : hostname? hostname.text = some hostname :=
  dif_pos hostname.valid

theorem readsBack_httpFallback (hF : F.Exact) :
    ReadsBack (httpFallback F) (HttpFallback.toDocument F) := by
  intro document fallback h
  obtain ⟨originHost, -, h⟩ := bind_eq_ok_iff.mp h
  obtain ⟨redirect, -, h⟩ := bind_eq_ok_iff.mp h
  split at h
  · cases h
  · rename_i hallowed
    split at h
    · cases h
    · rename_i hloop
      cases h
      refine bind_eq_ok_iff.mpr ⟨originHost, ?_, ?_⟩
      · rw [HttpFallback.toDocument, hostname?_text]
        rfl
      refine bind_eq_ok_iff.mpr ⟨redirect, ?_, ?_⟩
      · rw [HttpFallback.toDocument, hF.url]
        rfl
      -- the URL is the same, and its text is one without white space
      have hallowed' : ¬isRefusedRedirect F (F.printUrl redirect) redirect = true := by
        simp only [isRefusedRedirect, Bool.or_eq_true, not_or, Bool.not_eq_true',
          Bool.not_eq_false, decide_eq_true_eq, ne_eq, not_not] at hallowed ⊢
        obtain ⟨⟨⟨⟨⟨⟨hscheme, hhost⟩, husername⟩, hpassword⟩, -⟩, -⟩, hheader⟩ := hallowed
        have hplain := hF.url_plain redirect hscheme hhost
        refine ⟨⟨⟨⟨⟨⟨hscheme, hhost⟩, husername⟩, hpassword⟩, ?_⟩, ?_⟩, hheader⟩
        · exact trim_of_plain fun c hc => (hplain c hc).1
        · rw [List.any_eq_true]
          rintro ⟨c, hc, hcontrol⟩
          rw [(hplain c hc).2] at hcontrol
          cases hcontrol
      simp only [HttpFallback.toDocument, if_neg hallowed', if_neg hloop]

theorem readsBack_tls : ReadsBack tls TlsMaterial.toDocument := by
  have hpool : ReadsBack clientCa fun certificate => { certificate := some certificate } :=
    fun document certificate h => readsBack_pathKey _ _ _ h
  intro document material h
  obtain ⟨certificate, hcertificate, h⟩ := bind_eq_ok_iff.mp h
  obtain ⟨key, hkey, h⟩ := bind_eq_ok_iff.mp h
  obtain ⟨clientCa, hclientCa, h⟩ := bind_eq_ok_iff.mp h
  cases h
  refine bind_eq_ok_iff.mpr ⟨_, readsBack_pathKey _ _ _ hcertificate, ?_⟩
  refine bind_eq_ok_iff.mpr ⟨_, readsBack_pathKey _ _ _ hkey, ?_⟩
  exact bind_eq_ok_iff.mpr ⟨_, hpool.optional _ _ hclientCa, rfl⟩

theorem readsBack_http (hF : F.Exact) (maxApps : AppCount) :
    ReadsBack (http F maxApps) (HttpListener.toDocument F) := by
  intro document listener h
  obtain ⟨fallback, hfallback, h⟩ := bind_eq_ok_iff.mp h
  obtain ⟨listenAddress, haddress, h⟩ := bind_eq_ok_iff.mp h
  obtain ⟨port, hport, h⟩ := bind_eq_ok_iff.mp h
  obtain ⟨tls, htls, h⟩ := bind_eq_ok_iff.mp h
  cases h
  refine bind_eq_ok_iff.mpr ⟨_, (readsBack_httpFallback hF).optional _ _ hfallback, ?_⟩
  refine bind_eq_ok_iff.mpr ⟨_, readsBack_key (readsBack_bindAddress hF _) _ _ haddress, ?_⟩
  refine bind_eq_ok_iff.mpr ⟨_, readsBack_key (readsBack_listener maxApps _) _ _ hport, ?_⟩
  exact bind_eq_ok_iff.mpr ⟨_, readsBack_tls.optional _ _ htls, rfl⟩

theorem readsBack_raw (hF : F.Exact) : ReadsBack (raw F) (RawPorts.toDocument F) := by
  intro document ports h
  obtain ⟨named, hnamed, h⟩ := bind_eq_ok_iff.mp h
  obtain ⟨listenAddress, haddress, h⟩ := bind_eq_ok_iff.mp h
  cases h
  refine bind_eq_ok_iff.mpr ⟨_, readsBack_key (readsBack_rawPorts _) _ _ hnamed, ?_⟩
  exact bind_eq_ok_iff.mpr ⟨_, readsBack_key (readsBack_bindAddress hF _) _ _ haddress, rfl⟩

/-- A proxy that serves nothing is read where there is none. -/
theorem readsBack_proxy (hF : F.Exact) (maxApps : AppCount) :
    ReadsBack (proxy F maxApps) fun config =>
      if config.http.isNone ∧ config.raw.isNone then none else some (config.toDocument F) := by
  intro document config h
  dsimp only
  split
  · rename_i hnone
    obtain ⟨http, raw⟩ := config
    obtain ⟨hhttp, hraw⟩ := hnone
    rw [Option.isNone_iff_eq_none] at hhttp hraw
    obtain rfl : http = none := hhttp
    obtain rfl : raw = none := hraw
    rfl
  · rename_i hsome
    cases document with
    | none =>
      cases h
      exact absurd ⟨rfl, rfl⟩ hsome
    | some document =>
      obtain ⟨http, hhttp, h⟩ := bind_eq_ok_iff.mp h
      obtain ⟨raw, hraw, h⟩ := bind_eq_ok_iff.mp h
      cases h
      refine bind_eq_ok_iff.mpr ⟨_, (readsBack_http hF maxApps).optional _ _ hhttp, ?_⟩
      exact bind_eq_ok_iff.mpr ⟨_, (readsBack_raw hF).optional _ _ hraw, rfl⟩

theorem readsBack_metrics (hF : F.Exact) (proxy : ProxyConfig String Ip Url)
    (volumes : VolumeBackend String) (maxApps : AppCount) :
    ReadsBack (metrics F proxy volumes maxApps) (MetricsConfig.toDocument F) := by
  intro document config h
  obtain ⟨port, hport, h⟩ := bind_eq_ok_iff.mp h
  split at h
  · cases h
  · rename_i hfree
    obtain ⟨listenAddress, haddress, h⟩ := bind_eq_ok_iff.mp h
    cases h
    refine bind_eq_ok_iff.mpr ⟨_, readsBack_key (readsBack_listener maxApps _) _ _ hport, ?_⟩
    rw [hfree]
    exact bind_eq_ok_iff.mpr ⟨_, readsBack_key (readsBack_bindAddress hF _) _ _ haddress, rfl⟩

theorem readsBack_filesystem : ReadsBack filesystem FilesystemConfig.toDocument := by
  intro document config h
  obtain ⟨socket, hsocket, h⟩ := bind_eq_ok_iff.mp h
  cases h
  exact bind_eq_ok_iff.mpr ⟨_, readsBack_pathKey _ _ _ hsocket, rfl⟩

/-- What is kept where nothing is said is a whole number of mebibytes too. -/
theorem readsBack_logs : ReadsBack logs fun config => some config.toDocument := by
  have hsize : ∀ field, ReadsBack (key (fun field => scaled field bytesPerMebibyte) field)
      (some ∘ (· / bytesPerMebibyte)) :=
    fun field => readsBack_key (readsBack_scaled field (by decide))
  intro document config h
  cases document with
  | none =>
    cases h
    decide +kernel
  | some document =>
    obtain ⟨size, hkeep, h⟩ := bind_eq_ok_iff.mp h
    cases h
    exact bind_eq_ok_iff.mpr ⟨_, hsize _ _ _ hkeep, rfl⟩

theorem readsBack_storage : ReadsBack storage HostStorage.toDocument := by
  intro document config h
  obtain ⟨device, hdevice, h⟩ := bind_eq_ok_iff.mp h
  obtain ⟨mountPoint, hmountPoint, h⟩ := bind_eq_ok_iff.mp h
  obtain ⟨filesystem, hfilesystem, h⟩ := bind_eq_ok_iff.mp h
  cases h
  refine bind_eq_ok_iff.mpr ⟨_, readsBack_pathKey _ _ _ hdevice, ?_⟩
  refine bind_eq_ok_iff.mpr ⟨_, readsBack_pathKey _ _ _ hmountPoint, ?_⟩
  exact bind_eq_ok_iff.mpr ⟨_, readsBack_required _ _ _ hfilesystem, rfl⟩

/-- **A configuration survives its own rendering**: whatever document it was read from, it is read
again from the one it is written as. -/
theorem readsBack_fromDocument (hF : F.Exact) :
    ReadsBack (fromDocument F) (HostConfig.toDocument F) := by
  have hpath := fun field => readsBack_pathKey field
  have hstore : ∀ field, ReadsBack (key objectStoreUrl field) (some ∘ id) :=
    fun field => readsBack_key (readsBack_objectStoreUrl field)
  have hcidrs : ∀ family field, ReadsBack (key (cidrs F family) field) (some ∘ id) :=
    fun family field => readsBack_key (readsBack_cidrs family field)
  intro document config h
  obtain ⟨maxApps, hmaxApps, h⟩ := bind_eq_ok_iff.mp h
  obtain ⟨cronSection, -, h⟩ := bind_eq_ok_iff.mp h
  obtain ⟨cron, hcron, h⟩ := bind_eq_ok_iff.mp h
  obtain ⟨paths, -, h⟩ := bind_eq_ok_iff.mp h
  obtain ⟨stateDir, hstateDir, h⟩ := bind_eq_ok_iff.mp h
  obtain ⟨runtimeDir, hruntimeDir, h⟩ := bind_eq_ok_iff.mp h
  obtain ⟨volumesSection, -, h⟩ := bind_eq_ok_iff.mp h
  obtain ⟨volumes, hvolumes, h⟩ := bind_eq_ok_iff.mp h
  obtain ⟨network, -, h⟩ := bind_eq_ok_iff.mp h
  obtain ⟨exports, -, h⟩ := bind_eq_ok_iff.mp h
  obtain ⟨artifacts, -, h⟩ := bind_eq_ok_iff.mp h
  obtain ⟨proxy, hproxy, h⟩ := bind_eq_ok_iff.mp h
  obtain ⟨metrics, hmetrics, h⟩ := bind_eq_ok_iff.mp h
  obtain ⟨filesystem, hfilesystem, h⟩ := bind_eq_ok_iff.mp h
  obtain ⟨logs, hlogs, h⟩ := bind_eq_ok_iff.mp h
  obtain ⟨maxStarts, hmaxStarts, h⟩ := bind_eq_ok_iff.mp h
  obtain ⟨hostStorage, hhostStorage, h⟩ := bind_eq_ok_iff.mp h
  obtain ⟨snapshotDir, hsnapshotDir, h⟩ := bind_eq_ok_iff.mp h
  obtain ⟨guestImageDir, hguestImageDir, h⟩ := bind_eq_ok_iff.mp h
  obtain ⟨desiredStateFile, hdesiredStateFile, h⟩ := bind_eq_ok_iff.mp h
  obtain ⟨versionsFile, hversionsFile, h⟩ := bind_eq_ok_iff.mp h
  obtain ⟨artifactStoreUrl, hartifactStoreUrl, h⟩ := bind_eq_ok_iff.mp h
  obtain ⟨storagePrefix, hstoragePrefix, h⟩ := bind_eq_ok_iff.mp h
  obtain ⟨deniedV4, hdeniedV4, h⟩ := bind_eq_ok_iff.mp h
  obtain ⟨deniedV6, hdeniedV6, h⟩ := bind_eq_ok_iff.mp h
  obtain ⟨exportStoreUrl, hexportStoreUrl, h⟩ := bind_eq_ok_iff.mp h
  obtain ⟨exportStagingDir, hexportStagingDir, h⟩ := bind_eq_ok_iff.mp h
  obtain ⟨_, hvalid, h⟩ := bind_eq_ok_iff.mp h
  cases h
  -- each key is read again, and the checks across them are made on the same values
  refine bind_eq_ok_iff.mpr ⟨maxApps, readsBack_key (readsBack_apps _) _ _ hmaxApps, ?_⟩
  refine bind_eq_ok_iff.mpr ⟨_, rfl, ?_⟩
  refine bind_eq_ok_iff.mpr ⟨cron, readsBack_cron hF _ _ hcron, ?_⟩
  refine bind_eq_ok_iff.mpr ⟨_, rfl, ?_⟩
  refine bind_eq_ok_iff.mpr ⟨stateDir, hpath _ _ _ hstateDir, ?_⟩
  refine bind_eq_ok_iff.mpr ⟨runtimeDir, hpath _ _ _ hruntimeDir, ?_⟩
  refine bind_eq_ok_iff.mpr ⟨_, rfl, ?_⟩
  refine bind_eq_ok_iff.mpr ⟨volumes, readsBack_backend storagePrefix _ _ hvolumes, ?_⟩
  refine bind_eq_ok_iff.mpr ⟨_, rfl, ?_⟩
  refine bind_eq_ok_iff.mpr ⟨_, rfl, ?_⟩
  refine bind_eq_ok_iff.mpr ⟨_, rfl, ?_⟩
  refine bind_eq_ok_iff.mpr ⟨proxy, readsBack_proxy hF maxApps _ _ hproxy, ?_⟩
  refine bind_eq_ok_iff.mpr ⟨metrics,
    (readsBack_metrics hF proxy volumes maxApps).optional _ _ hmetrics, ?_⟩
  refine bind_eq_ok_iff.mpr ⟨filesystem, readsBack_filesystem.optional _ _ hfilesystem, ?_⟩
  refine bind_eq_ok_iff.mpr ⟨logs, readsBack_logs _ _ hlogs, ?_⟩
  refine bind_eq_ok_iff.mpr ⟨maxStarts, readsBack_required _ _ _ hmaxStarts, ?_⟩
  refine bind_eq_ok_iff.mpr ⟨hostStorage, readsBack_storage.optional _ _ hhostStorage, ?_⟩
  refine bind_eq_ok_iff.mpr ⟨snapshotDir, hpath _ _ _ hsnapshotDir, ?_⟩
  refine bind_eq_ok_iff.mpr ⟨guestImageDir, hpath _ _ _ hguestImageDir, ?_⟩
  refine bind_eq_ok_iff.mpr ⟨desiredStateFile, hpath _ _ _ hdesiredStateFile, ?_⟩
  refine bind_eq_ok_iff.mpr ⟨versionsFile, hpath _ _ _ hversionsFile, ?_⟩
  refine bind_eq_ok_iff.mpr ⟨artifactStoreUrl, hstore _ _ _ hartifactStoreUrl, ?_⟩
  refine bind_eq_ok_iff.mpr ⟨storagePrefix,
    readsBack_key (readsBack_storagePrefix _) _ _ hstoragePrefix, ?_⟩
  refine bind_eq_ok_iff.mpr ⟨deniedV4, hcidrs _ _ _ _ hdeniedV4, ?_⟩
  refine bind_eq_ok_iff.mpr ⟨deniedV6, hcidrs _ _ _ _ hdeniedV6, ?_⟩
  refine bind_eq_ok_iff.mpr ⟨exportStoreUrl, hstore _ _ _ hexportStoreUrl, ?_⟩
  refine bind_eq_ok_iff.mpr ⟨exportStagingDir, hpath _ _ _ hexportStagingDir, ?_⟩
  exact bind_eq_ok_iff.mpr ⟨(), hvalid, rfl⟩

end Formats

end Nibrunner.Config

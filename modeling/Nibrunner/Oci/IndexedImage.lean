import Nibrunner.ForStd.Bytes
import Nibrunner.ForStd.IdMap
import Nibrunner.Oci.Image

/-!
# An image is what its index leads to

`Leads` says which manifests the descriptors of an index lead to, over blobs that are what they are
named. An archive that is accepted has exactly one manifest for this kind of host among these; the
layers it is flattened from are that manifest's, and are what its configuration says. So two
archives of one index are flattened alike, unless two of their blobs have one digest.
-/

namespace Nibrunner.OciImage

open Except PathText
open Std (ExtTreeMap)

variable {reader : ImageReader} {files others : Files}

/-! ### Files -/

theorem archivePath_join {cs : List String} (hnames : Names cs) (hne : cs ≠ []) :
    archivePath (.utf8 (join cs)) = .ok (join cs) := by
  have hsplit := split_join hne hnames.plain
  rw [archivePath, if_neg, hsplit, List.filter_eq_self.mpr]
  · intro c hc
    simp [(hnames c hc).ne_empty, (hnames c hc).ne_dot]
  · rw [Bool.or_eq_true, List.contains_iff_mem, hsplit]
    rintro (hstart | hdots)
    · obtain ⟨parts, hparts⟩ := split_of_startsWith hstart
      rw [hsplit] at hparts
      exact (hnames "" (hparts ▸ List.mem_cons_self)).ne_empty rfl
    · exact (hnames ".." hdots).ne_dots rfl

theorem archivePath_blobPath {hash : String} (hhex : isSha256Hex hash = true) :
    archivePath (.utf8 (blobPath hash)) = .ok (blobPath hash) := by
  rw [isSha256Hex, Bool.and_eq_true, List.all_eq_true] at hhex
  obtain ⟨hsize, hchars⟩ := hhex
  -- a hash is long, so it is none of the names that mean something else, and has no separator
  have hname : IsName hash := by
    refine ⟨fun hmem => absurd (hchars '/' hmem) (by decide), ?_, ?_, ?_⟩ <;>
      · rintro rfl
        exact absurd hsize (by decide)
  have hjoin : blobPath hash = join ["blobs", "sha256", hash] := by
    rw [← String.toList_inj]
    simp [blobPath, join, List.intercalate]
  rw [hjoin]
  refine archivePath_join (List.forall_mem_cons.mpr ⟨⟨?_, ?_, ?_, ?_⟩,
    List.forall_mem_cons.mpr ⟨⟨?_, ?_, ?_, ?_⟩, names_singleton.mpr hname⟩⟩)
    (List.cons_ne_nil _ _) <;> decide

theorem archiveFiles_entries (count : ℕ) (files : Files) {l : List ArchivedFile}
    (hpaths : ∀ file ∈ l, archivePath (.utf8 file.1) = .ok file.1) (hnodup : (l.map Prod.fst).Nodup)
    (hnew : ∀ file ∈ l, files[file.1]? = none) (hcount : count + l.length ≤ maxEntries) :
    ∃ all, archiveFiles count files (l.map archivedEntry) = .ok all ∧
      ∀ path bytes, all[path]? = some bytes ↔ files[path]? = some bytes ∨ (path, bytes) ∈ l := by
  induction l generalizing files count with
  | nil => exact ⟨files, rfl, by simp⟩
  | cons file l ih =>
    obtain ⟨path, bytes⟩ := file
    rw [List.map_cons, List.nodup_cons] at hnodup
    rw [List.length_cons] at hcount
    obtain ⟨hpath, hpaths⟩ := List.forall_mem_cons.mp hpaths
    obtain ⟨hhere, hnew⟩ := List.forall_mem_cons.mp hnew
    obtain ⟨all, hall, hfiles⟩ := ih (count + 1) (files.insert path bytes) hpaths
      hnodup.2 (fun other hother => by
        rw [ExtTreeMap.getElem?_insert_ite, if_neg, hnew other hother]
        intro heq
        exact hnodup.1 (List.mem_map.mpr ⟨other, hother, heq.symm⟩)) (by omega)
    refine ⟨all, ?_, fun other content => ?_⟩
    · have hfree : files.contains path = false := by
        rw [← Bool.not_eq_true, ExtTreeMap.contains_iff_mem, ← ExtTreeMap.isSome_getElem?_iff_mem,
          hhere]
        simp
      simp only [List.map_cons, archiveFiles, archivedEntry]
      rw [refuse, if_neg (by omega), hpath]
      simpa [refuse, hfree, bind, Except.bind] using hall
    · rw [hfiles, ExtTreeMap.getElem?_insert_ite, List.mem_cons, Prod.mk.injEq]
      split
      · simp_all [eq_comm]
      · simp_all [eq_comm]

/-! ### Blobs -/

theorem checkedDigest_eq_ok_iff {digest hash : String} :
    checkedDigest digest = .ok hash ↔ digest = "sha256:" ++ hash ∧ isSha256Hex hash = true := by
  simp only [checkedDigest, bind_eq_ok_iff, ofOption_eq_ok_iff, refuse_eq_ok_iff,
    stripSha256?_eq_some_iff, pure, Except.pure, ok.injEq]
  constructor
  · rintro ⟨_, hdigest, _, hhex, rfl⟩
    exact ⟨hdigest, by simpa using hhex⟩
  · rintro ⟨hdigest, hhex⟩
    exact ⟨hash, hdigest, (), by simpa using hhex, rfl⟩

/-- A blob is a file, and of the digest and the size it is named with. -/
theorem blob_eq_ok_iff {descriptor : Descriptor} {bytes : List UInt8} :
    blob reader files descriptor = .ok bytes ↔
      descriptor.digest = "sha256:" ++ reader.sha256 bytes ∧
        isSha256Hex (reader.sha256 bytes) = true ∧ bytes.length = descriptor.size ∧
        files[blobPath (reader.sha256 bytes)]? = some bytes := by
  constructor
  · intro h
    obtain ⟨hash, hhash, h⟩ := bind_eq_ok_iff.mp h
    obtain ⟨found, hfound, h⟩ := bind_eq_ok_iff.mp h
    obtain ⟨_, hmatches, h⟩ := bind_eq_ok_iff.mp h
    obtain rfl : found = bytes := Except.ok.inj h
    obtain ⟨hsize, hsha⟩ := not_or.mp (refuse_eq_ok_iff.mp hmatches)
    obtain rfl := not_not.mp hsha
    obtain ⟨hdigest, hhex⟩ := checkedDigest_eq_ok_iff.mp hhash
    exact ⟨hdigest, hhex, not_not.mp hsize, ofOption_eq_ok_iff.mp hfound⟩
  · rintro ⟨hdigest, hhex, hsize, hfile⟩
    refine bind_eq_ok_iff.mpr ⟨_, checkedDigest_eq_ok_iff.mpr ⟨hdigest, hhex⟩, ?_⟩
    refine bind_eq_ok_iff.mpr ⟨bytes, ofOption_eq_ok_iff.mpr hfile, ?_⟩
    exact bind_eq_ok_iff.mpr ⟨(), refuse_eq_ok_iff.mpr (by simp [hsize]), rfl⟩

/-- Among the files of two archives, none two of which are different have one digest. -/
def Distinct (reader : ImageReader) (files others : Files) : Prop :=
  ∀ (path path' : String) (x y : List UInt8), files[path]? = some x → others[path']? = some y →
    reader.sha256 x = reader.sha256 y → x = y

theorem blob_agrees (hdistinct : Distinct reader files others) {descriptor : Descriptor}
    {bytes bytes' : List UInt8} (h : blob reader files descriptor = .ok bytes)
    (h' : blob reader others descriptor = .ok bytes') : bytes = bytes' := by
  obtain ⟨hdigest, -, -, hfile⟩ := blob_eq_ok_iff.mp h
  obtain ⟨hdigest', -, -, hfile'⟩ := blob_eq_ok_iff.mp h'
  refine hdistinct _ _ _ _ hfile hfile' ?_
  rw [hdigest'] at hdigest
  simpa [← String.toList_inj] using hdigest.symm

/-! ### What an index leads to -/

/-- A descriptor leads to a manifest for this kind of host: it is of the manifest, whose
configuration says so, or of an index with a descriptor that does. -/
inductive Leads (reader : ImageReader) (files : Files) : Descriptor → Manifest → Prop
  | manifest {descriptor : Descriptor} {manifest : Manifest} {bytes configBytes : List UInt8}
    {config : Config} (hplatform : descriptor.platform.any (fun p => !p.supported) = false)
    (hindex : isIndexType descriptor.mediaType = false)
    (htype : isManifestType descriptor.mediaType = true)
    (hblob : blob reader files descriptor = .ok bytes)
    (hread : metadata reader.manifest bytes = .ok manifest)
    (hconfig : isConfigType manifest.config.mediaType = true)
    (hconfigBlob : blob reader files manifest.config = .ok configBytes)
    (hconfigRead : metadata reader.config configBytes = .ok config)
    (hsupported : config.platform.supported = true) : Leads reader files descriptor manifest
  | index {descriptor inner : Descriptor} {manifest : Manifest} {bytes : List UInt8} {index : Index}
    (hplatform : descriptor.platform.any (fun p => !p.supported) = false)
    (hindex : isIndexType descriptor.mediaType = true)
    (hblob : blob reader files descriptor = .ok bytes)
    (hread : metadata reader.index bytes = .ok index) (hmem : inner ∈ index.manifests)
    (h : Leads reader files inner manifest) : Leads reader files descriptor manifest

/-- A search that found what a predicate says, and is not done if that makes two. -/
def Search.Finds (search after : Search) (P : Manifest → Prop) : Prop :=
  (∃ new, after.found = search.found ++ new ∧ ∀ manifest, manifest ∈ new ↔ P manifest) ∧
    (search.found.length ≤ 1 → after.found.length ≤ 1)

theorem Search.finds_nothing {search after : Search} {P : Manifest → Prop}
    (hfound : after.found = search.found) (h : ∀ manifest, ¬P manifest) : search.Finds after P :=
  ⟨⟨[], by simp [hfound], by simp [h]⟩, by simp [hfound]⟩

theorem visitManifest_spec {search after : Search} {descriptor : Descriptor}
    (hplatform : descriptor.platform.any (fun p => !p.supported) = false)
    (hindex : isIndexType descriptor.mediaType = false)
    (htype : isManifestType descriptor.mediaType = true)
    (h : visitManifest reader files search descriptor = .ok after) :
    search.Finds after (Leads reader files descriptor) := by
  obtain ⟨bytes, hblob, h⟩ := bind_eq_ok_iff.mp h
  obtain ⟨manifest, hread, h⟩ := bind_eq_ok_iff.mp h
  -- whatever it leads to is this manifest
  have honly : ∀ other, Leads reader files descriptor other → other = manifest ∧
      isConfigType manifest.config.mediaType = true ∧ ∃ bytes config,
        blob reader files manifest.config = .ok bytes ∧
        metadata reader.config bytes = .ok config ∧ config.platform.supported = true := by
    rintro other (⟨-, -, -, hblob', hread', hconfig, hconfigBlob, hconfigRead, hsupported⟩ |
      ⟨-, hindex', -, -, -, -⟩)
    · rw [hblob] at hblob'
      rw [← Except.ok.inj hblob', hread] at hread'
      obtain rfl := Except.ok.inj hread'
      exact ⟨rfl, hconfig, _, _, hconfigBlob, hconfigRead, hsupported⟩
    · rw [hindex] at hindex'
      simp at hindex'
  split at h
  · rename_i hconfig
    obtain ⟨configBytes, hconfigBlob, h⟩ := bind_eq_ok_iff.mp h
    obtain ⟨config, hconfigRead, h⟩ := bind_eq_ok_iff.mp h
    split at h
    · rename_i hsupported
      obtain ⟨_, hfew, h⟩ := bind_eq_ok_iff.mp h
      obtain rfl := Except.ok.inj h
      have hnone : search.found.length = 0 := by
        have hless := refuse_eq_ok_iff.mp hfew
        omega
      refine ⟨⟨[manifest], rfl, fun other => ?_⟩, fun _ => by simp [hnone]⟩
      rw [List.mem_singleton]
      refine ⟨?_, fun hleads => (honly other hleads).1⟩
      rintro rfl
      exact .manifest hplatform hindex htype hblob hread hconfig hconfigBlob hconfigRead hsupported
    · rename_i hunsupported
      obtain rfl := Except.ok.inj h
      refine Search.finds_nothing rfl fun other hleads => hunsupported ?_
      obtain ⟨-, -, bytes', config', hblob', hread', hsupported⟩ := honly other hleads
      rw [hconfigBlob] at hblob'
      rw [← Except.ok.inj hblob', hconfigRead] at hread'
      rw [Except.ok.inj hread']
      exact hsupported
  · rename_i hconfig
    obtain rfl := Except.ok.inj h
    exact Search.finds_nothing rfl fun other hleads => hconfig (honly other hleads).2.1

section Nested

variable {nested : Index → Search → Except String Search}
  (hnested : ∀ (index : Index) (search after : Search), nested index search = .ok after →
    search.Finds after fun manifest =>
      ∃ descriptor ∈ index.manifests, Leads reader files descriptor manifest)
include hnested

theorem visit_spec {search after : Search} {descriptor : Descriptor}
    (h : visit reader files nested search descriptor = .ok after) :
    search.Finds after (Leads reader files descriptor) := by
  obtain ⟨_, -, h⟩ := bind_eq_ok_iff.mp h
  split at h
  · rename_i hplatform
    obtain rfl := Except.ok.inj h
    refine Search.finds_nothing rfl ?_
    rintro other (⟨hsupported, -, -, -, -, -, -, -, -⟩ | ⟨hsupported, -, -, -, -, -⟩)
    all_goals
      rw [hplatform] at hsupported
      simp at hsupported
  · rename_i hplatform
    rw [Bool.not_eq_true] at hplatform
    split at h
    · rename_i hindex
      obtain ⟨bytes, hblob, h⟩ := bind_eq_ok_iff.mp h
      obtain ⟨index, hread, h⟩ := bind_eq_ok_iff.mp h
      obtain ⟨⟨new, hnew, hleads⟩, hfew⟩ := hnested index _ _ h
      refine ⟨⟨new, hnew, fun manifest => (hleads manifest).trans ⟨?_, ?_⟩⟩, hfew⟩
      · rintro ⟨inner, hmem, h⟩
        exact .index hplatform hindex hblob hread hmem h
      · rintro (⟨-, hindex', -, -, -, -, -, -, -⟩ | ⟨-, -, hblob', hread', hmem, h⟩)
        · rw [hindex] at hindex'
          simp at hindex'
        · rw [hblob] at hblob'
          rw [← Except.ok.inj hblob', hread] at hread'
          exact ⟨_, Except.ok.inj hread' ▸ hmem, h⟩
    · rename_i hindex
      rw [Bool.not_eq_true] at hindex
      split at h
      · rename_i htype
        have hfinds : Search.Finds ⟨search.found, search.remaining - 1⟩ after
            (Leads reader files descriptor) := visitManifest_spec hplatform hindex htype h
        exact hfinds
      · rename_i htype
        obtain rfl := Except.ok.inj h
        refine Search.finds_nothing rfl ?_
        rintro other (⟨-, -, htype', -, -, -, -, -, -⟩ | ⟨-, hindex', -, -, -, -⟩)
        · exact htype htype'
        · rw [hindex] at hindex'
          simp at hindex'

theorem visits_spec {descriptors : List Descriptor} {search after : Search}
    (h : descriptors.foldlM (visit reader files nested) search = .ok after) :
    search.Finds after fun manifest =>
      ∃ descriptor ∈ descriptors, Leads reader files descriptor manifest := by
  induction descriptors generalizing search with
  | nil =>
    obtain rfl := Except.ok.inj h
    exact Search.finds_nothing rfl (by simp)
  | cons descriptor descriptors ih =>
    rw [List.foldlM_cons] at h
    obtain ⟨middle, hvisit, h⟩ := bind_eq_ok_iff.mp h
    obtain ⟨⟨new, hnew, hleads⟩, hfew⟩ := visit_spec hnested hvisit
    obtain ⟨⟨rest, hrest, hothers⟩, hfew'⟩ := ih h
    refine ⟨⟨new ++ rest, by simp [hrest, hnew], fun manifest => ?_⟩, fun hone => hfew' (hfew hone)⟩
    simp [hleads, hothers]

end Nested

theorem manifests_spec {depth : ℕ} {index : Index} {search after : Search}
    (h : manifests reader files depth index search = .ok after) :
    search.Finds after fun manifest =>
      ∃ descriptor ∈ index.manifests, Leads reader files descriptor manifest := by
  induction depth generalizing index search after with
  | zero => simp [manifests] at h
  | succ depth ih =>
    obtain ⟨_, -, h⟩ := bind_eq_ok_iff.mp h
    exact visits_spec (fun _ _ _ => ih) h

/-! ### Layers -/

/-- What a layer is unpacked to: its blob decodes to some content, whose digest the configuration
gives, and which is an archive of some entries. -/
structure Unpacked (reader : ImageReader) (files : Files) (layer : Descriptor × String)
    (content : List UInt8) (entries : List ArchiveEntry) : Prop where
  decodes : ∃ bytes remaining, blob reader files layer.1 = .ok bytes ∧
    decode reader bytes layer.1.mediaType remaining = .ok content
  digest : layer.2 = "sha256:" ++ reader.sha256 content
  entries : reader.entries content = .ok entries

theorem length_decode_le {bytes content : List UInt8} {mediaType : String} {remaining : ℕ}
    (h : decode reader bytes mediaType remaining = .ok content) : content.length ≤ remaining := by
  obtain ⟨decoded, -, h⟩ := bind_eq_ok_iff.mp h
  obtain ⟨_, hfits, h⟩ := bind_eq_ok_iff.mp h
  obtain rfl := Except.ok.inj h
  have hle := refuse_eq_ok_iff.mp hfits
  omega

theorem applyLayers_spec {layers : List (Descriptor × String)} {remaining : ℕ}
    {filesystem after : Filesystem}
    (h : applyLayers reader files remaining filesystem layers = .ok after) :
    ∃ unpacked : List (List UInt8 × List ArchiveEntry),
      List.Forall₂ (fun layer result => Unpacked reader files layer result.1 result.2) layers
        unpacked ∧
      (unpacked.map fun result => result.1.length).sum ≤ remaining ∧
      filesystem.flatten (unpacked.map Prod.snd) = .ok after := by
  induction layers generalizing remaining filesystem with
  | nil =>
    obtain rfl := Except.ok.inj h
    exact ⟨[], .nil, Nat.zero_le _, rfl⟩
  | cons layer layers ih =>
    obtain ⟨descriptor, diffId⟩ := layer
    rw [applyLayers.eq_def] at h
    obtain ⟨bytes, hblob, h⟩ := bind_eq_ok_iff.mp h
    obtain ⟨content, hdecode, h⟩ := bind_eq_ok_iff.mp h
    obtain ⟨hash, hhash, h⟩ := bind_eq_ok_iff.mp h
    obtain ⟨_, hmatches, h⟩ := bind_eq_ok_iff.mp h
    obtain ⟨entries, hentries, h⟩ := bind_eq_ok_iff.mp h
    obtain ⟨middle, happly, h⟩ := bind_eq_ok_iff.mp h
    obtain ⟨unpacked, hunpacked, hsum, hflatten⟩ := ih h
    obtain rfl := not_not.mp (refuse_eq_ok_iff.mp hmatches)
    have hle := length_decode_le hdecode
    refine ⟨(content, entries) :: unpacked, .cons ⟨⟨bytes, remaining, hblob, hdecode⟩,
      (checkedDigest_eq_ok_iff.mp hhash).1, hentries⟩ hunpacked, ?_, ?_⟩
    · simp only [List.map_cons, List.sum_cons]
      omega
    · exact bind_eq_ok_iff.mpr ⟨middle, happly, hflatten⟩

/-! ### The image -/

/-- What an archive that is accepted is flattened from. -/
structure Configured (reader : ImageReader) (archive : List ArchiveEntry)
    (flattened : Filesystem.Flattened) (files : Files) (index : Index) (manifest : Manifest)
    (config : Config) (unpacked : List (List UInt8 × List ArchiveEntry)) : Prop where
  read : archiveFiles 0 ∅ archive = .ok files
  indexed : ∃ bytes, files["index.json"]? = some bytes ∧ metadata reader.index bytes = .ok index
  /-- The index leads to this manifest, and to no other. -/
  only : ∀ other, (∃ descriptor ∈ index.manifests, Leads reader files descriptor other) ↔
    other = manifest
  configured : ∃ bytes, blob reader files manifest.config = .ok bytes ∧
    metadata reader.config bytes = .ok config
  few : manifest.layers.length ≤ maxLayers
  /-- The layers are unpacked to what the configuration says. -/
  layers : List.Forall₂ (fun layer result => Unpacked reader files layer result.1 result.2)
    (manifest.layers.zip config.rootfs.diffIds) unpacked
  all : unpacked.length = manifest.layers.length ∧ unpacked.length = config.rootfs.diffIds.length
  small : (unpacked.map fun result => result.1.length).sum ≤ maxDecodedBytes
  flattens : ∃ filesystem, Filesystem.new.flatten (unpacked.map Prod.snd) = .ok filesystem ∧
    filesystem.finish = .ok flattened

theorem configured_of_flatten {archive : List ArchiveEntry} {flattened : Filesystem.Flattened}
    (h : flatten reader archive = .ok flattened) :
    ∃ files index manifest config unpacked,
      Configured reader archive flattened files index manifest config unpacked := by
  obtain ⟨files, hfiles, h⟩ := bind_eq_ok_iff.mp h
  obtain ⟨layout, -, h⟩ := bind_eq_ok_iff.mp h
  obtain ⟨version, -, h⟩ := bind_eq_ok_iff.mp h
  obtain ⟨_, -, h⟩ := bind_eq_ok_iff.mp h
  obtain ⟨indexBytes, hindexBytes, h⟩ := bind_eq_ok_iff.mp h
  obtain ⟨index, hindex, h⟩ := bind_eq_ok_iff.mp h
  obtain ⟨search, hsearch, h⟩ := bind_eq_ok_iff.mp h
  obtain ⟨manifest, hmanifest, h⟩ := bind_eq_ok_iff.mp h
  obtain ⟨configBytes, hconfigBytes, h⟩ := bind_eq_ok_iff.mp h
  obtain ⟨config, hconfig, h⟩ := bind_eq_ok_iff.mp h
  obtain ⟨_, hagree, h⟩ := bind_eq_ok_iff.mp h
  obtain ⟨filesystem, hlayers, hfinish⟩ := bind_eq_ok_iff.mp h
  obtain ⟨⟨new, hnew, hleads⟩, hone⟩ := manifests_spec hsearch
  obtain ⟨unpacked, hunpacked, hsmall, hflatten⟩ := applyLayers_spec hlayers
  have hagree := refuse_eq_ok_iff.mp hagree
  simp only [not_or, not_not, not_lt] at hagree
  obtain ⟨-, -, hlengths, hfew⟩ := hagree
  -- the one manifest that was found is all that was found
  have hsingle : new = [manifest] := by
    have hlast := ofOption_eq_ok_iff.mp hmanifest
    rw [List.nil_append] at hnew
    rw [hnew] at hlast
    have hlength : new.length ≤ 1 := hnew ▸ hone (Nat.zero_le 1)
    match new, hlast, hlength with
    | [only], hlast, _ => exact congrArg (fun found => [found]) (Option.some.inj hlast)
  have hall := hunpacked.length_eq
  rw [List.length_zip, hlengths, Nat.min_self] at hall
  refine ⟨files, index, manifest, config, unpacked, hfiles,
    ⟨indexBytes, ofOption_eq_ok_iff.mp hindexBytes, hindex⟩, fun other => ?_,
    ⟨configBytes, hconfigBytes, hconfig⟩, hfew, hunpacked,
    ⟨hall.symm, hall.symm.trans hlengths.symm⟩, hsmall, ⟨filesystem, hflatten, hfinish⟩⟩
  exact (hleads other).symm.trans (by rw [hsingle, List.mem_singleton])

/-! ### Two archives of one index -/

section Agreement

variable (hdistinct : Distinct reader files others)
include hdistinct

theorem agrees_blob (descriptor : Descriptor) :
    Agrees (blob reader files descriptor) (blob reader others descriptor) :=
  fun _ _ => blob_agrees hdistinct

theorem agrees_visitManifest (search : Search) (descriptor : Descriptor) :
    Agrees (visitManifest reader files search descriptor)
      (visitManifest reader others search descriptor) := by
  refine (agrees_blob hdistinct descriptor).bind fun bytes => ?_
  refine Agrees.bind (.refl _) fun manifest => ?_
  refine Agrees.ite (Agrees.bind (agrees_blob hdistinct _) fun bytes => ?_) (.refl _)
  exact .refl _

theorem agrees_manifests (depth : ℕ) (index : Index) (search : Search) :
    Agrees (manifests reader files depth index search)
      (manifests reader others depth index search) := by
  induction depth generalizing index search with
  | zero => exact .refl _
  | succ depth ih =>
    refine Agrees.bind (.refl _) fun _ => Agrees.foldlM (fun search descriptor => ?_) _ _
    refine Agrees.bind (.refl _) fun _ => ?_
    refine Agrees.ite (.refl _) (Agrees.ite ?_ (Agrees.ite ?_ (.refl _)))
    · exact (agrees_blob hdistinct descriptor).bind fun bytes =>
        Agrees.bind (.refl _) fun index => ih index _
    · exact agrees_visitManifest hdistinct _ descriptor

theorem agrees_applyLayers (layers : List (Descriptor × String)) (remaining : ℕ)
    (filesystem : Filesystem) :
    Agrees (applyLayers reader files remaining filesystem layers)
      (applyLayers reader others remaining filesystem layers) := by
  induction layers generalizing remaining filesystem with
  | nil => exact .refl _
  | cons layer layers ih =>
    refine (agrees_blob hdistinct layer.1).bind fun bytes => Agrees.bind (.refl _) fun content => ?_
    refine Agrees.bind (.refl _) fun hash => Agrees.bind (.refl _) fun _ => ?_
    exact Agrees.bind (.refl _) fun entries => Agrees.bind (.refl _) fun middle => ih _ middle

end Agreement

/-- **An image is what its index leads to.** If an archive is accepted, its index leads to one
manifest for this kind of host over blobs that are what they are named, and to no other; the layers
of that manifest decode to what its configuration says, to no more than 1 GiB together; and the
filesystem is flattened from them. Any other archive with the same index that is accepted gives the
same filesystem, unless two of their files have one digest. -/
theorem flattened_as_indexed {archive : List ArchiveEntry} {flattened : Filesystem.Flattened}
    (h : flatten reader archive = .ok flattened) :
    (∃ files index manifest config unpacked,
      Configured reader archive flattened files index manifest config unpacked) ∧
    ∀ (archive' : List ArchiveEntry) (flattened' : Filesystem.Flattened) (files files' : Files),
      flatten reader archive' = .ok flattened' → archiveFiles 0 ∅ archive = .ok files →
      archiveFiles 0 ∅ archive' = .ok files' → files["index.json"]? = files'["index.json"]? →
      Distinct reader files files' → flattened' = flattened := by
  refine ⟨configured_of_flatten h, fun archive' flattened' files files' h' hread hread' hindex
    hdistinct => ?_⟩
  obtain ⟨_, hfiles, h⟩ := bind_eq_ok_iff.mp h
  obtain ⟨_, hfiles', h'⟩ := bind_eq_ok_iff.mp h'
  rw [hread] at hfiles
  rw [hread'] at hfiles'
  obtain rfl := Except.ok.inj hfiles
  obtain rfl := Except.ok.inj hfiles'
  obtain ⟨_, -, h⟩ := bind_eq_ok_iff.mp h
  obtain ⟨_, -, h⟩ := bind_eq_ok_iff.mp h
  obtain ⟨_, -, h⟩ := bind_eq_ok_iff.mp h
  obtain ⟨_, -, h'⟩ := bind_eq_ok_iff.mp h'
  obtain ⟨_, -, h'⟩ := bind_eq_ok_iff.mp h'
  obtain ⟨_, -, h'⟩ := bind_eq_ok_iff.mp h'
  rw [← hindex] at h'
  refine (Agrees.bind (.refl _) fun bytes => Agrees.bind (.refl _) fun index => ?_) _ _ h h' |>.symm
  refine (agrees_manifests hdistinct _ index _).bind fun search => ?_
  refine Agrees.bind (.refl _) fun found => ?_
  refine (agrees_blob hdistinct _).bind fun bytes => Agrees.bind (.refl _) fun config => ?_
  refine Agrees.bind (.refl _) fun _ => ?_
  exact (agrees_applyLayers hdistinct _ _ _).bind fun filesystem => .refl _

section Tiny

def tinyLayout : List UInt8 := Bytes.ofText "\x7b\"imageLayoutVersion\":\"1.0.0\"\x7d"

def tinyConfig : List UInt8 :=
  Bytes.ofText ("\x7b\"architecture\":\"amd64\",\"os\":\"linux\",\"rootfs\":" ++
    "\x7b\"type\":\"layers\",\"diff_ids\":[]\x7d\x7d")

def tinyConfigHash : String := "c5b1d63604f273462ef36fadac3182d43ae6a6138731cf594b314835cf1c034f"

def tinyManifest : List UInt8 :=
  Bytes.ofText ("\x7b\"schemaVersion\":2,\"config\":\x7b\"mediaType\":" ++
    "\"application/vnd.oci.image.config.v1+json\",\"digest\":\"sha256:" ++ tinyConfigHash ++
    "\",\"size\":78\x7d,\"layers\":[]\x7d")

def tinyManifestHash : String := "1759f78b8743d258265cbb133c20200946c9f448c8724072beeb7b6703b24cbb"

def tinyIndex : List UInt8 :=
  Bytes.ofText ("\x7b\"schemaVersion\":2,\"manifests\":[\x7b\"mediaType\":" ++
    "\"application/vnd.oci.image.manifest.v1+json\",\"digest\":\"sha256:" ++ tinyManifestHash ++
    "\",\"size\":190\x7d]\x7d")

def tinyDescriptor : Descriptor :=
  ⟨"application/vnd.oci.image.manifest.v1+json", "sha256:" ++ tinyManifestHash, 190, none⟩

def tinyParsed : Manifest :=
  ⟨2, ⟨"application/vnd.oci.image.config.v1+json", "sha256:" ++ tinyConfigHash, 78, none⟩, []⟩

/-- The libraries, on an image without layers. -/
def tinyReader : ImageReader where
  sha256 bytes :=
    if bytes = tinyConfig then tinyConfigHash
    else if bytes = tinyManifest then tinyManifestHash
    else ""
  layout _ := .ok "1.0.0"
  index _ := .ok ⟨2, [tinyDescriptor]⟩
  manifest _ := .ok tinyParsed
  config _ := .ok ⟨⟨"amd64", "linux"⟩, ⟨"layers", []⟩⟩
  decoded _ bytes limit := .ok (bytes.take limit)
  entries _ := .ok []

def tinyFiles : List ArchivedFile :=
  [("oci-layout", tinyLayout), ("index.json", tinyIndex), (blobPath tinyManifestHash, tinyManifest),
    (blobPath tinyConfigHash, tinyConfig)]

theorem archiveFiles_tiny : ∃ files, archiveFiles 0 ∅ (tinyFiles.map archivedEntry) = .ok files ∧
    (∀ file ∈ tinyFiles, files[file.1]? = some file.2) ∧
    blob tinyReader files tinyDescriptor = .ok tinyManifest ∧
    blob tinyReader files tinyParsed.config = .ok tinyConfig := by
  have hhex : isSha256Hex tinyManifestHash = true ∧ isSha256Hex tinyConfigHash = true := by
    decide +kernel
  have hsha : tinyReader.sha256 tinyManifest = tinyManifestHash ∧
      tinyReader.sha256 tinyConfig = tinyConfigHash := by decide +kernel
  have hlength : tinyManifest.length = 190 ∧ tinyConfig.length = 78 := by decide +kernel
  have hpaths : ∀ file ∈ tinyFiles, archivePath (.utf8 file.1) = .ok file.1 := by
    simp only [tinyFiles, List.forall_mem_cons]
    exact ⟨by decide, by decide, archivePath_blobPath hhex.1, archivePath_blobPath hhex.2, by simp⟩
  obtain ⟨files, hfiles, hread⟩ := archiveFiles_entries 0 ∅ hpaths
    (by decide +kernel) (by simp) (by decide)
  have hfile : ∀ file ∈ tinyFiles, files[file.1]? = some file.2 := fun file hfile =>
    (hread file.1 file.2).mpr (.inr hfile)
  have hmanifest := hfile (blobPath tinyManifestHash, tinyManifest) (by simp [tinyFiles])
  have hconfig := hfile (blobPath tinyConfigHash, tinyConfig) (by simp [tinyFiles])
  refine ⟨files, hfiles, hfile, ?_, ?_⟩
  · rw [blob_eq_ok_iff, hsha.1]
    exact ⟨rfl, hhex.1, hlength.1, hmanifest⟩
  · rw [blob_eq_ok_iff, hsha.2]
    exact ⟨rfl, hhex.2, hlength.2, hconfig⟩

theorem exists_flatten_tiny :
    ∃ flattened, flatten tinyReader (tinyFiles.map archivedEntry) = .ok flattened := by
  obtain ⟨files, hfiles, hfile, hmanifest, hconfig⟩ := archiveFiles_tiny
  have hsmall : tinyLayout.length ≤ maxMetadataBytes ∧ tinyIndex.length ≤ maxMetadataBytes ∧
      tinyManifest.length ≤ maxMetadataBytes ∧ tinyConfig.length ≤ maxMetadataBytes := by
    decide +kernel
  have hmetadata : ∀ {α : Type} {read : List UInt8 → Except String α} {bytes : List UInt8} {a : α},
      bytes.length ≤ maxMetadataBytes → read bytes = .ok a → metadata read bytes = .ok a :=
    fun hle hread => bind_eq_ok_iff.mpr ⟨(), refuse_eq_ok_iff.mpr (Nat.not_lt.mpr hle), hread⟩
  have hsearch : manifests tinyReader files (maxIndexDepth + 1) ⟨2, [tinyDescriptor]⟩
      ⟨[], maxEntries⟩ = .ok ⟨[tinyParsed], maxEntries - 1⟩ := by
    refine bind_eq_ok_iff.mpr ⟨(), refuse_eq_ok_iff.mpr (by decide), ?_⟩
    rw [List.foldlM_cons]
    refine bind_eq_ok_iff.mpr ⟨⟨[tinyParsed], maxEntries - 1⟩, ?_, rfl⟩
    refine bind_eq_ok_iff.mpr ⟨(), refuse_eq_ok_iff.mpr (by decide), ?_⟩
    rw [if_neg (by decide), if_neg (by decide), if_pos (by decide)]
    refine bind_eq_ok_iff.mpr ⟨_, hmanifest, bind_eq_ok_iff.mpr ⟨_, hmetadata hsmall.2.2.1 rfl, ?_⟩⟩
    rw [if_pos (by decide)]
    refine bind_eq_ok_iff.mpr ⟨_, hconfig, bind_eq_ok_iff.mpr ⟨_, hmetadata hsmall.2.2.2 rfl, ?_⟩⟩
    rw [if_pos (by decide)]
    exact bind_eq_ok_iff.mpr ⟨(), refuse_eq_ok_iff.mpr (by decide), rfl⟩
  refine ⟨⟨[⟨".", ⟨0o755, 0, 0, 0⟩, [], .directory⟩], 0, 1⟩, bind_eq_ok_iff.mpr ⟨files, hfiles, ?_⟩⟩
  have hlayoutFile := hfile ("oci-layout", tinyLayout) List.mem_cons_self
  have hindexFile := hfile ("index.json", tinyIndex) (List.mem_cons_of_mem _ List.mem_cons_self)
  refine bind_eq_ok_iff.mpr ⟨tinyLayout, ofOption_eq_ok_iff.mpr hlayoutFile, ?_⟩
  refine bind_eq_ok_iff.mpr ⟨"1.0.0", hmetadata hsmall.1 rfl, ?_⟩
  refine bind_eq_ok_iff.mpr ⟨(), refuse_eq_ok_iff.mpr (by simp), ?_⟩
  refine bind_eq_ok_iff.mpr ⟨tinyIndex, ofOption_eq_ok_iff.mpr hindexFile, ?_⟩
  refine bind_eq_ok_iff.mpr ⟨_, hmetadata hsmall.2.1 rfl, ?_⟩
  refine bind_eq_ok_iff.mpr ⟨_, hsearch, bind_eq_ok_iff.mpr ⟨tinyParsed, rfl, ?_⟩⟩
  refine bind_eq_ok_iff.mpr ⟨_, hconfig, bind_eq_ok_iff.mpr ⟨_, hmetadata hsmall.2.2.2 rfl, ?_⟩⟩
  exact bind_eq_ok_iff.mpr ⟨(), refuse_eq_ok_iff.mpr (by decide), rfl⟩

theorem flattened_as_indexed_tiny : ∃ flattened files index manifest config unpacked,
    flatten tinyReader (tinyFiles.map archivedEntry) = .ok flattened ∧
    Configured tinyReader (tinyFiles.map archivedEntry) flattened files index manifest config
      unpacked := by
  obtain ⟨flattened, hflatten⟩ := exists_flatten_tiny
  obtain ⟨files, index, manifest, config, unpacked, h⟩ := (flattened_as_indexed hflatten).1
  exact ⟨flattened, files, index, manifest, config, unpacked, hflatten, h⟩

end Tiny

end Nibrunner.OciImage

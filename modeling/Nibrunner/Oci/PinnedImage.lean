import Mathlib.Algebra.Order.BigOperators.Group.List
import Nibrunner.Oci.IndexedImage
import Nibrunner.Oci.Registry

/-!
# A pulled image is what its digest says

Whatever was pulled of some registry would have been pulled of a `mirror`, one that always answers
with the same contents by their digests, if it holds what was received: each answer was checked, and
the checks look at nothing else. So two pulls of one digest are both those of a mirror that holds
what either received, and give one image (`pulled_by_digest`).
-/

namespace Nibrunner.OciRegistry

open Except OciImage

variable {libraries : Libraries} {network : Network} {session later : Session}

theorem sha256_eq_ok_iff {digest hash : String} :
    sha256 digest = .ok hash ↔ digest = "sha256:" ++ hash ∧ isSha256Hex hash = true := by
  simp only [sha256, bind_eq_ok_iff, ofOption_eq_ok_iff, refuse_eq_ok_iff, stripSha256?_eq_some_iff,
    pure, Except.pure, ok.injEq]
  constructor
  · rintro ⟨_, hdigest, _, hhex, rfl⟩
    exact ⟨hdigest, by simpa using hhex⟩
  · rintro ⟨hdigest, hhex⟩
    exact ⟨hash, hdigest, (), by simpa using hhex, rfl⟩

theorem verified_eq_ok_iff {bytes : List UInt8} {digest : String} {u : Unit} :
    verified libraries bytes digest = .ok u ↔ digest = digestOf libraries bytes := by
  simp [verified, refuse_eq_ok_iff]

/-- A download ends with what one of its requests was answered. -/
theorem exists_of_download {α : Type} {request : ℕ → Except OciDistributionError α}
    {retries sent after : ℕ} {value : α} (h : download request retries sent = .ok (value, after)) :
    ∃ asked, request asked = .ok value := by
  induction retries generalizing sent with
  | zero =>
    rw [download.eq_def] at h
    cases hrequest : request sent with
    | ok answer =>
      obtain ⟨rfl, -⟩ : answer = value ∧ _ := by simpa [hrequest] using h
      exact ⟨sent, hrequest⟩
    | error e => simp [hrequest] at h
  | succ retries ih =>
    rw [download.eq_def] at h
    cases hrequest : request sent with
    | ok answer =>
      obtain ⟨rfl, -⟩ : answer = value ∧ _ := by simpa [hrequest] using h
      exact ⟨sent, hrequest⟩
    | error e =>
      simp only [hrequest] at h
      split at h
      · exact ih h
      · simp at h

theorem download_of_forall {α : Type} {request : ℕ → Except OciDistributionError α} {value : α}
    (h : ∀ sent, request sent = .ok value) (retries sent : ℕ) :
    download request retries sent = .ok (value, sent + 1) := by
  rw [download.eq_def, h]

theorem length_of_collect {size : ℕ} {bytes whole : List UInt8}
    {chunks : List (Except OciDistributionError (List UInt8))}
    (h : collect size bytes chunks = .ok whole) : whole.length = size := by
  induction chunks generalizing bytes with
  | nil =>
    obtain ⟨_, hsize, h⟩ := bind_eq_ok_iff.mp h
    obtain rfl : bytes = whole := Except.ok.inj h
    exact not_not.mp (refuse_eq_ok_iff.mp hsize)
  | cons chunk chunks ih =>
    obtain ⟨_, -, h⟩ := bind_eq_ok_iff.mp h
    obtain ⟨_, -, h⟩ := bind_eq_ok_iff.mp h
    exact ih h

theorem collect_whole (bytes : List UInt8) : collect bytes.length [] [.ok bytes] = .ok bytes := by
  simp [collect, refuse, pure, Except.pure, bind, Except.bind]

/-! ### A mirror -/

/-- A registry that always answers with the same contents, by their digests. -/
def mirror (contents : String → Option (List UInt8)) : Network where
  pullManifestRaw _ reference := ofOption .other (contents reference.digest)
  pullBlobStream _ _ descriptor :=
    (ofOption .other (contents descriptor.digest)).map fun bytes => [.ok bytes]

/-- Contents that hold some bytes, each under its digest. -/
def Holds (libraries : Libraries) (contents : String → Option (List UInt8))
    (received : List (List UInt8)) : Prop :=
  ∀ bytes ∈ received, contents (digestOf libraries bytes) = some bytes

section Blobs

variable {image : Reference} {descriptor : OciDescriptor} {bytes : List UInt8}

theorem blob_spec (h : blob libraries network image descriptor session = .ok (bytes, later)) :
    0 ≤ descriptor.size ∧ bytes.length = descriptor.size.toNat ∧
      descriptor.digest = digestOf libraries bytes ∧
      later.received = session.received ++ [bytes] := by
  obtain ⟨_, hsize, h⟩ := bind_eq_ok_iff.mp h
  obtain ⟨⟨got, sent⟩, hdownload, h⟩ := bind_eq_ok_iff.mp h
  obtain ⟨_, hverified, h⟩ := bind_eq_ok_iff.mp h
  obtain ⟨rfl, rfl⟩ := Prod.mk.inj (Except.ok.inj h)
  obtain ⟨asked, hasked⟩ := exists_of_download hdownload
  obtain ⟨chunks, -, hcollect⟩ := bind_eq_ok_iff.mp hasked
  exact ⟨not_lt.mp (refuse_eq_ok_iff.mp hsize), length_of_collect hcollect,
    verified_eq_ok_iff.mp hverified, rfl⟩

/-- A blob that was had of some registry is had of a mirror that holds it. -/
theorem blob_mirror (h : blob libraries network image descriptor session = .ok (bytes, later))
    {contents : String → Option (List UInt8)}
    (hcontents : contents (digestOf libraries bytes) = some bytes)
    (other : Reference) (start : Session) :
    ∃ next, blob libraries (mirror contents) other descriptor start = .ok (bytes, next) := by
  obtain ⟨hsize, hlength, hdigest, -⟩ := blob_spec h
  have hheld : contents descriptor.digest = some bytes := by
    rw [hdigest, hcontents]
  refine ⟨⟨start.sent + 1, start.received ++ [bytes]⟩, ?_⟩
  refine bind_eq_ok_iff.mpr ⟨(), refuse_eq_ok_iff.mpr (not_lt.mpr hsize), ?_⟩
  refine bind_eq_ok_iff.mpr ⟨(bytes, start.sent + 1), download_of_forall (fun sent => ?_) _ _, ?_⟩
  · refine bind_eq_ok_iff.mpr ⟨[.ok bytes], ?_, ?_⟩
    · simp [mirror, hheld, ofOption, Except.map]
    · rw [← hlength]
      exact collect_whole bytes
  · exact bind_eq_ok_iff.mpr ⟨(), verified_eq_ok_iff.mpr hdigest, rfl⟩

end Blobs

/-! ### The blobs of an image -/

/-- What appending the blobs of some descriptors does to an archive. -/
structure Appended (libraries : Libraries) (descriptors : List OciDescriptor)
    (assembly after : Assembly) (blobs : List (List UInt8)) : Prop where
  archive : after.archive =
    assembly.archive ++ blobs.map fun bytes => (blobPath (libraries.sha256 bytes), bytes)
  held : after.held = assembly.held ++ blobs.map (digestOf libraries)
  remaining : after.remaining + (blobs.map List.length).sum = assembly.remaining
  fetched : after.fetchedBytes = assembly.fetchedBytes + (blobs.map List.length).sum
  hex : ∀ bytes ∈ blobs, isSha256Hex (libraries.sha256 bytes) = true
  named : ∀ bytes ∈ blobs, ∃ descriptor ∈ descriptors,
    descriptor.digest = digestOf libraries bytes ∧ descriptor.size = bytes.length
  complete : ∀ descriptor ∈ descriptors, descriptor.digest ∈ after.held
  nodup : assembly.held.Nodup → after.held.Nodup
  count : blobs.length ≤ descriptors.length

theorem appended_nil (assembly : Assembly) : Appended libraries [] assembly assembly [] where
  archive := by simp
  held := by simp
  remaining := by simp
  fetched := by simp
  hex := by simp
  named := by simp
  complete := by simp
  nodup := id
  count := le_rfl

theorem Appended.skip {descriptor : OciDescriptor} {descriptors : List OciDescriptor}
    {assembly after : Assembly} {blobs : List (List UInt8)}
    (h : Appended libraries descriptors assembly after blobs)
    (hheld : descriptor.digest ∈ assembly.held) :
    Appended libraries (descriptor :: descriptors) assembly after blobs where
  archive := h.archive
  held := h.held
  remaining := h.remaining
  fetched := h.fetched
  hex := h.hex
  named bytes hbytes :=
    let ⟨named, hmem, hdigest⟩ := h.named bytes hbytes
    ⟨named, List.mem_cons_of_mem _ hmem, hdigest⟩
  complete := by
    refine List.forall_mem_cons.mpr ⟨?_, h.complete⟩
    rw [h.held]
    exact List.mem_append_left _ hheld
  nodup := h.nodup
  count := Nat.le_succ_of_le h.count

theorem Appended.append {descriptor : OciDescriptor} {descriptors : List OciDescriptor}
    {assembly after : Assembly} {bytes : List UInt8} {blobs : List (List UInt8)}
    (h : Appended libraries descriptors
      (assembly.append descriptor (libraries.sha256 bytes) bytes) after blobs)
    (hsize : descriptor.size = bytes.length)
    (hfits : descriptor.size.toNat ≤ assembly.remaining)
    (hnew : descriptor.digest ∉ assembly.held)
    (hdigest : descriptor.digest = digestOf libraries bytes)
    (hhex : isSha256Hex (libraries.sha256 bytes) = true) :
    Appended libraries (descriptor :: descriptors) assembly after (bytes :: blobs) where
  archive := by simp [h.archive, Assembly.append]
  held := by simp [h.held, Assembly.append, hdigest]
  remaining := by
    have hremaining := h.remaining
    simp only [Assembly.append] at hremaining
    simp only [List.map_cons, List.sum_cons]
    omega
  fetched := by simp [h.fetched, Assembly.append, hsize, Nat.add_assoc]
  hex := List.forall_mem_cons.mpr ⟨hhex, h.hex⟩
  named := by
    refine List.forall_mem_cons.mpr ⟨⟨descriptor, List.mem_cons_self, hdigest, hsize⟩, ?_⟩
    intro other hother
    obtain ⟨named, hmem, hdigest⟩ := h.named other hother
    exact ⟨named, List.mem_cons_of_mem _ hmem, hdigest⟩
  complete := by
    refine List.forall_mem_cons.mpr ⟨?_, h.complete⟩
    simp [h.held, Assembly.append]
  nodup hnodup := h.nodup (List.nodup_append.mpr ⟨hnodup, List.nodup_singleton _, by
    rintro digest hmem other hother rfl
    exact hnew (List.mem_singleton.mp hother ▸ hmem)⟩)
  count := Nat.succ_le_succ h.count

/-- A descriptor that is admitted has a digest with a hash, and is not too large. -/
theorem admit_spec {assembly : Assembly} {index : ℕ} {descriptor : OciDescriptor} {hash : String}
    (h : assembly.admit index descriptor = .ok hash) :
    descriptor.digest = "sha256:" ++ hash ∧ isSha256Hex hash = true ∧
      descriptor.size.toNat ≤ assembly.remaining := by
  obtain ⟨_, hhash, h⟩ := bind_eq_ok_iff.mp h
  obtain ⟨_, -, h⟩ := bind_eq_ok_iff.mp h
  obtain ⟨_, hsize, h⟩ := bind_eq_ok_iff.mp h
  obtain rfl := Except.ok.inj h
  obtain ⟨hdigest, hhex⟩ := sha256_eq_ok_iff.mp hhash
  exact ⟨hdigest, hhex, not_lt.mp (not_or.mp (refuse_eq_ok_iff.mp hsize)).1⟩

theorem digest_injective {hash : String} {bytes : List UInt8}
    (h : "sha256:" ++ hash = digestOf libraries bytes) : hash = libraries.sha256 bytes := by
  simpa [digestOf, ← String.toList_inj] using h

theorem appendBlobs_spec {image : Reference} {index : ℕ} {descriptors : List OciDescriptor}
    {assembly after : Assembly}
    (h : appendBlobs libraries network image index descriptors assembly session =
      .ok (after, later)) :
    ∃ blobs, Appended libraries descriptors assembly after blobs ∧
      later.received = session.received ++ blobs ∧
      ∀ contents, Holds libraries contents blobs → ∀ (other : Reference) (start : Session),
        ∃ next, appendBlobs libraries (mirror contents) other index descriptors assembly start =
          .ok (after, next) := by
  induction descriptors generalizing index assembly session with
  | nil =>
    obtain ⟨rfl, rfl⟩ := Prod.mk.inj (Except.ok.inj h)
    exact ⟨[], appended_nil _, by simp, fun _ _ _ start => ⟨start, rfl⟩⟩
  | cons descriptor descriptors ih =>
    rw [appendBlobs.eq_def] at h
    obtain ⟨hash, hadmit, h⟩ := bind_eq_ok_iff.mp h
    obtain ⟨hdigest, hhex, hfits⟩ := admit_spec hadmit
    by_cases hheld : descriptor.digest ∈ assembly.held
    · rw [if_pos hheld] at h
      obtain ⟨blobs, happended, hreceived, hmirror⟩ := ih h
      refine ⟨blobs, happended.skip hheld, hreceived, fun contents hcontents other start => ?_⟩
      obtain ⟨next, hnext⟩ := hmirror contents hcontents other start
      refine ⟨next, bind_eq_ok_iff.mpr ⟨hash, hadmit, ?_⟩⟩
      rw [if_pos hheld, hnext]
    · rw [if_neg hheld] at h
      obtain ⟨⟨bytes, middle⟩, hblob, h⟩ := bind_eq_ok_iff.mp h
      obtain ⟨hpos, hlength, hbytes, hmiddle⟩ := blob_spec hblob
      obtain ⟨blobs, happended, hreceived, hmirror⟩ := ih h
      obtain rfl : hash = libraries.sha256 bytes := digest_injective (hdigest.symm.trans hbytes)
      refine ⟨bytes :: blobs, happended.append (by omega) hfits hheld hbytes hhex, ?_, ?_⟩
      · simp [hreceived, hmiddle]
      · intro contents hcontents other start
        obtain ⟨hhere, hrest⟩ := List.forall_mem_cons.mp hcontents
        obtain ⟨next, hnext⟩ := blob_mirror hblob hhere other start
        obtain ⟨last, hlast⟩ := hmirror contents hrest other next
        refine ⟨last, bind_eq_ok_iff.mpr ⟨_, hadmit, ?_⟩⟩
        rw [if_neg hheld]
        exact bind_eq_ok_iff.mpr ⟨(bytes, next), hnext, hlast⟩

/-! ### The manifest of an image -/

/-- How a digest pins a manifest, and the bytes it was read from: it is that of the bytes, or of an
index whose one entry for this kind of host pins it. -/
inductive Pins (libraries : Libraries) : String → OciImageManifest → List UInt8 → Prop
  | image {bytes : List UInt8} {manifest : OciImageManifest} {contentType : String}
    (hread : libraries.manifest bytes = some (.image manifest, contentType)) :
    Pins libraries (digestOf libraries bytes) manifest bytes
  | index {bytes found : List UInt8} {index : OciImageIndex} {contentType : String}
    {entry : OciDescriptor} {manifest : OciImageManifest}
    (hread : libraries.manifest bytes = some (.imageIndex index, contentType))
    (hentry : index.entry = .ok entry) (h : Pins libraries entry.digest manifest found) :
    Pins libraries (digestOf libraries bytes) manifest found

/-- What finding a manifest from a reference on takes. -/
structure Located (libraries : Libraries) (answers : ℕ) (reference : Reference)
    (fetchedBytes : ℕ) (found : Found) (metadata : List (List UInt8)) : Prop where
  pins : Pins libraries reference.digest found.manifest found.bytes
  fetched : found.fetchedBytes = fetchedBytes + (metadata.map List.length).sum
  count : metadata.length ≤ answers
  small : ∀ bytes ∈ metadata, bytes.length ≤ maximumMetadataBytes

/-- An answer that passes the checks is of its digest, and passes them again from a mirror. -/
theorem pinnedManifest_spec {reference : Reference} {expectedSize : Option ℤ}
    {manifest : OciManifest} {bytes : List UInt8}
    (h : pinnedManifest libraries network reference expectedSize session =
      .ok ((manifest, bytes), later)) :
    reference.digest = digestOf libraries bytes ∧ bytes.length ≤ maximumMetadataBytes ∧
      (∃ contentType, libraries.manifest bytes = some (manifest, contentType)) ∧
      later.received = session.received ++ [bytes] ∧
      ∀ contents, contents (digestOf libraries bytes) = some bytes →
        ∀ (repository : String) (start : Session),
          ∃ next, pinnedManifest libraries (mirror contents) ⟨repository, reference.digest⟩
            expectedSize start = .ok ((manifest, bytes), next) := by
  obtain ⟨⟨got, sent⟩, hdownload, h⟩ := bind_eq_ok_iff.mp h
  obtain ⟨_, hsize, h⟩ := bind_eq_ok_iff.mp h
  obtain ⟨hash, hhash, h⟩ := bind_eq_ok_iff.mp h
  obtain ⟨_, hverified, h⟩ := bind_eq_ok_iff.mp h
  obtain ⟨⟨_, contentType⟩, hread, h⟩ := bind_eq_ok_iff.mp h
  obtain ⟨_, htype, h⟩ := bind_eq_ok_iff.mp h
  obtain ⟨⟨rfl, rfl⟩, rfl⟩ : (_ = manifest ∧ got = bytes) ∧ _ = later := by
    simpa [pure, Except.pure] using h
  have hdigest := verified_eq_ok_iff.mp hverified
  refine ⟨hdigest, not_lt.mp (not_or.mp (refuse_eq_ok_iff.mp hsize)).1,
    ⟨contentType, ofOption_eq_ok_iff.mp hread⟩, rfl, fun contents hheld repository start => ?_⟩
  refine ⟨⟨start.sent + 1, start.received ++ [got]⟩, ?_⟩
  refine bind_eq_ok_iff.mpr ⟨(got, start.sent + 1), download_of_forall (fun sent => ?_) _ _, ?_⟩
  · simp [mirror, hdigest, hheld, ofOption]
  · exact bind_eq_ok_iff.mpr ⟨(), hsize, bind_eq_ok_iff.mpr ⟨hash, hhash,
      bind_eq_ok_iff.mpr ⟨(), hverified, bind_eq_ok_iff.mpr ⟨(_, contentType), hread,
        bind_eq_ok_iff.mpr ⟨(), htype, rfl⟩⟩⟩⟩⟩

theorem imageManifest_spec {answers fetchedBytes : ℕ} {reference : Reference}
    {expectedSize : Option ℤ} {found : Found}
    (h : imageManifest libraries network answers reference expectedSize fetchedBytes session =
      .ok (found, later)) :
    ∃ metadata, Located libraries answers reference fetchedBytes found metadata ∧
      later.received = session.received ++ metadata ∧
      ∀ contents, Holds libraries contents metadata → ∀ (repository : String) (start : Session),
        ∃ next, imageManifest libraries (mirror contents) answers ⟨repository, reference.digest⟩
          expectedSize fetchedBytes start = .ok (found, next) := by
  induction answers generalizing reference expectedSize fetchedBytes session with
  | zero => simp [imageManifest] at h
  | succ answers ih =>
    rw [imageManifest.eq_def] at h
    obtain ⟨⟨⟨manifest, bytes⟩, middle⟩, hpinned, h⟩ := bind_eq_ok_iff.mp h
    obtain ⟨hdigest, hsmall, ⟨contentType, hread⟩, hmiddle, hagain⟩ := pinnedManifest_spec hpinned
    match manifest with
    | .image manifest =>
      obtain ⟨_, hversion, h⟩ := bind_eq_ok_iff.mp h
      obtain ⟨rfl, rfl⟩ := Prod.mk.inj (Except.ok.inj h)
      refine ⟨[bytes], ⟨?_, by simp, by simp, by simpa using hsmall⟩, hmiddle, ?_⟩
      · rw [hdigest]
        exact .image hread
      · intro contents hcontents repository start
        have hheld := hcontents bytes List.mem_cons_self
        obtain ⟨next, hnext⟩ := hagain contents hheld repository start
        exact ⟨next, bind_eq_ok_iff.mpr ⟨_, hnext, bind_eq_ok_iff.mpr ⟨(), hversion, rfl⟩⟩⟩
    | .imageIndex index =>
      obtain ⟨_, hversion, h⟩ := bind_eq_ok_iff.mp h
      obtain ⟨entry, hentry, h⟩ := bind_eq_ok_iff.mp h
      obtain ⟨inner, hinner, h⟩ := bind_eq_ok_iff.mp h
      obtain ⟨metadata, hlocated, hreceived, hmirror⟩ := ih h
      refine ⟨bytes :: metadata, ⟨?_, ?_, ?_, ?_⟩, by simp [hreceived, hmiddle], ?_⟩
      · rw [hdigest]
        exact .index hread hentry hlocated.pins
      · simp [hlocated.fetched, Nat.add_assoc]
      · exact Nat.succ_le_succ hlocated.count
      · exact List.forall_mem_cons.mpr ⟨hsmall, hlocated.small⟩
      · intro contents hcontents repository start
        obtain ⟨hhere, hrest⟩ := List.forall_mem_cons.mp hcontents
        obtain ⟨next, hnext⟩ := hagain contents hhere repository start
        obtain ⟨last, hlast⟩ := hmirror contents hrest repository next
        exact ⟨last, bind_eq_ok_iff.mpr ⟨_, hnext, bind_eq_ok_iff.mpr ⟨(), hversion,
          bind_eq_ok_iff.mpr ⟨entry, hentry, bind_eq_ok_iff.mpr ⟨inner, hinner, hlast⟩⟩⟩⟩⟩

/-! ### A pulled image -/

/-- What an image that was pulled by a digest is: the blobs of a manifest that the digest pins,
each of its size and under its own digest. -/
structure Pulled (libraries : Libraries) (digest : String) (image : PulledImage)
    (received : List (List UInt8)) (manifest : OciImageManifest) (bytes : List UInt8)
    (blobs : List (List UInt8)) : Prop where
  pins : Pins libraries ("sha256:" ++ digest) manifest bytes
  archive : ∃ index, image.archive = ("oci-layout", ociLayout) :: ("index.json", index) ::
    (bytes :: blobs).map fun content => (blobPath (libraries.sha256 content), content)
  /-- It reads as it was put together. -/
  files : ∃ files, archiveFiles 0 ∅ image.entries = .ok files ∧
    ∀ path content, files[path]? = some content ↔ (path, content) ∈ image.archive
  named : ∀ content ∈ blobs, ∃ descriptor ∈ manifest.config :: manifest.layers,
    descriptor.digest = digestOf libraries content ∧ descriptor.size = content.length
  complete : ∀ descriptor ∈ manifest.config :: manifest.layers,
    ∃ content ∈ bytes :: blobs, digestOf libraries content = descriptor.digest
  small : (blobs.map List.length).sum ≤ maximumTransferBytes
  fetched : image.fetchedBytes = (received.map List.length).sum
  fetched_le :
    image.fetchedBytes ≤ (maximumIndexDepth + 1) * maximumMetadataBytes + maximumTransferBytes

/-- The files of a pulled image are all there when it is read. -/
theorem exists_files {index bytes : List UInt8} {blobs : List (List UInt8)}
    (hhex : ∀ content ∈ bytes :: blobs, isSha256Hex (libraries.sha256 content) = true)
    (hnodup : ((bytes :: blobs).map (digestOf libraries)).Nodup) (hcount : blobs.length ≤ 129)
    {image : PulledImage}
    (harchive : image.archive = ("oci-layout", ociLayout) :: ("index.json", index) ::
      (bytes :: blobs).map fun content => (blobPath (libraries.sha256 content), content)) :
    ∃ files, archiveFiles 0 ∅ image.entries = .ok files ∧
      ∀ path content, files[path]? = some content ↔ (path, content) ∈ image.archive := by
  have hblobs : ∀ {path : String} {contents : List (List UInt8)},
      path ∈ contents.map (fun content => blobPath (libraries.sha256 content)) →
        path ≠ "oci-layout" ∧ path ≠ "index.json" := by
    intro path contents hpath
    obtain ⟨content, -, rfl⟩ := List.mem_map.mp hpath
    simp [blobPath, ← String.toList_inj]
  have hpaths : ∀ file ∈ image.archive, archivePath (.utf8 file.1) = .ok file.1 := by
    rw [harchive]
    have hlayout : archivePath (.utf8 "oci-layout") = .ok "oci-layout" := by decide
    have hindex : archivePath (.utf8 "index.json") = .ok "index.json" := by decide
    refine List.forall_mem_cons.mpr ⟨hlayout, List.forall_mem_cons.mpr ⟨hindex, ?_⟩⟩
    intro file hfile
    obtain ⟨content, hcontent, rfl⟩ := List.mem_map.mp hfile
    exact archivePath_blobPath (hhex content hcontent)
  have hdistinct : (image.archive.map Prod.fst).Nodup := by
    rw [harchive, List.map_cons, List.map_cons, List.map_map]
    refine List.nodup_cons.mpr ⟨?_, List.nodup_cons.mpr ⟨fun h => (hblobs h).2 rfl, ?_⟩⟩
    · rw [List.mem_cons, not_or]
      exact ⟨(by decide : "oci-layout" ≠ "index.json"), fun h => (hblobs h).1 rfl⟩
    · -- two blobs of one path would be of one digest
      rw [List.Nodup, List.pairwise_map] at hnodup ⊢
      refine hnodup.imp fun {x y} hne heq => hne ?_
      have hhash : libraries.sha256 x = libraries.sha256 y := by
        simpa [blobPath, ← String.toList_inj] using heq
      rw [digestOf, hhash, digestOf]
  have hfew : 0 + image.archive.length ≤ maxEntries := by
    rw [harchive]
    simp only [List.length_cons, List.length_map, maxEntries]
    omega
  obtain ⟨files, hfiles, hread⟩ :=
    archiveFiles_entries 0 ∅ hpaths hdistinct (by simp) hfew
  exact ⟨files, hfiles, fun path content => by simpa using hread path content⟩

theorem pulled_of_pullWith {digest repository : String} {image : PulledImage}
    (h : pullWith libraries network ⟨repository, "sha256:" ++ digest⟩ session =
      .ok (image, later)) :
    ∃ received, later.received = session.received ++ received ∧
      (∃ manifest bytes blobs, Pulled libraries digest image received manifest bytes blobs) ∧
      ∀ contents, Holds libraries contents received → ∀ (other : String) (start : Session),
        ∃ next, pullWith libraries (mirror contents) ⟨other, "sha256:" ++ digest⟩ start =
          .ok (image, next) := by
  obtain ⟨⟨found, middle⟩, hmanifest, h⟩ := bind_eq_ok_iff.mp h
  obtain ⟨_, hlayers, h⟩ := bind_eq_ok_iff.mp h
  obtain ⟨hash, hhash, h⟩ := bind_eq_ok_iff.mp h
  obtain ⟨⟨assembly, last⟩, hblobs, h⟩ := bind_eq_ok_iff.mp h
  obtain ⟨rfl, rfl⟩ := Prod.mk.inj (Except.ok.inj h)
  obtain ⟨metadata, hlocated, hmiddle, hagain⟩ := imageManifest_spec hmanifest
  obtain ⟨blobs, happended, hlast, hrest⟩ := appendBlobs_spec hblobs
  obtain ⟨hdigest, hhex⟩ := sha256_eq_ok_iff.mp hhash
  obtain rfl : hash = libraries.sha256 found.bytes := digest_injective hdigest.symm
  have hfew := not_lt.mp (refuse_eq_ok_iff.mp hlayers)
  refine ⟨metadata ++ blobs, by simp [hlast, hmiddle], ⟨found.manifest, found.bytes, blobs, ?_⟩, ?_⟩
  · have harchive := happended.archive
    have hheld := happended.held
    have hremaining := happended.remaining
    simp only [assemblyOf] at harchive hheld hremaining
    have hsmall : (blobs.map List.length).sum ≤ maximumTransferBytes := by omega
    have hfetched : assembly.fetchedBytes = ((metadata ++ blobs).map List.length).sum := by
      simp [happended.fetched, assemblyOf, hlocated.fetched]
    have hmetadata : (metadata.map List.length).sum ≤
        (maximumIndexDepth + 1) * maximumMetadataBytes := by
      refine le_trans (List.sum_le_card_nsmul _ maximumMetadataBytes ?_) ?_
      · simpa using hlocated.small
      · rw [List.length_map]
        exact Nat.mul_le_mul_right _ hlocated.count
    have hall : ∀ content ∈ found.bytes :: blobs,
        isSha256Hex (libraries.sha256 content) = true :=
      List.forall_mem_cons.mpr ⟨hhex, happended.hex⟩
    have hnodup : ((found.bytes :: blobs).map (digestOf libraries)).Nodup := by
      have hnodup := happended.nodup (by simp [assemblyOf])
      rwa [hheld] at hnodup
    have hcount := happended.count
    rw [List.length_cons] at hcount
    refine ⟨hlocated.pins, ⟨_, harchive⟩, exists_files hall hnodup (hcount.trans ?_) harchive,
      happended.named, fun descriptor hdescriptor => ?_, hsmall, hfetched, ?_⟩
    · exact Nat.succ_le_succ hfew
    · have hmem := happended.complete descriptor hdescriptor
      rw [hheld] at hmem
      exact List.mem_map.mp (by simpa using hmem)
    · rw [hfetched, List.map_append, List.sum_append]
      exact Nat.add_le_add hmetadata hsmall
  · intro contents hcontents other start
    obtain ⟨next, hnext⟩ := hagain contents
      (fun bytes hbytes => hcontents bytes (List.mem_append_left _ hbytes)) other start
    obtain ⟨final, hfinal⟩ := hrest contents
      (fun bytes hbytes => hcontents bytes (List.mem_append_right _ hbytes)) ⟨other, _⟩ next
    exact ⟨final, bind_eq_ok_iff.mpr ⟨_, hnext, bind_eq_ok_iff.mpr ⟨(), hlayers,
      bind_eq_ok_iff.mpr ⟨_, hhash, bind_eq_ok_iff.mpr ⟨_, hfinal, rfl⟩⟩⟩⟩⟩

/-- **A pulled image is what its digest says.** Whatever the registries answer: what is pulled is
the manifest that the digest pins, directly or through indexes, with its configuration and its
layers, each blob once, of its size and under its own digest, in an archive that reads as it was put
together, and no more than the limits allow; and what another pull of the digest gives, wherever it
is made from, is the same image, unless among what the two received there are two of one digest. -/
theorem pulled_by_digest {repository digest : String} {timesOut : Bool} {image : PulledImage}
    (h : pull libraries network repository digest timesOut = .ok (image, session)) :
    (∃ manifest bytes blobs,
      Pulled libraries digest image session.received manifest bytes blobs) ∧
    ∀ (other : Network) (mirrored : String) (timesOut' : Bool) (image' : PulledImage)
      (session' : Session),
      pull libraries other mirrored digest timesOut' = .ok (image', session') →
      (∀ x ∈ session.received ++ session'.received, ∀ y ∈ session.received ++ session'.received,
        libraries.sha256 x = libraries.sha256 y → x = y) → image' = image := by
  have hpulls : ∀ {network : Network} {repository : String} {timesOut : Bool} {image : PulledImage}
      {session : Session}, pull libraries network repository digest timesOut =
        .ok (image, session) →
      pullWith libraries network ⟨repository, "sha256:" ++ digest⟩ ⟨0, []⟩ =
        .ok (image, session) := by
    intro network repository timesOut image session h
    rw [pull] at h
    split at h
    · simp at h
    · exact h
  obtain ⟨received, hreceived, hpulled, hmirror⟩ := pulled_of_pullWith (hpulls h)
  obtain rfl : session.received = received := by simpa using hreceived
  refine ⟨hpulled, fun other mirrored timesOut' image' session' h' hdistinct => ?_⟩
  obtain ⟨received', hreceived', -, hmirror'⟩ := pulled_of_pullWith (hpulls h')
  obtain rfl : session'.received = received' := by simpa using hreceived'
  -- one mirror holds what both received, and gives both images
  let contents := fun digest => (session.received ++ session'.received).find? fun bytes =>
    decide (digestOf libraries bytes = digest)
  have hcontents : Holds libraries contents (session.received ++ session'.received) := by
    intro bytes hbytes
    obtain ⟨held, hheld⟩ : ∃ held, contents (digestOf libraries bytes) = some held :=
      Option.isSome_iff_exists.mp (List.find?_isSome.mpr ⟨bytes, hbytes, by simp⟩)
    have hsame : libraries.sha256 held = libraries.sha256 bytes :=
      digest_injective (by simpa [digestOf] using List.find?_some hheld)
    rw [hheld, hdistinct held (List.mem_of_find?_eq_some hheld) bytes hbytes hsame]
  obtain ⟨next, hnext⟩ := hmirror contents
    (fun bytes hbytes => hcontents bytes (List.mem_append_left _ hbytes)) repository ⟨0, []⟩
  obtain ⟨next', hnext'⟩ := hmirror' contents
    (fun bytes hbytes => hcontents bytes (List.mem_append_right _ hbytes)) repository ⟨0, []⟩
  rw [hnext] at hnext'
  exact (Prod.mk.inj (Except.ok.inj hnext')).1.symm

section Sample

theorem toOption_eq_some_iff {ε : Type} {α : Type} {x : Except ε α} {a : α} :
    x.toOption = some a ↔ x = .ok a := by
  cases x <;> simp [Except.toOption]

def sampleConfig : List UInt8 := Bytes.ofText "\x7b\x7d"

def sampleConfigHash : String := "44136fa355b3678a1146ad16f7e8649e94fb4fc21fe77e8310c060f61caaff8a"

def sampleManifest : List UInt8 :=
  Bytes.ofText ("\x7b\"schemaVersion\":2,\"config\":\x7b\"mediaType\":" ++
    "\"application/vnd.oci.image.config.v1+json\",\"digest\":\"sha256:" ++ sampleConfigHash ++
    "\",\"size\":2\x7d,\"layers\":[]\x7d")

def sampleManifestHash : String :=
  "c18d69ac3ba3e775ab5837ebd5e526dde0bcef2c72d0cfb26c6ccec7645245e5"

/-- The libraries, on a manifest without layers and its configuration. -/
def sampleLibraries : Libraries where
  sha256 bytes :=
    if bytes = sampleConfig then sampleConfigHash
    else if bytes = sampleManifest then sampleManifestHash
    else ""
  manifest bytes :=
    if bytes = sampleManifest then
      some (.image ⟨2, none, ⟨"sha256:" ++ sampleConfigHash, 2, none, none⟩, []⟩,
        "application/vnd.oci.image.manifest.v1+json")
    else none
  index mediaType digest size :=
    Bytes.ofText ("\x7b\"manifests\":[\x7b\"digest\":\"" ++ digest ++ "\",\"mediaType\":\"" ++
      mediaType ++ "\",\"platform\":\x7b\"architecture\":\"amd64\",\"os\":\"linux\"\x7d," ++
      "\"size\":" ++ toString size ++ "\x7d],\"schemaVersion\":2\x7d")

/-- A registry that is not there at first, and gives the configuration in two chunks. -/
def sampleNetwork : Network where
  pullManifestRaw sent _ := if sent = 0 then .error (.serverError 503) else .ok sampleManifest
  pullBlobStream _ _ _ := .ok [.ok (sampleConfig.take 1), .ok (sampleConfig.drop 1)]

theorem pulled_by_digest_sample :
    ∃ image session,
      pull sampleLibraries sampleNetwork "localhost/app" sampleManifestHash false =
        .ok (image, session) ∧
      session.sent = 3 ∧ image.fetchedBytes = 191 ∧
      ∃ manifest bytes blobs,
        Pulled sampleLibraries sampleManifestHash image session.received manifest bytes blobs := by
  have hsample : ((pull sampleLibraries sampleNetwork "localhost/app" sampleManifestHash
      false).toOption.map fun result => (result.2.sent, result.1.fetchedBytes)) =
        some (3, 191) := by
    decide +kernel
  obtain ⟨⟨image, session⟩, hpull, hsession⟩ := Option.map_eq_some_iff.mp hsample
  have hok := toOption_eq_some_iff.mp hpull
  obtain ⟨hsent, hfetched⟩ := Prod.mk.inj hsession
  exact ⟨image, session, hok, hsent, hfetched, (pulled_by_digest hok).1⟩

end Sample

end Nibrunner.OciRegistry

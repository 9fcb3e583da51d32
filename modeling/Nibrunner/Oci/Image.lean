import Nibrunner.ForStd.Fallible
import Nibrunner.Oci.Filesystem
import Nibrunner.Protocol.Schema

/-!
# Reading an image

An image is an archive of blobs, each under the digest of what it holds. `index.json` leads, through
further indexes, to manifests; the one for this kind of host names a configuration and the layers. A
blob is checked against the digest and the size it is named with, and a layer once more when it is
decoded, against the digest its configuration gives; then the layers are flattened.

Archives, JSON, compression and SHA-256 are left to libraries (`ImageReader`): an archive is given
as its entries, and an error of a library as a text.
-/

namespace Nibrunner.OciImage

open Except PathText Std

def maxIndexDepth : ℕ := 8

def maxMetadataBytes : ℕ := 4 * 1024 * 1024

def maxLayers : ℕ := 128

def maxDecodedBytes : ℕ := 1024 * 1024 * 1024

/-! ### What an image is made of -/

structure Platform where
  architecture : String
  os : String

def Platform.supported (platform : Platform) : Bool :=
  platform.os = "linux" && platform.architecture = "amd64"

structure Descriptor where
  mediaType : String
  digest : String
  size : ℕ
  platform : Option Platform

structure Index where
  schemaVersion : ℕ
  manifests : List Descriptor

structure Manifest where
  schemaVersion : ℕ
  config : Descriptor
  layers : List Descriptor

structure Rootfs where
  kind : String
  diffIds : List String

structure Config where
  platform : Platform
  rootfs : Rootfs

inductive Encoding where
  | gzip
  | zstd

/-- What the libraries make of some bytes: their digest in hexadecimal, what JSON they are, the
first so many bytes of what they decode to, and the entries of the archive they are. -/
structure ImageReader where
  sha256 : List UInt8 → String
  layout : List UInt8 → Except String String
  index : List UInt8 → Except String Index
  manifest : List UInt8 → Except String Manifest
  config : List UInt8 → Except String Config
  decoded : Encoding → List UInt8 → ℕ → Except String (List UInt8)
  entries : List UInt8 → Except String (List ArchiveEntry)

/-- JSON that is not too long to be read. -/
def metadata {α : Type} (read : List UInt8 → Except String α) (bytes : List UInt8) :
    Except String α := do
  refuse (bytes.length > maxMetadataBytes) "metadata exceeds 4 MiB"
  read bytes

/-! ### The files of an archive -/

abbrev Files := ExtTreeMap String (List UInt8)

/-- A file of an archive, by its path. -/
abbrev ArchivedFile := String × List UInt8

/-- A file as an entry. -/
def archivedEntry (file : ArchivedFile) : ArchiveEntry where
  path := .utf8 file.1
  entryType := .file
  linkName := none
  data := file.2
  extensions := []
  header := { mode := 0o644, uid := 0, gid := 0, mtime := 0 }

/-- The files of an archive, after so many entries. -/
def archiveFiles : ℕ → Files → List ArchiveEntry → Except String Files
  | _, files, [] => .ok files
  | count, files, entry :: entries => do
    refuse (count ≥ maxEntries) "the archive has too many entries"
    let path ← archivePath entry.path
    if entry.entryType = .directory then archiveFiles (count + 1) files entries
    else
      refuse (entry.entryType ≠ .file) "archive metadata and blobs must be regular files"
      refuse (files.contains path) "the archive repeats a path"
      archiveFiles (count + 1) (files.insert path entry.data) entries

/-- What follows the name of the algorithm. -/
def stripSha256? (digest : String) : Option String :=
  if startsWith "sha256:" digest then some (String.ofList (digest.toList.drop 7)) else none

theorem stripSha256?_eq_some_iff {digest hash : String} :
    stripSha256? digest = some hash ↔ digest = "sha256:" ++ hash := by
  have hdrop : ∀ rest : List Char, ("sha256:".toList ++ rest).drop 7 = rest := fun rest =>
    List.drop_left' rfl
  rw [stripSha256?, startsWith, Option.ite_none_right_eq_some, List.isPrefixOf_iff_prefix]
  constructor
  · rintro ⟨⟨rest, hrest⟩, hhash⟩
    rw [← hrest, hdrop, Option.some.injEq] at hhash
    rw [← String.toList_inj, String.toList_append, ← hrest, ← hhash]
    exact congrArg ("sha256:".toList ++ ·) String.toList_ofList.symm
  · rintro rfl
    refine ⟨⟨hash.toList, String.toList_append.symm⟩, ?_⟩
    rw [String.toList_append, hdrop, String.ofList_toList]

def checkedDigest (digest : String) : Except String String := do
  let hash ← ofOption "only SHA256 blobs are supported" (stripSha256? digest)
  refuse (isSha256Hex hash = false) "a SHA256 digest is malformed"
  return hash

def blobPath (hash : String) : String := "blobs/sha256/" ++ hash

variable (reader : ImageReader) (files : Files)

def blob (descriptor : Descriptor) : Except String (List UInt8) := do
  let hash ← checkedDigest descriptor.digest
  let bytes ← ofOption (descriptor.digest ++ " is missing") files[blobPath hash]?
  refuse (bytes.length ≠ descriptor.size ∨ reader.sha256 bytes ≠ hash)
    (descriptor.digest ++ " does not match its size and digest")
  return bytes

/-! ### The manifests an index leads to -/

/-- The manifests for this kind of host that were found, and how many descriptors may still be
looked at. -/
structure Search where
  found : List Manifest
  remaining : ℕ

def isIndexType (mediaType : String) : Bool :=
  mediaType = "application/vnd.oci.image.index.v1+json" ||
    mediaType = "application/vnd.docker.distribution.manifest.list.v2+json"

def isManifestType (mediaType : String) : Bool :=
  mediaType = "application/vnd.oci.image.manifest.v1+json" ||
    mediaType = "application/vnd.docker.distribution.manifest.v2+json"

def isConfigType (mediaType : String) : Bool :=
  mediaType = "application/vnd.oci.image.config.v1+json" ||
    mediaType = "application/vnd.docker.container.image.v1+json"

/-- A manifest, which is found if its configuration is for this kind of host. -/
def visitManifest (search : Search) (descriptor : Descriptor) : Except String Search := do
  let bytes ← blob reader files descriptor
  let manifest ← metadata reader.manifest bytes
  if isConfigType manifest.config.mediaType then
    let bytes ← blob reader files manifest.config
    let config ← metadata reader.config bytes
    if config.platform.supported then
      refuse (search.found.length ≥ 1) "the archive contains more than one Linux amd64 image"
      return { search with found := search.found ++ [manifest] }
    else return search
  else return search

/-- A descriptor in an index; `nested` goes through the index it may be of. -/
def visit (nested : Index → Search → Except String Search) (search : Search)
    (descriptor : Descriptor) : Except String Search := do
  refuse (search.remaining = 0) "the indexes reference too many descriptors"
  let search := { search with remaining := search.remaining - 1 }
  if descriptor.platform.any (fun platform => !platform.supported) then return search
  else if isIndexType descriptor.mediaType then
    let bytes ← blob reader files descriptor
    let index ← metadata reader.index bytes
    nested index search
  else if isManifestType descriptor.mediaType then visitManifest reader files search descriptor
  else return search

/-- The manifests an index leads to, over so many indexes at most. -/
def manifests : ℕ → Index → Search → Except String Search
  | 0, _, _ => .error "the image index version, size or nesting is unsupported"
  | depth + 1, index, search => do
    refuse (index.schemaVersion ≠ 2 ∨ index.manifests.length > maxEntries)
      "the image index version, size or nesting is unsupported"
    index.manifests.foldlM (visit reader files (manifests depth)) search

/-! ### The layers -/

/-- The first so many bytes of what a blob decodes to. -/
def decodedStart (bytes : List UInt8) (mediaType : String) (limit : ℕ) :
    Except String (List UInt8) :=
  if mediaType = "application/vnd.oci.image.layer.v1.tar" then .ok (bytes.take limit)
  else if mediaType = "application/vnd.oci.image.layer.v1.tar+gzip" ||
      mediaType = "application/vnd.docker.image.rootfs.diff.tar.gzip" then
    reader.decoded .gzip bytes limit
  else if mediaType = "application/vnd.oci.image.layer.v1.tar+zstd" then
    reader.decoded .zstd bytes limit
  else .error ("layer media type " ++ mediaType ++ " is unsupported")

/-- What a blob decodes to, if that is no longer than what remains. -/
def decode (bytes : List UInt8) (mediaType : String) (remaining : ℕ) :
    Except String (List UInt8) := do
  let decoded ← decodedStart reader bytes mediaType (remaining + 1)
  refuse (decoded.length > remaining) "decoded image layers exceed 1 GiB"
  return decoded

def applyLayers : ℕ → Filesystem → List (Descriptor × String) → Except String Filesystem
  | _, filesystem, [] => .ok filesystem
  | remaining, filesystem, (layer, diffId) :: layers => do
    let bytes ← blob reader files layer
    let decoded ← decode reader bytes layer.mediaType remaining
    let hash ← checkedDigest diffId
    refuse (reader.sha256 decoded ≠ hash) "an unpacked layer does not match its diff ID"
    let entries ← reader.entries decoded
    let filesystem ← filesystem.apply entries
    applyLayers (remaining - decoded.length) filesystem layers

def flatten (archive : List ArchiveEntry) : Except String Filesystem.Flattened := do
  let files ← archiveFiles 0 ∅ archive
  let layout ← ofOption "oci-layout is missing" files["oci-layout"]?
  let version ← metadata reader.layout layout
  refuse (version ≠ "1.0.0") "the OCI layout version is unsupported"
  let index ← ofOption "index.json is missing" files["index.json"]?
  let index ← metadata reader.index index
  let search ← manifests reader files (maxIndexDepth + 1) index ⟨[], maxEntries⟩
  let manifest ← ofOption "the archive has no Linux amd64 image" search.found.getLast?
  let config ← blob reader files manifest.config
  let config ← metadata reader.config config
  refuse (manifest.schemaVersion ≠ 2 ∨ config.rootfs.kind ≠ "layers" ∨
      config.rootfs.diffIds.length ≠ manifest.layers.length ∨ manifest.layers.length > maxLayers)
    "the image manifest and rootfs layers disagree"
  let filesystem ←
    applyLayers reader files maxDecodedBytes .new (manifest.layers.zip config.rootfs.diffIds)
  filesystem.finish

end Nibrunner.OciImage

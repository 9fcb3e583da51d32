import Nibrunner.ForStd.Bytes
import Nibrunner.Oci.Image

/-!
# Pulling an image from a registry

An image is asked for by the digest of its manifest. What a registry answers is an image's manifest,
or an index, which leads on by a digest of its own; the manifest names the blobs of the image. Each
answer is checked against the digest it was asked for by, and goes into an archive under it.

A registry answers as it likes, and may answer otherwise the next time it is asked: it is a function
of how many requests were made. The rest is left to libraries, which are parameters: the hexadecimal
SHA-256 of some bytes, and how the JSON of a manifest is read and that of an index written. What
`received` lists is what was taken for what was asked for.
-/

namespace Nibrunner.OciRegistry

open Except OciImage

def maximumTransferBytes : ℕ := 1024 * 1024 * 1024

def maximumMetadataBytes : ℕ := 4 * 1024 * 1024

def maximumLayers : ℕ := 128

def maximumIndexDepth : ℕ := 8

def downloadRetries : ℕ := 2

def manifestTypes : List String :=
  ["application/vnd.oci.image.manifest.v1+json", "application/vnd.oci.image.index.v1+json",
    "application/vnd.docker.distribution.manifest.v2+json",
    "application/vnd.docker.distribution.manifest.list.v2+json"]

/-! ### Failures -/

inductive ErrorKind where
  | timedOut
  | connectionReset
  | connectionAborted
  | unexpectedEof
  | other
deriving DecidableEq

/-- An error among the causes of another. -/
inductive Cause where
  | reqwest (isTimeout isConnect isBody isRequest : Bool)
  | hyper (isIncompleteMessage isClosed isTimeout : Bool)
  | io (kind : ErrorKind)
  | other

def Cause.transient : Cause → Bool
  | reqwest isTimeout isConnect isBody isRequest => isTimeout || isConnect || isBody || isRequest
  | hyper isIncompleteMessage isClosed isTimeout => isIncompleteMessage || isClosed || isTimeout
  | io kind => kind ≠ .other
  | other => false

def transientTransportFailure (causes : List Cause) : Bool := causes.any Cause.transient

inductive OciErrorCode where
  | tooManyRequests
  | other
deriving DecidableEq

/-- What a request fails with, and the causes a transport failure has. -/
inductive OciDistributionError where
  | requestError (causes : List Cause)
  | serverError (code : ℕ)
  | registryError (errors : List OciErrorCode)
  | ioError (causes : List Cause)
  | specViolationError (message : String)
  | other

def OciDistributionError.retryable : OciDistributionError → Bool
  | requestError causes => transientTransportFailure causes
  | serverError code => [408, 429, 500, 502, 503, 504].contains code
  | registryError errors => !errors.isEmpty && errors.all (· = .tooManyRequests)
  | ioError causes => transientTransportFailure causes
  | _ => false

/-- Why nothing was pulled. -/
inductive PullError where
  | download (error : OciDistributionError)
  | manifestSize
  | descriptor
  | mismatch (digest actual : String)
  | json
  | mediaType
  | noImage
  | manyImages
  | schemaVersion
  | indexDepth
  | manyLayers
  | blobSize
  | timedOut

/-! ### Requests -/

structure Reference where
  repository : String
  digest : String

structure Platform where
  os : String
  architecture : String
  variant : Option String

structure OciDescriptor where
  digest : String
  /-- A number of 64 bits with a sign. -/
  size : ℤ
  urls : Option (List String)
  platform : Option Platform

structure OciImageManifest where
  schemaVersion : ℕ
  mediaType : Option String
  config : OciDescriptor
  layers : List OciDescriptor

structure OciImageIndex where
  schemaVersion : ℕ
  manifests : List OciDescriptor

inductive OciManifest where
  | image (manifest : OciImageManifest)
  | imageIndex (index : OciImageIndex)

/-- What the libraries make of some bytes: their digest, and the manifest they are with the media
type it has; and the index that is written for one manifest, of a type, a digest and a size. -/
structure Libraries where
  sha256 : List UInt8 → String
  manifest : List UInt8 → Option (OciManifest × String)
  index : String → String → ℕ → List UInt8

/-- What the registries answer, by how many requests were made before. A blob comes in chunks. -/
structure Network where
  pullManifestRaw : ℕ → Reference → Except OciDistributionError (List UInt8)
  pullBlobStream : ℕ → Reference → OciDescriptor →
    Except OciDistributionError (List (Except OciDistributionError (List UInt8)))

/-- A request, made again where it failed and may not the next time; and how many were made. -/
def download {α : Type} (request : ℕ → Except OciDistributionError α) (retries sent : ℕ) :
    Except PullError (α × ℕ) :=
  match request sent, retries with
  | .ok value, _ => .ok (value, sent + 1)
  | .error e, retries + 1 =>
    if e.retryable then download request retries (sent + 1) else .error (.download e)
  | .error e, 0 => .error (.download e)

/-- The requests made, and what was taken for what was asked for. -/
structure Session where
  sent : ℕ
  received : List (List UInt8)

variable (libraries : Libraries)

def digestOf (bytes : List UInt8) : String := "sha256:" ++ libraries.sha256 bytes

def verified (bytes : List UInt8) (digest : String) : Except PullError Unit :=
  refuse (digest ≠ digestOf libraries bytes) (.mismatch digest (digestOf libraries bytes))

/-- The hash in a digest. -/
def sha256 (digest : String) : Except PullError String := do
  let hash ← ofOption .descriptor (stripSha256? digest)
  refuse (isSha256Hex hash = false) .descriptor
  return hash

/-! ### Manifests -/

def OciDescriptor.isLinuxAmd64 (entry : OciDescriptor) : Bool :=
  entry.platform.any fun platform =>
    platform.os = "linux" && platform.architecture = "amd64" &&
      platform.variant.all fun variant => variant = "" || variant = "v1"

/-- The one entry of an index that is of an image for this host. -/
def OciImageIndex.entry (index : OciImageIndex) : Except PullError OciDescriptor :=
  match index.manifests.filter OciDescriptor.isLinuxAmd64 with
  | [] => .error .noImage
  | [entry] => .ok entry
  | _ => .error .manyImages

structure Found where
  manifest : OciImageManifest
  bytes : List UInt8
  fetchedBytes : ℕ

variable (network : Network)

/-- What the registry answers for a reference, once it is checked. -/
def pinnedManifest (reference : Reference) (expectedSize : Option ℤ) (session : Session) :
    Except PullError ((OciManifest × List UInt8) × Session) := do
  let (bytes, sent) ←
    download (fun sent => network.pullManifestRaw sent reference) downloadRetries session.sent
  refuse (bytes.length > maximumMetadataBytes ∨ ∃ size ∈ expectedSize, size ≠ bytes.length)
    .manifestSize
  let _ ← sha256 reference.digest
  verified libraries bytes reference.digest
  let (manifest, contentType) ← ofOption .json (libraries.manifest bytes)
  refuse (contentType ∉ manifestTypes) .mediaType
  return ((manifest, bytes), ⟨sent, session.received ++ [bytes]⟩)

/-- From a reference on to the manifest of an image, over so many answers at most. -/
def imageManifest : ℕ → Reference → Option ℤ → ℕ → Session → Except PullError (Found × Session)
  | 0, _, _, _, _ => .error .indexDepth
  | answers + 1, reference, expectedSize, fetchedBytes, session => do
    let ((manifest, bytes), session) ←
      pinnedManifest libraries network reference expectedSize session
    match manifest with
    | .image manifest => do
      refuse (manifest.schemaVersion ≠ 2) .schemaVersion
      return (⟨manifest, bytes, fetchedBytes + bytes.length⟩, session)
    | .imageIndex index => do
      refuse (index.schemaVersion ≠ 2) .schemaVersion
      let entry ← index.entry
      let _ ← sha256 entry.digest
      imageManifest answers { reference with digest := entry.digest } (some entry.size)
        (fetchedBytes + bytes.length) session

/-! ### Blobs -/

/-- The chunks of a blob, after those that have come. -/
def collect (size : ℕ) (bytes : List UInt8) :
    List (Except OciDistributionError (List UInt8)) → Except OciDistributionError (List UInt8)
  | [] => do
    refuse (bytes.length ≠ size) (.specViolationError "a blob is shorter than its descriptor size")
    return bytes
  | chunk :: chunks => do
    let chunk ← chunk
    refuse (chunk.length > size - bytes.length)
      (.specViolationError "a blob exceeds its descriptor size")
    collect size (bytes ++ chunk) chunks

def blobOnce (image : Reference) (descriptor : OciDescriptor) (size sent : ℕ) :
    Except OciDistributionError (List UInt8) := do
  let chunks ← network.pullBlobStream sent image descriptor
  collect size [] chunks

def blob (image : Reference) (descriptor : OciDescriptor) (session : Session) :
    Except PullError (List UInt8 × Session) := do
  let descriptor := { descriptor with urls := none }
  refuse (descriptor.size < 0) .descriptor
  let (bytes, sent) ←
    download (blobOnce network image descriptor descriptor.size.toNat) downloadRetries session.sent
  verified libraries bytes descriptor.digest
  return (bytes, ⟨sent, session.received ++ [bytes]⟩)

/-- An archive that is being put together, and what may still be downloaded. -/
structure Assembly where
  archive : List ArchivedFile
  held : List String
  remaining : ℕ
  fetchedBytes : ℕ

/-- The hash of a descriptor at an index, if what it names may still be downloaded. -/
def Assembly.admit (assembly : Assembly) (index : ℕ) (descriptor : OciDescriptor) :
    Except PullError String := do
  let hash ← sha256 descriptor.digest
  refuse (descriptor.size < 0) .descriptor
  let size := descriptor.size.toNat
  refuse (size > assembly.remaining ∨ (index = 0 ∧ size > maximumMetadataBytes)) .blobSize
  return hash

def Assembly.append (assembly : Assembly) (descriptor : OciDescriptor) (hash : String)
    (bytes : List UInt8) : Assembly :=
  { archive := assembly.archive ++ [(blobPath hash, bytes)]
    held := assembly.held ++ [descriptor.digest]
    remaining := assembly.remaining - descriptor.size.toNat
    fetchedBytes := assembly.fetchedBytes + descriptor.size.toNat }

/-- The blobs of descriptors, the first of which is at an index; each blob once. -/
def appendBlobs (image : Reference) : ℕ → List OciDescriptor → Assembly → Session →
    Except PullError (Assembly × Session)
  | _, [], assembly, session => .ok (assembly, session)
  | index, descriptor :: descriptors, assembly, session => do
    let hash ← assembly.admit index descriptor
    if descriptor.digest ∈ assembly.held then
      appendBlobs image (index + 1) descriptors assembly session
    else
      let (bytes, session) ← blob libraries network image descriptor session
      appendBlobs image (index + 1) descriptors (assembly.append descriptor hash bytes) session

structure PulledImage where
  archive : List ArchivedFile
  fetchedBytes : ℕ

def PulledImage.entries (image : PulledImage) : List ArchiveEntry :=
  image.archive.map archivedEntry

def ociLayout : List UInt8 := Bytes.ofText "\x7b\"imageLayoutVersion\":\"1.0.0\"\x7d"

/-- The archive before the blobs that a manifest names. -/
def assemblyOf (manifest : OciImageManifest) (bytes : List UInt8) (fetchedBytes : ℕ)
    (hash : String) : Assembly :=
  let mediaType := manifest.mediaType.getD "application/vnd.oci.image.manifest.v1+json"
  { archive := [("oci-layout", ociLayout),
      ("index.json", libraries.index mediaType (digestOf libraries bytes) bytes.length),
      (blobPath hash, bytes)]
    held := [digestOf libraries bytes]
    remaining := maximumTransferBytes
    fetchedBytes := fetchedBytes }

def pullWith (image : Reference) (session : Session) :
    Except PullError (PulledImage × Session) := do
  let (found, session) ←
    imageManifest libraries network (maximumIndexDepth + 1) image none 0 session
  refuse (found.manifest.layers.length > maximumLayers) .manyLayers
  let hash ← sha256 (digestOf libraries found.bytes)
  let (assembly, session) ←
    appendBlobs libraries network image 0 (found.manifest.config :: found.manifest.layers)
      (assemblyOf libraries found.manifest found.bytes found.fetchedBytes hash) session
  return (⟨assembly.archive, assembly.fetchedBytes⟩, session)

/-- A pull, unless it times out. -/
def pull (repository digest : String) (timesOut : Bool) :
    Except PullError (PulledImage × Session) :=
  if timesOut then .error .timedOut
  else pullWith libraries network ⟨repository, "sha256:" ++ digest⟩ ⟨0, []⟩

end Nibrunner.OciRegistry

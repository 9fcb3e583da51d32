import Mathlib.Algebra.Order.Ring.Nat
import Nibrunner.ForStd.PathText

/-!
# The filesystem of an image

An image is flattened by applying its layers one after another to a map from paths to nodes. A
layer is the list of entries of an archive: directories, files and links to put down, and
whiteouts, which take away what earlier layers put down. Paths are resolved through the symbolic
links there are, missing parents are made, and hard links to what comes later in the layer are
patched at its end.

The reading of an archive is left to its library: a layer is given as its entries. The identity of
what two hard links share is a number of its own (`inode`).
-/

namespace Nibrunner

open Std PathText

/-- The most entries a layer may have, and a filesystem. -/
def maxEntries : ℕ := 100000

/-- Text in an archive, which need not be one. -/
inductive ArchiveText where
  | utf8 (text : String)
  | notUtf8 (bytes : List UInt8)
deriving DecidableEq

def ArchiveText.startsWith (start : String) : ArchiveText → Bool
  | utf8 text => PathText.startsWith start text
  | notUtf8 bytes => start.toUTF8.toList.isPrefixOf bytes

def ArchiveText.isUtf8 : ArchiveText → Bool
  | utf8 _ => true
  | notUtf8 _ => false

structure Header where
  mode : ℕ
  uid : ℕ
  gid : ℕ
  mtime : ℕ
deriving DecidableEq

abbrev Attributes := List (ArchiveText × List UInt8)

inductive Kind where
  | directory
  | file (data : List UInt8)
  | symlink (target : ArchiveText)
  | hardlink (target : String)
deriving DecidableEq

def Kind.isDirectory : Kind → Bool
  | directory => true
  | _ => false

structure Node where
  header : Header
  attributes : Attributes
  inode : ℕ
  kind : Kind
deriving DecidableEq

/-- A directory nothing in an archive describes. -/
def directoryNode (inode : ℕ) : Node where
  header := { mode := 0o755, uid := 0, gid := 0, mtime := 0 }
  attributes := []
  inode := inode
  kind := .directory

/-- The path of an entry, below the root. -/
def archivePath : ArchiveText → Except String String
  | .notUtf8 _ => .error "a path is not UTF-8"
  | .utf8 path =>
    if PathText.startsWith "/" path || (split path).contains ".." then
      .error "an archive path is absolute or contains a parent component"
    else .ok (join ((split path).filter fun name => name ≠ "" && name ≠ "."))

/-! ### Resolving a path -/

/-- The nodes, and the identity the next one is given. -/
structure Filesystem where
  nodes : ExtTreeMap String Node
  inodes : ℕ

namespace Filesystem

def new : Filesystem where
  nodes := (∅ : ExtTreeMap String Node).insert "" (directoryNode 0)
  inodes := 1

/-- Where a walk along the components of a path stops. -/
inductive Walk where
  | done (resolved : List String)
  | link (target : ArchiveText) (pending resolved : List String)
  | nonDirectory

/-- A walk up to the first symbolic link that is to be followed. -/
def walk (fs : Filesystem) (followFinal : Bool) : List String → List String → Walk
  | [], resolved => .done resolved
  | name :: pending, resolved =>
    if name = "" || name = "." then walk fs followFinal pending resolved
    else if name = ".." then walk fs followFinal pending resolved.dropLast
    else
      match (fs.nodes[join (resolved ++ [name])]?).map Node.kind with
      | some (.symlink target) =>
        if !pending.isEmpty || followFinal then .link target pending resolved
        else walk fs followFinal pending (resolved ++ [name])
      | some .directory => walk fs followFinal pending (resolved ++ [name])
      | some _ =>
        if !pending.isEmpty then .nonDirectory
        else walk fs followFinal pending (resolved ++ [name])
      | none => walk fs followFinal pending (resolved ++ [name])

/-- A walk that follows so many links more. -/
def follow (fs : Filesystem) (followFinal : Bool) :
    ℕ → List String → List String → Except String (List String)
  | links, pending, resolved =>
    match fs.walk followFinal pending resolved with
    | .done resolved => .ok resolved
    | .nonDirectory => .error "an image path traverses a non-directory"
    | .link target pending resolved =>
      match links, target with
      | 0, _ => .error "an image path has too many symbolic links"
      | _ + 1, .notUtf8 _ => .error "a symbolic link is not UTF-8"
      | links + 1, .utf8 target =>
        follow fs followFinal links (split target ++ pending)
          (if PathText.startsWith "/" target then [] else resolved)

def resolve (fs : Filesystem) (path : String) (followFinal : Bool) : Except String String :=
  (fs.follow followFinal 40 (split path) []).map join

/-! ### Taking away and putting down -/

def remove (fs : Filesystem) (path : String) (includeSelf : Bool) : Filesystem :=
  let start := if path = "" then "" else path ++ "/"
  { fs with
    nodes := fs.nodes.filter fun name _ =>
      !((includeSelf && name = path) || (name ≠ path && PathText.startsWith start name)) }

/-- The parents of a path are directories, those that are missing are made. -/
def parentsFrom (fs : Filesystem) (parent : String) : List String → Except String Filesystem
  | [] => .ok fs
  | component :: rest =>
    let parent := if parent = "" then component else parent ++ "/" ++ component
    match (fs.nodes[parent]?).map (·.kind.isDirectory) with
    | some false => .error "an entry's parent is not a directory"
    | some true => parentsFrom fs parent rest
    | none =>
      parentsFrom { nodes := fs.nodes.insert parent (directoryNode fs.inodes)
                    inodes := fs.inodes + 1 } parent rest

def parents (fs : Filesystem) (path : String) : Except String Filesystem :=
  fs.parentsFrom "" (split path).dropLast

end Filesystem

/-! ### Entries of a layer -/

inductive EntryType where
  | directory
  | file
  | symlink
  | hardLink
  /-- Devices, FIFOs, sockets and sparse files. -/
  | unsupported
deriving DecidableEq

/-- An entry of an archive, as its library reads it. -/
structure ArchiveEntry where
  path : ArchiveText
  entryType : EntryType
  linkName : Option ArchiveText
  data : List UInt8
  extensions : List (ArchiveText × List UInt8)
  header : Header

/-- The extended attributes among the extensions of an entry. -/
def entryAttributes : List (ArchiveText × List UInt8) → Except String Attributes
  | [] => .ok []
  | (key, value) :: rest => do
    if key.startsWith "LIBARCHIVE.xattr." then
      .error "LIBARCHIVE extended attributes are unsupported"
    else
      let attributes ← entryAttributes rest
      if key.startsWith "SCHILY.xattr." then .ok ((key, value) :: attributes) else .ok attributes

def entryKind (name : String) (entry : ArchiveEntry) : Except String Kind :=
  match entry.entryType with
  | .directory => .ok .directory
  | .file => .ok (.file entry.data)
  | .symlink =>
    match entry.linkName with
    | some target => .ok (.symlink target)
    | none => .error "a symbolic link has no target"
  | .hardLink =>
    match entry.linkName with
    | some target => (archivePath target).map .hardlink
    | none => .error "a hard link has no target"
  | .unsupported =>
    .error ("entry " ++ name ++ " has an unsupported device, FIFO, socket or sparse type")

/-- The entries of a layer, by their paths; `seen` are those before. -/
def readEntries (inode : ℕ) (seen : List String) :
    List ArchiveEntry → Except String (List (String × Node))
  | [] => .ok []
  | entry :: rest => do
    if maxEntries ≤ seen.length then .error "a layer has too many entries"
    else
      let name ← archivePath entry.path
      if seen.contains name then .error "a layer repeats an entry path"
      else
        let attributes ← entryAttributes entry.extensions
        let kind ← entryKind name entry
        let others ← readEntries (inode + 1) (name :: seen) rest
        .ok ((name, { header := entry.header, attributes, inode, kind }) :: others)

def whiteoutPrefix : String := ".wh."

def opaqueMarker : String := ".wh..wh..opq"

/-- What stands before the last separator, and what after. -/
def rsplitOnce (name : String) : String × String :=
  (join (split name).dropLast, (split name).getLast (split_ne_nil name))

/-- Whether the last component of a path is that of a whiteout. -/
def isWhiteout (name : String) : Bool :=
  PathText.startsWith whiteoutPrefix (rsplitOnce name).2

namespace Filesystem

/-- What a whiteout takes away: a path, and whether with itself. -/
def whiteout (fs : Filesystem) (name : String) (node : Node) : Except String (String × Bool) :=
  let (parent, basename) := rsplitOnce name
  let deleted := String.ofList (basename.toList.drop whiteoutPrefix.toList.length)
  if node.kind ≠ .file [] || deleted = "" then
    .error "a whiteout must be an empty regular file with a target"
  else do
    let parent ← fs.resolve parent true
    if basename = opaqueMarker then .ok (parent, false)
    else if deleted = "." || deleted = ".." then .error "a whiteout targets a directory parent"
    else .ok (if parent = "" then deleted else parent ++ "/" ++ deleted, true)

/-- All whiteouts are resolved before any of them takes something away. -/
def removals (fs : Filesystem) : List (String × Node) → Except String (List (String × Bool))
  | [] => .ok []
  | (name, node) :: rest => do
    if isWhiteout name then
      let removal ← fs.whiteout name node
      let others ← fs.removals rest
      .ok (removal :: others)
    else fs.removals rest

def removeAll (fs : Filesystem) (removals : List (String × Bool)) : Filesystem :=
  removals.foldl (fun fs removal => fs.remove removal.1 removal.2) fs

/-- A hard link to what is there already is another name of it; one to what is not yet is kept for
the end of the layer. -/
def linked (fs : Filesystem) (node : Node) : Except String (Filesystem × Node) :=
  match node.kind with
  | .hardlink target => do
    let target ← fs.resolve target false
    match fs.nodes[target]? with
    | some existing =>
      if existing.kind = .directory then .error "a hard link targets a directory"
      else .ok (fs, existing)
    | none =>
      .ok ({ fs with inodes := fs.inodes + 1 },
        { node with inode := fs.inodes, kind := .hardlink target })
  | _ => .ok (fs, node)

/-- A node is put down at a path. A directory keeps what is below the directory it takes the place
of. -/
def place (fs : Filesystem) (name : String) (node : Node) : Except String Filesystem := do
  let mergingDirectories := node.kind.isDirectory &&
    (fs.nodes[name]?).any fun old => old.kind.isDirectory
  let cleared := if mergingDirectories then fs else fs.remove name true
  let fs ← cleared.parents name
  let placed := { fs with nodes := fs.nodes.insert name node }
  if maxEntries < placed.nodes.size then .error "the filesystem has too many entries"
  else .ok placed

def applyEntry (fs : Filesystem) (entry : String × Node) : Except String Filesystem :=
  if isWhiteout entry.1 then .ok fs
  else do
    let name ← fs.resolve entry.1 false
    if name = "" && !entry.2.kind.isDirectory then
      .error "the filesystem root is not a directory"
    else
      let (fs, node) ← fs.linked entry.2
      fs.place name node

def applyEntries (fs : Filesystem) : List (String × Node) → Except String Filesystem
  | [] => .ok fs
  | entry :: rest => do
    let fs ← fs.applyEntry entry
    fs.applyEntries rest

/-- The hard links whose targets have not been found. -/
def pendingLinks (fs : Filesystem) : List (String × String) :=
  fs.nodes.toList.filterMap fun (name, node) =>
    match node.kind with
    | .hardlink target => some (name, target)
    | _ => none

/-- One round over the pending links, and whether it patched any. -/
def patchLinks (fs : Filesystem) : List (String × String) → Bool →
    Except String (Filesystem × Bool)
  | [], patched => .ok (fs, patched)
  | (name, target) :: rest, patched =>
    match fs.nodes[target]? with
    | some node =>
      match node.kind with
      | .hardlink _ => fs.patchLinks rest patched
      | .directory => .error "a hard link targets a directory"
      | _ => patchLinks { fs with nodes := fs.nodes.insert name node } rest true
    | none => fs.patchLinks rest patched

def unresolvedLinks : String := "a layer has unresolved or cyclic hard links"

/-- So many rounds more. -/
def resolveLinks (fs : Filesystem) : ℕ → Except String Filesystem
  | 0 => .error unresolvedLinks
  | rounds + 1 =>
    if fs.pendingLinks = [] then .ok fs
    else do
      let (fs, patched) ← fs.patchLinks fs.pendingLinks false
      if patched then fs.resolveLinks rounds else .error unresolvedLinks

def apply (fs : Filesystem) (layer : List ArchiveEntry) : Except String Filesystem := do
  let entries ← readEntries fs.inodes [] layer
  let removals ← fs.removals entries
  let cleared := { fs with inodes := fs.inodes + entries.length }.removeAll removals
  let placed ← cleared.applyEntries entries
  placed.resolveLinks 40

/-- The layers of an image, the lowest first. -/
def flatten (fs : Filesystem) : List (List ArchiveEntry) → Except String Filesystem
  | [] => .ok fs
  | layer :: layers => do
    let fs ← fs.apply layer
    fs.flatten layers

/-! ### Writing it out -/

/-- What an entry that is written out holds. -/
inductive Written where
  | directory
  | file (data : List UInt8)
  | symlink (target : ArchiveText)
  | link (target : String)
deriving DecidableEq

structure WrittenEntry where
  name : String
  header : Header
  attributes : Attributes
  written : Written
deriving DecidableEq

/-- The directories first, and each in the order of the paths: a stable sort by one bit. -/
def ordered (fs : Filesystem) : List (String × Node) :=
  fs.nodes.toList.filter (fun entry => entry.2.kind.isDirectory) ++
    fs.nodes.toList.filter fun entry => !entry.2.kind.isDirectory

/-- A path as it is written out. -/
def writtenName (name : String) : String := if name = "" then "." else name

/-- What a node is written as. -/
def writtenAs : Kind → Except String Written
  | .directory => .ok .directory
  | .file data => .ok (.file data)
  | .symlink target => .ok (.symlink target)
  | .hardlink _ => .error "a hard link was not resolved"

/-- Each node is written once, and as a link where it has been before; `links` are the names the
nodes were written under. -/
def writeOut (links : ExtTreeMap ℕ String) :
    List (String × Node) → Except String (List WrittenEntry)
  | [] => .ok []
  | (path, node) :: rest => do
    let name := writtenName path
    if node.attributes.any fun (key, _) => !key.isUtf8 then
      .error "an attribute is not UTF-8"
    else
      let entry := fun written => { name, header := node.header, attributes := node.attributes,
                                    written : WrittenEntry }
      match (if node.kind.isDirectory then none else links[node.inode]?) with
      | some target =>
        let others ← writeOut links rest
        .ok (entry (.link target) :: others)
      | none =>
        let written ← writtenAs node.kind
        let others ← writeOut (links.insert node.inode name) rest
        .ok (entry written :: others)

/-- The archive an image becomes. -/
structure Flattened where
  tar : List WrittenEntry
  dataBytes : ℕ
  entries : ℕ

def Written.dataBytes : Written → ℕ
  | file data => data.length
  | _ => 0

def finish (fs : Filesystem) : Except String Flattened := do
  let tar ← writeOut ∅ fs.ordered
  .ok { tar
        dataBytes := (tar.map fun entry => entry.written.dataBytes).sum
        entries := fs.nodes.size }

end Filesystem

end Nibrunner

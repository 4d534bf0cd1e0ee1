import TxnOpt.Evidence.Codec
import TxnOpt.Runtime.Values
import Mathlib.Algebra.GroupWithZero.Nat

/-!
# Archive inventory

The inventory of a local evidence tree. The tree is a value: nothing writes to it while it is walked, so a
name that was listed can be opened again and still names the same node.
-/

namespace TxnOpt.Archive

/-! ### Paths -/

/-- A path that is kept as written. -/
structure PurePosixPath where
  /-- `/` or `//` of an absolute path -/
  root : String
  parts : List String
  deriving DecidableEq, Repr

namespace PurePosixPath

def rootOf (text : List Char) : String :=
  if ['/', '/'] <+: text ∧ ¬ ['/', '/', '/'] <+: text then "//"
  else if ['/'] <+: text then "/"
  else ""

/-- Empty components and `.` are dropped. -/
def partsOf (text : List Char) : List String :=
  ((text.splitOn '/').map String.ofList).filter fun part => part ≠ "" ∧ part ≠ "."

def of (value : String) : PurePosixPath := ⟨rootOf value.toList, partsOf value.toList⟩

def isAbsolute (path : PurePosixPath) : Prop := path.root ≠ ""

def asPosix (path : PurePosixPath) : String :=
  if path.root = "" ∧ path.parts = [] then "." else path.root ++ "/".intercalate path.parts

/-- `path / name`. -/
def join (path : PurePosixPath) (name : String) : PurePosixPath :=
  if (of name).root = "" then ⟨path.root, path.parts ++ (of name).parts⟩ else of name

end PurePosixPath

/-- The condition of `_validate_relative_path`. -/
def IsRelativePath (value : String) : Prop :=
  value ≠ "" ∧ '\\' ∉ value.toList ∧ (PurePosixPath.of value).root = "" ∧
    value = (PurePosixPath.of value).asPosix ∧ value ≠ "." ∧
    ∀ part ∈ (PurePosixPath.of value).parts, part ∉ ["", ".", ".."]

instance (value : String) : Decidable (IsRelativePath value) := inferInstanceAs (Decidable (_ ∧ _))

/-! ### Records -/

def archiveError (message : String) : PyExc := ⟨[.other "ArchiveError"], message⟩

def archiveIntegrityError (message : String) : PyExc :=
  ⟨[.other "ArchiveIntegrityError", .other "ArchiveError"], message⟩

def archiveNotFoundError (message : String) : PyExc :=
  ⟨[.other "ArchiveNotFoundError", .other "ArchiveError"], message⟩

def fileNotFoundError (name : String) : PyExc := ⟨[.other "FileNotFoundError", .other "OSError"], name⟩

structure ArchiveInventoryEntry where
  relativePath : String
  sha256 : String
  size : ℕ
  isRelativePath : IsRelativePath relativePath
  isSha256 : IsSha256 sha256
  deriving DecidableEq

def ArchiveInventoryEntry.make (relativePath sha256 : String) (size : Int) :
    Except PyExc ArchiveInventoryEntry :=
  if hpath : IsRelativePath relativePath then
    if hsha : IsSha256 sha256 then
      if size < 0 then .error (.valueError "archive inventory size must be non-negative")
      else .ok ⟨relativePath, sha256, size.toNat, hpath, hsha⟩
    else .error (.valueError "SHA-256 identity must be 64 lowercase hexadecimal characters")
  else .error (.valueError "archive entry path must be canonical, relative, and traversal-free")

/-- The condition on the paths in `ArchiveInventory.__post_init__`. -/
def UniquelySorted (paths : List String) : Prop := paths = sortedBy id paths ∧ paths.Nodup

instance (paths : List String) : Decidable (UniquelySorted paths) := inferInstanceAs (Decidable (_ ∧ _))

structure ArchiveInventory where
  entries : List ArchiveInventoryEntry
  treeSha256 : String
  totalSize : ℕ
  recoverySource : String
  isSha256 : IsSha256 treeSha256
  uniquelySorted : UniquelySorted (entries.map ArchiveInventoryEntry.relativePath)
  total : totalSize = (entries.map ArchiveInventoryEntry.size).sum
  recoverySourceNonempty : recoverySource ≠ ""
  deriving DecidableEq

def ArchiveInventory.make (entries : List ArchiveInventoryEntry) (treeSha256 : String) (totalSize : ℕ)
    (recoverySource : String) : Except PyExc ArchiveInventory :=
  if hsha : IsSha256 treeSha256 then
    if hpaths : UniquelySorted (entries.map ArchiveInventoryEntry.relativePath) then
      if htotal : totalSize = (entries.map ArchiveInventoryEntry.size).sum then
        if hsource : recoverySource ≠ "" then
          .ok ⟨entries, treeSha256, totalSize, recoverySource, hsha, hpaths, htotal, hsource⟩
        else .error (.valueError "archive inventory recovery source cannot be empty")
      else .error (.valueError "archive inventory total size differs from its entries")
    else .error (.valueError "archive inventory paths must be uniquely sorted")
  else .error (.valueError "SHA-256 identity must be 64 lowercase hexadecimal characters")

/-! ### The tree -/

/-- A node of a file system. A directory lists its names in the order of `os.scandir`. -/
inductive FsNode where
  | file (data : Bytes)
  | directory (children : List (String × FsNode))
  | symlink
  /-- a FIFO, a socket or a device -/
  | special

abbrev Directory := List (String × FsNode)

/-- The names that `_open_child_directory` accepts. -/
def IsComponent (name : String) : Prop := name ∉ ["", ".", ".."] ∧ '/' ∉ name.toList ∧ '\\' ∉ name.toList

instance (name : String) : Decidable (IsComponent name) := inferInstanceAs (Decidable (_ ∧ _))

def openChildDirectory (parent : Directory) (name : String) : Except PyExc Directory :=
  if IsComponent name then
    match parent.lookup name with
    | some (.directory children) => .ok children
    | some _ => .error (archiveIntegrityError s!"archive source ancestry contains a symlink: {name}")
    | none => .error (fileNotFoundError name)
  else .error (archiveIntegrityError "archive directory component is not canonical")

/-- `_open_directory_path`, from the components of an absolute path. -/
def openDirectoryPath (root : Directory) (path : List String) : Except PyExc Directory :=
  path.foldlM openChildDirectory root

def openRegularFileAt (directory : Directory) (name : String) : Except PyExc Bytes :=
  match directory.lookup name with
  | some (.file data) => .ok data
  | some .symlink => .error (archiveIntegrityError "archive source file cannot be a symlink")
  | some _ => .error (archiveIntegrityError "archive source object must be a regular file")
  | none => .error (fileNotFoundError name)

def openRelativeRegularFile (root : Directory) (parts : List String) : Except PyExc Bytes :=
  match parts.getLast? with
  | none => .error (archiveIntegrityError "archive relative file path is empty")
  | some name => do
      let parent ← openDirectoryPath root parts.dropLast
      openRegularFileAt parent name

/-! ### The walk -/

/-- The entries under the names of a directory, in the order of the names; the first error wins. -/
def inNameOrder (walks : List (String × Except PyExc (List ArchiveInventoryEntry))) :
    Except PyExc (List ArchiveInventoryEntry) :=
  ((sortedBy Prod.fst walks).mapM Prod.snd).map List.flatten

variable (sha : Sha256)

mutual

/-- One pass of the loop of `_inventory_directory`, at the path of the name. -/
def inventoryNode (relative : PurePosixPath) (name : String) : FsNode → Except PyExc (List ArchiveInventoryEntry)
  | .symlink =>
      .error (archiveIntegrityError s!"archive inventory cannot contain symlinks: {relative.asPosix}")
  | .directory children => do
      if ¬ IsComponent name then
        .error (archiveIntegrityError "archive directory component is not canonical")
      inNameOrder (inventoryNames relative children)
  | .special =>
      .error (archiveIntegrityError s!"archive inventory accepts regular files only: {relative.asPosix}")
  | .file data => do
      let entry ← ArchiveInventoryEntry.make relative.asPosix (sha.hexdigest data) data.length
      pure [entry]

/-- The walks under the names of a directory. -/
def inventoryNames (path : PurePosixPath) : Directory → List (String × Except PyExc (List ArchiveInventoryEntry))
  | [] => []
  | (name, node) :: names =>
      (name, inventoryNode (path.join name) name node) :: inventoryNames path names

end

def inventoryDirectory (path : PurePosixPath) (directory : Directory) :
    Except PyExc (List ArchiveInventoryEntry) :=
  inNameOrder (inventoryNames sha path directory)

def entryPayload (entry : ArchiveInventoryEntry) : Json :=
  .obj [("relative_path", .str entry.relativePath), ("sha256", .str entry.sha256), ("size", .int entry.size)]

/-- The inventory digest of a list of entries. -/
def treeSha256 (entries : List ArchiveInventoryEntry) : String :=
  sha.hexdigest (canonicalJsonBytes (.arr (entries.map entryPayload)) false)

/-- `str` of the absolute path with these components. -/
def absoluteText (source : List String) : String := "/" ++ "/".intercalate source

/-- The handler around `_open_directory_path` in `inventory_tree`. -/
def openInventoryRoot (root : Directory) (source : List String) : Except PyExc Directory :=
  match openDirectoryPath root source with
  | .ok directory => .ok directory
  | .error error =>
      if error.isInstance (.other "FileNotFoundError") then
        .error (archiveNotFoundError ("archive inventory root is absent: " ++ absoluteText source))
      else .error error

/-- `source` is the components of the absolute path of the tree, and `root` the root of the file system. -/
def inventoryTree (root : Directory) (source : List String) : Except PyExc ArchiveInventory := do
  let directory ← openInventoryRoot root source
  let entries ← inventoryDirectory sha ⟨"", []⟩ directory
  ArchiveInventory.make entries (treeSha256 sha entries) (entries.map ArchiveInventoryEntry.size).sum
    (absoluteText source)

/-- `open_inventory_entry`: the bytes of the opened file. -/
def openInventoryEntry (root : Directory) (source : List String) (entry : ArchiveInventoryEntry) :
    Except PyExc Bytes := do
  let directory ← openDirectoryPath root source
  let data ← openRelativeRegularFile directory (PurePosixPath.of entry.relativePath).parts
  if sha.hexdigest data ≠ entry.sha256 ∨ data.length ≠ entry.size then
    .error (archiveIntegrityError ("archive source changed after inventory: " ++ entry.relativePath))
  else .ok data

end TxnOpt.Archive

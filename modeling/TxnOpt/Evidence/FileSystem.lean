import TxnOpt.Evidence.Archive

/-!
# Writing files

The file operations of a restore. A path is resolved from a directory component by component, and no
component may be a symlink.
-/

namespace TxnOpt.Archive

def osError (message : String) : PyExc := ⟨[.other "OSError"], message⟩

def fileExistsError (name : String) : PyExc := ⟨[.other "FileExistsError", .other "OSError"], name⟩

def notADirectoryError (name : String) : PyExc := ⟨[.other "NotADirectoryError", .other "OSError"], name⟩

namespace Directory

def names (directory : Directory) : List String := directory.map Prod.fst

/-- Put a node in the place of the one under the name. -/
def replace (name : String) (node : FsNode) : Directory → Directory
  | [] => []
  | child :: children =>
      if child.1 = name then (name, node) :: children else child :: replace name node children

def remove (name : String) : Directory → Directory
  | [] => []
  | child :: children => if child.1 = name then children else child :: remove name children

end Directory

/-- Run an operation on the directory at a path. -/
def inDirectory : List String → (Directory → Except PyExc Directory) → Directory → Except PyExc Directory
  | [], operation, directory => operation directory
  | name :: path, operation, directory =>
      match directory.lookup name with
      | some (.directory children) =>
          (inDirectory path operation children).map fun children => directory.replace name (.directory children)
      | some _ => .error (notADirectoryError name)
      | none => .error (fileNotFoundError name)

/-- The node at a path. -/
def nodeAt : List String → Directory → Option FsNode
  | [], directory => some (.directory directory)
  | [name], directory => directory.lookup name
  | name :: next :: path, directory =>
      match directory.lookup name with
      | some (.directory children) => nodeAt (next :: path) children
      | _ => none

/-- `path.mkdir()` of a name that `mkdtemp` found to be free. -/
def makeDirectory (name : String) (directory : Directory) : Except PyExc Directory :=
  if name ∈ directory.names then .error (fileExistsError name) else .ok (directory ++ [(name, .directory [])])

/-- `target.parent.mkdir(parents=True, exist_ok=True)` and `target.open("xb")`. -/
def createFile : List String → Directory → Except PyExc Directory
  | [], _ => .error (fileExistsError "")
  | [name], directory =>
      if name ∈ directory.names then .error (fileExistsError name) else .ok (directory ++ [(name, .file [])])
  | name :: next :: path, directory =>
      match directory.lookup name with
      | none =>
          (createFile (next :: path) []).map fun children => directory ++ [(name, .directory children)]
      | some (.directory children) =>
          (createFile (next :: path) children).map fun children => directory.replace name (.directory children)
      | some _ => .error (fileExistsError name)

/-- The same for a path with any names; a name with NUL is refused before the file system sees it. -/
def createTarget (path : List String) (directory : Directory) : Except PyExc Directory :=
  if path.any fun name => '\x00' ∈ name.toList then .error (.valueError "embedded null byte")
  else createFile path directory

/-- `handle.write(chunk)` at the end of the open file. -/
def appendFile (chunk : Bytes) : List String → Directory → Except PyExc Directory
  | [], _ => .error (osError "")
  | [name], directory =>
      match directory.lookup name with
      | some (.file data) => .ok (directory.replace name (.file (data ++ chunk)))
      | _ => .error (osError name)
  | name :: next :: path, directory =>
      match directory.lookup name with
      | some (.directory children) =>
          (appendFile chunk (next :: path) children).map fun children => directory.replace name (.directory children)
      | _ => .error (osError name)

/-- `renameat2` with `RENAME_NOREPLACE`. -/
def renameNoreplace (source destination : String) (directory : Directory) : Except PyExc Directory :=
  match directory.lookup source with
  | none => .error (fileNotFoundError source)
  | some node =>
      if destination ∈ directory.names then
        .error (archiveIntegrityError ("restore destination already exists: " ++ destination))
      else .ok (directory.remove source ++ [(destination, node)])

/-- `if staging.exists() and not staging.is_symlink(): shutil.rmtree(staging)`. -/
def removeTree (name : String) (directory : Directory) : Except PyExc Directory :=
  match directory.lookup name with
  | some .symlink => .ok directory
  | _ => .ok (directory.remove name)

/-- The directory at a path with no symlink on the way. -/
def rejectSymlinkAncestry : List String → Directory → Except PyExc Directory
  | [], directory => .ok directory
  | name :: path, directory =>
      match directory.lookup name with
      | none => .error (fileNotFoundError name)
      | some .symlink => .error (archiveIntegrityError "restore destination ancestry contains a symlink")
      | some (.directory children) => rejectSymlinkAncestry path children
      | some _ => .error (archiveIntegrityError "restore destination parent is not a directory")

end TxnOpt.Archive

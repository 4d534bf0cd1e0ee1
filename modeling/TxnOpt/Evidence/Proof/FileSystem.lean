import TxnOpt.Evidence.FileSystem
import TxnOpt.Evidence.Proof.Archive
import TxnOpt.Lib.Keys

/-!
# What the file operations do

A write in a directory leaves everything outside of it as it was, and a file that is made or grows is the
only one that changes.
-/

namespace TxnOpt.Archive

/-! ### Lookups -/

namespace Directory

attribute [local simp] names replace remove

theorem mem_names_iff {directory : Directory} {name : String} :
    name ∈ directory.names ↔ ∃ node, directory.lookup name = some node := by
  induction directory with
  | nil => simp
  | cons child children ih =>
      rw [names, List.map_cons, List.mem_cons, List.lookup_cons]
      by_cases hname : name = child.1
      · simp [hname]
      · rw [beq_false_of_ne hname]
        simp only [hname, false_or]
        exact ih

theorem lookup_eq_none_iff {directory : Directory} {name : String} :
    directory.lookup name = none ↔ name ∉ directory.names := by
  rw [mem_names_iff, Option.eq_none_iff_forall_ne_some]
  simp

theorem lookup_single (name : String) (node : FsNode) : List.lookup name [(name, node)] = some node := by
  simp

theorem lookup_snoc (directory : Directory) (name other : String) (node : FsNode) :
    List.lookup other (directory ++ [(name, node)]) =
      (directory.lookup other).or (if other = name then some node else none) := by
  rw [List.lookup_append]
  by_cases hname : other = name
  · simp [hname]
  · simp [List.lookup_cons, beq_false_of_ne hname, hname]

theorem lookup_replace {directory : Directory} {name : String} (h : name ∈ directory.names) (node : FsNode)
    (other : String) :
    (directory.replace name node).lookup other = if other = name then some node else directory.lookup other := by
  induction directory with
  | nil => simp at h
  | cons child children ih =>
      rw [replace]
      by_cases hchild : child.1 = name
      · rw [if_pos hchild, List.lookup_cons, List.lookup_cons, hchild]
        by_cases hother : other = name
        · simp [hother]
        · simp [beq_false_of_ne hother, hother]
      · have hlater : name ∈ names children := by
          rcases List.mem_cons.mp h with heq | hmem
          · exact absurd heq.symm hchild
          · exact hmem
        rw [if_neg hchild, List.lookup_cons, List.lookup_cons, ih hlater]
        by_cases hother : other = child.1
        · have hne : ¬ other = name := by
            rw [hother]
            exact hchild
          simp [hother, hchild]
        · simp [beq_false_of_ne hother]

theorem replace_replace (directory : Directory) (name : String) (first second : FsNode) :
    (directory.replace name first).replace name second = directory.replace name second := by
  induction directory with
  | nil => rfl
  | cons child children ih =>
      rw [replace, replace]
      by_cases hchild : child.1 = name
      · simp [hchild]
      · rw [if_neg hchild, if_neg hchild, replace, if_neg hchild, ih]

theorem replace_lookup {directory : Directory} {name : String} {node : FsNode}
    (h : directory.lookup name = some node) : directory.replace name node = directory := by
  induction directory with
  | nil => rfl
  | cons child children ih =>
      rw [replace]
      rw [List.lookup_cons] at h
      by_cases hchild : child.1 = name
      · rw [hchild, beq_self_eq_true] at h
        rw [if_pos hchild, ← Option.some.inj h, ← hchild]
      · rw [beq_false_of_ne (Ne.symm hchild)] at h
        rw [if_neg hchild, ih h]

theorem replace_snoc {directory : Directory} {name : String} (h : name ∉ directory.names) (first second : FsNode) :
    Directory.replace name second (directory ++ [(name, first)]) = directory ++ [(name, second)] := by
  induction directory with
  | nil => simp
  | cons child children ih =>
      rw [names, List.map_cons, List.mem_cons, not_or] at h
      rw [List.cons_append, replace, if_neg (Ne.symm h.1), ih h.2, List.cons_append]

theorem remove_snoc {directory : Directory} {name : String} (h : name ∉ directory.names) (node : FsNode) :
    Directory.remove name (directory ++ [(name, node)]) = directory := by
  induction directory with
  | nil => simp
  | cons child children ih =>
      rw [names, List.map_cons, List.mem_cons, not_or] at h
      rw [List.cons_append, remove, if_neg (Ne.symm h.1), ih h.2]

theorem remove_of_not_mem {directory : Directory} {name : String} (h : name ∉ directory.names) :
    directory.remove name = directory := by
  induction directory with
  | nil => rfl
  | cons child children ih =>
      rw [names, List.map_cons, List.mem_cons, not_or] at h
      rw [remove, if_neg (Ne.symm h.1), ih h.2]

end Directory

/-! ### Writing in a directory -/

/-- The root after the directory at a path got new children. -/
def putDirectory : List String → Directory → Directory → Directory
  | [], _, children => children
  | name :: path, root, children =>
      match root.lookup name with
      | some (.directory inner) => root.replace name (.directory (putDirectory path inner children))
      | _ => root

attribute [local simp] putDirectory inDirectory rejectSymlinkAncestry in
/-- The directory under a name on the way to another. -/
theorem rejectSymlinkAncestry_cons {name : String} {path : List String} {root directory : Directory}
    (h : rejectSymlinkAncestry (name :: path) root = .ok directory) :
    ∃ inner, root.lookup name = some (.directory inner) ∧ rejectSymlinkAncestry path inner = .ok directory := by
  rw [rejectSymlinkAncestry] at h
  cases hlookup : root.lookup name with
  | none =>
      rw [hlookup] at h
      cases h
  | some node =>
      rw [hlookup] at h
      cases node with
      | directory inner => exact ⟨inner, rfl, h⟩
      | file data => cases h
      | symlink => cases h
      | special => cases h

theorem inDirectory_eq {path : List String} {root directory : Directory}
    (h : rejectSymlinkAncestry path root = .ok directory) (operation : Directory → Except PyExc Directory) :
    inDirectory path operation root = (operation directory).map (putDirectory path root) := by
  induction path generalizing root with
  | nil =>
      rw [← Except.ok.inj h, inDirectory]
      cases operation root <;> rfl
  | cons name path ih =>
      obtain ⟨inner, hlookup, hinner⟩ := rejectSymlinkAncestry_cons h
      rw [inDirectory, hlookup]
      simp only [ih hinner]
      cases operation directory with
      | error error => rfl
      | ok children => simp [Except.map, putDirectory, hlookup]

theorem rejectSymlinkAncestry_put {path : List String} {root directory : Directory}
    (h : rejectSymlinkAncestry path root = .ok directory) (children : Directory) :
    rejectSymlinkAncestry path (putDirectory path root children) = .ok children := by
  induction path generalizing root with
  | nil => rfl
  | cons name path ih =>
      obtain ⟨inner, hlookup, hinner⟩ := rejectSymlinkAncestry_cons h
      have hname : name ∈ root.names := Directory.mem_names_iff.mpr ⟨_, hlookup⟩
      rw [putDirectory, hlookup, rejectSymlinkAncestry]
      simp only [Directory.lookup_replace hname, if_true]
      exact ih hinner

theorem putDirectory_put {path : List String} {root directory : Directory}
    (h : rejectSymlinkAncestry path root = .ok directory) (first second : Directory) :
    putDirectory path (putDirectory path root first) second = putDirectory path root second := by
  induction path generalizing root with
  | nil => rfl
  | cons name path ih =>
      obtain ⟨inner, hlookup, hinner⟩ := rejectSymlinkAncestry_cons h
      have hname : name ∈ root.names := Directory.mem_names_iff.mpr ⟨_, hlookup⟩
      simp only [putDirectory, hlookup, Directory.lookup_replace hname, if_true, Directory.replace_replace,
        ih hinner]

theorem putDirectory_same {path : List String} {root directory : Directory}
    (h : rejectSymlinkAncestry path root = .ok directory) : putDirectory path root directory = root := by
  induction path generalizing root with
  | nil => exact (Except.ok.inj h).symm
  | cons name path ih =>
      obtain ⟨inner, hlookup, hinner⟩ := rejectSymlinkAncestry_cons h
      rw [putDirectory, hlookup]
      simp only [ih hinner]
      exact Directory.replace_lookup hlookup

theorem rejectSymlinkAncestry_append {path : List String} {root directory : Directory}
    (h : rejectSymlinkAncestry path root = .ok directory) (rest : List String) :
    rejectSymlinkAncestry (path ++ rest) root = rejectSymlinkAncestry rest directory := by
  induction path generalizing root with
  | nil =>
      rw [← Except.ok.inj h]
      rfl
  | cons name path ih =>
      obtain ⟨inner, hlookup, hinner⟩ := rejectSymlinkAncestry_cons h
      rw [List.cons_append, rejectSymlinkAncestry, hlookup]
      exact ih hinner

theorem inDirectory_append (path rest : List String) (operation : Directory → Except PyExc Directory) :
    inDirectory (path ++ rest) operation = inDirectory path (inDirectory rest operation) := by
  induction path with
  | nil => rfl
  | cons name path ih =>
      funext root
      rw [List.cons_append, inDirectory, inDirectory, ih]

/-! ### Files by path -/

/-- The bytes of the file at a path. -/
def fileAt : List String → Directory → Option Bytes
  | [], _ => none
  | name :: path, directory =>
      match directory.lookup name with
      | some (.file data) => if path = [] then some data else none
      | some (.directory children) => fileAt path children
      | _ => none

attribute [local simp] fileAt in
theorem fileAt_of_none {name : String} {directory : Directory} (h : directory.lookup name = none)
    (path : List String) : fileAt (name :: path) directory = none := by
  rw [fileAt, h]

theorem fileAt_of_file {name : String} {directory : Directory} {data : Bytes}
    (h : directory.lookup name = some (.file data)) (path : List String) :
    fileAt (name :: path) directory = if path = [] then some data else none := by
  rw [fileAt, h]

theorem fileAt_of_directory {name : String} {directory children : Directory}
    (h : directory.lookup name = some (.directory children)) (path : List String) :
    fileAt (name :: path) directory = fileAt path children := by
  rw [fileAt, h]

theorem fileAt_congr {name : String} {directory other : Directory}
    (h : directory.lookup name = other.lookup name) (path : List String) :
    fileAt (name :: path) directory = fileAt (name :: path) other := by
  rw [fileAt, fileAt, h]

@[simp]
theorem fileAt_empty (path : List String) : fileAt path [] = none := by
  cases path with
  | nil => rfl
  | cons name path => rfl

/-- No file lies below another. -/
theorem fileAt_of_isPrefix {path longer : List String} {directory : Directory} {data other : Bytes}
    (h : fileAt path directory = some data) (hlonger : fileAt longer directory = some other)
    (hinitial : path <+: longer) : path = longer := by
  induction path generalizing longer directory with
  | nil => cases h
  | cons name path ih =>
      cases longer with
      | nil => cases hlonger
      | cons first longer =>
          obtain ⟨hname, hrest⟩ := List.cons_prefix_cons.mp hinitial
          rw [← hname] at hlonger ⊢
          cases hlookup : directory.lookup name with
          | none =>
              rw [fileAt_of_none hlookup] at h
              cases h
          | some node =>
              cases node with
              | file bytes =>
                  rw [fileAt_of_file hlookup] at h hlonger
                  by_cases hpath : path = []
                  · by_cases hlast : longer = []
                    · rw [hpath, hlast]
                    · rw [if_neg hlast] at hlonger
                      cases hlonger
                  · rw [if_neg hpath] at h
                    cases h
              | directory children =>
                  rw [fileAt_of_directory hlookup] at h hlonger
                  rw [ih h hlonger hrest]
              | symlink =>
                  rw [fileAt, hlookup] at h
                  cases h
              | special =>
                  rw [fileAt, hlookup] at h
                  cases h

theorem mem_iff_lookup {directory : Directory} (hnodup : (directory.map Prod.fst).Nodup) {name : String}
    {node : FsNode} : (name, node) ∈ directory ↔ directory.lookup name = some node :=
  (lookup_eq_some_iff_mem hnodup).symm

/-- In a tree with distinct names, the files are those at the paths. -/
theorem fileAt_eq_some_iff {directory : Directory}
    (hnames : ∀ inner, DirectoryIn inner (.directory directory) → (inner.map Prod.fst).Nodup) {path : List String}
    {data : Bytes} : fileAt path directory = some data ↔ (FsNode.directory directory).FileAt path data := by
  induction path generalizing directory with
  | nil =>
      constructor
      · intro h
        cases h
      · intro h
        cases h
  | cons name path ih =>
      have hmem := @mem_iff_lookup directory (hnames directory .here) name
      constructor
      · intro h
        cases hlookup : directory.lookup name with
        | none =>
            rw [fileAt_of_none hlookup] at h
            cases h
        | some node =>
            have hin := hmem.mpr hlookup
            cases node with
            | file bytes =>
                rw [fileAt_of_file hlookup] at h
                by_cases hpath : path = []
                · rw [if_pos hpath] at h
                  rw [hpath, ← Option.some.inj h]
                  exact .child hin (.file bytes)
                · rw [if_neg hpath] at h
                  cases h
            | directory children =>
                rw [fileAt_of_directory hlookup] at h
                exact .child hin ((ih fun inner hinner => hnames inner (.child hin hinner)).mp h)
            | symlink =>
                rw [fileAt, hlookup] at h
                cases h
            | special =>
                rw [fileAt, hlookup] at h
                cases h
      · intro h
        cases h with
        | @child _ _ node _ _ hchild hfile =>
            have hlookup := hmem.mp hchild
            cases node with
            | file bytes =>
                cases hfile
                rw [fileAt_of_file hlookup, if_pos rfl]
            | directory children =>
                rw [fileAt_of_directory hlookup]
                exact (ih fun inner hinner => hnames inner (.child hchild hinner)).mpr hfile
            | symlink => cases hfile
            | special => cases hfile

/-! ### Files of an inventory -/

theorem openChildDirectory_ok {parent children : Directory} {name : String}
    (h : openChildDirectory parent name = .ok children) : parent.lookup name = some (.directory children) := by
  rw [openChildDirectory] at h
  by_cases hname : IsComponent name
  · rw [if_pos hname] at h
    cases hlookup : parent.lookup name with
    | none =>
        rw [hlookup] at h
        cases h
    | some node =>
        rw [hlookup] at h
        cases node with
        | directory inner => rw [Except.ok.inj h]
        | file data => cases h
        | symlink => cases h
        | special => cases h
  · rw [if_neg hname] at h
    cases h

/-- The directory under a name on the way to another. -/
theorem openDirectoryPath_cons {name : String} {path : List String} {root directory : Directory}
    (h : openDirectoryPath root (name :: path) = .ok directory) :
    ∃ inner, root.lookup name = some (.directory inner) ∧ openDirectoryPath inner path = .ok directory := by
  rw [openDirectoryPath, List.foldlM_cons] at h
  cases hchild : openChildDirectory root name with
  | error error =>
      rw [hchild] at h
      cases h
  | ok inner =>
      rw [hchild] at h
      exact ⟨inner, openChildDirectory_ok hchild, h⟩

theorem WellNamed.openDirectoryPath {path : List String} {root directory : Directory}
    (hnames : WellNamed (.directory root)) (h : openDirectoryPath root path = .ok directory) :
    WellNamed (.directory directory) := by
  induction path generalizing root with
  | nil =>
      rw [← Except.ok.inj h]
      exact hnames
  | cons name path ih =>
      obtain ⟨inner, hlookup, hinner⟩ := openDirectoryPath_cons h
      have hmem := (mem_iff_lookup (hnames root .here).1).mpr hlookup
      exact ih (hnames.child hmem) hinner

theorem fileAt_openDirectoryPath {path : List String} {root directory : Directory}
    (h : openDirectoryPath root path = .ok directory) {name : String} {data : Bytes}
    (hlookup : directory.lookup name = some (.file data)) : fileAt (path ++ [name]) root = some data := by
  induction path generalizing root with
  | nil =>
      rw [← Except.ok.inj h] at hlookup
      rw [List.nil_append, fileAt_of_file hlookup, if_pos rfl]
  | cons first path ih =>
      obtain ⟨inner, hfirst, hinner⟩ := openDirectoryPath_cons h
      rw [List.cons_append, fileAt_of_directory hfirst]
      exact ih hinner

theorem openRelativeRegularFile_ok {directory : Directory} {parts : List String} {data : Bytes}
    (h : openRelativeRegularFile directory parts = .ok data) : fileAt parts directory = some data := by
  rw [openRelativeRegularFile] at h
  cases hlast : parts.getLast? with
  | none =>
      rw [hlast] at h
      cases h
  | some name =>
      rw [hlast] at h
      cases hparent : openDirectoryPath directory parts.dropLast with
      | error error =>
          simp only [hparent] at h
          cases h
      | ok parent =>
          simp only [hparent] at h
          have hfile : openRegularFileAt parent name = .ok data := h
          rw [openRegularFileAt] at hfile
          cases hlookup : parent.lookup name with
          | none =>
              rw [hlookup] at hfile
              cases hfile
          | some node =>
              rw [hlookup] at hfile
              cases node with
              | file bytes =>
                  rw [Except.ok.inj hfile] at hlookup
                  rw [← List.dropLast_append_getLast? name hlast]
                  exact fileAt_openDirectoryPath hparent hlookup
              | directory children => cases hfile
              | symlink => cases hfile
              | special => cases hfile

theorem openInventoryEntry_ok {sha : Sha256} {root : Directory} {source : List String} {entry : ArchiveInventoryEntry}
    {data : Bytes} (h : openInventoryEntry sha root source entry = .ok data) :
    ∃ directory, openDirectoryPath root source = .ok directory ∧
      fileAt (PurePosixPath.of entry.relativePath).parts directory = some data := by
  rw [openInventoryEntry] at h
  cases hdirectory : openDirectoryPath root source with
  | error error =>
      rw [hdirectory] at h
      cases h
  | ok directory =>
      rw [hdirectory] at h
      cases hopen : openRelativeRegularFile directory (PurePosixPath.of entry.relativePath).parts with
      | error error =>
          change (openRelativeRegularFile directory _ >>= _) = _ at h
          rw [hopen] at h
          cases h
      | ok bytes =>
          change (openRelativeRegularFile directory _ >>= _) = _ at h
          rw [hopen] at h
          have hchecked : (if sha.hexdigest bytes ≠ entry.sha256 ∨ bytes.length ≠ entry.size then
              .error (archiveIntegrityError ("archive source changed after inventory: " ++ entry.relativePath))
            else .ok bytes) = Except.ok data := h
          split at hchecked
          · cases hchecked
          · rw [← Except.ok.inj hchecked]
            exact ⟨directory, rfl, openRelativeRegularFile_ok hopen⟩

/-! ### Making files -/

/-- Files, and directories that are not empty. -/
inductive SolidNode : FsNode → Prop
  | file (data : Bytes) : SolidNode (.file data)
  | directory {children : Directory} : children ≠ [] → (∀ child ∈ children, SolidNode child.2) →
      SolidNode (.directory children)

def Solid (directory : Directory) : Prop := ∀ child ∈ directory, SolidNode child.2

theorem mem_of_lookup {directory : Directory} {name : String} {node : FsNode}
    (h : directory.lookup name = some node) : (name, node) ∈ directory := by
  induction directory with
  | nil => cases h
  | cons child children ih =>
      rw [List.lookup_cons] at h
      by_cases hname : name = child.1
      · rw [hname, beq_self_eq_true] at h
        rw [hname, ← Option.some.inj h]
        exact List.mem_cons_self
      · rw [beq_false_of_ne hname] at h
        exact List.mem_cons_of_mem child (ih h)

theorem Solid.lookup {directory : Directory} (hsolid : Solid directory) {name : String} {node : FsNode}
    (h : directory.lookup name = some node) : SolidNode node := hsolid _ (mem_of_lookup h)

theorem SolidNode.holdsFile {node : FsNode} (h : SolidNode node) {directory : Directory} {name : String}
    (hlookup : directory.lookup name = some node) : ∃ path data, fileAt (name :: path) directory = some data := by
  induction h generalizing directory name with
  | file data => exact ⟨[], data, by rw [fileAt_of_file hlookup, if_pos rfl]⟩
  | @directory children hne hchildren ih =>
      cases children with
      | nil => exact absurd rfl hne
      | cons child children =>
          have hfirst : List.lookup child.1 (child :: children) = some child.2 := by
            rw [List.lookup_cons, beq_self_eq_true]
          obtain ⟨path, data, hfile⟩ := ih child List.mem_cons_self hfirst
          exact ⟨child.1 :: path, data, by rw [fileAt_of_directory hlookup]; exact hfile⟩

theorem Solid.snoc {directory : Directory} (hsolid : Solid directory) {name : String} {node : FsNode}
    (hnode : SolidNode node) : Solid (directory ++ [(name, node)]) := by
  intro child hchild
  rcases List.mem_append.mp hchild with hchild | hchild
  · exact hsolid child hchild
  · rw [List.mem_singleton.mp hchild]
    exact hnode

theorem Solid.replace {directory : Directory} (hsolid : Solid directory) (name : String) {node : FsNode}
    (hnode : SolidNode node) : Solid (directory.replace name node) := by
  induction directory with
  | nil => exact hsolid
  | cons child children ih =>
      rw [Solid, List.forall_mem_cons] at hsolid
      rw [Directory.replace]
      by_cases hchild : child.1 = name
      · rw [if_pos hchild, Solid, List.forall_mem_cons]
        exact ⟨hnode, hsolid.2⟩
      · rw [if_neg hchild, Solid, List.forall_mem_cons]
        exact ⟨hsolid.1, ih hsolid.2⟩

theorem Directory.replace_ne_nil {directory : Directory} (h : directory ≠ []) (name : String) (node : FsNode) :
    directory.replace name node ≠ [] := by
  cases directory with
  | nil => exact absurd rfl h
  | cons child children =>
      rw [Directory.replace]
      by_cases hchild : child.1 = name
      · simp [hchild]
      · simp [hchild]

/-- What a write of one file leaves behind. -/
structure Wrote (path : List String) (data : Bytes) (before after : Directory) : Prop where
  files : ∀ other, fileAt other after = if other = path then some data else fileAt other before
  solid : Solid after
  nonempty : after ≠ []

theorem Wrote.trans {path : List String} {data more : Bytes} {first second third : Directory}
    (h : Wrote path data first second) (h' : Wrote path more second third) : Wrote path more first third := by
  refine ⟨?_, h'.solid, h'.nonempty⟩
  intro other
  rw [h'.files other, h.files other]
  by_cases hother : other = path
  · simp [hother]
  · simp [hother]

theorem wrote_snoc {directory : Directory} {name : String} (hname : name ∉ directory.names)
    (hsolid : Solid directory) {path : List String} {data : Bytes} {node : FsNode} (hnode : SolidNode node)
    (hfiles : ∀ other, fileAt (name :: other) [(name, node)] = if other = path then some data else none) :
    Wrote (name :: path) data directory (directory ++ [(name, node)]) := by
  refine ⟨?_, hsolid.snoc hnode, by simp⟩
  intro other
  cases other with
  | nil => simp [fileAt]
  | cons first other =>
      have hlookup := Directory.lookup_snoc directory name first node
      by_cases hfirst : first = name
      · have hnone := Directory.lookup_eq_none_iff.mpr hname
        have hsame : List.lookup first (directory ++ [(name, node)]) = List.lookup first [(name, node)] := by
          rw [hlookup, hfirst, hnone]
          simp
        rw [fileAt_congr hsame, hfirst, hfiles other, fileAt_of_none hnone]
        simp
      · have hsame : List.lookup first (directory ++ [(name, node)]) = List.lookup first directory := by
          rw [hlookup, if_neg hfirst, Option.or_none]
        rw [fileAt_congr hsame, if_neg]
        simp [hfirst]

theorem wrote_replace {directory children inner : Directory} {name : String} (hsolid : Solid directory)
    (hlookup : directory.lookup name = some (.directory children)) {path : List String} {data : Bytes}
    (h : Wrote path data children inner) :
    Wrote (name :: path) data directory (directory.replace name (.directory inner)) := by
  have hname : name ∈ directory.names := Directory.mem_names_iff.mpr ⟨_, hlookup⟩
  have hne : directory ≠ [] := by
    intro hnil
    rw [hnil] at hlookup
    cases hlookup
  refine ⟨?_, hsolid.replace name (.directory h.nonempty h.solid), Directory.replace_ne_nil hne name _⟩
  intro other
  cases other with
  | nil => simp [fileAt]
  | cons first other =>
      have hfirst := Directory.lookup_replace hname (.directory inner) first
      by_cases heq : first = name
      · rw [if_pos heq] at hfirst
        rw [fileAt_of_directory hfirst, h.files other, heq, fileAt_of_directory hlookup]
        simp
      · rw [if_neg heq] at hfirst
        rw [fileAt_congr hfirst, if_neg]
        simp [heq]

/-- A path that no file is on, and that is on no file. -/
def Free (path : List String) (directory : Directory) : Prop :=
  ∀ other data, fileAt other directory = some data → ¬ other <+: path ∧ ¬ path <+: other

theorem Free.child {name : String} {path : List String} {directory children : Directory}
    (h : Free (name :: path) directory) (hlookup : directory.lookup name = some (.directory children)) :
    Free path children := by
  intro other data hfile
  rw [← fileAt_of_directory hlookup] at hfile
  have hprefixes := h (name :: other) data hfile
  rw [List.cons_prefix_cons, List.cons_prefix_cons] at hprefixes
  exact ⟨fun hp => hprefixes.1 ⟨rfl, hp⟩, fun hp => hprefixes.2 ⟨rfl, hp⟩⟩

theorem createFile_wrote {path : List String} (hpath : path ≠ []) {directory : Directory} (hsolid : Solid directory)
    (hfree : Free path directory) : ∃ after, createFile path directory = .ok after ∧ Wrote path [] directory after := by
  induction path generalizing directory with
  | nil => exact absurd rfl hpath
  | cons name path ih =>
      cases path with
      | nil =>
          have hname : name ∉ directory.names := by
            intro hmem
            obtain ⟨node, hlookup⟩ := Directory.mem_names_iff.mp hmem
            obtain ⟨rest, data, hfile⟩ := (hsolid.lookup hlookup).holdsFile hlookup
            exact (hfree (name :: rest) data hfile).2 ⟨rest, rfl⟩
          refine ⟨_, by rw [createFile, if_neg hname], ?_⟩
          apply wrote_snoc hname hsolid (.file [])
          intro other
          rw [fileAt_of_file (Directory.lookup_single name (.file []))]
      | cons next path =>
          cases hlookup : directory.lookup name with
          | none =>
              have hempty : Solid [] := by
                intro child hchild
                cases hchild
              obtain ⟨inner, hinner, hwrote⟩ := ih (by simp) hempty (by simp [Free])
              refine ⟨directory ++ [(name, .directory inner)], ?_, ?_⟩
              · rw [createFile, hlookup]
                simp only [hinner]
                rfl
              · apply wrote_snoc (Directory.lookup_eq_none_iff.mp hlookup) hsolid
                  (.directory hwrote.nonempty hwrote.solid)
                intro other
                rw [fileAt_of_directory (Directory.lookup_single name (.directory inner)), hwrote.files other]
                simp
          | some node =>
              have hnode := hsolid.lookup hlookup
              cases hnode with
              | file data =>
                  have hfile : fileAt [name] directory = some data := by rw [fileAt_of_file hlookup, if_pos rfl]
                  exact absurd ⟨next :: path, rfl⟩ (hfree [name] data hfile).1
              | @directory children hne hchildren =>
                  obtain ⟨inner, hinner, hwrote⟩ := ih (by simp) hchildren (hfree.child hlookup)
                  refine ⟨directory.replace name (.directory inner), ?_, wrote_replace hsolid hlookup hwrote⟩
                  rw [createFile, hlookup]
                  simp only [hinner]
                  rfl

theorem wrote_replace_file {directory : Directory} {name : String} {data more : Bytes} (hsolid : Solid directory)
    (hlookup : directory.lookup name = some (.file data)) :
    Wrote [name] more directory (directory.replace name (.file more)) := by
  have hname : name ∈ directory.names := Directory.mem_names_iff.mpr ⟨_, hlookup⟩
  have hne : directory ≠ [] := by
    intro hnil
    rw [hnil] at hlookup
    cases hlookup
  refine ⟨?_, hsolid.replace name (.file more), Directory.replace_ne_nil hne name _⟩
  intro other
  cases other with
  | nil => simp [fileAt]
  | cons first other =>
      have hfirst := Directory.lookup_replace hname (.file more) first
      by_cases heq : first = name
      · rw [if_pos heq] at hfirst
        rw [fileAt_of_file hfirst, heq, fileAt_of_file hlookup]
        by_cases hother : other = []
        · simp [hother]
        · simp [hother]
      · rw [if_neg heq] at hfirst
        rw [fileAt_congr hfirst, if_neg]
        simp [heq]

theorem appendFile_wrote {path : List String} {directory : Directory} (hsolid : Solid directory) {data : Bytes}
    (hfile : fileAt path directory = some data) (chunk : Bytes) :
    ∃ after, appendFile chunk path directory = .ok after ∧ Wrote path (data ++ chunk) directory after := by
  induction path generalizing directory with
  | nil => cases hfile
  | cons name path ih =>
      cases hlookup : directory.lookup name with
      | none =>
          rw [fileAt_of_none hlookup] at hfile
          cases hfile
      | some node =>
          have hnode := hsolid.lookup hlookup
          cases hnode with
          | file bytes =>
              rw [fileAt_of_file hlookup] at hfile
              by_cases hpath : path = []
              · rw [if_pos hpath] at hfile
                rw [hpath, ← Option.some.inj hfile]
                refine ⟨directory.replace name (.file (bytes ++ chunk)), ?_, wrote_replace_file hsolid hlookup⟩
                rw [appendFile, hlookup]
              · rw [if_neg hpath] at hfile
                cases hfile
          | @directory children hne hchildren =>
              rw [fileAt_of_directory hlookup] at hfile
              obtain ⟨inner, hinner, hwrote⟩ := ih hchildren hfile
              refine ⟨directory.replace name (.directory inner), ?_, wrote_replace hsolid hlookup hwrote⟩
              cases path with
              | nil => cases hfile
              | cons next path =>
                  rw [appendFile, hlookup]
                  simp only [hinner]
                  rfl

end TxnOpt.Archive

import TxnOpt.Evidence.Archive
import TxnOpt.Evidence.Proof.Codec
import Mathlib.Tactic.Common

/-!
# What an inventory lists

The walk visits the names of each directory in order, and lists the files of a regular tree once each. The
paths it lists are in order exactly when no directory has a sibling whose name goes on with a character
below `/`.
-/

namespace TxnOpt.Archive

/-! ### Regular trees -/

/-- There is a file with these bytes at a path below the node. -/
inductive FsNode.FileAt : FsNode → List String → Bytes → Prop
  | file (data : Bytes) : FileAt (.file data) [] data
  | child {children : Directory} {name : String} {node : FsNode} {path : List String} {data : Bytes} :
      (name, node) ∈ children → FileAt node path data → FileAt (.directory children) (name :: path) data

def FsNode.HoldsFile (node : FsNode) : Prop := ∃ path data, node.FileAt path data

/-- A directory of the tree under a node. -/
inductive DirectoryIn (directory : Directory) : FsNode → Prop
  | here : DirectoryIn directory (.directory directory)
  | child {children : Directory} {name : String} {node : FsNode} :
      (name, node) ∈ children → DirectoryIn directory node → DirectoryIn directory (.directory children)

/-- A name that a file system can hold. -/
def FileName (name : String) : Prop := name ≠ "" ∧ name ≠ "." ∧ name ≠ ".." ∧ '/' ∉ name.toList

instance (name : String) : Decidable (FileName name) := inferInstanceAs (Decidable (_ ∧ _))

structure RegularDirectory (directory : Directory) : Prop where
  namesNodup : (directory.map Prod.fst).Nodup
  fileName : ∀ child ∈ directory, FileName child.1
  noBackslash : ∀ child ∈ directory, '\\' ∉ child.1.toList
  kind : ∀ child ∈ directory, (∃ data, child.2 = .file data) ∨ ∃ children, child.2 = .directory children

/-- A tree of regular files and directories, without a backslash in a name. -/
def Regular (node : FsNode) : Prop := ∀ directory, DirectoryIn directory node → RegularDirectory directory

/-- No name of the directory is the name of a subdirectory followed by a character below `/`, where both
hold files. -/
def SiblingsApart (directory : Directory) : Prop :=
  ∀ name children other node, (name, .directory children) ∈ directory → (other, node) ∈ directory →
    (FsNode.directory children).HoldsFile → node.HoldsFile →
    ∀ character rest, other.toList = name.toList ++ character :: rest → '/' < character

theorem sizeOf_child {children : Directory} {child : String × FsNode} (h : child ∈ children) :
    sizeOf child.2 < sizeOf (FsNode.directory children) := by
  have hlt := List.sizeOf_lt_of_mem h
  cases child
  simp at hlt ⊢
  omega

theorem FsNode.induct {motive : FsNode → Prop} (file : ∀ data, motive (.file data)) (symlink : motive .symlink)
    (special : motive .special)
    (directory : ∀ children : Directory, (∀ child ∈ children, motive child.2) → motive (.directory children)) :
    ∀ node, motive node
  | .file data => file data
  | .symlink => symlink
  | .special => special
  | .directory children => directory children fun child _ =>
      FsNode.induct file symlink special directory child.2
termination_by node => sizeOf node
decreasing_by exact sizeOf_child (by assumption)

theorem Regular.child {children : Directory} (h : Regular (.directory children)) {child : String × FsNode}
    (hchild : child ∈ children) : Regular child.2 := by
  intro directory hdirectory
  exact h directory (.child hchild hdirectory)

theorem Regular.here {children : Directory} (h : Regular (.directory children)) : RegularDirectory children :=
  h children .here

theorem regular_file (data : Bytes) : Regular (.file data) := by
  intro directory hdirectory
  cases hdirectory

theorem regular_directory_iff {children : Directory} :
    Regular (.directory children) ↔ RegularDirectory children ∧ ∀ child ∈ children, Regular child.2 := by
  constructor
  · intro h
    exact ⟨h.here, fun child hchild => h.child hchild⟩
  · intro h directory hdirectory
    cases hdirectory with
    | here => exact h.1
    | child hchild hdirectory => exact h.2 _ hchild directory hdirectory

/-! ### The files in walk order -/

mutual

/-- The paths and bytes of the files below a node, in the order of the walk. -/
def FsNode.files : FsNode → List (List String × Bytes)
  | .file data => [([], data)]
  | .directory children =>
      (sortedBy Prod.fst (namedFiles children)).flatMap fun named =>
        named.2.map fun file => (named.1 :: file.1, file.2)
  | .symlink => []
  | .special => []

def namedFiles : Directory → List (String × List (List String × Bytes))
  | [] => []
  | (name, node) :: names => (name, node.files) :: namedFiles names

end

theorem namedFiles_eq (directory : Directory) :
    namedFiles directory = directory.map fun child => (child.1, child.2.files) := by
  induction directory with
  | nil => rfl
  | cons child names ih => rw [namedFiles, ih, List.map_cons]

/-- The files of one child of a directory. -/
def childFiles (child : String × FsNode) : List (List String × Bytes) :=
  child.2.files.map fun file => (child.1 :: file.1, file.2)

theorem files_directory (children : Directory) :
    (FsNode.directory children).files = (sortedBy Prod.fst children).flatMap childFiles := by
  rw [FsNode.files, namedFiles_eq, sortedBy_map, List.flatMap_map]
  rfl

theorem mem_files_iff (node : FsNode) :
    ∀ path data, (path, data) ∈ node.files ↔ node.FileAt path data := by
  induction node using FsNode.induct with
  | file data =>
      intro path other
      rw [FsNode.files, List.mem_singleton]
      constructor
      · intro h
        rw [(Prod.mk.inj h).1, (Prod.mk.inj h).2]
        exact .file data
      · intro h
        cases h
        rfl
  | symlink =>
      intro path data
      constructor
      · intro h
        cases h
      · intro h
        cases h
  | special =>
      intro path data
      constructor
      · intro h
        cases h
      · intro h
        cases h
  | directory children ih =>
      intro path data
      rw [files_directory, List.mem_flatMap]
      constructor
      · intro h
        obtain ⟨child, hchild, hfile⟩ := h
        obtain ⟨file, hmem, heq⟩ := List.mem_map.mp hfile
        have hin := mem_sortedBy.mp hchild
        rw [← (Prod.mk.inj heq).1, ← (Prod.mk.inj heq).2]
        exact .child hin ((ih child hin file.1 file.2).mp hmem)
      · intro h
        cases h with
        | @child _ name node rest _ hchild hfile =>
            refine ⟨(name, node), mem_sortedBy.mpr hchild, ?_⟩
            exact List.mem_map.mpr ⟨(rest, data), (ih (name, node) hchild rest data).mpr hfile, rfl⟩

/-! ### Paths of files -/

/-- The text of a path after its first component. -/
def tailText (parts : List String) : List Char := parts.flatMap fun part => '/' :: part.toList

theorem intercalate_cons (name : String) (parts : List String) :
    ("/".intercalate (name :: parts)).toList = name.toList ++ tailText parts := by
  rw [String.toList_intercalate, List.map_cons]
  change ['/'].intercalate (name.toList :: parts.map String.toList) = _
  induction parts generalizing name with
  | nil => simp [tailText]
  | cons next parts ih =>
      rw [List.map_cons, List.intercalate_cons_cons, ih next]
      simp [tailText]

theorem FileName.of_intercalate {parts : List String} (hparts : ∀ part ∈ parts, FileName part)
    (hne : parts ≠ []) : PurePosixPath.of ("/".intercalate parts) = ⟨"", parts⟩ := by
  have hroot : PurePosixPath.rootOf ("/".intercalate parts).toList = "" := by
    cases parts with
    | nil => exact absurd rfl hne
    | cons name parts =>
        obtain ⟨hempty, -, -, hslash⟩ := hparts name List.mem_cons_self
        rw [intercalate_cons]
        cases hname : name.toList with
        | nil => exact absurd (String.toList_eq_nil_iff.mp hname) hempty
        | cons c text =>
            have hc : '/' ≠ c := by
              intro heq
              rw [hname, heq] at hslash
              exact hslash List.mem_cons_self
            simp [PurePosixPath.rootOf, hc]
  have hparts : PurePosixPath.partsOf ("/".intercalate parts).toList = parts := by
    have hslash : ∀ text ∈ parts.map String.toList, '/' ∉ text := by
      intro text htext
      obtain ⟨part, hpart, heq⟩ := List.mem_map.mp htext
      rw [← heq]
      exact (hparts part hpart).2.2.2
    have hsplit : (("/".intercalate parts).toList).splitOn '/' = parts.map String.toList := by
      rw [String.toList_intercalate]
      exact List.splitOn_intercalate '/' hslash (by simpa using hne)
    rw [PurePosixPath.partsOf, hsplit, List.map_map]
    have hid : (String.ofList ∘ String.toList : String → String) = id := by
      funext part
      simp
    rw [hid, List.map_id, List.filter_eq_self]
    intro part hpart
    obtain ⟨hempty, hdot, -, -⟩ := hparts part hpart
    simp [hempty, hdot]
  rw [PurePosixPath.of, hroot, hparts]

theorem FileName.isRelativePath {parts : List String} (hparts : ∀ part ∈ parts, FileName part)
    (hbackslash : ∀ part ∈ parts, '\\' ∉ part.toList) (hne : parts ≠ []) :
    IsRelativePath ("/".intercalate parts) := by
  have hof := FileName.of_intercalate hparts hne
  refine ⟨?_, ?_, by rw [hof], ?_, ?_, ?_⟩
  · intro hempty
    rw [hempty] at hof
    exact hne (congrArg PurePosixPath.parts hof).symm
  · cases parts with
    | nil => exact absurd rfl hne
    | cons name parts =>
        rw [intercalate_cons, List.mem_append, tailText, List.mem_flatMap]
        intro hmem
        rcases hmem with hmem | ⟨part, hpart, hmem⟩
        · exact hbackslash name List.mem_cons_self hmem
        · rcases List.mem_cons.mp hmem with hslash | hmem
          · exact absurd hslash (by decide)
          · exact hbackslash part (List.mem_cons_of_mem name hpart) hmem
  · rw [hof, PurePosixPath.asPosix, if_neg (by simpa using hne)]
    simp
  · intro hdot
    rw [hdot] at hof
    exact hne (congrArg PurePosixPath.parts hof).symm
  · rw [hof]
    intro part hpart hmem
    obtain ⟨hempty, hdot, hdots, -⟩ := hparts part hpart
    simp [hempty, hdot, hdots] at hmem

/-! ### The walk -/

/-- What an entry records. -/
def ArchiveInventoryEntry.record (entry : ArchiveInventoryEntry) : String × String × ℕ :=
  (entry.relativePath, entry.sha256, entry.size)

variable (sha : Sha256)

/-- What the walk records for a file. -/
def fileRecord (file : List String × Bytes) : String × String × ℕ :=
  ("/".intercalate file.1, sha.hexdigest file.2, file.2.length)

theorem inventoryNames_eq (path : PurePosixPath) (directory : Directory) :
    inventoryNames sha path directory =
      directory.map fun child => (child.1, inventoryNode sha (path.join child.1) child.1 child.2) := by
  induction directory with
  | nil => rfl
  | cons child names ih => rw [inventoryNames, ih, List.map_cons]

theorem inventoryDirectory_eq (path : PurePosixPath) (directory : Directory) :
    inventoryDirectory sha path directory =
      ((sortedBy Prod.fst directory).mapM fun child =>
        inventoryNode sha (path.join child.1) child.1 child.2).map List.flatten := by
  rw [inventoryDirectory, inNameOrder, inventoryNames_eq, sortedBy_map, List.mapM_map]
  rfl

theorem mapM_flatten {α β γ : Type} {walk : α → Except PyExc (List β)} {record : β → γ} {spec : α → List γ}
    {items : List α} (h : ∀ item ∈ items, ∃ entries, walk item = .ok entries ∧ entries.map record = spec item) :
    ∃ entries, (items.mapM walk).map List.flatten = .ok entries ∧ entries.map record = items.flatMap spec := by
  induction items with
  | nil => exact ⟨[], rfl, rfl⟩
  | cons item items ih =>
      obtain ⟨first, hfirst, hrecord⟩ := h item List.mem_cons_self
      obtain ⟨later, hlater, hrecords⟩ := ih fun other hother => h other (List.mem_cons_of_mem item hother)
      cases hwalks : items.mapM walk with
      | error error =>
          rw [hwalks] at hlater
          cases hlater
      | ok walks =>
          rw [hwalks] at hlater
          have hflat : walks.flatten = later := Except.ok.inj hlater
          refine ⟨first ++ later, ?_, ?_⟩
          · rw [List.mapM_cons, hfirst, hwalks, ← hflat]
            rfl
          · rw [List.map_append, hrecord, hrecords, List.flatMap_cons]

/-- A path of a regular tree, on the way to a node. -/
def Walked (parts : List String) : Prop := ∀ part ∈ parts, FileName part ∧ '\\' ∉ part.toList

theorem join_name {parts : List String} {name : String} (hname : FileName name) :
    PurePosixPath.join ⟨"", parts⟩ name = ⟨"", parts ++ [name]⟩ := by
  have hof : PurePosixPath.of name = ⟨"", [name]⟩ := by
    have hparts : ∀ part ∈ [name], FileName part := by
      intro part hpart
      rw [List.mem_singleton.mp hpart]
      exact hname
    have hsingle := FileName.of_intercalate hparts (by simp)
    rwa [String.intercalate_singleton] at hsingle
  rw [PurePosixPath.join, hof, if_pos rfl]

theorem make_file {parts : List String} (hparts : Walked parts) (hne : parts ≠ []) (data : Bytes) :
    ∃ entry, ArchiveInventoryEntry.make ("/".intercalate parts) (sha.hexdigest data) data.length = .ok entry ∧
      entry.record = fileRecord sha (parts, data) := by
  have hpath : IsRelativePath ("/".intercalate parts) :=
    FileName.isRelativePath (fun part hpart => (hparts part hpart).1) (fun part hpart => (hparts part hpart).2) hne
  refine ⟨⟨_, _, data.length, hpath, sha.isSha256 data⟩, ?_, rfl⟩
  rw [ArchiveInventoryEntry.make, dif_pos hpath, dif_pos (sha.isSha256 data),
    if_neg (Int.not_lt.mpr (Int.natCast_nonneg _))]
  rfl

theorem Walked.snoc {parts : List String} (hparts : Walked parts) {children : Directory}
    (hchildren : RegularDirectory children) {child : String × FsNode} (hchild : child ∈ children) :
    Walked (parts ++ [child.1]) := by
  intro part hpart
  rcases List.mem_append.mp hpart with hpart | hpart
  · exact hparts part hpart
  · rw [List.mem_singleton.mp hpart]
    exact ⟨hchildren.fileName child hchild, hchildren.noBackslash child hchild⟩

theorem inventoryDirectory_records {children : Directory} (hchildren : RegularDirectory children)
    {parts : List String}
    (hnodes : ∀ child ∈ children, ∃ entries,
      inventoryNode sha ⟨"", parts ++ [child.1]⟩ child.1 child.2 = .ok entries ∧
        entries.map ArchiveInventoryEntry.record =
          child.2.files.map fun file => fileRecord sha (parts ++ [child.1] ++ file.1, file.2)) :
    ∃ entries, inventoryDirectory sha ⟨"", parts⟩ children = .ok entries ∧
      entries.map ArchiveInventoryEntry.record =
        (FsNode.directory children).files.map fun file => fileRecord sha (parts ++ file.1, file.2) := by
  have hwalks : ∀ child ∈ sortedBy Prod.fst children, ∃ entries,
      inventoryNode sha (PurePosixPath.join ⟨"", parts⟩ child.1) child.1 child.2 = .ok entries ∧
        entries.map ArchiveInventoryEntry.record =
          (childFiles child).map fun file => fileRecord sha (parts ++ file.1, file.2) := by
    intro child hchild
    have hin := mem_sortedBy.mp hchild
    obtain ⟨entries, hnode, hrecords⟩ := hnodes child hin
    refine ⟨entries, ?_, ?_⟩
    · rw [join_name (hchildren.fileName child hin), hnode]
    · rw [hrecords, childFiles, List.map_map]
      simp
  obtain ⟨entries, hentries, hrecords⟩ := mapM_flatten hwalks
  refine ⟨entries, ?_, ?_⟩
  · rw [inventoryDirectory_eq]
    exact hentries
  · rw [hrecords, files_directory, List.map_flatMap]

theorem inventoryNode_records (node : FsNode) :
    ∀ {parts : List String} {name : String}, Regular node → node ≠ .symlink → node ≠ .special →
      Walked (parts ++ [name]) →
      ∃ entries, inventoryNode sha ⟨"", parts ++ [name]⟩ name node = .ok entries ∧
        entries.map ArchiveInventoryEntry.record =
          node.files.map fun file => fileRecord sha (parts ++ [name] ++ file.1, file.2) := by
  induction node using FsNode.induct with
  | file data =>
      intro parts name _ _ _ hwalked
      obtain ⟨entry, hentry, hrecord⟩ := make_file sha hwalked (by simp) data
      refine ⟨[entry], ?_, ?_⟩
      · rw [inventoryNode, PurePosixPath.asPosix, if_neg (by simp)]
        simp only [String.empty_append]
        rw [hentry]
        rfl
      · rw [List.map_singleton, hrecord]
        simp [FsNode.files]
  | symlink =>
      intro parts name _ hkind
      exact absurd rfl hkind
  | special =>
      intro parts name _ _ hkind
      exact absurd rfl hkind
  | directory children ih =>
      intro parts name hregular _ _ hwalked
      have hchildren := hregular.here
      have hname : IsComponent name := by
        obtain ⟨⟨hempty, hdot, hdots, hslash⟩, hbackslash⟩ := hwalked name (by simp)
        exact ⟨by simp [hempty, hdot, hdots], hslash, hbackslash⟩
      have hnodes : ∀ child ∈ children, ∃ entries,
          inventoryNode sha ⟨"", parts ++ [name] ++ [child.1]⟩ child.1 child.2 = .ok entries ∧
            entries.map ArchiveInventoryEntry.record = child.2.files.map fun file =>
              fileRecord sha (parts ++ [name] ++ [child.1] ++ file.1, file.2) := by
        intro child hchild
        apply ih child hchild (hregular.child hchild)
        · rcases hchildren.kind child hchild with ⟨data, hkind⟩ | ⟨inner, hkind⟩ <;> rw [hkind] <;> simp
        · rcases hchildren.kind child hchild with ⟨data, hkind⟩ | ⟨inner, hkind⟩ <;> rw [hkind] <;> simp
        · exact hwalked.snoc hchildren hchild
      obtain ⟨entries, hentries, hrecords⟩ := inventoryDirectory_records sha hchildren hnodes
      refine ⟨entries, ?_, hrecords⟩
      rw [inventoryNode, if_neg (not_not_intro hname)]
      exact hentries

/-! ### Walks that succeeded -/

/-- The names of a file system: distinct in a directory, and without `/` and NUL. -/
def WellNamed (node : FsNode) : Prop :=
  ∀ directory, DirectoryIn directory node →
    (directory.map Prod.fst).Nodup ∧ ∀ child ∈ directory, FileName child.1 ∧ '\x00' ∉ child.1.toList

theorem WellNamed.child {children : Directory} (h : WellNamed (.directory children)) {child : String × FsNode}
    (hchild : child ∈ children) : WellNamed child.2 := by
  intro directory hdirectory
  exact h directory (.child hchild hdirectory)

theorem wellNamed_file (data : Bytes) : WellNamed (.file data) := by
  intro directory hdirectory
  cases hdirectory

theorem wellNamed_directory {children : Directory} (hnodup : (children.map Prod.fst).Nodup)
    (hchildren : ∀ child ∈ children, (FileName child.1 ∧ '\x00' ∉ child.1.toList) ∧ WellNamed child.2) :
    WellNamed (.directory children) := by
  intro directory hdirectory
  cases hdirectory with
  | here => exact ⟨hnodup, fun child hchild => (hchildren child hchild).1⟩
  | child hmem hinner => exact (hchildren _ hmem).2 directory hinner

theorem make_entry_ok {relativePath sha256 : String} {size : ℕ} {entry : ArchiveInventoryEntry}
    (h : ArchiveInventoryEntry.make relativePath sha256 size = .ok entry) :
    entry.record = (relativePath, sha256, size) := by
  rw [ArchiveInventoryEntry.make] at h
  split at h
  · split at h
    · rw [if_neg (Int.not_lt.mpr (Int.natCast_nonneg _))] at h
      cases h
      rfl
    · cases h
  · cases h

theorem mapM_ok_of_mem {α β : Type} {walk : α → Except PyExc β} :
    ∀ {items : List α} {walks : List β}, items.mapM walk = .ok walks → ∀ {item : α}, item ∈ items →
      ∃ found, walk item = .ok found
  | first :: items, walks, h, item, hitem => by
      rw [List.mapM_cons] at h
      cases hfirst : walk first with
      | error error =>
          rw [hfirst] at h
          cases h
      | ok found =>
          rw [hfirst] at h
          rcases List.mem_cons.mp hitem with heq | hitem
          · exact ⟨found, by rw [heq, hfirst]⟩
          · cases hlater : items.mapM walk with
            | error error =>
                change (items.mapM walk >>= _) = _ at h
                rw [hlater] at h
                cases h
            | ok later => exact mapM_ok_of_mem hlater hitem

theorem mapM_flatten_ok {α β γ : Type} {walk : α → Except PyExc (List β)} {record : β → γ} {spec : α → List γ}
    {items : List α} (hspec : ∀ item ∈ items, ∀ entries, walk item = .ok entries → entries.map record = spec item)
    {entries : List β} (h : (items.mapM walk).map List.flatten = .ok entries) :
    entries.map record = items.flatMap spec := by
  have hok : ∀ item ∈ items, ∃ found, walk item = .ok found := by
    intro item hitem
    cases hwalks : items.mapM walk with
    | error error =>
        rw [hwalks] at h
        cases h
    | ok walks => exact mapM_ok_of_mem hwalks hitem
  have hwalked : ∀ item ∈ items, ∃ found, walk item = .ok found ∧ found.map record = spec item := by
    intro item hitem
    obtain ⟨found, hfound⟩ := hok item hitem
    exact ⟨found, hfound, hspec item hitem found hfound⟩
  obtain ⟨found, hfound, hrecords⟩ := mapM_flatten hwalked
  rw [hfound] at h
  rw [← Except.ok.inj h, hrecords]

theorem inventoryDirectory_ok_of {children : Directory} (hnames : ∀ child ∈ children, FileName child.1)
    {parts : List String}
    (hnodes : ∀ child ∈ children, ∀ entries,
      inventoryNode sha ⟨"", parts ++ [child.1]⟩ child.1 child.2 = .ok entries →
        entries.map ArchiveInventoryEntry.record =
          child.2.files.map fun file => fileRecord sha (parts ++ [child.1] ++ file.1, file.2))
    {entries : List ArchiveInventoryEntry}
    (h : inventoryDirectory sha ⟨"", parts⟩ children = .ok entries) :
    entries.map ArchiveInventoryEntry.record =
      (FsNode.directory children).files.map fun file => fileRecord sha (parts ++ file.1, file.2) := by
  rw [inventoryDirectory_eq] at h
  have hspec : ∀ child ∈ sortedBy Prod.fst children, ∀ found,
      inventoryNode sha (PurePosixPath.join ⟨"", parts⟩ child.1) child.1 child.2 = .ok found →
        found.map ArchiveInventoryEntry.record =
          (childFiles child).map fun file => fileRecord sha (parts ++ file.1, file.2) := by
    intro child hchild found hfound
    have hin := mem_sortedBy.mp hchild
    rw [join_name (hnames child hin)] at hfound
    rw [hnodes child hin found hfound, childFiles, List.map_map]
    simp
  rw [mapM_flatten_ok hspec h, files_directory, List.map_flatMap]

theorem inventoryNode_ok (node : FsNode) :
    ∀ {parts : List String} {name : String} {entries : List ArchiveInventoryEntry}, WellNamed node →
      inventoryNode sha ⟨"", parts ++ [name]⟩ name node = .ok entries →
      entries.map ArchiveInventoryEntry.record =
        node.files.map fun file => fileRecord sha (parts ++ [name] ++ file.1, file.2) := by
  induction node using FsNode.induct with
  | file data =>
      intro parts name entries _ h
      rw [inventoryNode, PurePosixPath.asPosix, if_neg (by simp)] at h
      simp only [String.empty_append] at h
      cases hmake : ArchiveInventoryEntry.make ("/".intercalate (parts ++ [name])) (sha.hexdigest data) data.length with
      | error error =>
          rw [hmake] at h
          cases h
      | ok entry =>
          rw [hmake] at h
          cases h
          rw [List.map_singleton, make_entry_ok hmake]
          simp [FsNode.files, fileRecord]
  | symlink =>
      intro parts name entries _ h
      cases h
  | special =>
      intro parts name entries _ h
      cases h
  | directory children ih =>
      intro parts name entries hnamed h
      rw [inventoryNode] at h
      by_cases hname : IsComponent name
      · rw [if_neg (not_not_intro hname)] at h
        exact inventoryDirectory_ok_of sha (fun child hchild => ((hnamed children .here).2 child hchild).1)
          (fun child hchild entries hnode => ih child hchild (hnamed.child hchild) hnode) h
      · rw [if_pos hname] at h
        cases h

/-! ### The order of the paths -/

/-- The paths that the walk lists below a node are in order. -/
def PathsIncreasing (files : List (List String × Bytes)) : Prop :=
  files.Pairwise fun first second => tailText first.1 < tailText second.1

theorem tailText_cons (name : String) (parts : List String) :
    tailText (name :: parts) = '/' :: (name.toList ++ tailText parts) := by
  simp [tailText]

theorem tailText_lt_iff (name other : String) (parts others : List String) :
    tailText (name :: parts) < tailText (other :: others) ↔
      name.toList ++ tailText parts < other.toList ++ tailText others := by
  rw [tailText_cons, tailText_cons, List.cons_lt_cons_iff]
  simp

theorem childFiles_increasing_iff (child : String × FsNode) :
    PathsIncreasing (childFiles child) ↔ PathsIncreasing child.2.files := by
  rw [PathsIncreasing, childFiles, List.pairwise_map, PathsIncreasing]
  simp only [tailText_lt_iff, append_lt_append_left_iff]

/-- A name before another in a directory keeps its files before those of the other. -/
def FilesBefore (child other : String × FsNode) : Prop :=
  ∀ first ∈ childFiles child, ∀ second ∈ childFiles other, tailText first.1 < tailText second.1

theorem filesBefore_of_file {child other : String × FsNode} (hlt : child.1 < other.1) {data : Bytes}
    (hfile : child.2 = .file data) : FilesBefore child other := by
  intro first hfirst second hsecond
  rw [childFiles, hfile, FsNode.files, List.map_singleton, List.mem_singleton] at hfirst
  obtain ⟨file, -, heq⟩ := List.mem_map.mp hsecond
  rw [hfirst, ← heq, tailText_lt_iff, append_lt_append_iff (String.lt_iff_toList_lt.mp hlt)]
  intro rest hrest
  cases rest with
  | nil =>
      rw [List.append_nil] at hrest
      rw [String.toList_inj.mp hrest] at hlt
      exact absurd hlt (lt_irrefl _)
  | cons c rest => exact List.nil_lt_cons _ _

theorem filesBefore_iff_of_directory {child other : String × FsNode} (hlt : child.1 < other.1)
    (hslash : '/' ∉ other.1.toList) {inner : Directory} (hinner : child.2 = .directory inner) :
    FilesBefore child other ↔ (child.2.HoldsFile → other.2.HoldsFile →
      ∀ c rest, other.1.toList = child.1.toList ++ c :: rest → '/' < c) := by
  have hinitial := append_lt_append_iff (String.lt_iff_toList_lt.mp hlt)
  have hfiles : ∀ file ∈ child.2.files, ∃ name parts, file.1 = name :: parts := by
    intro file hfile
    have hat := (mem_files_iff child.2 file.1 file.2).mp hfile
    rw [hinner] at hat
    cases hpath : file.1 with
    | nil =>
        rw [hpath] at hat
        cases hat
    | cons name parts => exact ⟨name, parts, rfl⟩
  constructor
  · intro hbefore hchild hother c rest hname
    obtain ⟨path, data, hfirst⟩ := hchild
    obtain ⟨others, bytes, hsecond⟩ := hother
    have hlisted := hbefore (child.1 :: path, data)
      (List.mem_map.mpr ⟨(path, data), (mem_files_iff _ _ _).mpr hfirst, rfl⟩) (other.1 :: others, bytes)
      (List.mem_map.mpr ⟨(others, bytes), (mem_files_iff _ _ _).mpr hsecond, rfl⟩)
    rw [tailText_lt_iff, hinitial] at hlisted
    obtain ⟨name, parts, hpath⟩ := hfiles (path, data) ((mem_files_iff _ _ _).mpr hfirst)
    have hhead := hlisted (c :: rest) hname
    rw [show path = name :: parts from hpath, tailText_cons, List.cons_append, List.cons_lt_cons_iff] at hhead
    rcases hhead with hhead | ⟨heq, -⟩
    · exact hhead
    · rw [hname, heq] at hslash
      simp at hslash
  · intro habove first hfirst second hsecond
    obtain ⟨file, hfile, heq⟩ := List.mem_map.mp hfirst
    obtain ⟨otherFile, hotherFile, hotherEq⟩ := List.mem_map.mp hsecond
    rw [← heq, ← hotherEq, tailText_lt_iff, hinitial]
    intro rest hrest
    obtain ⟨name, parts, hpath⟩ := hfiles file hfile
    rw [show file.1 = name :: parts from hpath, tailText_cons]
    cases rest with
    | nil =>
        rw [List.append_nil] at hrest
        rw [String.toList_inj.mp hrest] at hlt
        exact absurd hlt (lt_irrefl _)
    | cons c rest =>
        have hc := habove ⟨file.1, file.2, (mem_files_iff _ _ _).mp hfile⟩
          ⟨otherFile.1, otherFile.2, (mem_files_iff _ _ _).mp hotherFile⟩ c rest hrest
        rw [List.cons_append, List.cons_lt_cons_iff]
        exact .inl hc

theorem filesBefore_iff_siblingsApart {children : Directory} (hchildren : RegularDirectory children) :
    (∀ child ∈ children, ∀ other ∈ children, child.1 < other.1 → FilesBefore child other) ↔
      SiblingsApart children := by
  constructor
  · intro hbefore name inner other node hname hother hholds hnode c rest hinitial
    have hlt : name < other := by
      have hextended := (append_lt_append_left_iff name.toList [] (c :: rest)).mpr (List.nil_lt_cons _ _)
      rw [String.lt_iff_toList_lt, hinitial]
      rwa [List.append_nil] at hextended
    exact (filesBefore_iff_of_directory hlt (hchildren.fileName _ hother).2.2.2 rfl).mp
      (hbefore _ hname _ hother hlt) hholds hnode c rest hinitial
  · intro hapart child hchild other hother hlt
    rcases hchildren.kind child hchild with ⟨data, hkind⟩ | ⟨inner, hkind⟩
    · exact filesBefore_of_file hlt hkind
    · rw [filesBefore_iff_of_directory hlt (hchildren.fileName other hother).2.2.2 hkind, hkind]
      have hin : (child.1, FsNode.directory inner) ∈ children := by
        rw [← hkind]
        exact hchild
      exact hapart child.1 inner other.1 other.2 hin hother

theorem directory_increasing_iff {children : Directory} (hchildren : RegularDirectory children) :
    PathsIncreasing (FsNode.directory children).files ↔
      (∀ child ∈ children, PathsIncreasing child.2.files) ∧ SiblingsApart children := by
  rw [PathsIncreasing, files_directory, List.pairwise_flatMap,
    pairwise_iff_of_keys (sortedBy_increasing hchildren.namesNodup), ← filesBefore_iff_siblingsApart hchildren]
  simp only [mem_sortedBy]
  apply and_congr
  · apply forall_congr'
    intro child
    rw [← childFiles_increasing_iff]
    rfl
  · rfl

theorem files_increasing_iff (node : FsNode) : Regular node →
    (PathsIncreasing node.files ↔ ∀ directory, DirectoryIn directory node → SiblingsApart directory) := by
  induction node using FsNode.induct with
  | file data =>
      intro _
      constructor
      · intro _ directory hdirectory
        cases hdirectory
      · intro _
        exact List.pairwise_singleton _ _
  | symlink =>
      intro _
      constructor
      · intro _ directory hdirectory
        cases hdirectory
      · intro _
        exact List.Pairwise.nil
  | special =>
      intro _
      constructor
      · intro _ directory hdirectory
        cases hdirectory
      · intro _
        exact List.Pairwise.nil
  | directory children ih =>
      intro hregular
      rw [directory_increasing_iff hregular.here]
      constructor
      · intro h directory hdirectory
        cases hdirectory with
        | here => exact h.2
        | @child _ name node hchild hdirectory =>
            have hinner := h.1 (name, node) hchild
            rw [ih (name, node) hchild (hregular.child hchild)] at hinner
            exact hinner directory hdirectory
      · intro h
        refine ⟨?_, h children .here⟩
        intro child hchild
        rw [ih child hchild (hregular.child hchild)]
        intro directory hdirectory
        exact h directory (.child hchild hdirectory)

/-! ### Inventories -/

/-- The inventory lists the files of the tree once each, in the order of their paths. -/
structure Canonical (directory : Directory) (inventory : ArchiveInventory) : Prop where
  increasing : (inventory.entries.map ArchiveInventoryEntry.relativePath).Pairwise (· < ·)
  listedOnce : ∀ path data, (FsNode.directory directory).FileAt path data →
    fileRecord sha (path, data) ∈ inventory.entries.map ArchiveInventoryEntry.record ∧
      (inventory.entries.map ArchiveInventoryEntry.relativePath).count ("/".intercalate path) = 1
  onlyFiles : ∀ entry ∈ inventory.entries, ∃ path data,
    (FsNode.directory directory).FileAt path data ∧ entry.record = fileRecord sha (path, data)

theorem uniquelySorted_iff (paths : List String) : UniquelySorted paths ↔ paths.Pairwise (· < ·) := by
  constructor
  · intro h
    have hincreasing : (sortedBy id paths).Pairwise fun first second => id first < id second :=
      sortedBy_increasing (by simpa using h.2)
    rw [← h.1] at hincreasing
    exact hincreasing
  · intro h
    have hle : paths.Pairwise fun first second => id first ≤ id second := h.imp le_of_lt
    exact ⟨(List.Pairwise.insertionSort_eq hle).symm, h.imp ne_of_lt⟩

theorem inventory_paths_increasing_iff {children : Directory} {entries : List ArchiveInventoryEntry}
    (hrecords : entries.map ArchiveInventoryEntry.record =
      (FsNode.directory children).files.map (fileRecord sha)) :
    UniquelySorted (entries.map ArchiveInventoryEntry.relativePath) ↔
      PathsIncreasing (FsNode.directory children).files := by
  have hpaths : entries.map ArchiveInventoryEntry.relativePath =
      (FsNode.directory children).files.map fun file => "/".intercalate file.1 := by
    have hfst := congrArg (List.map Prod.fst) hrecords
    rwa [List.map_map, List.map_map] at hfst
  rw [uniquelySorted_iff, hpaths, List.pairwise_map, PathsIncreasing]
  apply List.Pairwise.iff_of_mem
  intro first second hfirst hsecond
  rw [files_directory, List.mem_flatMap] at hfirst hsecond
  obtain ⟨child, -, hfirst⟩ := hfirst
  obtain ⟨other, -, hsecond⟩ := hsecond
  obtain ⟨file, -, hfirst⟩ := List.mem_map.mp hfirst
  obtain ⟨otherFile, -, hsecond⟩ := List.mem_map.mp hsecond
  rw [← hfirst, ← hsecond, tailText_lt_iff, String.lt_iff_toList_lt, intercalate_cons, intercalate_cons]

theorem canonical_of_records {children : Directory} {inventory : ArchiveInventory}
    (hrecords : inventory.entries.map ArchiveInventoryEntry.record =
      (FsNode.directory children).files.map (fileRecord sha)) : Canonical sha children inventory := by
  have hincreasing := (uniquelySorted_iff _).mp inventory.uniquelySorted
  refine ⟨hincreasing, ?_, ?_⟩
  · intro path data hfile
    have hrecord : fileRecord sha (path, data) ∈ inventory.entries.map ArchiveInventoryEntry.record := by
      rw [hrecords]
      exact List.mem_map_of_mem ((mem_files_iff _ path data).mpr hfile)
    refine ⟨hrecord, ?_⟩
    obtain ⟨entry, hentry, heq⟩ := List.mem_map.mp hrecord
    apply List.count_eq_one_of_mem inventory.uniquelySorted.2
    exact List.mem_map.mpr ⟨entry, hentry, congrArg Prod.fst heq⟩
  · intro entry hentry
    have hrecord : entry.record ∈ inventory.entries.map ArchiveInventoryEntry.record := List.mem_map_of_mem hentry
    rw [hrecords] at hrecord
    obtain ⟨file, hfile, heq⟩ := List.mem_map.mp hrecord
    exact ⟨file.1, file.2, (mem_files_iff _ file.1 file.2).mp hfile, heq.symm⟩

theorem make_inventory {entries : List ArchiveInventoryEntry} {source : List String}
    (hsorted : UniquelySorted (entries.map ArchiveInventoryEntry.relativePath)) :
    ∃ inventory : ArchiveInventory, inventory.entries = entries ∧ ArchiveInventory.make entries (treeSha256 sha entries)
      (entries.map ArchiveInventoryEntry.size).sum (absoluteText source) = .ok inventory := by
  have hsource : absoluteText source ≠ "" := by
    intro hempty
    have htext := congrArg String.toList hempty
    rw [absoluteText, String.toList_append] at htext
    simp at htext
  have hdigest : IsSha256 (treeSha256 sha entries) := sha.isSha256 _
  refine ⟨⟨entries, treeSha256 sha entries, _, absoluteText source, hdigest, hsorted, rfl, hsource⟩, rfl, ?_⟩
  rw [ArchiveInventory.make, dif_pos hdigest, dif_pos hsorted, dif_pos rfl, dif_pos hsource]

theorem make_inventory_fields {entries : List ArchiveInventoryEntry} {digest source : String} {total : ℕ}
    {inventory : ArchiveInventory} (h : ArchiveInventory.make entries digest total source = .ok inventory) :
    inventory.entries = entries ∧ inventory.treeSha256 = digest := by
  rw [ArchiveInventory.make] at h
  split at h
  · split at h
    · split at h
      · split at h
        · cases h
          exact ⟨rfl, rfl⟩
        · cases h
      · cases h
    · cases h
  · cases h

theorem make_inventory_sorted {entries : List ArchiveInventoryEntry} {digest source : String} {total : ℕ}
    {inventory : ArchiveInventory} (h : ArchiveInventory.make entries digest total source = .ok inventory) :
    UniquelySorted (entries.map ArchiveInventoryEntry.relativePath) := by
  rw [← (make_inventory_fields h).1]
  exact inventory.uniquelySorted

variable {sha} {root directory : Directory} {source : List String}

theorem inventoryTree_eq (hopen : openDirectoryPath root source = .ok directory)
    {entries : List ArchiveInventoryEntry} (hentries : inventoryDirectory sha ⟨"", []⟩ directory = .ok entries) :
    inventoryTree sha root source = ArchiveInventory.make entries (treeSha256 sha entries)
      (entries.map ArchiveInventoryEntry.size).sum (absoluteText source) := by
  rw [inventoryTree, openInventoryRoot, hopen]
  change (inventoryDirectory sha ⟨"", []⟩ directory).bind _ = _
  rw [hentries]
  rfl

variable (sha) in
theorem inventoryDirectory_top (hregular : Regular (.directory directory)) :
    ∃ entries, inventoryDirectory sha ⟨"", []⟩ directory = .ok entries ∧
      entries.map ArchiveInventoryEntry.record = (FsNode.directory directory).files.map (fileRecord sha) := by
  have hchildren := hregular.here
  apply inventoryDirectory_records sha hchildren
  intro child hchild
  have hkind : child.2 ≠ .symlink ∧ child.2 ≠ .special := by
    rcases hchildren.kind child hchild with ⟨data, hkind⟩ | ⟨inner, hkind⟩ <;> rw [hkind] <;> simp
  have hwalked : Walked ([] ++ [child.1]) := by
    have hnone : Walked [] := by
      intro part hpart
      cases hpart
    exact hnone.snoc hchildren hchild
  exact inventoryNode_records sha child.2 (hregular.child hchild) hkind.1 hkind.2 hwalked

/-- The inventory of a regular tree succeeds, and is canonical, exactly when no directory has two names that
hold files, one a subdirectory and the other its name followed by a character below `/`. -/
theorem inventoryTree_canonical_iff (hopen : openDirectoryPath root source = .ok directory)
    (hregular : Regular (.directory directory)) :
    (∃ inventory, inventoryTree sha root source = .ok inventory ∧ Canonical sha directory inventory) ↔
      ∀ inner, DirectoryIn inner (.directory directory) → SiblingsApart inner := by
  obtain ⟨entries, hentries, hrecords⟩ := inventoryDirectory_top sha hregular
  rw [inventoryTree_eq hopen hentries, ← files_increasing_iff _ hregular,
    ← inventory_paths_increasing_iff sha hrecords]
  constructor
  · intro h
    obtain ⟨inventory, hmake, -⟩ := h
    exact make_inventory_sorted hmake
  · intro hsorted
    obtain ⟨inventory, hlisted, hmake⟩ := make_inventory sha hsorted
    refine ⟨inventory, hmake, canonical_of_records sha ?_⟩
    rw [hlisted, hrecords]

/-- SHA-256 on the bytes hashed in the two trees below: no bytes, and the payloads of their entries. -/
def sampleSha : Sha256 where
  hexdigest data :=
    if data = [] then "e3b0c44298fc1c149afbf4c8996fb92427ae41e4649b934ca495991b7852b855"
    else if data.length = 110 then "dbfa8edabdb9bcc29757e0b91ae2aef704377255d29149c482054af854c69e96"
    else "5492db36e981a34454d57ca499dfe832489eadddb98dcfe425dbd0e02ef75b51"
  isSha256 data := by
    split
    · exact isSha256_ofList rfl rfl
    · split <;> exact isSha256_ofList rfl rfl

/-- A tree `a/x`. -/
def nestedTree : Directory := [("a", .directory [("x", .file [])])]

/-- A tree `a/x`, `a-b`. -/
def crossedTree : Directory := ("a-b", .file []) :: nestedTree

theorem nestedTree_regular : Regular (.directory nestedTree) := by
  rw [regular_directory_iff]
  refine ⟨⟨by decide, ?_, ?_, ?_⟩, ?_⟩ <;> intro child hchild <;> rw [List.mem_singleton.mp hchild]
  · decide
  · decide
  · exact .inr ⟨_, rfl⟩
  · rw [regular_directory_iff]
    refine ⟨⟨by decide, ?_, ?_, ?_⟩, ?_⟩ <;> intro child hchild <;> rw [List.mem_singleton.mp hchild]
    · decide
    · decide
    · exact .inl ⟨_, rfl⟩
    · exact regular_file []

theorem crossedTree_regular : Regular (.directory crossedTree) := by
  have hnested := nestedTree_regular
  rw [regular_directory_iff] at hnested ⊢
  obtain ⟨⟨-, hname, hbackslash, hkind⟩, hregular⟩ := hnested
  refine ⟨⟨by decide, ?_, ?_, ?_⟩, ?_⟩ <;> rw [crossedTree, List.forall_mem_cons]
  · exact ⟨by decide, hname⟩
  · exact ⟨by decide, hbackslash⟩
  · exact ⟨.inl ⟨_, rfl⟩, hkind⟩
  · exact ⟨regular_file [], hregular⟩

theorem inventoryTree_canonical_nested :
    (∃ inventory, inventoryTree sampleSha [("t", .directory nestedTree)] ["t"] = .ok inventory ∧
      Canonical sampleSha nestedTree inventory) ↔
        ∀ inner, DirectoryIn inner (.directory nestedTree) → SiblingsApart inner :=
  inventoryTree_canonical_iff rfl nestedTree_regular

/-- The walk lists `a/x` before `a-b`, and the inventory refuses the list. -/
theorem inventoryTree_crossed :
    Regular (.directory crossedTree) ∧ openDirectoryPath [("t", .directory crossedTree)] ["t"] = .ok crossedTree ∧
      inventoryTree sampleSha [("t", .directory crossedTree)] ["t"] =
        .error (.valueError "archive inventory paths must be uniquely sorted") := by
  refine ⟨crossedTree_regular, rfl, ?_⟩
  obtain ⟨entries, hentries, hrecords⟩ := inventoryDirectory_top sampleSha crossedTree_regular
  have hpaths : entries.map ArchiveInventoryEntry.relativePath = ["a/x", "a-b"] := by
    have hfst := congrArg (List.map Prod.fst) hrecords
    rw [List.map_map, List.map_map] at hfst
    exact hfst.trans (by decide +kernel)
  have hsorted : ¬ UniquelySorted (entries.map ArchiveInventoryEntry.relativePath) := by
    rw [hpaths]
    decide
  have hdigest : IsSha256 (treeSha256 sampleSha entries) := sampleSha.isSha256 _
  rw [inventoryTree_eq rfl hentries, ArchiveInventory.make, dif_pos hdigest, dif_neg hsorted]

end TxnOpt.Archive

import TxnOpt.Evidence.Proof.RoundTrip

/-!
# Paths of entries

The components of a path that an entry can have, and when one path is a directory on another.
-/

namespace TxnOpt.Cos

open Archive

/-! ### The two validators -/

/-- The validators of this module and of the archive differ on the path `.` only. -/
theorem entryPath_iff_relativePath (value : String) : (IsEntryPath value ↔ IsRelativePath value) ↔ value ≠ "." := by
  constructor
  · intro h hdot
    rw [hdot] at h
    exact absurd (h.mp (by decide)) (by decide)
  · intro hdot
    constructor
    · intro h
      obtain ⟨hempty, hbackslash, hroot, hposix, hparts⟩ := h
      exact ⟨hempty, hbackslash, hroot, hposix, hdot, hparts⟩
    · intro h
      obtain ⟨hempty, hbackslash, hroot, hposix, -, hparts⟩ := h
      exact ⟨hempty, hbackslash, hroot, hposix, hparts⟩

/-! ### Components -/

theorem not_mem_of_mem_splitOn {separator : Char} {text : List Char} :
    ∀ piece ∈ text.splitOn separator, separator ∉ piece := by
  induction text with
  | nil =>
      intro piece hpiece
      rw [List.splitOn_nil, List.mem_singleton] at hpiece
      rw [hpiece]
      exact List.not_mem_nil
  | cons first text ih =>
      intro piece hpiece
      rw [List.splitOn_cons_eq_if_modifyHead] at hpiece
      split at hpiece
      · rcases List.mem_cons.mp hpiece with heq | hlater
        · rw [heq]
          exact List.not_mem_nil
        · exact ih piece hlater
      · rename_i hfirst
        rw [beq_iff_eq] at hfirst
        cases hpieces : text.splitOn separator with
        | nil => exact absurd hpieces (List.splitOn_ne_nil separator text)
        | cons head pieces =>
            rw [hpieces] at hpiece ih
            rw [List.modifyHead_cons] at hpiece
            rcases List.mem_cons.mp hpiece with heq | hlater
            · rw [heq, List.mem_cons, not_or]
              exact ⟨fun h => hfirst h.symm, ih head List.mem_cons_self⟩
            · exact ih piece (List.mem_cons_of_mem head hlater)

theorem partsOf_append (first second : List Char) :
    PurePosixPath.partsOf (first ++ '/' :: second) =
      PurePosixPath.partsOf first ++ PurePosixPath.partsOf second := by
  rw [PurePosixPath.partsOf, List.splitOn_append_cons_self, List.map_append, List.filter_append]
  rfl

theorem TencentCosEntry.parts_fileName (entry : TencentCosEntry) : ∀ part ∈ entry.parts, FileName part := by
  obtain ⟨-, -, -, -, hparts⟩ := entry.isEntryPath
  intro part hpart
  have hnames := hparts part hpart
  simp only [List.mem_cons, List.not_mem_nil, or_false, not_or] at hnames
  refine ⟨hnames.1, hnames.2.1, hnames.2.2, ?_⟩
  rw [TencentCosEntry.parts, PurePosixPath.of, PurePosixPath.partsOf] at hpart
  obtain ⟨piece, hpiece, heq⟩ := List.mem_map.mp (List.mem_filter.mp hpart).1
  rw [← heq, String.toList_ofList]
  exact not_mem_of_mem_splitOn piece hpiece

theorem TencentCosEntry.parts_eq_nil_iff (entry : TencentCosEntry) :
    entry.parts = [] ↔ entry.relativePath = "." := by
  obtain ⟨-, -, hroot, hposix, -⟩ := entry.isEntryPath
  constructor
  · intro h
    rw [hposix, PurePosixPath.asPosix, if_pos ⟨hroot, h⟩]
  · intro h
    rw [TencentCosEntry.parts, h]
    decide

theorem TencentCosEntry.path_eq (entry : TencentCosEntry) (h : entry.parts ≠ []) :
    entry.relativePath = "/".intercalate entry.parts := by
  obtain ⟨-, -, hroot, hposix, -⟩ := entry.isEntryPath
  calc
    entry.relativePath = (PurePosixPath.of entry.relativePath).asPosix := hposix
    _ = "/".intercalate entry.parts := by
      rw [PurePosixPath.asPosix, if_neg (fun hnil => h hnil.2), hroot, String.empty_append]
      rfl

theorem tailText_append (first second : List String) : tailText (first ++ second) = tailText first ++ tailText second :=
  List.flatMap_append

/-- One path continues another after a slash iff the other is a directory on it. -/
theorem continues_iff {entry other : TencentCosEntry} (hentry : entry.parts ≠ []) :
    entry.relativePath.toList ++ ['/'] <+: other.relativePath.toList ↔
      entry.parts <+: other.parts ∧ entry.parts ≠ other.parts := by
  constructor
  · intro h
    obtain ⟨rest, hrest⟩ := h
    have hparts : other.parts = entry.parts ++ PurePosixPath.partsOf rest := by
      rw [TencentCosEntry.parts, PurePosixPath.of, ← hrest, List.append_assoc]
      exact partsOf_append entry.relativePath.toList rest
    refine ⟨⟨_, hparts.symm⟩, ?_⟩
    intro hsame
    have hlength := congrArg List.length hrest
    rw [parts_injective hsame] at hlength
    simp only [List.length_append, List.length_cons, List.length_nil] at hlength
    omega
  · intro h
    obtain ⟨⟨rest, hrest⟩, hdiffer⟩ := h
    have hother : other.parts ≠ [] := by
      rw [← hrest]
      simp [hentry]
    rw [entry.path_eq hentry, other.path_eq hother, ← hrest]
    cases hparts : entry.parts with
    | nil => exact absurd hparts hentry
    | cons name parts =>
        cases rest with
        | nil =>
            rw [List.append_nil] at hrest
            exact absurd hrest hdiffer
        | cons next rest =>
            rw [List.cons_append, intercalate_cons, intercalate_cons, tailText_append]
            refine ⟨next.toList ++ tailText rest, ?_⟩
            simp [tailText]

theorem mem_intercalate_iff {character : Char} (hslash : character ≠ '/') (parts : List String) :
    character ∈ ("/".intercalate parts).toList ↔ ∃ part ∈ parts, character ∈ part.toList := by
  cases parts with
  | nil => simp
  | cons name parts =>
      rw [intercalate_cons, List.mem_append, tailText, List.mem_flatMap]
      simp [hslash]

theorem nul_mem_path_iff (entry : TencentCosEntry) :
    '\x00' ∈ entry.relativePath.toList ↔ ∃ part ∈ entry.parts, '\x00' ∈ part.toList := by
  by_cases hnil : entry.parts = []
  · rw [entry.parts_eq_nil_iff.mp hnil, hnil]
    simp
  · rw [entry.path_eq hnil, mem_intercalate_iff (by decide)]

/-! ### Trees with given files -/

theorem wellNamed_directory_iff {children : Directory} : WellNamed (.directory children) ↔
    (children.map Prod.fst).Nodup ∧
      ∀ child ∈ children, (FileName child.1 ∧ '\x00' ∉ child.1.toList) ∧ WellNamed child.2 := by
  constructor
  · intro h
    exact ⟨(h children .here).1, fun child hchild => ⟨(h children .here).2 child hchild, h.child hchild⟩⟩
  · intro h
    exact wellNamed_directory h.1 h.2

theorem names_replace (directory : Directory) (name : String) (node : FsNode) :
    (directory.replace name node).map Prod.fst = directory.map Prod.fst := by
  induction directory with
  | nil => rfl
  | cons child children ih =>
      rw [Directory.replace]
      by_cases hchild : child.1 = name
      · rw [if_pos hchild, List.map_cons, List.map_cons, hchild]
      · rw [if_neg hchild, List.map_cons, List.map_cons, ih]

theorem mem_replace {directory : Directory} {name : String} {node : FsNode} {child : String × FsNode}
    (h : child ∈ directory.replace name node) : child ∈ directory ∨ child = (name, node) := by
  induction directory with
  | nil => exact .inl h
  | cons first children ih =>
      rw [Directory.replace] at h
      by_cases hfirst : first.1 = name
      · rw [if_pos hfirst] at h
        rcases List.mem_cons.mp h with heq | hlater
        · exact .inr heq
        · exact .inl (List.mem_cons_of_mem first hlater)
      · rw [if_neg hfirst] at h
        rcases List.mem_cons.mp h with heq | hlater
        · rw [heq]
          exact .inl List.mem_cons_self
        · rcases ih hlater with hold | hnew
          · exact .inl (List.mem_cons_of_mem first hold)
          · exact .inr hnew

theorem wellNamed_snoc {directory : Directory} (h : WellNamed (.directory directory)) {name : String} {node : FsNode}
    (hfresh : name ∉ directory.names) (hname : FileName name ∧ '\x00' ∉ name.toList) (hnode : WellNamed node) :
    WellNamed (.directory (directory ++ [(name, node)])) := by
  rw [wellNamed_directory_iff] at h ⊢
  constructor
  · rw [List.map_append, List.nodup_append]
    refine ⟨h.1, by simp, ?_⟩
    intro first hfirst second hsecond heq
    rw [List.map_singleton, List.mem_singleton] at hsecond
    rw [heq, hsecond] at hfirst
    exact hfresh hfirst
  · intro child hchild
    rcases List.mem_append.mp hchild with hold | hnew
    · exact h.2 child hold
    · rw [List.mem_singleton.mp hnew]
      exact ⟨hname, hnode⟩

theorem wellNamed_replace {directory : Directory} (h : WellNamed (.directory directory)) {name : String}
    {node : FsNode} (hname : FileName name ∧ '\x00' ∉ name.toList) (hnode : WellNamed node) :
    WellNamed (.directory (directory.replace name node)) := by
  rw [wellNamed_directory_iff] at h ⊢
  constructor
  · rw [names_replace]
    exact h.1
  · intro child hchild
    rcases mem_replace hchild with hold | hnew
    · exact h.2 child hold
    · rw [hnew]
      exact ⟨hname, hnode⟩

theorem wellNamed_empty : WellNamed (.directory []) := wellNamed_directory List.nodup_nil (by simp)

/-- Names that a file system can hold. -/
def Names (path : List String) : Prop := ∀ part ∈ path, FileName part ∧ '\x00' ∉ part.toList

theorem createFile_wellNamed {path : List String} (hpath : Names path) {directory after : Directory}
    (hdirectory : WellNamed (.directory directory)) (h : createFile path directory = .ok after) :
    WellNamed (.directory after) := by
  induction path generalizing directory after with
  | nil => cases h
  | cons name path ih =>
      have hname := hpath name List.mem_cons_self
      cases path with
      | nil =>
          rw [createFile] at h
          by_cases hfresh : name ∈ directory.names
          · rw [if_pos hfresh] at h
            cases h
          · rw [if_neg hfresh] at h
            rw [← Except.ok.inj h]
            exact wellNamed_snoc hdirectory hfresh hname (wellNamed_file [])
      | cons next path =>
          have hrest : Names (next :: path) := fun part hpart => hpath part (List.mem_cons_of_mem name hpart)
          rw [createFile] at h
          cases hlookup : directory.lookup name with
          | none =>
              rw [hlookup] at h
              cases hinner : createFile (next :: path) [] with
              | error error =>
                  rw [hinner] at h
                  cases h
              | ok inner =>
                  rw [hinner] at h
                  rw [← Except.ok.inj h]
                  apply wellNamed_snoc hdirectory (Directory.lookup_eq_none_iff.mp hlookup) hname
                  exact ih hrest wellNamed_empty hinner
          | some node =>
              rw [hlookup] at h
              cases node with
              | directory children =>
                  cases hinner : createFile (next :: path) children with
                  | error error =>
                      simp only [hinner] at h
                      cases h
                  | ok inner =>
                      simp only [hinner] at h
                      rw [← Except.ok.inj h]
                      have hchildren : WellNamed (.directory children) := hdirectory.child (mem_of_lookup hlookup)
                      exact wellNamed_replace hdirectory hname (ih hrest hchildren hinner)
              | _ => cases h

theorem appendFile_wellNamed {chunk : Bytes} {path : List String} (hpath : Names path)
    {directory after : Directory} (hdirectory : WellNamed (.directory directory))
    (h : appendFile chunk path directory = .ok after) : WellNamed (.directory after) := by
  induction path generalizing directory after with
  | nil => cases h
  | cons name path ih =>
      have hname := hpath name List.mem_cons_self
      cases path with
      | nil =>
          rw [appendFile] at h
          split at h
          · rw [← Except.ok.inj h]
            exact wellNamed_replace hdirectory hname (wellNamed_file _)
          · cases h
      | cons next path =>
          have hrest : Names (next :: path) := fun part hpart => hpath part (List.mem_cons_of_mem name hpart)
          rw [appendFile] at h
          split at h
          · rename_i children hlookup
            cases hinner : appendFile chunk (next :: path) children with
            | error error =>
                rw [hinner] at h
                cases h
            | ok inner =>
                rw [hinner] at h
                rw [← Except.ok.inj h]
                have hchildren : WellNamed (.directory children) := hdirectory.child (mem_of_lookup hlookup)
                exact wellNamed_replace hdirectory hname (ih hrest hchildren hinner)
          · cases h

theorem mem_of_lookup_path {files : List (List String × Bytes)} {path : List String} {data : Bytes}
    (h : files.lookup path = some data) : (path, data) ∈ files := by
  induction files with
  | nil => cases h
  | cons file files ih =>
      rw [List.lookup_cons] at h
      by_cases hpath : path = file.1
      · rw [hpath, beq_self_eq_true] at h
        rw [hpath, ← Option.some.inj h]
        exact List.mem_cons_self
      · rw [beq_false_of_ne hpath] at h
        exact List.mem_cons_of_mem file (ih h)

/-- A tree with exactly those files. -/
structure TreeOf (files : List (List String × Bytes)) (tree : Directory) : Prop where
  files : ∀ path, fileAt path tree = files.lookup path
  solid : Solid tree
  wellNamed : WellNamed (.directory tree)

/-- Files whose paths are no directories of each other have a tree. -/
theorem exists_treeOf {files : List (List String × Bytes)} (hne : ∀ file ∈ files, file.1 ≠ [])
    (hnames : ∀ file ∈ files, Names file.1)
    (hapart : files.Pairwise fun first second => ¬ first.1 <+: second.1 ∧ ¬ second.1 <+: first.1) :
    ∃ tree, TreeOf files tree := by
  induction files with
  | nil =>
      refine ⟨[], ?_, ?_, wellNamed_empty⟩
      · intro path
        rw [fileAt_empty]
        rfl
      · intro child hchild
        cases hchild
  | cons file files ih =>
      rw [List.forall_mem_cons] at hne hnames
      rw [List.pairwise_cons] at hapart
      obtain ⟨tree, htree⟩ := ih hne.2 hnames.2 hapart.2
      have hfree : Free file.1 tree := by
        intro other data hother
        rw [htree.files] at hother
        have hapartOther := hapart.1 (other, data) (mem_of_lookup_path hother)
        exact ⟨hapartOther.2, hapartOther.1⟩
      obtain ⟨created, hcreated, hwrote⟩ := createFile_wrote hne.1 htree.solid hfree
      have hfile : fileAt file.1 created = some [] := by rw [hwrote.files, if_pos rfl]
      obtain ⟨after, hafter, hmore⟩ := appendFile_wrote hwrote.solid hfile file.2
      have hall := hwrote.trans hmore
      refine ⟨after, ?_, hall.solid, ?_⟩
      · intro path
        rw [hall.files, htree.files, List.lookup_cons]
        by_cases hpath : path = file.1
        · simp [hpath]
        · rw [if_neg hpath, beq_false_of_ne hpath]
      · exact appendFile_wellNamed hnames.1 (createFile_wellNamed hnames.1 htree.wellNamed hcreated) hafter

end TxnOpt.Cos

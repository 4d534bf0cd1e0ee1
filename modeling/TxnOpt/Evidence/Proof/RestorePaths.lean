import TxnOpt.Evidence.Proof.CommitCodec
import TxnOpt.Evidence.Proof.EntryPaths
import Mathlib.Data.List.Pairwise

/-!
# Which commits can be restored

A restore returns iff no path of the commit is the staging directory itself, no name has a NUL, and no path
is a directory on another.
-/

namespace TxnOpt.Cos

open Archive

/-! ### Files that were made -/

theorem createFile_free {path : List String} {directory after : Directory}
    (h : createFile path directory = .ok after) : path ≠ [] ∧ Free path directory := by
  induction path generalizing directory after with
  | nil => cases h
  | cons name path ih =>
      refine ⟨List.cons_ne_nil name path, ?_⟩
      intro other data hother
      cases other with
      | nil => cases hother
      | cons first other =>
          rw [List.cons_prefix_cons, List.cons_prefix_cons]
          by_cases hfirst : first = name
          · rw [hfirst] at hother ⊢
            cases path with
            | nil =>
                rw [createFile] at h
                by_cases hfresh : name ∈ directory.names
                · rw [if_pos hfresh] at h
                  cases h
                · rw [fileAt_of_none (Directory.lookup_eq_none_iff.mpr hfresh)] at hother
                  cases hother
            | cons next path =>
                rw [createFile] at h
                cases hlookup : directory.lookup name with
                | none =>
                    rw [fileAt_of_none hlookup] at hother
                    cases hother
                | some node =>
                    rw [hlookup] at h
                    cases node with
                    | directory children =>
                        cases hinner : createFile (next :: path) children with
                        | error error =>
                            simp only [hinner] at h
                            cases h
                        | ok inner =>
                            rw [fileAt_of_directory hlookup] at hother
                            obtain ⟨hleft, hright⟩ := (ih hinner).2 other data hother
                            exact ⟨fun hp => hleft hp.2, fun hp => hright hp.2⟩
                    | _ => cases h
          · exact ⟨fun hp => hfirst hp.1, fun hp => hfirst hp.1.symm⟩

/-- A path that a file can be made on. -/
structure Open (path : List String) (directory : Directory) : Prop where
  nonempty : path ≠ []
  noNul : ∀ part ∈ path, '\x00' ∉ part.toList
  free : Free path directory

theorem createTarget_ok {path : List String} {directory after : Directory} (hsolid : Solid directory)
    (h : createTarget path directory = .ok after) : Open path directory ∧ Wrote path [] directory after := by
  rw [createTarget] at h
  split at h
  · cases h
  · rename_i hany
    obtain ⟨hne, hfree⟩ := createFile_free h
    have hnul : ∀ part ∈ path, '\x00' ∉ part.toList := by
      intro part hpart hmem
      exact hany (List.any_eq_true.mpr ⟨part, hpart, decide_eq_true hmem⟩)
    obtain ⟨created, hcreated, hwrote⟩ := createFile_wrote hne hsolid hfree
    rw [h] at hcreated
    rw [Except.ok.inj hcreated]
    exact ⟨⟨hne, hnul, hfree⟩, hwrote⟩

theorem Open.before {path written : List String} {data : Bytes} {before after : Directory} (h : Open path after)
    (hwrote : Wrote written data before after) : Open path before ∧ ¬ written <+: path ∧ ¬ path <+: written := by
  have hapart := h.free written data (by rw [hwrote.files, if_pos rfl])
  refine ⟨⟨h.nonempty, h.noNul, ?_⟩, hapart⟩
  intro other found hother
  by_cases hsame : other = written
  · rw [hsame]
    exact hapart
  · apply h.free other found
    rw [hwrote.files, if_neg hsame]
    exact hother

/-! ### Restores that returned -/

section Runs

variable {σ : Type} {machine : Machine} {client : TencentCosClient σ} {area : Area}

/-- The open file keeps growing, and nothing else changes in the staging directory. -/
def KeepsGrowing (area : Area) (path : List String) (children : Directory) (before after : World σ) : Prop :=
  (∃ data, Growing area path children data before.files) → ∃ data, Growing area path children data after.files

instance (area : Area) (path : List String) (children : Directory) :
    IsPreorder (World σ) (KeepsGrowing area path children) where
  refl _ := id
  trans _ _ _ h h' hgrowing := h' (h hgrowing)

theorem keepsGrowing_of_sameFiles {α : Type} {path : List String} {children : Directory} {program : CosM σ α}
    (h : Prog.Steps SameFiles program) : Prog.Steps (KeepsGrowing area path children) program := by
  intro world hgrowing
  rw [h world]
  exact hgrowing

theorem clientSteps_keepsGrowing (path : List String) (children : Directory) :
    ClientSteps (KeepsGrowing area path children) client where
  putObject _ := keepsGrowing_of_sameFiles (steps_onStore _)
  createMultipartUpload _ := keepsGrowing_of_sameFiles (steps_onStore _)
  uploadPart _ := keepsGrowing_of_sameFiles (steps_onStore _)
  completeMultipartUpload _ := keepsGrowing_of_sameFiles (steps_onStore _)
  abortMultipartUpload _ _ := keepsGrowing_of_sameFiles (steps_onStore _)
  headObject _ _ := keepsGrowing_of_sameFiles (steps_onStore _)
  getObject _ _ := keepsGrowing_of_sameFiles (steps_onStore _)
  getObjectRetention _ _ := keepsGrowing_of_sameFiles (steps_onStore _)
  objectExists _ := keepsGrowing_of_sameFiles (steps_onStore _)

theorem keepsGrowing_append (path : List String) (children : Directory) (chunk : Bytes) :
    Prog.Steps (KeepsGrowing area path children)
      (onFiles (inDirectory area.path (appendFile chunk path)) : CosM σ Unit) := by
  intro world hgrowing
  obtain ⟨data, current, hfiles, hwrote⟩ := hgrowing
  have hfile : fileAt path current = some data := by rw [hwrote.files path, if_pos rfl]
  obtain ⟨after, hafter, hmore⟩ := appendFile_wrote hwrote.solid hfile chunk
  have hrun : inDirectory area.path (appendFile chunk path) world.files = .ok (area.files after) := by
    rw [hfiles, area.inDirectory_staging, hafter]
    rfl
  rw [onFiles_run hrun]
  exact ⟨data ++ chunk, after, rfl, hwrote.trans hmore⟩

theorem restoreEntry_ok {entry : TencentCosEntry} {children : Directory} {before after : World σ}
    (hfiles : before.files = area.files children) (hsolid : Solid children)
    (h : restoreEntry machine client area.path entry before = (.ok (), after)) :
    Open entry.parts children ∧ ∃ data, Growing area entry.parts children data after.files := by
  obtain ⟨_, created, hcreate, h⟩ := Prog.bind_ok h
  obtain ⟨_, last, hdownload, h⟩ := Prog.bind_ok h
  have hafter := (Prod.mk.inj h).2
  rw [← hafter]
  rw [onFiles, hfiles, area.inDirectory_staging] at hcreate
  cases htarget : createTarget entry.parts children with
  | error error =>
      rw [TencentCosEntry.parts] at htarget
      rw [htarget] at hcreate
      cases hcreate
  | ok made =>
      obtain ⟨hopen, hwrote⟩ := createTarget_ok hsolid htarget
      rw [TencentCosEntry.parts] at htarget
      rw [htarget] at hcreate
      have hmade := (Prod.mk.inj hcreate).2
      refine ⟨hopen, ?_⟩
      have hsteps : Prog.Steps (KeepsGrowing area entry.parts children)
          (downloadVerified machine client entry.ref fun chunk =>
            onFiles (inDirectory area.path (appendFile chunk entry.parts))) :=
        steps_downloadVerified (clientSteps_keepsGrowing entry.parts children)
          (keepsGrowing_of_sameFiles steps_now) entry.ref (keepsGrowing_append entry.parts children)
      apply hsteps.of_run hdownload
      rw [← hmade]
      exact ⟨[], made, rfl, hwrote⟩

/-- Neither path is a directory on the other, and they differ. -/
def Apart (first second : TencentCosEntry) : Prop :=
  ¬ first.parts <+: second.parts ∧ ¬ second.parts <+: first.parts

instance : Std.Symm Apart := ⟨fun _ _ h => ⟨h.2, h.1⟩⟩

theorem restoreEntries_ok {entries : List TencentCosEntry} :
    ∀ {children : Directory} {before after : World σ}, before.files = area.files children → Solid children →
      Prog.forEach (restoreEntry machine client area.path) entries before = (.ok (), after) →
      (∀ entry ∈ entries, Open entry.parts children) ∧ entries.Pairwise Apart := by
  induction entries with
  | nil =>
      intro children before after _ _ _
      exact ⟨by simp, .nil⟩
  | cons entry entries ih =>
      intro children before after hfiles hsolid h
      obtain ⟨_, middle, hentry, hrest⟩ := Prog.bind_ok h
      obtain ⟨hopen, data, current, hmiddle, hwrote⟩ := restoreEntry_ok hfiles hsolid hentry
      obtain ⟨hlater, hpairs⟩ := ih hmiddle hwrote.solid hrest
      rw [List.forall_mem_cons, List.pairwise_cons]
      exact ⟨⟨hopen, fun other hother => ((hlater other hother).before hwrote).1⟩,
        fun other hother => ((hlater other hother).before hwrote).2, hpairs⟩

end Runs

/-! ### Paths that fit -/

/-- No path is `.`, none has a NUL, and none is followed by a slash in another. -/
structure PathsFit (commit : TencentCosCommit) : Prop where
  noDot : ∀ entry ∈ commit.entries, entry.relativePath ≠ "."
  noNul : ∀ entry ∈ commit.entries, '\x00' ∉ entry.relativePath.toList
  noSlash : ∀ entry ∈ commit.entries, ∀ other ∈ commit.entries,
    ¬ entry.relativePath.toList ++ ['/'] <+: other.relativePath.toList

theorem PathsFit.nonempty {commit : TencentCosCommit} (h : PathsFit commit) {entry : TencentCosEntry}
    (hentry : entry ∈ commit.entries) : entry.parts ≠ [] := by
  intro hnil
  exact h.noDot entry hentry (entry.parts_eq_nil_iff.mp hnil)

theorem PathsFit.eq_of_isPrefix {commit : TencentCosCommit} (h : PathsFit commit) {entry other : TencentCosEntry}
    (hentry : entry ∈ commit.entries) (hother : other ∈ commit.entries) (hinitial : entry.parts <+: other.parts) :
    entry.parts = other.parts := by
  by_contra hdiffer
  exact h.noSlash entry hentry other hother ((continues_iff (h.nonempty hentry)).mpr ⟨hinitial, hdiffer⟩)

theorem PathsFit.names {commit : TencentCosCommit} (h : PathsFit commit) {entry : TencentCosEntry}
    (hentry : entry ∈ commit.entries) : Names entry.parts := by
  intro part hpart
  refine ⟨entry.parts_fileName part hpart, ?_⟩
  intro hnul
  exact h.noNul entry hentry ((nul_mem_path_iff entry).mpr ⟨part, hpart, hnul⟩)

theorem PathsFit.pairwise {commit : TencentCosCommit} (h : PathsFit commit) : commit.entries.Pairwise Apart := by
  have hnodup := parts_nodup commit
  rw [List.Nodup, List.pairwise_map] at hnodup
  apply hnodup.imp_of_mem
  intro first second hfirst hsecond hdiffer
  constructor
  · intro hinitial
    exact hdiffer (h.eq_of_isPrefix hfirst hsecond hinitial)
  · intro hinitial
    exact hdiffer (h.eq_of_isPrefix hsecond hfirst hinitial).symm

/-- The paths of a commit whose files were all made. -/
theorem pathsFit_of_open {commit : TencentCosCommit} (hopen : ∀ entry ∈ commit.entries, Open entry.parts [])
    (hapart : commit.entries.Pairwise Apart) : PathsFit commit := by
  have hne : ∀ entry ∈ commit.entries, entry.parts ≠ [] := fun entry hentry => (hopen entry hentry).nonempty
  refine ⟨?_, ?_, ?_⟩
  · intro entry hentry hdot
    exact hne entry hentry (entry.parts_eq_nil_iff.mpr hdot)
  · intro entry hentry hnul
    obtain ⟨part, hpart, hmem⟩ := (nul_mem_path_iff entry).mp hnul
    exact (hopen entry hentry).noNul part hpart hmem
  · intro entry hentry other hother hslash
    obtain ⟨hinitial, hdiffer⟩ := (continues_iff (hne entry hentry)).mp hslash
    have hne : entry ≠ other := fun heq => hdiffer (by rw [heq])
    exact (hapart.forall hentry hother hne).1 hinitial

theorem lookup_content (content : TencentCosEntry → Bytes) {entries : List TencentCosEntry}
    (hnodup : (entries.map TencentCosEntry.parts).Nodup) : ∀ entry ∈ entries,
      (entries.map fun entry => (entry.parts, content entry)).lookup entry.parts = some (content entry) := by
  induction entries with
  | nil => simp
  | cons first entries ih =>
      rw [List.map_cons, List.nodup_cons] at hnodup
      intro entry hentry
      rw [List.map_cons, List.lookup_cons]
      rcases List.mem_cons.mp hentry with heq | hlater
      · rw [heq, beq_self_eq_true]
      · have hdiffer : entry.parts ≠ first.parts := by
          intro heq
          exact hnodup.1 (by rw [← heq]; exact List.mem_map_of_mem hlater)
        rw [beq_false_of_ne hdiffer]
        exact ih hnodup.2 entry hlater

/-- The tree with the given content of each entry. -/
theorem PathsFit.exists_tree {commit : TencentCosCommit} (h : PathsFit commit) (content : TencentCosEntry → Bytes) :
    ∃ tree, WellNamed (.directory tree) ∧ Lists tree commit ∧
      ∀ entry ∈ commit.entries, contentOf tree entry = content entry := by
  obtain ⟨tree, htree⟩ : ∃ tree, TreeOf (commit.entries.map fun entry => (entry.parts, content entry)) tree := by
    apply exists_treeOf
    · intro file hfile
      obtain ⟨entry, hentry, heq⟩ := List.mem_map.mp hfile
      rw [← heq]
      exact h.nonempty hentry
    · intro file hfile
      obtain ⟨entry, hentry, heq⟩ := List.mem_map.mp hfile
      rw [← heq]
      exact h.names hentry
    · exact List.pairwise_map.mpr h.pairwise
  have hfile : ∀ entry ∈ commit.entries, fileAt entry.parts tree = some (content entry) := by
    intro entry hentry
    rw [htree.files]
    exact lookup_content content (parts_nodup commit) entry hentry
  refine ⟨tree, htree.wellNamed, ⟨?_, ?_, ?_⟩, ?_⟩
  · intro entry hentry
    exact ⟨_, hfile entry hentry⟩
  · intro path data hdata
    rw [htree.files] at hdata
    obtain ⟨entry, hentry, heq⟩ := List.mem_map.mp (mem_of_lookup_path hdata)
    exact List.mem_map.mpr ⟨entry, hentry, (Prod.mk.inj heq).1⟩
  · intro entry hentry part hpart
    exact (h.names hentry part hpart).2
  · intro entry hentry
    rw [contentOf, hfile entry hentry, Option.getD_some]

/-! ### Restores -/

section Restores

variable {machine : Machine} {service : CosService} {archive : TencentCosArchive} {ref : TencentCosCommitRef}
  {commit : TencentCosCommit} {content : TencentCosEntry → Bytes} {parent : List String} {name : String}
  {directory : Directory} {world : World CosStore}

theorem Readable.congr {other : TencentCosEntry → Bytes}
    (h : Readable machine service archive ref commit content world)
    (hsame : ∀ entry ∈ commit.entries, other entry = content entry) :
    Readable machine service archive ref commit other world := by
  refine ⟨h.answers, h.object, h.commitId, h.key, ?_⟩
  intro entry hentry
  rw [hsame entry hentry]
  exact h.entries entry hentry

/-- A restore of a commit that can be read, into a name that is not there, returns iff the paths fit. -/
theorem restoreCommit_returns_iff (hreadable : Readable machine service archive ref commit content world)
    (hparent : rejectSymlinkAncestry parent world.files = .ok directory) (hname : name ∉ directory.names) :
    (∃ receipt after, restoreCommit machine service.client archive ref parent name world = (.ok receipt, after)) ↔
      PathsFit commit := by
  constructor
  · intro h
    obtain ⟨receipt, after, h⟩ := h
    obtain ⟨verified, hverify, hfiles, -⟩ := returns_verifyCommit hreadable
    rw [← hfiles] at hparent
    rw [restore_run hverify hparent hname] at h
    obtain ⟨ended, filled, hattempt, h⟩ := Prog.bind_ok h
    obtain ⟨_, cleaned, _, h⟩ := Prog.bind_ok h
    obtain ⟨_, last, hresume, _⟩ := Prog.bind_ok h
    obtain ⟨hended, -⟩ := Prog.resume_ok_inv hresume
    rw [Prog.attempt_apply, hended] at hattempt
    obtain ⟨hfill, -⟩ := Prod.mk.inj hattempt
    obtain ⟨_, looped, hloop, -⟩ := Prog.bind_ok (Prod.ext (Except.ok.inj hfill) rfl)
    have hsolid : Solid [] := by
      intro child hchild
      cases hchild
    obtain ⟨hopen, hapart⟩ := restoreEntries_ok rfl hsolid hloop
    exact pathsFit_of_open hopen hapart
  · intro hfit
    obtain ⟨tree, -, hlists, hcontent⟩ := hfit.exists_tree content
    obtain ⟨after, hrun, -⟩ := returns_restoreCommit (hreadable.congr hcontent) hlists hparent hname
    exact ⟨_, after, hrun⟩

end Restores

/-- The paths of a commit can all be files below one directory. -/
structure Restorable (commit : TencentCosCommit) : Prop where
  proper : ∀ entry ∈ commit.entries, IsRelativePath entry.relativePath ∧ '\x00' ∉ entry.relativePath.toList
  distinct : (commit.entries.map TencentCosEntry.parts).Nodup
  noDirectory : ∀ entry ∈ commit.entries, ∀ other ∈ commit.entries,
    entry.parts <+: other.parts → entry.parts = other.parts
  realisable : ∃ tree, WellNamed (.directory tree) ∧
    ∀ entry ∈ commit.entries, ∃ data, fileAt entry.parts tree = some data
  restores : ∀ (machine : Machine) (service : CosService) (archive : TencentCosArchive) (ref : TencentCosCommitRef)
    (content : TencentCosEntry → Bytes) (parent : List String) (name : String) (directory : Directory)
    (world : World CosStore), Readable machine service archive ref commit content world →
    rejectSymlinkAncestry parent world.files = .ok directory → name ∉ directory.names →
    ∃ receipt after, restoreCommit machine service.client archive ref parent name world = (.ok receipt, after)

theorem isEntryPath_dot : IsEntryPath "." := by decide

theorem isEntryPath_file : IsEntryPath "a" := by decide

theorem isEntryPath_nested : IsEntryPath "a/b" := by decide

theorem uniquelySorted_dot : UniquelySorted ["."] := by decide

theorem uniquelySorted_nested : UniquelySorted ["a", "a/b"] := by decide

/-- A commit of the directory itself. -/
def dotCommit : TencentCosCommit where
  commitId := "c"
  sourceTreeSha256 := oneFileTreeSha256
  entries := [⟨".", oneFileRef, isEntryPath_dot⟩]
  isCommitId := oneFileCommit.isCommitId
  isSha256 := oneFileCommit.isSha256
  uniquelySorted := uniquelySorted_dot

/-- A commit of a file and a file below it. -/
def nestedCommit : TencentCosCommit where
  commitId := "c"
  sourceTreeSha256 := oneFileTreeSha256
  entries := [⟨"a", oneFileRef, isEntryPath_file⟩, ⟨"a/b", oneFileRef, isEntryPath_nested⟩]
  isCommitId := oneFileCommit.isCommitId
  isSha256 := oneFileCommit.isSha256
  uniquelySorted := uniquelySorted_nested

theorem sample_inFuture (tick : ℕ) : InFuture sampleMachine tick oneFileRef.retainUntil :=
  ⟨1893456000000000, by decide +kernel, (by decide : (1767225600000000 : Int) < 1893456000000000)⟩

end TxnOpt.Cos

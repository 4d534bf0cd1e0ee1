import TxnOpt.Evidence.Proof.Reading
import TxnOpt.Evidence.Proof.Restore
import Mathlib.Algebra.Order.BigOperators.Group.List

/-!
# Mirror, then restore

A restore from the reference of a mirrored tree makes a directory with the files of the tree.
-/

namespace TxnOpt.Cos

open Archive CosService

variable {machine : Machine} {service : CosService} {archive : TencentCosArchive}

/-! ### Writing the files -/

/-- The components of the path of an entry. -/
def TencentCosEntry.parts (entry : TencentCosEntry) : List String := (PurePosixPath.of entry.relativePath).parts

/-- The bytes that a tree holds for an entry. -/
def contentOf (tree : Directory) (entry : TencentCosEntry) : Bytes := (fileAt entry.parts tree).getD []

/-- The staging directory holds the files of the tree, except those of the entries that are left. -/
structure Staged (area : Area) (tree : Directory) (left : List TencentCosEntry) (files : Directory) : Prop where
  staged : ∃ children, files = area.files children ∧ Solid children ∧
    ∀ path, fileAt path children = if path ∈ left.map TencentCosEntry.parts then none else fileAt path tree

theorem returns_onFiles {operation : Directory → Except PyExc Directory} {world : World CosStore}
    {files : Directory} (h : operation world.files = .ok files) :
    Returns (onFiles operation) () (· = files) world :=
  ⟨{ world with files := files }, onFiles_run h, rfl, .refl _, le_rfl, le_rfl⟩

/-- The staging directory after the open file got its first bytes. -/
def Growing (area : Area) (path : List String) (children : Directory) (data : Bytes) (files : Directory) : Prop :=
  ∃ current, files = area.files current ∧ Wrote path data children current

theorem sinks_append (area : Area) (path : List String) (children : Directory) :
    Sinks (fun chunk => onFiles (inDirectory area.path (appendFile chunk path))) (Growing area path children) := by
  intro data chunk world hgrowing
  obtain ⟨current, hfiles, hwrote⟩ := hgrowing
  have hfile : fileAt path current = some data := by rw [hwrote.files path, if_pos rfl]
  obtain ⟨after, hafter, hmore⟩ := appendFile_wrote hwrote.solid hfile chunk
  have hrun : inDirectory area.path (appendFile chunk path) world.files = .ok (area.files after) := by
    rw [hfiles, area.inDirectory_staging, hafter]
    rfl
  apply (returns_onFiles hrun).mono
  intro files hlast
  exact ⟨after, hlast, hwrote.trans hmore⟩

theorem createTarget_eq {parts : List String} (h : ∀ part ∈ parts, '\x00' ∉ part.toList) (directory : Directory) :
    createTarget parts directory = createFile parts directory := by
  rw [createTarget, if_neg]
  intro hany
  obtain ⟨part, hpart, hnul⟩ := List.any_eq_true.mp hany
  exact h part hpart (of_decide_eq_true hnul)

theorem returns_restoreEntry {area : Area} {tree : Directory} {entry : TencentCosEntry}
    {rest : List TencentCosEntry} {world : World CosStore} {data : Bytes}
    (hdata : fileAt entry.parts tree = some data) (hnul : ∀ part ∈ entry.parts, '\x00' ∉ part.toList)
    (hfresh : entry.parts ∉ rest.map TencentCosEntry.parts)
    (hfetch : Fetchable machine service data entry.ref world) (hstaged : Staged area tree (entry :: rest) world.files) :
    Returns (restoreEntry machine service.client area.path entry) () (Staged area tree rest) world := by
  obtain ⟨children, hfiles, hsolid, hchildren⟩ := hstaged.staged
  have hne : entry.parts ≠ [] := by
    intro hnil
    rw [hnil] at hdata
    cases hdata
  have hfree : Free entry.parts children := by
    intro other found hother
    rw [hchildren other] at hother
    by_cases hleft : other ∈ (entry :: rest).map TencentCosEntry.parts
    · rw [if_pos hleft] at hother
      cases hother
    · rw [if_neg hleft] at hother
      have hdiffer : other ≠ entry.parts := by
        intro heq
        exact hleft (by rw [heq]; exact List.mem_map_of_mem List.mem_cons_self)
      constructor
      · intro hinitial
        exact hdiffer (fileAt_of_isPrefix hother hdata hinitial)
      · intro hinitial
        exact hdiffer (fileAt_of_isPrefix hdata hother hinitial).symm
  obtain ⟨created, hcreated, hwrote⟩ := createFile_wrote hne hsolid hfree
  have hrun : inDirectory area.path (createTarget entry.parts) world.files = .ok (area.files created) := by
    rw [hfiles, area.inDirectory_staging, createTarget_eq hnul, hcreated]
    rfl
  apply Returns.bind (returns_onFiles hrun)
  intro first hfirst hfirstFiles
  have hlast := hfetch.later hfirst
  apply Returns.bind (returns_download hlast.answers hlast.held (sinks_append area entry.parts children)
    ⟨created, hfirstFiles, hwrote⟩)
  intro second _ hsecond
  obtain ⟨current, hcurrent, hall⟩ := hsecond
  apply returns_pure
  refine ⟨current, hcurrent, hall.solid, ?_⟩
  intro path
  rw [hall.files path, hchildren path]
  by_cases hpath : path = entry.parts
  · rw [if_pos hpath, hpath, if_neg hfresh, hdata]
  · rw [if_neg hpath]
    simp [hpath]

/-- The files of a tree are those of the entries of a commit. -/
structure Lists (tree : Directory) (commit : TencentCosCommit) : Prop where
  present : ∀ entry ∈ commit.entries, ∃ data, fileAt entry.parts tree = some data
  complete : ∀ path data, fileAt path tree = some data → path ∈ commit.entries.map TencentCosEntry.parts
  noNul : ∀ entry ∈ commit.entries, ∀ part ∈ entry.parts, '\x00' ∉ part.toList

theorem parts_injective {entry other : TencentCosEntry} (h : entry.parts = other.parts) :
    entry.relativePath = other.relativePath := by
  obtain ⟨-, -, hroot, hposix, -⟩ := entry.isEntryPath
  obtain ⟨-, -, hroot', hposix', -⟩ := other.isEntryPath
  have hof : PurePosixPath.of entry.relativePath = PurePosixPath.of other.relativePath := by
    cases hpath : PurePosixPath.of entry.relativePath with
    | mk root parts =>
        cases hpath' : PurePosixPath.of other.relativePath with
        | mk root' parts' =>
            rw [hpath] at hroot
            rw [hpath'] at hroot'
            rw [TencentCosEntry.parts, TencentCosEntry.parts, hpath, hpath'] at h
            rw [show root = root' from Eq.trans hroot hroot'.symm, show parts = parts' from h]
  rw [hposix, hposix', hof]

theorem parts_nodup (commit : TencentCosCommit) : (commit.entries.map TencentCosEntry.parts).Nodup := by
  have hpaths := commit.uniquelySorted.2
  rw [List.Nodup, List.pairwise_map] at hpaths ⊢
  apply hpaths.imp
  intro entry other hdiffer heq
  exact hdiffer (parts_injective heq)

/-! ### The restore -/

theorem staged_start (area : Area) {tree : Directory} {commit : TencentCosCommit} (hlists : Lists tree commit) :
    Staged area tree commit.entries (area.files []) := by
  refine ⟨[], rfl, ?_, ?_⟩
  · intro child hchild
    cases hchild
  · intro path
    by_cases hpath : path ∈ commit.entries.map TencentCosEntry.parts
    · rw [if_pos hpath, fileAt_empty]
    · rw [if_neg hpath, fileAt_empty]
      cases hfile : fileAt path tree with
      | none => rfl
      | some data => exact absurd (hlists.complete path data hfile) hpath

theorem returns_restoreEntries {area : Area} {tree : Directory} {commit : TencentCosCommit} {world : World CosStore}
    (hlists : Lists tree commit)
    (hfetch : ∀ entry ∈ commit.entries, Fetchable machine service (contentOf tree entry) entry.ref world)
    (hfiles : world.files = area.files []) :
    Returns (Prog.forEach (restoreEntry machine service.client area.path) commit.entries) ()
      (Staged area tree []) world := by
  have hpass : ∀ (entry : TencentCosEntry) (rest : List TencentCosEntry) (world : World CosStore),
      Fetchable machine service (contentOf tree entry) entry.ref world →
      (entry :: rest <:+ commit.entries ∧ Staged area tree (entry :: rest) world.files) →
      Returns (restoreEntry machine service.client area.path entry) ()
        (fun files => rest <:+ commit.entries ∧ Staged area tree rest files) world := by
    intro entry rest world hentry hinv
    obtain ⟨hsuffix, hstaged⟩ := hinv
    obtain ⟨data, hdata⟩ := hlists.present entry (hsuffix.mem List.mem_cons_self)
    have hcontent : contentOf tree entry = data := by rw [contentOf, hdata, Option.getD_some]
    rw [hcontent] at hentry
    have hnodup := (parts_nodup commit).sublist (hsuffix.map TencentCosEntry.parts).sublist
    rw [List.map_cons, List.nodup_cons] at hnodup
    have hnul := hlists.noNul entry (hsuffix.mem List.mem_cons_self)
    apply (returns_restoreEntry hdata hnul hnodup.1 hentry hstaged).mono
    intro files hrest
    exact ⟨(List.suffix_cons entry rest).trans hsuffix, hrest⟩
  have hstart : commit.entries <:+ commit.entries ∧ Staged area tree commit.entries world.files := by
    rw [hfiles]
    exact ⟨List.suffix_rfl, staged_start area hlists⟩
  have hloop := returns_forEach (fun left files => left <:+ commit.entries ∧ Staged area tree left files)
    (fun _ _ _ hentry hthen => hentry.later hthen) hpass commit.entries world hfetch hstart
  apply hloop.mono
  intro files hdone
  exact hdone.2

theorem returns_fillStaging {area : Area} {tree : Directory} {name : String} {commit : TencentCosCommit}
    {world : World CosStore} (hlists : Lists tree commit)
    (hfetch : ∀ entry ∈ commit.entries, Fetchable machine service (contentOf tree entry) entry.ref world)
    (hfiles : world.files = area.files []) (hname : name ∉ area.directory.names) (hne : name ≠ area.staging) :
    Returns (fillStaging machine service.client area name commit.entries) ()
      (fun files => ∃ children, files = area.restored name children ∧
        ∀ path, fileAt path children = fileAt path tree) world := by
  apply Returns.bind (returns_restoreEntries hlists hfetch hfiles)
  intro first _ hfirst
  obtain ⟨children, hstaged, -, hchildren⟩ := hfirst.staged
  have hassert : assertStagingIdentity area.path first.files = .ok () := by
    rw [assertStagingIdentity, hstaged, area.nodeAt_staging]
  have hchecked : Returns (fromFiles (assertStagingIdentity area.path)) () (· = first.files) first :=
    ⟨first, by rw [fromFiles, hassert], rfl, .refl first⟩
  apply Returns.bind hchecked
  intro second _ hsecond
  have hrun : inDirectory area.parent (renameNoreplace area.staging name) second.files =
      .ok (area.restored name children) := by
    rw [hsecond, hstaged, area.rename_staging hname hne]
  apply (returns_onFiles hrun).mono
  intro files hlast
  refine ⟨children, hlast, ?_⟩
  intro path
  rw [hchildren path]
  simp

theorem staging_ne (machine : Machine) (name : String) (directory : Directory) :
    name ≠ stagingName machine name directory := by
  intro heq
  have hlength := congrArg String.length heq
  simp only [stagingName, String.length_append] at hlength
  have hdot : ".".length = 1 := rfl
  omega

/-- A restore of a commit that lists a tree makes the files of the tree. -/
theorem returns_restoreCommit {ref : TencentCosCommitRef} {commit : TencentCosCommit} {tree : Directory}
    {parent : List String} {name : String} {directory : Directory} {world : World CosStore}
    (hreadable : Readable machine service archive ref commit (contentOf tree) world) (hlists : Lists tree commit)
    (hparent : rejectSymlinkAncestry parent world.files = .ok directory) (hname : name ∉ directory.names) :
    Returns (restoreCommit machine service.client archive ref parent name)
      ⟨ref, commit.entries.length, (commit.entries.map fun entry => entry.ref.size).sum, true⟩
      (fun files => ∃ children, rejectSymlinkAncestry (parent ++ [name]) files = .ok children ∧
        ∀ path, fileAt path children = fileAt path tree) world := by
  obtain ⟨verified, hverify, hfiles, hlater⟩ := returns_verifyCommit hreadable
  rw [← hfiles] at hparent
  have hrun := restore_run hverify hparent hname
  have hstart : Later verified { verified with files := (areaOf machine hparent name).files [] } :=
    ⟨.refl _, le_rfl, le_rfl⟩
  have hthen := hreadable.later (hlater.trans hstart)
  have hfill := returns_fillStaging hlists
    (fun entry hentry => ⟨hthen.answers, hthen.entries entry hentry⟩) rfl hname (staging_ne machine name directory)
  have hrest : Returns (do
      let ended ← Prog.attempt (fillStaging machine service.client (areaOf machine hparent name) name commit.entries)
      onFiles (inDirectory parent (removeTree (stagingName machine name directory)))
      Prog.resume ended
      pure ⟨ref, commit.entries.length, (commit.entries.map fun entry => entry.ref.size).sum, true⟩)
      (⟨ref, commit.entries.length, (commit.entries.map fun entry => entry.ref.size).sum, true⟩ :
        TencentCosRestoreReceipt)
      (fun files => ∃ children, files = (areaOf machine hparent name).restored name children ∧
        ∀ path, fileAt path children = fileAt path tree)
      { verified with files := (areaOf machine hparent name).files [] } := by
    apply Returns.bind hfill.attempt
    intro filled _ hfilled
    obtain ⟨children, hrestored, hchildren⟩ := hfilled
    have hremove : inDirectory parent (removeTree (stagingName machine name directory)) filled.files =
        .ok ((areaOf machine hparent name).restored name children) := by
      rw [hrestored]
      exact (areaOf machine hparent name).remove_restored (staging_ne machine name directory) children
    apply Returns.bind (returns_onFiles hremove)
    intro cleaned _ hcleaned
    exact returns_pure _ ⟨children, hcleaned, hchildren⟩
  obtain ⟨last, hlast, ⟨children, hrestored, hchildren⟩, hend⟩ := hrest
  refine ⟨last, hrun.trans hlast, ⟨children, ?_, hchildren⟩, hlater.trans (hstart.trans hend)⟩
  rw [hrestored]
  exact (areaOf machine hparent name).restored_children hname children

/-! ### What a mirror leaves in the store -/

theorem FileAt.fileNames {node : FsNode} {path : List String} {data : Bytes} (h : node.FileAt path data)
    (hnames : WellNamed node) : ∀ part ∈ path, FileName part ∧ '\x00' ∉ part.toList := by
  induction h with
  | file data =>
      intro part hpart
      cases hpart
  | @child children name node path data hmem _ ih =>
      intro part hpart
      rcases List.mem_cons.mp hpart with heq | hlater
      · rw [heq]
        exact (hnames children .here).2 (name, node) hmem
      · exact ih (hnames.child hmem) part hlater

/-- The inventory of a tree lists every file of it. -/
theorem inventoryTree_complete {sha : Sha256} {tree : Directory} {inventory : ArchiveInventory} (hnames : WellNamed (.directory tree))
    (hentries : inventoryDirectory sha ⟨"", []⟩ tree = .ok inventory.entries) {path : List String} {data : Bytes}
    (hfile : fileAt path tree = some data) :
    ∃ listed ∈ inventory.entries, (PurePosixPath.of listed.relativePath).parts = path := by
  rw [fileAt_eq_some_iff fun inner hinner => (hnames inner hinner).1] at hfile
  have hnodes : ∀ child ∈ tree, ∀ entries,
      inventoryNode sha ⟨"", [] ++ [child.1]⟩ child.1 child.2 = .ok entries →
        entries.map ArchiveInventoryEntry.record =
          child.2.files.map fun file => fileRecord sha ([] ++ [child.1] ++ file.1, file.2) := by
    intro child hchild entries hnode
    exact inventoryNode_ok sha child.2 (hnames.child hchild) hnode
  have hrecords := inventoryDirectory_ok_of sha (fun child hchild => ((hnames tree .here).2 child hchild).1) hnodes
    hentries
  have hrecord : fileRecord sha (path, data) ∈ inventory.entries.map ArchiveInventoryEntry.record := by
    rw [hrecords]
    exact List.mem_map.mpr ⟨(path, data), (mem_files_iff _ path data).mpr hfile, rfl⟩
  obtain ⟨listed, hlisted, heq⟩ := List.mem_map.mp hrecord
  have hne : path ≠ [] := by
    intro hnil
    rw [hnil] at hfile
    cases hfile
  refine ⟨listed, hlisted, ?_⟩
  have hpath : listed.relativePath = "/".intercalate path := congrArg Prod.fst heq
  rw [hpath, FileName.of_intercalate (fun part hpart => (FileAt.fileNames hfile hnames part hpart).1) hne]

/-- The bytes of a reference were stored meanwhile. -/
structure Archived (machine : Machine) (data : Bytes) (ref : TencentCosObjectRef) (before after : World CosStore) :
    Prop where
  stored : ∃ version, Certifies machine data ref version ∧
    after.store.version? ref.key ref.versionId = some version
  fresh : before.store.version? ref.key ref.versionId = none

theorem Archived.widen {data : Bytes} {ref : TencentCosObjectRef} {first before after last : World CosStore}
    (h : Archived machine data ref before after) (hfirst : Later first before) (hlast : Later after last) :
    Archived machine data ref first last := by
  obtain ⟨version, hcertifies, hstored⟩ := h.stored
  refine ⟨⟨version, hcertifies, hlast.kept _ _ _ hstored⟩, ?_⟩
  cases hold : first.store.version? ref.key ref.versionId with
  | none => rfl
  | some old =>
      have hkept := hfirst.kept _ _ _ hold
      rw [h.fresh] at hkept
      cases hkept

theorem uploadVerifiedSource_archived {source : Bytes} {key sha256 : String} {size : ℕ} {requireAbsent : Bool}
    {ref : TencentCosObjectRef} {before after : World CosStore}
    (h : uploadVerifiedSource machine service.client archive source key sha256 size requireAbsent before =
      (.ok ref, after)) : Archived machine source ref before after := by
  obtain ⟨version, hcertifies, hstored, hfresh⟩ := uploadVerifiedSource_certifies h
  exact ⟨⟨version, hcertifies, hstored⟩, hfresh⟩

/-- What the mirror did for one entry of the inventory. -/
structure EntryArchived (machine : Machine) (source : List String) (listed : ArchiveInventoryEntry)
    (entry : TencentCosEntry) (before after : World CosStore) : Prop where
  path : entry.relativePath = listed.relativePath
  archived : ∃ data, openInventoryEntry machine.sha before.files source listed = .ok data ∧
    Archived machine data entry.ref before after

theorem mirrorEntry_archived {source : List String} {listed : ArchiveInventoryEntry} {entry : TencentCosEntry}
    {before after : World CosStore}
    (h : mirrorEntry machine service.client archive source listed before = (.ok entry, after)) :
    EntryArchived machine source listed entry before after := by
  obtain ⟨data, first, hopen, h⟩ := Prog.bind_ok h
  obtain ⟨hdata, hfirst⟩ := fromFiles_ok hopen
  obtain ⟨ref, second, hput, h⟩ := Prog.bind_ok h
  obtain ⟨hmade, hafter⟩ := Prog.resume_ok_inv h
  obtain ⟨hpath, href⟩ := entry_make_ok hmade
  rw [putBlob] at hput
  by_cases hsha : IsSha256 listed.sha256
  · rw [if_pos hsha] at hput
    have harchived := uploadVerifiedSource_archived hput
    rw [hfirst] at harchived
    refine ⟨hpath, data, hdata, ?_⟩
    rw [href, hafter]
    exact harchived
  · rw [if_neg hsha] at hput
    cases hput

theorem EntryArchived.widen {source : List String} {listed : ArchiveInventoryEntry} {entry : TencentCosEntry}
    {first before after last : World CosStore} (hfirst : Grows first before)
    (h : EntryArchived machine source listed entry before after) (hlast : Grows after last) :
    EntryArchived machine source listed entry first last := by
  obtain ⟨data, hopen, harchived⟩ := h.archived
  rw [hfirst.files] at hopen
  exact ⟨h.path, data, hopen, harchived.widen hfirst.later hlast.later⟩

/-- A published commit, with its object in the store. -/
structure CommitArchived (machine : Machine) (archive : TencentCosArchive) (ref : TencentCosCommitRef)
    (commit : TencentCosCommit) (before after : World CosStore) : Prop where
  commitId : commit.commitId = ref.commitId
  key : ref.key = commitKey archive ref.commitId
  object : ∃ object : TencentCosObjectRef, object.key = ref.key ∧ object.versionId = ref.versionId ∧
    object.sha256 = ref.sha256 ∧ object.size = ref.size ∧ object.retainUntil = ref.retainUntil ∧
      Archived machine (encodeTencentCosCommit commit) object before after

theorem publishCommit_archived {commit : TencentCosCommit} {ref : TencentCosCommitRef} {before after : World CosStore}
    (h : publishCommit machine service.client archive commit before = (.ok ref, after)) :
    CommitArchived machine archive ref commit before after := by
  obtain ⟨object, first, hupload, h⟩ := Prog.bind_ok h
  obtain ⟨hid, hkey, hversion, hsha, hsize, huntil⟩ := commitRef_make_ok h
  obtain ⟨-, hobjectKey, -, -⟩ := uploadVerifiedSource_ok hupload
  have hlast : Grows first after := (steps_make_commitRef steps_now_grows commit.commitId object).of_run h
  refine ⟨hid.symm, ?_, object, hkey.symm, hversion.symm, hsha.symm, hsize.symm, huntil.symm, ?_⟩
  · rw [hkey, hobjectKey, hid]
  · exact (uploadVerifiedSource_archived hupload).widen (.refl before) hlast.later

/-- A mirror that returned put every file of its tree into the store. -/
structure TreeArchived (machine : Machine) (archive : TencentCosArchive) (tree : Directory)
    (ref : TencentCosCommitRef) (commit : TencentCosCommit) (before after : World CosStore) : Prop where
  lists : Lists tree commit
  entries : ∀ entry ∈ commit.entries, Archived machine (contentOf tree entry) entry.ref before after
  published : CommitArchived machine archive ref commit before after

theorem mirrorTree_archived {source : List String} {commitId : String} {ref : TencentCosCommitRef}
    {before after : World CosStore} (hnames : WellNamed (.directory before.files))
    (h : mirrorTree machine service.client archive source commitId before = (.ok ref, after)) :
    ∃ tree commit, openDirectoryPath before.files source = .ok tree ∧
      TreeArchived machine archive tree ref commit before after := by
  unfold mirrorTree at h
  obtain ⟨inventory, first, hinventory, h⟩ := Prog.bind_ok h
  obtain ⟨hinventoried, hfirst⟩ := fromFiles_ok hinventory
  obtain ⟨entries, second, hentries, h⟩ := Prog.bind_ok h
  obtain ⟨finalInventory, third, hfinal, h⟩ := Prog.bind_ok h
  obtain ⟨-, hthird⟩ := fromFiles_ok hfinal
  obtain ⟨-, h⟩ := Prog.ite_raise_ok h
  obtain ⟨commit, fourth, hcommit, hpublish⟩ := Prog.bind_ok h
  obtain ⟨hmade, hfourth⟩ := Prog.resume_ok_inv hcommit
  obtain ⟨-, -, hlisted⟩ := commit_make_ok hmade
  rw [hfirst] at hentries
  rw [hfourth, hthird] at hpublish
  obtain ⟨tree, htree, hwalked, -⟩ := inventoryTree_ok hinventoried
  have hsteps : ∀ listed, Prog.Steps Grows (mirrorEntry machine service.client archive source listed) :=
    steps_mirrorEntry clientSteps_grows steps_now_grows steps_fromFiles_grows source
  have hmirrored := Prog.collect_all hsteps (fun _ _ _ _ => mirrorEntry_archived)
    (fun _ _ _ _ _ _ hstart hfact hend => EntryArchived.widen hstart hfact hend) hentries
  have hentry : ∀ (listed : ArchiveInventoryEntry) (entry : TencentCosEntry) (s t : World CosStore),
      mirrorEntry machine service.client archive source listed s = (.ok entry, t) →
        entry.relativePath = listed.relativePath := by
    intro listed entry s t hrun
    exact (mirrorEntry_archived hrun).path
  have hpaths := Prog.collect_map_eq hentry hentries
  have hpublished := publishCommit_archived hpublish
  have hfirstGrows : Grows before second := (Prog.steps_collect hsteps inventory.entries).of_run hentries
  have hlastGrows : Grows second after :=
    (steps_publishCommit clientSteps_grows steps_now_grows commit).of_run hpublish
  have hcontent : ∀ entry ∈ commit.entries, ∃ data, fileAt entry.parts tree = some data ∧
      Archived machine data entry.ref before after := by
    intro entry hmem
    rw [hlisted] at hmem
    obtain ⟨listed, -, harchived⟩ := hmirrored entry hmem
    obtain ⟨data, hopen, hstored⟩ := harchived.archived
    obtain ⟨directory, hdirectory, hfile⟩ := openInventoryEntry_ok hopen
    rw [htree] at hdirectory
    rw [← Except.ok.inj hdirectory, ← harchived.path] at hfile
    exact ⟨data, hfile, hstored.widen (.refl before) hlastGrows.later⟩
  refine ⟨tree, commit, htree, ⟨?_, ?_, ?_⟩, ?_, ?_⟩
  · intro entry hmem
    obtain ⟨data, hfile, -⟩ := hcontent entry hmem
    exact ⟨data, hfile⟩
  · intro path data hfile
    obtain ⟨listed, hmem, hparts⟩ := inventoryTree_complete (hnames.openDirectoryPath htree) hwalked hfile
    have hpath : listed.relativePath ∈ entries.map TencentCosEntry.relativePath := by
      rw [hpaths]
      exact List.mem_map_of_mem hmem
    obtain ⟨entry, hentryMem, heq⟩ := List.mem_map.mp hpath
    rw [hlisted]
    refine List.mem_map.mpr ⟨entry, hentryMem, ?_⟩
    rw [TencentCosEntry.parts, heq, hparts]
  · intro entry hmem
    obtain ⟨data, hfile, -⟩ := hcontent entry hmem
    have htreeNames := hnames.openDirectoryPath htree
    rw [fileAt_eq_some_iff fun inner hinner => (htreeNames inner hinner).1] at hfile
    exact fun part hpart => (FileAt.fileNames hfile htreeNames part hpart).2
  · intro entry hmem
    obtain ⟨data, hfile, hstored⟩ := hcontent entry hmem
    rw [contentOf, hfile, Option.getD_some]
    exact hstored
  · obtain ⟨object, hkey, hversion, hsha, hsize, huntil, harchived⟩ := hpublished.object
    exact ⟨hpublished.commitId, hpublished.key, object, hkey, hversion, hsha, hsize, huntil,
      harchived.widen hfirstGrows.later (.refl after)⟩

/-! ### The round trip -/

/-- The retention of every version that was stored meanwhile lasts from now on. -/
def Retained (machine : Machine) (before after : CosStore) (ticks : ℕ) : Prop :=
  ∀ key versionId version, before.version? key versionId = none → after.version? key versionId = some version →
    Unexpired machine ticks version.retainUntil

theorem Archived.held {data : Bytes} {ref : TencentCosObjectRef} {before after world : World CosStore}
    (h : Archived machine data ref before after) (hkept : Kept after.store world.store)
    (hretained : Retained machine before.store after.store world.ticks) : Held machine data ref world := by
  obtain ⟨version, hcertifies, hstored⟩ := h.stored
  refine ⟨⟨version, hcertifies, hkept _ _ _ hstored⟩, ?_⟩
  have hunexpired := hretained _ _ version h.fresh hstored
  rwa [hcertifies.retainUntil] at hunexpired

theorem TreeArchived.readable {tree : Directory} {ref : TencentCosCommitRef} {commit : TencentCosCommit}
    {before after world : World CosStore} (h : TreeArchived machine archive tree ref commit before after)
    (hkept : Kept after.store world.store) (hanswers : Answers service world)
    (hretained : Retained machine before.store after.store world.ticks) :
    Readable machine service archive ref commit (contentOf tree) world := by
  obtain ⟨object, hkey, hversion, hsha, hsize, huntil, harchived⟩ := h.published.object
  refine ⟨hanswers, ⟨object, hkey, hversion, hsha, hsize, huntil, harchived.held hkept hretained⟩,
    h.published.commitId, h.published.key, ?_⟩
  intro entry hmem
  exact (h.entries entry hmem).held hkept hretained

/-! ### A tree with one file -/

theorem replicate_fresh (character : Char) (stem : String) (names : List String) :
    stem ++ String.ofList (List.replicate (8 + (names.map String.length).sum) character) ∉ names := by
  intro hmem
  have hle : (stem ++ _).length ≤ (names.map String.length).sum := List.le_sum_of_mem (List.mem_map_of_mem hmem)
  rw [String.length_append, String.length_ofList, List.length_replicate] at hle
  omega

def oneFileSha256 : String := "8f434346648f6b96df89dda901c5176b10a6d83961dd3c1ac88b59b2dc327aa4"

def oneFileTreeSha256 : String := "7224d1f6b4891e36ce7bb4a2f087931e94750834158d2bd59c92e653ed9143c2"

def oneFileRef : TencentCosObjectRef where
  key := "evidence/blobs/sha256/8f/8f434346648f6b96df89dda901c5176b10a6d83961dd3c1ac88b59b2dc327aa4"
  versionId := "vvvvvvvv"
  sha256 := oneFileSha256
  size := 2
  retainUntil := "2030-01-01T00:00:00Z"
  isKey := by decide +kernel
  isVersionId := by decide
  isSha256 := isSha256_ofList rfl rfl

/-- The commit of the tree with the file `a`. -/
def oneFileCommit : TencentCosCommit where
  commitId := "c"
  sourceTreeSha256 := oneFileTreeSha256
  entries := [⟨"a", oneFileRef, by decide⟩]
  isCommitId := by decide
  isSha256 := isSha256_ofList rfl rfl
  uniquelySorted := by decide

/-- A commit of no file that names the digest of the tree with one. -/
def forgedCommit : TencentCosCommit where
  commitId := "c"
  sourceTreeSha256 := oneFileTreeSha256
  entries := []
  isCommitId := by decide
  isSha256 := isSha256_ofList rfl rfl
  uniquelySorted := by decide

/-- SHA-256 on the bytes that are hashed below. -/
def cosDigest (data : Bytes) : String :=
  if data = [104, 105] then oneFileSha256
  else if data = [91, 93] then "4f53cda18c2baa0c0354bb5f9a3ecbe5ed12ab4d8e11ba873c2f11161202b945"
  else if data = encodeTencentCosCommit oneFileCommit then
    "f8f9a15a8e9046989ada8d233d1aca263d6899d657243d6dddd8017f5ccea72f"
  else if data = encodeTencentCosCommit forgedCommit then "e675c54367972add597acbb29485b0b5f913c116e591f3fda830109f0f975d9c"
  else oneFileTreeSha256

def cosSha : Sha256 where
  hexdigest := cosDigest
  isSha256 data := by
    rw [cosDigest]
    split
    · exact isSha256_ofList rfl rfl
    · split
      · exact isSha256_ofList rfl rfl
      · split
        · exact isSha256_ofList rfl rfl
        · split <;> exact isSha256_ofList rfl rfl

theorem cosSha_oneFile {data : Bytes}
    (h : cosDigest data = "f8f9a15a8e9046989ada8d233d1aca263d6899d657243d6dddd8017f5ccea72f") :
    data = encodeTencentCosCommit oneFileCommit := by
  rw [cosDigest] at h
  by_cases hfile : data = [104, 105]
  · rw [if_pos hfile] at h
    exact absurd h (by decide +kernel)
  · rw [if_neg hfile] at h
    by_cases hempty : data = [91, 93]
    · rw [if_pos hempty] at h
      exact absurd h (by decide +kernel)
    · rw [if_neg hempty] at h
      by_cases hcommit : data = encodeTencentCosCommit oneFileCommit
      · exact hcommit
      · rw [if_neg hcommit] at h
        by_cases hforged : data = encodeTencentCosCommit forgedCommit
        · rw [if_pos hforged] at h
          exact absurd h (by decide +kernel)
        · rw [if_neg hforged] at h
          exact absurd h (by decide +kernel)

def sampleMachine : Machine where
  sha := cosSha
  fromIsoformat text := if text = "2030-01-01T00:00:00+00:00" then some ⟨1893456000000000, some 0⟩ else none
  clock _ := 1767225600000000
  temporarySuffix _ names := String.ofList (List.replicate (8 + (names.map String.length).sum) 'a')
  temporarySuffix_fresh stem names := replicate_fresh 'a' stem names

def sampleService : CosService where
  fault _ := none
  versionId store :=
    "" ++ String.ofList (List.replicate (8 + ((store.versions.map StoredVersion.versionId).map String.length).sum) 'v')
  versionId_fresh store := replicate_fresh 'v' "" (store.versions.map StoredVersion.versionId)
  uploadId store :=
    "" ++ String.ofList (List.replicate (8 + ((store.uploads.map PendingUpload.uploadId).map String.length).sum) 'u')
  uploadId_fresh store := replicate_fresh 'u' "" (store.uploads.map PendingUpload.uploadId)
  etag _ := "etag"
  retentionMode _ := "COMPLIANCE"
  retainUntil _ := "2030-01-01T00:00:00Z"
  split _ body := if body = [] then [] else [body]
  split_flatten _ body := by
    by_cases hbody : body = []
    · simp [hbody]
    · simp [hbody]
  split_nonempty _ body := by
    by_cases hbody : body = []
    · simp [hbody]
    · simp [hbody]

def sampleArchive : TencentCosArchive where
  keyPrefix := "evidence"
  minimumRetentionDays := 30
  multipartThreshold := oneMib
  multipartPartSize := oneMib
  isPrefix := ⟨"evidence", by decide⟩
  retentionPositive := by decide
  partSizeBounds := by decide
  thresholdBounds := by decide

def sampleWorld : World CosStore :=
  ⟨.empty, 0, [("backup", .directory []), ("data", .directory [("a", .file [104, 105])])]⟩

/-- The retention date of every stored version. -/
def AllUntil (retainUntil : String) (store : CosStore) : Prop :=
  ∀ version ∈ store.versions, version.retainUntil = retainUntil

instance (retainUntil : String) (store : CosStore) : Decidable (AllUntil retainUntil store) :=
  inferInstanceAs (Decidable (∀ version ∈ store.versions, version.retainUntil = retainUntil))

/-- The mirror of the tree. -/
theorem oneFile_mirrored : ∃ ref after,
    mirrorTree sampleMachine sampleService.client sampleArchive ["data"] "c" sampleWorld = (.ok ref, after) ∧
      ref.sha256 = "f8f9a15a8e9046989ada8d233d1aca263d6899d657243d6dddd8017f5ccea72f" ∧
        AllUntil "2030-01-01T00:00:00Z" after.store ∧ after.files = sampleWorld.files := by
  have hrun : (mirrorTree sampleMachine sampleService.client sampleArchive ["data"] "c" sampleWorld).1.toOption.map
      TencentCosCommitRef.sha256 = some "f8f9a15a8e9046989ada8d233d1aca263d6899d657243d6dddd8017f5ccea72f" ∧
        AllUntil "2030-01-01T00:00:00Z"
          (mirrorTree sampleMachine sampleService.client sampleArchive ["data"] "c" sampleWorld).2.store := by
    decide +kernel
  have hsteps : Prog.Steps SameFiles (mirrorTree sampleMachine sampleService.client sampleArchive ["data"] "c") :=
    steps_mirrorTree (clientSteps_sameFiles _) steps_now steps_fromFiles ["data"] "c"
  cases hmirror : mirrorTree sampleMachine sampleService.client sampleArchive ["data"] "c" sampleWorld with
  | mk ended after =>
      rw [hmirror] at hrun
      obtain ⟨hsha, huntil⟩ := hrun
      cases ended with
      | error error => cases hsha
      | ok ref => exact ⟨ref, after, rfl, Option.some.inj hsha, huntil, hsteps.of_run hmirror⟩

theorem sample_unexpired (ticks : ℕ) : Unexpired sampleMachine ticks "2030-01-01T00:00:00Z" := by
  refine ⟨1893456000000000, by decide +kernel, ?_⟩
  intro tick _
  change (1767225600000000 : Int) < 1893456000000000
  decide

theorem sample_retained {after : CosStore} (h : AllUntil "2030-01-01T00:00:00Z" after) (before : CosStore) (ticks : ℕ) :
    Retained sampleMachine before after ticks := by
  intro key versionId version _ hversion
  rw [h version (List.mem_of_find?_eq_some hversion)]
  exact sample_unexpired ticks

theorem sample_answers (world : World CosStore) : Answers sampleService world := fun _ _ => rfl

theorem sample_wellNamed : WellNamed (.directory sampleWorld.files) := by
  have hdata : WellNamed (.directory [("a", .file [104, 105])]) := by
    apply wellNamed_directory (by decide)
    intro child hchild
    rw [List.mem_singleton.mp hchild]
    exact ⟨by decide, wellNamed_file _⟩
  have hbackup : WellNamed (.directory []) := wellNamed_directory List.nodup_nil (by simp)
  apply wellNamed_directory (by decide)
  intro child hchild
  rcases List.mem_cons.mp hchild with heq | hlater
  · rw [heq]
    exact ⟨by decide, hbackup⟩
  · rw [List.mem_singleton.mp hlater]
    exact ⟨by decide, hdata⟩

/-- A commit that verifies under the reference of a mirrored tree lists the inventory of the tree, and
names the digest of what it lists. The digest of the reference is taken to be that of one byte string. -/
theorem verifyCommit_binds_tree {σ τ : Type} {client : TencentCosClient σ} {auditor : TencentCosClient τ} {source : List String} {commitId : String}
    {ref : TencentCosCommitRef} {receipt : TencentCosVerificationReceipt} {before after : World σ}
    {reader verified : World τ}
    (hunique : ∀ first second, machine.sha.hexdigest first = ref.sha256 →
      machine.sha.hexdigest second = ref.sha256 → first = second)
    (hmirror : mirrorTree machine client archive source commitId before = (.ok ref, after))
    (hverify : verifyCommit machine auditor archive ref reader = (.ok receipt, verified)) :
    receipt.commit.sourceTreeSha256 =
        inventoryDigest machine.sha (receipt.commit.entries.map TencentCosEntry.record) ∧
      ∃ inventory, inventoryTree machine.sha before.files source = .ok inventory ∧
        receipt.commit.entries.map TencentCosEntry.record =
          inventory.entries.map ArchiveInventoryEntry.record := by
  obtain ⟨inventory, commit, middle, hmirrored, hpublish⟩ := mirrorTree_ok hmirror
  obtain ⟨data, first, last, hsha, hdecode⟩ := verifyCommit_ok hverify
  rw [hunique data (encodeTencentCosCommit commit) hsha (publishCommit_ok hpublish)] at hdecode
  rw [decode_encode hdecode, hmirrored.tree, hmirrored.records]
  exact ⟨inventoryTree_treeSha256 hmirrored.inventoried, inventory, hmirrored.inventoried, rfl⟩

theorem verifyCommit_binds_oneFile : ∃ ref after receipt verified,
    mirrorTree sampleMachine sampleService.client sampleArchive ["data"] "c" sampleWorld = (.ok ref, after) ∧
      verifyCommit sampleMachine sampleService.client sampleArchive ref after = (.ok receipt, verified) ∧
        receipt.commit.sourceTreeSha256 =
          inventoryDigest cosSha (receipt.commit.entries.map TencentCosEntry.record) := by
  obtain ⟨ref, after, hmirror, hsha, huntil, hfiles⟩ := oneFile_mirrored
  obtain ⟨tree, commit, -, harchived⟩ := mirrorTree_archived sample_wellNamed hmirror
  obtain ⟨verified, hverify, -, -⟩ := returns_verifyCommit
    (harchived.readable (.refl _) (sample_answers after) (sample_retained huntil _ _))
  have hunique : ∀ data, cosSha.hexdigest data = ref.sha256 → data = encodeTencentCosCommit oneFileCommit := by
    intro data hdata
    rw [hsha] at hdata
    exact cosSha_oneFile hdata
  refine ⟨ref, after, _, verified, hmirror, hverify, ?_⟩
  exact (verifyCommit_binds_tree
    (fun first second hfirst hsecond => (hunique first hfirst).trans (hunique second hsecond).symm)
    hmirror hverify).1

/-- A commit is published with a digest of its author's choice, and verifies. -/
theorem verifyCommit_forged : ∃ ref after receipt verified,
    publishCommit sampleMachine sampleService.client sampleArchive forgedCommit sampleWorld = (.ok ref, after) ∧
      verifyCommit sampleMachine sampleService.client sampleArchive ref after = (.ok receipt, verified) ∧
        receipt.commit.sourceTreeSha256 ≠
          inventoryDigest cosSha (receipt.commit.entries.map TencentCosEntry.record) := by
  have hrun : (publishCommit sampleMachine sampleService.client sampleArchive forgedCommit sampleWorld).1.isOk =
      true ∧ AllUntil "2030-01-01T00:00:00Z"
        (publishCommit sampleMachine sampleService.client sampleArchive forgedCommit sampleWorld).2.store := by
    decide +kernel
  have hdigest : forgedCommit.sourceTreeSha256 ≠
      inventoryDigest cosSha (forgedCommit.entries.map TencentCosEntry.record) := by
    decide +kernel
  cases hpublish : publishCommit sampleMachine sampleService.client sampleArchive forgedCommit sampleWorld with
  | mk ended after =>
      rw [hpublish] at hrun
      obtain ⟨hok, huntil⟩ := hrun
      cases ended with
      | error error => cases hok
      | ok ref =>
          have hpublished := publishCommit_archived hpublish
          obtain ⟨object, hkey, hversion, hsha, hsize, hretain, harchived⟩ := hpublished.object
          have hheld := harchived.held (.refl after.store) (sample_retained huntil _ after.ticks)
          have hreadable : Readable sampleMachine sampleService sampleArchive ref forgedCommit (fun _ => []) after :=
            ⟨sample_answers after, ⟨object, hkey, hversion, hsha, hsize, hretain, hheld⟩, hpublished.commitId,
              hpublished.key, by simp [forgedCommit]⟩
          obtain ⟨verified, hverify, -, -⟩ := returns_verifyCommit hreadable
          exact ⟨ref, after, _, verified, rfl, hverify, hdigest⟩

end TxnOpt.Cos

import TxnOpt.Evidence.Proof.CosStore
import TxnOpt.Evidence.Proof.Mirror
import TxnOpt.Evidence.Proof.FileSystem

/-!
# Restoring

A restore works in a staging directory next to its destination. When it fails, the local files are as they
were; when the store answers and the retention lasts, it leaves the mirrored files at the destination.
-/

namespace TxnOpt.Cos

open Archive CosService

/-! ### The staging directory -/

/-- A directory with a free name for the staging directory. -/
structure Area where
  root : Directory
  parent : List String
  directory : Directory
  staging : String
  isDirectory : rejectSymlinkAncestry parent root = .ok directory
  fresh : staging ∉ directory.names

namespace Area

variable (area : Area)

/-- The local files, with these in the staging directory. -/
def files (children : Directory) : Directory :=
  putDirectory area.parent area.root (area.directory ++ [(area.staging, .directory children)])

def path : List String := area.parent ++ [area.staging]

theorem make_staging :
    inDirectory area.parent (makeDirectory area.staging) area.root = .ok (area.files []) := by
  rw [inDirectory_eq area.isDirectory, makeDirectory, if_neg area.fresh]
  rfl

theorem inDirectory_files (operation : Directory → Except PyExc Directory) (children : Directory) :
    inDirectory area.parent operation (area.files children) =
      (operation (area.directory ++ [(area.staging, .directory children)])).map
        (putDirectory area.parent area.root) := by
  rw [files, inDirectory_eq (rejectSymlinkAncestry_put area.isDirectory _)]
  cases operation (area.directory ++ [(area.staging, .directory children)]) with
  | error error => rfl
  | ok written => rw [Except.map, Except.map, putDirectory_put area.isDirectory]

theorem lookup_staging (children : Directory) :
    List.lookup area.staging (area.directory ++ [(area.staging, .directory children)]) =
      some (.directory children) := by
  rw [Directory.lookup_snoc, Directory.lookup_eq_none_iff.mpr area.fresh, if_pos rfl]
  rfl

/-- An operation in the staging directory. -/
theorem inDirectory_staging (operation : Directory → Except PyExc Directory) (children : Directory) :
    inDirectory area.path operation (area.files children) = (operation children).map area.files := by
  rw [path, inDirectory_append, inDirectory_files, inDirectory, lookup_staging]
  simp only [inDirectory]
  cases operation children with
  | error error => rfl
  | ok written =>
      simp only [Except.map, Directory.replace_snoc area.fresh]
      rfl

theorem nodeAt_staging (children : Directory) : nodeAt area.path (area.files children) = some (.directory children) := by
  have hat : ∀ {path : List String} {root directory : Directory} {name : String},
      rejectSymlinkAncestry path root = .ok directory → nodeAt (path ++ [name]) root = directory.lookup name := by
    intro path
    induction path with
    | nil =>
        intro root directory name h
        rw [← Except.ok.inj h]
        rfl
    | cons first path ih =>
        intro root directory name h
        obtain ⟨inner, hlookup, hinner⟩ := rejectSymlinkAncestry_cons h
        rw [← ih hinner]
        cases path with
        | nil => simp [nodeAt, hlookup]
        | cons next path => simp [nodeAt, hlookup]
  rw [path, files, hat (rejectSymlinkAncestry_put area.isDirectory _), lookup_staging]

theorem remove_staging (children : Directory) :
    inDirectory area.parent (removeTree area.staging) (area.files children) = .ok area.root := by
  rw [inDirectory_files, removeTree, lookup_staging, Directory.remove_snoc area.fresh, Except.map,
    putDirectory_same area.isDirectory]

/-- The files after the staging directory became the destination. -/
def restored (name : String) (children : Directory) : Directory :=
  putDirectory area.parent area.root (area.directory ++ [(name, .directory children)])

theorem rename_staging {name : String} (hname : name ∉ area.directory.names) (hne : name ≠ area.staging)
    (children : Directory) :
    inDirectory area.parent (renameNoreplace area.staging name) (area.files children) =
      .ok (area.restored name children) := by
  have hfree : name ∉ Directory.names (area.directory ++ [(area.staging, .directory children)]) := by
    rw [Directory.names, List.map_append, List.mem_append, not_or]
    exact ⟨hname, by simpa using hne⟩
  rw [inDirectory_files, renameNoreplace, lookup_staging]
  simp only [if_neg hfree, Directory.remove_snoc area.fresh]
  rfl

theorem remove_restored {name : String} (hname : name ≠ area.staging) (children : Directory) :
    inDirectory area.parent (removeTree area.staging) (area.restored name children) =
      .ok (area.restored name children) := by
  have hfree : area.staging ∉ Directory.names (area.directory ++ [(name, .directory children)]) := by
    rw [Directory.names, List.map_append, List.mem_append, not_or]
    exact ⟨area.fresh, by simpa using Ne.symm hname⟩
  have hnone := Directory.lookup_eq_none_iff.mpr hfree
  rw [restored, inDirectory_eq (rejectSymlinkAncestry_put area.isDirectory _), removeTree, hnone]
  simp only [Directory.remove_of_not_mem hfree, Except.map, putDirectory_put area.isDirectory]

theorem restored_children {name : String} (hname : name ∉ area.directory.names) (children : Directory) :
    rejectSymlinkAncestry (area.parent ++ [name]) (area.restored name children) = .ok children := by
  have hlookup : List.lookup name (area.directory ++ [(name, .directory children)]) = some (.directory children) := by
    rw [Directory.lookup_snoc, Directory.lookup_eq_none_iff.mpr hname, if_pos rfl]
    rfl
  rw [restored, rejectSymlinkAncestry_append (rejectSymlinkAncestry_put area.isDirectory _), rejectSymlinkAncestry,
    hlookup]
  rfl

end Area

/-! ### Failures -/

section Failures

variable {σ : Type} {machine : Machine} {client : TencentCosClient σ} {archive : TencentCosArchive}

/-- Nothing but the content of the staging directory has changed. -/
def InStaging (area : Area) (world : World σ) : Prop := ∃ children, world.files = area.files children

/-- A program that stays in the staging directory. -/
def Stays (area : Area) (before after : World σ) : Prop := InStaging area before → InStaging area after

instance (area : Area) : IsPreorder (World σ) (Stays area) where
  refl _ := id
  trans _ _ _ h h' hin := h' (h hin)

theorem stays_of_sameFiles {α : Type} {area : Area} {program : CosM σ α} (h : Prog.Steps SameFiles program) :
    Prog.Steps (Stays area) program := by
  intro world hin
  obtain ⟨children, hfiles⟩ := hin
  exact ⟨children, (h world).trans hfiles⟩

theorem clientSteps_stays (area : Area) : ClientSteps (Stays area) client where
  putObject _ := stays_of_sameFiles (steps_onStore _)
  createMultipartUpload _ := stays_of_sameFiles (steps_onStore _)
  uploadPart _ := stays_of_sameFiles (steps_onStore _)
  completeMultipartUpload _ := stays_of_sameFiles (steps_onStore _)
  abortMultipartUpload _ _ := stays_of_sameFiles (steps_onStore _)
  headObject _ _ := stays_of_sameFiles (steps_onStore _)
  getObject _ _ := stays_of_sameFiles (steps_onStore _)
  getObjectRetention _ _ := stays_of_sameFiles (steps_onStore _)
  objectExists _ := stays_of_sameFiles (steps_onStore _)

theorem stays_onFiles (area : Area) (operation : Directory → Except PyExc Directory) :
    Prog.Steps (Stays area) (onFiles (inDirectory area.path operation) : CosM σ Unit) := by
  intro world hin
  obtain ⟨children, hfiles⟩ := hin
  have hrun := area.inDirectory_staging operation children
  rw [onFiles, hfiles, hrun]
  cases operation children with
  | error error => exact ⟨children, hfiles⟩
  | ok written => exact ⟨written, rfl⟩

theorem stays_restoreEntry (area : Area) (entry : TencentCosEntry) :
    Prog.Steps (Stays area) (restoreEntry machine client area.path entry) := by
  refine Prog.steps_bind (stays_onFiles area _) ?_
  intro _
  refine Prog.steps_bind (steps_downloadVerified (clientSteps_stays area) (stays_of_sameFiles steps_now) entry.ref
    fun chunk => stays_onFiles area _) ?_
  intro _
  exact Prog.steps_pure _

/-- The part of a restore that runs before the cleanup. -/
def fillStaging (machine : Machine) (client : TencentCosClient σ) (area : Area) (name : String)
    (entries : List TencentCosEntry) : CosM σ Unit := do
  Prog.forEach (restoreEntry machine client area.path) entries
  fromFiles (assertStagingIdentity area.path)
  onFiles (inDirectory area.parent (renameNoreplace area.staging name))

/-- Where the local files are when the cleanup starts. -/
def CanCleanUp (area : Area) (ended : Except PyExc Unit) (world : World σ) : Prop :=
  match ended with
  | .ok _ => ∃ directory, world.files = putDirectory area.parent area.root directory
  | .error _ => InStaging area world

theorem fillStaging_ends {area : Area} {name : String} {entries : List TencentCosEntry} {before after : World σ}
    {ended : Except PyExc Unit} (hin : InStaging area before)
    (h : fillStaging machine client area name entries before = (ended, after)) : CanCleanUp area ended after := by
  rw [fillStaging, Prog.bind_apply] at h
  have hsteps : Prog.Steps (Stays area) (Prog.forEach (restoreEntry machine client area.path) entries) :=
    Prog.steps_forEach (stays_restoreEntry area) entries
  have hloop := hsteps before hin
  cases hentries : Prog.forEach (restoreEntry machine client area.path) entries before with
  | mk looped first =>
      rw [hentries] at h hloop
      cases looped with
      | error failed =>
          cases h
          exact hloop
      | ok _ =>
          simp only [Prog.bind_apply] at h
          cases hassert : assertStagingIdentity area.path first.files with
          | error failed =>
              rw [fromFiles, hassert] at h
              cases h
              exact hloop
          | ok _ =>
              obtain ⟨children, hloop⟩ := hloop
              have hfiles : first.files = area.files children := hloop
              rw [fromFiles, hassert] at h
              simp only [onFiles, hfiles, area.inDirectory_files] at h
              cases hrename : renameNoreplace area.staging name
                  (area.directory ++ [(area.staging, .directory children)]) with
              | error failed =>
                  rw [hrename] at h
                  cases h
                  exact ⟨children, hfiles⟩
              | ok directory =>
                  rw [hrename] at h
                  cases h
                  exact ⟨directory, rfl⟩

theorem removeTree_ok (name : String) (directory : Directory) :
    ∃ left, removeTree name directory = .ok left := by
  rw [removeTree]
  split
  · exact ⟨_, rfl⟩
  · exact ⟨_, rfl⟩

/-- The name that `mkdtemp` chooses. -/
def stagingName (machine : Machine) (name : String) (directory : Directory) : String :=
  "." ++ name ++ ".txnopt-cos-restore-" ++
    machine.temporarySuffix ("." ++ name ++ ".txnopt-cos-restore-") directory.names

/-- The staging directory of a restore into the directory at a path. -/
def areaOf (machine : Machine) {root directory : Directory} {parent : List String}
    (h : rejectSymlinkAncestry parent root = .ok directory) (name : String) : Area :=
  ⟨root, parent, directory, stagingName machine name directory, h, machine.temporarySuffix_fresh _ _⟩

theorem onFiles_run {operation : Directory → Except PyExc Directory} {world : World σ} {files : Directory}
    (h : operation world.files = .ok files) :
    (onFiles operation : CosM σ Unit) world = (.ok (), { world with files := files }) := by
  rw [onFiles, h]

/-- How a restore goes on once its commit is verified and its destination is free. -/
theorem restore_run {ref : TencentCosCommitRef} {parent : List String} {name : String}
    {receipt : TencentCosVerificationReceipt} {directory : Directory} {before verified : World σ}
    (hverify : verifyCommit machine client archive ref before = (.ok receipt, verified))
    (hparent : rejectSymlinkAncestry parent verified.files = .ok directory) (hname : name ∉ directory.names) :
    restoreCommit machine client archive ref parent name before =
      (do
        let ended ← Prog.attempt (fillStaging machine client (areaOf machine hparent name) name receipt.commit.entries)
        onFiles (inDirectory parent (removeTree (stagingName machine name directory)))
        Prog.resume ended
        pure ⟨ref, receipt.objectCount, receipt.totalSize, true⟩ : CosM σ TencentCosRestoreReceipt)
        { verified with files := (areaOf machine hparent name).files [] } := by
  have hlook : (fromFiles (rejectSymlinkAncestry parent) : CosM σ Directory) verified = (.ok directory, verified) := by
    rw [fromFiles, hparent]
  have hmake : (onFiles (inDirectory parent (makeDirectory (stagingName machine name directory))) : CosM σ Unit)
      verified = (.ok (), { verified with files := (areaOf machine hparent name).files [] }) :=
    onFiles_run (areaOf machine hparent name).make_staging
  rw [restoreCommit, Prog.bind_apply_ok hverify, Prog.bind_apply_ok hlook, if_neg hname]
  exact Prog.bind_apply_ok hmake

/-- The cleanup after a failure. -/
theorem cleanup_failed {α : Type} {area : Area} {name : String} {entries : List TencentCosEntry} {value : α}
    {before after : World σ} {error : PyExc} (hin : InStaging area before)
    (h : (do
        let ended ← Prog.attempt (fillStaging machine client area name entries)
        onFiles (inDirectory area.parent (removeTree area.staging))
        Prog.resume ended
        pure value : CosM σ α) before = (.error error, after)) : after.files = area.root := by
  rw [Prog.bind_apply, Prog.attempt_apply] at h
  cases hfill : fillStaging machine client area name entries before with
  | mk ended filled =>
      have hends := fillStaging_ends hin hfill
      rw [hfill] at h
      cases ended with
      | error failed =>
          obtain ⟨children, hfiles⟩ := hends
          have hremoved := area.remove_staging children
          rw [← hfiles] at hremoved
          simp only [Prog.bind_apply_ok (onFiles_run hremoved)] at h
          cases h
          rfl
      | ok _ =>
          obtain ⟨directory, hfiles⟩ := hends
          obtain ⟨left, hleft⟩ := removeTree_ok area.staging directory
          have hremoved : inDirectory area.parent (removeTree area.staging) filled.files =
              .ok (putDirectory area.parent area.root left) := by
            rw [hfiles, inDirectory_eq (rejectSymlinkAncestry_put area.isDirectory _), hleft, Except.map,
              putDirectory_put area.isDirectory]
          simp only [Prog.bind_apply_ok (onFiles_run hremoved)] at h
          cases h

/-- A restore into a directory that is not there. -/
theorem restoreCommit_parent_error {parent : List String} {before : World σ} {error : PyExc}
    (h : rejectSymlinkAncestry parent before.files = .error error) (ref : TencentCosCommitRef) (name : String) :
    ∃ failed after, restoreCommit machine client archive ref parent name before = (.error failed, after) := by
  have hsteps : Prog.Steps SameFiles (verifyCommit machine client archive ref) :=
    steps_verifyCommit (clientSteps_sameFiles client) steps_now ref
  cases hverify : verifyCommit machine client archive ref before with
  | mk ended verified =>
      cases ended with
      | error failed => exact ⟨failed, verified, by rw [restoreCommit, Prog.bind_apply_error hverify]⟩
      | ok receipt =>
          have hfiles : verified.files = before.files := hsteps.of_run hverify
          have hlook : (fromFiles (rejectSymlinkAncestry parent) : CosM σ Directory) verified =
              (.error error, verified) := by
            rw [fromFiles, hfiles, h]
          exact ⟨error, verified, by rw [restoreCommit, Prog.bind_apply_ok hverify, Prog.bind_apply_error hlook]⟩

/-- A restore that fails leaves the local files as they were. -/
theorem restoreCommit_failed_files {ref : TencentCosCommitRef} {parent : List String} {name : String}
    {before after : World σ} {error : PyExc}
    (h : restoreCommit machine client archive ref parent name before = (.error error, after)) :
    after.files = before.files := by
  have hsteps : Prog.Steps SameFiles (verifyCommit machine client archive ref) :=
    steps_verifyCommit (clientSteps_sameFiles client) steps_now ref
  have hverified := hsteps before
  cases hverify : verifyCommit machine client archive ref before with
  | mk ended verified =>
      rw [hverify] at hverified
      cases ended with
      | error failed =>
          rw [restoreCommit, Prog.bind_apply_error hverify] at h
          cases h
          exact hverified
      | ok receipt =>
          cases hparent : rejectSymlinkAncestry parent verified.files with
          | error failed =>
              have hlook : (fromFiles (rejectSymlinkAncestry parent) : CosM σ Directory) verified =
                  (.error failed, verified) := by
                rw [fromFiles, hparent]
              rw [restoreCommit, Prog.bind_apply_ok hverify, Prog.bind_apply_error hlook] at h
              cases h
              exact hverified
          | ok directory =>
              by_cases hname : name ∈ directory.names
              · have hlook : (fromFiles (rejectSymlinkAncestry parent) : CosM σ Directory) verified =
                    (.ok directory, verified) := by
                  rw [fromFiles, hparent]
                rw [restoreCommit, Prog.bind_apply_ok hverify, Prog.bind_apply_ok hlook, if_pos hname] at h
                cases h
                exact hverified
              · rw [restore_run hverify hparent hname] at h
                exact (cleanup_failed ⟨[], rfl⟩ h).trans hverified

end Failures

end TxnOpt.Cos

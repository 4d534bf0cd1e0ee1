import TxnOpt.Evidence.Proof.TencentCos

/-!
# What a commit reference binds

A mirrored tree is published as one commit, which lists the inventory of the tree and names its digest.
Whatever store the reference is verified against, an accepted commit is that one.
-/

namespace TxnOpt.Cos

open Archive

variable {σ τ : Type} {machine : Machine} {client : TencentCosClient σ} {archive : TencentCosArchive}

/-! ### The tree digest -/

def recordPayload (record : String × String × ℕ) : Json :=
  .obj [("relative_path", .str record.1), ("sha256", .str record.2.1), ("size", .int record.2.2)]

/-- The inventory digest of relative paths, digests and sizes. -/
def inventoryDigest (sha : Sha256) (records : List (String × String × ℕ)) : String :=
  sha.hexdigest (canonicalJsonBytes (.arr (records.map recordPayload)) false)

theorem treeSha256_eq (sha : Sha256) (entries : List ArchiveInventoryEntry) :
    treeSha256 sha entries = inventoryDigest sha (entries.map ArchiveInventoryEntry.record) := by
  rw [treeSha256, inventoryDigest, List.map_map]
  rfl

/-- What a commit entry says of its file. -/
def TencentCosEntry.record (entry : TencentCosEntry) : String × String × ℕ :=
  (entry.relativePath, entry.ref.sha256, entry.ref.size)

theorem openInventoryRoot_ok {root directory : Directory} {source : List String}
    (h : openInventoryRoot root source = .ok directory) : openDirectoryPath root source = .ok directory := by
  rw [openInventoryRoot] at h
  cases hopen : openDirectoryPath root source with
  | ok opened =>
      rw [hopen] at h
      exact h
  | error error =>
      simp only [hopen] at h
      split at h
      · cases h
      · cases h

theorem inventoryTree_ok {sha : Sha256} {root : Directory} {source : List String} {inventory : ArchiveInventory}
    (h : inventoryTree sha root source = .ok inventory) :
    ∃ directory, openDirectoryPath root source = .ok directory ∧
      inventoryDirectory sha ⟨"", []⟩ directory = .ok inventory.entries ∧
      inventory.treeSha256 = treeSha256 sha inventory.entries := by
  rw [inventoryTree] at h
  cases hroot : openInventoryRoot root source with
  | error error =>
      rw [hroot] at h
      cases h
  | ok directory =>
      rw [hroot] at h
      change (inventoryDirectory sha ⟨"", []⟩ directory >>= _) = _ at h
      cases hentries : inventoryDirectory sha ⟨"", []⟩ directory with
      | error error =>
          rw [hentries] at h
          cases h
      | ok entries =>
          rw [hentries] at h
          obtain ⟨hmade, htree⟩ := make_inventory_fields h
          refine ⟨directory, openInventoryRoot_ok hroot, ?_, ?_⟩
          · rw [hmade, hentries]
          · rw [htree, hmade]

theorem inventoryTree_treeSha256 {sha : Sha256} {root : Directory} {source : List String}
    {inventory : ArchiveInventory} (h : inventoryTree sha root source = .ok inventory) :
    inventory.treeSha256 = inventoryDigest sha (inventory.entries.map ArchiveInventoryEntry.record) := by
  obtain ⟨_, -, -, htree⟩ := inventoryTree_ok h
  rw [htree, treeSha256_eq]

/-! ### Publishing -/

/-- The commit of a mirrored tree. -/
structure Mirrored (machine : Machine) (root : Directory) (source : List String) (inventory : ArchiveInventory)
    (commit : TencentCosCommit) : Prop where
  inventoried : inventoryTree machine.sha root source = .ok inventory
  records : commit.entries.map TencentCosEntry.record = inventory.entries.map ArchiveInventoryEntry.record
  tree : commit.sourceTreeSha256 = inventory.treeSha256

theorem entry_make_ok {relativePath : String} {ref : TencentCosObjectRef} {entry : TencentCosEntry}
    (h : TencentCosEntry.make relativePath ref = .ok entry) : entry.relativePath = relativePath ∧ entry.ref = ref := by
  rw [TencentCosEntry.make] at h
  by_cases hpath : IsEntryPath relativePath
  · rw [dif_pos hpath] at h
    cases h
    exact ⟨rfl, rfl⟩
  · rw [dif_neg hpath] at h
    cases h

theorem commit_make_ok {commitId tree : String} {entries : List TencentCosEntry} {commit : TencentCosCommit}
    (h : TencentCosCommit.make commitId tree entries = .ok commit) :
    commit.commitId = commitId ∧ commit.sourceTreeSha256 = tree ∧ commit.entries = entries := by
  rw [TencentCosCommit.make] at h
  by_cases hid : IsCommitId commitId
  · rw [dif_pos hid] at h
    by_cases hsha : IsSha256 tree
    · rw [dif_pos hsha] at h
      by_cases hpaths : UniquelySorted (entries.map TencentCosEntry.relativePath)
      · rw [dif_pos hpaths] at h
        cases h
        exact ⟨rfl, rfl, rfl⟩
      · rw [dif_neg hpaths] at h
        cases h
    · rw [dif_neg hsha] at h
      cases h
  · rw [dif_neg hid] at h
    cases h

theorem commitRef_make_ok {commitId : String} {object : TencentCosObjectRef} {ref : TencentCosCommitRef}
    {before after : World σ} (h : TencentCosCommitRef.make machine commitId object before = (.ok ref, after)) :
    ref.commitId = commitId ∧ ref.key = object.key ∧ ref.versionId = object.versionId ∧
      ref.sha256 = object.sha256 ∧ ref.size = object.size ∧ ref.retainUntil = object.retainUntil := by
  rw [TencentCosCommitRef.make] at h
  by_cases hid : IsCommitId commitId
  · rw [dif_pos hid] at h
    obtain ⟨deadline, first, -, h⟩ := Prog.bind_ok h
    obtain ⟨time, second, -, h⟩ := Prog.bind_ok h
    obtain ⟨-, h⟩ := Prog.ite_raise_ok h
    cases h
    exact ⟨rfl, rfl, rfl, rfl, rfl, rfl⟩
  · rw [dif_neg hid] at h
    cases h

theorem putBlob_ok {data : Bytes} {sha256 : String} {size : ℕ} {ref : TencentCosObjectRef} {before after : World σ}
    (h : putBlob machine client archive data sha256 size before = (.ok ref, after)) :
    Describes machine data ref ∧ ref.sha256 = sha256 ∧ ref.size = size := by
  rw [putBlob] at h
  by_cases hsha : IsSha256 sha256
  · rw [if_pos hsha] at h
    obtain ⟨hdata, -, hsha256, hsize⟩ := uploadVerifiedSource_ok h
    exact ⟨hdata, hsha256, hsize⟩
  · rw [if_neg hsha] at h
    cases h

theorem mirrorEntry_ok {source : List String} {listed : ArchiveInventoryEntry} {entry : TencentCosEntry}
    {before after : World σ} (h : mirrorEntry machine client archive source listed before = (.ok entry, after)) :
    entry.record = listed.record := by
  obtain ⟨data, first, -, h⟩ := Prog.bind_ok h
  obtain ⟨ref, second, hput, h⟩ := Prog.bind_ok h
  obtain ⟨hpath, href⟩ := entry_make_ok (Prog.resume_ok_inv h).1
  obtain ⟨-, hsha, hsize⟩ := putBlob_ok hput
  rw [TencentCosEntry.record, ArchiveInventoryEntry.record, hpath, href, hsha, hsize]

theorem fromFiles_ok {α : Type} {look : Directory → Except PyExc α} {a : α} {before after : World σ}
    (h : fromFiles look before = (.ok a, after)) : look before.files = .ok a ∧ after = before := by
  obtain ⟨hlook, hafter⟩ := Prod.mk.inj h
  exact ⟨hlook, hafter.symm⟩

theorem mirrorTree_ok {source : List String} {commitId : String} {ref : TencentCosCommitRef} {before after : World σ}
    (h : mirrorTree machine client archive source commitId before = (.ok ref, after)) :
    ∃ inventory commit middle, Mirrored machine before.files source inventory commit ∧
      publishCommit machine client archive commit middle = (.ok ref, after) := by
  unfold mirrorTree at h
  obtain ⟨inventory, first, hinventory, h⟩ := Prog.bind_ok h
  obtain ⟨entries, second, hentries, h⟩ := Prog.bind_ok h
  obtain ⟨finalInventory, third, -, h⟩ := Prog.bind_ok h
  obtain ⟨-, h⟩ := Prog.ite_raise_ok h
  obtain ⟨commit, fourth, hcommit, h⟩ := Prog.bind_ok h
  obtain ⟨-, htree, hlisted⟩ := commit_make_ok (Prog.resume_ok_inv hcommit).1
  refine ⟨inventory, commit, fourth, ⟨(fromFiles_ok hinventory).1, ?_, htree⟩, h⟩
  have hentry : ∀ (listed : ArchiveInventoryEntry) (entry : TencentCosEntry) (first last : World σ),
      mirrorEntry machine client archive source listed first = (.ok entry, last) → entry.record = listed.record := by
    intro listed entry first last hlisted
    exact mirrorEntry_ok hlisted
  rw [hlisted]
  exact Prog.collect_map_eq hentry hentries

theorem publishCommit_ok {commit : TencentCosCommit} {ref : TencentCosCommitRef} {before after : World σ}
    (h : publishCommit machine client archive commit before = (.ok ref, after)) :
    machine.sha.hexdigest (encodeTencentCosCommit commit) = ref.sha256 := by
  obtain ⟨object, first, hupload, h⟩ := Prog.bind_ok h
  obtain ⟨-, -, -, hsha, -, -⟩ := commitRef_make_ok h
  rw [hsha]
  exact (uploadVerifiedSource_ok hupload).1.sha256

/-! ### Verifying -/

theorem verifyCommit_ok {ref : TencentCosCommitRef} {receipt : TencentCosVerificationReceipt} {before after : World σ}
    (h : verifyCommit machine client archive ref before = (.ok receipt, after)) :
    ∃ (data : Bytes) (middle last : World σ), machine.sha.hexdigest data = ref.sha256 ∧
      decodeTencentCosCommit machine data middle = (.ok receipt.commit, last) := by
  obtain ⟨object, first, hobject, h⟩ := Prog.bind_ok h
  obtain ⟨data, second, hdata, h⟩ := Prog.bind_ok h
  obtain ⟨commit, third, hcommit, h⟩ := Prog.bind_ok h
  obtain ⟨-, h⟩ := Prog.ite_raise_ok h
  obtain ⟨-, h⟩ := Prog.ite_raise_ok h
  obtain ⟨_, fourth, -, h⟩ := Prog.bind_ok h
  cases h
  obtain ⟨-, -, hsha, -, -⟩ := make_ref_ok hobject
  refine ⟨data, second, third, ?_, hcommit⟩
  rw [(downloadVerified_ok hdata).2, hsha]

theorem decode_encode {commit got : TencentCosCommit} {before after : World σ}
    (h : decodeTencentCosCommit machine (encodeTencentCosCommit commit) before = (.ok got, after)) : got = commit :=
  (Prog.wp_of_run (wp_decode machine commit before) h).1.1 got rfl

end TxnOpt.Cos

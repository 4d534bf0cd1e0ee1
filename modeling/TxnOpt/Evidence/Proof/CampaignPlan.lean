import TxnOpt.Evidence.CampaignPlan
import TxnOpt.Evidence.Proof.EntryPaths
import TxnOpt.Evidence.Proof.SignedJson
import TxnOpt.Lib.Separated

/-!
# The labels of a plan

A label determines everything of its combination but the case of the letters of the identifier. While no two
identifiers of a domain differ in the case of their letters only, no file of the plan is written twice.
-/

namespace TxnOpt.CampaignPlan

open Archive EventStream SignedJson Identity Cos

/-! ### Labels -/

/-- The text of a label up to the seed. -/
def labelHead (combination : Combination) : List Char :=
  "txnopt_level1_".toList ++ (combination.domain.value.toList ++ '_' :: combination.caseId.value.toLower.toList)

namespace Axis

def parts : Axis → List (List Char)
  | serial1 => ["serial".toList, "1".toList]
  | txnopt1 => ["txnopt".toList, "1".toList]
  | txnopt4 => ["txnopt".toList, "4".toList]
  | barrier4 => ["barrier".toList, "4".toList]

theorem parts_value (axis : Axis) : '_' :: axis.value.toList = axis.parts.flatMap ('_' :: ·) := by
  cases axis <;> decide

theorem parts_length (axis : Axis) : axis.parts.length = 2 := by cases axis <;> rfl

theorem parts_injective {first second : Axis} (h : first.parts = second.parts) : first = second := by
  revert h
  cases first <;> cases second <;> decide

theorem not_mem_parts (axis : Axis) : ∀ part ∈ axis.parts, '_' ∉ part := by cases axis <;> decide

end Axis

namespace Budget

def parts : Budget → List (List Char)
  | fixedWork => ["fixed".toList, "work".toList]
  | fixedTime => ["fixed".toList, "time".toList]

theorem parts_value (budget : Budget) : '_' :: budget.value.toList = budget.parts.flatMap ('_' :: ·) := by
  cases budget <;> decide

theorem parts_length (budget : Budget) : budget.parts.length = 2 := by cases budget <;> rfl

theorem parts_injective {first second : Budget} (h : first.parts = second.parts) : first = second := by
  revert h
  cases first <;> cases second <;> decide

theorem not_mem_parts (budget : Budget) : ∀ part ∈ budget.parts, '_' ∉ part := by cases budget <;> decide

end Budget

/-- The parts of a label from the seed on; none holds an underscore. -/
def labelParts (attempt : ℕ) (combination : Combination) : List (List Char) :=
  (toString combination.seed).toList :: combination.axis.parts ++ combination.budget.parts ++
    ["attempt".toList ++ (twoDigits attempt).toList]

theorem runLabel_toList (attempt : ℕ) (combination : Combination) :
    (runLabel attempt combination).toList =
      labelHead combination ++ (labelParts attempt combination).flatMap ('_' :: ·) := by
  have hattempt : "_attempt".toList = '_' :: "attempt".toList := by decide
  have hsep : "_".toList = ['_'] := by decide
  unfold runLabel labelHead labelParts
  simp only [String.toList_append, List.flatMap_append, List.flatMap_cons, List.flatMap_nil, ← Axis.parts_value,
    ← Budget.parts_value, hattempt, hsep]
  simp only [List.append_assoc, List.cons_append, List.nil_append, List.append_nil]

theorem underscore_not_mem_toString (n : ℕ) : '_' ∉ (toString n).toList := by
  intro hmem
  have hdigit := Json.toDigits_isDigit n '_' (by rw [← Nat.toList_repr]; exact hmem)
  exact absurd hdigit (by decide)

theorem underscore_not_mem_twoDigits (attempt : ℕ) : '_' ∉ (twoDigits attempt).toList := by
  rw [twoDigits]
  split
  · rw [String.toList_append, List.mem_append, not_or]
    exact ⟨by decide, underscore_not_mem_toString attempt⟩
  · exact underscore_not_mem_toString attempt

theorem not_mem_labelParts (attempt : ℕ) (combination : Combination) :
    ∀ part ∈ labelParts attempt combination, '_' ∉ part := by
  intro part hpart
  rw [labelParts, List.mem_append, List.mem_append, List.mem_cons, List.mem_singleton] at hpart
  rcases hpart with ((hseed | haxis) | hbudget) | hattempt
  · rw [hseed]
    exact underscore_not_mem_toString _
  · exact combination.axis.not_mem_parts part haxis
  · exact combination.budget.not_mem_parts part hbudget
  · rw [hattempt, List.mem_append, not_or]
    exact ⟨by decide, underscore_not_mem_twoDigits attempt⟩

theorem labelParts_length (attempt : ℕ) (combination : Combination) : (labelParts attempt combination).length = 6 := by
  simp only [labelParts, List.length_append, List.length_cons, Axis.parts_length, Budget.parts_length,
    List.length_nil]

theorem toString_injective {first second : ℕ} (h : (toString first).toList = (toString second).toList) :
    first = second := by
  have hdigits : Nat.toDigits 10 first = Nat.toDigits 10 second := by
    rw [← Nat.toList_repr, ← Nat.toList_repr]
    exact h
  have hvalue := parseInt_toDigits first
  rw [hdigits, parseInt_toDigits] at hvalue
  exact (Int.ofNat.inj (Option.some.inj hvalue)).symm

theorem labelParts_inj {attempt : ℕ} {first second : Combination}
    (h : labelParts attempt first = labelParts attempt second) :
    first.seed = second.seed ∧ first.axis = second.axis ∧ first.budget = second.budget := by
  rw [labelParts, labelParts] at h
  obtain ⟨hinit, -⟩ := List.append_inj' h rfl
  obtain ⟨hseedAxis, hbudget⟩ := List.append_inj' hinit (by rw [Budget.parts_length, Budget.parts_length])
  rw [List.cons.injEq] at hseedAxis
  exact ⟨toString_injective hseedAxis.1, Axis.parts_injective hseedAxis.2, Budget.parts_injective hbudget⟩

theorem domain_toList_ne_nil (domain : Domain) : domain.value.toList ≠ [] := by cases domain <;> decide

theorem labelHead_inj {first second : Combination} (h : labelHead first = labelHead second) :
    first.domain = second.domain ∧ first.caseId.value.toLower = second.caseId.value.toLower := by
  have hrest := List.append_cancel_left h
  have hdomain : first.domain = second.domain := by
    have hhead := congrArg List.head? hrest
    rw [List.head?_append_of_ne_nil _ (domain_toList_ne_nil _), List.head?_append_of_ne_nil _ (domain_toList_ne_nil _)]
      at hhead
    revert hhead
    generalize first.domain = domain
    generalize second.domain = other
    cases domain <;> cases other <;> decide
  rw [hdomain] at hrest
  exact ⟨hdomain, String.toList_injective (List.cons.inj (List.append_cancel_left hrest)).2⟩

/-- What a label says of its combination. -/
theorem runLabel_eq_iff {attempt : ℕ} {first second : Combination} :
    runLabel attempt first = runLabel attempt second ↔
      first.domain = second.domain ∧ first.caseId.value.toLower = second.caseId.value.toLower ∧
        first.seed = second.seed ∧ first.axis = second.axis ∧ first.budget = second.budget := by
  constructor
  · intro h
    have htext := congrArg String.toList h
    rw [runLabel_toList, runLabel_toList] at htext
    obtain ⟨hhead, hparts⟩ := append_flatMap_inj (by rw [labelParts_length, labelParts_length])
      (not_mem_labelParts attempt first) (not_mem_labelParts attempt second) htext
    exact ⟨(labelHead_inj hhead).1, (labelHead_inj hhead).2, labelParts_inj hparts⟩
  · intro h
    obtain ⟨hdomain, hcase, hseed, haxis, hbudget⟩ := h
    unfold runLabel
    rw [hdomain, hcase, hseed, haxis, hbudget]

/-! ### Names of files -/

theorem fileName_inj {attempt : ℕ} {first second : Combination}
    (h : fileName attempt first = fileName attempt second) : runLabel attempt first = runLabel attempt second := by
  have htext := congrArg String.toList h
  unfold fileName at htext
  rw [String.toList_append, String.toList_append] at htext
  exact String.toList_injective (List.append_cancel_right htext)

theorem sidecarName_inj {first second : String} (h : first ++ ".sha256" = second ++ ".sha256") : first = second := by
  have htext := congrArg String.toList h
  rw [String.toList_append, String.toList_append] at htext
  exact String.toList_injective (List.append_cancel_right htext)

/-- No file of an entry has the name of a sidecar. -/
theorem fileName_ne_sidecarName (attempt : ℕ) (combination : Combination) (name : String) :
    fileName attempt combination ≠ name ++ ".sha256" := by
  intro h
  have htext := congrArg (fun text => text.toList.getLast?) h
  unfold fileName at htext
  simp only [String.toList_append] at htext
  rw [List.getLast?_append_of_ne_nil _ (by decide), List.getLast?_append_of_ne_nil _ (by decide)] at htext
  exact absurd htext (by decide)

theorem partsOf_name {name : String} (hname : name ∉ ["", ".", ".."]) (hslash : '/' ∉ name.toList) :
    PurePosixPath.partsOf name.toList = [name] := by
  simp only [List.mem_cons, List.not_mem_nil, or_false, not_or] at hname
  rw [PurePosixPath.partsOf, List.splitOn_eq_singleton hslash, List.map_singleton, String.ofList_toList,
    List.filter_cons_of_pos (by simp [hname])]
  rfl

theorem parts_under (parent : String) (hparent : parent ∉ ["", ".", ".."] ∧ '/' ∉ parent.toList) (attempt : ℕ)
    (combination : Combination) : (PurePosixPath.of (parent ++ "/" ++ fileName attempt combination)).parts =
      [parent, fileName attempt combination] := by
  obtain ⟨hname, hslash⟩ := isName_fileName attempt combination
  have hsep : "/".toList = ['/'] := by decide
  rw [PurePosixPath.of]
  simp only [String.toList_append, hsep, List.append_assoc, List.singleton_append]
  rw [partsOf_append, partsOf_name hparent.1 hparent.2, partsOf_name hname hslash]
  rfl

theorem nodeAt_config (files : PlanFiles) (attempt : ℕ) (combination : Combination) :
    files.nodeAt ("configs/" ++ fileName attempt combination) =
      files.configs.lookup (fileName attempt combination) := by
  have hparts := parts_under "configs" (by decide) attempt combination
  have hpath : "configs" ++ "/" = "configs/" := by decide
  rw [hpath] at hparts
  rw [PlanFiles.nodeAt, hparts]
  rfl

theorem nodeAt_identity (files : PlanFiles) (attempt : ℕ) (combination : Combination) :
    files.nodeAt ("expected-identities/" ++ fileName attempt combination) =
      files.identities.lookup (fileName attempt combination) := by
  have hparts := parts_under "expected-identities" (by decide) attempt combination
  have hpath : "expected-identities" ++ "/" = "expected-identities/" := by decide
  rw [hpath] at hparts
  rw [PlanFiles.nodeAt, hparts]
  rfl

/-! ### One entry -/

variable {sha : Sha256} {floats : FloatConversion} {decoder : JsonDecoder} {inputs : PlanInputs}

theorem fromPlanInputs_congr {path : ArtifactPath} {build : BuildManifest} {first second : Directory}
    (h : first.lookup path.name = second.lookup path.name) :
    fromPlanInputs sha floats decoder path build first = fromPlanInputs sha floats decoder path build second := by
  rw [fromPlanInputs, fromPlanInputs, readConfig, readConfig, h]

/-- What the config and the expected identity of a combination hold, whatever else the plan holds. -/
def contents (sha : Sha256) (floats : FloatConversion) (decoder : JsonDecoder) (inputs : PlanInputs)
    (combination : Combination) : Except PyExc (Bytes × Bytes) := do
  let configBytes ← prettyJson floats (inputs.config combination)
  let identity ← fromPlanInputs sha floats decoder (inputs.configPath combination) inputs.build
    [(fileName inputs.attempt combination, .file configBytes)]
  let identityBytes ← prettyJson floats identity.toPayload
  pure (configBytes, identityBytes)

/-- The three files of a combination are still to be written. -/
structure Free (inputs : PlanInputs) (combination : Combination) (files : PlanFiles) : Prop where
  config : fileName inputs.attempt combination ∉ files.configs.names
  identity : FreeNames (inputs.identityPath combination) files.identities

theorem writeBytes_free {path : ArtifactPath} {data : Bytes} {directory : Directory}
    (h : path.name ∉ directory.names) :
    writeBytes path data directory = .ok (directory ++ [(path.name, .file data)]) := by
  rw [writeBytes, Directory.lookup_eq_none_iff.mpr h]

theorem writeSidecar_free {path : ArtifactPath} {data : Bytes} {directory : Directory}
    (h : FreeNames path directory) :
    writeSidecar sha path (sha.hexdigest data) (directory ++ [(path.name, .file data)]) =
      (.ok (sha.hexdigest (encodeUtf8 (sidecarText path (sha.hexdigest data)))),
        withStream sha path data directory) := by
  rw [writeSidecar, writeExclusive, if_neg]
  · rfl
  · rw [names_snoc, List.mem_append, List.mem_singleton, not_or]
    exact ⟨h.2, sidecarName_ne path⟩

/-- The entry of a combination whose files hold these bytes. -/
def entryOf (sha : Sha256) (inputs : PlanInputs) (combination : Combination) (data : Bytes × Bytes) : PlanEntry :=
  ⟨"configs/" ++ fileName inputs.attempt combination, sha.hexdigest data.1,
    "expected-identities/" ++ fileName inputs.attempt combination, sha.hexdigest data.2⟩

/-- The plan with the files of one more combination. -/
def PlanFiles.add (sha : Sha256) (inputs : PlanInputs) (files : PlanFiles) (combination : Combination)
    (data : Bytes × Bytes) : PlanFiles :=
  ⟨files.configs ++ [(fileName inputs.attempt combination, .file data.1)],
    withStream sha (inputs.identityPath combination) data.2 files.identities⟩

theorem lookup_config {combination : Combination} {files : PlanFiles} (h : Free inputs combination files)
    (data : Bytes) :
    List.lookup (fileName inputs.attempt combination)
        (files.configs ++ [(fileName inputs.attempt combination, FsNode.file data)]) =
      List.lookup (fileName inputs.attempt combination)
        [(fileName inputs.attempt combination, FsNode.file data)] := by
  rw [Directory.lookup_snoc, Directory.lookup_eq_none_iff.mpr h.config, if_pos rfl, Directory.lookup_single]
  rfl

theorem contents_eq {combination : Combination} {configBytes : Bytes}
    (h : prettyJson floats (inputs.config combination) = .ok configBytes) :
    contents sha floats decoder inputs combination =
      (fromPlanInputs sha floats decoder (inputs.configPath combination) inputs.build
          [(fileName inputs.attempt combination, .file configBytes)] >>= fun identity =>
        prettyJson floats identity.toPayload).map fun identityBytes => (configBytes, identityBytes) := by
  rw [contents, h]
  cases hidentity : fromPlanInputs sha floats decoder (inputs.configPath combination) inputs.build
      [(fileName inputs.attempt combination, .file configBytes)] with
  | error error => simp only [bind, Except.bind, hidentity]; rfl
  | ok identity =>
      cases hbytes : prettyJson floats identity.toPayload with
      | error error => simp only [bind, Except.bind, hidentity, hbytes]; rfl
      | ok identityBytes => simp only [bind, Except.bind, hidentity, hbytes]; rfl

/-- While its files are to be written, an entry is made as if it were the only one. -/
theorem writeEntry_free {combination : Combination} {files : PlanFiles} (h : Free inputs combination files) :
    (∀ data, contents sha floats decoder inputs combination = .ok data →
      writeEntry sha floats decoder inputs combination files =
        (.ok (entryOf sha inputs combination data), files.add sha inputs combination data)) ∧
    ∀ error, contents sha floats decoder inputs combination = .error error →
      (writeEntry sha floats decoder inputs combination files).1 = .error error := by
  cases hconfig : prettyJson floats (inputs.config combination) with
  | error failure =>
      rw [contents, writeEntry, hconfig]
      constructor
      · intro data hdata
        cases hdata
      · intro error herror
        rw [← Except.error.inj herror]
  | ok configBytes =>
      have hwrite := @writeBytes_free (inputs.configPath combination) configBytes files.configs h.config
      have hcongr := @fromPlanInputs_congr sha floats decoder (inputs.configPath combination) inputs.build _ _
        (lookup_config h configBytes)
      rw [contents_eq hconfig, writeEntry, hconfig]
      simp only [hwrite]
      rw [writeIdentity]
      simp only [show (inputs.configPath combination).name = fileName inputs.attempt combination from rfl, hcongr]
      cases hidentity : fromPlanInputs sha floats decoder (inputs.configPath combination) inputs.build
          [(fileName inputs.attempt combination, .file configBytes)] >>= fun identity =>
            prettyJson floats identity.toPayload with
      | error failure =>
          constructor
          · intro data hdata
            cases hdata
          · intro error herror
            rw [← Except.error.inj herror]
      | ok identityBytes =>
          constructor
          · intro data hdata
            rw [← Except.ok.inj hdata]
            simp only [writeBytes_free h.identity.1, writeSidecar_free h.identity]
            rfl
          · intro error herror
            cases herror

/-! ### All entries -/

/-- The plan holds the files of these combinations and no others. -/
structure Holds (inputs : PlanInputs) (done : List Combination) (files : PlanFiles) : Prop where
  configs : files.configs.names = done.map (fileName inputs.attempt)
  identities : files.identities.names = done.flatMap fun combination =>
    [fileName inputs.attempt combination, fileName inputs.attempt combination ++ ".sha256"]

/-- Files that are there stay as they are. -/
structure Extends (files after : PlanFiles) : Prop where
  configs : ∀ name node, files.configs.lookup name = some node → after.configs.lookup name = some node
  identities : ∀ name node, files.identities.lookup name = some node → after.identities.lookup name = some node

/-- The digests of an entry are those of the files at its paths. -/
structure Matches (sha : Sha256) (inputs : PlanInputs) (files : PlanFiles) (combination : Combination)
    (entry : PlanEntry) : Prop where
  path : entry.path = "configs/" ++ fileName inputs.attempt combination
  config : ∃ data, files.nodeAt entry.path = some (.file data) ∧ entry.sha256 = sha.hexdigest data
  identityPath : entry.expectedIdentityPath = "expected-identities/" ++ fileName inputs.attempt combination
  identity : ∃ data, files.nodeAt entry.expectedIdentityPath = some (.file data) ∧
    entry.expectedIdentitySha256 = sha.hexdigest data

theorem Holds.free {done : List Combination} {files : PlanFiles} (h : Holds inputs done files)
    {combination : Combination}
    (hlabel : ∀ other ∈ done, runLabel inputs.attempt other ≠ runLabel inputs.attempt combination) :
    Free inputs combination files := by
  have hname : ∀ other ∈ done, fileName inputs.attempt combination ≠ fileName inputs.attempt other := by
    intro other hother hsame
    exact hlabel other hother (fileName_inj hsame).symm
  constructor
  · rw [h.configs, List.mem_map]
    intro hmem
    obtain ⟨other, hother, hsame⟩ := hmem
    exact hname other hother hsame.symm
  · constructor
    · rw [h.identities, List.mem_flatMap]
      intro hmem
      obtain ⟨other, hother, hsame⟩ := hmem
      rcases List.mem_cons.mp hsame with hfile | hsidecar
      · exact hname other hother hfile
      · exact fileName_ne_sidecarName _ _ _ (List.mem_singleton.mp hsidecar)
    · rw [h.identities, List.mem_flatMap]
      intro hmem
      obtain ⟨other, hother, hsame⟩ := hmem
      rcases List.mem_cons.mp hsame with hfile | hsidecar
      · exact fileName_ne_sidecarName _ _ _ hfile.symm
      · exact hname other hother (sidecarName_inj (List.mem_singleton.mp hsidecar))

theorem Holds.add {done : List Combination} {files : PlanFiles} (h : Holds inputs done files)
    (combination : Combination) (data : Bytes × Bytes) :
    Holds inputs (done ++ [combination]) (files.add sha inputs combination data) := by
  constructor
  · rw [PlanFiles.add, names_snoc, h.configs, List.map_append, List.map_singleton]
  · rw [PlanFiles.add, withStream, names_snoc, names_snoc, h.identities, List.flatMap_append, List.flatMap_singleton,
      List.append_assoc]
    rfl

theorem lookup_append_of_some {directory added : Directory} {name : String} {node : FsNode}
    (h : directory.lookup name = some node) : List.lookup name (directory ++ added) = some node := by
  rw [List.lookup_append, h]
  rfl

theorem extends_add (files : PlanFiles) (combination : Combination) (data : Bytes × Bytes) :
    Extends files (files.add sha inputs combination data) := by
  constructor
  · intro name node h
    exact lookup_append_of_some h
  · intro name node h
    exact lookup_append_of_some (lookup_append_of_some h)

theorem Extends.trans {first second third : PlanFiles} (h : Extends first second) (hnext : Extends second third) :
    Extends first third := by
  constructor
  · intro name node hlookup
    exact hnext.configs name node (h.configs name node hlookup)
  · intro name node hlookup
    exact hnext.identities name node (h.identities name node hlookup)

theorem Matches.mono {files after : PlanFiles} {combination : Combination} {entry : PlanEntry}
    (h : Matches sha inputs files combination entry) (hextends : Extends files after) :
    Matches sha inputs after combination entry := by
  obtain ⟨hpath, ⟨config, hconfig, hconfigDigest⟩, hidentityPath, ⟨identity, hidentity, hidentityDigest⟩⟩ := h
  rw [hpath, nodeAt_config] at hconfig
  rw [hidentityPath, nodeAt_identity] at hidentity
  refine ⟨hpath, ⟨config, ?_, hconfigDigest⟩, hidentityPath, ⟨identity, ?_, hidentityDigest⟩⟩
  · rw [hpath, nodeAt_config]
    exact hextends.configs _ _ hconfig
  · rw [hidentityPath, nodeAt_identity]
    exact hextends.identities _ _ hidentity

theorem matches_add {combination : Combination} {files : PlanFiles} (h : Free inputs combination files)
    (data : Bytes × Bytes) :
    Matches sha inputs (files.add sha inputs combination data) combination (entryOf sha inputs combination data) := by
  refine ⟨rfl, ⟨data.1, ?_, rfl⟩, rfl, ⟨data.2, ?_, rfl⟩⟩
  · rw [entryOf, nodeAt_config, PlanFiles.add, lookup_config h, Directory.lookup_single]
  · rw [entryOf, nodeAt_identity, PlanFiles.add]
    exact withStream_file sha data.2 h.identity.1

/-- The loops over combinations whose labels differ from one another and from those that were done. -/
theorem writeEntries_run {done rest : List Combination} {files : PlanFiles} (hfiles : Holds inputs done files)
    (hlabels : ((done ++ rest).map (runLabel inputs.attempt)).Nodup) :
    (∀ error, (writeEntries sha floats decoder inputs rest files).1 = .error error →
      ∃ combination ∈ rest, contents sha floats decoder inputs combination = .error error) ∧
    ∀ entries after, writeEntries sha floats decoder inputs rest files = (.ok entries, after) →
      Holds inputs (done ++ rest) after ∧ Extends files after ∧
        List.Forall₂ (Matches sha inputs after) rest entries := by
  induction rest generalizing done files with
  | nil =>
      constructor
      · intro error herror
        cases herror
      · intro entries after hrun
        rw [writeEntries, Prod.mk.injEq] at hrun
        rw [← Except.ok.inj hrun.1, ← hrun.2, List.append_nil]
        exact ⟨hfiles, ⟨fun _ _ h => h, fun _ _ h => h⟩, .nil⟩
  | cons combination rest ih =>
      have hfree : Free inputs combination files := by
        apply hfiles.free
        intro other hother hsame
        rw [List.map_append, List.nodup_append] at hlabels
        exact hlabels.2.2 _ (List.mem_map_of_mem hother) _ (List.mem_map_of_mem List.mem_cons_self) hsame
      obtain ⟨hok, herror⟩ := @writeEntry_free sha floats decoder inputs combination files hfree
      cases hcontents : contents sha floats decoder inputs combination with
      | error failure =>
          have hfailed := herror failure hcontents
          cases hentry : writeEntry sha floats decoder inputs combination files with
          | mk result after =>
              rw [hentry] at hfailed
              have hresult : result = .error failure := hfailed
              rw [writeEntries, hentry, hresult]
              constructor
              · intro error heq
                rw [← Except.error.inj heq]
                exact ⟨combination, List.mem_cons_self, hcontents⟩
              · intro entries _ hrun
                cases hrun
      | ok data =>
          rw [writeEntries, hok data hcontents]
          have hadded := @Holds.add sha inputs done files hfiles combination data
          rw [List.append_cons] at hlabels ⊢
          obtain ⟨hlater, hrun⟩ := ih hadded hlabels
          cases hrest : writeEntries sha floats decoder inputs rest (files.add sha inputs combination data) with
          | mk result after =>
              rw [hrest] at hlater hrun
              simp only [hrest]
              cases result with
              | error failure =>
                  constructor
                  · intro error heq
                    obtain ⟨later, hmem, hfailure⟩ := hlater error heq
                    exact ⟨later, List.mem_cons_of_mem combination hmem, hfailure⟩
                  · intro entries _ heq
                    cases heq
              | ok entries =>
                  constructor
                  · intro error heq
                    cases heq
                  · intro written final heq
                    rw [Prod.mk.injEq] at heq
                    obtain ⟨hentries, hfinal⟩ := heq
                    rw [← Except.ok.inj hentries, ← hfinal]
                    obtain ⟨hholds, hextends, hmatches⟩ := hrun entries after rfl
                    exact ⟨hholds, (extends_add files combination data).trans hextends,
                      .cons ((matches_add hfree data).mono hextends) hmatches⟩

/-! ### What a protocol gives -/

theorem caseId_of?_eq_some {value : String} {caseId : CaseId} (h : CaseId.of? value = some caseId) :
    caseId.value = value := by
  rw [CaseId.of?] at h
  split at h
  · rw [← Option.some.inj h]
  · cases h

theorem domainCaseIds_nodup {domains : List (String × Json)} {domain : Domain} {caseIds : List CaseId}
    (h : domainCaseIds domains domain = .ok caseIds) : caseIds.Nodup := by
  rw [domainCaseIds] at h
  obtain ⟨scope, -, h⟩ := exists_of_bind_eq_ok h
  obtain ⟨pilot, -, h⟩ := exists_of_bind_eq_ok h
  obtain ⟨validation, -, h⟩ := exists_of_bind_eq_ok h
  dsimp only at h
  split at h
  · cases h
  · rename_i hunique
    rw [not_or, not_not] at hunique
    cases hcanonical : (pilot ++ validation).mapM CaseId.of? with
    | none =>
        simp only [hcanonical] at h
        cases h
    | some canonical =>
        simp only [hcanonical] at h
        have hvalues := map_eq_of_mapM_eq_some (fun _ _ => caseId_of?_eq_some) hcanonical
        have hnodup := hunique.2
        rw [← hvalues] at hnodup
        rw [← Except.ok.inj h]
        exact hnodup.of_map

theorem expectedCaseIds_nodup {protocol : List (String × Json)} {expected : ExpectedCaseIds}
    (h : expectedCaseIds protocol = .ok expected) (domain : Domain) : (expected.get domain).Nodup := by
  rw [expectedCaseIds] at h
  obtain ⟨domains, -, h⟩ := exists_of_bind_eq_ok h
  obtain ⟨evrptw, hevrptw, h⟩ := exists_of_bind_eq_ok h
  obtain ⟨rcpsp, hrcpsp, h⟩ := exists_of_bind_eq_ok h
  split at h
  · cases h
  · rw [← Except.ok.inj h]
    cases domain with
    | evrptw => exact domainCaseIds_nodup hevrptw
    | rcpsp => exact domainCaseIds_nodup hrcpsp

theorem planSeeds_spec {protocol : List (String × Json)} {seeds : List ℕ} (h : planSeeds protocol = .ok seeds) :
    seeds ≠ [] ∧ seeds.Nodup := by
  rw [planSeeds] at h
  obtain ⟨values, -, h⟩ := exists_of_bind_eq_ok h
  split at h
  · cases h
  · rename_i hunique
    rw [not_or, not_not] at hunique
    rw [← Except.ok.inj h]
    exact hunique

theorem mem_combinations {expected : ExpectedCaseIds} {seeds : List ℕ} {combination : Combination} :
    combination ∈ combinations expected seeds ↔
      combination.caseId ∈ expected.get combination.domain ∧ combination.seed ∈ seeds := by
  obtain ⟨domain, caseId, seed, axis, budget⟩ := combination
  have hdomain : domain ∈ Domain.all := by cases domain <;> decide
  have haxis : axis ∈ Axis.all := by cases axis <;> decide
  have hbudget : budget ∈ Budget.all := by cases budget <;> decide
  simp only [combinations, List.mem_flatMap, List.mem_map, Combination.mk.injEq]
  constructor
  · intro h
    obtain ⟨_, -, _, hcase, _, hseed, _, -, _, -, hdomain, hcaseId, hseedEq, -, -⟩ := h
    rw [← hdomain, ← hcaseId, ← hseedEq]
    exact ⟨hcase, hseed⟩
  · intro h
    exact ⟨domain, hdomain, caseId, h.1, seed, h.2, axis, haxis, budget, hbudget, rfl, rfl, rfl, rfl, rfl⟩

theorem combinations_nodup {expected : ExpectedCaseIds} {seeds : List ℕ}
    (hexpected : ∀ domain, (expected.get domain).Nodup) (hseeds : seeds.Nodup) :
    (combinations expected seeds).Nodup := by
  have hbudgets : ∀ (domain : Domain) (caseId : CaseId) (seed : ℕ) (axis : Axis),
      (Budget.all.map fun budget => Combination.mk domain caseId seed axis budget).Nodup := by
    intro domain caseId seed axis
    apply List.Nodup.map
    · intro first second hsame
      exact (Combination.mk.inj hsame).2.2.2.2
    · decide
  apply nodup_flatMap_of_key Combination.domain (by decide)
  · intro domain _
    apply nodup_flatMap_of_key Combination.caseId (hexpected domain)
    · intro caseId _
      apply nodup_flatMap_of_key Combination.seed hseeds
      · intro seed _
        apply nodup_flatMap_of_key Combination.axis (by decide) (fun axis _ => hbudgets domain caseId seed axis)
        intro axis _ combination h
        obtain ⟨budget, -, heq⟩ := List.mem_map.mp h
        rw [← heq]
      · intro seed _ combination h
        simp only [List.mem_flatMap, List.mem_map] at h
        obtain ⟨axis, -, budget, -, heq⟩ := h
        rw [← heq]
    · intro caseId _ combination h
      simp only [List.mem_flatMap, List.mem_map] at h
      obtain ⟨seed, -, axis, -, budget, -, heq⟩ := h
      rw [← heq]
  · intro domain _ combination h
    simp only [List.mem_flatMap, List.mem_map] at h
    obtain ⟨caseId, -, seed, -, axis, -, budget, -, heq⟩ := h
    rw [← heq]

/-! ### Plans that are completed -/

theorem names_writeBytes {path : ArtifactPath} {data : Bytes} {directory after : Directory}
    (h : writeBytes path data directory = .ok after) : ∀ name ∈ directory.names, name ∈ after.names := by
  intro name hname
  rw [writeBytes] at h
  split at h
  · rw [← Except.ok.inj h, names_snoc]
    exact List.mem_append_left _ hname
  · rw [← Except.ok.inj h, Directory.names, names_replace]
    exact hname
  · cases h

/-- An entry that is made found its sidecar free, and takes its name. -/
theorem sidecar_of_writeEntry {combination : Combination} {files after : PlanFiles} {entry : PlanEntry}
    (h : writeEntry sha floats decoder inputs combination files = (.ok entry, after)) :
    (inputs.identityPath combination).sidecarName ∉ files.identities.names ∧
      (inputs.identityPath combination).sidecarName ∈ after.identities.names ∧
      ∀ name ∈ files.identities.names, name ∈ after.identities.names := by
  rw [writeEntry] at h
  split at h
  · cases h
  · split at h
    · cases h
    · rw [writeIdentity] at h
      dsimp only at h
      split at h
      · cases h
      · split at h
        · cases h
        · rename_i identities hidentities
          have hgrown := names_writeBytes hidentities
          rw [writeSidecar, writeExclusive] at h
          by_cases htaken : (inputs.identityPath combination).sidecarName ∈ identities.names
          · rw [if_pos htaken] at h
            cases h
          · rw [if_neg htaken, Prod.mk.injEq] at h
            rw [← h.2]
            dsimp only
            rw [names_snoc]
            exact ⟨fun hbefore => htaken (hgrown _ hbefore), List.mem_append_right _ (List.mem_singleton.mpr rfl),
              fun name hname => List.mem_append_left _ (hgrown name hname)⟩

/-- The loops end only when no two combinations have one label: the second sidecar would be refused. -/
theorem labels_nodup_of_ok {rest : List Combination} {files after : PlanFiles} {entries : List PlanEntry}
    (h : writeEntries sha floats decoder inputs rest files = (.ok entries, after)) :
    (rest.map (runLabel inputs.attempt)).Nodup ∧
      ∀ combination ∈ rest, (inputs.identityPath combination).sidecarName ∉ files.identities.names := by
  induction rest generalizing files entries with
  | nil => exact ⟨List.nodup_nil, fun _ hmem => absurd hmem List.not_mem_nil⟩
  | cons combination rest ih =>
      rw [writeEntries] at h
      cases hentry : writeEntry sha floats decoder inputs combination files with
      | mk result middle =>
          cases result with
          | error error =>
              rw [hentry] at h
              cases h
          | ok entry =>
              obtain ⟨hfree, htaken, hgrown⟩ := sidecar_of_writeEntry hentry
              cases hrest : writeEntries sha floats decoder inputs rest middle with
              | mk result final =>
                  simp only [hentry, hrest] at h
                  cases result with
                  | error error => cases h
                  | ok entries =>
                      rw [Prod.mk.injEq] at h
                      rw [h.2] at hrest
                      obtain ⟨hlabels, hnames⟩ := ih hrest
                      constructor
                      · rw [List.map_cons, List.nodup_cons, List.mem_map]
                        refine ⟨?_, hlabels⟩
                        intro hmem
                        obtain ⟨other, hother, hsame⟩ := hmem
                        apply hnames other hother
                        have hname : (inputs.identityPath other).sidecarName =
                            (inputs.identityPath combination).sidecarName :=
                          congrArg (fun label => label ++ ".json" ++ ".sha256") hsame
                        rw [hname]
                        exact htaken
                      · intro other hother
                        rcases List.mem_cons.mp hother with heq | hlater
                        · rw [heq]
                          exact hfree
                        · intro hbefore
                          exact hnames other hlater (hgrown _ hbefore)

/-! ### Collisions -/

variable (sha floats decoder inputs)

/-- Plan entries never collide: labels differ, no file is written twice, no write is refused, and every digest
of the manifest is that of a file. -/
structure NeverCollides (combinations : List Combination) : Prop where
  labels : ∀ first ∈ combinations, ∀ second ∈ combinations, first ≠ second →
    runLabel inputs.attempt first ≠ runLabel inputs.attempt second
  free : ∀ done combination rest entries files, combinations = done ++ combination :: rest →
    writeEntries sha floats decoder inputs done .empty = (.ok entries, files) → Free inputs combination files
  failure : ∀ error, (writeEntries sha floats decoder inputs combinations .empty).1 = .error error →
    ∃ combination ∈ combinations, contents sha floats decoder inputs combination = .error error
  entries : ∀ entries files, writeEntries sha floats decoder inputs combinations .empty = (.ok entries, files) →
    List.Forall₂ (Matches sha inputs files) combinations entries

variable {sha floats decoder inputs}

theorem holds_empty : Holds inputs [] .empty := ⟨rfl, rfl⟩

theorem neverCollides_of_labels {combinations : List Combination}
    (h : (combinations.map (runLabel inputs.attempt)).Nodup) :
    NeverCollides sha floats decoder inputs combinations := by
  have hrun := @writeEntries_run sha floats decoder inputs [] combinations .empty holds_empty h
  constructor
  · intro first hfirst second hsecond hne hlabel
    exact hne (List.inj_on_of_nodup_map h hfirst hsecond hlabel)
  · intro done combination rest entries files hsplit hdone
    rw [hsplit, List.map_append, List.nodup_append, List.map_cons] at h
    have hbefore := (@writeEntries_run sha floats decoder inputs [] done .empty holds_empty h.1).2 entries files hdone
    apply hbefore.1.free
    intro other hother
    exact h.2.2 _ (List.mem_map_of_mem hother) _ List.mem_cons_self
  · exact hrun.1
  · intro entries files hwritten
    exact (hrun.2 entries files hwritten).2.2

/-- No two identifiers of a domain differ in the case of their letters only. -/
def LowerDistinct (expected : ExpectedCaseIds) : Prop :=
  ∀ domain, ∀ first ∈ expected.get domain, ∀ second ∈ expected.get domain,
    first.value.toLower = second.value.toLower → first = second

theorem labels_nodup {expected : ExpectedCaseIds} {seeds : List ℕ} (hlower : LowerDistinct expected)
    (hexpected : ∀ domain, (expected.get domain).Nodup) (hseeds : seeds.Nodup) (attempt : ℕ) :
    ((combinations expected seeds).map (runLabel attempt)).Nodup := by
  apply List.Nodup.map_on _ (combinations_nodup hexpected hseeds)
  intro first hfirst second hsecond hlabel
  obtain ⟨hdomain, hcase, hseed, haxis, hbudget⟩ := runLabel_eq_iff.mp hlabel
  rw [mem_combinations] at hfirst hsecond
  rw [← hdomain] at hsecond
  have hcaseId := hlower first.domain first.caseId hfirst.1 second.caseId hsecond.1 hcase
  cases first
  cases second
  rw [Combination.mk.injEq]
  exact ⟨hdomain, hcaseId, hseed, haxis, hbudget⟩

/-- Entries never collide exactly when no two identifiers of a domain differ in the case of their letters only. -/
theorem neverCollides_iff {protocol : List (String × Json)} {expected : ExpectedCaseIds} {seeds : List ℕ}
    (hexpected : expectedCaseIds protocol = .ok expected) (hseeds : planSeeds protocol = .ok seeds) :
    NeverCollides sha floats decoder inputs (combinations expected seeds) ↔ LowerDistinct expected := by
  obtain ⟨hsome, hnodup⟩ := planSeeds_spec hseeds
  constructor
  · intro h domain first hfirst second hsecond hlower
    by_contra hne
    obtain ⟨seed, hseed⟩ := List.exists_mem_of_ne_nil seeds hsome
    have hmem (caseId : CaseId) (hcaseId : caseId ∈ expected.get domain) :
        ⟨domain, caseId, seed, .serial1, .fixedWork⟩ ∈ combinations expected seeds :=
      mem_combinations.mpr ⟨hcaseId, hseed⟩
    apply h.labels _ (hmem first hfirst) _ (hmem second hsecond)
    · intro hsame
      exact hne (Combination.mk.inj hsame).2.1
    · exact runLabel_eq_iff.mpr ⟨rfl, hlower, rfl, rfl, rfl⟩
  · intro h
    exact neverCollides_of_labels (labels_nodup h (expectedCaseIds_nodup hexpected) hnodup inputs.attempt)

/-- A protocol with two identifiers that differ in the case of their letters has no completed plan. -/
theorem lowerDistinct_of_ok {expected : ExpectedCaseIds} {seeds : List ℕ} (hseeds : seeds ≠ [])
    {files after : PlanFiles} {entries : List PlanEntry}
    (h : writeEntries sha floats decoder inputs (combinations expected seeds) files = (.ok entries, after)) :
    LowerDistinct expected := by
  intro domain first hfirst second hsecond hlower
  obtain ⟨seed, hseed⟩ := List.exists_mem_of_ne_nil seeds hseeds
  have hmem (caseId : CaseId) (hcaseId : caseId ∈ expected.get domain) :
      ⟨domain, caseId, seed, .serial1, .fixedWork⟩ ∈ combinations expected seeds :=
    mem_combinations.mpr ⟨hcaseId, hseed⟩
  have hsame := List.inj_on_of_nodup_map (labels_nodup_of_ok h).1 (hmem first hfirst) (hmem second hsecond)
    (runLabel_eq_iff.mpr ⟨rfl, hlower, rfl, rfl, rfl⟩)
  exact (Combination.mk.inj hsame).2.1

/-! ### Two protocols -/

/-- A protocol whose cases have these identifiers. -/
def protocolOf (evrptw rcpsp : List String) : List (String × Json) :=
  [("domains", .obj [("evrptw", .obj [("pilot", .arr (evrptw.map Json.str)), ("validation", .arr [])]),
      ("rcpsp", .obj [("pilot", .arr (rcpsp.map Json.str)), ("validation", .arr [])])]),
    ("seeds", .arr [.int 2014])]

def plainInputs : PlanInputs where
  output := "plan"
  rawRoot := "raw"
  build := ⟨⟨"", "/", "build.json", by decide⟩, [], fun _ => .ok "/build.json"⟩
  buildManifestSha256 := genesis
  casePayload domain _ := [("domain", .str domain.value)]
  fixedWork := 16
  fixedTimeSeconds := ⟨false, 0, ['5'], none⟩
  maxRounds := 4
  attempt := 1

def c101 : CaseId := ⟨"c101", by decide⟩

def j30 : CaseId := ⟨"J30", by decide⟩

def upperC101 : CaseId := ⟨"C101", by decide⟩

theorem lowerDistinct_single (evrptw rcpsp : CaseId) : LowerDistinct ⟨[evrptw], [rcpsp]⟩ := by
  intro domain first hfirst second hsecond _
  cases domain with
  | evrptw => rw [List.mem_singleton.mp hfirst, List.mem_singleton.mp hsecond]
  | rcpsp => rw [List.mem_singleton.mp hfirst, List.mem_singleton.mp hsecond]

theorem neverCollides_plain :
    NeverCollides streamSha streamFloats utf8Decoder plainInputs (combinations ⟨[c101], [j30]⟩ [2014]) :=
  (@neverCollides_iff streamSha streamFloats utf8Decoder plainInputs (protocolOf ["c101"] ["J30"]) _ _ rfl rfl).mpr
    (lowerDistinct_single c101 j30)

theorem toLower_c101 : c101.value.toLower = upperC101.value.toLower := by
  apply String.toList_injective
  rw [toList_toLower, toList_toLower]
  decide

/-- Two identifiers that differ in the case of one letter are accepted, and their plan is never completed. -/
theorem neverCollides_twins :
    expectedCaseIds (protocolOf ["c101", "C101"] ["J30"]) = .ok ⟨[c101, upperC101], [j30]⟩ ∧
      planSeeds (protocolOf ["c101", "C101"] ["J30"]) = .ok [2014] ∧
      ¬ NeverCollides streamSha streamFloats utf8Decoder plainInputs
        (combinations ⟨[c101, upperC101], [j30]⟩ [2014]) ∧
      ∀ entries files, writeEntries streamSha streamFloats utf8Decoder plainInputs
        (combinations ⟨[c101, upperC101], [j30]⟩ [2014]) .empty ≠ (.ok entries, files) := by
  have hne : c101 ≠ upperC101 := by decide
  refine ⟨rfl, rfl, ?_, ?_⟩
  · intro h
    apply h.labels ⟨.evrptw, c101, 2014, .serial1, .fixedWork⟩ (mem_combinations.mpr ⟨by decide, by decide⟩)
      ⟨.evrptw, upperC101, 2014, .serial1, .fixedWork⟩ (mem_combinations.mpr ⟨by decide, by decide⟩)
    · intro hsame
      exact hne (Combination.mk.inj hsame).2.1
    · exact runLabel_eq_iff.mpr ⟨rfl, toLower_c101, rfl, rfl, rfl⟩
  · intro entries files h
    exact hne (lowerDistinct_of_ok (by decide) h .evrptw c101 (by decide) upperC101 (by decide) toLower_c101)

end TxnOpt.CampaignPlan

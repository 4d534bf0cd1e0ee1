import TxnOpt.Evidence.Proof.Fields
import TxnOpt.Evidence.Proof.SignedJson
import TxnOpt.Evidence.Toolchain

/-!
# What the toolchain lock reader accepts

The reader accepts the payloads of entries in order, with all required tools. The writer also refuses a tool
that occurs twice.
-/

namespace TxnOpt.Toolchain

open Archive
open Cos (HasFields strField strField_eq_some same_record_iff map_sortKeys_eq_scalar map_sortKeys_eq_str
  map_sortKeys_eq_arr IsScalar lookup_isSome_iff)
open EventStream (ArtifactPath NoWhitespace withStream sortKeys_eq_of_canonical)
open SignedJson

variable {sha : Sha256}

/-! ### Fields -/

theorem requiredString_ok_iff {members : List (String × Json)} {field value : String} :
    requiredString members field = .ok value ↔ members.lookup field = some (.str value) ∧ value ≠ "" := by
  rw [requiredString, ← strField_eq_some]
  cases strField members field with
  | none => simp
  | some stored =>
      by_cases hempty : stored = ""
      · simp only [if_pos hempty, Option.some.injEq]
        constructor
        · intro h
          cases h
        · intro h
          exact absurd (h.1.symm.trans hempty) h.2
      · simp only [if_neg hempty, Except.ok.injEq, Option.some.injEq]
        constructor
        · intro h
          rw [← h]
          exact ⟨rfl, hempty⟩
        · intro h
          exact h.1

theorem optionalString_ok_iff {members : List (String × Json)} {field : String} {value : Option String}
    (hfield : field ∈ members.map Prod.fst) :
    optionalString members field = .ok value ↔
      members.lookup field = some (ToolchainEntry.optional value) ∧ value ≠ some "" := by
  rw [← lookup_isSome_iff] at hfield
  obtain ⟨stored, hstored⟩ := Option.isSome_iff_exists.mp hfield
  rw [optionalString, hstored]
  cases stored with
  | null =>
      cases value <;> simp [ToolchainEntry.optional]
  | str text =>
      by_cases hempty : text = ""
      · cases value <;> simp [ToolchainEntry.optional, hempty]
      · cases value with
        | none => simp [ToolchainEntry.optional, hempty]
        | some other =>
            simp only [if_neg hempty, Except.ok.injEq, Option.some.injEq, ToolchainEntry.optional, Json.str.injEq,
              ne_eq]
            constructor
            · intro h
              rw [← h]
              exact ⟨rfl, hempty⟩
            · intro h
              exact h.1
  | _ => cases value <;> simp [ToolchainEntry.optional]

theorem requiredInt_ok_iff {members : List (String × Json)} {field : String} {value : Int} :
    requiredInt members field = .ok value ↔ members.lookup field = some (.int value) := by
  rw [requiredInt]
  cases members.lookup field with
  | none => simp
  | some stored => cases stored <;> simp [Json.asInt?]

theorem boolField_eq_some {members : List (String × Json)} {field : String} {value : Bool} :
    boolField members field = some value ↔ members.lookup field = some (.bool value) := by
  rw [boolField]
  cases members.lookup field with
  | none => simp
  | some stored => cases stored <;> simp

/-! ### One entry -/

theorem ToolchainEntry.make_ok_iff {name version executablePath sha256 : String} {validationExitCode : Int}
    {sourceUrl downloadSha256 : Option String} {entry : ToolchainEntry} :
    ToolchainEntry.make name version executablePath sha256 validationExitCode sourceUrl downloadSha256 = .ok entry ↔
      entry.name = name ∧ entry.version = version ∧ entry.executablePath = executablePath ∧ entry.sha256 = sha256 ∧
        (entry.validationExitCode : Int) = validationExitCode ∧ entry.sourceUrl = sourceUrl ∧
        entry.downloadSha256 = downloadSha256 := by
  rw [ToolchainEntry.make]
  constructor
  · intro h
    split at h
    · split at h
      · split at h
        · cases h
        · rename_i hpositive
          split at h
          · split at h
            · rw [← Except.ok.inj h]
              exact ⟨rfl, rfl, rfl, rfl, Int.toNat_of_nonneg (by omega), rfl, rfl⟩
            · cases h
          · cases h
      · cases h
    · cases h
  · intro h
    obtain ⟨hname, hversion, hpath, hsha, hcode, hurl, hdownload⟩ := h
    rw [← hname, ← hversion, ← hpath, ← hsha, ← hcode, ← hurl, ← hdownload, dif_pos entry.nonempty,
      dif_pos entry.isSha256, if_neg (by omega), dif_pos entry.recordedTogether, dif_pos entry.isDownloadSha256]
    rfl

theorem optional_isScalar (value : Option String) : IsScalar (ToolchainEntry.optional value) := by
  cases value <;> exact trivial

theorem same_entry_iff {members : List (String × Json)} {entry : ToolchainEntry}
    (hmembers : (members.map Prod.fst).Nodup) :
    Json.Same (.obj members) entry.toPayload ↔ HasFields members entryFields ∧
      members.lookup "name" = some (.str entry.name) ∧ members.lookup "version" = some (.str entry.version) ∧
      members.lookup "executable_path" = some (.str entry.executablePath) ∧
      members.lookup "sha256" = some (.str entry.sha256) ∧
      members.lookup "validation_exit_code" = some (.int entry.validationExitCode) ∧
      members.lookup "source_url" = some (ToolchainEntry.optional entry.sourceUrl) ∧
      members.lookup "download_sha256" = some (ToolchainEntry.optional entry.downloadSha256) := by
  rw [ToolchainEntry.toPayload, @same_record_iff members _ entryFields hmembers rfl (by decide)]
  have hstr : ∀ (stored : Option Json) text,
      stored.map Json.sortKeys = some (Json.str text).sortKeys ↔ stored = some (.str text) := by
    intro stored text
    exact map_sortKeys_eq_scalar trivial
  have hint : ∀ (stored : Option Json) number,
      stored.map Json.sortKeys = some (Json.int number).sortKeys ↔ stored = some (.int number) := by
    intro stored number
    exact map_sortKeys_eq_scalar trivial
  have hoptional : ∀ (stored : Option Json) value,
      stored.map Json.sortKeys = some (ToolchainEntry.optional value).sortKeys ↔
        stored = some (ToolchainEntry.optional value) := by
    intro stored value
    exact map_sortKeys_eq_scalar (optional_isScalar value)
  simp only [← hstr, ← hint, ← hoptional]
  simp [entryFields, List.lookup_cons]

/-- The reader takes the payload of an entry that has no empty URL. -/
theorem readEntry_ok_iff {raw : Json} (hraw : raw.WellFormed) {entry : ToolchainEntry} :
    readEntry raw = .ok entry ↔ Json.Same raw entry.toPayload ∧ entry.sourceUrl ≠ some "" := by
  cases raw with
  | obj members =>
      rw [readEntry, same_entry_iff hraw.1]
      by_cases hfields : HasFields members entryFields
      · have hurlField : "source_url" ∈ members.map Prod.fst := hfields.2 _ (by decide)
        have hdownloadField : "download_sha256" ∈ members.map Prod.fst := hfields.2 _ (by decide)
        rw [if_pos hfields]
        constructor
        · intro h
          obtain ⟨name, hname, h⟩ := exists_of_bind_eq_ok h
          obtain ⟨version, hversion, h⟩ := exists_of_bind_eq_ok h
          obtain ⟨executablePath, hpath, h⟩ := exists_of_bind_eq_ok h
          obtain ⟨sha256, hsha, h⟩ := exists_of_bind_eq_ok h
          obtain ⟨code, hcode, h⟩ := exists_of_bind_eq_ok h
          obtain ⟨sourceUrl, hurl, h⟩ := exists_of_bind_eq_ok h
          obtain ⟨downloadSha256, hdownload, h⟩ := exists_of_bind_eq_ok h
          obtain ⟨rfl, rfl, rfl, rfl, rfl, rfl, rfl⟩ := ToolchainEntry.make_ok_iff.mp h
          rw [optionalString_ok_iff hurlField] at hurl
          rw [optionalString_ok_iff hdownloadField] at hdownload
          exact ⟨⟨hfields, (requiredString_ok_iff.mp hname).1, (requiredString_ok_iff.mp hversion).1,
            (requiredString_ok_iff.mp hpath).1, (requiredString_ok_iff.mp hsha).1, requiredInt_ok_iff.mp hcode,
            hurl.1, hdownload.1⟩, hurl.2⟩
        · intro h
          obtain ⟨⟨-, hname, hversion, hpath, hsha, hcode, hurl, hdownload⟩, hne⟩ := h
          have hshaNe : entry.sha256 ≠ "" := by
            intro hempty
            have hlength := entry.isSha256.1
            rw [hempty] at hlength
            cases hlength
          have hdownloadNe : entry.downloadSha256 ≠ some "" := by
            intro hempty
            have hlength := (entry.isDownloadSha256 "" hempty).1
            cases hlength
          simp only [requiredString_ok_iff.mpr ⟨hname, entry.nonempty.1⟩,
            requiredString_ok_iff.mpr ⟨hversion, entry.nonempty.2.1⟩,
            requiredString_ok_iff.mpr ⟨hpath, entry.nonempty.2.2⟩, requiredString_ok_iff.mpr ⟨hsha, hshaNe⟩,
            requiredInt_ok_iff.mpr hcode, (optionalString_ok_iff hurlField).mpr ⟨hurl, hne⟩,
            (optionalString_ok_iff hdownloadField).mpr ⟨hdownload, hdownloadNe⟩, bind, Except.bind]
          rw [ToolchainEntry.make_ok_iff]
          exact ⟨rfl, rfl, rfl, rfl, rfl, rfl, rfl⟩
      · rw [if_neg hfields]
        constructor
        · intro h
          cases h
        · intro h
          exact absurd h.1.1 hfields
  | _ =>
      constructor
      · intro h
        cases h
      · intro h
        cases h.1

/-! ### The whole lock -/

theorem readEntries_ok_iff {rawTools : List Json} (hraw : Json.WellFormedItems rawTools)
    {entries : List ToolchainEntry} :
    rawTools.mapM readEntry = .ok entries ↔
      List.Forall₂ Json.Same rawTools (entries.map ToolchainEntry.toPayload) ∧
        ∀ entry ∈ entries, entry.sourceUrl ≠ some "" := by
  rw [mapM_eq_ok_iff]
  induction rawTools generalizing entries with
  | nil =>
      constructor
      · intro h
        cases h
        exact ⟨.nil, by simp⟩
      · intro h
        rw [List.map_eq_nil_iff.mp (List.forall₂_nil_left_iff.mp h.1)]
        exact .nil
  | cons raw rawTools ih =>
      cases entries with
      | nil =>
          constructor
          · intro h
            cases h
          · intro h
            cases h.1
      | cons entry entries =>
          rw [List.map_cons, List.forall₂_cons, List.forall₂_cons, ih hraw.2, readEntry_ok_iff hraw.1,
            List.forall_mem_cons]
          exact and_and_and_comm

theorem same_lock_iff {members : List (String × Json)} {entries : List ToolchainEntry}
    (hmembers : (members.map Prod.fst).Nodup) :
    Json.Same (.obj members) (lockPayload entries) ↔ HasFields members lockFields ∧
      strField members "schema_version" = some "txnopt-toolchain-lock-v1" ∧
      strField members "status" = some (status (complete entries)) ∧
      boolField members "all_validation_exit_codes_zero" = some (complete entries) ∧
      boolField members "repository_state_written" = some false ∧
      ∃ rawTools, members.lookup "tools" = some (.arr rawTools) ∧
        List.Forall₂ Json.Same rawTools (entries.map ToolchainEntry.toPayload) := by
  rw [lockPayload, @same_record_iff members _ lockFields hmembers rfl (by decide)]
  have hbool : ∀ name value, (members.lookup name).map Json.sortKeys = some (Json.bool value).sortKeys ↔
      boolField members name = some value := by
    intro name value
    rw [boolField_eq_some]
    exact map_sortKeys_eq_scalar trivial
  simp only [← map_sortKeys_eq_str, ← hbool, ← map_sortKeys_eq_arr]
  simp [lockFields, List.lookup_cons]

/-- The object is the payload of the entries, which the reader takes. -/
structure Locked (requireComplete : Bool) (members : List (String × Json)) (entries : List ToolchainEntry) :
    Prop where
  sorted : entries.map ToolchainEntry.name = sortedBy id (entries.map ToolchainEntry.name)
  required : IsRequiredSet (entries.map ToolchainEntry.name)
  urls : ∀ entry ∈ entries, entry.sourceUrl ≠ some ""
  complete : requireComplete = true → complete entries = true
  same : Json.Same (.obj members) (lockPayload entries)

theorem checkToolchainLock_ok_iff {requireComplete : Bool} {members result : List (String × Json)}
    (hmembers : (Json.obj members).WellFormed) :
    checkToolchainLock requireComplete members = .ok result ↔
      result = members ∧ ∃ entries, Locked requireComplete members entries := by
  have htools : ∀ rawTools, members.lookup "tools" = some (.arr rawTools) → Json.WellFormedItems rawTools := by
    intro rawTools hlookup
    have hmem := (lookup_eq_some_iff_mem hmembers.1).mp hlookup
    exact (Json.wellFormedMembers_iff members).mp hmembers.2 _ hmem
  rw [checkToolchainLock]
  constructor
  · intro h
    split at h
    · rename_i hfields
      split at h
      · cases h
      · rename_i hheader
        rw [not_or, not_not, not_not] at hheader
        split at h
        · cases h
        · rename_i rawTools hraw
          obtain ⟨value, hvalue, harr⟩ := Option.bind_eq_some_iff.mp hraw
          have hlookup : members.lookup "tools" = some (.arr rawTools) := by
            rw [hvalue]
            cases value <;> cases harr
            rfl
          obtain ⟨entries, hentries, h⟩ := exists_of_bind_eq_ok h
          obtain ⟨hsame, hurls⟩ := (readEntries_ok_iff (htools _ hlookup)).mp hentries
          simp only at h
          split at h
          · cases h
          · rename_i hnames
            rw [not_or, not_not, not_not] at hnames
            split at h
            · cases h
            · rename_i hstatus
              rw [not_or, not_not, not_not] at hstatus
              split at h
              · cases h
              · rename_i hcomplete
                rw [not_and, Bool.not_eq_false] at hcomplete
                refine ⟨(Except.ok.inj h).symm, entries, hnames.1, hnames.2, hurls, hcomplete, ?_⟩
                rw [same_lock_iff hmembers.1]
                exact ⟨hfields, hheader.1, hstatus.1, hstatus.2, hheader.2, rawTools, hlookup, hsame⟩
    · cases h
  · intro h
    obtain ⟨hresult, entries, hlocked⟩ := h
    obtain ⟨hfields, hschema, hstatus, hall, hwritten, rawTools, hlookup, hsame⟩ :=
      (same_lock_iff hmembers.1).mp hlocked.same
    have hread := (readEntries_ok_iff (htools _ hlookup)).mpr ⟨hsame, hlocked.urls⟩
    have hcomplete : ¬ (requireComplete = true ∧ complete entries = false) := by
      rw [not_and, Bool.not_eq_false]
      exact hlocked.complete
    have hnames : ¬ (entries.map ToolchainEntry.name ≠ sortedBy id (entries.map ToolchainEntry.name) ∨
        ¬ IsRequiredSet (entries.map ToolchainEntry.name)) := by
      rw [not_or, not_not, not_not]
      exact ⟨hlocked.sorted, hlocked.required⟩
    rw [if_pos hfields, if_neg (by simp [hschema, hwritten]), hlookup]
    simp only [Option.bind_some, Json.asArr?, hread, bind, Except.bind]
    rw [if_neg hnames, if_neg (by simp [hstatus, hall]), if_neg hcomplete, hresult]
    rfl

/-! ### What the writer can write -/

/-- The name of each tool in a payload. -/
def toolNames : Json → List String
  | .obj members => (((members.lookup "tools").bind Json.asArr?).getD []).filterMap fun raw =>
      match raw with
      | .obj tool => strField tool "name"
      | _ => none
  | _ => []

theorem toolNames_eq {members : List (String × Json)} (hmembers : (Json.obj members).WellFormed)
    {entries : List ToolchainEntry} (h : Json.Same (.obj members) (lockPayload entries)) :
    toolNames (.obj members) = entries.map ToolchainEntry.name := by
  obtain ⟨-, -, -, -, -, rawTools, hlookup, hsame⟩ := (same_lock_iff hmembers.1).mp h
  have hmem := (lookup_eq_some_iff_mem hmembers.1).mp hlookup
  have hraw : Json.WellFormedItems rawTools := (Json.wellFormedMembers_iff members).mp hmembers.2 _ hmem
  rw [toolNames, hlookup]
  simp only [Option.bind_some, Json.asArr?, Option.getD_some]
  clear h hlookup hmem
  induction rawTools generalizing entries with
  | nil =>
      rw [List.map_eq_nil_iff.mp (List.forall₂_nil_left_iff.mp hsame)]
      rfl
  | cons raw rawTools ih =>
      cases entries with
      | nil => cases hsame
      | cons entry entries =>
          rw [List.map_cons, List.forall₂_cons] at hsame
          cases raw with
          | obj tool =>
              obtain ⟨_, hname, _⟩ := (same_entry_iff hraw.1.1).mp hsame.1
              rw [List.filterMap_cons]
              simp only [strField_eq_some.mpr hname]
              rw [List.map_cons, ih hsame.2 hraw.2]
          | _ => cases hsame.1

/-- Some entries are written as the payload, wherever the names are free. -/
def Writable (sha : Sha256) (payload : Json) : Prop :=
  ∃ entries, ∀ path directory, FreeNames path directory → writeToolchainLock sha path entries directory =
    (.ok (sha.hexdigest (canonicalJsonBytes payload true)),
      withStream sha path (canonicalJsonBytes payload true) directory)

theorem entry_wellFormed (entry : ToolchainEntry) : entry.toPayload.WellFormed := by
  have hoptional : ∀ value, (ToolchainEntry.optional value).WellFormed := by
    intro value
    cases value <;> trivial
  exact ⟨by simp, trivial, trivial, trivial, trivial, trivial, hoptional _, hoptional _, trivial⟩

theorem lockPayload_wellFormed (entries : List ToolchainEntry) : (lockPayload entries).WellFormed := by
  have htools : Json.WellFormedItems (entries.map ToolchainEntry.toPayload) := by
    rw [Json.wellFormedItems_iff]
    intro item hitem
    obtain ⟨entry, -, heq⟩ := List.mem_map.mp hitem
    rw [← heq]
    exact entry_wellFormed entry
  exact ⟨by simp, trivial, trivial, trivial, trivial, htools, trivial⟩

theorem writeToolchainLock_free {path : ArtifactPath} {entries : List ToolchainEntry} {payload : Json}
    {directory : Directory} (h : toolchainPayload entries = .ok payload) (hfree : FreeNames path directory) :
    writeToolchainLock sha path entries directory =
      (.ok (sha.hexdigest (canonicalJsonBytes payload true)),
        withStream sha path (canonicalJsonBytes payload true) directory) := by
  rw [writeToolchainLock, h]
  exact writeSignedJson_free hfree

/-- The file where the examples keep their lock. -/
def lockPath : ArtifactPath := ⟨"build/", "/build/", "toolchain.json", by decide⟩

theorem lockPath_free : FreeNames lockPath [] := ⟨List.not_mem_nil, List.not_mem_nil⟩

theorem writable_iff {payload : Json} (hpayload : payload.WellFormed) :
    Writable sha payload ↔ ∃ entries written, toolchainPayload entries = .ok written ∧ Json.Same payload written := by
  constructor
  · intro h
    obtain ⟨entries, hwrites⟩ := h
    have hwrite := hwrites lockPath [] lockPath_free
    refine ⟨entries, ?_⟩
    cases hwritten : toolchainPayload entries with
    | error error =>
        rw [writeToolchainLock, hwritten] at hwrite
        cases hwrite
    | ok written =>
        have hform : written.WellFormed := by
          rw [toolchainPayload] at hwritten
          split at hwritten
          · cases hwritten
          · rw [← Except.ok.inj hwritten]
            exact lockPayload_wellFormed _
        rw [writeToolchainLock_free hwritten lockPath_free] at hwrite
        have hfile := congrArg (fun outcome => outcome.2.lookup lockPath.name) hwrite
        simp only [EventStream.withStream_file sha _ lockPath_free.1, Option.some.injEq,
          FsNode.file.injEq] at hfile
        exact ⟨written, rfl, (sortKeys_eq_of_canonical hform hpayload hfile).symm⟩
  · intro h
    obtain ⟨entries, written, hwritten, hsame⟩ := h
    refine ⟨entries, ?_⟩
    intro path directory hfree
    have hbytes : canonicalJsonBytes payload true = canonicalJsonBytes written true := by
      rw [← canonicalJsonBytes_sortKeys, hsame, canonicalJsonBytes_sortKeys]
    rw [hbytes]
    exact writeToolchainLock_free hwritten hfree

theorem sortedBy_name_eq {entries : List ToolchainEntry}
    (hsorted : entries.map ToolchainEntry.name = sortedBy id (entries.map ToolchainEntry.name))
    (hnodup : (entries.map ToolchainEntry.name).Nodup) : sortedBy ToolchainEntry.name entries = entries := by
  apply sortedBy_eq_of_mem_iff hnodup
  · have hincreasing := sortedBy_increasing (by rw [List.map_id]; exact hnodup)
    rw [← hsorted] at hincreasing
    exact List.pairwise_map.mp hincreasing
  · intro entry
    rfl

theorem Writable.nodup {members : List (String × Json)} (hmembers : (Json.obj members).WellFormed)
    (h : Writable sha (.obj members)) : (toolNames (.obj members)).Nodup := by
  obtain ⟨entries, written, hwritten, hsame⟩ := (writable_iff hmembers).mp h
  rw [toolchainPayload] at hwritten
  split at hwritten
  · cases hwritten
  · rename_i hnodup
    rw [not_or, not_not] at hnodup
    rw [← Except.ok.inj hwritten] at hsame
    rw [toolNames_eq hmembers hsame]
    exact (sortedBy_perm.map ToolchainEntry.name).nodup_iff.mpr hnodup.1

theorem readToolchainLock_wellFormed {decoder : JsonDecoder} {path : ArtifactPath} {requireComplete : Bool}
    {directory : Directory} {members : List (String × Json)}
    (h : readToolchainLock sha decoder path requireComplete directory = .ok members) :
    (Json.obj members).WellFormed ∧ ∃ entries, Locked requireComplete members entries := by
  obtain ⟨payload, hread, hcheck⟩ := exists_of_bind_eq_ok h
  have hpayload := readSignedJson_nodup hread
  obtain ⟨hresult, hlocked⟩ := (checkToolchainLock_ok_iff hpayload).mp hcheck
  rw [hresult]
  exact ⟨hpayload, hlocked⟩

/-- A lock that the reader accepts is one that can be written, with each tool once, iff no name is repeated. -/
theorem readToolchainLock_writable_iff (sha : Sha256) (decoder : JsonDecoder) (path : ArtifactPath)
    (requireComplete : Bool) (directory : Directory) (members : List (String × Json))
    (h : readToolchainLock sha decoder path requireComplete directory = .ok members) :
    (Writable sha (.obj members) ∧ ∀ tool ∈ requiredTools, (toolNames (.obj members)).count tool = 1) ↔
      (toolNames (.obj members)).Nodup := by
  obtain ⟨hpayload, entries, hlocked⟩ := readToolchainLock_wellFormed h
  have hnames := toolNames_eq hpayload hlocked.same
  constructor
  · intro hexact
    exact hexact.1.nodup hpayload
  · intro hnodup
    rw [hnames] at hnodup
    have hpayloads : toolchainPayload entries = .ok (lockPayload entries) := by
      rw [toolchainPayload, if_neg, sortedBy_name_eq hlocked.sorted hnodup]
      rw [not_or, not_not, not_not]
      exact ⟨hnodup, hlocked.required⟩
    constructor
    · exact (writable_iff hpayload).mpr ⟨entries, _, hpayloads, hlocked.same⟩
    · intro tool htool
      rw [hnames]
      exact List.count_eq_one_of_mem hnodup (hlocked.required.2 tool htool)

/-! ### Locks of one release -/

/-- Version 1.0 of a tool. -/
def toolEntry (name : String) (h : name ≠ "") : ToolchainEntry where
  name := name
  version := "1.0"
  executablePath := "/usr/bin/tool"
  sha256 := "e3b0c44298fc1c149afbf4c8996fb92427ae41e4649b934ca495991b7852b855"
  validationExitCode := 0
  sourceUrl := none
  downloadSha256 := none
  nonempty := ⟨h, by decide, by decide⟩
  isSha256 := isSha256_ofList rfl rfl
  recordedTogether := rfl
  isDownloadSha256 := by simp

theorem ne_empty {names : List String} (h : IsRequiredSet names) : ∀ name ∈ names, name ≠ "" := by
  intro name hname hempty
  have hrequired := h.1 name hname
  rw [hempty] at hrequired
  exact absurd hrequired (by decide)

def toolEntries (names : List String) (h : IsRequiredSet names) : List ToolchainEntry :=
  names.pmap toolEntry (ne_empty h)

theorem toolEntries_names {names : List String} (h : IsRequiredSet names) :
    (toolEntries names h).map ToolchainEntry.name = names := by
  rw [toolEntries, List.map_pmap]
  exact (List.pmap_eq_map _).trans (List.map_id names)

theorem mem_toolEntries {names : List String} (h : IsRequiredSet names) {entry : ToolchainEntry}
    (hentry : entry ∈ toolEntries names h) : entry.validationExitCode = 0 ∧ entry.sourceUrl = none := by
  obtain ⟨name, hname, heq⟩ := List.mem_pmap.mp hentry
  rw [← heq]
  exact ⟨rfl, rfl⟩

/-- SHA-256 on one text. -/
def onlySha (digest : String) (h : IsSha256 digest) : Sha256 := ⟨fun _ => digest, fun _ => h⟩

/-- The lock with those tools, and its sidecar file. -/
def lockDirectory (sha : Sha256) (names : List String) (h : IsRequiredSet names) : Directory :=
  withStream sha lockPath (canonicalJsonBytes (lockPayload (toolEntries names h)) true) []

theorem readToolchainLock_tools (sha : Sha256) {names : List String} (h : IsRequiredSet names)
    (hsorted : names = sortedBy id names) : ∃ members,
      readToolchainLock sha utf8Decoder lockPath true (lockDirectory sha names h) = .ok members ∧
        toolNames (.obj members) = names := by
  have hform := lockPayload_wellFormed (toolEntries names h)
  have hloads := utf8Decoder_canonical hform true
  have hsortedForm := Json.WellFormed.sortKeys _ hform
  have hsame : Json.Same (lockPayload (toolEntries names h)).sortKeys (lockPayload (toolEntries names h)) :=
    Json.sortKeys_sortKeys _
  obtain ⟨members, hmembers⟩ : ∃ members, (lockPayload (toolEntries names h)).sortKeys = .obj members := ⟨_, rfl⟩
  rw [hmembers] at hloads hsortedForm hsame
  have hread := @readSignedJson_withStream sha utf8Decoder lockPath [] lockPath_free (by decide) _ _ hloads
  have hnames := toolEntries_names h
  refine ⟨members, ?_, ?_⟩
  · rw [readToolchainLock, lockDirectory, hread]
    apply (checkToolchainLock_ok_iff hsortedForm).mpr
    refine ⟨rfl, toolEntries names h, ?_, ?_, ?_, ?_, hsame⟩
    · rw [hnames]
      exact hsorted
    · rw [hnames]
      exact h
    · intro entry hentry
      rw [(mem_toolEntries h hentry).2]
      intro hempty
      cases hempty
    · intro _
      rw [complete, List.all_eq_true]
      intro entry hentry
      exact decide_eq_true (mem_toolEntries h hentry).1
  · rw [toolNames_eq hsortedForm hsame, hnames]

def sortedTools : List String :=
  ["cmake", "cos-python-sdk-v5", "cpython", "fuser", "gcc", "ipcs", "jq", "lsof", "ninja", "numactl", "pluscal",
    "temurin-jdk", "tencentcloud-sdk-python-common", "tencentcloud-sdk-python-cvm", "tla2tools", "tlc", "uv"]

theorem sortedTools_required : IsRequiredSet sortedTools := by decide +kernel

def doubledTools : List String := sortedTools ++ ["uv"]

theorem doubledTools_required : IsRequiredSet doubledTools := by decide +kernel

def doubledSha : Sha256 := onlySha "f12dadb1b0b7854cd5633e8cbd20f473a56bedaf6bade4a637daf0ebd3f31b59" (by decide)

/-- The reader accepts a lock with the tool `uv` twice, which no entries are written as. -/
theorem readToolchainLock_doubled : ∃ members,
    readToolchainLock doubledSha utf8Decoder lockPath true
      (lockDirectory doubledSha doubledTools doubledTools_required) = .ok members ∧
      (toolNames (.obj members)).count "uv" = 2 ∧ ¬ Writable doubledSha (.obj members) := by
  obtain ⟨members, hread, hnames⟩ := readToolchainLock_tools doubledSha doubledTools_required (by decide +kernel)
  refine ⟨members, hread, ?_, ?_⟩
  · rw [hnames]
    decide
  · intro h
    have hnodup := h.nodup (readToolchainLock_wellFormed hread).1
    rw [hnames] at hnodup
    exact absurd hnodup (by decide)

def sortedSha : Sha256 := onlySha "e14e28a03b4f4e8d6946e33ebc6b503aa200b88696de923b9213b0141bce623c" (by decide)

theorem readToolchainLock_writable_sorted : ∃ members,
    readToolchainLock sortedSha utf8Decoder lockPath true
      (lockDirectory sortedSha sortedTools sortedTools_required) = .ok members ∧
      Writable sortedSha (.obj members) := by
  obtain ⟨members, hread, hnames⟩ := readToolchainLock_tools sortedSha sortedTools_required (by decide +kernel)
  have hexact := readToolchainLock_writable_iff sortedSha utf8Decoder lockPath true _ members hread
  refine ⟨members, hread, (hexact.mpr ?_).1⟩
  rw [hnames]
  decide

end TxnOpt.Toolchain

import TxnOpt.Evidence.EventStream
import TxnOpt.Evidence.Proof.Codec
import TxnOpt.Evidence.Proof.FileSystem
import TxnOpt.Lib.HashChain
import TxnOpt.Lib.JsonParsing
import TxnOpt.Lib.JsonPrinting

/-!
# Reading event streams

What is written is read back when the file's name has no white space, and the last digest of a stream
determines its events.
-/

namespace TxnOpt.EventStream

open Archive

variable {sha : Sha256} {floats : FloatConversion}

/-- A dict that JSON can write. A float in it is given by its `repr`. -/
structure JsonObject (floats : FloatConversion) where
  members : List (String × Json)
  wellFormed : (Json.obj members).WellFormed
  reprs : (Json.obj members).Reprs floats

/-- Equal as dicts, up to the order of their keys. -/
def SameDict (first second : List (String × Json)) : Prop := (Json.obj first).sortKeys = (Json.obj second).sortKeys

def SameEvents (first second : List (List (String × Json))) : Prop := List.Forall₂ SameDict first second

/-! ### Canonical bytes -/

theorem canonicalJson_finite {payload : Json} (h : payload.isFinite floats = true) :
    canonicalJson floats payload = .ok (canonicalJsonBytes payload false) := by
  rw [canonicalJson, if_pos h]

theorem canonicalJson_eq {payload : Json} (h : payload.Reprs floats) :
    canonicalJson floats payload = .ok (canonicalJsonBytes payload false) :=
  canonicalJson_finite (Json.Reprs.isFinite payload h)

/-- Canonical bytes determine the value, up to the order of keys. -/
theorem sortKeys_eq_of_canonical {first second : Json} {pretty : Bool} (hfirst : first.WellFormed)
    (hsecond : second.WellFormed) (h : canonicalJsonBytes first pretty = canonicalJsonBytes second pretty) :
    first.sortKeys = second.sortKeys := by
  have hread := loadsBytes_canonical hfirst pretty
  rw [h, loadsBytes_canonical hsecond pretty] at hread
  exact (Option.some.inj hread).symm

/-- The text of canonical bytes. -/
def recordText (record : Json) : List Char := Json.render Json.compact 0 record.sortKeys

theorem canonicalJsonBytes_text (record : Json) : canonicalJsonBytes record false = encodeUtf8 (recordText record) := by
  rw [canonicalJsonBytes, if_neg Bool.false_ne_true, recordText]

theorem loadsLine_recordText {record : Json} (h : record.WellFormed) (hreprs : record.Reprs floats) :
    loadsLine floats (recordText record) = .ok record.sortKeys := by
  have hread : Json.loads (Json.render Json.compact 0 record.sortKeys ++ []) = some record.sortKeys :=
    Json.loads_render Json.compact_spaced (Json.WellFormed.sortKeys record h) (by simp)
  rw [List.append_nil] at hread
  rw [loadsLine, recordText, hread]
  simp only [Json.Reprs.convert_eq _ (Json.Reprs.sortKeys record hreprs)]

theorem recordText_lines {record : Json} (h : record.WellFormed) :
    ∀ c ∈ recordText record, isLineBoundary c = false := by
  intro c hc
  have hprintable := Json.render_printable _ (Json.WellFormed.sortKeys record h) 0 c hc
  simp only [isLineBoundary, Bool.or_eq_false_iff, Bool.and_eq_false_iff, decide_eq_false_iff_not]
  omega

/-! ### One record -/

theorem unsignedRecord_wellFormed {eventId previous : Json} {payload : List (String × Json)}
    (heventId : eventId.WellFormed) (hprevious : previous.WellFormed) (hpayload : (Json.obj payload).WellFormed) :
    (Json.obj (unsignedRecord eventId previous payload)).WellFormed :=
  ⟨by simp [unsignedRecord], heventId, hprevious, hpayload, trivial⟩

theorem unsignedRecord_reprs {eventId previous : Json} {payload : List (String × Json)}
    (heventId : eventId.Reprs floats) (hprevious : previous.Reprs floats)
    (hpayload : (Json.obj payload).Reprs floats) :
    (Json.obj (unsignedRecord eventId previous payload)).Reprs floats :=
  ⟨heventId, hprevious, hpayload, trivial⟩

def signedRecord (eventId : ℕ) (previous digest : String) (payload : List (String × Json)) : List (String × Json) :=
  unsignedRecord (.int eventId) (.str previous) payload ++ [("event_sha256", .str digest)]

theorem signedRecord_wellFormed (eventId : ℕ) (previous digest : String) (payload : JsonObject floats) :
    (Json.obj (signedRecord eventId previous digest payload.members)).WellFormed :=
  ⟨by simp [signedRecord, unsignedRecord], trivial, trivial, payload.wellFormed, trivial, trivial⟩

theorem signedRecord_reprs (eventId : ℕ) (previous digest : String) (payload : JsonObject floats) :
    (Json.obj (signedRecord eventId previous digest payload.members)).Reprs floats :=
  ⟨trivial, trivial, payload.reprs, trivial, trivial⟩

/-- The members of a dict that was written and read. -/
def sortedMembers (members : List (String × Json)) : List (String × Json) :=
  sortedBy Prod.fst (Json.sortMembers members)

theorem sameDict_sorted (members : List (String × Json)) : SameDict (sortedMembers members) members :=
  Json.sortKeys_sortKeys (.obj members)

/-- Sorting the payload leaves the canonical bytes of the record. -/
theorem unsignedRecord_sorted (eventId previous : Json) (payload : List (String × Json)) :
    canonicalJsonBytes (.obj (unsignedRecord eventId previous (sortedMembers payload))) false =
      canonicalJsonBytes (.obj (unsignedRecord eventId previous payload)) false := by
  have hsame : (Json.obj (unsignedRecord eventId previous (sortedMembers payload))).sortKeys =
      (Json.obj (unsignedRecord eventId previous payload)).sortKeys := by
    simp only [Json.sortKeys, unsignedRecord, Json.sortMembers]
    rw [sortedMembers, Json.sortMembers_sortedBy, Json.sortMembers_sortMembers, sortedBy_sortedBy]
  rw [← canonicalJsonBytes_sortKeys, hsame, canonicalJsonBytes_sortKeys]

/-- The digest of a record. -/
def recordDigest (sha : Sha256) (eventId previous : Json) (payload : List (String × Json)) : String :=
  sha.hexdigest (canonicalJsonBytes (.obj (unsignedRecord eventId previous payload)) false)

/-- What `read_event_stream` accepts on one line. -/
structure Accepted (sha : Sha256) (floats : FloatConversion) (expectedId : ℕ) (previous : String)
    (line : List Char) (eventId : Json) (payload : List (String × Json)) : Prop where
  loads : ∃ record, loadsLine floats line = .ok (.obj record) ∧ record.lookup "event_id" = some eventId ∧
    record.lookup "previous_event_sha256" = some (.str previous) ∧ record.lookup "payload" = some (.obj payload) ∧
    record.lookup "event_sha256" = some (.str (recordDigest sha eventId (.str previous) payload))
  indexed : isEventId floats expectedId eventId = true
  finite : (Json.obj (unsignedRecord eventId (.str previous) payload)).isFinite floats = true

theorem asStr?_eq_some {value : Option Json} {text : String} :
    value.bind Json.asStr? = some text ↔ value = some (.str text) := by
  cases value with
  | none => simp
  | some value =>
      cases value with
      | str stored => simp [Json.asStr?]
      | null | bool | int | float | arr | obj => simp [Json.asStr?]

theorem Accepted.readRecord {expectedId : ℕ} {previous : String} {line : List Char} {eventId : Json}
    {payload : List (String × Json)} (h : Accepted sha floats expectedId previous line eventId payload) :
    readRecord sha floats expectedId previous line =
      .ok (payload, recordDigest sha eventId (.str previous) payload) := by
  obtain ⟨record, hload, hid, hprior, hpayload, hclaimed⟩ := h.loads
  unfold EventStream.readRecord
  rw [hload]
  have hcanonical := canonicalJson_finite h.finite
  simp only [bind, Except.bind, hid, hprior, hpayload, hclaimed, Option.bind_some, Json.asStr?, h.indexed,
    hcanonical]
  simp [recordDigest, pure, Except.pure]

theorem readRecord_accepted {expectedId : ℕ} {previous actual : String} {line : List Char}
    {payload : List (String × Json)} (h : readRecord sha floats expectedId previous line = .ok (payload, actual)) :
    ∃ eventId, Accepted sha floats expectedId previous line eventId payload ∧
      actual = recordDigest sha eventId (.str previous) payload := by
  unfold readRecord at h
  cases hload : loadsLine floats line with
  | error error =>
      rw [hload] at h
      cases h
  | ok value =>
      rw [hload] at h
      simp only [bind, Except.bind] at h
      split at h
      · rename_i record
        split at h
        · rename_i eventId prior stored hid hprior hpayload
          split at h
          · cases h
          · rename_i hchain
            rw [not_or, not_not] at hchain
            obtain ⟨hindexed, hprevious⟩ := hchain
            rw [hprevious] at h hprior
            by_cases hfinite : (Json.obj (unsignedRecord eventId (.str previous) stored)).isFinite floats = true
            · rw [canonicalJson_finite hfinite] at h
              simp only at h
              split at h
              · cases h
              · rename_i hclaimed
                obtain ⟨hpayloads, hactual⟩ := Prod.mk.inj (Except.ok.inj h)
                rw [← hpayloads, ← hactual]
                rw [not_not, asStr?_eq_some] at hclaimed
                exact ⟨eventId, ⟨⟨record, hload, hid, asStr?_eq_some.mp hprior, hpayload, hclaimed⟩,
                  by simpa using hindexed, hfinite⟩, rfl⟩
            · rw [canonicalJson, if_neg hfinite] at h
              cases h
        · cases h
      · cases h

/-- A written line is read as the event it was written for. -/
theorem accepted_signed (sha : Sha256) (eventId : ℕ) (previous : String) (payload : JsonObject floats) :
    Accepted sha floats eventId previous (recordText (.obj (signedRecord eventId previous
        (recordDigest sha (.int eventId) (.str previous) payload.members) payload.members)))
      (.int eventId) (sortedMembers payload.members) := by
  have hwellFormed := signedRecord_wellFormed eventId previous
    (recordDigest sha (.int eventId) (.str previous) payload.members) payload
  have hreprs : (Json.obj (unsignedRecord (.int eventId) (.str previous) (sortedMembers payload.members))).Reprs
      floats := unsignedRecord_reprs trivial trivial (Json.Reprs.sortKeys _ payload.reprs)
  refine ⟨⟨_, loadsLine_recordText hwellFormed (signedRecord_reprs eventId previous _ payload), ?_, ?_, ?_, ?_⟩,
    by simp [isEventId], Json.Reprs.isFinite _ hreprs⟩
  · rw [Json.lookup_sorted hwellFormed.1]
    rfl
  · rw [Json.lookup_sorted hwellFormed.1]
    rfl
  · rw [Json.lookup_sorted hwellFormed.1]
    rfl
  · have hdigest : recordDigest sha (.int eventId) (.str previous) (sortedMembers payload.members) =
        recordDigest sha (.int eventId) (.str previous) payload.members := by
      rw [recordDigest, unsignedRecord_sorted, recordDigest]
    rw [Json.lookup_sorted hwellFormed.1, hdigest]
    rfl

/-! ### The whole file -/

theorem encodeUtf8_append (first second : List Char) :
    encodeUtf8 (first ++ second) = encodeUtf8 first ++ encodeUtf8 second := by
  rw [encodeUtf8, List.flatMap_append]
  rfl

/-- The bytes of lines that are each ended by a line feed. -/
theorem encodeUtf8_lines (texts : List (List Char)) :
    encodeUtf8 (texts.flatMap fun text => text ++ ['\n']) =
      (texts.map fun text => encodeUtf8 text ++ [10]).flatten := by
  have hfeed : encodeUtf8 ['\n'] = [10] := by decide
  induction texts with
  | nil => rfl
  | cons text texts ih =>
      rw [List.flatMap_cons, encodeUtf8_append, encodeUtf8_append, hfeed, ih, List.map_cons, List.flatten_cons]

/-- The written lines are read as the events. -/
theorem writeRecords_read (sha : Sha256) (events : List (JsonObject floats)) (eventId : ℕ) (previous : String) :
    ∃ texts terminal, writeRecords sha floats eventId previous (events.map JsonObject.members) =
        .ok (texts.map fun text => encodeUtf8 text ++ [10], terminal) ∧
      (∀ text ∈ texts, ∀ c ∈ text, isLineBoundary c = false) ∧
      readRecords sha floats eventId previous texts =
        .ok (events.map fun event => sortedMembers event.members, terminal) := by
  induction events generalizing eventId previous with
  | nil => exact ⟨[], previous, rfl, by simp, rfl⟩
  | cons event events ih =>
      have hunsigned : (Json.obj (unsignedRecord (.int eventId) (.str previous) event.members)).Reprs floats :=
        unsignedRecord_reprs trivial trivial event.reprs
      obtain ⟨texts, terminal, hwrite, hlines, hread⟩ :=
        ih (eventId + 1) (recordDigest sha (.int eventId) (.str previous) event.members)
      have haccepted := (accepted_signed sha eventId previous event).readRecord
      have hdigest : recordDigest sha (.int eventId) (.str previous) (sortedMembers event.members) =
          recordDigest sha (.int eventId) (.str previous) event.members := by
        rw [recordDigest, unsignedRecord_sorted, recordDigest]
      rw [hdigest] at haccepted
      have hsigned := signedRecord_wellFormed eventId previous
        (recordDigest sha (.int eventId) (.str previous) event.members) event
      refine ⟨recordText (.obj (signedRecord eventId previous
        (recordDigest sha (.int eventId) (.str previous) event.members) event.members)) :: texts, terminal,
        ?_, ?_, ?_⟩
      · have hline := canonicalJson_eq (signedRecord_reprs eventId previous
          (recordDigest sha (.int eventId) (.str previous) event.members) event)
        rw [canonicalJsonBytes_text] at hline
        unfold recordDigest at hwrite hline
        rw [List.map_cons, writeRecords, canonicalJson_eq hunsigned]
        simp only [bind, Except.bind]
        unfold signedRecord at hline
        rw [hline, hwrite]
        rfl
      · rw [List.forall_mem_cons]
        exact ⟨recordText_lines hsigned, hlines⟩
      · rw [readRecords, haccepted]
        simp only [bind, Except.bind]
        rw [hread]
        rfl

/-! ### The sidecar -/

/-- No character of the name is white space. -/
def NoWhitespace (name : String) : Prop := ∀ c ∈ name.toList, isWhitespace c = false

instance (name : String) : Decidable (NoWhitespace name) := List.decidableBAll _ _

theorem words_digest {digest : String} (h : IsSha256 digest) : words digest.toList = [digest.toList] := by
  rw [words_eq_self_iff]
  constructor
  · intro hempty
    have hlength : digest.toList.length = 64 := h.1
    rw [hempty] at hlength
    cases hlength
  · intro c hc
    have hdigits : hexDigits.all (fun digit => !isWhitespace digit) = true := by decide
    have hdigit := List.all_eq_true.mp hdigits c (h.2 c hc)
    rwa [Bool.not_eq_true'] at hdigit

theorem words_sidecarText (path : ArtifactPath) {digest : String} (h : IsSha256 digest) :
    words (sidecarText path digest) = digest.toList :: words path.name.toList := by
  have hgap : words (' ' :: (path.name.toList ++ ['\n'])) = words [] ++ words (path.name.toList ++ ['\n']) :=
    words_append_space [] _ (by decide)
  rw [sidecarText, words_append_space _ _ (by decide), hgap, words_append_space _ _ (by decide), words_digest h]
  simp [words]

theorem name_ne_nil (path : ArtifactPath) : path.name.toList ≠ [] := by
  intro hempty
  have hname := path.isName.1
  rw [String.toList_eq_nil_iff.mp hempty] at hname
  simp at hname

/-- The sidecar is accepted exactly when the name is its only word. -/
theorem sidecarFields_iff (path : ArtifactPath) {digest : String} (h : IsSha256 digest) :
    sidecarFields (encodeUtf8 (sidecarText path digest)) = .ok [digest.toList, path.name.toList] ↔
      NoWhitespace path.name := by
  rw [sidecarFields, decodeUtf8_encodeUtf8]
  simp only [words_sidecarText path h, Except.ok.injEq, List.cons.injEq, true_and]
  rw [words_eq_self_iff, NoWhitespace]
  exact ⟨fun hname => hname.2, fun hname => ⟨name_ne_nil path, hname⟩⟩

/-- The directory after both files are written. -/
def withStream (sha : Sha256) (path : ArtifactPath) (data : Bytes) (directory : Directory) : Directory :=
  directory ++ [(path.name, .file data)] ++
    [(path.sidecarName, .file (encodeUtf8 (sidecarText path (sha.hexdigest data))))]

theorem sidecarName_ne (path : ArtifactPath) : path.sidecarName ≠ path.name := by
  intro hsame
  have hlength := congrArg String.length hsame
  rw [ArtifactPath.sidecarName, String.length_append] at hlength
  have hsuffix : ".sha256".length = 7 := by decide
  omega

theorem withStream_file (sha : Sha256) {path : ArtifactPath} (data : Bytes) {directory : Directory}
    (h : path.name ∉ directory.names) :
    (withStream sha path data directory).lookup path.name = some (.file data) := by
  rw [withStream, Directory.lookup_snoc, Directory.lookup_snoc, Directory.lookup_eq_none_iff.mpr h, if_pos rfl]
  rfl

theorem withStream_sidecar (sha : Sha256) {path : ArtifactPath} (data : Bytes) {directory : Directory}
    (h : path.sidecarName ∉ directory.names) :
    (withStream sha path data directory).lookup path.sidecarName =
      some (.file (encodeUtf8 (sidecarText path (sha.hexdigest data)))) := by
  rw [withStream, Directory.lookup_snoc, Directory.lookup_snoc, Directory.lookup_eq_none_iff.mpr h,
    if_neg (sidecarName_ne path), if_pos rfl]
  rfl

theorem names_snoc (directory : Directory) (name : String) (node : FsNode) :
    (directory ++ [(name, node)]).names = directory.names ++ [name] := by
  rw [Directory.names, List.map_append]
  rfl

/-- What a write that returns has done. -/
structure Written (sha : Sha256) (floats : FloatConversion) (path : ArtifactPath) (events : List (JsonObject floats))
    (directory : Directory) (digest terminal : String) (after : Directory) (texts : List (List Char)) : Prop where
  lines : ∀ text ∈ texts, ∀ c ∈ text, isLineBoundary c = false
  read : readRecords sha floats 0 genesis texts = .ok (events.map fun event => sortedMembers event.members, terminal)
  name : path.name ∉ directory.names
  sidecarName : path.sidecarName ∉ directory.names
  digest : digest = sha.hexdigest (encodeUtf8 (texts.flatMap fun text => text ++ ['\n']))
  after : after = withStream sha path (encodeUtf8 (texts.flatMap fun text => text ++ ['\n'])) directory

theorem written_of_ok {path : ArtifactPath} {events : List (JsonObject floats)} {directory after : Directory}
    {digest terminal : String}
    (h : writeEventStream sha floats path (events.map JsonObject.members) directory =
      (.ok (digest, terminal), after)) :
    ∃ texts, Written sha floats path events directory digest terminal after texts := by
  obtain ⟨texts, last, hwrite, hlines, hread⟩ := writeRecords_read sha events 0 genesis
  unfold writeEventStream at h
  rw [hwrite] at h
  simp only [← encodeUtf8_lines] at h
  by_cases hname : path.name ∈ directory.names
  · rw [writeExclusive, if_pos hname] at h
    cases h
  · rw [writeExclusive, if_neg hname] at h
    simp only [writeSidecar] at h
    by_cases hsidecar : path.sidecarName ∈ directory.names
    · rw [writeExclusive, if_pos] at h
      · cases h
      · rw [names_snoc, List.mem_append]
        exact .inl hsidecar
    · rw [writeExclusive, if_neg] at h
      · obtain ⟨hresult, hafter⟩ := Prod.mk.inj h
        obtain ⟨hdigest, hterminal⟩ := Prod.mk.inj (Except.ok.inj hresult)
        rw [← hterminal]
        exact ⟨texts, hlines, hread, hname, hsidecar, hdigest.symm, hafter.symm⟩
      · rw [names_snoc, List.mem_append, List.mem_singleton, not_or]
        exact ⟨hsidecar, sidecarName_ne path⟩

/-- Free names are written to. -/
theorem writeEventStream_free (sha : Sha256) (path : ArtifactPath) (events : List (JsonObject floats))
    (directory : Directory) (hname : path.name ∉ directory.names) (hsidecar : path.sidecarName ∉ directory.names) :
    ∃ digest terminal after, writeEventStream sha floats path (events.map JsonObject.members) directory =
      (.ok (digest, terminal), after) := by
  obtain ⟨texts, last, hwrite, -, -⟩ := writeRecords_read sha events 0 genesis
  unfold writeEventStream
  rw [hwrite]
  simp only [← encodeUtf8_lines]
  have hfree : path.sidecarName ∉ (directory ++ [(path.name,
      FsNode.file (encodeUtf8 (texts.flatMap fun text => text ++ ['\n'])))]).names := by
    rw [names_snoc, List.mem_append, List.mem_singleton, not_or]
    exact ⟨hsidecar, sidecarName_ne path⟩
  rw [writeExclusive, if_neg hname]
  simp only [writeSidecar]
  rw [writeExclusive, if_neg hfree]
  exact ⟨_, _, _, rfl⟩

theorem Written.readLines_iff {path : ArtifactPath} {events : List (JsonObject floats)}
    {directory after : Directory} {digest terminal : String} {texts : List (List Char)}
    (h : Written sha floats path events directory digest terminal after texts) :
    (NoWhitespace path.name → readLines sha path after = .ok texts) ∧
      (¬ NoWhitespace path.name →
        readLines sha path after = .error (.valueError ("signed sidecar differs for " ++ path.name))) := by
  have hdecode := decodeUtf8_encodeUtf8 (texts.flatMap fun text => text ++ ['\n'])
  have hsplit := splitlines_lines h.lines
  have hafter := h.after
  generalize texts.flatMap (fun text => text ++ ['\n']) = text at hdecode hsplit hafter
  have hfile := withStream_file sha (encodeUtf8 text) h.name
  have hsidecar := withStream_sidecar sha (encodeUtf8 text) h.sidecarName
  have hfields := sidecarFields_iff path (sha.isSha256 (encodeUtf8 text))
  rw [← hafter] at hfile hsidecar
  constructor
  · intro hname
    rw [readLines, verifySidecar, hfile]
    simp only [hsidecar, hfields.mpr hname, bind, Except.bind, pure, Except.pure, ne_eq, not_true, if_false, hdecode,
      hsplit]
  · intro hname
    rw [readLines, verifySidecar, hfile]
    simp only [hsidecar]
    cases hread : sidecarFields (encodeUtf8 (sidecarText path (sha.hexdigest (encodeUtf8 text)))) with
    | error error =>
        rw [sidecarFields, decodeUtf8_encodeUtf8] at hread
        cases hread
    | ok fields =>
        have hdiffers : fields ≠ [(sha.hexdigest (encodeUtf8 text)).toList, path.name.toList] := by
          intro hsame
          rw [hsame] at hread
          exact hname (hfields.mp hread)
        simp only [bind, Except.bind, if_pos hdiffers]

/-- What was written is read back exactly when the file's name has no white space. -/
theorem Written.readEventStream_iff {path : ArtifactPath} {events : List (JsonObject floats)}
    {directory after : Directory} {digest terminal : String} {texts : List (List Char)}
    (h : Written sha floats path events directory digest terminal after texts) (hne : events ≠ []) :
    (∃ read, readEventStream sha floats path after = .ok (read, terminal) ∧
      SameEvents read (events.map JsonObject.members)) ↔ NoWhitespace path.name := by
  constructor
  · intro hread
    by_contra hname
    obtain ⟨read, hread, -⟩ := hread
    rw [readEventStream, h.readLines_iff.2 hname] at hread
    cases hread
  · intro hname
    refine ⟨events.map fun event => sortedMembers event.members, ?_, ?_⟩
    · have hnonempty : (events.map fun event => sortedMembers event.members).isEmpty = false := by
        simpa using hne
      rw [readEventStream, h.readLines_iff.1 hname]
      simp only [bind, Except.bind, h.read, hnonempty]
      rfl
    · rw [SameEvents, List.forall₂_map_left_iff, List.forall₂_map_right_iff]
      exact List.forall₂_same.mpr fun event _ => sameDict_sorted event.members

/-! ### The chain -/

/-- The bytes that `read_event_stream` hashes for a line. -/
def hashedBytes (floats : FloatConversion) (line : List Char) : Option Bytes :=
  match loadsLine floats line with
  | .ok (.obj record) =>
      match record.lookup "event_id", record.lookup "previous_event_sha256", record.lookup "payload" with
      | some eventId, some prior, some (.obj payload) =>
          some (canonicalJsonBytes (.obj (unsignedRecord eventId prior payload)) false)
      | _, _, _ => none
  | _ => none

/-- The bytes that `read_event_stream` hashes for the records of a file. -/
def streamBytes (sha : Sha256) (floats : FloatConversion) (path : ArtifactPath) (directory : Directory) : List Bytes :=
  match readLines sha path directory with
  | .ok lines => lines.filterMap (hashedBytes floats)
  | .error _ => []

def canonicalRecord (eventId : Json) (previous : String) (payload : List (String × Json)) : Json :=
  (Json.obj (unsignedRecord eventId (.str previous) payload)).sortKeys

def payloadOf : Json → Option Json
  | .obj members => members.lookup "payload"
  | _ => none

theorem canonicalRecord_lookup (eventId : Json) (previous : String) (payload : List (String × Json)) (key : String) :
    (sortedBy Prod.fst (Json.sortMembers (unsignedRecord eventId (.str previous) payload))).lookup key =
      ((unsignedRecord eventId (.str previous) payload).lookup key).map Json.sortKeys :=
  Json.lookup_sorted (by simp [unsignedRecord]) key

theorem payloadOf_canonicalRecord (eventId : Json) (previous : String) (payload : List (String × Json)) :
    payloadOf (canonicalRecord eventId previous payload) = some (Json.obj payload).sortKeys :=
  canonicalRecord_lookup eventId previous payload "payload"

theorem canonicalRecord_inj {first second : Json} {previous prior : String} {payload other : List (String × Json)}
    (h : canonicalRecord first previous payload = canonicalRecord second prior other) :
    first.sortKeys = second.sortKeys ∧ previous = prior := by
  have hmembers := Json.obj.inj h
  have hid := canonicalRecord_lookup first previous payload "event_id"
  have hprevious := canonicalRecord_lookup first previous payload "previous_event_sha256"
  rw [hmembers, canonicalRecord_lookup] at hid hprevious
  exact ⟨(Option.some.inj hid).symm, (Json.str.inj (Option.some.inj hprevious)).symm⟩

/-- A value equals one index. -/
theorem isEventId_unique {index other : ℕ} {first second : Json} (hfirst : isEventId floats index first = true)
    (hsecond : isEventId floats other second = true) (hsame : first.sortKeys = second.sortKeys) : index = other := by
  cases first with
  | int value =>
      cases second with
      | int stored =>
          simp only [isEventId, decide_eq_true_eq] at hfirst hsecond
          have hvalue := Json.int.inj hsame
          omega
      | null | bool | float | str | arr | obj => cases hsame
  | bool value =>
      cases second with
      | bool stored =>
          simp only [isEventId, decide_eq_true_eq] at hfirst hsecond
          rw [← hfirst, ← hsecond, Json.bool.inj hsame]
      | null | int | float | str | arr | obj => cases hsame
  | float literal =>
      cases second with
      | float stored =>
          simp only [isEventId, decide_eq_true_eq] at hfirst hsecond
          rw [Json.float.inj hsame, hsecond] at hfirst
          have hvalue := Option.some.inj hfirst
          omega
      | null | bool | int | str | arr | obj => cases hsame
  | null | str | arr | obj => cases hfirst

/-- The record with this canonical value stands at the index, after the digest. -/
def Follows (floats : FloatConversion) (record : Json) (index : ℕ) (previous : String) : Prop :=
  ∃ eventId payload, isEventId floats index eventId = true ∧ record = canonicalRecord eventId previous payload

theorem follows_anchored : Anchored (Follows floats) := by
  intro record index previous other before hfirst hsecond
  obtain ⟨eventId, payload, hindexed, hrecord⟩ := hfirst
  obtain ⟨second, stored, hother, hsame⟩ := hsecond
  obtain ⟨hid, hprevious⟩ := canonicalRecord_inj (hrecord.symm.trans hsame)
  exact ⟨isEventId_unique hindexed hother hid, hprevious⟩

/-- The digest of a canonical value. -/
def valueDigest (sha : Sha256) (record : Json) : String := sha.hexdigest (canonicalJsonBytes record false)

theorem valueDigest_canonicalRecord (sha : Sha256) (eventId : Json) (previous : String)
    (payload : List (String × Json)) :
    valueDigest sha (canonicalRecord eventId previous payload) = recordDigest sha eventId (.str previous) payload := by
  rw [valueDigest, canonicalRecord, canonicalJsonBytes_sortKeys, recordDigest]

abbrev StreamChain (sha : Sha256) (floats : FloatConversion) : List Json → String → Prop :=
  Chained (valueDigest sha) genesis (Follows floats)

theorem loadsLine_wellFormed {line : List Char} {value : Json} (h : loadsLine floats line = .ok value) :
    value.WellFormed := by
  unfold loadsLine at h
  cases hload : Json.loads line with
  | none =>
      rw [hload] at h
      cases h
  | some read =>
      rw [hload] at h
      rw [← Except.ok.inj h]
      exact Json.WellFormed.convert read (Json.loads_wellFormed hload)

theorem wellFormed_of_lookup {members : List (String × Json)} (h : (Json.obj members).WellFormed) {key : String}
    {value : Json} (hlookup : members.lookup key = some value) : value.WellFormed :=
  (Json.wellFormedMembers_iff members).mp h.2 _ ((lookup_eq_some_iff_mem h.1).mp hlookup)

theorem Accepted.canonical {expectedId : ℕ} {previous : String} {line : List Char} {eventId : Json}
    {payload : List (String × Json)} (h : Accepted sha floats expectedId previous line eventId payload) :
    (canonicalRecord eventId previous payload).WellFormed ∧
      hashedBytes floats line = some (canonicalJsonBytes (canonicalRecord eventId previous payload) false) := by
  obtain ⟨record, hload, hid, hprior, hpayload, -⟩ := h.loads
  have hwellFormed := loadsLine_wellFormed hload
  constructor
  · exact Json.WellFormed.sortKeys _ (unsignedRecord_wellFormed (wellFormed_of_lookup hwellFormed hid) trivial
      (wellFormed_of_lookup hwellFormed hpayload))
  · rw [hashedBytes, hload]
    simp only [hid, hprior, hpayload]
    rw [canonicalRecord, canonicalJsonBytes_sortKeys]

/-- Reading on extends the chain by the records of the lines. -/
theorem readRecords_chained {lines : List (List Char)} {before : List Json} {previous terminal : String}
    {events : List (List (String × Json))} (hbefore : StreamChain sha floats before previous)
    (h : readRecords sha floats before.length previous lines = .ok (events, terminal)) :
    ∃ records, StreamChain sha floats (before ++ records) terminal ∧
      records.map payloadOf = events.map (fun event => some (Json.obj event).sortKeys) ∧
      ∀ record ∈ records, record.WellFormed ∧ record.sortKeys = record ∧
        canonicalJsonBytes record false ∈ lines.filterMap (hashedBytes floats) := by
  induction lines generalizing before previous events with
  | nil =>
      obtain ⟨hevents, hterminal⟩ := Prod.mk.inj (Except.ok.inj h)
      refine ⟨[], ?_, by rw [← hevents]; rfl, by simp⟩
      rw [List.append_nil, ← hterminal]
      exact hbefore
  | cons line lines ih =>
      rw [readRecords] at h
      cases hread : readRecord sha floats before.length previous line with
      | error error =>
          rw [hread] at h
          cases h
      | ok read =>
          obtain ⟨payload, actual⟩ := read
          obtain ⟨eventId, haccepted, hactual⟩ := readRecord_accepted hread
          obtain ⟨hwellFormed, hhashed⟩ := haccepted.canonical
          rw [hread] at h
          simp only [bind, Except.bind] at h
          cases hlater : readRecords sha floats (before.length + 1) actual lines with
          | error error =>
              rw [hlater] at h
              cases h
          | ok later =>
              obtain ⟨rest, last⟩ := later
              rw [hlater] at h
              simp only at h
              obtain ⟨hevents, hterminal⟩ := Prod.mk.inj (Except.ok.inj h)
              rw [hterminal] at hlater
              have hnext := hbefore.snoc ⟨eventId, payload, haccepted.indexed, rfl⟩
              rw [valueDigest_canonicalRecord, ← hactual] at hnext
              obtain ⟨records, hchain, hpayloads, hrecords⟩ :=
                ih hnext (by rw [List.length_append]; exact hlater)
              refine ⟨canonicalRecord eventId previous payload :: records, ?_, ?_, ?_⟩
              · rw [← List.singleton_append, ← List.append_assoc]
                exact hchain
              · rw [← hevents, List.map_cons, List.map_cons, payloadOf_canonicalRecord, hpayloads]
              · rw [List.forall_mem_cons, List.filterMap_cons_some hhashed]
                refine ⟨⟨hwellFormed, Json.sortKeys_sortKeys _, List.mem_cons_self⟩, ?_⟩
                intro record hrecord
                obtain ⟨hrecordFormed, hsorted, hmem⟩ := hrecords record hrecord
                exact ⟨hrecordFormed, hsorted, List.mem_cons_of_mem _ hmem⟩

/-- The chain of an accepted file. -/
theorem readEventStream_chained {path : ArtifactPath} {directory : Directory} {terminal : String}
    {events : List (List (String × Json))}
    (h : readEventStream sha floats path directory = .ok (events, terminal)) :
    ∃ records, records ≠ [] ∧ StreamChain sha floats records terminal ∧
      records.map payloadOf = events.map (fun event => some (Json.obj event).sortKeys) ∧
      ∀ record ∈ records, record.WellFormed ∧ record.sortKeys = record ∧
        canonicalJsonBytes record false ∈ streamBytes sha floats path directory := by
  unfold readEventStream at h
  cases hlines : readLines sha path directory with
  | error error =>
      rw [hlines] at h
      cases h
  | ok lines =>
      rw [hlines] at h
      simp only [bind, Except.bind] at h
      cases hread : readRecords sha floats 0 genesis lines with
      | error error =>
          rw [hread] at h
          cases h
      | ok read =>
          obtain ⟨stored, last⟩ := read
          rw [hread] at h
          simp only at h
          by_cases hempty : stored.isEmpty = true
          · rw [if_pos hempty] at h
            cases h
          · rw [if_neg hempty] at h
            obtain ⟨hevents, hterminal⟩ := Prod.mk.inj (Except.ok.inj h)
            rw [hevents, hterminal] at hread
            rw [hevents] at hempty
            obtain ⟨records, hchain, hpayloads, hrecords⟩ := @readRecords_chained _ _ _ [] _ _ _ .nil hread
            refine ⟨records, ?_, hchain, hpayloads, ?_⟩
            · intro hnil
              rw [hnil] at hpayloads
              rw [List.map_nil, eq_comm, List.map_eq_nil_iff] at hpayloads
              exact hempty (by rw [hpayloads]; rfl)
            · rw [streamBytes, hlines]
              exact hrecords

/-- The last digest determines the events. -/
theorem sameEvents_of_terminal {first second : ArtifactPath} {here there : Directory} {terminal : String}
    {events others : List (List (String × Json))}
    (hfirst : readEventStream sha floats first here = .ok (events, terminal))
    (hsecond : readEventStream sha floats second there = .ok (others, terminal))
    (hinjective : ∀ left ∈ streamBytes sha floats first here, ∀ right ∈ streamBytes sha floats second there,
      sha.hexdigest left = sha.hexdigest right → left = right) : SameEvents events others := by
  obtain ⟨records, hne, hchain, hpayloads, hrecords⟩ := readEventStream_chained hfirst
  obtain ⟨stored, hother, hstored, hvalues, hmem⟩ := readEventStream_chained hsecond
  have hsame : records = stored := by
    apply hchain.eq_of_digest follows_anchored hstored hne hother
    intro left hleft right hright hdigest
    obtain ⟨hleftFormed, hleftSorted, hleftBytes⟩ := hrecords left hleft
    obtain ⟨hrightFormed, hrightSorted, hrightBytes⟩ := hmem right hright
    have hbytes := hinjective _ hleftBytes _ hrightBytes hdigest
    have hsorted := sortKeys_eq_of_canonical hleftFormed hrightFormed hbytes
    rw [hleftSorted, hrightSorted] at hsorted
    exact hsorted
  rw [hsame, hvalues] at hpayloads
  have hpairs : List.Forall₂ Eq (events.map fun event => some (Json.obj event).sortKeys)
      (others.map fun event => some (Json.obj event).sortKeys) := by
    rw [List.forall₂_eq_eq_eq]
    exact hpayloads.symm
  rw [List.forall₂_map_left_iff, List.forall₂_map_right_iff] at hpairs
  exact hpairs.imp fun _ _ heq => Option.some.inj heq

theorem readRecords_length {lines : List (List Char)} {expectedId : ℕ} {previous terminal : String}
    {events : List (List (String × Json))}
    (h : readRecords sha floats expectedId previous lines = .ok (events, terminal)) : events.length = lines.length := by
  induction lines generalizing expectedId previous events with
  | nil =>
      rw [← (Prod.mk.inj (Except.ok.inj h)).1]
      rfl
  | cons line lines ih =>
      rw [readRecords] at h
      cases hread : readRecord sha floats expectedId previous line with
      | error error =>
          rw [hread] at h
          cases h
      | ok read =>
          rw [hread] at h
          simp only [bind, Except.bind] at h
          cases hlater : readRecords sha floats (expectedId + 1) read.2 lines with
          | error error =>
              rw [hlater] at h
              cases h
          | ok later =>
              obtain ⟨rest, last⟩ := later
              rw [hlater] at h
              simp only at h
              obtain ⟨hevents, hterminal⟩ := Prod.mk.inj (Except.ok.inj h)
              rw [hterminal] at hlater
              rw [← hevents, List.length_cons, List.length_cons, ih hlater]

/-! ### One empty event -/

def unsignedDigest : String := "b20c773a7edbf2464df1ed6c3704eb7137a0287f9223d7e7fe10c1d2248662d9"

def fileDigest : String := "0bf97ee84ce0482f488632dcfe2e9fdda3f936be0a5c77a2b076713b5dcad7ba"

/-- SHA-256 on the texts that are hashed below. -/
def streamDigest (data : Bytes) : String :=
  if data = encodeUtf8 (recordText (.obj (unsignedRecord (.int 0) (.str genesis) []))) then unsignedDigest
  else if data = encodeUtf8 (recordText (.obj (signedRecord 0 genesis unsignedDigest [])) ++ ['\n']) then fileDigest
  else if data = encodeUtf8 (fileDigest.toList ++ "  events.jsonl\n".toList) then
    "4629f373784f1044af894cb5dfba2729801697de59dd99961e24fc4baa33f19d"
  else "29d4d0ee0c4324e2addfbb0e2638e4573485f6e4fc93b42505ec975a5be3cc9e"

def streamSha : Sha256 where
  hexdigest := streamDigest
  isSha256 data := by
    rw [streamDigest]
    split
    · exact isSha256_ofList rfl rfl
    · split
      · exact isSha256_ofList rfl rfl
      · split
        · exact isSha256_ofList rfl rfl
        · exact isSha256_ofList rfl rfl

/-- `float` on the literals of integers that are written with one zero after the point. -/
def streamFloats : FloatConversion where
  repr literal :=
    if literal.fraction = ['0'] ∧ literal.exponent = none ∧ literal.whole < 10 ^ 15 then some literal else none
  integral literal :=
    if literal.fraction = ['0'] ∧ literal.exponent = none then
      some (if literal.negative then -(literal.whole : Int) else literal.whole)
    else none
  repr_wellFormed {literal written} h := by
    by_cases hliteral : literal.fraction = ['0'] ∧ literal.exponent = none ∧ literal.whole < 10 ^ 15
    · rw [if_pos hliteral] at h
      rw [← Option.some.inj h]
      refine ⟨?_, ?_, ?_⟩
      · rw [hliteral.1]
        intro digit hdigit
        rw [List.mem_singleton.mp hdigit]
        rfl
      · intro negative digits hexponent
        rw [hliteral.2.1] at hexponent
        cases hexponent
      · rw [hliteral.1]
        simp
    · rw [if_neg hliteral] at h
      cases h

def emptyEvent : JsonObject streamFloats := ⟨[], ⟨List.nodup_nil, trivial⟩, trivial⟩

def plainPath : ArtifactPath := ⟨"run/", "/run/", "events.jsonl", by decide⟩

def spacedPath : ArtifactPath := ⟨"run/", "/run/", "my events.jsonl", by decide⟩

end TxnOpt.EventStream

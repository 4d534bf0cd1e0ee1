import TxnOpt.Evidence.CampaignStream
import TxnOpt.Evidence.Proof.EventStream
import TxnOpt.Lib.Fallible

/-!
# Two readers of one stream

Both readers accept the lines of a chain; they differ in the event ids that its digests are taken over, the
ones of the file or the numbers of the lines. A file tells them apart iff it is a chain of one kind with an
event id that is equal to the number of its line without being that integer.
-/

namespace TxnOpt.Level1CampaignCommon

open Archive EventStream

variable {sha : Sha256} {floats : FloatConversion}

/-- The event id that a digest is taken over: of the line number and the id in the file. -/
abbrev Reading := ℕ → Json → Json

/-- `codec.read_event_stream`. -/
def own : Reading := fun _ eventId => eventId

/-- `level1_campaign_common.read_event_stream`. -/
def counted : Reading := fun expectedId _ => .int expectedId

/-- The record of a line, with the digest of the given event id. -/
structure Signed (sha : Sha256) (floats : FloatConversion) (hashed : Json) (expectedId : ℕ) (previous : String)
    (line : List Char) (eventId : Json) (payload : List (String × Json)) : Prop where
  loads : ∃ record, loadsLine floats line = .ok (.obj record) ∧ record.lookup "event_id" = some eventId ∧
    record.lookup "previous_event_sha256" = some (.str previous) ∧ record.lookup "payload" = some (.obj payload) ∧
    record.lookup "event_sha256" = some (.str (recordDigest sha hashed (.str previous) payload))
  indexed : isEventId floats expectedId eventId = true
  finite : (Json.obj (unsignedRecord hashed (.str previous) payload)).isFinite floats = true

/-- The lines from `expectedId` on are a chain after `previous`. -/
inductive SignedLines (sha : Sha256) (floats : FloatConversion) (reading : Reading) :
    ℕ → String → List (List Char) → List (List (String × Json)) → Prop
  | nil {expectedId : ℕ} {previous : String} : SignedLines sha floats reading expectedId previous [] []
  | cons {expectedId : ℕ} {previous : String} {line : List Char} {lines : List (List Char)} {eventId : Json}
      {payload : List (String × Json)} {events : List (List (String × Json))} :
      Signed sha floats (reading expectedId eventId) expectedId previous line eventId payload →
      SignedLines sha floats reading (expectedId + 1)
        (recordDigest sha (reading expectedId eventId) (.str previous) payload) lines events →
      SignedLines sha floats reading expectedId previous (line :: lines) (payload :: events)

/-! ### What each reader accepts -/

theorem signed_iff_accepted {expectedId : ℕ} {previous : String} {line : List Char} {eventId : Json}
    {payload : List (String × Json)} :
    Signed sha floats eventId expectedId previous line eventId payload ↔
      Accepted sha floats expectedId previous line eventId payload :=
  ⟨fun h => ⟨h.loads, h.indexed, h.finite⟩, fun h => ⟨h.loads, h.indexed, h.finite⟩⟩

theorem codec_readRecords_iff {expectedId : ℕ} {previous : String} {lines : List (List Char)}
    {events : List (List (String × Json))} :
    (∃ terminal, EventStream.readRecords sha floats expectedId previous lines = .ok (events, terminal)) ↔
      SignedLines sha floats own expectedId previous lines events := by
  constructor
  · intro h
    obtain ⟨terminal, h⟩ := h
    induction lines generalizing expectedId previous events with
    | nil =>
        rw [← (Prod.mk.inj (Except.ok.inj h)).1]
        exact .nil
    | cons line lines ih =>
        rw [EventStream.readRecords] at h
        obtain ⟨read, hread, h⟩ := exists_of_bind_eq_ok h
        obtain ⟨rest, hrest, h⟩ := exists_of_bind_eq_ok h
        obtain ⟨eventId, haccepted, hactual⟩ := readRecord_accepted hread
        obtain ⟨hevents, hterminal⟩ := Prod.mk.inj (Except.ok.inj h)
        rw [← hevents]
        apply SignedLines.cons (signed_iff_accepted.mpr haccepted)
        apply ih
        rw [hactual] at hrest
        rw [← hterminal]
        exact hrest
  · intro h
    induction h with
    | nil => exact ⟨_, rfl⟩
    | cons hline _ ih =>
        obtain ⟨terminal, hrest⟩ := ih
        refine ⟨terminal, ?_⟩
        rw [EventStream.readRecords, (signed_iff_accepted.mp hline).readRecord]
        simp only [bind, Except.bind]
        rw [hrest]
        rfl

theorem object_eq_ok {value : Option Json} {label : String} {members : List (String × Json)}
    (h : object value label = .ok members) : value = some (.obj members) := by
  unfold object at h
  split at h
  · rw [Except.ok.inj h]
  · cases h

theorem readRecord_iff {path : ArtifactPath} {expectedId : ℕ} {previous actual : String} {line : List Char}
    {payload : List (String × Json)} :
    readRecord sha floats path expectedId previous line = .ok (payload, actual) ↔
      ∃ eventId, Signed sha floats (.int expectedId) expectedId previous line eventId payload ∧
        actual = recordDigest sha (.int expectedId) (.str previous) payload := by
  constructor
  · intro h
    unfold readRecord at h
    obtain ⟨raw, hraw, h⟩ := exists_of_bind_eq_ok h
    obtain ⟨record, hrecord, h⟩ := exists_of_bind_eq_ok h
    obtain ⟨stored, hstored, h⟩ := exists_of_bind_eq_ok h
    obtain ⟨data, hdata, h⟩ := exists_of_bind_eq_ok h
    have hraws := Option.some.inj (object_eq_ok hrecord)
    rw [hraws] at hraw
    by_cases hfinite : (Json.obj (unsignedRecord (.int expectedId) (.str previous) stored)).isFinite floats = true
    · rw [canonicalJson_finite hfinite] at hdata
      rw [← Except.ok.inj hdata] at h
      split at h
      · cases h
      · rename_i hchain
        rw [not_or, not_or, not_not, not_not, asStr?_eq_some, asStr?_eq_some] at hchain
        obtain ⟨hindexed, hprevious, hclaimed⟩ := hchain
        obtain ⟨hpayloads, hactual⟩ := Prod.mk.inj (Except.ok.inj h)
        rw [← hpayloads, ← hactual]
        cases hid : record.lookup "event_id" with
        | none =>
            rw [hid] at hindexed
            exact absurd rfl hindexed
        | some eventId =>
            rw [hid] at hindexed
            exact ⟨eventId, ⟨⟨record, hraw, hid, hprevious, object_eq_ok hstored, hclaimed⟩,
              by simpa using hindexed, hfinite⟩, rfl⟩
    · rw [canonicalJson, if_neg hfinite] at hdata
      cases hdata
  · intro h
    obtain ⟨eventId, hsigned, hactual⟩ := h
    obtain ⟨record, hload, hid, hprior, hpayload, hclaimed⟩ := hsigned.loads
    unfold readRecord
    rw [hload]
    simp only [bind, Except.bind, object, hpayload, canonicalJson_finite hsigned.finite, hid, hprior, hclaimed]
    rw [hactual]
    simp [hsigned.indexed, Json.asStr?, recordDigest, pure, Except.pure]

theorem readRecords_iff {path : ArtifactPath} {expectedId : ℕ} {previous : String} {lines : List (List Char)}
    {events : List (List (String × Json))} :
    readRecords sha floats path expectedId previous lines = .ok events ↔
      SignedLines sha floats counted expectedId previous lines events := by
  constructor
  · intro h
    induction lines generalizing expectedId previous events with
    | nil =>
        rw [← Except.ok.inj h]
        exact .nil
    | cons line lines ih =>
        rw [readRecords] at h
        obtain ⟨read, hread, h⟩ := exists_of_bind_eq_ok h
        obtain ⟨rest, hrest, h⟩ := exists_of_bind_eq_ok h
        obtain ⟨eventId, hsigned, hactual⟩ := readRecord_iff.mp hread
        rw [← Except.ok.inj h]
        apply @SignedLines.cons sha floats counted expectedId previous line lines eventId read.1 rest hsigned
        rw [hactual] at hrest
        exact ih hrest
  · intro h
    induction h with
    | nil => rfl
    | cons hline _ ih =>
        rw [readRecords, readRecord_iff.mpr ⟨_, hline, rfl⟩]
        simp only [bind, Except.bind]
        unfold counted at ih
        rw [ih]
        rfl

/-! ### Where the readers agree -/

/-- The event id of the record is an integer. -/
def IntegerId (floats : FloatConversion) (line : List Char) : Prop :=
  ∀ record, loadsLine floats line = .ok (.obj record) → ∃ value, record.lookup "event_id" = some (.int value)

/-- The record has the same digest with its own event id and with an equal integer only if it is one. -/
def Distinguished (sha : Sha256) (floats : FloatConversion) (line : List Char) : Prop :=
  ∀ record eventId previous payload expectedId, loadsLine floats line = .ok (.obj record) →
    record.lookup "event_id" = some eventId → record.lookup "previous_event_sha256" = some (.str previous) →
    record.lookup "payload" = some (.obj payload) → isEventId floats expectedId eventId = true →
    recordDigest sha eventId (.str previous) payload = recordDigest sha (.int expectedId) (.str previous) payload →
    eventId = .int expectedId

theorem Signed.eventId_eq {hashed eventId : Json} {expectedId : ℕ} {previous : String} {line : List Char}
    {payload : List (String × Json)} (h : Signed sha floats hashed expectedId previous line eventId payload)
    (hid : IntegerId floats line) : eventId = .int expectedId := by
  obtain ⟨record, hload, hlookup, _⟩ := h.loads
  obtain ⟨value, hvalue⟩ := hid record hload
  rw [hlookup] at hvalue
  have hindexed := h.indexed
  rw [Option.some.inj hvalue] at hindexed ⊢
  rw [isEventId, decide_eq_true_eq] at hindexed
  rw [hindexed]

/-- With integer event ids the reading does not matter. -/
theorem SignedLines.change {reading other : Reading} (hreading : ∀ id, reading id (.int id) = .int id)
    (hother : ∀ id, other id (.int id) = .int id) {expectedId : ℕ} {previous : String} {lines : List (List Char)}
    {events : List (List (String × Json))} (h : SignedLines sha floats reading expectedId previous lines events)
    (hids : ∀ line ∈ lines, IntegerId floats line) : SignedLines sha floats other expectedId previous lines events := by
  induction h with
  | nil => exact .nil
  | @cons expectedId previous line lines eventId payload events hline _ ih =>
      have hid := hline.eventId_eq (hids _ List.mem_cons_self)
      have hrest := ih (fun line hmem => hids line (List.mem_cons_of_mem _ hmem))
      have hsame : reading expectedId eventId = other expectedId eventId := by
        rw [hid, hreading, hother]
      rw [hsame] at hline hrest
      exact .cons hline hrest

/-- Lines that are a chain in both readings have integer event ids. -/
theorem SignedLines.integerIds {expectedId : ℕ} {previous : String} {lines : List (List Char)}
    {events others : List (List (String × Json))} (hown : SignedLines sha floats own expectedId previous lines events)
    (hcounted : SignedLines sha floats counted expectedId previous lines others)
    (hsha : ∀ line ∈ lines, Distinguished sha floats line) : ∀ line ∈ lines, IntegerId floats line := by
  induction hown generalizing others with
  | nil =>
      intro line hline
      cases hline
  | @cons expectedId previous line lines eventId payload events hline _ ih =>
      cases hcounted with
      | @cons _ _ _ _ otherId otherPayload others hother hrest =>
          obtain ⟨record, hload, hid, hprior, hpayload, hclaimed⟩ := hline.loads
          obtain ⟨again, hagain, hotherId, _, hotherPayload, hotherClaimed⟩ := hother.loads
          rw [hload] at hagain
          have hrecord : again = record := by
            rw [Except.ok.injEq, Json.obj.injEq] at hagain
            exact hagain.symm
          rw [hrecord] at hotherId hotherPayload hotherClaimed
          rw [hpayload, Option.some.injEq, Json.obj.injEq] at hotherPayload
          rw [← hotherPayload] at hotherClaimed hrest
          rw [hclaimed, Option.some.injEq, Json.str.injEq] at hotherClaimed
          have hsame : eventId = .int expectedId := hsha line List.mem_cons_self record eventId previous payload
            expectedId hload hid hprior hpayload hline.indexed hotherClaimed
          rw [List.forall_mem_cons]
          constructor
          · intro loaded hloaded
            rw [hload, Except.ok.injEq, Json.obj.injEq] at hloaded
            rw [← hloaded, hid, hsame]
            exact ⟨expectedId, rfl⟩
          · rw [← hotherClaimed] at hrest
            exact ih hrest (fun line hmem => hsha line (List.mem_cons_of_mem _ hmem))

/-- The two readers accept the same events, or neither accepts. -/
def Agree (sha : Sha256) (floats : FloatConversion) (path : ArtifactPath) (directory : Directory) : Prop :=
  ∀ events, (∃ terminal, EventStream.readEventStream sha floats path directory = .ok (events, terminal)) ↔
    readEventStream sha floats path directory = .ok events

/-- The file is a chain in one of the readings. -/
def ChainFile (sha : Sha256) (floats : FloatConversion) (lines : List (List Char)) : Prop :=
  ∃ events, SignedLines sha floats own 0 genesis lines events ∨ SignedLines sha floats counted 0 genesis lines events

theorem codec_accepts_iff {path : ArtifactPath} {directory : Directory} {lines : List (List Char)}
    (hlines : readLines sha path directory = .ok lines) {events : List (List (String × Json))} :
    (∃ terminal, EventStream.readEventStream sha floats path directory = .ok (events, terminal)) ↔
      SignedLines sha floats own 0 genesis lines events ∧ events ≠ [] := by
  unfold EventStream.readEventStream
  rw [hlines, ← codec_readRecords_iff]
  constructor
  · intro h
    obtain ⟨terminal, h⟩ := h
    obtain ⟨given, hgiven, h⟩ := exists_of_bind_eq_ok h
    rw [← Except.ok.inj hgiven] at h
    obtain ⟨⟨found, last⟩, hread, h⟩ := exists_of_bind_eq_ok h
    simp only at h
    split at h
    · cases h
    · rename_i hempty
      obtain ⟨hevents, hterminal⟩ := Prod.mk.inj (Except.ok.inj h)
      rw [List.isEmpty_iff] at hempty
      rw [← hevents]
      exact ⟨⟨last, hread⟩, hempty⟩
  · intro h
    obtain ⟨⟨terminal, hread⟩, hne⟩ := h
    refine ⟨terminal, ?_⟩
    simp only [bind, Except.bind, hread]
    rw [if_neg (by rw [List.isEmpty_iff]; exact hne)]
    rfl

theorem campaign_accepts_iff {path : ArtifactPath} {directory : Directory} {lines : List (List Char)}
    (hlines : readLines sha path directory = .ok lines) {events : List (List (String × Json))} :
    readEventStream sha floats path directory = .ok events ↔
      SignedLines sha floats counted 0 genesis lines events ∧ events ≠ [] := by
  unfold readEventStream
  rw [hlines, ← @readRecords_iff sha floats path]
  constructor
  · intro h
    obtain ⟨given, hgiven, h⟩ := exists_of_bind_eq_ok h
    rw [← Except.ok.inj hgiven] at h
    obtain ⟨read, hread, h⟩ := exists_of_bind_eq_ok h
    split at h
    · cases h
    · rename_i hempty
      rw [List.isEmpty_iff] at hempty
      rw [← Except.ok.inj h]
      exact ⟨hread, hempty⟩
  · intro h
    simp only [bind, Except.bind, h.1]
    rw [if_neg (by rw [List.isEmpty_iff]; exact h.2)]
    rfl

theorem readLines_withStream {path : ArtifactPath} {directory : Directory} {texts : List (List Char)}
    (hlines : ∀ text ∈ texts, ∀ c ∈ text, isLineBoundary c = false) (hname : path.name ∉ directory.names)
    (hsidecarName : path.sidecarName ∉ directory.names) (hwhite : NoWhitespace path.name) :
    readLines sha path (withStream sha path (encodeUtf8 (texts.flatMap fun text => text ++ ['\n'])) directory) =
      .ok texts := by
  have hdecode := decodeUtf8_encodeUtf8 (texts.flatMap fun text => text ++ ['\n'])
  have hsplit := splitlines_lines hlines
  generalize texts.flatMap (fun text => text ++ ['\n']) = text at hdecode hsplit
  have hfile := withStream_file sha (encodeUtf8 text) hname
  have hsidecar := withStream_sidecar sha (encodeUtf8 text) hsidecarName
  have hfields := (sidecarFields_iff path (sha.isSha256 (encodeUtf8 text))).mpr hwhite
  rw [readLines, verifySidecar, hfile]
  simp only [hsidecar, hfields, bind, Except.bind, pure, Except.pure, ne_eq, not_true, if_false, hdecode, hsplit]

/-- The record of an empty event with the given id and digest. -/
def emptyRecord (eventId : Json) (digest : String) : Json :=
  .obj (unsignedRecord eventId (.str genesis) [] ++ [("event_sha256", .str digest)])

/-- An integer or boolean event id. -/
def PlainId (eventId : Json) : Prop := eventId.WellFormed ∧ ∀ floats, eventId.Reprs floats ∧ eventId.sortKeys = eventId

theorem emptyRecord_loads {eventId : Json} (h : PlainId eventId) (digest : String) :
    loadsLine floats (recordText (emptyRecord eventId digest)) =
      .ok (.obj (sortedMembers (unsignedRecord eventId (.str genesis) [] ++ [("event_sha256", .str digest)]))) := by
  apply loadsLine_recordText
  · exact ⟨by simp [unsignedRecord], h.1, trivial, ⟨List.nodup_nil, trivial⟩, trivial, trivial⟩
  · exact ⟨(h.2 floats).1, trivial, trivial, trivial, trivial⟩

theorem emptyRecord_lookup {eventId : Json} (h : PlainId eventId) (digest : String) :
    ∀ record, loadsLine floats (recordText (emptyRecord eventId digest)) = .ok (.obj record) →
      record.lookup "event_id" = some eventId ∧ record.lookup "previous_event_sha256" = some (.str genesis) ∧
        record.lookup "payload" = some (.obj []) ∧ record.lookup "event_sha256" = some (.str digest) := by
  intro record hload
  rw [emptyRecord_loads h, Except.ok.injEq, Json.obj.injEq] at hload
  have hnodup : ((unsignedRecord eventId (.str genesis) [] ++ [("event_sha256", Json.str digest)]).map
      Prod.fst).Nodup := by simp [unsignedRecord]
  rw [← hload, sortedMembers]
  refine ⟨?_, ?_, ?_, ?_⟩
  · rw [Json.lookup_sorted hnodup]
    exact congrArg some (h.2 floats).2
  · rw [Json.lookup_sorted hnodup]
    rfl
  · rw [Json.lookup_sorted hnodup]
    rfl
  · rw [Json.lookup_sorted hnodup]
    rfl

theorem emptyRecord_signed {eventId : Json} (h : PlainId eventId) (hindexed : isEventId floats 0 eventId = true) :
    SignedLines sha floats own 0 genesis
      [recordText (emptyRecord eventId (recordDigest sha eventId (.str genesis) []))] [[]] := by
  have hload := @emptyRecord_loads floats eventId h (recordDigest sha eventId (.str genesis) [])
  have hlookup := emptyRecord_lookup h _ _ hload
  refine @SignedLines.cons sha floats own 0 genesis _ [] eventId [] [] ?_ .nil
  · refine ⟨⟨_, hload, hlookup⟩, hindexed, ?_⟩
    exact Json.Reprs.isFinite _ (unsignedRecord_reprs (h.2 floats).1 trivial trivial)

/-- The files of one empty event, written with the given event id. -/
def emptyStream (sha : Sha256) (eventId : Json) (digest : String) : Directory :=
  withStream sha plainPath
    (encodeUtf8 ([recordText (emptyRecord eventId digest)].flatMap fun text => text ++ ['\n'])) []

theorem emptyStream_lines {eventId : Json} (h : PlainId eventId) (digest : String) :
    readLines sha plainPath (emptyStream sha eventId digest) = .ok [recordText (emptyRecord eventId digest)] := by
  apply readLines_withStream
  · intro text htext
    rw [List.mem_singleton.mp htext]
    apply recordText_lines
    exact ⟨by simp [unsignedRecord], h.1, trivial, ⟨List.nodup_nil, trivial⟩, trivial, trivial⟩
  · exact List.not_mem_nil
  · exact List.not_mem_nil
  · decide

def falseDigest : String := "5f1e7c74b0b4e36d0f23d31aa1175b2cd122161578edfab30263f2c8972cc8ee"

/-- SHA-256 on the texts of the record with `false` and with `0`. -/
def falseHexdigest (data : Bytes) : String :=
  if data = canonicalJsonBytes (.obj (unsignedRecord (.int 0) (.str genesis) [])) false then unsignedDigest
  else if data = canonicalJsonBytes (.obj (unsignedRecord (.bool false) (.str genesis) [])) false then falseDigest
  else "5f8d06fa5ea7c703562077adfc7528e17c77860a56f9bc4d09619cb59a97dee3"

def falseSha : Sha256 where
  hexdigest := falseHexdigest
  isSha256 data := by
    rw [falseHexdigest]
    split
    · exact isSha256_ofList rfl rfl
    · split
      · exact isSha256_ofList rfl rfl
      · exact isSha256_ofList rfl rfl

end TxnOpt.Level1CampaignCommon

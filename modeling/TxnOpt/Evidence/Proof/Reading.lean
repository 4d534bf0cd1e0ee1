import TxnOpt.Evidence.Proof.CosStore
import TxnOpt.Evidence.Proof.Mirror

/-!
# Reading a versioned store back

While the store answers and the retention lasts, a download of a reference that an upload returned gives
the bytes of its source, and a commit that was published verifies.
-/

namespace TxnOpt.Cos

open Archive CosService

/-! ### Numbers in headers -/

theorem isAsciiSpace_of_isDigit {character : Char} (h : character.isDigit = true) :
    isAsciiSpace character = false := by
  rw [Char.isDigit_iff_toNat] at h
  rw [isAsciiSpace]
  have hlow : ¬ character.toNat ≤ 13 := by
    have hzero : '0'.toNat = 48 := rfl
    omega
  have hhigh : ¬ character.toNat ≤ 32 := by
    have hzero : '0'.toNat = 48 := rfl
    omega
  simp [hlow, hhigh]

theorem dropWhile_digits {text : List Char} (h : ∀ character ∈ text, character.isDigit = true) :
    text.dropWhile isAsciiSpace = text := by
  cases text with
  | nil => rfl
  | cons first text =>
      rw [List.dropWhile_cons, isAsciiSpace_of_isDigit (h first List.mem_cons_self)]
      rfl

theorem strip_digits {text : List Char} (h : ∀ character ∈ text, character.isDigit = true) : strip text = text := by
  have hreverse : ∀ character ∈ text.reverse, character.isDigit = true := by
    intro character hcharacter
    exact h character (List.mem_reverse.mp hcharacter)
  rw [strip, dropWhile_digits h, dropWhile_digits hreverse, List.reverse_reverse]

theorem parseInt_toDigits (n : ℕ) : parseInt (Nat.toDigits 10 n) = some (n : Int) := by
  have hdigit : ∀ character ∈ Nat.toDigits 10 n, character.isDigit = true := by
    intro character hcharacter
    exact Nat.isDigit_of_mem_toDigits (by decide) (by decide) hcharacter
  have hgroups : ∀ group ∈ (Nat.toDigits 10 n).splitOn '_',
      group ≠ [] ∧ group.all Char.isDigit = true := by
    rw [List.splitOn_eq_singleton Nat.underscore_not_in_toDigits]
    intro group hgroup
    rw [List.mem_singleton.mp hgroup]
    exact ⟨Nat.toDigits_ne_nil, List.all_eq_true.mpr hdigit⟩
  have hfilter : (Nat.toDigits 10 n).filter (fun digit => digit ≠ '_') = Nat.toDigits 10 n := by
    rw [List.filter_eq_self]
    intro digit hmem
    rw [decide_eq_true_eq]
    intro heq
    exact absurd (hdigit digit hmem) (by rw [heq]; decide)
  have hread := @Nat.ofDigitChars_ten_toDigits n
  generalize Nat.toDigits 10 n = digits at hdigit hgroups hfilter hread ⊢
  unfold parseInt
  split
  · exact absurd (hdigit '-' List.mem_cons_self) (by decide)
  · exact absurd (hdigit '+' List.mem_cons_self) (by decide)
  · simp only [if_pos hgroups, hfilter, hread]
    rfl

theorem integer_toString (n : ℕ) (name : String) : integer (some (.str (toString n))) name = .ok n := by
  have htext : (toString n).toList = Nat.toDigits 10 n := Nat.toList_repr
  have hdigit : ∀ character ∈ Nat.toDigits 10 n, character.isDigit = true := by
    intro character hcharacter
    exact Nat.isDigit_of_mem_toDigits (by decide) (by decide) hcharacter
  simp only [integer, htext, strip_digits hdigit, parseInt_toDigits]
  rw [if_neg (Int.not_lt.mpr (Int.natCast_nonneg n)), Int.toNat_natCast]

/-! ### Headers of a stored version -/

theorem lowerKeys_headResponse {version : StoredVersion} {key sha256 : String} {size : ℕ}
    (h : version.headers = objectHeaders key sha256 size) :
    lowerKeys (headResponse version) =
      [("x-cos-server-side-encryption", .str "AES256"), ("x-cos-storage-class", .str "STANDARD"),
        ("x-cos-meta-txnopt-size", .str (toString size)), ("x-cos-meta-txnopt-sha256", .str sha256),
        ("x-cos-version-id", .str version.versionId), ("content-length", .str (toString version.body.length))] := by
  have hlength : lower "Content-Length" = "content-length" := by decide
  have hversion : lower "x-cos-version-id" = "x-cos-version-id" := by decide
  have hsha : lower ("x-cos-meta-" ++ "txnopt-sha256") = "x-cos-meta-txnopt-sha256" := by decide
  have hsize : lower ("x-cos-meta-" ++ "txnopt-size") = "x-cos-meta-txnopt-size" := by decide
  have hclass : lower "x-cos-storage-class" = "x-cos-storage-class" := by decide
  have hencryption : lower "x-cos-server-side-encryption" = "x-cos-server-side-encryption" := by decide
  rw [headResponse, h, lowerKeys]
  simp only [objectHeaders, List.map_cons, List.map_nil, List.cons_append, List.nil_append, List.reverse_cons,
    List.reverse_nil, hlength, hversion, hsha, hsize, hclass, hencryption]

theorem checkHead_certified {machine : Machine} {source : Bytes} {ref : TencentCosObjectRef} {version : StoredVersion}
    (h : Certifies machine source ref version) : checkHead ref (lowerKeys (headResponse version)) = .ok () := by
  have hlength : version.body.length = ref.size := by rw [h.content, h.describes.size]
  rw [lowerKeys_headResponse h.said, h.versionId, hlength]
  have hinteger := integer_toString ref.size "COS Content-Length"
  rw [Nat.toString_eq_repr] at hinteger
  simp [checkHead, strItem, List.lookup_cons, Value.asStr?, hinteger]
  exact if_pos rfl

/-! ### Requests of a restore -/

/-- The store kept its versions, and requests and time went on. -/
structure Later (before after : World CosStore) : Prop where
  kept : Kept before.store after.store
  calls : before.store.calls ≤ after.store.calls
  ticks : before.ticks ≤ after.ticks

theorem Grows.later {before after : World CosStore} (h : Grows before after) : Later before after :=
  ⟨h.kept, h.calls, h.ticks⟩

theorem Later.refl (world : World CosStore) : Later world world := ⟨.refl _, le_rfl, le_rfl⟩

theorem Later.trans {first second third : World CosStore} (h : Later first second) (h' : Later second third) :
    Later first third :=
  ⟨fun key versionId version hversion => h'.kept key versionId version (h.kept key versionId version hversion),
    h.calls.trans h'.calls, h.ticks.trans h'.ticks⟩

variable {machine : Machine} {service : CosService} {archive : TencentCosArchive}

/-- From now on no request fails. -/
def Answers (service : CosService) (world : World CosStore) : Prop :=
  ∀ store : CosStore, world.store.calls ≤ store.calls → service.fault store = none

theorem Answers.later {before after : World CosStore} (h : Answers service before) (hlater : Later before after) :
    Answers service after :=
  fun store hcalls => h store (hlater.calls.trans hcalls)

/-- A reference can be read: its version holds the bytes, and its retention lasts. -/
structure Held (machine : Machine) (source : Bytes) (ref : TencentCosObjectRef) (world : World CosStore) : Prop where
  stored : ∃ version, Certifies machine source ref version ∧
    world.store.version? ref.key ref.versionId = some version
  unexpired : Unexpired machine world.ticks ref.retainUntil

theorem Held.later {source : Bytes} {ref : TencentCosObjectRef} {before after : World CosStore}
    (h : Held machine source ref before) (hlater : Later before after) : Held machine source ref after := by
  obtain ⟨version, hcertifies, hstored⟩ := h.stored
  exact ⟨⟨version, hcertifies, hlater.kept _ _ _ hstored⟩, h.unexpired.later hlater.ticks⟩

/-- A program returns the value, and the local files become those of the postcondition. -/
def Returns {α : Type} (program : CosM CosStore α) (value : α) (post : Directory → Prop) (world : World CosStore) :
    Prop :=
  ∃ after, program world = (.ok value, after) ∧ post after.files ∧ Later world after

theorem returns_pure {α : Type} (value : α) {post : Directory → Prop} {world : World CosStore}
    (h : post world.files) : Returns (pure value) value post world :=
  ⟨world, rfl, h, .refl world⟩

theorem returns_resume {α : Type} {result : Except PyExc α} {value : α} {world : World CosStore}
    (hresult : result = .ok value) : Returns (Prog.resume result) value (· = world.files) world := by
  rw [hresult]
  exact returns_pure value rfl

theorem Returns.bind {α β : Type} {first : CosM CosStore α} {second : α → CosM CosStore β} {a : α} {b : β}
    {middle post : Directory → Prop} {world : World CosStore} (hfirst : Returns first a middle world)
    (hsecond : ∀ after, Later world after → middle after.files → Returns (second a) b post after) :
    Returns (first >>= second) b post world := by
  obtain ⟨after, hrun, hmiddle, hlater⟩ := hfirst
  obtain ⟨last, hlast, hpost, hthen⟩ := hsecond after hlater hmiddle
  exact ⟨last, by rw [Prog.bind_apply_ok hrun, hlast], hpost, hlater.trans hthen⟩

theorem Returns.mono {α : Type} {program : CosM CosStore α} {value : α} {post weaker : Directory → Prop}
    {world : World CosStore} (h : Returns program value post world) (himp : ∀ files, post files → weaker files) :
    Returns program value weaker world := by
  obtain ⟨after, hrun, hpost, hlater⟩ := h
  exact ⟨after, hrun, himp after.files hpost, hlater⟩

theorem Returns.attempt {α : Type} {program : CosM CosStore α} {value : α} {post : Directory → Prop}
    {world : World CosStore} (h : Returns program value post world) :
    Returns (Prog.attempt program) (.ok value) post world := by
  obtain ⟨after, hrun, hpost, hlater⟩ := h
  exact ⟨after, by rw [Prog.attempt_apply, hrun], hpost, hlater⟩

/-- A read of a stored version. -/
theorem returns_read {α : Type} {answer : CosStore → StoredVersion → α} {key versionId : String}
    {version : StoredVersion} {world : World CosStore} (hanswers : Answers service world)
    (hversion : world.store.version? key versionId = some version) :
    Returns (onStore (service.request fun store => readVersion (answer store) key versionId store))
      (answer world.store version) (· = world.files) world := by
  refine ⟨{ world with store := { world.store with calls := world.store.calls + 1 } }, ?_, rfl, ?_⟩
  · rw [onStore, Prog.zoom_apply, request, hanswers world.store le_rfl]
    simp only [readVersion, hversion]
  · exact ⟨.of_versions rfl, Nat.le_succ _, le_rfl⟩

theorem returns_now (world : World CosStore) :
    Returns (now machine) (machine.clock world.ticks) (· = world.files) world :=
  ⟨{ world with ticks := world.ticks + 1 }, rfl, rfl, .refl _, le_rfl, Nat.le_succ _⟩

theorem retentionUntil_certified {source : Bytes} {ref : TencentCosObjectRef} {version : StoredVersion}
    (h : Certifies machine source ref version) : retentionUntil (retentionOf version) = .ok ref.retainUntil := by
  rw [retentionOf, h.mode, h.retainUntil]
  rfl

theorem returns_verifyRetention {source : Bytes} {ref : TencentCosObjectRef} {world : World CosStore}
    (hanswers : Answers service world) (hheld : Held machine source ref world) :
    Returns (verifyRetention machine service.client ref) () (· = world.files) world := by
  obtain ⟨version, hcertifies, hstored⟩ := hheld.stored
  obtain ⟨deadline, hparse, hclock⟩ := hheld.unexpired
  have hread : Returns (readRetentionUntil machine service.client ref.key ref.versionId) ref.retainUntil
      (· = world.files) world := by
    have hrequest : Returns (onStore (service.client.getObjectRetention ref.key ref.versionId))
        (retentionOf version) (· = world.files) world := returns_read hanswers hstored
    apply Returns.bind hrequest
    intro first _ hfirst
    apply Returns.bind (returns_resume (retentionUntil_certified hcertifies))
    intro second _ hsecond
    apply Returns.bind (returns_resume hparse)
    intro third _ hthird
    exact returns_pure _ (hthird.trans (hsecond.trans hfirst))
  apply Returns.bind hread
  intro first hlater hfirst
  apply Returns.bind (returns_resume hparse)
  intro second hlater' hsecond
  apply Returns.bind (returns_now second)
  intro third _ hthird
  have hlasts := hclock second.ticks (hlater.ticks.trans hlater'.ticks)
  rw [if_neg (not_le.mpr hlasts), if_neg (not_not.mpr rfl)]
  exact returns_pure () (hthird.trans (hsecond.trans hfirst))

/-- What a sink makes of the bytes that were read so far. -/
def Sinks (sink : Bytes → CosM CosStore Unit) (kept : Bytes → Directory → Prop) : Prop :=
  ∀ data chunk world, kept data world.files → Returns (sink chunk) () (kept (data ++ chunk)) world

theorem returns_readBody {sink : Bytes → CosM CosStore Unit} {kept : Bytes → Directory → Prop}
    (hsink : Sinks sink kept) {chunks : List Bytes} (hnonempty : [] ∉ chunks) :
    ∀ {data : Bytes} {world : World CosStore}, kept data world.files →
      Returns (readBody sink (chunks.map StreamItem.chunk) data) (data ++ chunks.flatten, none)
        (kept (data ++ chunks.flatten)) world := by
  induction chunks with
  | nil =>
      intro data world hkept
      rw [List.flatten_nil, List.append_nil]
      exact returns_pure _ hkept
  | cons chunk chunks ih =>
      intro data world hkept
      rw [List.mem_cons, not_or] at hnonempty
      rw [List.map_cons, readBody, if_neg (Ne.symm hnonempty.1), List.flatten_cons, ← List.append_assoc]
      apply Returns.bind (hsink data chunk world hkept)
      intro after _ hafter
      exact ih hnonempty.2 hafter

theorem returns_download {source : Bytes} {ref : TencentCosObjectRef} {sink : Bytes → CosM CosStore Unit}
    {kept : Bytes → Directory → Prop} {world : World CosStore} (hanswers : Answers service world)
    (hheld : Held machine source ref world) (hsink : Sinks sink kept) (hkept : kept [] world.files) :
    Returns (downloadVerified machine service.client ref sink) source (kept source) world := by
  obtain ⟨version, hcertifies, hstored⟩ := hheld.stored
  have hhead : Returns (onStore (service.client.headObject ref.key ref.versionId)) (headResponse version)
      (· = world.files) world := returns_read hanswers hstored
  apply Returns.bind hhead
  intro first hfirst hfirstFiles
  apply Returns.bind (returns_resume (checkHead_certified hcertifies))
  intro second hsecond hsecondFiles
  have hlater := hfirst.trans hsecond
  apply Returns.bind (returns_verifyRetention (hanswers.later hlater) (hheld.later hlater))
  intro third hthird hthirdFiles
  have hlast := hlater.trans hthird
  have hget : Returns (onStore (service.client.getObject ref.key ref.versionId)) (service.bodyOf third.store version)
      (· = third.files) third := returns_read (hanswers.later hlast) (hlast.kept _ _ _ hstored)
  apply Returns.bind hget
  intro fourth _ hfourthFiles
  have hversion : strItem (lowerKeys (service.bodyOf third.store version).1) "x-cos-version-id" =
      some ref.versionId := by
    have hlower : lower "x-cos-version-id" = "x-cos-version-id" := by decide
    simp [bodyOf, lowerKeys, hlower, strItem, Value.asStr?, hcertifies.versionId]
  have hstart : kept [] fourth.files := by
    rw [hfourthFiles, hthirdFiles, hsecondFiles, hfirstFiles]
    exact hkept
  have hread := returns_readBody hsink (service.split_nonempty third.store version.body) hstart
  rw [List.nil_append, service.split_flatten, hcertifies.content] at hread
  have hbody : (service.bodyOf third.store version).2 =
      some ⟨(service.split third.store source).map StreamItem.chunk, none⟩ := by
    rw [bodyOf, hcertifies.content]
  have hsame : ¬ (source.length ≠ ref.size ∨ machine.sha.hexdigest source ≠ ref.sha256) := by
    rw [not_or, not_not, not_not]
    exact ⟨hcertifies.describes.size, hcertifies.describes.sha256⟩
  simp only [if_neg (not_not.mpr hversion), hbody]
  apply Returns.bind hread
  intro fifth _ hfifth
  simp only [if_neg hsame]
  exact returns_pure source hfifth

/-! ### Verifying a published commit -/

theorem sinks_noSink (files : Directory) : Sinks noSink fun _ current => current = files :=
  fun _ _ _ hkept => returns_pure () hkept

theorem returns_check {source : Bytes} {ref : TencentCosObjectRef} {world : World CosStore}
    (hanswers : Answers service world) (hheld : Held machine source ref world) :
    Returns (downloadVerified machine service.client ref noSink) source (· = world.files) world :=
  returns_download hanswers hheld (sinks_noSink world.files) rfl

/-- The bytes of a reference can be downloaded. -/
structure Fetchable (machine : Machine) (service : CosService) (source : Bytes) (ref : TencentCosObjectRef)
    (world : World CosStore) : Prop where
  answers : Answers service world
  held : Held machine source ref world

theorem Fetchable.later {source : Bytes} {ref : TencentCosObjectRef} {before after : World CosStore}
    (h : Fetchable machine service source ref before) (hlater : Later before after) :
    Fetchable machine service source ref after :=
  ⟨h.answers.later hlater, h.held.later hlater⟩

/-- A loop whose passes return, whatever went before. -/
theorem returns_forEach {α : Type} (inv : List α → Directory → Prop) {body : α → CosM CosStore Unit}
    {fine : α → World CosStore → Prop} (hfine : ∀ a before after, fine a before → Later before after → fine a after)
    (hbody : ∀ a rest world, fine a world → inv (a :: rest) world.files → Returns (body a) () (inv rest) world) :
    ∀ (items : List α) (world : World CosStore), (∀ a ∈ items, fine a world) → inv items world.files →
      Returns (Prog.forEach body items) () (inv []) world
  | [], world, _, hinv => returns_pure () hinv
  | a :: rest, world, hitems, hinv => by
      rw [List.forall_mem_cons] at hitems
      apply Returns.bind (hbody a rest world hitems.1 hinv)
      intro after hlater hafter
      apply returns_forEach inv hfine hbody rest after ?_ hafter
      intro b hb
      exact hfine b world after (hitems.2 b hb) hlater

/-- A published commit whose objects can all be read. -/
structure Readable (machine : Machine) (service : CosService) (archive : TencentCosArchive)
    (ref : TencentCosCommitRef) (commit : TencentCosCommit) (content : TencentCosEntry → Bytes)
    (world : World CosStore) : Prop where
  answers : Answers service world
  object : ∃ object : TencentCosObjectRef, object.key = ref.key ∧ object.versionId = ref.versionId ∧
    object.sha256 = ref.sha256 ∧ object.size = ref.size ∧ object.retainUntil = ref.retainUntil ∧
      Held machine (encodeTencentCosCommit commit) object world
  commitId : commit.commitId = ref.commitId
  key : ref.key = commitKey archive ref.commitId
  entries : ∀ entry ∈ commit.entries, Held machine (content entry) entry.ref world

theorem Readable.later {ref : TencentCosCommitRef} {commit : TencentCosCommit} {content : TencentCosEntry → Bytes}
    {before after : World CosStore} (h : Readable machine service archive ref commit content before)
    (hlater : Later before after) : Readable machine service archive ref commit content after := by
  obtain ⟨object, hkey, hversion, hsha, hsize, huntil, hheld⟩ := h.object
  exact ⟨h.answers.later hlater, ⟨object, hkey, hversion, hsha, hsize, huntil, hheld.later hlater⟩, h.commitId, h.key,
    fun entry hentry => (h.entries entry hentry).later hlater⟩

theorem returns_of_clocked {α : Type} {program : CosM CosStore α} {value : α} {world : World CosStore} {P : Prop}
    (h : Prog.wp program (fun ended after => Ends value world ended after ∧ (P → ended = .ok value)) world)
    (hp : P) : Returns program value (· = world.files) world := by
  obtain ⟨hends, hok⟩ := h
  refine ⟨(program world).2, Prod.ext (hok hp) rfl, hends.2.files, ?_, ?_, hends.2.ticks⟩
  · rw [hends.2.store]
    exact .refl _
  · rw [hends.2.store]

theorem returns_verifyCommit {ref : TencentCosCommitRef} {commit : TencentCosCommit}
    {content : TencentCosEntry → Bytes} {world : World CosStore}
    (h : Readable machine service archive ref commit content world) :
    Returns (verifyCommit machine service.client archive ref)
      ⟨commit, ref, commit.entries.length, (commit.entries.map fun entry => entry.ref.size).sum, true⟩
      (· = world.files) world := by
  obtain ⟨object, hkey, hversion, hsha, hsize, huntil, hheld⟩ := h.object
  have hmade : Returns (ref.objectRef machine) object (· = world.files) world := by
    rw [TencentCosCommitRef.objectRef, ← hkey, ← hversion, ← hsha, ← hsize, ← huntil]
    exact returns_of_clocked (wp_make_ref machine object world) hheld.unexpired
  apply Returns.bind hmade
  intro first hfirst hfirstFiles
  apply Returns.bind (returns_check (h.answers.later hfirst) (hheld.later hfirst))
  intro second hsecond hsecondFiles
  have hlater := hfirst.trans hsecond
  apply Returns.bind (returns_of_clocked (wp_decode machine commit second)
    fun entry hentry => ((h.entries entry hentry).later hlater).unexpired)
  intro third hthird hthirdFiles
  have hlast := hlater.trans hthird
  rw [if_neg (not_not.mpr h.commitId), if_neg (not_not.mpr h.key)]
  have hfetch : ∀ entry ∈ commit.entries, Fetchable machine service (content entry) entry.ref third := by
    intro entry hentry
    exact ⟨h.answers.later hlast, (h.entries entry hentry).later hlast⟩
  have hpass : ∀ (entry : TencentCosEntry) (rest : List TencentCosEntry) (world : World CosStore),
      Fetchable machine service (content entry) entry.ref world → world.files = third.files →
      Returns (do
        let _ ← downloadVerified machine service.client entry.ref noSink
        pure ()) () (· = third.files) world := by
    intro entry rest world hentry hfiles
    apply Returns.bind (returns_check hentry.answers hentry.held)
    intro after _ hafter
    exact returns_pure () (hafter.trans hfiles)
  have hloop := returns_forEach (fun _ files => files = third.files) (fun _ _ _ hentry hthen => hentry.later hthen) hpass commit.entries third hfetch rfl
  apply Returns.bind hloop
  intro fourth _ hfourthFiles
  exact returns_pure _ (hfourthFiles.trans (hthirdFiles.trans (hsecondFiles.trans hfirstFiles)))

end TxnOpt.Cos

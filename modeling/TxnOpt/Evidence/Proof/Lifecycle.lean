import TxnOpt.Evidence.Lifecycle
import TxnOpt.Evidence.Proof.EventStream
import TxnOpt.Evidence.Proof.Fields
import TxnOpt.Lib.Fallible
import TxnOpt.Lib.Histories

/-!
# Reading lifecycles

What `from_payload` accepts is the payload of a reachable lifecycle, up to ordinals that are equal to the
integers that were written.
-/

namespace TxnOpt.Lifecycle

open Cos (HasFields strField same_record_iff same_items_iff map_sortKeys_eq_scalar map_sortKeys_eq_str
  map_sortKeys_eq_arr)
open EventStream (genesis isEventId streamFloats)

variable {sha : Sha256} {floats : FloatConversion}

/-! ### Reachable lifecycles -/

/-- Started, and advanced any number of times. -/
inductive Reachable (sha : Sha256) : EvidenceLifecycle → Prop
  | start {runLabel evidenceSha256 : String} {lifecycle : EvidenceLifecycle} :
      EvidenceLifecycle.start sha runLabel evidenceSha256 = .ok lifecycle → Reachable sha lifecycle
  | advance {lifecycle next : EvidenceLifecycle} {state : EvidenceState} {evidenceSha256 : String} :
      Reachable sha lifecycle → lifecycle.advance sha state evidenceSha256 = .ok next → Reachable sha next

def IsSuccessor : Option EvidenceState → EvidenceState → Prop
  | none, state => state = .planned
  | some previous, state => state ∈ previous.transitions

def lastDigest (history : List LifecycleEvent) : String :=
  (history.getLast?.map LifecycleEvent.eventSha256).getD genesis

def lastState (history : List LifecycleEvent) : Option EvidenceState := history.getLast?.map LifecycleEvent.state

/-- The event can be appended to the history. -/
def Follows (sha : Sha256) (runLabel : String) (history : List LifecycleEvent) (next : LifecycleEvent) : Prop :=
  ∃ state evidenceSha256, IsSha256 evidenceSha256 ∧ IsSuccessor (lastState history) state ∧
    next = event sha runLabel history.length state evidenceSha256 (lastDigest history)

theorem lastDigest_snoc (history : List LifecycleEvent) (last : LifecycleEvent) :
    lastDigest (history ++ [last]) = last.eventSha256 := by
  simp [lastDigest]

theorem lastState_snoc (history : List LifecycleEvent) (last : LifecycleEvent) :
    lastState (history ++ [last]) = some last.state := by
  simp [lastState]

theorem length_snoc (history : List LifecycleEvent) (last : LifecycleEvent) :
    (history ++ [last]).length = history.length + 1 := by
  simp

theorem lastState_eq_none_iff {history : List LifecycleEvent} : lastState history = none ↔ history.length = 0 := by
  simp [lastState]

theorem validateRunLabel_ok_iff {runLabel : String} : validateRunLabel runLabel = .ok () ↔ IsRunLabel runLabel := by
  rw [validateRunLabel]
  by_cases h : IsRunLabel runLabel
  · simp [h]
  · simp [h]

theorem validateDigest_ok_iff {value name : String} : validateDigest value name = .ok () ↔ IsSha256 value := by
  rw [validateDigest]
  by_cases h : IsSha256 value
  · simp [h]
  · simp [h]

theorem start_ok_iff {runLabel evidenceSha256 : String} {lifecycle : EvidenceLifecycle} :
    EvidenceLifecycle.start sha runLabel evidenceSha256 = .ok lifecycle ↔
      IsRunLabel runLabel ∧ IsSha256 evidenceSha256 ∧
        lifecycle = ⟨runLabel, [event sha runLabel 0 .planned evidenceSha256 genesis]⟩ := by
  rw [EvidenceLifecycle.start]
  constructor
  · intro h
    obtain ⟨⟨⟩, hlabel, h⟩ := exists_of_bind_eq_ok h
    obtain ⟨⟨⟩, hdigest, h⟩ := exists_of_bind_eq_ok h
    exact ⟨validateRunLabel_ok_iff.mp hlabel, validateDigest_ok_iff.mp hdigest, (Except.ok.inj h).symm⟩
  · intro h
    obtain ⟨hlabel, hdigest, hlifecycle⟩ := h
    rw [validateRunLabel_ok_iff.mpr hlabel, validateDigest_ok_iff.mpr hdigest, hlifecycle]
    rfl

theorem advance_ok_iff {lifecycle next : EvidenceLifecycle} {state : EvidenceState} {evidenceSha256 : String} :
    lifecycle.advance sha state evidenceSha256 = .ok next ↔
      IsSha256 evidenceSha256 ∧ ∃ prior, lifecycle.events.getLast? = some prior ∧
        state ∈ prior.state.transitions ∧ next = ⟨lifecycle.runLabel, lifecycle.events ++
          [event sha lifecycle.runLabel lifecycle.events.length state evidenceSha256 prior.eventSha256]⟩ := by
  rw [EvidenceLifecycle.advance]
  constructor
  · intro h
    obtain ⟨⟨⟩, hdigest, h⟩ := exists_of_bind_eq_ok h
    refine ⟨validateDigest_ok_iff.mp hdigest, ?_⟩
    cases hlast : lifecycle.events.getLast? with
    | none =>
        rw [hlast] at h
        cases h
    | some prior =>
        rw [hlast] at h
        simp only at h
        by_cases hstate : state ∈ prior.state.transitions
        · rw [if_pos hstate] at h
          exact ⟨prior, rfl, hstate, (Except.ok.inj h).symm⟩
        · rw [if_neg hstate] at h
          cases h
  · intro h
    obtain ⟨hdigest, prior, hlast, hstate, hnext⟩ := h
    rw [validateDigest_ok_iff.mpr hdigest, hlast, hnext]
    exact if_pos hstate

theorem follows_snoc {lifecycle next : EvidenceLifecycle} {state : EvidenceState} {evidenceSha256 : String}
    (h : lifecycle.advance sha state evidenceSha256 = .ok next) :
    next.runLabel = lifecycle.runLabel ∧ ∃ last, next.events = lifecycle.events ++ [last] ∧
      Follows sha lifecycle.runLabel lifecycle.events last := by
  obtain ⟨hdigest, prior, hlast, hstate, hnext⟩ := advance_ok_iff.mp h
  rw [hnext]
  refine ⟨rfl, _, rfl, state, evidenceSha256, hdigest, ?_, ?_⟩
  · rw [lastState, hlast]
    exact hstate
  · rw [lastDigest, hlast]
    rfl

/-- The reachable lifecycles are the histories that grew event by event under a run label. -/
theorem reachable_iff {lifecycle : EvidenceLifecycle} :
    Reachable sha lifecycle ↔ IsRunLabel lifecycle.runLabel ∧ lifecycle.events ≠ [] ∧
      Grown (Follows sha lifecycle.runLabel) lifecycle.events := by
  constructor
  · intro h
    induction h with
    | start hstart =>
        obtain ⟨hlabel, hdigest, hlifecycle⟩ := start_ok_iff.mp hstart
        rw [hlifecycle]
        refine ⟨hlabel, List.cons_ne_nil _ _, ?_⟩
        exact .snoc .nil ⟨.planned, _, hdigest, rfl, rfl⟩
    | advance _ hadvance ih =>
        obtain ⟨hlabel, last, hevents, hfollows⟩ := follows_snoc hadvance
        rw [hlabel, hevents]
        exact ⟨ih.1, by simp, .snoc ih.2.2 hfollows⟩
  · intro h
    obtain ⟨hlabel, hne, hgrown⟩ := h
    obtain ⟨runLabel, events⟩ := lifecycle
    simp only at hlabel hne hgrown
    induction hgrown with
    | nil => exact absurd rfl hne
    | @snoc history last _ hfollows ih =>
        obtain ⟨state, evidenceSha256, hdigest, hsuccessor, hlast⟩ := hfollows
        cases hprior : history.getLast? with
        | none =>
            have hempty := List.getLast?_eq_none_iff.mp hprior
            rw [lastState, hprior] at hsuccessor
            apply Reachable.start
            rw [start_ok_iff]
            refine ⟨hlabel, hdigest, ?_⟩
            rw [hlast, lastDigest, hprior, hempty, hsuccessor]
            rfl
        | some prior =>
            have hhistory : history ≠ [] := by
              intro hempty
              rw [hempty] at hprior
              cases hprior
            rw [lastState, hprior] at hsuccessor
            apply Reachable.advance (ih hhistory)
            rw [advance_ok_iff]
            refine ⟨hdigest, prior, hprior, hsuccessor, ?_⟩
            rw [hlast, lastDigest, hprior]
            rfl

/-! ### Reading one event -/

theorem ofValue_eq_some {text : String} {state : EvidenceState} :
    EvidenceState.ofValue text = some state ↔ text = state.value := by
  rw [EvidenceState.ofValue]
  constructor
  · intro h
    have hfound := List.find?_some h
    exact (of_decide_eq_true hfound).symm
  · intro h
    rw [h]
    cases state <;> decide

theorem checkTransition_ok_iff {ordinal : ℕ} {previousState : Option EvidenceState} {state : EvidenceState}
    (hordinal : previousState = none ↔ ordinal = 0) :
    checkTransition ordinal previousState state = .ok () ↔ IsSuccessor previousState state := by
  rw [checkTransition]
  cases previousState with
  | none =>
      rw [if_pos (hordinal.mp rfl)]
      by_cases hstate : state = .planned
      · simp [hstate, IsSuccessor]
      · simp [hstate, IsSuccessor]
  | some previous =>
      have hpositive : ¬ ordinal = 0 := by
        intro hzero
        cases hordinal.mpr hzero
      rw [if_neg hpositive]
      by_cases hstate : state ∈ previous.transitions
      · simp [hstate, IsSuccessor]
      · simp [hstate, IsSuccessor]

theorem same_event_iff {members : List (String × Json)} {event : LifecycleEvent} {ordinal : Json}
    (hmembers : (members.map Prod.fst).Nodup) :
    Json.Same (.obj members) (event.payloadWith ordinal) ↔ HasFields members eventFields ∧
      (members.lookup "ordinal").map Json.sortKeys = some ordinal.sortKeys ∧
      strField members "state" = some event.state.value ∧
      strField members "evidence_sha256" = some event.evidenceSha256 ∧
      strField members "previous_event_sha256" = some event.previousEventSha256 ∧
      strField members "event_sha256" = some event.eventSha256 := by
  rw [LifecycleEvent.payloadWith, @same_record_iff members _ eventFields hmembers rfl (by decide)]
  simp only [← map_sortKeys_eq_str]
  simp [eventFields, List.lookup_cons]

theorem isEventId_sortKeys (ordinal : ℕ) (value : Json) :
    isEventId floats ordinal value.sortKeys = isEventId floats ordinal value := by
  cases value <;> rfl

theorem exists_of_any {value : Option Json} {p : Json → Bool} (h : value.any p = true) :
    ∃ stored, value = some stored ∧ p stored = true := by
  cases value with
  | none => cases h
  | some stored => exact ⟨stored, rfl, h⟩

/-- The value is the payload of the event, with an ordinal that is equal to the event's. -/
def Writes (floats : FloatConversion) (raw : Json) (event : LifecycleEvent) : Prop :=
  ∃ ordinal, isEventId floats event.ordinal ordinal = true ∧ Json.Same raw (event.payloadWith ordinal)

theorem readEvent_ok_iff {raw : Json} {runLabel previous : String} {ordinal : ℕ}
    {previousState : Option EvidenceState} {found : LifecycleEvent} (hraw : raw.WellFormed)
    (hordinal : previousState = none ↔ ordinal = 0) :
    readEvent sha floats runLabel ordinal previous previousState raw = .ok found ↔
      (∃ state evidenceSha256, IsSha256 evidenceSha256 ∧ IsSuccessor previousState state ∧
        found = event sha runLabel ordinal state evidenceSha256 previous) ∧ Writes floats raw found := by
  cases raw with
  | obj members =>
      rw [readEvent]
      constructor
      · intro h
        split at h
        · rename_i hfields
          split at h
          · cases h
          · rename_i state hstate
            split at h
            · cases h
            · rename_i hchain
              rw [not_or, Bool.not_eq_false, not_not] at hchain
              split at h
              · rename_i evidenceSha256 claimedDigest hevidence hclaimed
                obtain ⟨⟨⟩, hdigest, h⟩ := exists_of_bind_eq_ok h
                obtain ⟨⟨⟩, _, h⟩ := exists_of_bind_eq_ok h
                obtain ⟨⟨⟩, htransition, h⟩ := exists_of_bind_eq_ok h
                simp only at h
                split at h
                · cases h
                · rename_i hsame
                  rw [not_not] at hsame
                  have hfound := Except.ok.inj h
                  obtain ⟨written, hlookup, hid⟩ := exists_of_any hchain.1
                  obtain ⟨rawState, hrawState, hvalue⟩ := Option.bind_eq_some_iff.mp hstate
                  rw [ofValue_eq_some] at hvalue
                  constructor
                  · exact ⟨state, evidenceSha256, validateDigest_ok_iff.mp hdigest,
                      (checkTransition_ok_iff hordinal).mp htransition, hfound.symm⟩
                  · rw [← hfound]
                    refine ⟨written, hid, ?_⟩
                    rw [same_event_iff hraw.1, hlookup, hrawState, hevidence, hclaimed, hchain.2, hvalue, hsame]
                    exact ⟨hfields, rfl, rfl, rfl, rfl, rfl⟩
              · cases h
        · cases h
      · intro h
        obtain ⟨⟨state, evidenceSha256, hdigest, hsuccessor, hfound⟩, written, hid, hsame⟩ := h
        rw [same_event_iff hraw.1, hfound] at hsame
        obtain ⟨hfields, hlookup, hstate, hevidence, hprevious, hclaimed⟩ := hsame
        obtain ⟨stored, hstored, hsorted⟩ := Option.map_eq_some_iff.mp hlookup
        have hany : (members.lookup "ordinal").any (isEventId floats ordinal) = true := by
          rw [hfound] at hid
          rw [hstored, Option.any_some, ← isEventId_sortKeys, hsorted, isEventId_sortKeys]
          exact hid
        rw [if_pos hfields, hstate, Option.bind_some, ofValue_eq_some.mpr rfl]
        simp only [event] at hevidence hprevious hclaimed ⊢
        rw [if_neg (by rw [hany, hprevious]; simp)]
        simp only [hevidence, hclaimed, bind, Except.bind, validateDigest_ok_iff.mpr hdigest,
          validateDigest_ok_iff.mpr (sha.isSha256 _), (checkTransition_ok_iff hordinal).mpr hsuccessor, ne_eq,
          not_true, if_false, hfound]
        rfl
  | _ =>
      constructor
      · intro h
        cases h
      · intro h
        obtain ⟨-, written, -, hsame⟩ := h
        cases hsame

/-! ### Reading a history -/

theorem wellFormed_mem {items : List Json} (h : Json.WellFormedItems items) {item : Json} (hitem : item ∈ items) :
    item.WellFormed := (Json.wellFormedItems_iff items).mp h item hitem

theorem readEvents_ok_iff {runLabel : String} {rawEvents : List Json} (hraw : Json.WellFormedItems rawEvents) :
    ∀ {history events : List LifecycleEvent},
      readEvents sha floats runLabel history.length (lastDigest history) (lastState history) rawEvents = .ok events ↔
        Continues (Follows sha runLabel) history events ∧ List.Forall₂ (Writes floats) rawEvents events := by
  induction rawEvents with
  | nil =>
      intro history events
      rw [readEvents]
      constructor
      · intro h
        rw [← Except.ok.inj h]
        exact ⟨trivial, .nil⟩
      · intro h
        cases h.2
        rfl
  | cons raw rawEvents ih =>
      intro history events
      rw [readEvents]
      constructor
      · intro h
        obtain ⟨found, hfound, h⟩ := exists_of_bind_eq_ok h
        obtain ⟨later, hlater, h⟩ := exists_of_bind_eq_ok h
        rw [← Except.ok.inj h]
        rw [readEvent_ok_iff hraw.1 lastState_eq_none_iff] at hfound
        rw [← lastDigest_snoc history found, ← lastState_snoc history found, ← length_snoc history found] at hlater
        obtain ⟨hcontinues, hwrites⟩ := (ih hraw.2).mp hlater
        exact ⟨⟨hfound.1, hcontinues⟩, .cons hfound.2 hwrites⟩
      · intro h
        obtain ⟨hcontinues, hwrites⟩ := h
        cases hwrites with
        | @cons _ found _ later hfound hlater =>
            have hread := (readEvent_ok_iff hraw.1 lastState_eq_none_iff).mpr ⟨hcontinues.1, hfound⟩
            have hrest := (ih hraw.2).mpr ⟨hcontinues.2, hlater⟩
            rw [length_snoc, lastDigest_snoc, lastState_snoc] at hrest
            simp only [bind, Except.bind, hread, hrest]
            rfl

/-! ### Reading a lifecycle -/

def lifecycleMembers (runLabel : String) (state : EvidenceState) (rawEvents : List Json) : List (String × Json) :=
  [("schema_version", .str lifecycleSchemaVersion), ("run_label", .str runLabel), ("state", .str state.value),
    ("events", .arr rawEvents)]

theorem toPayload_ok_iff {lifecycle : EvidenceLifecycle} {payload : Json} :
    lifecycle.toPayload = .ok payload ↔ ∃ state, lifecycle.state = .ok state ∧
      payload = .obj (lifecycleMembers lifecycle.runLabel state (lifecycle.events.map LifecycleEvent.toPayload)) := by
  rw [EvidenceLifecycle.toPayload]
  cases lifecycle.state with
  | error error =>
      constructor
      · intro h
        cases h
      · intro h
        obtain ⟨state, hstate, -⟩ := h
        cases hstate
  | ok state =>
      constructor
      · intro h
        exact ⟨state, rfl, (Except.ok.inj h).symm⟩
      · intro h
        obtain ⟨other, hother, hpayload⟩ := h
        rw [hpayload, ← Except.ok.inj hother]
        rfl

theorem same_lifecycle_iff {members : List (String × Json)} {runLabel : String} {state : EvidenceState}
    {rawEvents : List Json} (hmembers : (members.map Prod.fst).Nodup) :
    Json.Same (.obj members) (.obj (lifecycleMembers runLabel state rawEvents)) ↔
      HasFields members lifecycleFields ∧ strField members "schema_version" = some lifecycleSchemaVersion ∧
      strField members "run_label" = some runLabel ∧ strField members "state" = some state.value ∧
      ∃ items, members.lookup "events" = some (.arr items) ∧ List.Forall₂ Json.Same items rawEvents := by
  rw [lifecycleMembers, @same_record_iff members _ lifecycleFields hmembers rfl (by decide)]
  simp only [← map_sortKeys_eq_str, ← map_sortKeys_eq_arr]
  simp [lifecycleFields, List.lookup_cons]

/-- The payload of the lifecycle, with ordinals that are equal to its own. -/
def WritesLifecycle (floats : FloatConversion) (payload : Json) (lifecycle : EvidenceLifecycle) : Prop :=
  ∃ state rawEvents, lifecycle.state = .ok state ∧ List.Forall₂ (Writes floats) rawEvents lifecycle.events ∧
    Json.Same payload (.obj (lifecycleMembers lifecycle.runLabel state rawEvents))

theorem Writes.same {raw other : Json} {event : LifecycleEvent} (h : Writes floats other event)
    (hsame : Json.Same raw other) : Writes floats raw event := by
  obtain ⟨ordinal, hid, hother⟩ := h
  exact ⟨ordinal, hid, hsame.trans hother⟩

theorem writes_items {items rawEvents : List Json} {events : List LifecycleEvent}
    (hsame : List.Forall₂ Json.Same items rawEvents) (h : List.Forall₂ (Writes floats) rawEvents events) :
    List.Forall₂ (Writes floats) items events := by
  induction hsame generalizing events with
  | nil => exact h
  | cons hitem _ ih =>
      cases h with
      | cons hwrites hlater => exact .cons (hwrites.same hitem) (ih hlater)

theorem fromPayload_ok_iff {payload : Json} (hpayload : payload.WellFormed) {lifecycle : EvidenceLifecycle} :
    EvidenceLifecycle.fromPayload sha floats payload = .ok lifecycle ↔
      Reachable sha lifecycle ∧ WritesLifecycle floats payload lifecycle := by
  cases payload with
  | obj members =>
      have hitems : ∀ items, members.lookup "events" = some (.arr items) → Json.WellFormedItems items := by
        intro items hlookup
        have hmem := (lookup_eq_some_iff_mem hpayload.1).mp hlookup
        exact (Json.wellFormedMembers_iff members).mp hpayload.2 _ hmem
      rw [EvidenceLifecycle.fromPayload]
      constructor
      · intro h
        split at h
        · rename_i hfields
          split at h
          · cases h
          · rename_i hschema
            rw [not_not] at hschema
            split at h
            · rename_i runLabel raw rawEvents hlabel hraw
              obtain ⟨⟨⟩, hvalid, h⟩ := exists_of_bind_eq_ok h
              obtain ⟨events, hevents, h⟩ := exists_of_bind_eq_ok h
              obtain ⟨state, hstate, h⟩ := exists_of_bind_eq_ok h
              split at h
              · cases h
              · rename_i hterminal
                rw [not_not] at hterminal
                obtain ⟨value, hvalue, harr⟩ := Option.bind_eq_some_iff.mp hraw
                have hlookup : members.lookup "events" = some (.arr (raw :: rawEvents)) := by
                  rw [hvalue]
                  cases value <;> cases harr
                  rfl
                have hread := (@readEvents_ok_iff sha floats runLabel _ (hitems _ hlookup) [] events).mp hevents
                rw [← Except.ok.inj h]
                constructor
                · rw [reachable_iff]
                  refine ⟨validateRunLabel_ok_iff.mp hvalid, ?_, grown_iff.mpr hread.1⟩
                  intro hempty
                  simp only at hempty
                  rw [hempty] at hread
                  cases hread.2
                · refine ⟨state, raw :: rawEvents, hstate, hread.2, ?_⟩
                  rw [same_lifecycle_iff hpayload.1]
                  exact ⟨hfields, hschema, hlabel, hterminal, _, hlookup, same_items_iff.mp rfl⟩
            · cases h
        · cases h
      · intro h
        obtain ⟨hreachable, state, rawEvents, hstate, hwrites, hsame⟩ := h
        rw [same_lifecycle_iff hpayload.1] at hsame
        obtain ⟨hfields, hschema, hlabel, hterminal, items, hlookup, hrawEvents⟩ := hsame
        obtain ⟨hvalid, hne, hgrown⟩ := reachable_iff.mp hreachable
        have hevents := writes_items hrawEvents hwrites
        have hread : readEvents sha floats lifecycle.runLabel 0 genesis none items = .ok lifecycle.events :=
          (@readEvents_ok_iff sha floats lifecycle.runLabel items (hitems _ hlookup) []
            lifecycle.events).mpr ⟨grown_iff.mp hgrown, hevents⟩
        cases items with
        | nil =>
            exact absurd (List.forall₂_nil_left_iff.mp hevents) hne
        | cons raw items =>
            rw [if_pos hfields, if_neg (not_not.mpr hschema), hlabel, hlookup]
            simp only [Option.bind_some, Json.asArr?, bind, Except.bind, validateRunLabel_ok_iff.mpr hvalid]
            rw [hread]
            simp only [hstate, hterminal, ne_eq, not_true, if_false]
            rfl
  | _ =>
      constructor
      · intro h
        cases h
      · intro h
        obtain ⟨-, _, _, _, _, hsame⟩ := h
        cases hsame

/-! ### Exactness -/

/-- `from_payload` accepts the payload iff it is the payload of a reachable lifecycle, and returns that one. -/
def Exact (sha : Sha256) (floats : FloatConversion) (payload : Json) : Prop :=
  ∀ lifecycle, EvidenceLifecycle.fromPayload sha floats payload = .ok lifecycle ↔
    Reachable sha lifecycle ∧ ∃ written, lifecycle.toPayload = .ok written ∧ Json.Same payload written

/-- The events as they stand in a payload. -/
def rawEvents : Json → List Json
  | .obj members => ((members.lookup "events").bind Json.asArr?).getD []
  | _ => []

def IntegerOrdinal : Json → Prop
  | .obj members => ∃ number, members.lookup "ordinal" = some (.int number)
  | _ => False

/-- An event is written exactly iff its ordinal is an integer. -/
theorem Writes.exact_iff {raw : Json} {event : LifecycleEvent} (hraw : raw.WellFormed) (h : Writes floats raw event) :
    Json.Same raw event.toPayload ↔ IntegerOrdinal raw := by
  obtain ⟨ordinal, hid, hsame⟩ := h
  cases raw with
  | obj members =>
      have hfields := (same_event_iff hraw.1).mp hsame
      obtain ⟨stored, hstored, hsorted⟩ := Option.map_eq_some_iff.mp hfields.2.1
      rw [LifecycleEvent.toPayload, same_event_iff hraw.1, IntegerOrdinal]
      constructor
      · intro hexact
        exact ⟨event.ordinal, (@map_sortKeys_eq_scalar _ (.int event.ordinal) trivial).mp hexact.2.1⟩
      · intro hinteger
        obtain ⟨number, hnumber⟩ := hinteger
        refine ⟨hfields.1, ?_, hfields.2.2⟩
        rw [hnumber, Option.some.injEq] at hstored
        rw [← isEventId_sortKeys, ← hsorted, ← hstored] at hid
        have hequal : number = event.ordinal := of_decide_eq_true hid
        rw [hnumber, hequal]
        rfl
  | _ => cases hsame

theorem exact_items_iff {items : List Json} {events : List LifecycleEvent} (hitems : Json.WellFormedItems items)
    (h : List.Forall₂ (Writes floats) items events) :
    List.Forall₂ Json.Same items (events.map LifecycleEvent.toPayload) ↔ ∀ raw ∈ items, IntegerOrdinal raw := by
  induction h with
  | nil => simp
  | @cons raw event items events hwrites _ ih =>
      rw [List.map_cons, List.forall₂_cons, hwrites.exact_iff hitems.1, ih hitems.2, List.forall_mem_cons]

theorem WritesLifecycle.exact_iff {payload : Json} {lifecycle : EvidenceLifecycle} (hpayload : payload.WellFormed)
    (h : WritesLifecycle floats payload lifecycle) :
    (∃ written, lifecycle.toPayload = .ok written ∧ Json.Same payload written) ↔
      ∀ raw ∈ rawEvents payload, IntegerOrdinal raw := by
  obtain ⟨state, written, hstate, hwrites, hsame⟩ := h
  cases payload with
  | obj members =>
      obtain ⟨hfields, hschema, hlabel, hterminal, items, hlookup, hitems⟩ :=
        (same_lifecycle_iff hpayload.1).mp hsame
      have hmem := (lookup_eq_some_iff_mem hpayload.1).mp hlookup
      have hwellFormed : Json.WellFormedItems items := (Json.wellFormedMembers_iff members).mp hpayload.2 _ hmem
      have hraw : rawEvents (.obj members) = items := by
        rw [rawEvents, hlookup]
        rfl
      rw [hraw, ← exact_items_iff hwellFormed (writes_items hitems hwrites)]
      constructor
      · intro hexact
        obtain ⟨payload, hwritten, hpayloads⟩ := hexact
        obtain ⟨other, -, hmembers⟩ := toPayload_ok_iff.mp hwritten
        rw [hmembers, same_lifecycle_iff hpayload.1] at hpayloads
        obtain ⟨_, _, _, _, others, hothers, hforall⟩ := hpayloads
        rw [hlookup, Option.some.injEq, Json.arr.injEq] at hothers
        rw [hothers]
        exact hforall
      · intro hexact
        refine ⟨_, toPayload_ok_iff.mpr ⟨state, hstate, rfl⟩, ?_⟩
        rw [same_lifecycle_iff hpayload.1]
        exact ⟨hfields, hschema, hlabel, hterminal, items, hlookup, hexact⟩
  | _ => cases hsame

theorem writesLifecycle_of_same {payload written : Json} {lifecycle : EvidenceLifecycle}
    (hwritten : lifecycle.toPayload = .ok written) (hsame : Json.Same payload written) :
    WritesLifecycle floats payload lifecycle := by
  obtain ⟨state, hstate, hmembers⟩ := toPayload_ok_iff.mp hwritten
  rw [hmembers] at hsame
  refine ⟨state, _, hstate, ?_, hsame⟩
  rw [List.forall₂_map_left_iff, List.forall₂_same]
  intro event _
  exact ⟨.int event.ordinal, decide_eq_true rfl, rfl⟩

/-- The decoder is exact on a payload iff, where it is the payload of a reachable lifecycle up to equal ordinals,
its ordinals are integers. -/
theorem fromPayload_exact_iff (sha : Sha256) (floats : FloatConversion) (payload : Json)
    (hpayload : payload.WellFormed) :
    Exact sha floats payload ↔ ((∃ lifecycle, Reachable sha lifecycle ∧ WritesLifecycle floats payload lifecycle) →
      ∀ raw ∈ rawEvents payload, IntegerOrdinal raw) := by
  constructor
  · intro hexact h
    obtain ⟨lifecycle, hreachable, hwrites⟩ := h
    have hread := (fromPayload_ok_iff hpayload).mpr ⟨hreachable, hwrites⟩
    exact (hwrites.exact_iff hpayload).mp ((hexact lifecycle).mp hread).2
  · intro hinteger lifecycle
    rw [fromPayload_ok_iff hpayload]
    constructor
    · intro h
      exact ⟨h.1, (h.2.exact_iff hpayload).mpr (hinteger ⟨lifecycle, h⟩)⟩
    · intro h
      obtain ⟨hreachable, written, hwritten, hsame⟩ := h
      exact ⟨hreachable, writesLifecycle_of_same hwritten hsame⟩

/-! ### A planned run -/

def emptySha256 : String := "e3b0c44298fc1c149afbf4c8996fb92427ae41e4649b934ca495991b7852b855"

/-- SHA-256 on the text of the planned event. -/
def plannedSha : Sha256 where
  hexdigest _ := "abbc27a8ddaa3f824d97dfbbebb728b305d3eb67b0b26efe24ef30e9509d52e4"
  isSha256 _ := by decide

def plannedLifecycle : EvidenceLifecycle :=
  ⟨"run-1", [event plannedSha "run-1" 0 .planned emptySha256 genesis]⟩

def plannedPayload (ordinal : Json) : Json :=
  .obj (lifecycleMembers "run-1" .planned
    [(event plannedSha "run-1" 0 .planned emptySha256 genesis).payloadWith ordinal])

theorem plannedLifecycle_reachable : Reachable plannedSha plannedLifecycle := by
  apply Reachable.start
  rw [start_ok_iff]
  exact ⟨by decide, by decide, rfl⟩

theorem plannedPayload_wellFormed {ordinal : Json} (h : ordinal.WellFormed) : (plannedPayload ordinal).WellFormed := by
  have hevent : ((event plannedSha "run-1" 0 .planned emptySha256 genesis).payloadWith ordinal).WellFormed :=
    ⟨by simp, h, trivial, trivial, trivial, trivial, trivial⟩
  exact ⟨by simp [lifecycleMembers], trivial, trivial, trivial, ⟨hevent, trivial⟩, trivial⟩

theorem fromPayload_exact_planned : Exact plannedSha streamFloats (plannedPayload (.int 0)) := by
  have hwellFormed := @plannedPayload_wellFormed (.int 0) trivial
  rw [fromPayload_exact_iff plannedSha streamFloats _ hwellFormed]
  intro _ raw hraw
  rw [List.mem_singleton.mp hraw]
  exact ⟨0, rfl⟩

/-- The decoder accepts the ordinal `false`, which no lifecycle writes. -/
theorem fromPayload_boolean :
    EvidenceLifecycle.fromPayload plannedSha streamFloats (plannedPayload (.bool false)) = .ok plannedLifecycle ∧
      ∀ lifecycle written, Reachable plannedSha lifecycle → lifecycle.toPayload = .ok written →
        ¬ Json.Same (plannedPayload (.bool false)) written := by
  have hwellFormed := @plannedPayload_wellFormed (.bool false) trivial
  constructor
  · rw [fromPayload_ok_iff hwellFormed]
    exact ⟨plannedLifecycle_reachable, .planned, _, rfl, .cons ⟨.bool false, rfl, rfl⟩ .nil, rfl⟩
  · intro lifecycle written _ hwritten hsame
    have hwrites := @writesLifecycle_of_same streamFloats _ _ _ hwritten hsame
    have hinteger := (hwrites.exact_iff hwellFormed).mp ⟨written, hwritten, hsame⟩
    obtain ⟨number, hnumber⟩ := hinteger _ (List.mem_singleton.mpr rfl)
    cases hnumber

end TxnOpt.Lifecycle

import TxnOpt.Lib.Fallible
import TxnOpt.Lib.Keys
import TxnOpt.Rcpsp.Parser
import Mathlib.Tactic.Common

/-!
# What the parser keeps

The rows of an accepted text, read without the parser's checks, and which of them the instance holds. The
predecessors are the inverse of the successor rows; a request row whose mode number is not one of its
activity's is dropped.
-/

namespace TxnOpt.Rcpsp

/-! ### The rows of a text -/

/-- The numeric rows between two headings. -/
def sectionRows (lines : List (List Char)) (heading next : String) : List (List ℕ) :=
  match sectionIndex lines heading, sectionIndex lines next with
  | .ok first, .ok last => ((lines.take last).drop (first + 1)).filterMap integerRow
  | _, _ => []

def precedenceRow : List ℕ → Option PrecedenceRow
  | activityId :: modeCount :: _ :: successors => some ⟨activityId, modeCount, successors⟩
  | _ => none

/-- The successor rows of the text. -/
def precedenceRows (text : List Char) : List PrecedenceRow :=
  (sectionRows (splitlines text) "PRECEDENCE RELATIONS:" "REQUESTS/DURATIONS:").filterMap precedenceRow

/-- The number of resources. -/
def resourceCount (text : List Char) : ℕ :=
  match sectionIndex (splitlines text) "RESOURCEAVAILABILITIES:" with
  | .ok last => (((splitlines text).drop (last + 1)).filterMap integerRow).flatten.length
  | .error _ => 0

/-- Rows with their activities, from the activity of the row before. -/
def nameRows (width : ℕ) : Option ℕ → List (List ℕ) → List RequestRow
  | _, [] => []
  | previousActivity, values :: rows =>
      match namedRow width previousActivity values with
      | some row => row :: nameRows width (some row.activityId) rows
      | none => nameRows width previousActivity rows

/-- The request rows of the text. -/
def requestRows (text : List Char) : List RequestRow :=
  nameRows (resourceCount text) none
    (sectionRows (splitlines text) "REQUESTS/DURATIONS:" "RESOURCEAVAILABILITIES:")

/-! ### The loops -/

theorem linesBetween_lines (lines : List (List Char)) (first next : ℕ) :
    (linesBetween lines first next).map Prod.fst = (lines.take next).drop (first + 1) := by
  rw [linesBetween, List.map_drop, List.map_take, List.zipIdx_map_fst]

/-- What one pass over the precedence section does. -/
theorem precedencePass_ok {rows next : List PrecedenceRow} {numbered : List Char × ℕ}
    (h : precedencePass rows numbered = .ok next) :
    (integerRow numbered.1 = none ∧ next = rows) ∨
      ∃ values row, integerRow numbered.1 = some values ∧ precedenceRow values = some row ∧
        row.activityId ∉ rows.map PrecedenceRow.activityId ∧ next = rows ++ [row] := by
  unfold precedencePass at h
  split at h
  · rename_i hrow
    exact .inl ⟨hrow, (Except.ok.inj h).symm⟩
  · rename_i activityId modeCount successorCount successorValues hrow
    split at h
    · cases h
    · rename_i hfresh
      split at h
      · cases h
      · exact .inr ⟨_, _, hrow, rfl, hfresh, (Except.ok.inj h).symm⟩
  · cases h

theorem precedence_loop {numbered : List (List Char × ℕ)} {rows final : List PrecedenceRow}
    (hnodup : (rows.map PrecedenceRow.activityId).Nodup) (h : numbered.foldlM precedencePass rows = .ok final) :
    final = rows ++ ((numbered.map Prod.fst).filterMap integerRow).filterMap precedenceRow ∧
      (final.map PrecedenceRow.activityId).Nodup := by
  induction numbered generalizing rows with
  | nil =>
      rw [← Except.ok.inj h]
      exact ⟨(List.append_nil rows).symm, hnodup⟩
  | cons line numbered ih =>
      rw [List.foldlM_cons] at h
      cases hpass : precedencePass rows line with
      | error error =>
          rw [hpass] at h
          cases h
      | ok next =>
          rw [hpass] at h
          rcases precedencePass_ok hpass with ⟨hrow, hnext⟩ | ⟨values, row, hrow, hread, hfresh, hnext⟩
          · rw [hnext] at h
            rw [List.map_cons, List.filterMap_cons_none hrow]
            exact ih hnodup h
          · rw [hnext] at h
            have hnodup' : ((rows ++ [row]).map PrecedenceRow.activityId).Nodup := by
              rw [List.map_append, List.nodup_append_comm]
              exact List.nodup_cons.mpr ⟨hfresh, hnodup⟩
            obtain ⟨hfinal, hkeys⟩ := ih hnodup' h
            refine ⟨?_, hkeys⟩
            rw [List.map_cons, List.filterMap_cons_some hrow, List.filterMap_cons_some hread, hfinal,
              List.append_assoc]
            rfl

/-- The key of a request row in `mode_rows`. -/
def RequestRow.key (row : RequestRow) : ℕ × ℕ := (row.activityId, row.modeNumber)

/-- What one pass over the request section does. -/
theorem requestPass_ok {width : ℕ} {ids : List ℕ} {state next : List RequestRow × Option ℕ}
    {numbered : List Char × ℕ} (h : requestPass width ids state numbered = .ok next) :
    (integerRow numbered.1 = none ∧ next = state) ∨
      ∃ values row, integerRow numbered.1 = some values ∧ namedRow width state.2 values = some row ∧
        row.key ∉ state.1.map RequestRow.key ∧ row.activityId ∈ ids ∧
        next = (state.1 ++ [row], some row.activityId) := by
  unfold requestPass at h
  split at h
  · rename_i hrow
    exact .inl ⟨hrow, (Except.ok.inj h).symm⟩
  · rename_i values hrow
    split at h
    · cases h
    · rename_i row hnamed
      split at h
      · cases h
      · rename_i hchecked
        rw [not_or, not_not] at hchecked
        exact .inr ⟨values, row, hrow, hnamed, hchecked.1, hchecked.2, (Except.ok.inj h).symm⟩

theorem request_loop {width : ℕ} {ids : List ℕ} {numbered : List (List Char × ℕ)}
    {state final : List RequestRow × Option ℕ} (hnodup : (state.1.map RequestRow.key).Nodup)
    (hknown : ∀ row ∈ state.1, row.activityId ∈ ids)
    (h : numbered.foldlM (requestPass width ids) state = .ok final) :
    final.1 = state.1 ++ nameRows width state.2 ((numbered.map Prod.fst).filterMap integerRow) ∧
      (final.1.map RequestRow.key).Nodup ∧ ∀ row ∈ final.1, row.activityId ∈ ids := by
  induction numbered generalizing state with
  | nil =>
      rw [← Except.ok.inj h]
      exact ⟨(List.append_nil state.1).symm, hnodup, hknown⟩
  | cons line numbered ih =>
      rw [List.foldlM_cons] at h
      cases hpass : requestPass width ids state line with
      | error error =>
          rw [hpass] at h
          cases h
      | ok next =>
          rw [hpass] at h
          rcases requestPass_ok hpass with ⟨hrow, hnext⟩ | ⟨values, row, hrow, hnamed, hfresh, hid, hnext⟩
          · rw [hnext] at h
            rw [List.map_cons, List.filterMap_cons_none hrow]
            exact ih hnodup hknown h
          · rw [hnext] at h
            have hnodup' : ((state.1 ++ [row]).map RequestRow.key).Nodup := by
              rw [List.map_append, List.nodup_append_comm]
              exact List.nodup_cons.mpr ⟨hfresh, hnodup⟩
            have hknown' : ∀ other ∈ state.1 ++ [row], other.activityId ∈ ids := by
              intro other hother
              rcases List.mem_append.mp hother with hother | hother
              · exact hknown other hother
              · rw [List.mem_singleton.mp hother]
                exact hid
            obtain ⟨hfinal, hkeys, hids⟩ := @ih (state.1 ++ [row], some row.activityId) hnodup' hknown' h
            refine ⟨?_, hkeys, hids⟩
            rw [hfinal, List.map_cons, List.filterMap_cons_some hrow, nameRows, hnamed, List.append_assoc]
            rfl

/-! ### The predecessors -/

/-- The dictionary lists the pairs of the relation, under the given keys. -/
structure Lists (predecessors : List (ℕ × List ℕ)) (ids : List ℕ) (relation : ℕ → ℕ → Prop) : Prop where
  keys : predecessors.map Prod.fst = ids
  members : ∀ entry ∈ predecessors, ∀ other, other ∈ entry.2 ↔ relation other entry.1

theorem Lists.pass {predecessors next : List (ℕ × List ℕ)} {ids : List ℕ} {relation : ℕ → ℕ → Prop}
    (hlists : Lists predecessors ids relation) {activityId successor : ℕ}
    (h : predecessorPass activityId predecessors successor = .ok next) :
    successor ∈ ids ∧
      Lists next ids fun other id => relation other id ∨ (other = activityId ∧ id = successor) := by
  unfold predecessorPass at h
  split at h
  · rename_i hmem
    rw [← Except.ok.inj h]
    refine ⟨hlists.keys ▸ hmem, ?_, ?_⟩
    · rw [List.map_map, ← hlists.keys]
      apply List.map_congr_left
      intro entry _
      by_cases hkey : entry.1 = successor
      · simp [hkey]
      · simp [hkey]
    · intro entry hentry other
      obtain ⟨stored, hstored, hsame⟩ := List.mem_map.mp hentry
      have hmembers := hlists.members stored hstored other
      by_cases hkey : stored.1 = successor
      · rw [if_pos hkey] at hsame
        rw [← hsame]
        simp only [List.mem_append, List.mem_singleton, hmembers, hkey, and_true]
      · rw [if_neg hkey] at hsame
        rw [← hsame, hmembers]
        simp [hkey]
  · cases h

/-- One pair for each successor of each row. -/
def Successor (rows : List PrecedenceRow) (other id : ℕ) : Prop :=
  ∃ row ∈ rows, other = row.activityId ∧ id ∈ row.successors

theorem Lists.congr {predecessors : List (ℕ × List ℕ)} {ids : List ℕ} {relation same : ℕ → ℕ → Prop}
    (h : Lists predecessors ids relation) (hsame : ∀ other id, relation other id ↔ same other id) :
    Lists predecessors ids same :=
  ⟨h.keys, fun entry hentry other => (h.members entry hentry other).trans (hsame other entry.1)⟩

theorem successors_loop {predecessors final : List (ℕ × List ℕ)} {ids successors : List ℕ} {activityId : ℕ}
    {relation : ℕ → ℕ → Prop} (hlists : Lists predecessors ids relation)
    (h : successors.foldlM (predecessorPass activityId) predecessors = .ok final) :
    (∀ successor ∈ successors, successor ∈ ids) ∧
      Lists final ids fun other id => relation other id ∨ (other = activityId ∧ id ∈ successors) := by
  induction successors generalizing predecessors relation with
  | nil =>
      rw [← Except.ok.inj h]
      exact ⟨by simp, hlists.congr (by simp)⟩
  | cons successor successors ih =>
      rw [List.foldlM_cons] at h
      cases hpass : predecessorPass activityId predecessors successor with
      | error error =>
          rw [hpass] at h
          cases h
      | ok next =>
          rw [hpass] at h
          obtain ⟨hmem, hnext⟩ := hlists.pass hpass
          obtain ⟨hmems, hfinal⟩ := ih hnext h
          refine ⟨List.forall_mem_cons.mpr ⟨hmem, hmems⟩, hfinal.congr ?_⟩
          intro other id
          rw [List.mem_cons, or_assoc, ← and_or_left]

theorem readPredecessors_ok {rows : List PrecedenceRow} {predecessors : List (ℕ × List ℕ)}
    (h : readPredecessors rows = .ok predecessors) :
    (∀ row ∈ rows, ∀ successor ∈ row.successors, successor ∈ rows.map PrecedenceRow.activityId) ∧
      Lists predecessors (rows.map PrecedenceRow.activityId) (Successor rows) := by
  have hloop : ∀ {later : List PrecedenceRow} {relation : ℕ → ℕ → Prop} {dictionary : List (ℕ × List ℕ)},
      Lists dictionary (rows.map PrecedenceRow.activityId) relation →
      later.foldlM (fun predecessors row => row.successors.foldlM (predecessorPass row.activityId) predecessors)
        dictionary = .ok predecessors →
      (∀ row ∈ later, ∀ successor ∈ row.successors, successor ∈ rows.map PrecedenceRow.activityId) ∧
        Lists predecessors (rows.map PrecedenceRow.activityId) fun other id =>
          relation other id ∨ Successor later other id := by
    intro later
    induction later with
    | nil =>
        intro relation dictionary hlists hfold
        rw [← Except.ok.inj hfold]
        exact ⟨by simp, hlists.congr (by simp [Successor])⟩
    | cons row later ih =>
        intro relation dictionary hlists hfold
        rw [List.foldlM_cons] at hfold
        cases hrow : row.successors.foldlM (predecessorPass row.activityId) dictionary with
        | error error =>
            rw [hrow] at hfold
            cases hfold
        | ok next =>
            rw [hrow] at hfold
            obtain ⟨hmem, hnext⟩ := successors_loop hlists hrow
            obtain ⟨hmems, hfinal⟩ := ih hnext hfold
            refine ⟨List.forall_mem_cons.mpr ⟨hmem, hmems⟩, hfinal.congr ?_⟩
            intro other id
            simp only [Successor, List.exists_mem_cons_iff, or_assoc]
  have hstart : Lists (rows.map fun row => (row.activityId, [])) (rows.map PrecedenceRow.activityId)
      fun _ _ => False := by
    refine ⟨by rw [List.map_map]; rfl, ?_⟩
    intro entry hentry other
    obtain ⟨row, -, hsame⟩ := List.mem_map.mp hentry
    simp [← hsame]
  obtain ⟨hknown, hlists⟩ := hloop hstart h
  exact ⟨hknown, hlists.congr (by simp)⟩

/-! ### The modes -/

/-- The request rows of an activity. -/
def ownRequests (requests : List RequestRow) (activityId : ℕ) : List RequestRow :=
  requests.filter fun request => request.activityId = activityId

/-- The mode number is one of the activity's. -/
def InRange (row : PrecedenceRow) (request : RequestRow) : Prop :=
  1 ≤ request.modeNumber ∧ request.modeNumber ≤ row.modeCount

instance (row : PrecedenceRow) (request : RequestRow) : Decidable (InRange row request) :=
  inferInstanceAs (Decidable (_ ∧ _))

theorem find_request_iff {requests : List RequestRow} (hnodup : (requests.map RequestRow.key).Nodup)
    {activityId modeNumber : ℕ} {request : RequestRow} :
    requests.find? (fun request => request.activityId = activityId ∧ request.modeNumber = modeNumber) =
      some request ↔
      request ∈ ownRequests requests activityId ∧ request.modeNumber = modeNumber := by
  have hkey := @find?_key_eq_some_iff _ _ _ _ _ hnodup (activityId, modeNumber) request
  simp only [RequestRow.key, Prod.mk.injEq] at hkey
  rw [hkey, ownRequests, List.mem_filter, decide_eq_true_eq, and_assoc]

/-- The rows that `modes_of` finds are the activity's rows in range, by mode number. -/
theorem modesOf_eq {requests : List RequestRow} (hnodup : (requests.map RequestRow.key).Nodup)
    (row : PrecedenceRow) :
    modesOf requests row =
      (sortedBy RequestRow.modeNumber ((ownRequests requests row.activityId).filter fun request =>
        InRange row request)).map RequestRow.mode := by
  have hown : ((ownRequests requests row.activityId).map RequestRow.modeNumber).Nodup := by
    have hsub : ((ownRequests requests row.activityId).map RequestRow.key).Nodup :=
      (List.filter_sublist.map _).nodup hnodup
    have hdistinct := hsub.of_map
    rw [List.nodup_map_iff_inj_on hdistinct] at hsub ⊢
    intro first hfirst second hsecond hnumber
    apply hsub first hfirst second hsecond
    have hfirstId := (List.mem_filter.mp hfirst).2
    have hsecondId := (List.mem_filter.mp hsecond).2
    rw [decide_eq_true_eq] at hfirstId hsecondId
    rw [RequestRow.key, RequestRow.key, hnumber, hfirstId, hsecondId]
  have hfound : sortedBy RequestRow.modeNumber ((ownRequests requests row.activityId).filter fun request =>
      InRange row request) =
      (List.range' 1 row.modeCount).filterMap fun modeNumber =>
        requests.find? fun request => request.activityId = row.activityId ∧ request.modeNumber = modeNumber := by
    apply sortedBy_eq_of_mem_iff ((List.filter_sublist.map _).nodup hown)
    · have hincreasing : (List.range' 1 row.modeCount).Pairwise fun first second => first < second :=
        List.pairwise_lt_range'
      rw [List.pairwise_filterMap]
      apply hincreasing.imp
      intro first second hlt request hrequest other hother
      rw [((find_request_iff hnodup).mp hrequest).2, ((find_request_iff hnodup).mp hother).2]
      exact hlt
    · intro request
      rw [List.mem_filterMap, List.mem_filter, decide_eq_true_eq, InRange]
      simp only [find_request_iff hnodup, List.mem_range'_1]
      constructor
      · intro hmem
        obtain ⟨modeNumber, hrange, hrequest, hnumber⟩ := hmem
        exact ⟨hrequest, by omega, by omega⟩
      · intro hmem
        exact ⟨request.modeNumber, ⟨hmem.2.1, by omega⟩, hmem.1, rfl⟩
  rw [hfound, modesOf, List.map_filterMap]

/-- All rows of the activity are its modes exactly when all are in range. -/
theorem modesOf_eq_own_iff {requests : List RequestRow} (hnodup : (requests.map RequestRow.key).Nodup)
    (row : PrecedenceRow) :
    modesOf requests row =
        (sortedBy RequestRow.modeNumber (ownRequests requests row.activityId)).map RequestRow.mode ↔
      ∀ request ∈ ownRequests requests row.activityId, InRange row request := by
  rw [modesOf_eq hnodup]
  constructor
  · intro hmodes
    have hlength := congrArg List.length hmodes
    rw [List.length_map, List.length_map, sortedBy_perm.length_eq, sortedBy_perm.length_eq,
      List.length_filter_eq_length_iff] at hlength
    intro request hrequest
    simpa using hlength request hrequest
  · intro hrange
    rw [List.filter_eq_self.mpr]
    intro request hrequest
    simpa using hrange request hrequest

/-! ### The instance -/

/-- What an accepted text says. -/
structure Parsed (text : List Char) (inst : RCPSPInstance) (predecessors : List (ℕ × List ℕ)) : Prop where
  idsNodup : ((precedenceRows text).map PrecedenceRow.activityId).Nodup
  keysNodup : ((requestRows text).map RequestRow.key).Nodup
  known : ∀ request ∈ requestRows text, request.activityId ∈ (precedenceRows text).map PrecedenceRow.activityId
  successorsKnown : ∀ row ∈ precedenceRows text, ∀ successor ∈ row.successors,
    successor ∈ (precedenceRows text).map PrecedenceRow.activityId
  lists : Lists predecessors ((precedenceRows text).map PrecedenceRow.activityId) (Successor (precedenceRows text))
  activities : List.Forall₂ (fun row activity => buildActivity (requestRows text) predecessors row = .ok activity)
    (sortedBy PrecedenceRow.activityId (precedenceRows text)) inst.activities

theorem new_activities {name : String} {activities : List Activity} {capacities : List ℕ} {inst : RCPSPInstance}
    (h : RCPSPInstance.new name activities capacities = .ok inst) : inst.activities = activities := by
  unfold RCPSPInstance.new at h
  repeat' split at h
  · rw [← Except.ok.inj h]
  all_goals cases h

theorem resourceCount_eq {text : List Char} {capacitiesStart : ℕ} {capacities : List ℕ}
    (hstart : sectionIndex (splitlines text) "RESOURCEAVAILABILITIES:" = .ok capacitiesStart)
    (h : capacityRow ((splitlines text).drop (capacitiesStart + 1)) = .ok capacities) :
    resourceCount text = capacities.length := by
  unfold capacityRow at h
  split at h
  · rename_i row hrows
    simp only [resourceCount, hstart]
    rw [hrows, ← Except.ok.inj h, List.flatten_cons, List.flatten_nil, List.append_nil]
  · cases h

theorem parsed_of_ok {stem : String} {text : List Char} {inst : RCPSPInstance}
    (h : parsePsplibSm stem text = .ok inst) : ∃ predecessors, Parsed text inst predecessors := by
  unfold parsePsplibSm at h
  obtain ⟨precedenceStart, hprecedence, h⟩ := exists_of_bind_eq_ok h
  obtain ⟨requestsStart, hrequests, h⟩ := exists_of_bind_eq_ok h
  obtain ⟨capacitiesStart, hcapacities, h⟩ := exists_of_bind_eq_ok h
  dsimp only at h
  split at h
  · cases h
  obtain ⟨capacities, hcapacityRow, h⟩ := exists_of_bind_eq_ok h
  obtain ⟨rows, hrows, h⟩ := exists_of_bind_eq_ok h
  split at h
  · cases h
  obtain ⟨requests, hloop, h⟩ := exists_of_bind_eq_ok h
  obtain ⟨predecessors, hpredecessors, h⟩ := exists_of_bind_eq_ok h
  obtain ⟨activities, hactivities, h⟩ := exists_of_bind_eq_ok h
  obtain ⟨hprecedenceRows, hidsNodup⟩ := @precedence_loop _ [] _ List.nodup_nil hrows
  have hrowsRead : rows = precedenceRows text := by
    rw [hprecedenceRows, List.nil_append, linesBetween_lines, precedenceRows, sectionRows, hprecedence, hrequests]
  obtain ⟨hrequestRows, hkeysNodup, hknown⟩ := @request_loop _ _ _ ([], none) _ List.nodup_nil (by simp) hloop
  have hrequestsRead : requests.1 = requestRows text := by
    rw [hrequestRows, List.nil_append, linesBetween_lines, requestRows, sectionRows, hrequests, hcapacities,
      resourceCount_eq hcapacities hcapacityRow]
  rw [hrowsRead] at hidsNodup hknown hpredecessors hactivities
  rw [hrequestsRead] at hkeysNodup hknown hactivities
  obtain ⟨hsuccessors, hlists⟩ := readPredecessors_ok hpredecessors
  refine ⟨predecessors, hidsNodup, hkeysNodup, hknown, hsuccessors, hlists, ?_⟩
  rw [new_activities h]
  exact forall₂_of_mapM_eq_ok hactivities

theorem activity_new {activityId : Int} {predecessors : List Int} {modes : List ActivityMode} {activity : Activity}
    (h : Activity.new activityId predecessors modes = .ok activity) :
    activity.activityId = activityId ∧ activity.predecessors = predecessors ∧ activity.modes = modes := by
  unfold Activity.new at h
  repeat' split at h
  · rw [← Except.ok.inj h]
    exact ⟨rfl, rfl, rfl⟩
  all_goals cases h

theorem buildActivity_ok {requests : List RequestRow} {predecessors : List (ℕ × List ℕ)} {row : PrecedenceRow}
    {activity : Activity} (h : buildActivity requests predecessors row = .ok activity) :
    activity.activityId = row.activityId ∧
      activity.predecessors = (sortedBy id ((predecessors.lookup row.activityId).getD [])).map Int.ofNat ∧
      activity.modes = modesOf requests row := by
  unfold buildActivity at h
  split at h
  · cases h
  · exact activity_new h

section Instance

variable {text : List Char} {inst : RCPSPInstance} {predecessors : List (ℕ × List ℕ)}

/-- Each row is an activity. -/
theorem Parsed.activity_of_row (h : Parsed text inst predecessors) {row : PrecedenceRow}
    (hrow : row ∈ precedenceRows text) :
    ∃ activity ∈ inst.activities, buildActivity (requestRows text) predecessors row = .ok activity := by
  have hmem : row ∈ sortedBy PrecedenceRow.activityId (precedenceRows text) := mem_sortedBy.mpr hrow
  obtain ⟨index, hindex, hget⟩ := List.mem_iff_getElem.mp hmem
  have hlength : index < inst.activities.length := h.activities.length_eq ▸ hindex
  have hbuilt := h.activities.get hindex hlength
  exact ⟨inst.activities[index], List.getElem_mem hlength, by simpa [hget] using hbuilt⟩

/-- Each activity is a row. -/
theorem Parsed.row_of_activity (h : Parsed text inst predecessors) {activity : Activity}
    (hactivity : activity ∈ inst.activities) :
    ∃ row ∈ precedenceRows text, buildActivity (requestRows text) predecessors row = .ok activity := by
  obtain ⟨index, hindex, hget⟩ := List.mem_iff_getElem.mp hactivity
  have hlength : index < (sortedBy PrecedenceRow.activityId (precedenceRows text)).length :=
    h.activities.length_eq ▸ hindex
  have hbuilt := h.activities.get hlength hindex
  exact ⟨_, mem_sortedBy.mp (List.getElem_mem hlength), by simpa [hget] using hbuilt⟩

/-- The predecessors of a built activity. -/
theorem Parsed.mem_predecessors (h : Parsed text inst predecessors) {row : PrecedenceRow}
    (hrow : row ∈ precedenceRows text) {activity : Activity}
    (hbuilt : buildActivity (requestRows text) predecessors row = .ok activity) (other : Int) :
    other ∈ activity.predecessors ↔
      ∃ source ∈ precedenceRows text, other = source.activityId ∧ row.activityId ∈ source.successors := by
  have hkeys : (predecessors.map Prod.fst).Nodup := h.lists.keys ▸ h.idsNodup
  have hkey : row.activityId ∈ predecessors.map Prod.fst := by
    rw [h.lists.keys]
    exact List.mem_map_of_mem hrow
  obtain ⟨entry, hentry, hid⟩ := List.mem_map.mp hkey
  have hlookup : predecessors.lookup row.activityId = some entry.2 := by
    rw [lookup_eq_some_iff_mem hkeys, ← hid]
    exact hentry
  rw [(buildActivity_ok hbuilt).2.1, hlookup, Option.getD_some, List.mem_map]
  simp only [mem_sortedBy, h.lists.members entry hentry, hid, Successor]
  constructor
  · intro hmem
    obtain ⟨predecessor, ⟨source, hsource, hsame, hsuccessor⟩, hcast⟩ := hmem
    exact ⟨source, hsource, by rw [← hcast, hsame]; rfl, hsuccessor⟩
  · intro hmem
    obtain ⟨source, hsource, hsame, hsuccessor⟩ := hmem
    exact ⟨source.activityId, ⟨source, hsource, rfl, hsuccessor⟩, hsame.symm⟩

/-- The instance holds the rows of the text: each request row is one mode of its activity, in the order of
the mode numbers, there are no other modes, and the predecessors are the inverse of the successor rows. -/
structure Keeps (text : List Char) (inst : RCPSPInstance) : Prop where
  named : ∀ request ∈ requestRows text, ∃ activity ∈ inst.activities, activity.activityId = request.activityId
  modes : ∀ activity ∈ inst.activities, ∀ activityId : ℕ, activity.activityId = activityId →
    activity.modes =
      (sortedBy RequestRow.modeNumber (ownRequests (requestRows text) activityId)).map RequestRow.mode
  predecessors : ∀ id other : Int,
    (∃ activity ∈ inst.activities, activity.activityId = id ∧ other ∈ activity.predecessors) ↔
      ∃ row ∈ precedenceRows text, other = row.activityId ∧ ∃ successor ∈ row.successors, id = (successor : Int)

/-- Each request row has a mode number that its activity's precedence row declares. -/
def Declared (text : List Char) : Prop :=
  ∀ row ∈ precedenceRows text, ∀ request ∈ ownRequests (requestRows text) row.activityId, InRange row request

theorem Parsed.predecessors_iff (h : Parsed text inst predecessors) (id other : Int) :
    (∃ activity ∈ inst.activities, activity.activityId = id ∧ other ∈ activity.predecessors) ↔
      ∃ row ∈ precedenceRows text, other = row.activityId ∧ ∃ successor ∈ row.successors, id = (successor : Int) := by
  constructor
  · intro hactivity
    obtain ⟨activity, hmem, hid, hother⟩ := hactivity
    obtain ⟨row, hrow, hbuilt⟩ := h.row_of_activity hmem
    obtain ⟨source, hsource, hsame, hsuccessor⟩ := (h.mem_predecessors hrow hbuilt other).mp hother
    exact ⟨source, hsource, hsame, row.activityId, hsuccessor, hid.symm.trans (buildActivity_ok hbuilt).1⟩
  · intro hrow
    obtain ⟨source, hsource, hsame, successor, hsuccessor, hid⟩ := hrow
    obtain ⟨row, hrow, hrowId⟩ := List.mem_map.mp (h.successorsKnown source hsource successor hsuccessor)
    obtain ⟨activity, hactivity, hbuilt⟩ := h.activity_of_row hrow
    refine ⟨activity, hactivity, ?_, ?_⟩
    · rw [(buildActivity_ok hbuilt).1, hrowId, hid]
    · rw [h.mem_predecessors hrow hbuilt]
      exact ⟨source, hsource, hsame, hrowId ▸ hsuccessor⟩

theorem Parsed.keeps_iff (h : Parsed text inst predecessors) : Keeps text inst ↔ Declared text := by
  constructor
  · intro hkeeps row hrow
    obtain ⟨activity, hactivity, hbuilt⟩ := h.activity_of_row hrow
    obtain ⟨hid, -, hmodes⟩ := buildActivity_ok hbuilt
    rw [← modesOf_eq_own_iff h.keysNodup, ← hmodes]
    exact hkeeps.modes activity hactivity row.activityId hid
  · intro hdeclared
    refine ⟨?_, ?_, h.predecessors_iff⟩
    · intro request hrequest
      obtain ⟨row, hrow, hid⟩ := List.mem_map.mp (h.known request hrequest)
      obtain ⟨activity, hactivity, hbuilt⟩ := h.activity_of_row hrow
      exact ⟨activity, hactivity, by rw [(buildActivity_ok hbuilt).1, hid]⟩
    · intro activity hactivity activityId hid
      obtain ⟨row, hrow, hbuilt⟩ := h.row_of_activity hactivity
      obtain ⟨hrowId, -, hmodes⟩ := buildActivity_ok hbuilt
      have hsame : row.activityId = activityId := Int.ofNat_inj.mp (hrowId.symm.trans hid)
      rw [hmodes, ← hsame, modesOf_eq_own_iff h.keysNodup]
      exact hdeclared row hrow

end Instance

/-- An accepted text keeps its rows exactly when its request rows are declared. -/
theorem parsePsplibSm_exact_iff (stem : String) (text : List Char) (inst : RCPSPInstance)
    (h : parsePsplibSm stem text = .ok inst) : Keeps text inst ↔ Declared text := by
  obtain ⟨predecessors, hparsed⟩ := parsed_of_ok h
  exact hparsed.keeps_iff

/-! ### One activity with one declared mode -/

def declaredText : List Char :=
  "PRECEDENCE RELATIONS:\n1 1 0\nREQUESTS/DURATIONS:\n1 1 3 1\nRESOURCEAVAILABILITIES:\n1\n".toList

/-- A second mode follows in the request section. -/
def undeclaredText : List Char :=
  "PRECEDENCE RELATIONS:\n1 1 0\nREQUESTS/DURATIONS:\n1 1 3 1\n2 5 1\nRESOURCEAVAILABILITIES:\n1\n".toList

instance (text : List Char) : Decidable (Declared text) :=
  @List.decidableBAll _ _ (fun _ => List.decidableBAll _ _) _

/-- The text with the second mode is accepted, and its instance does not hold it. -/
theorem parsePsplibSm_undeclared :
    ∃ inst, parsePsplibSm "one" undeclaredText = .ok inst ∧ ¬ Keeps undeclaredText inst := by
  obtain ⟨inst, hparsed⟩ := exists_of_isOk (by decide +kernel : (parsePsplibSm "one" undeclaredText).isOk = true)
  obtain ⟨predecessors, hread⟩ := parsed_of_ok hparsed
  refine ⟨inst, hparsed, ?_⟩
  rw [hread.keeps_iff]
  decide +kernel

theorem parsePsplibSm_exact_declared :
    ∃ inst, parsePsplibSm "one" declaredText = .ok inst ∧ Keeps declaredText inst := by
  obtain ⟨inst, hparsed⟩ := exists_of_isOk (by decide +kernel : (parsePsplibSm "one" declaredText).isOk = true)
  exact ⟨inst, hparsed, (parsePsplibSm_exact_iff "one" declaredText inst hparsed).mpr (by decide +kernel)⟩

end TxnOpt.Rcpsp

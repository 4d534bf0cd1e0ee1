import TxnOpt.Lib.Lexicographic
import TxnOpt.Lib.Lines
import TxnOpt.Rcpsp.Model
import Mathlib.Order.Defs.LinearOrder

/-!
# PSPLIB instances

`parse_psplib_sm`, from the text of the file, and `precedence_feasible_initial_state`. A dictionary is the
list of its entries, and a set of predecessors is the list of its members.
-/

namespace TxnOpt.Rcpsp

/-! ### Rows -/

/-- `_section`. -/
def sectionIndex (lines : List (List Char)) (heading : String) : Except PyExc ℕ :=
  match (lines.zipIdx.filter fun entry => strip entry.1 = heading.toList).map Prod.snd with
  | [index] => .ok index
  | _ => .error (.valueError ("PSPLIB file requires exactly one " ++ heading ++ " section"))

/-- The integers of a line that `_INTEGER_ROW` matches. -/
def integerRow (line : List Char) : Option (List ℕ) :=
  if words line = [] then none else (words line).mapM decimalNumber

/-- `lines[first + 1 : next]`, each line with its number. -/
def linesBetween (lines : List (List Char)) (first next : ℕ) : List (List Char × ℕ) :=
  ((lines.zipIdx 1).take next).drop (first + 1)

/-- An entry of `successors` and `mode_counts`, which have the same keys. -/
structure PrecedenceRow where
  activityId : ℕ
  modeCount : ℕ
  successors : List ℕ
  deriving DecidableEq, Repr

/-- An entry of `mode_rows`. -/
structure RequestRow where
  activityId : ℕ
  modeNumber : ℕ
  mode : ActivityMode
  deriving DecidableEq, Repr

/-- One pass of the loop over the precedence section. -/
def precedencePass (rows : List PrecedenceRow) (numbered : List Char × ℕ) : Except PyExc (List PrecedenceRow) :=
  match integerRow numbered.1 with
  | none => .ok rows
  | some (activityId :: modeCount :: successorCount :: successorValues) =>
      if activityId ∈ rows.map PrecedenceRow.activityId then
        .error (.valueError ("duplicate PSPLIB activity " ++ toString activityId))
      else if modeCount = 0 ∨ successorCount ≠ successorValues.length then
        .error (.valueError ("invalid PSPLIB precedence counts at line " ++ toString numbered.2))
      else .ok (rows ++ [⟨activityId, modeCount, successorValues⟩])
  | some _ => .error (.valueError ("invalid PSPLIB precedence row at line " ++ toString numbered.2))

/-- The row with its activity: the first of `width + 3` integers, or the activity of the row before. -/
def namedRow (width : ℕ) (previousActivity : Option ℕ) (values : List ℕ) : Option RequestRow :=
  if values.length = width + 3 then
    match values with
    | activityId :: modeNumber :: duration :: demands => some ⟨activityId, modeNumber, ⟨duration, demands⟩⟩
    | _ => none
  else if values.length = width + 2 then
    match previousActivity, values with
    | some activityId, modeNumber :: duration :: demands => some ⟨activityId, modeNumber, ⟨duration, demands⟩⟩
    | _, _ => none
  else none

/-- One pass of the loop over the request section. The state is `mode_rows` and `previous_activity`. -/
def requestPass (width : ℕ) (ids : List ℕ) (state : List RequestRow × Option ℕ) (numbered : List Char × ℕ) :
    Except PyExc (List RequestRow × Option ℕ) :=
  match integerRow numbered.1 with
  | none => .ok state
  | some values =>
      match namedRow width state.2 values with
      | none => .error (.valueError ("invalid PSPLIB request row at line " ++ toString numbered.2))
      | some row =>
          if (row.activityId, row.modeNumber) ∈ state.1.map (fun stored => (stored.activityId, stored.modeNumber)) ∨
              row.activityId ∉ ids then
            .error (.valueError ("invalid PSPLIB activity/mode identity at line " ++ toString numbered.2))
          else .ok (state.1 ++ [row], some row.activityId)

/-! ### The instance -/

/-- `predecessors[successor].append(activity_id)`. -/
def predecessorPass (activityId : ℕ) (predecessors : List (ℕ × List ℕ)) (successor : ℕ) :
    Except PyExc (List (ℕ × List ℕ)) :=
  if successor ∈ predecessors.map Prod.fst then
    .ok (predecessors.map fun entry =>
      if entry.1 = successor then (entry.1, entry.2 ++ [activityId]) else entry)
  else .error (.valueError ("PSPLIB successor " ++ toString successor ++ " is not an activity"))

/-- The dictionary `predecessors`. -/
def readPredecessors (rows : List PrecedenceRow) : Except PyExc (List (ℕ × List ℕ)) :=
  rows.foldlM (fun predecessors row => row.successors.foldlM (predecessorPass row.activityId) predecessors)
    (rows.map fun row => (row.activityId, []))

/-- The modes of an activity that are in `mode_rows`, up to the declared count. -/
def modesOf (requests : List RequestRow) (row : PrecedenceRow) : List ActivityMode :=
  (List.range' 1 row.modeCount).filterMap fun modeNumber =>
    (requests.find? fun request => request.activityId = row.activityId ∧ request.modeNumber = modeNumber).map
      RequestRow.mode

def buildActivity (requests : List RequestRow) (predecessors : List (ℕ × List ℕ)) (row : PrecedenceRow) :
    Except PyExc Activity :=
  if (modesOf requests row).length ≠ row.modeCount then
    .error (.valueError ("PSPLIB activity " ++ toString row.activityId ++ " has incomplete mode rows"))
  else
    Activity.new row.activityId
      ((sortedBy id ((predecessors.lookup row.activityId).getD [])).map Int.ofNat)
      (modesOf requests row)

/-- The numeric rows after the heading of the capacities. -/
def capacityRow (lines : List (List Char)) : Except PyExc (List ℕ) :=
  match lines.filterMap integerRow with
  | [row] => .ok row
  | _ => .error (.valueError "PSPLIB resource capacities must contain one numeric row")

/-- `parse_psplib_sm` of a file with this stem and this text. -/
def parsePsplibSm (stem : String) (text : List Char) : Except PyExc RCPSPInstance := do
  let lines := splitlines text
  let precedenceStart ← sectionIndex lines "PRECEDENCE RELATIONS:"
  let requestsStart ← sectionIndex lines "REQUESTS/DURATIONS:"
  let capacitiesStart ← sectionIndex lines "RESOURCEAVAILABILITIES:"
  if ¬ (precedenceStart < requestsStart ∧ requestsStart < capacitiesStart) then
    .error (.valueError "PSPLIB sections are not in canonical order")
  let capacities ← capacityRow (lines.drop (capacitiesStart + 1))
  let rows ← (linesBetween lines precedenceStart requestsStart).foldlM precedencePass []
  if rows = [] then
    .error (.valueError "PSPLIB precedence section contains no activities")
  let (requests, _) ← (linesBetween lines requestsStart capacitiesStart).foldlM
    (requestPass capacities.length (rows.map PrecedenceRow.activityId)) ([], none)
  let predecessors ← readPredecessors rows
  let activities ← (sortedBy PrecedenceRow.activityId rows).mapM (buildActivity requests predecessors)
  RCPSPInstance.new stem activities capacities

/-! ### The initial state -/

/-- The least activity without predecessors. -/
def readyActivity (remaining : List (Int × List Int)) : Option Int :=
  ((remaining.filter fun entry => entry.2.isEmpty).map Prod.fst).min?

/-- `del remaining[ready]`, and `predecessors.discard(ready)` everywhere. -/
def discardActivity (ready : Int) (remaining : List (Int × List Int)) : List (Int × List Int) :=
  (remaining.filter fun entry => entry.1 ≠ ready).map fun entry =>
    (entry.1, entry.2.filter fun predecessor => predecessor ≠ ready)

theorem readyActivity_mem {remaining : List (Int × List Int)} {ready : Int}
    (h : readyActivity remaining = some ready) : ready ∈ remaining.map Prod.fst := by
  have hmem := List.min?_mem h
  obtain ⟨entry, hentry, hid⟩ := List.mem_map.mp hmem
  exact List.mem_map.mpr ⟨entry, (List.mem_filter.mp hentry).1, hid⟩

theorem length_discardActivity_lt {remaining : List (Int × List Int)} {ready : Int}
    (h : ready ∈ remaining.map Prod.fst) : (discardActivity ready remaining).length < remaining.length := by
  obtain ⟨entry, hentry, hid⟩ := List.mem_map.mp h
  rw [discardActivity, List.length_map]
  apply List.length_filter_lt_length_iff_exists.mpr
  exact ⟨entry, hentry, by simp [hid]⟩

/-- The loop `while remaining`, with what it appends to the order. -/
def takeReady (remaining : List (Int × List Int)) : Except PyExc (List Int) :=
  if remaining = [] then .ok []
  else
    match _ : readyActivity remaining with
    | none => .error (.valueError "RCPSP precedence graph contains a cycle")
    | some ready => do
        let order ← takeReady (discardActivity ready remaining)
        pure (ready :: order)
termination_by remaining.length
decreasing_by exact length_discardActivity_lt (readyActivity_mem ‹_›)

def precedenceFeasibleInitialState (inst : RCPSPInstance) : Except PyExc RCPSPState := do
  let order ← takeReady (inst.activities.map fun activity => (activity.activityId, activity.predecessors))
  RCPSPState.new order (List.replicate order.length 0)

end TxnOpt.Rcpsp

import TxnOpt.Lib.Fallible
import TxnOpt.Lib.Keys
import TxnOpt.Rcpsp.Kernel
import Mathlib.Data.List.Rotate
import Mathlib.Tactic.Common

/-!
# What the kernel proposes

The proposals are the states one block move or one mode change away, each once. A state is its order and
the mode of every activity, so a move that carries the modes along is a move that keeps them.
-/

namespace TxnOpt.Rcpsp

variable {inst : RCPSPInstance} {snapshot state : RCPSPState}

/-- One block of at most `limit` activities is in another place, and every activity keeps its mode. -/
def MovesBlock (limit : ℕ) (snapshot state : RCPSPState) : Prop :=
  (∃ before block after left right, snapshot.activityOrder = before ++ block ++ after ∧ block ≠ [] ∧
    block.length ≤ limit ∧ before ++ after = left ++ right ∧ state.activityOrder = left ++ block ++ right) ∧
  ∀ id ∈ snapshot.activityOrder, state.modeByActivity id = snapshot.modeByActivity id

/-- One activity is in another of its modes. -/
def ChangesMode (inst : RCPSPInstance) (snapshot state : RCPSPState) : Prop :=
  state.activityOrder = snapshot.activityOrder ∧
  ∃ activity ∈ inst.activities, ∃ modeIndex < activity.modes.length,
    snapshot.modeByActivity activity.activityId ≠ some modeIndex ∧
    state.modeByActivity activity.activityId = some modeIndex ∧
    ∀ id ∈ snapshot.activityOrder, id ≠ activity.activityId →
      state.modeByActivity id = snapshot.modeByActivity id

/-- Every activity has one of its modes. -/
def ModesValid (inst : RCPSPInstance) (state : RCPSPState) : Prop :=
  ∀ activity ∈ inst.activities, ∃ modeIndex, state.modeByActivity activity.activityId = some modeIndex ∧
    modeIndex < activity.modes.length

/-! ### States and modes by activity -/

theorem RCPSPState.ext_iff : state = snapshot ↔
    state.activityOrder = snapshot.activityOrder ∧ state.modeVector = snapshot.modeVector := by
  cases state
  cases snapshot
  simp

theorem RCPSPState.new_eq_ok_iff {order : List Int} {modes : List ℕ} :
    RCPSPState.new order modes = .ok state ↔ state.activityOrder = order ∧ state.modeVector = modes := by
  unfold RCPSPState.new
  constructor
  · intro h
    split_ifs at h
    rw [← Except.ok.inj h]
    exact ⟨rfl, rfl⟩
  · intro h
    rw [← h.1, ← h.2, dif_pos state.orderNonempty, dif_pos state.orderNodup, dif_pos state.orderNonneg,
      dif_pos state.aligned]

theorem RCPSPState.modeByActivity_eq_some_iff {id : Int} {modeIndex : ℕ} :
    state.modeByActivity id = some modeIndex ↔
      ∃ position : ℕ, state.activityOrder[position]? = some id ∧ state.modeVector[position]? = some modeIndex := by
  have hkeys : (state.activityOrder.zip state.modeVector).map Prod.fst = state.activityOrder :=
    List.map_fst_zip (le_of_eq state.aligned.symm)
  unfold RCPSPState.modeByActivity
  rw [lookup_eq_some_iff_mem (by rw [hkeys]; exact state.orderNodup), List.mem_iff_getElem?]
  simp only [List.getElem?_zip_eq_some]

theorem RCPSPState.modeByActivity_getElem {position : ℕ} {id : Int}
    (h : state.activityOrder[position]? = some id) : state.modeByActivity id = state.modeVector[position]? := by
  obtain ⟨hlt, -⟩ := List.getElem?_eq_some_iff.mp h
  rw [← state.aligned] at hlt
  have hmode : state.modeVector[position]? = some state.modeVector[position] := List.getElem?_eq_getElem hlt
  rw [hmode, RCPSPState.modeByActivity_eq_some_iff]
  exact ⟨position, h, hmode⟩

theorem RCPSPState.exists_mode {id : Int} (h : id ∈ state.activityOrder) :
    ∃ modeIndex, state.modeByActivity id = some modeIndex := by
  obtain ⟨position, hposition⟩ := List.mem_iff_getElem?.mp h
  obtain ⟨hlt, -⟩ := List.getElem?_eq_some_iff.mp hposition
  rw [RCPSPState.modeByActivity_getElem hposition, List.getElem?_eq_getElem (state.aligned ▸ hlt)]
  exact ⟨_, rfl⟩

/-- The mode vector lists the modes along the order. -/
theorem RCPSPState.modeVector_eq_iff {modes : List ℕ} (hlength : modes.length = state.activityOrder.length) :
    state.modeVector = modes ↔
      ∀ (position : ℕ) (id : Int), state.activityOrder[position]? = some id → state.modeByActivity id = modes[position]? := by
  constructor
  · intro h position id hposition
    rw [← h]
    exact RCPSPState.modeByActivity_getElem hposition
  · intro h
    apply List.ext_getElem?
    intro position
    by_cases hlt : position < state.activityOrder.length
    · have hposition := List.getElem?_eq_getElem hlt
      rw [← RCPSPState.modeByActivity_getElem hposition, h position _ hposition]
    · rw [List.getElem?_eq_none (by rw [state.aligned]; omega), List.getElem?_eq_none (by omega)]

/-! ### Moved blocks -/

theorem moved_perm {before block after left right : List Int} (h : before ++ after = left ++ right) :
    (left ++ block ++ right).Perm (before ++ block ++ after) := by
  have hfront : ∀ first second : List Int, (first ++ block ++ second).Perm (block ++ (first ++ second)) := by
    intro first second
    rw [← List.append_assoc]
    exact List.perm_append_comm.append_right second
  apply (hfront left right).trans
  rw [← h]
  exact (hfront before after).symm

theorem mem_movedOrders {order moved : List Int} {limit : ℕ} : moved ∈ movedOrders order limit ↔
    moved ≠ order ∧ ∃ before block after left right, order = before ++ block ++ after ∧ block ≠ [] ∧
      block.length ≤ limit ∧ before ++ after = left ++ right ∧ moved = left ++ block ++ right := by
  simp only [movedOrders, List.mem_flatMap, List.mem_range'_1, List.mem_range, List.mem_filterMap]
  constructor
  · intro h
    obtain ⟨blockSize, hsize, start, hstart, insertion, hinsertion, hmoved⟩ := h
    split_ifs at hmoved with hsame
    have hmoved := Option.some.inj hmoved
    rw [hmoved] at hsame
    refine ⟨hsame, order.take start, (order.drop start).take blockSize, order.drop (start + blockSize), _, _,
      ?_, ?_, ?_, (List.take_append_drop insertion _).symm, hmoved.symm⟩
    · rw [← List.drop_drop, List.append_assoc, List.take_append_drop, List.take_append_drop]
    · apply List.ne_nil_of_length_pos
      rw [List.length_take, List.length_drop]
      omega
    · rw [List.length_take, List.length_drop]
      omega
  · intro h
    obtain ⟨hdiffers, before, block, after, left, right, horder, hblock, hlimit, hrest, hmoved⟩ := h
    have hpositive := List.length_pos_iff.mpr hblock
    have hlength : order.length = before.length + block.length + after.length := by
      rw [horder, List.length_append, List.length_append]
    have hrestLength : before.length + after.length = left.length + right.length := by
      rw [← List.length_append, hrest, List.length_append]
    refine ⟨block.length, by omega, before.length, by omega, left.length, ?_, ?_⟩
    · rw [horder, List.append_assoc, List.take_left, ← List.drop_drop, List.drop_left, List.drop_left,
        List.length_append]
      omega
    · have hcut : (order.drop before.length).take block.length = block := by
        rw [horder, List.append_assoc, List.drop_left, List.take_left]
      have hremainder : order.take before.length ++ order.drop (before.length + block.length) = left ++ right := by
        rw [horder, List.append_assoc, List.take_left, ← List.drop_drop, List.drop_left, List.drop_left, hrest]
      rw [hcut, hremainder, List.take_left, List.drop_left, ← hmoved, if_neg hdiffers]

/-- The state of a moved order keeps every mode. -/
theorem movedState_eq_ok_iff {moved : List Int} (hperm : moved.Perm snapshot.activityOrder) :
    movedState snapshot moved = .ok state ↔ state.activityOrder = moved ∧
      ∀ id ∈ snapshot.activityOrder, state.modeByActivity id = snapshot.modeByActivity id := by
  let modeOf : Int → ℕ := fun id => (snapshot.modeByActivity id).getD 0
  have hmode : ∀ id ∈ snapshot.activityOrder, snapshot.modeByActivity id = some (modeOf id) := by
    intro id hid
    obtain ⟨modeIndex, hindex⟩ := RCPSPState.exists_mode hid
    simp [modeOf, hindex]
  have hmodes : moved.mapM (fun item => foundOr (keyError item) (snapshot.modeByActivity item)) =
      .ok (moved.map modeOf) := by
    apply mapM_eq_ok
    intro item hitem
    rw [hmode item (hperm.subset hitem)]
    rfl
  have hstate : movedState snapshot moved = RCPSPState.new moved (moved.map modeOf) := by
    unfold movedState
    rw [hmodes]
    rfl
  rw [hstate, RCPSPState.new_eq_ok_iff]
  apply and_congr_right
  intro horder
  rw [RCPSPState.modeVector_eq_iff (by rw [List.length_map, horder]), horder]
  constructor
  · intro h id hid
    obtain ⟨position, hposition⟩ := List.mem_iff_getElem?.mp (hperm.symm.subset hid)
    rw [h position id hposition, List.getElem?_map, hposition, hmode id hid]
    rfl
  · intro h position id hposition
    have hid := hperm.subset (List.mem_of_getElem? hposition)
    rw [h id hid, hmode id hid, List.getElem?_map, hposition]
    rfl

theorem exists_movedState {moved : List Int} (hperm : moved.Perm snapshot.activityOrder) :
    ∃ state, movedState snapshot moved = .ok state := by
  have hnonempty : moved ≠ [] := by
    intro hnil
    rw [hnil] at hperm
    exact snapshot.orderNonempty hperm.symm.eq_nil
  let modes := moved.map fun id => (snapshot.modeByActivity id).getD 0
  let moved' : RCPSPState := ⟨moved, modes, hnonempty, hperm.symm.nodup snapshot.orderNodup,
    fun id hid => snapshot.orderNonneg id (hperm.subset hid), List.length_map _⟩
  refine ⟨moved', (movedState_eq_ok_iff hperm).mpr ⟨rfl, ?_⟩⟩
  intro id hid
  obtain ⟨position, hposition⟩ := List.mem_iff_getElem?.mp (hperm.symm.subset hid)
  obtain ⟨modeIndex, hindex⟩ := RCPSPState.exists_mode hid
  have hmoved : moved'.modeByActivity id = modes[position]? := RCPSPState.modeByActivity_getElem hposition
  rw [hmoved, List.getElem?_map, hposition, hindex]
  simp [hindex]

/-- The states that the block moves give. -/
theorem moved_states (kernel : RCPSPSearchKernel) (snapshot : RCPSPState) :
    ∃ moved, (movedOrders snapshot.activityOrder kernel.maxBlockSize).mapM (movedState snapshot) = .ok moved ∧
      ∀ state, state ∈ moved ↔ state ≠ snapshot ∧ MovesBlock kernel.maxBlockSize snapshot state := by
  have hperm : ∀ order ∈ movedOrders snapshot.activityOrder kernel.maxBlockSize,
      order.Perm snapshot.activityOrder := by
    intro order horder
    obtain ⟨-, before, block, after, left, right, hsplit, -, -, hrest, hmoved⟩ := mem_movedOrders.mp horder
    rw [hsplit, hmoved]
    exact moved_perm hrest
  obtain ⟨moved, hmoved, hmem⟩ := exists_mapM_eq_ok fun order horder => exists_movedState (hperm order horder)
  refine ⟨moved, hmoved, ?_⟩
  intro state
  rw [hmem]
  constructor
  · intro h
    obtain ⟨order, horder, hstate⟩ := h
    obtain ⟨hsame, hmodes⟩ := (movedState_eq_ok_iff (hperm order horder)).mp hstate
    rw [← hsame] at horder
    obtain ⟨hdiffers, hsplit⟩ := mem_movedOrders.mp horder
    exact ⟨fun heq => hdiffers (congrArg RCPSPState.activityOrder heq), hsplit, hmodes⟩
  · intro h
    obtain ⟨hdiffers, hsplit, hmodes⟩ := h
    have horder : state.activityOrder ∈ movedOrders snapshot.activityOrder kernel.maxBlockSize := by
      refine mem_movedOrders.mpr ⟨?_, hsplit⟩
      intro hsame
      apply hdiffers
      rw [RCPSPState.ext_iff]
      refine ⟨hsame, (RCPSPState.modeVector_eq_iff (by rw [snapshot.aligned, hsame])).mpr ?_⟩
      intro position id hposition
      rw [hsame] at hposition
      rw [hmodes id (List.mem_of_getElem? hposition)]
      exact RCPSPState.modeByActivity_getElem hposition
    exact ⟨state.activityOrder, horder, (movedState_eq_ok_iff (hperm _ horder)).mpr ⟨rfl, hmodes⟩⟩

/-! ### Changed modes -/

theorem byId_known {id : Int} (h : id ∈ inst.ids) :
    ∃ activity ∈ inst.activities, activity.activityId = id ∧ inst.byId id = some activity := by
  obtain ⟨activity, hactivity, hid⟩ := List.mem_map.mp h
  exact ⟨activity, hactivity, hid, (find?_key_eq_some_iff inst.idsNodup).mpr ⟨hactivity, hid⟩⟩

/-- One entry of the mode vector is another. -/
theorem new_set_eq_ok_iff {position : ℕ} {id : Int} (hposition : snapshot.activityOrder[position]? = some id)
    (modeIndex : ℕ) :
    RCPSPState.new snapshot.activityOrder (snapshot.modeVector.set position modeIndex) = .ok state ↔
      state.activityOrder = snapshot.activityOrder ∧ state.modeByActivity id = some modeIndex ∧
        ∀ other ∈ snapshot.activityOrder, other ≠ id →
          state.modeByActivity other = snapshot.modeByActivity other := by
  obtain ⟨hlt, -⟩ := List.getElem?_eq_some_iff.mp hposition
  rw [RCPSPState.new_eq_ok_iff]
  apply and_congr_right
  intro horder
  rw [RCPSPState.modeVector_eq_iff (by rw [List.length_set, snapshot.aligned, horder]), horder]
  constructor
  · intro h
    refine ⟨?_, ?_⟩
    · rw [h position id hposition, List.getElem?_set_self (by rw [snapshot.aligned]; exact hlt)]
    · intro other hother hne
      obtain ⟨place, hplace⟩ := List.mem_iff_getElem?.mp hother
      have hdiffers : position ≠ place := by
        intro hsame
        rw [hsame, hplace] at hposition
        exact hne (Option.some.inj hposition)
      rw [h place other hplace, List.getElem?_set_ne hdiffers, RCPSPState.modeByActivity_getElem hplace]
  · intro h place other hplace
    obtain ⟨hchanged, hkept⟩ := h
    by_cases hsame : other = id
    · have hplaces : place = position := by
        obtain ⟨hltPlace, -⟩ := List.getElem?_eq_some_iff.mp hplace
        rw [hsame, ← hposition] at hplace
        exact (List.getElem?_inj hltPlace snapshot.orderNodup).mp hplace
      rw [hsame, hchanged, hplaces, List.getElem?_set_self (by rw [snapshot.aligned]; exact hlt)]
    · have hdiffers : position ≠ place := by
        intro heq
        rw [← heq, hposition] at hplace
        exact hsame (Option.some.inj hplace).symm
      rw [hkept other (List.mem_of_getElem? hplace) hsame, List.getElem?_set_ne hdiffers,
        RCPSPState.modeByActivity_getElem hplace]

theorem exists_new_set (position modeIndex : ℕ) :
    ∃ state, RCPSPState.new snapshot.activityOrder (snapshot.modeVector.set position modeIndex) = .ok state :=
  ⟨⟨snapshot.activityOrder, snapshot.modeVector.set position modeIndex, snapshot.orderNonempty,
    snapshot.orderNodup, snapshot.orderNonneg, by rw [List.length_set, snapshot.aligned]⟩,
    RCPSPState.new_eq_ok_iff.mpr ⟨rfl, rfl⟩⟩

/-- The states that the mode changes of one activity give. -/
theorem changedModes_states (kernel : RCPSPSearchKernel) {position : ℕ} {activity : Activity}
    (hactivity : activity ∈ kernel.inst.activities)
    (hposition : snapshot.activityOrder[position]? = some activity.activityId) :
    ∃ changed, kernel.changedModes snapshot activity.activityId position = .ok changed ∧
      ∀ state, state ∈ changed ↔ state.activityOrder = snapshot.activityOrder ∧
        ∃ modeIndex < activity.modes.length, snapshot.modeByActivity activity.activityId ≠ some modeIndex ∧
          state.modeByActivity activity.activityId = some modeIndex ∧
          ∀ id ∈ snapshot.activityOrder, id ≠ activity.activityId →
            state.modeByActivity id = snapshot.modeByActivity id := by
  obtain ⟨current, hcurrent⟩ := RCPSPState.exists_mode (List.mem_of_getElem? hposition)
  have hfound : kernel.inst.byId activity.activityId = some activity :=
    (find?_key_eq_some_iff kernel.inst.idsNodup).mpr ⟨hactivity, rfl⟩
  let others := (List.range activity.modes.length).filter fun modeIndex => modeIndex ≠ current
  have hall : ∀ modeIndex ∈ others, ∃ state,
      RCPSPState.new snapshot.activityOrder (snapshot.modeVector.set position modeIndex) = .ok state :=
    fun modeIndex _ => exists_new_set position modeIndex
  obtain ⟨changed, hchanged, hmem⟩ := exists_mapM_eq_ok hall
  refine ⟨changed, ?_, ?_⟩
  · unfold RCPSPSearchKernel.changedModes
    rw [hfound, hcurrent]
    exact hchanged
  · intro state
    rw [hmem, hcurrent]
    simp only [others, List.mem_filter, List.mem_range, decide_eq_true_eq, new_set_eq_ok_iff hposition]
    constructor
    · intro h
      obtain ⟨modeIndex, ⟨hlt, hne⟩, horder, hmode, hkept⟩ := h
      exact ⟨horder, modeIndex, hlt, fun hsame => hne (Option.some.inj hsame).symm, hmode, hkept⟩
    · intro h
      obtain ⟨horder, modeIndex, hlt, hne, hmode, hkept⟩ := h
      exact ⟨modeIndex, ⟨hlt, fun hsame => hne (congrArg some hsame.symm)⟩, horder, hmode, hkept⟩

theorem ChangesMode.ne (h : ChangesMode inst snapshot state) : state ≠ snapshot := by
  obtain ⟨-, activity, -, modeIndex, -, hne, hmode, -⟩ := h
  intro hsame
  rw [hsame] at hmode
  exact hne hmode

/-- The states that the mode changes give. -/
theorem changed_states (kernel : RCPSPSearchKernel)
    (hsame : ∀ id, id ∈ snapshot.activityOrder ↔ id ∈ kernel.inst.ids) :
    ∃ changed, snapshot.activityOrder.zipIdx.mapM (fun (activityId, position) =>
        kernel.changedModes snapshot activityId position) = .ok changed ∧
      ∀ state, state ∈ changed.flatten ↔ ChangesMode kernel.inst snapshot state := by
  have hentry : ∀ entry ∈ snapshot.activityOrder.zipIdx, ∃ activity ∈ kernel.inst.activities,
      entry.1 = activity.activityId ∧ snapshot.activityOrder[entry.2]? = some activity.activityId := by
    intro entry hentry
    have hposition := List.mem_zipIdx_iff_getElem?.mp hentry
    obtain ⟨activity, hactivity, hid, -⟩ := byId_known ((hsame _).mp (List.mem_of_getElem? hposition))
    exact ⟨activity, hactivity, hid.symm, by rw [hid]; exact hposition⟩
  have hall : ∀ entry ∈ snapshot.activityOrder.zipIdx, ∃ states,
      kernel.changedModes snapshot entry.1 entry.2 = .ok states := by
    intro entry hmember
    obtain ⟨activity, hactivity, hid, hposition⟩ := hentry entry hmember
    obtain ⟨states, hstates, -⟩ := changedModes_states kernel hactivity hposition
    rw [hid]
    exact ⟨states, hstates⟩
  obtain ⟨changed, hchanged, hmem⟩ := exists_mapM_eq_ok hall
  refine ⟨changed, hchanged, ?_⟩
  intro state
  rw [List.mem_flatten]
  constructor
  · intro h
    obtain ⟨states, hstates, hstate⟩ := h
    obtain ⟨entry, hmember, hresult⟩ := (hmem states).mp hstates
    obtain ⟨activity, hactivity, hid, hposition⟩ := hentry entry hmember
    obtain ⟨others, hothers, hspec⟩ := changedModes_states kernel hactivity hposition
    rw [hid, hothers] at hresult
    rw [← Except.ok.inj hresult, hspec] at hstate
    exact ⟨hstate.1, activity, hactivity, hstate.2⟩
  · intro h
    obtain ⟨horder, activity, hactivity, hmode⟩ := h
    have hmember : activity.activityId ∈ snapshot.activityOrder :=
      (hsame _).mpr (List.mem_map_of_mem hactivity)
    obtain ⟨position, hposition⟩ := List.mem_iff_getElem?.mp hmember
    obtain ⟨states, hstates, hspec⟩ := changedModes_states kernel hactivity hposition
    refine ⟨states, (hmem states).mpr ⟨(activity.activityId, position), ?_, hstates⟩,
      (hspec state).mpr ⟨horder, hmode⟩⟩
    exact List.mem_zipIdx_iff_getElem?.mpr hposition

/-! ### The proposals -/

/-- The proposals before rotation and truncation. -/
theorem uniqueProposals_states (kernel : RCPSPSearchKernel)
    (hsame : ∀ id, id ∈ snapshot.activityOrder ↔ id ∈ kernel.inst.ids) :
    ∃ unique, kernel.uniqueProposals snapshot = .ok unique ∧ unique.Nodup ∧
      ∀ state, state ∈ unique ↔ state ≠ snapshot ∧
        (MovesBlock kernel.maxBlockSize snapshot state ∨ ChangesMode kernel.inst snapshot state) := by
  obtain ⟨moved, hmoved, hmovedMem⟩ := moved_states kernel snapshot
  obtain ⟨changed, hchanged, hchangedMem⟩ := changed_states kernel hsame
  refine ⟨firsts id [] (moved ++ changed.flatten), ?_, ?_, ?_⟩
  · unfold RCPSPSearchKernel.uniqueProposals
    rw [hmoved]
    change Except.bind (snapshot.activityOrder.zipIdx.mapM fun (activityId, position) =>
      kernel.changedModes snapshot activityId position) _ = _
    rw [hchanged]
    rfl
  · simpa using firsts_nodup id [] (moved ++ changed.flatten)
  · intro state
    have hmem := mem_map_firsts id [] (moved ++ changed.flatten) state
    simp only [List.map_id, List.not_mem_nil, not_false_eq_true, and_true] at hmem
    rw [hmem, List.mem_append, hmovedMem, hchangedMem]
    constructor
    · intro h
      cases h with
      | inl hmoves => exact ⟨hmoves.1, .inl hmoves.2⟩
      | inr hchanges => exact ⟨hchanges.ne, .inr hchanges⟩
    · intro h
      obtain ⟨hdiffers, hmoves | hchanges⟩ := h
      · exact .inl ⟨hdiffers, hmoves⟩
      · exact .inr hchanges

/-- A proposal reorders the activities. -/
theorem activityOrder_perm {limit : ℕ}
    (h : MovesBlock limit snapshot state ∨ ChangesMode inst snapshot state) :
    state.activityOrder.Perm snapshot.activityOrder := by
  cases h with
  | inl hmoves =>
      obtain ⟨⟨before, block, after, left, right, horder, -, -, hrest, hmoved⟩, -⟩ := hmoves
      rw [horder, hmoved]
      exact moved_perm hrest
  | inr hchanges => rw [hchanges.1]

/-- A proposal keeps the modes valid. -/
theorem ModesValid.proposal {limit : ℕ} (hvalid : ModesValid inst snapshot)
    (hsame : ∀ id, id ∈ snapshot.activityOrder ↔ id ∈ inst.ids)
    (h : MovesBlock limit snapshot state ∨ ChangesMode inst snapshot state) : ModesValid inst state := by
  intro activity hactivity
  have hid := (hsame _).mpr (List.mem_map_of_mem hactivity)
  cases h with
  | inl hmoves =>
      rw [hmoves.2 _ hid]
      exact hvalid activity hactivity
  | inr hchanges =>
      obtain ⟨-, other, hother, modeIndex, hlt, -, hmode, hkept⟩ := hchanges
      by_cases hactivityId : activity.activityId = other.activityId
      · rw [eq_of_key_eq inst.idsNodup hactivity hother hactivityId]
        exact ⟨modeIndex, hmode, hlt⟩
      · rw [hkept _ hid hactivityId]
        exact hvalid activity hactivity

/-- What `propose` returns is a prefix of a rotation of the proposals. -/
theorem propose_eq (kernel : RCPSPSearchKernel) (snapshot : RCPSPSchedule) (roundId first : Int)
    (rest : List Int) {unique : List RCPSPState} (hunique : kernel.uniqueProposals snapshot.state = .ok unique) :
    ∃ offset, kernel.propose snapshot roundId (first :: rest) =
      .ok ((unique.rotate offset).take (kernel.maxCandidates * 4)) := by
  have hpropose : kernel.propose snapshot roundId (first :: rest) =
      if unique = [] then .ok []
      else .ok ((unique.drop ((first + roundId) % unique.length).toNat ++
        unique.take ((first + roundId) % unique.length).toNat).take (kernel.maxCandidates * 4)) := by
    unfold RCPSPSearchKernel.propose
    rw [hunique]
    by_cases hempty : unique = []
    · rw [if_pos hempty]
      exact if_pos hempty
    · rw [if_neg hempty]
      exact if_neg hempty
  rw [hpropose]
  by_cases hempty : unique = []
  · rw [if_pos hempty, hempty]
    exact ⟨0, by simp⟩
  · rw [if_neg hempty]
    refine ⟨((first + roundId) % unique.length).toNat, ?_⟩
    have hpositive : (0 : Int) < unique.length := Int.natCast_pos.mpr (List.length_pos_iff.mpr hempty)
    have hlt := Int.emod_lt_of_pos (first + roundId) hpositive
    rw [List.rotate_eq_drop_append_take (by omega)]

/-- The proposals of a snapshot over the instance's activities are the other states that one block move or
one mode change reaches, each once; they reorder the activities and keep valid modes valid, and a prefix of
a rotation of them is returned. -/
theorem propose_exact (kernel : RCPSPSearchKernel) (snapshot : RCPSPSchedule) (roundId first : Int)
    (rest : List Int) (hsame : ∀ id, id ∈ snapshot.state.activityOrder ↔ id ∈ kernel.inst.ids) :
    ∃ unique, kernel.uniqueProposals snapshot.state = .ok unique ∧ unique.Nodup ∧
      (∀ state, state ∈ unique ↔ state ≠ snapshot.state ∧
        (MovesBlock kernel.maxBlockSize snapshot.state state ∨ ChangesMode kernel.inst snapshot.state state)) ∧
      (∀ state ∈ unique, state.activityOrder.Perm kernel.inst.ids ∧
        (ModesValid kernel.inst snapshot.state → ModesValid kernel.inst state)) ∧
      ∃ offset, kernel.propose snapshot roundId (first :: rest) =
        .ok ((unique.rotate offset).take (kernel.maxCandidates * 4)) := by
  obtain ⟨unique, hunique, hnodup, hmem⟩ := uniqueProposals_states kernel hsame
  refine ⟨unique, hunique, hnodup, hmem, ?_, propose_eq kernel snapshot roundId first rest hunique⟩
  intro state hstate
  obtain ⟨-, hreached⟩ := (hmem state).mp hstate
  constructor
  · apply (activityOrder_perm hreached).trans
    exact (List.perm_ext_iff_of_nodup snapshot.state.orderNodup kernel.inst.idsNodup).mpr hsame
  · intro hvalid
    exact hvalid.proposal hsame hreached

/-! ### Two activities -/

def pairKernel : RCPSPSearchKernel where
  inst :=
    .oneResource "pair"
      [.free 1 ⟨2, [1]⟩,
        { Activity.free 2 ⟨3, [1]⟩ with
          modes := [⟨3, [1]⟩, ⟨4, [0]⟩]
          modesNonempty := by decide
          sharedWidth := by decide }]
      (by decide) (by simp) (by decide) (by decide) (by decide)
  maxBlockSize := 3
  maxCandidates := 64
  blockSizePos := by decide
  candidatesPos := by decide

def pairSchedule : RCPSPSchedule where
  state := ⟨[1, 2], [0, 0], by decide, by decide, by decide, by decide⟩
  activities := [⟨1, 0, 0, 2⟩, ⟨2, 0, 2, 5⟩]
  makespan := 5
  activitiesNodup := by decide

theorem propose_exact_pair : ∃ unique, pairKernel.uniqueProposals pairSchedule.state = .ok unique ∧ unique.Nodup ∧
    (∀ state, state ∈ unique ↔ state ≠ pairSchedule.state ∧
      (MovesBlock 3 pairSchedule.state state ∨ ChangesMode pairKernel.inst pairSchedule.state state)) ∧
    (∀ state ∈ unique, state.activityOrder.Perm pairKernel.inst.ids ∧
      (ModesValid pairKernel.inst pairSchedule.state → ModesValid pairKernel.inst state)) ∧
    ∃ offset, pairKernel.propose pairSchedule 0 [7] = .ok ((unique.rotate offset).take 256) :=
  propose_exact pairKernel pairSchedule 0 7 [] (fun _ => Iff.rfl)

end TxnOpt.Rcpsp

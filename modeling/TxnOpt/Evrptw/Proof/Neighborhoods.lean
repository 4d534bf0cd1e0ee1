import TxnOpt.Evrptw.Neighborhoods
import TxnOpt.Lib.Fallible
import TxnOpt.Lib.Rows
import Mathlib.Logic.Equiv.Basic

/-!
# The neighbourhood of a partition

The plans are the other partitions that one merge, one relocation or one swap reaches. The index arithmetic
of the loops is that of splitting the routes at a customer and at a place for it.
-/

namespace TxnOpt.Evrptw

variable {routes changed : CustomerRoutes}

/-- Distinct customers in non-empty routes. -/
structure Partition (routes : CustomerRoutes) : Prop where
  nonempty : ∀ route ∈ routes, route ≠ []
  nodup : routes.flatten.Nodup

/-- Two routes are one, in the place of the earlier. -/
def Merges (routes changed : CustomerRoutes) : Prop :=
  ∃ before left middle right after, routes = before ++ left :: (middle ++ right :: after) ∧
    (changed = before ++ (left ++ right) :: (middle ++ after) ∨
      changed = before ++ (right ++ left) :: (middle ++ after))

/-- A customer is in another place, and a route that it empties is gone. -/
def Relocates (routes changed : CustomerRoutes) : Prop :=
  changed ≠ routes ∧ ∃ (source target : ℕ) (customer : String) (front back left right : List String),
    routes[source]? = some (front ++ customer :: back) ∧
    (routes.set source (front ++ back))[target]? = some (left ++ right) ∧
    changed = ((routes.set source (front ++ back)).set target (left ++ customer :: right)).filter
      fun route => route ≠ []

/-- Two customers have changed places. -/
def Swaps (routes changed : CustomerRoutes) : Prop :=
  ∃ first ∈ routes.flatten, ∃ second ∈ routes.flatten, first ≠ second ∧
    changed = routes.map (List.map (Equiv.swap first second))

/-! ### Merges -/

/-- The routes other than two. -/
theorem kept_others (before middle after : CustomerRoutes) (left right : List String) :
    (((before ++ left :: (middle ++ right :: after)).zipIdx.filter fun (_, index) =>
      index ≠ before.length ∧ index ≠ before.length + 1 + middle.length).map Prod.fst) =
      before ++ (middle ++ after) := by
  rw [List.zipIdx_append, List.zipIdx_cons, List.zipIdx_append, List.zipIdx_cons, List.filter_append,
    List.filter_cons_of_neg (by simp), List.filter_append, List.filter_cons_of_neg (by simp),
    List.map_append, List.map_append, kept_eq_self, kept_eq_self, kept_eq_self]
  all_goals
    intro row index hlower hupper
    simp only [ne_eq, Bool.decide_and, Bool.and_eq_true, decide_eq_true_eq]
    omega

theorem exists_split_two {left right : ℕ} (hlt : left < right) (hright : right < routes.length) :
    ∃ before leftRoute middle rightRoute after,
      routes = before ++ leftRoute :: (middle ++ rightRoute :: after) ∧ before.length = left ∧
        before.length + 1 + middle.length = right := by
  refine ⟨routes.take left, routes[left], (routes.drop (left + 1)).take (right - (left + 1)), routes[right],
    routes.drop (right + 1), ?_, ?_, ?_⟩
  · have hrest : routes.drop (left + 1) =
        (routes.drop (left + 1)).take (right - (left + 1)) ++ routes[right] :: routes.drop (right + 1) := by
      have htail : (routes.drop (left + 1)).drop (right - (left + 1)) = routes.drop right := by
        rw [List.drop_drop]
        congr 1
        omega
      calc routes.drop (left + 1)
          = (routes.drop (left + 1)).take (right - (left + 1)) ++
              (routes.drop (left + 1)).drop (right - (left + 1)) := (List.take_append_drop _ _).symm
        _ = _ := by rw [htail, List.drop_eq_getElem_cons hright]
    rw [← hrest, ← List.drop_eq_getElem_cons, List.take_append_drop]
  · rw [List.length_take]
    omega
  · rw [List.length_take, List.length_take, List.length_drop]
    omega

theorem getD_length (before after : CustomerRoutes) (route : List String) :
    (before ++ route :: after).getD before.length [] = route := by
  simp [List.getD_eq_getElem?_getD]

/-- The routes at the two indices. -/
theorem getD_two (before middle after : CustomerRoutes) (left right : List String) :
    (before ++ left :: (middle ++ right :: after)).getD before.length [] = left ∧
      (before ++ left :: (middle ++ right :: after)).getD (before.length + 1 + middle.length) [] = right := by
  refine ⟨getD_length _ _ _, ?_⟩
  have hright := getD_length (before ++ left :: middle) after right
  rw [List.append_assoc, List.cons_append, List.length_append, List.length_cons] at hright
  rwa [show before.length + (middle.length + 1) = before.length + 1 + middle.length by omega] at hright

theorem mem_mergeRoutes : changed ∈ mergeRoutes routes ↔ Merges routes changed := by
  simp only [mergeRoutes, List.mem_flatMap, List.mem_range, List.mem_range'_1, List.mem_map, List.mem_cons,
    List.not_mem_nil, or_false, exists_eq_or_imp, exists_eq_left]
  constructor
  · intro h
    obtain ⟨left, hleft, right, hright, hchanged⟩ := h
    have hlt : left < right := by omega
    have hlast : right < routes.length := by omega
    obtain ⟨before, leftRoute, middle, rightRoute, after, hroutes, hbefore, hmiddle⟩ := exists_split_two hlt hlast
    refine ⟨before, leftRoute, middle, rightRoute, after, hroutes, ?_⟩
    obtain ⟨hleftRoute, hrightRoute⟩ := getD_two before middle after leftRoute rightRoute
    rw [← hmiddle, ← hbefore, hroutes, kept_others, hleftRoute, hrightRoute, List.take_left,
      List.drop_left] at hchanged
    exact hchanged.imp Eq.symm Eq.symm
  · intro h
    obtain ⟨before, leftRoute, middle, rightRoute, after, hroutes, hchanged⟩ := h
    obtain ⟨hleftRoute, hrightRoute⟩ := getD_two before middle after leftRoute rightRoute
    have hlength : routes.length = before.length + 1 + middle.length + 1 + after.length := by
      rw [hroutes]
      simp
      omega
    refine ⟨before.length, by omega, before.length + 1 + middle.length, by omega, ?_⟩
    rw [hroutes, kept_others, hleftRoute, hrightRoute, List.take_left, List.drop_left]
    exact hchanged.imp Eq.symm Eq.symm

/-! ### Relocations -/

theorem eq_take_append_cons_drop {route : List String} {position : ℕ} {customer : String}
    (h : route[position]? = some customer) :
    route = route.take position ++ customer :: route.drop (position + 1) := by
  obtain ⟨hlt, hcustomer⟩ := List.getElem?_eq_some_iff.mp h
  rw [← hcustomer, ← List.drop_eq_getElem_cons, List.take_append_drop]

theorem filter_nonempty_eq_self {rows : CustomerRoutes} (h : ∀ route ∈ rows, route ≠ []) :
    rows.filter (fun route => route ≠ []) = rows := by
  rw [List.filter_eq_self]
  intro route hroute
  simpa using h route hroute

theorem set_nonempty (h : ∀ route ∈ routes, route ≠ []) (index : ℕ) {row : List String} (hrow : row ≠ []) :
    ∀ route ∈ routes.set index row, route ≠ [] := by
  intro route hroute
  cases List.mem_or_eq_of_mem_set hroute with
  | inl hmem => exact h route hmem
  | inr hsame =>
      rw [hsame]
      exact hrow

theorem mem_relocateRoutes : changed ∈ relocateRoutes routes ↔
    ∃ (sourceIndex sourcePosition targetIndex targetPosition : ℕ) (source target : List String) (customer : String),
      routes[sourceIndex]? = some source ∧ source[sourcePosition]? = some customer ∧
      routes[targetIndex]? = some target ∧ targetPosition ≤ target.length ∧
      ¬ (sourceIndex = targetIndex ∧
        (targetPosition = sourcePosition ∨ targetPosition = sourcePosition + 1)) ∧
      relocated routes sourceIndex sourcePosition source customer targetIndex targetPosition target = changed := by
  simp only [relocateRoutes, List.mem_flatMap, Prod.exists, List.mem_zipIdx_iff_getElem?, List.mem_filterMap,
    List.mem_range, Option.ite_none_left_eq_some, Option.some.injEq]
  constructor
  · intro h
    obtain ⟨source, sourceIndex, hsource, customer, sourcePosition, hcustomer, target, targetIndex, htarget,
      targetPosition, hposition, hother, hchanged⟩ := h
    exact ⟨sourceIndex, sourcePosition, targetIndex, targetPosition, source, target, customer, hsource, hcustomer,
      htarget, by omega, hother, hchanged⟩
  · intro h
    obtain ⟨sourceIndex, sourcePosition, targetIndex, targetPosition, source, target, customer, hsource, hcustomer,
      htarget, hposition, hother, hchanged⟩ := h
    exact ⟨source, sourceIndex, hsource, customer, sourcePosition, hcustomer, target, targetIndex, htarget,
      targetPosition, by omega, hother, hchanged⟩

theorem shortened_eq (front back : List String) (customer : String) :
    (front ++ customer :: back).take front.length ++ (front ++ customer :: back).drop (front.length + 1) =
      front ++ back := by
  rw [List.take_left, ← List.drop_drop, List.drop_left, List.drop_one, List.tail_cons]

/-- A relocation within a route, to the place `insertion` of the shortened route. -/
theorem relocated_within (sourceIndex insertion : ℕ) (front back target : List String) (customer : String) :
    relocated routes sourceIndex front.length (front ++ customer :: back) customer sourceIndex
        (if insertion < front.length then insertion else insertion + 1) target =
      routes.set sourceIndex ((front ++ back).take insertion ++ customer :: (front ++ back).drop insertion) := by
  have hinsertion : (if insertion < front.length then insertion else insertion + 1) -
      (if (if insertion < front.length then insertion else insertion + 1) > front.length then 1 else 0) =
      insertion := by
    split_ifs
    all_goals omega
  unfold relocated
  rw [shortened_eq, if_pos rfl, hinsertion]

/-- A relocation to another route. -/
theorem relocated_across {sourceIndex targetIndex : ℕ} (hindex : sourceIndex ≠ targetIndex)
    (front back left right : List String) (customer : String) :
    relocated routes sourceIndex front.length (front ++ customer :: back) customer targetIndex left.length
        (left ++ right) =
      ((routes.set sourceIndex (front ++ back)).set targetIndex (left ++ customer :: right)).filter
        fun route => route ≠ [] := by
  unfold relocated
  rw [shortened_eq, if_neg hindex, List.take_left, List.drop_left]

/-- A customer set back to another place of its route changes the routes. -/
theorem set_within_ne (h : Partition routes) {index : ℕ} {front back left right : List String} {customer : String}
    (hrow : routes[index]? = some (front ++ customer :: back)) (hplace : left.length ≠ front.length) :
    routes.set index (left ++ customer :: right) ≠ routes := by
  intro hsame
  have hnodup := (List.nodup_flatten.mp h.nodup).1 _ (List.mem_of_getElem? hrow)
  obtain ⟨hlt, -⟩ := List.getElem?_eq_some_iff.mp hrow
  rw [← hsame, List.getElem?_set_self hlt, Option.some.injEq] at hrow
  have hfirst : (front ++ customer :: back)[left.length]? = some customer := by
    rw [← hrow]
    simp
  have hsecond : (front ++ customer :: back)[front.length]? = some customer := by simp
  obtain ⟨hposition, -⟩ := List.getElem?_eq_some_iff.mp hfirst
  exact hplace ((List.getElem?_inj hposition hnodup).mp (hfirst.trans hsecond.symm))

/-- A route that loses a customer is shorter or gone. -/
theorem set_across_ne {source target : ℕ} (hindex : source ≠ target)
    {front back row : List String} {customer : String}
    (hrow : routes[source]? = some (front ++ customer :: back)) (hrows : ∀ route ∈ routes, route ≠ [])
    (hnonempty : row ≠ []) :
    ((routes.set source (front ++ back)).set target row).filter (fun route => route ≠ []) ≠ routes := by
  obtain ⟨hlt, -⟩ := List.getElem?_eq_some_iff.mp hrow
  have hshortened : ((routes.set source (front ++ back)).set target row)[source]? = some (front ++ back) := by
    rw [List.getElem?_set_ne hindex.symm, List.getElem?_set_self hlt]
  intro hsame
  by_cases hempty : front ++ back = []
  · have hshorter : (((routes.set source (front ++ back)).set target row).filter
        (fun route => route ≠ [])).length < ((routes.set source (front ++ back)).set target row).length :=
      List.length_filter_lt_length_iff_exists.mpr ⟨_, List.mem_of_getElem? hshortened, by simpa using hempty⟩
    rw [hsame, List.length_set, List.length_set] at hshorter
    omega
  · rw [filter_nonempty_eq_self (set_nonempty (set_nonempty hrows source hempty) target hnonempty)] at hsame
    rw [hsame, hrow, Option.some.injEq] at hshortened
    have hlength := congrArg List.length hshortened
    simp at hlength

theorem relocates_of_mem (h : Partition routes) (hmem : changed ∈ relocateRoutes routes) :
    Relocates routes changed := by
  obtain ⟨source, position, target, place, sourceRow, targetRow, customer, hsource, hcustomer, htarget, hplace,
    hother, hchanged⟩ := mem_relocateRoutes.mp hmem
  have hsplit := eq_take_append_cons_drop hcustomer
  obtain ⟨hposition, -⟩ := List.getElem?_eq_some_iff.mp hcustomer
  obtain ⟨hlt, -⟩ := List.getElem?_eq_some_iff.mp hsource
  have hfront : (sourceRow.take position).length = position := by
    rw [List.length_take]
    omega
  generalize sourceRow.take position = front at hsplit hfront
  generalize sourceRow.drop (position + 1) = back at hsplit
  rw [hsplit, ← hfront] at hchanged
  rw [hsplit] at hsource
  by_cases hindex : source = target
  · let insertion := if place > position then place - 1 else place
    have hback : place = if insertion < front.length then insertion else insertion + 1 := by
      simp only [insertion]
      split_ifs
      all_goals omega
    have hlength : targetRow.length = front.length + 1 + back.length := by
      rw [← hindex, hsource, Option.some.injEq] at htarget
      rw [← htarget]
      simp
      omega
    have htaken : ((front ++ back).take insertion).length = insertion := by
      rw [List.length_take, List.length_append]
      simp only [insertion]
      split_ifs
      all_goals omega
    rw [← hindex, hback, relocated_within] at hchanged
    rw [← hchanged]
    refine ⟨set_within_ne h hsource ?_, source, source, customer, front, back, (front ++ back).take insertion,
      (front ++ back).drop insertion, hsource, ?_, ?_⟩
    · rw [htaken]
      simp only [insertion]
      split_ifs
      all_goals omega
    · rw [List.getElem?_set_self hlt, List.take_append_drop]
    · rw [List.set_set, filter_nonempty_eq_self (set_nonempty h.nonempty source (by simp))]
  · have hplaced : (targetRow.take place).length = place := by
      rw [List.length_take]
      omega
    have hacross : relocated routes source front.length (front ++ customer :: back) customer target
        (targetRow.take place).length (targetRow.take place ++ targetRow.drop place) = _ :=
      relocated_across hindex front back (targetRow.take place) (targetRow.drop place) customer
    rw [hplaced, List.take_append_drop] at hacross
    rw [hacross] at hchanged
    rw [← hchanged]
    refine ⟨set_across_ne hindex hsource h.nonempty (by simp), source, target, customer, front, back,
      targetRow.take place, targetRow.drop place, hsource, ?_, rfl⟩
    rw [List.getElem?_set_ne hindex, htarget, List.take_append_drop]

theorem mem_of_relocates (h : Partition routes) (hrelocates : Relocates routes changed) :
    changed ∈ relocateRoutes routes := by
  obtain ⟨hdiffers, source, target, customer, front, back, left, right, hsource, htarget, hchanged⟩ := hrelocates
  obtain ⟨hlt, hget⟩ := List.getElem?_eq_some_iff.mp hsource
  have hcustomer : (front ++ customer :: back)[front.length]? = some customer := by simp
  rw [mem_relocateRoutes]
  by_cases hindex : source = target
  · rw [← hindex, List.getElem?_set_self hlt, Option.some.injEq] at htarget
    rw [← hindex, List.set_set, filter_nonempty_eq_self (set_nonempty h.nonempty source (by simp))] at hchanged
    have hlength := congrArg List.length htarget
    rw [List.length_append, List.length_append] at hlength
    have hplace : left.length ≠ front.length := by
      intro hsame
      obtain ⟨hfront, hback⟩ := List.append_inj htarget hsame.symm
      apply hdiffers
      rw [hchanged, ← hfront, ← hback, ← hget, List.set_getElem_self]
    refine ⟨source, front.length, source, if left.length < front.length then left.length else left.length + 1,
      _, _, customer, hsource, hcustomer, hsource, ?_, ?_, ?_⟩
    · rw [List.length_append, List.length_cons]
      split_ifs
      all_goals omega
    · split_ifs
      all_goals omega
    · rw [relocated_within, htarget, List.take_left, List.drop_left, hchanged]
  · rw [List.getElem?_set_ne hindex] at htarget
    refine ⟨source, front.length, target, left.length, _, _, customer, hsource, hcustomer, htarget, by simp, ?_, ?_⟩
    · intro hsame
      exact hindex hsame.1
    · rw [relocated_across hindex, hchanged]

/-! ### Swaps -/

theorem mem_positions {position : ℕ × ℕ} :
    position ∈ positions routes ↔ ∃ customer, entry routes position.1 position.2 = some customer := by
  simp only [positions, List.mem_flatMap, List.mem_map, List.mem_range, Prod.exists, List.mem_zipIdx_iff_getElem?,
    entry_eq_some_iff]
  constructor
  · intro h
    obtain ⟨route, index, hroute, place, hplace, hsame⟩ := h
    rw [← hsame]
    exact ⟨route[place], route, hroute, List.getElem?_eq_getElem hplace⟩
  · intro h
    obtain ⟨customer, route, hroute, hcustomer⟩ := h
    exact ⟨route, position.1, hroute, position.2, (List.getElem?_eq_some_iff.mp hcustomer).1, rfl⟩

theorem positions_nodup (routes : CustomerRoutes) : (positions routes).Nodup := by
  have hindices : (routes.zipIdx.map Prod.snd).Nodup := by
    rw [List.zipIdx_map_snd]
    exact List.nodup_range'
  rw [positions, List.nodup_flatMap]
  constructor
  · intro row _
    exact List.nodup_range.map fun first second hsame => (Prod.mk.inj hsame).2
  · apply (List.pairwise_map.mp hindices).imp
    intro first second hne position hfirst hsecond
    obtain ⟨place, -, hplace⟩ := List.mem_map.mp hfirst
    obtain ⟨other, -, hother⟩ := List.mem_map.mp hsecond
    exact hne (congrArg Prod.fst (hplace.trans hother.symm))

theorem customerAt_eq {position : ℕ × ℕ} {customer : String}
    (h : entry routes position.1 position.2 = some customer) : customerAt routes position = customer := by
  obtain ⟨route, hroute, hcustomer⟩ := entry_eq_some_iff.mp h
  simp [customerAt, List.getD_eq_getElem?_getD, hroute, hcustomer]

theorem mem_swapRoutes : changed ∈ swapRoutes routes ↔
    ∃ (first second : ℕ) (left right : ℕ × ℕ), first < second ∧ (positions routes)[first]? = some left ∧
      (positions routes)[second]? = some right ∧
      assignAt (assignAt routes left (customerAt routes right)) right (customerAt routes left) = changed := by
  simp only [swapRoutes, List.mem_flatMap, List.mem_map, Prod.exists, List.mem_zipIdx_iff_getElem?]
  simp only [List.mem_iff_getElem?, List.getElem?_drop]
  constructor
  · intro h
    obtain ⟨leftRoute, leftPlace, first, hleft, rightRoute, rightPlace, ⟨offset, hright⟩, hchanged⟩ := h
    exact ⟨first, first + 1 + offset, leftRoute, leftPlace, rightRoute, rightPlace, by omega, hleft, hright,
      hchanged⟩
  · intro h
    obtain ⟨first, second, leftRoute, leftPlace, rightRoute, rightPlace, hlt, hleft, hright, hchanged⟩ := h
    refine ⟨leftRoute, leftPlace, first, hleft, rightRoute, rightPlace, ⟨second - (first + 1), ?_⟩, hchanged⟩
    rw [show first + 1 + (second - (first + 1)) = second by omega]
    exact hright

/-- Exchanging two entries renames the two customers. -/
theorem assign_eq_swap (h : Partition routes) {left right : ℕ × ℕ} {first second : String}
    (hleft : entry routes left.1 left.2 = some first) (hright : entry routes right.1 right.2 = some second) :
    assignAt (assignAt routes left second) right first = routes.map (List.map (Equiv.swap first second)) := by
  apply rows_ext
  · unfold assignAt
    rw [map_length_modify_set, map_length_modify_set, List.map_map]
    apply List.map_congr_left
    intro route _
    exact (List.length_map _).symm
  · intro index place
    unfold assignAt
    rw [entry_modify_set, entry_modify_set, entry_map]
    cases hentry : entry routes index place with
    | none => simp
    | some customer =>
        by_cases hsecond : right.1 = index ∧ right.2 = place
        · rw [hsecond.1, hsecond.2, hentry, Option.some.injEq] at hright
          rw [if_pos hsecond, hright]
          by_cases hfirst : left.1 = index ∧ left.2 = place
          · simp [hfirst, Equiv.swap_apply_right]
          · simp [hfirst, Equiv.swap_apply_right]
        · have hotherSecond : customer ≠ second := by
            intro hsame
            rw [hsame] at hentry
            exact hsecond (entry_unique h.nodup hright hentry)
          rw [if_neg hsecond]
          by_cases hfirst : left.1 = index ∧ left.2 = place
          · rw [hfirst.1, hfirst.2, hentry, Option.some.injEq] at hleft
            rw [if_pos hfirst, hleft]
            simp [Equiv.swap_apply_left]
          · have hotherFirst : customer ≠ first := by
              intro hsame
              rw [hsame] at hentry
              exact hfirst (entry_unique h.nodup hleft hentry)
            rw [if_neg hfirst, Option.map_some, Equiv.swap_apply_of_ne_of_ne hotherFirst hotherSecond]

theorem mem_swapRoutes_iff (h : Partition routes) : changed ∈ swapRoutes routes ↔ Swaps routes changed := by
  rw [mem_swapRoutes]
  constructor
  · intro hmem
    obtain ⟨first, second, left, right, hlt, hleft, hright, hchanged⟩ := hmem
    obtain ⟨leftCustomer, hleftCustomer⟩ := mem_positions.mp (List.mem_of_getElem? hleft)
    obtain ⟨rightCustomer, hrightCustomer⟩ := mem_positions.mp (List.mem_of_getElem? hright)
    have hne : leftCustomer ≠ rightCustomer := by
      intro hsame
      rw [hsame] at hleftCustomer
      obtain ⟨hroute, hplace⟩ := entry_unique h.nodup hleftCustomer hrightCustomer
      obtain ⟨hfirst, -⟩ := List.getElem?_eq_some_iff.mp hleft
      rw [Prod.ext hroute hplace, ← hright] at hleft
      have hindex := (List.getElem?_inj hfirst (positions_nodup routes)).mp hleft
      omega
    rw [customerAt_eq hleftCustomer, customerAt_eq hrightCustomer,
      assign_eq_swap h hleftCustomer hrightCustomer] at hchanged
    exact ⟨leftCustomer, mem_flatten_iff_entry.mpr ⟨_, _, hleftCustomer⟩, rightCustomer,
      mem_flatten_iff_entry.mpr ⟨_, _, hrightCustomer⟩, hne, hchanged.symm⟩
  · intro hswaps
    obtain ⟨first, hfirst, second, hsecond, hne, hchanged⟩ := hswaps
    obtain ⟨firstRoute, firstPlace, hfirstEntry⟩ := mem_flatten_iff_entry.mp hfirst
    obtain ⟨secondRoute, secondPlace, hsecondEntry⟩ := mem_flatten_iff_entry.mp hsecond
    have hfirstMem : (firstRoute, firstPlace) ∈ positions routes := mem_positions.mpr ⟨first, hfirstEntry⟩
    have hsecondMem : (secondRoute, secondPlace) ∈ positions routes := mem_positions.mpr ⟨second, hsecondEntry⟩
    obtain ⟨firstIndex, hfirstIndex⟩ := List.mem_iff_getElem?.mp hfirstMem
    obtain ⟨secondIndex, hsecondIndex⟩ := List.mem_iff_getElem?.mp hsecondMem
    have hfirstCustomer : customerAt routes (firstRoute, firstPlace) = first := customerAt_eq hfirstEntry
    have hsecondCustomer : customerAt routes (secondRoute, secondPlace) = second := customerAt_eq hsecondEntry
    have hapart : firstIndex ≠ secondIndex := by
      intro hsame
      rw [hsame, hsecondIndex, Option.some.injEq, Prod.mk.injEq] at hfirstIndex
      rw [hfirstIndex.1, hfirstIndex.2, hfirstEntry, Option.some.injEq] at hsecondEntry
      exact hne hsecondEntry
    -- the loop visits a pair of positions in their order
    obtain hlt | hgt := Nat.lt_or_gt_of_ne hapart
    · refine ⟨firstIndex, secondIndex, _, _, hlt, hfirstIndex, hsecondIndex, ?_⟩
      rw [hfirstCustomer, hsecondCustomer, assign_eq_swap h hfirstEntry hsecondEntry, hchanged]
    · refine ⟨secondIndex, firstIndex, _, _, hgt, hsecondIndex, hfirstIndex, ?_⟩
      rw [hfirstCustomer, hsecondCustomer, assign_eq_swap h hsecondEntry hfirstEntry, hchanged, Equiv.swap_comm]

/-! ### The plans -/

/-- One merge, one relocation or one swap away. -/
def Neighbor (routes changed : CustomerRoutes) : Prop :=
  Merges routes changed ∨ Relocates routes changed ∨ Swaps routes changed

theorem mem_neighborhood (h : Partition routes) :
    changed ∈ mergeRoutes routes ++ relocateRoutes routes ++ swapRoutes routes ↔ Neighbor routes changed := by
  rw [List.mem_append, List.mem_append, mem_mergeRoutes, mem_swapRoutes_iff h, or_assoc]
  unfold Neighbor
  apply or_congr_right
  apply or_congr_left
  exact ⟨relocates_of_mem h, mem_of_relocates h⟩

/-- What every neighbour is: the same customers, other routes, as many or one fewer. -/
structure Rearranges (routes changed : CustomerRoutes) : Prop where
  customers : changed.flatten.Perm routes.flatten
  nonempty : ∀ route ∈ changed, route ≠ []
  differs : changed ≠ routes
  length : changed.length = routes.length ∨ changed.length + 1 = routes.length

theorem Merges.rearranges (h : Partition routes) (hmerges : Merges routes changed) : Rearranges routes changed := by
  obtain ⟨before, left, middle, right, after, hroutes, hchanged⟩ := hmerges
  have hrows := h.nonempty
  rw [hroutes] at hrows
  simp only [List.forall_mem_append, List.forall_mem_cons] at hrows
  obtain ⟨hbefore, hleft, hmiddle, hright, hafter⟩ := hrows
  have hlength : changed.length + 1 = routes.length := by
    obtain hchanged | hchanged := hchanged
    all_goals
      rw [hchanged, hroutes]
      simp
      omega
  refine ⟨?_, ?_, ?_, .inr hlength⟩
  · rw [List.perm_iff_count]
    intro customer
    obtain hchanged | hchanged := hchanged
    all_goals
      rw [hchanged, hroutes]
      simp only [List.flatten_append, List.flatten_cons, List.count_append]
      omega
  · obtain hchanged | hchanged := hchanged
    all_goals
      rw [hchanged]
      simp only [List.forall_mem_append, List.forall_mem_cons]
      exact ⟨hbefore, by simp [hleft], hmiddle, hafter⟩
  · intro hsame
    rw [hsame] at hlength
    omega

/-- Only the route that the customer leaves can become empty. -/
theorem length_relocated (h : Partition routes) {source target : ℕ} {shortened row : List String}
    (hsource : source < routes.length) (htarget : target < routes.length) (hrow : row ≠ []) :
    (((routes.set source shortened).set target row).filter fun route => route ≠ []).length = routes.length ∨
      (((routes.set source shortened).set target row).filter fun route => route ≠ []).length + 1 =
        routes.length := by
  have hnone : routes.count [] = 0 := List.count_eq_zero_of_not_mem fun hmem => h.nonempty [] hmem rfl
  have hfirst : (routes.set source shortened).count [] ≤ 1 := by
    rw [List.count_set hsource, hnone]
    split_ifs
    all_goals omega
  have hsecond : ((routes.set source shortened).set target row).count [] ≤ 1 := by
    rw [List.count_set (by rw [List.length_set]; exact htarget)]
    have hbeq : (row == []) = false := by simpa using hrow
    rw [hbeq]
    simp only [Bool.false_eq_true, if_false, Nat.add_zero]
    omega
  have hsplit := List.length_eq_countP_add_countP (fun route : List String => decide (route ≠ []))
    (l := (routes.set source shortened).set target row)
  have hempty : ((routes.set source shortened).set target row).countP
      (fun route => ¬ decide (route ≠ []) = true) = ((routes.set source shortened).set target row).count [] := by
    rw [List.count]
    apply List.countP_congr
    intro route _
    simp
  rw [hempty, List.countP_eq_length_filter, List.length_set, List.length_set] at hsplit
  omega

theorem Relocates.rearranges (h : Partition routes) (hrelocates : Relocates routes changed) :
    Rearranges routes changed := by
  obtain ⟨hdiffers, source, target, customer, front, back, left, right, hsource, htarget, hchanged⟩ := hrelocates
  obtain ⟨hlt, -⟩ := List.getElem?_eq_some_iff.mp hsource
  obtain ⟨htargetLt, -⟩ := List.getElem?_eq_some_iff.mp htarget
  rw [List.length_set] at htargetLt
  refine ⟨?_, ?_, hdiffers, ?_⟩
  · rw [List.perm_iff_count]
    intro other
    have hshortened := count_flatten_set hsource (front ++ back) other
    have hplaced := count_flatten_set htarget (left ++ customer :: right) other
    rw [hchanged, List.flatten_filter_ne_nil]
    simp only [List.count_append, List.count_cons] at hshortened hplaced
    omega
  · intro route hroute
    rw [hchanged, List.mem_filter] at hroute
    simpa using hroute.2
  · rw [hchanged]
    exact length_relocated h hlt htargetLt (by simp)

theorem Swaps.rearranges (h : Partition routes) (hswaps : Swaps routes changed) : Rearranges routes changed := by
  obtain ⟨first, hfirst, second, hsecond, hne, hchanged⟩ := hswaps
  have hflatten : changed.flatten = routes.flatten.map (Equiv.swap first second) := by
    rw [hchanged, List.map_flatten]
  refine ⟨?_, ?_, ?_, ?_⟩
  · rw [hflatten, List.perm_ext_iff_of_nodup (h.nodup.map (Equiv.injective _)) h.nodup]
    intro customer
    have hmem : ∀ other ∈ routes.flatten, Equiv.swap first second other ∈ routes.flatten := by
      intro other hother
      rw [Equiv.swap_apply_def]
      split_ifs
      · exact hsecond
      · exact hfirst
      · exact hother
    rw [List.mem_map]
    constructor
    · intro hexists
      obtain ⟨other, hother, hsame⟩ := hexists
      rw [← hsame]
      exact hmem other hother
    · intro hcustomer
      exact ⟨Equiv.swap first second customer, hmem customer hcustomer, Equiv.swap_apply_self _ _ _⟩
  · rw [hchanged, List.forall_mem_map]
    intro route hroute hempty
    exact h.nonempty route hroute (List.map_eq_nil_iff.mp hempty)
  · intro hsame
    rw [hsame] at hflatten
    have hfixed := List.map_inj_left.mp (hflatten.symm.trans (List.map_id _).symm) first hfirst
    rw [Equiv.swap_apply_left] at hfixed
    exact hne hfixed.symm
  · left
    rw [hchanged, List.length_map]

theorem Neighbor.rearranges (h : Partition routes) (hneighbor : Neighbor routes changed) :
    Rearranges routes changed := by
  obtain hmerges | hrelocates | hswaps := hneighbor
  · exact hmerges.rearranges h
  · exact hrelocates.rearranges h
  · exact hswaps.rearranges h

/-- The constructor accepts every neighbour. -/
theorem Neighbor.new (h : Partition routes) (hneighbor : Neighbor routes changed) :
    ∃ plan, EVRPTWPlan.new changed = .ok plan ∧ plan.customerRoutes = changed := by
  have hrearranges := hneighbor.rearranges h
  have hchanged : changed ≠ [] := by
    intro hnil
    have hempty := hrearranges.customers
    rw [hnil] at hempty
    have hroutes : routes ≠ [] := by
      intro hroutes
      apply hrearranges.differs
      rw [hnil, hroutes]
    obtain ⟨route, hroute⟩ := List.exists_mem_of_ne_nil _ hroutes
    have hflatten : routes.flatten = [] := hempty.symm.eq_nil
    exact h.nonempty route hroute (List.flatten_eq_nil_iff.mp hflatten route hroute)
  refine ⟨⟨changed, hchanged, hrearranges.nonempty⟩, ?_, rfl⟩
  rw [EVRPTWPlan.new, dif_pos ⟨hchanged, hrearranges.nonempty⟩]

theorem EVRPTWPlan.new_eq_ok {plan : EVRPTWPlan} (h : EVRPTWPlan.new changed = .ok plan) :
    plan.customerRoutes = changed := by
  unfold EVRPTWPlan.new at h
  split_ifs at h
  rw [← Except.ok.inj h]

/-- The neighbourhood of a partition is all partitions one merge, one relocation or one swap away, each once. -/
theorem canonicalNeighborhoodPlans_exact (h : Partition routes) :
    ∃ plans, canonicalNeighborhoodPlans routes = .ok plans ∧ plans.Nodup ∧
      (∀ changed, changed ∈ plans.map EVRPTWPlan.customerRoutes ↔ Neighbor routes changed) ∧
      ∀ plan ∈ plans, plan.customerRoutes.flatten.Perm routes.flatten ∧ plan.customerRoutes ≠ routes ∧
        (plan.customerRoutes.length = routes.length ∨ plan.customerRoutes.length + 1 = routes.length) := by
  have hall : ∀ changed ∈ mergeRoutes routes ++ relocateRoutes routes ++ swapRoutes routes,
      ∃ plan, EVRPTWPlan.new changed = .ok plan := by
    intro changed hchanged
    obtain ⟨plan, hplan, -⟩ := ((mem_neighborhood h).mp hchanged).new h
    exact ⟨plan, hplan⟩
  obtain ⟨built, hbuilt, hmem⟩ := exists_mapM_eq_ok hall
  have hplans : ∀ plan, plan ∈ firsts id [] built ↔ plan ∈ built := by
    intro plan
    simpa using mem_map_firsts id [] built plan
  have hneighbors : ∀ changed, changed ∈ (firsts id [] built).map EVRPTWPlan.customerRoutes ↔
      Neighbor routes changed := by
    intro changed
    rw [List.mem_map, ← mem_neighborhood h]
    constructor
    · intro hexists
      obtain ⟨plan, hplan, hsame⟩ := hexists
      obtain ⟨item, hitem, hnew⟩ := (hmem plan).mp ((hplans plan).mp hplan)
      rw [← hsame, EVRPTWPlan.new_eq_ok hnew]
      exact hitem
    · intro hchanged
      obtain ⟨plan, hplan, hsame⟩ := ((mem_neighborhood h).mp hchanged).new h
      exact ⟨plan, (hplans plan).mpr ((hmem plan).mpr ⟨changed, hchanged, hplan⟩), hsame⟩
  refine ⟨firsts id [] built, ?_, by simpa using firsts_nodup id [] built, hneighbors, ?_⟩
  · unfold canonicalNeighborhoodPlans
    rw [hbuilt]
    rfl
  · intro plan hplan
    have hrearranges := ((hneighbors _).mp (List.mem_map_of_mem hplan)).rearranges h
    exact ⟨hrearranges.customers, hrearranges.differs, hrearranges.length⟩

/-! ### Two routes -/

def twoRoutes : CustomerRoutes := [["a", "b"], ["c"]]

theorem canonicalNeighborhoodPlans_twoRoutes :
    ∃ plans, canonicalNeighborhoodPlans twoRoutes = .ok plans ∧ plans.Nodup ∧
      (∀ changed, changed ∈ plans.map EVRPTWPlan.customerRoutes ↔ Neighbor twoRoutes changed) ∧
      ∀ plan ∈ plans, plan.customerRoutes.flatten.Perm twoRoutes.flatten ∧ plan.customerRoutes ≠ twoRoutes ∧
        (plan.customerRoutes.length = twoRoutes.length ∨ plan.customerRoutes.length + 1 = twoRoutes.length) :=
  canonicalNeighborhoodPlans_exact ⟨by decide, by decide⟩

end TxnOpt.Evrptw

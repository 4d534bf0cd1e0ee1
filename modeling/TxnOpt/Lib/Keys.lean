import Mathlib.Data.List.Nodup

/-!
# Lists with distinct keys

A list whose elements have distinct keys is a finite map: looking a key up finds its element.
-/

namespace TxnOpt

variable {α κ : Type} [DecidableEq κ] {key : α → κ} {items : List α}

omit [DecidableEq κ] in
theorem eq_of_key_eq (h : (items.map key).Nodup) {first second : α} (hfirst : first ∈ items)
    (hsecond : second ∈ items) (hkey : key first = key second) : first = second :=
  List.inj_on_of_nodup_map h hfirst hsecond hkey

omit [DecidableEq κ] in
/-- The lists of distinct keys, whose elements tell their key, hold no element twice. -/
theorem nodup_flatMap_of_key {keys : List κ} {f : κ → List α} (key : α → κ) (hkeys : keys.Nodup)
    (hf : ∀ k ∈ keys, (f k).Nodup) (hkey : ∀ k ∈ keys, ∀ item ∈ f k, key item = k) : (keys.flatMap f).Nodup := by
  rw [List.nodup_flatMap]
  refine ⟨hf, List.Pairwise.imp_of_mem ?_ hkeys⟩
  intro first second hfirst hsecond hne item hitem hother
  exact hne (by rw [← hkey first hfirst item hitem, ← hkey second hsecond item hother])

theorem find?_key_eq_some_iff (h : (items.map key).Nodup) {k : κ} {item : α} :
    items.find? (fun item => key item = k) = some item ↔ item ∈ items ∧ key item = k := by
  constructor
  · intro hfound
    exact ⟨List.mem_of_find?_eq_some hfound, by simpa using List.find?_some hfound⟩
  · intro hitem
    cases hfound : items.find? (fun item => key item = k) with
    | none =>
        have hnone := List.find?_eq_none.mp hfound item hitem.1
        exact absurd hitem.2 (by simpa using hnone)
    | some found =>
        have hsame : key found = k := by simpa using List.find?_some hfound
        rw [eq_of_key_eq h (List.mem_of_find?_eq_some hfound) hitem.1 (hsame.trans hitem.2.symm)]

theorem find?_key_eq_none_iff {k : κ} :
    items.find? (fun item => key item = k) = none ↔ k ∉ items.map key := by
  rw [List.find?_eq_none, List.mem_map]
  simp

theorem lookup_eq_some_iff_mem {members : List (κ × α)} (hnodup : (members.map Prod.fst).Nodup)
    {k : κ} {value : α} : members.lookup k = some value ↔ (k, value) ∈ members := by
  induction members with
  | nil => simp
  | cons member members ih =>
      obtain ⟨name, stored⟩ := member
      rw [List.map_cons, List.nodup_cons] at hnodup
      rw [List.lookup_cons, List.mem_cons, Prod.mk.injEq]
      by_cases hkey : k = name
      · rw [hkey, beq_self_eq_true]
        constructor
        · intro h
          exact .inl ⟨rfl, (Option.some.inj h).symm⟩
        · intro h
          rcases h with h | h
          · rw [h.2]
          · exact absurd (List.mem_map_of_mem h) hnodup.1
      · rw [beq_false_of_ne hkey, ih hnodup.2]
        simp [hkey]

end TxnOpt

import Mathlib.Data.List.Sort
import Mathlib.Order.Lattice

/-!
# Words in lexicographic order

Words that start with sorted heads stay sorted, except where one head is a prefix of another: there the
tails decide.
-/

namespace TxnOpt

section Words

variable {α : Type} [LinearOrder α]

theorem append_lt_append_iff {first second : List α} (h : first < second) (tail other : List α) :
    first ++ tail < second ++ other ↔ ∀ rest, second = first ++ rest → tail < rest ++ other := by
  induction first generalizing second with
  | nil => simp
  | cons a first ih =>
      cases second with
      | nil => exact absurd h (List.not_lt_nil _)
      | cons b second =>
          rw [List.cons_append, List.cons_append, List.cons_lt_cons_iff]
          rcases List.cons_lt_cons_iff.mp h with hlt | ⟨heq, hlt⟩
          · constructor
            · intro _ rest hrest
              exact absurd (List.cons.inj hrest).1 (ne_of_gt hlt)
            · intro _
              exact .inl hlt
          · rw [← heq]
            simp only [lt_irrefl, false_or, true_and, List.cons_append, List.cons.injEq]
            exact ih hlt

theorem append_lt_append_left_iff (head first second : List α) :
    head ++ first < head ++ second ↔ first < second := by
  induction head with
  | nil => rfl
  | cons a head ih => simpa [List.cons_lt_cons_iff] using ih

end Words

section Keys

variable {α κ : Type} [LinearOrder κ] {key : α → κ} {items : List α}

theorem pairwise_iff_of_keys (h : items.Pairwise fun first second => key first < key second)
    {R : α → α → Prop} :
    items.Pairwise R ↔ ∀ first ∈ items, ∀ second ∈ items, key first < key second → R first second := by
  induction items with
  | nil => simp
  | cons item items ih =>
      obtain ⟨hitem, hitems⟩ := List.pairwise_cons.mp h
      rw [List.pairwise_cons, ih hitems]
      constructor
      · intro hpairs first hfirst second hsecond hlt
        rcases List.mem_cons.mp hfirst with hfirst | hfirst
        · rcases List.mem_cons.mp hsecond with hsecond | hsecond
          · rw [hfirst, hsecond] at hlt
            exact absurd hlt (lt_irrefl _)
          · rw [hfirst]
            exact hpairs.1 second hsecond
        · rcases List.mem_cons.mp hsecond with hsecond | hsecond
          · rw [hsecond] at hlt
            exact absurd hlt (lt_asymm (hitem first hfirst))
          · exact hpairs.2 first hfirst second hsecond hlt
      · intro hpairs
        constructor
        · intro second hsecond
          exact hpairs item List.mem_cons_self second (List.mem_cons_of_mem item hsecond) (hitem second hsecond)
        · intro first hfirst second hsecond
          exact hpairs first (List.mem_cons_of_mem item hfirst) second (List.mem_cons_of_mem item hsecond)

variable (key) in
/-- `sorted(items, key=…)`. -/
def sortedBy (items : List α) : List α := items.insertionSort fun first second => key first ≤ key second

@[simp]
theorem mem_sortedBy {item : α} : item ∈ sortedBy key items ↔ item ∈ items := List.mem_insertionSort _

variable (key) in
theorem sortedBy_map {β : Type} (f : β → α) (items : List β) :
    sortedBy key (items.map f) = (sortedBy (fun item => key (f item)) items).map f := by
  apply Eq.symm
  apply List.map_insertionSort
  intro first _ second _
  rfl

theorem sortedBy_perm : (sortedBy key items).Perm items := List.perm_insertionSort _ items

theorem sortedBy_sorted : (sortedBy key items).Pairwise fun first second => key first ≤ key second := by
  have : Std.Total fun first second : α => key first ≤ key second := ⟨fun _ _ => le_total _ _⟩
  have : IsTrans α fun first second : α => key first ≤ key second := ⟨fun _ _ _ => le_trans⟩
  exact List.pairwise_insertionSort _ items

theorem sortedBy_sortedBy : sortedBy key (sortedBy key items) = sortedBy key items :=
  List.Pairwise.insertionSort_eq sortedBy_sorted

theorem sortedBy_increasing (h : (items.map key).Nodup) :
    (sortedBy key items).Pairwise fun first second => key first < key second := by
  have hnodup : ((sortedBy key items).map key).Nodup := (sortedBy_perm.map key).nodup_iff.mpr h
  have hne : (sortedBy key items).Pairwise fun first second => key first ≠ key second :=
    List.pairwise_map.mp hnodup
  exact sortedBy_sorted.imp₂ (fun _ _ hle hne => lt_of_le_of_ne hle hne) hne

/-- A list with the same members in the order of their keys is the sorted list. -/
theorem sortedBy_eq_of_mem_iff {sorted : List α} (hnodup : (items.map key).Nodup)
    (hsorted : sorted.Pairwise fun first second => key first < key second)
    (hmem : ∀ item, item ∈ sorted ↔ item ∈ items) : sortedBy key items = sorted := by
  have hperm : (sortedBy key items).Perm sorted := by
    rw [List.perm_ext_iff_of_nodup]
    · intro item
      rw [mem_sortedBy, hmem]
    · exact sortedBy_perm.nodup_iff.mpr hnodup.of_map
    · exact hsorted.imp fun hlt heq => absurd hlt (by rw [heq]; exact lt_irrefl _)
  apply hperm.eq_of_pairwise _ (sortedBy_increasing hnodup) hsorted
  intro first second _ _ hlt hgt
  exact absurd hlt (lt_asymm hgt)

end Keys

end TxnOpt

import Mathlib.Algebra.BigOperators.Group.List.Basic
import Mathlib.Algebra.GroupWithZero.Nat
import Mathlib.Algebra.Order.BigOperators.Group.List
import Mathlib.Algebra.Order.Group.Nat
import Mathlib.Data.Finset.Max

/-!
# Load of weighted intervals

Half-open intervals over a linear order, and the total weight of those that contain a point. The load
only rises where an interval starts, so its bound at the starts is its bound everywhere.
-/

namespace TxnOpt

variable {ι τ : Type} [LinearOrder τ] (start finish : ι → τ) (weight : ι → ℕ)

/-- The interval of `item` contains `t`. -/
def Covers (t : τ) (item : ι) : Prop := start item ≤ t ∧ t < finish item

instance (t : τ) (item : ι) : Decidable (Covers start finish t item) :=
  inferInstanceAs (Decidable (_ ∧ _))

/-- The total weight of the intervals that contain `t`. -/
def load (items : List ι) (t : τ) : ℕ :=
  ((items.filter fun item => Covers start finish t item).map weight).sum

theorem load_cons (item : ι) (rest : List ι) (t : τ) :
    load start finish weight (item :: rest) t =
      (if Covers start finish t item then weight item else 0) + load start finish weight rest t := by
  by_cases h : Covers start finish t item
  · simp [load, h]
  · simp [load, h]

theorem load_map {κ : Type} (f : κ → ι) (items : List κ) (t : τ) :
    load start finish weight (items.map f) t =
      load (fun item => start (f item)) (fun item => finish (f item)) (fun item => weight (f item)) items t := by
  induction items with
  | nil => rfl
  | cons item rest ih =>
      rw [List.map_cons, load_cons, load_cons, ih]
      rfl

theorem load_perm {items others : List ι} (h : items.Perm others) (t : τ) :
    load start finish weight items t = load start finish weight others t :=
  ((h.filter _).map weight).sum_eq

theorem load_congr {start' finish' : ι → τ} {weight' : ι → ℕ} {items : List ι}
    (h : ∀ item ∈ items, start item = start' item ∧ finish item = finish' item ∧ weight item = weight' item)
    (t : τ) : load start finish weight items t = load start' finish' weight' items t := by
  induction items with
  | nil => rfl
  | cons item rest ih =>
      obtain ⟨hstart, hfinish, hweight⟩ := h item List.mem_cons_self
      have hcovers : Covers start finish t item ↔ Covers start' finish' t item := by
        unfold Covers
        rw [hstart, hfinish]
      rw [load_cons, load_cons, ih fun other hother => h other (List.mem_cons_of_mem item hother), hweight,
        if_congr hcovers rfl rfl]

/-- More intervals contain `s` than `t`. -/
theorem load_mono {items : List ι} {s t : τ}
    (h : ∀ item ∈ items, Covers start finish t item → Covers start finish s item) :
    load start finish weight items t ≤ load start finish weight items s := by
  induction items with
  | nil => exact le_refl _
  | cons item rest ih =>
      have hrest := ih fun other hother => h other (List.mem_cons_of_mem item hother)
      rw [load_cons, load_cons]
      by_cases hcovers : Covers start finish t item
      · rw [if_pos hcovers, if_pos (h item List.mem_cons_self hcovers)]
        omega
      · rw [if_neg hcovers]
        omega

/-- A point that no interval contains carries no load. -/
theorem load_eq_zero {items : List ι} {t : τ} (h : ∀ item ∈ items, ¬ Covers start finish t item) :
    load start finish weight items t = 0 := by
  have hnone : items.filter (fun item => decide (Covers start finish t item)) = [] := by
    rw [List.filter_eq_nil_iff]
    intro item hitem
    simpa using h item hitem
  rw [load, hnone]
  rfl

/-- The load at any point is at most the load at some start. -/
theorem exists_start_load (items : List ι) (t : τ) :
    load start finish weight items t = 0 ∨
      ∃ item ∈ items, load start finish weight items t ≤ load start finish weight items (start item) := by
  by_cases hstarted : ∃ item ∈ items, start item ≤ t
  · right
    obtain ⟨first, hfirst, hle⟩ := hstarted
    obtain ⟨latest, hlatest, hmax⟩ := ((items.map start).toFinset.filter (· ≤ t)).exists_max_image id
      ⟨start first, by simpa using ⟨⟨first, hfirst, rfl⟩, hle⟩⟩
    rw [Finset.mem_filter, List.mem_toFinset, List.mem_map] at hlatest
    obtain ⟨⟨item, hitem, hstart⟩, hlatestLe⟩ := hlatest
    refine ⟨item, hitem, ?_⟩
    rw [hstart]
    apply load_mono
    intro other hother hcovers
    refine ⟨hmax _ ?_, lt_of_le_of_lt hlatestLe hcovers.2⟩
    rw [Finset.mem_filter, List.mem_toFinset]
    exact ⟨List.mem_map_of_mem hother, hcovers.1⟩
  · left
    apply load_eq_zero
    intro item hitem hcovers
    exact hstarted ⟨item, hitem, hcovers.1⟩

/-- A bound at every start is a bound everywhere. -/
theorem load_le_of_starts {items : List ι} {capacity : ℕ}
    (h : ∀ item ∈ items, load start finish weight items (start item) ≤ capacity) (t : τ) :
    load start finish weight items t ≤ capacity := by
  rcases exists_start_load start finish weight items t with hzero | ⟨item, hitem, hle⟩
  · omega
  · exact le_trans hle (h item hitem)

/-- An interval weighs on every point that it contains. -/
theorem weight_le_load {items : List ι} {item : ι} (hitem : item ∈ items) {t : τ}
    (hcovers : Covers start finish t item) : weight item ≤ load start finish weight items t := by
  apply List.le_sum_of_mem
  apply List.mem_map_of_mem
  rw [List.mem_filter]
  exact ⟨hitem, by simpa using hcovers⟩

/-- Intervals that follow one another never add up. The weight of an empty interval does not matter. -/
theorem load_le_of_disjoint {items : List ι} {capacity : ℕ}
    (hdisjoint : items.Pairwise fun first second => finish first ≤ start second)
    (hweight : ∀ item ∈ items, start item < finish item → weight item ≤ capacity) (t : τ) :
    load start finish weight items t ≤ capacity := by
  induction items with
  | nil => exact Nat.zero_le _
  | cons item rest ih =>
      obtain ⟨hfirst, hrest⟩ := List.pairwise_cons.mp hdisjoint
      rw [load_cons]
      by_cases hcovers : Covers start finish t item
      · have hzero : load start finish weight rest t = 0 := by
          apply load_eq_zero
          intro other hother hlater
          exact absurd (lt_of_lt_of_le hcovers.2 (hfirst other hother)) (not_lt.mpr hlater.1)
        rw [if_pos hcovers, hzero]
        exact hweight item List.mem_cons_self (lt_of_le_of_lt hcovers.1 hcovers.2)
      · rw [if_neg hcovers, Nat.zero_add]
        exact ih hrest fun other hother => hweight other (List.mem_cons_of_mem item hother)

end TxnOpt

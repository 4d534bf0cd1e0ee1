import Mathlib.Data.List.Basic
import Mathlib.Data.Nat.Notation

/-!
# Hash chains

Each record stands at its index, after the digest of the record before it. Where no two of the records have
the same digest, the last digest of a chain determines the chain.
-/

namespace TxnOpt

variable {β δ : Type} {hash : β → δ} {genesis : δ} {Follows : β → ℕ → δ → Prop}

/-- The records in order, and the digest of the last one. -/
inductive Chained (hash : β → δ) (genesis : δ) (Follows : β → ℕ → δ → Prop) : List β → δ → Prop
  | nil : Chained hash genesis Follows [] genesis
  | snoc {records : List β} {previous : δ} {record : β} : Chained hash genesis Follows records previous →
      Follows record records.length previous → Chained hash genesis Follows (records ++ [record]) (hash record)

/-- A record stands at one index, after one digest. -/
def Anchored (Follows : β → ℕ → δ → Prop) : Prop :=
  ∀ record index previous other before, Follows record index previous → Follows record other before →
    index = other ∧ previous = before

/-- The last step of a chain. -/
theorem Chained.last {records : List β} {digest : δ} (h : Chained hash genesis Follows records digest)
    (hne : records ≠ []) : ∃ before previous record, records = before ++ [record] ∧ digest = hash record ∧
      Chained hash genesis Follows before previous ∧ Follows record before.length previous := by
  cases h with
  | nil => exact absurd rfl hne
  | @snoc before previous record hbefore hfollows => exact ⟨before, previous, record, rfl, rfl, hbefore, hfollows⟩

theorem Chained.eq_of_length (hanchored : Anchored Follows) {first second : List β} {digest : δ}
    (hfirst : Chained hash genesis Follows first digest) (hsecond : Chained hash genesis Follows second digest)
    (hinjective : ∀ left ∈ first, ∀ right ∈ second, hash left = hash right → left = right)
    (hlength : first.length = second.length) : first = second := by
  induction hfirst generalizing second with
  | nil => exact (List.eq_nil_of_length_eq_zero hlength.symm).symm
  | @snoc before previous record _ hfollows ih =>
      have hne : second ≠ [] := by
        intro hempty
        rw [hempty] at hlength
        simp at hlength
      obtain ⟨others, prior, other, hsplit, hdigest, hothers, hafter⟩ := hsecond.last hne
      rw [hsplit] at hinjective hlength ⊢
      rw [hinjective record (by simp) other (by simp) hdigest] at hfollows ⊢
      obtain ⟨-, hsame⟩ := hanchored _ _ _ _ _ hfollows hafter
      rw [← hsame] at hothers
      rw [ih hothers (fun left hleft right hright => hinjective left (by simp [hleft]) right (by simp [hright]))
        (by simpa using hlength)]

/-- The last digest determines the records. -/
theorem Chained.eq_of_digest (hanchored : Anchored Follows) {first second : List β} {digest : δ}
    (hfirst : Chained hash genesis Follows first digest) (hsecond : Chained hash genesis Follows second digest)
    (hne : first ≠ []) (hother : second ≠ [])
    (hinjective : ∀ left ∈ first, ∀ right ∈ second, hash left = hash right → left = right) : first = second := by
  obtain ⟨before, previous, record, hsplit, hdigest, -, hfollows⟩ := hfirst.last hne
  obtain ⟨others, prior, other, hothers, hlast, -, hafter⟩ := hsecond.last hother
  have hsame : record = other :=
    hinjective record (by simp [hsplit]) other (by simp [hothers]) (hdigest.symm.trans hlast)
  rw [hsame] at hfollows
  obtain ⟨hindex, -⟩ := hanchored _ _ _ _ _ hfollows hafter
  exact hfirst.eq_of_length hanchored hsecond hinjective (by simp [hsplit, hothers, hindex])

end TxnOpt

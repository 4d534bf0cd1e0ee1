import Mathlib.Data.BitVec
import Mathlib.Data.Fintype.EquivFin

/-!
# Permutations of machine words

Shift-and-xor and the multiplication by an odd factor lose nothing of a word, and the multiples of an odd
increment run through all words.
-/

namespace TxnOpt

variable {w : ℕ}

instance wordsFinite : Finite (BitVec w) :=
  Finite.of_injective BitVec.toFin fun _ _ h => BitVec.eq_of_toFin_eq h

theorem bijective_of_injective {f : BitVec w → BitVec w} (h : Function.Injective f) : Function.Bijective f :=
  Finite.injective_iff_bijective.mp h

/-- A word that is its own shift has no bit set. -/
theorem eq_zero_of_ushiftRight_eq {value : BitVec w} {shift : ℕ} (hshift : 0 < shift)
    (h : value >>> shift = value) : value = 0#w := by
  have hnat : value.toNat >>> shift = value.toNat := by
    rw [← BitVec.toNat_ushiftRight, h]
  have hpow : 2 ≤ 2 ^ shift := Nat.le_self_pow (Nat.ne_of_gt hshift) 2
  rw [Nat.shiftRight_eq_div_pow] at hnat
  apply BitVec.eq_of_toNat_eq
  rw [BitVec.toNat_ofNat, Nat.zero_mod]
  by_contra hpositive
  have hless := Nat.div_lt_self (Nat.pos_of_ne_zero hpositive) (by omega : 1 < 2 ^ shift)
  omega

theorem xorShift_injective {shift : ℕ} (hshift : 0 < shift) :
    Function.Injective fun value : BitVec w => value ^^^ (value >>> shift) := by
  intro first second h
  have hxor : (first ^^^ second) >>> shift = first ^^^ second := by
    rw [BitVec.ushiftRight_xor_distrib]
    calc
      first >>> shift ^^^ second >>> shift =
          first ^^^ (first ^^^ first >>> shift) ^^^ (second >>> shift) := by
        rw [← BitVec.xor_assoc, BitVec.xor_self, BitVec.zero_xor]
      _ = first ^^^ (second ^^^ second >>> shift) ^^^ (second >>> shift) := by
        rw [show first ^^^ first >>> shift = second ^^^ second >>> shift from h]
      _ = first ^^^ second := by
        rw [BitVec.xor_assoc, BitVec.xor_assoc, BitVec.xor_self, BitVec.xor_zero]
  have hzero := eq_zero_of_ushiftRight_eq hshift hxor
  exact BitVec.xor_eq_zero_iff.mp hzero

theorem mul_injective {factor inverse : BitVec w} (hinverse : factor * inverse = 1#w) :
    Function.Injective fun value : BitVec w => value * factor := by
  intro first second h
  have hmul : first * factor * inverse = second * factor * inverse := congrArg (· * inverse) h
  rw [BitVec.mul_assoc, BitVec.mul_assoc, hinverse, BitVec.mul_one, BitVec.mul_one] at hmul
  exact hmul

/-- Fewer than `2 ^ w` steps of an invertible increment do not return. -/
theorem add_mul_ne {increment inverse : BitVec w} (hinverse : increment * inverse = 1#w) (start : BitVec w)
    {first second : ℕ} (hlt : first < second) (hclose : second - first < 2 ^ w) :
    start + BitVec.ofNat w first * increment ≠ start + BitVec.ofNat w second * increment := by
  intro h
  have hmul : BitVec.ofNat w first * increment = BitVec.ofNat w second * increment :=
    (BitVec.add_right_inj start).mp h
  have hnat := congrArg BitVec.toNat (mul_injective hinverse hmul)
  rw [BitVec.toNat_ofNat, BitVec.toNat_ofNat] at hnat
  have hdvd : 2 ^ w ∣ second - first := (Nat.modEq_iff_dvd' (Nat.le_of_lt hlt)).mp hnat
  have hle := Nat.le_of_dvd (by omega) hdvd
  omega

end TxnOpt

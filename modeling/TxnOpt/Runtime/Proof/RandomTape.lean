import TxnOpt.Lib.Words
import TxnOpt.Runtime.RandomTape

/-!
# The period of the random tape

The step of the state and the mixing of a word are permutations, so the tape repeats no word before all
`2 ^ 64` states have been passed, and the first word tells the seeds apart.
-/

namespace TxnOpt.RandomTape

/-- `pow(_GOLDEN_GAMMA, -1, 2 ** 64)`. -/
def goldenGammaInverse : BitVec 64 := 0xF1DE83E19937733D#64

theorem goldenGamma_mul_inverse : goldenGamma * goldenGammaInverse = 1#64 := by decide

theorem step_injective : Function.Injective fun state : BitVec 64 => state + goldenGamma := by
  intro first second h
  exact (BitVec.add_left_inj goldenGamma).mp h

theorem mix_injective : Function.Injective mix := by
  have hfirst : Function.Injective fun value : BitVec 64 =>
      (value ^^^ (value >>> 30)) * 0xBF58476D1CE4E5B9#64 :=
    (@mul_injective 64 _ 0x96DE1B173F119089#64 (by decide)).comp (xorShift_injective (by decide))
  have hsecond : Function.Injective fun value : BitVec 64 =>
      (value ^^^ (value >>> 27)) * 0x94D049BB133111EB#64 :=
    (@mul_injective 64 _ 0x319642B2D24D8EC3#64 (by decide)).comp (xorShift_injective (by decide))
  have hthird : Function.Injective fun value : BitVec 64 => value ^^^ (value >>> 31) :=
    xorShift_injective (by decide)
  exact hthird.comp (hsecond.comp hfirst)

/-- The word at a position of the tape. -/
def word (tape : RandomTape) (position : Nat) : Nat :=
  (mix (tape.state + BitVec.ofNat 64 (position + 1) * goldenGamma)).toNat

/-- The tape after as many words. -/
def advance (tape : RandomTape) (count : Nat) : RandomTape :=
  ⟨tape.state + BitVec.ofNat 64 count * goldenGamma⟩

theorem advance_zero (tape : RandomTape) : tape.advance 0 = tape := by
  rw [advance, BitVec.zero_mul, BitVec.add_zero]

theorem advance_advance (tape : RandomTape) (first second : Nat) :
    (tape.advance first).advance second = tape.advance (first + second) := by
  simp only [advance]
  rw [BitVec.ofNat_add, BitVec.add_mul, BitVec.add_assoc]

theorem word_advance (tape : RandomTape) (count position : Nat) :
    (tape.advance count).word position = tape.word (count + position) := by
  simp only [word, advance]
  rw [Nat.add_assoc, BitVec.ofNat_add count, BitVec.add_mul, BitVec.add_assoc]

theorem next_eq (tape : RandomTape) : tape.next = (tape.word 0, tape.advance 1) := by
  simp only [next, word, advance]
  rw [Nat.zero_add, show BitVec.ofNat 64 1 = 1#64 from rfl, BitVec.one_mul]

theorem take_eq (count : Nat) (tape : RandomTape) :
    take count tape = ((List.range count).map tape.word, tape.advance count) := by
  induction count generalizing tape with
  | zero => rw [take, advance_zero, List.range_zero, List.map_nil]
  | succ count ih =>
      rw [take, next_eq]
      simp only
      rw [ih, advance_advance, Nat.add_comm 1 count, List.range_succ_eq_map, List.map_cons, List.map_map]
      have hwords : (List.range count).map (tape.advance 1).word =
          (List.range count).map (tape.word ∘ Nat.succ) := by
        apply List.map_congr_left
        intro position _
        rw [word_advance, Function.comp_apply, Nat.succ_eq_add_one, Nat.add_comm]
      rw [hwords]

/-- How many words a sequence of calls draws. -/
def drawnCount : List Value → Nat
  | [] => 0
  | count :: counts =>
      match count.asInt? with
      | some (.ofNat (count + 1)) => (count + 1) + drawnCount counts
      | _ => drawnCount counts

/-- However the draws are split into calls, they are the first words of the tape. -/
theorem drawn_eq (counts : List Value) (tape : RandomTape) :
    drawn counts tape = (List.range (drawnCount counts)).map tape.word := by
  induction counts generalizing tape with
  | nil => rfl
  | cons count counts ih =>
      rw [drawn, drawnCount, takeCall]
      cases count.asInt? with
      | none => exact ih tape
      | some value =>
          cases value with
          | negSucc value => exact ih tape
          | ofNat value =>
              cases value with
              | zero => exact ih tape
              | succ taken =>
                  simp only
                  rw [take_eq]
                  simp only
                  have hrest : (List.range (drawnCount counts)).map (tape.advance (taken + 1)).word =
                      (List.range (drawnCount counts)).map (tape.word ∘ fun position => taken + 1 + position) := by
                    apply List.map_congr_left
                    intro position _
                    rw [word_advance, Function.comp_apply]
                  rw [ih, hrest, @List.range_add (taken + 1), List.map_append, List.map_map]

theorem word_ne (tape : RandomTape) {first second : Nat} (hlt : first < second)
    (hclose : second - first < 2 ^ 64) : tape.word first ≠ tape.word second := by
  intro h
  have hstates := mix_injective (BitVec.eq_of_toNat_eq h)
  have hsteps := add_mul_ne goldenGamma_mul_inverse tape.state (Nat.succ_lt_succ hlt)
    (by rw [Nat.succ_sub_succ]; exact hclose)
  exact hsteps hstates

theorem ofInt_injective {seed other : Int} (h : (ofInt seed).state = (ofInt other).state) :
    seed % 2 ^ 64 = other % 2 ^ 64 := by
  have hnat := congrArg BitVec.toNat h
  simp only [ofInt, BitVec.toNat_ofInt] at hnat
  omega

/-- The step and the mixing are permutations; within `2 ^ 64` draws no word comes twice, however the draws
are split into calls; and seeds that differ modulo `2 ^ 64` differ in their first word. -/
theorem randomTape_fullPeriod :
    Function.Bijective (fun state : BitVec 64 => state + goldenGamma) ∧ Function.Bijective mix ∧
      (∀ (seed : Int) (counts : List Value) (first second : Nat), first < second → second - first < 2 ^ 64 →
        second < (drawn counts (ofInt seed)).length →
        (drawn counts (ofInt seed))[first]? ≠ (drawn counts (ofInt seed))[second]?) ∧
      ∀ (seed other : Int) (counts : List Value), seed % 2 ^ 64 ≠ other % 2 ^ 64 →
        drawn counts (ofInt seed) ≠ [] →
        (drawn counts (ofInt seed)).head? ≠ (drawn counts (ofInt other)).head? := by
  refine ⟨bijective_of_injective step_injective, bijective_of_injective mix_injective, ?_, ?_⟩
  · intro seed counts first second hlt hclose hlength
    rw [drawn_eq] at hlength ⊢
    rw [List.length_map, List.length_range] at hlength
    rw [List.getElem?_map, List.getElem?_map, List.getElem?_range (Nat.lt_trans hlt hlength),
      List.getElem?_range hlength]
    intro h
    exact word_ne _ hlt hclose (Option.some.inj h)
  · intro seed other counts hseeds hdrawn h
    rw [drawn_eq] at hdrawn
    rw [drawn_eq, drawn_eq] at h
    cases hcount : drawnCount counts with
    | zero =>
        rw [hcount] at hdrawn
        exact hdrawn rfl
    | succ count =>
        rw [hcount, List.range_succ_eq_map] at h
        have hwords : (ofInt seed).word 0 = (ofInt other).word 0 := Option.some.inj h
        have hstates := mix_injective (BitVec.eq_of_toNat_eq hwords)
        exact hseeds (ofInt_injective ((BitVec.add_left_inj _).mp hstates))

theorem randomTape_fullPeriod_split :
    (drawn [.int 1, .int 2] (ofInt 7))[0]? ≠ (drawn [.int 1, .int 2] (ofInt 7))[2]? ∧
      (drawn [.int 1] (ofInt 7)).head? ≠ (drawn [.int 1] (ofInt (-7))).head? :=
  ⟨randomTape_fullPeriod.2.2.1 7 [.int 1, .int 2] 0 2 (by decide) (by decide) (by decide),
    randomTape_fullPeriod.2.2.2 7 (-7) [.int 1] (by decide) (by decide)⟩

end TxnOpt.RandomTape

import TxnOpt.Runtime.Values
import Mathlib.Data.BitVec

/-!
# The SplitMix64 random tape

`RandomTape` is a deterministic word stream: one addition steps the state, and each word mixes the
stepped state.
-/

namespace TxnOpt

def goldenGamma : BitVec 64 := 0x9E3779B97F4A7C15#64

structure RandomTape where
  state : BitVec 64
  deriving DecidableEq, Repr

namespace RandomTape

/-- `RandomTape(seed)`: the seed modulo `2 ^ 64`. -/
def ofSeed (seed : Nat) : RandomTape := ⟨BitVec.ofNat 64 seed⟩

def mix (value : BitVec 64) : BitVec 64 :=
  let value := (value ^^^ (value >>> 30)) * 0xBF58476D1CE4E5B9#64
  let value := (value ^^^ (value >>> 27)) * 0x94D049BB133111EB#64
  value ^^^ (value >>> 31)

def next (tape : RandomTape) : Nat × RandomTape :=
  let state := tape.state + goldenGamma
  ((mix state).toNat, ⟨state⟩)

/-- The next `count` words, and the tape after them. -/
def take : Nat → RandomTape → List Nat × RandomTape
  | 0, tape => ([], tape)
  | count + 1, tape =>
      let (word, tape) := tape.next
      let (words, tape) := take count tape
      (word :: words, tape)

/-- `RandomTape(seed)` for any integer. -/
def ofInt (seed : Int) : RandomTape := ⟨BitVec.ofInt 64 seed⟩

/-- `take`, with the check of its count. -/
def takeCall (count : Value) (tape : RandomTape) : Except PyExc (List Nat) × RandomTape :=
  match count.asInt? with
  | some (.ofNat (count + 1)) =>
      let (words, tape) := take (count + 1) tape
      (.ok words, tape)
  | _ => (.error (.valueError "random tape count must be a positive integer"), tape)

/-- The words of a sequence of calls one after the other; a refused call draws none. -/
def drawn : List Value → RandomTape → List Nat
  | [], _ => []
  | count :: counts, tape =>
      match takeCall count tape with
      | (.ok words, tape) => words ++ drawn counts tape
      | (.error _, tape) => drawn counts tape

end RandomTape

end TxnOpt

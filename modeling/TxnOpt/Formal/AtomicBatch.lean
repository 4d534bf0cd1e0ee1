import TxnOpt.Lib.Transition
import TxnOpt.Runtime.CandidateTxn
import Mathlib.Data.Int.Interval

/-!
# The atomic model

The TLA+ module `TxnOpt`: one batch of `candidateCount` candidates whose completions are private until a
single commit publishes all of them.
-/

namespace TxnOpt

/-- The variables of the module. -/
structure BatchState where
  pending : Finset ℤ
  completed : Finset ℤ
  committedTrace : List ℤ
  cacheVisible : Finset ℤ
  terminated : Bool
  txnPhase : TxnPhase
  deriving DecidableEq

namespace AtomicBatch

variable (candidateCount : Nat)

def candidateOrder : List ℤ := (List.range candidateCount).map fun (index : Nat) => (index : ℤ) + 1

def candidateIndices : Finset ℤ :=
  @Finset.Icc ℤ Int.instLinearOrder.toPartialOrder.toPreorder _ 1 ((candidateOrder candidateCount).length : ℤ)

/-- `SeqToSet`. -/
def seqToSet (sequence : List ℤ) : Finset ℤ := sequence.toFinset

def Init (s : BatchState) : Prop :=
  0 < candidateCount ∧ s = ⟨candidateIndices candidateCount, ∅, [], ∅, false, .prepared⟩

def Reserve (s t : BatchState) : Prop :=
  s.terminated = false ∧ s.txnPhase = .prepared ∧ t = { s with txnPhase := .reserved }

def StartEvaluation (s t : BatchState) : Prop :=
  s.terminated = false ∧ s.txnPhase = .reserved ∧ t = { s with txnPhase := .evaluating }

def Complete (candidate : ℤ) (s t : BatchState) : Prop :=
  s.terminated = false ∧ s.txnPhase = .evaluating ∧ candidate ∈ s.pending ∧
    t = { s with
      pending := s.pending \ {candidate}
      completed := s.completed ∪ {candidate} }

def Validate (s t : BatchState) : Prop :=
  s.terminated = false ∧ s.txnPhase = .evaluating ∧ s.pending = ∅ ∧
    t = { s with txnPhase := .validated }

def Commit (s t : BatchState) : Prop :=
  s.terminated = false ∧ s.txnPhase = .validated ∧
    t = { s with
      committedTrace := candidateOrder candidateCount
      cacheVisible := candidateIndices candidateCount
      txnPhase := .committed }

def Terminate (s t : BatchState) : Prop :=
  s.terminated = false ∧ s.txnPhase ≠ .committed ∧
    ∃ phase, (phase = .aborted ∨ phase = .interrupted) ∧
      t = { s with
        pending := ∅
        completed := ∅
        terminated := true
        txnPhase := phase }

def Next (s t : BatchState) : Prop :=
  Reserve s t ∨ StartEvaluation s t ∨ (∃ candidate ∈ s.pending, Complete candidate s t) ∨
    Validate s t ∨ Commit candidateCount s t ∨ Terminate s t

/-- `Spec`, up to stuttering. -/
def system : System BatchState := ⟨Init candidateCount, Next candidateCount⟩

/-! ### Its invariants -/

/-- `TypeOK`; `terminated` and `txnPhase` are typed here. -/
def TypeOK (s : BatchState) : Prop :=
  s.pending ⊆ candidateIndices candidateCount ∧ s.completed ⊆ candidateIndices candidateCount ∧
    s.pending ∩ s.completed = ∅ ∧
    (∀ candidate ∈ s.committedTrace, candidate ∈ candidateIndices candidateCount) ∧
    s.cacheVisible ⊆ candidateIndices candidateCount

def CanonicalAtomicPublication (s : BatchState) : Prop :=
  s.committedTrace = [] ∨ s.committedTrace = candidateOrder candidateCount

def CacheOnlyAfterCommit (s : BatchState) : Prop := s.cacheVisible = seqToSet s.committedTrace

def PrivateCompletionOnly (s : BatchState) : Prop :=
  s.txnPhase ≠ .committed → s.committedTrace = [] ∧ s.cacheVisible = ∅

def CommittedPublishesWholeBatch (s : BatchState) : Prop :=
  s.txnPhase = .committed →
    s.committedTrace = candidateOrder candidateCount ∧
      s.cacheVisible = candidateIndices candidateCount

def LastCompletePrefixOnFailure (s : BatchState) : Prop :=
  s.terminated = true → s.committedTrace = [] ∧ s.cacheVisible = ∅

/-- The six invariants that the model checker is given. -/
structure Safe (s : BatchState) : Prop where
  typeOK : TypeOK candidateCount s
  atomicPublication : CanonicalAtomicPublication candidateCount s
  cacheOnlyAfterCommit : CacheOnlyAfterCommit s
  privateCompletionOnly : PrivateCompletionOnly s
  wholeBatch : CommittedPublishesWholeBatch candidateCount s
  lastCompletePrefix : LastCompletePrefixOnFailure s

end AtomicBatch

end TxnOpt

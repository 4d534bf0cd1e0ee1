import TxnOpt.Formal.AtomicBatch

/-!
# The concurrent design

The TLA+ translation of the PlusCal algorithm `TxnOptAtomicBatch`: one worker process for each candidate,
the owner (process `0`) and a failure (process `-1`) that may strike between any two steps.
-/

namespace TxnOpt

namespace OrderedPlusCal

open AtomicBatch

/-- The labels of the algorithm. -/
inductive Label where
  | awaitEvaluation
  | complete
  | doneWorker
  | reserve
  | startEvaluation
  | awaitBatch
  | validate
  | commit
  | doneOwner
  | chooseFailure
  | doneFailure
  | done
  deriving DecidableEq, Repr

/-- The six variables of the design, and `pc`. -/
structure State where
  vars : BatchState
  pc : ℤ → Label

/-- `pc' = [pc EXCEPT ![self] = label]`, with the new values of the variables. -/
def State.goto (s : State) (self : ℤ) (label : Label) (vars : BatchState) : State :=
  ⟨vars, Function.update s.pc self label⟩

variable (candidateCount : Nat)

def procSet : Finset ℤ := candidateIndices candidateCount ∪ {0} ∪ {-1}

def initialPc (self : ℤ) : Label :=
  if self ∈ candidateIndices candidateCount then .awaitEvaluation
  else if self = 0 then .reserve
  else .chooseFailure

/-- `pc` is a function on `procSet`; elsewhere its value is not looked at. -/
def Init (s : State) : Prop :=
  s.vars = ⟨candidateIndices candidateCount, ∅, [], ∅, false, .prepared⟩ ∧
    ∀ self ∈ procSet candidateCount, s.pc self = initialPc candidateCount self

/-! ### The workers -/

def AwaitEvaluation (self : ℤ) (s t : State) : Prop :=
  s.pc self = .awaitEvaluation ∧ (s.vars.terminated = true ∨ s.vars.txnPhase = .evaluating) ∧
    t = s.goto self .complete s.vars

def Complete (self : ℤ) (s t : State) : Prop :=
  s.pc self = .complete ∧
    t = s.goto self .doneWorker
      (if s.vars.terminated then s.vars
      else { s.vars with
        pending := s.vars.pending \ {self}
        completed := s.vars.completed ∪ {self} })

def DoneWorker (self : ℤ) (s t : State) : Prop :=
  s.pc self = .doneWorker ∧ t = s.goto self .done s.vars

def Worker (self : ℤ) (s t : State) : Prop :=
  AwaitEvaluation self s t ∨ Complete self s t ∨ DoneWorker self s t

/-! ### The owner -/

def Reserve (s t : State) : Prop :=
  s.pc 0 = .reserve ∧
    t = s.goto 0 .startEvaluation
      (if s.vars.terminated then s.vars else { s.vars with txnPhase := .reserved })

def StartEvaluation (s t : State) : Prop :=
  s.pc 0 = .startEvaluation ∧
    t = s.goto 0 .awaitBatch
      (if s.vars.terminated then s.vars else { s.vars with txnPhase := .evaluating })

def AwaitBatch (s t : State) : Prop :=
  s.pc 0 = .awaitBatch ∧ (s.vars.terminated = true ∨ s.vars.pending = ∅) ∧
    t = s.goto 0 .validate s.vars

def Validate (s t : State) : Prop :=
  s.pc 0 = .validate ∧
    t = s.goto 0 .commit
      (if s.vars.terminated then s.vars else { s.vars with txnPhase := .validated })

def Commit (s t : State) : Prop :=
  s.pc 0 = .commit ∧
    t = s.goto 0 .doneOwner
      (if s.vars.terminated then s.vars
      else { s.vars with
        committedTrace := candidateOrder candidateCount
        cacheVisible := candidateIndices candidateCount
        txnPhase := .committed })

def DoneOwner (s t : State) : Prop := s.pc 0 = .doneOwner ∧ t = s.goto 0 .done s.vars

def Owner (s t : State) : Prop :=
  Reserve s t ∨ StartEvaluation s t ∨ AwaitBatch s t ∨ Validate s t ∨ Commit candidateCount s t ∨
    DoneOwner s t

/-! ### The failure -/

def ChooseFailure (s t : State) : Prop :=
  s.pc (-1) = .chooseFailure ∧
    ∃ vars, t = s.goto (-1) .doneFailure vars ∧
      ((if s.vars.txnPhase ≠ .committed then
          ∃ phase, (phase = .aborted ∨ phase = .interrupted) ∧
            vars = { s.vars with
              pending := ∅
              completed := ∅
              terminated := true
              txnPhase := phase }
        else vars = s.vars) ∨
        vars = s.vars)

def DoneFailure (s t : State) : Prop := s.pc (-1) = .doneFailure ∧ t = s.goto (-1) .done s.vars

def Failure (s t : State) : Prop := ChooseFailure s t ∨ DoneFailure s t

def Terminating (s t : State) : Prop := (∀ self ∈ procSet candidateCount, s.pc self = .done) ∧ t = s

def Next (s t : State) : Prop :=
  Owner candidateCount s t ∨ Failure s t ∨
    (∃ self ∈ candidateIndices candidateCount, Worker self s t) ∨ Terminating candidateCount s t

/-- `Spec`, up to stuttering. -/
def system : System State := ⟨Init candidateCount, Next candidateCount⟩

end OrderedPlusCal

end TxnOpt

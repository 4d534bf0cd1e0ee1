import TxnOpt.Runtime.Session

/-!
# Admission

`admitCandidates` keys and screens the canonical candidate stream in bounded batches and stops once the
admission limit is reached.
-/

namespace TxnOpt

def screeningBatchSize : Nat := 64

/-- The local variables of `_admit_candidates`; `rest` is `candidates[position:]`. -/
structure Admitting (Cand : Type) where
  rest : List Cand
  seen : List String
  admitted : List Cand
  admittedKeys : List String
  screenedCandidateCount : Nat
  screenedAdmissibleCount : Nat

/-- The result of `_admit_candidates`. -/
structure Admission (Cand : Type) where
  admitted : List Cand
  admittedKeys : List String
  screenedCandidateCount : Nat
  uniqueCount : Nat
  screenedAdmissibleCount : Nat
  screeningComplete : Bool

section

variable {W Cand State Obj : Type}

/-- The inner `while` loop: key candidates until the batch holds `size` new ones. The result is the batch
with its keys, the candidates left and the keys seen. -/
def takeBatch (oracle : Oracle W Cand State Obj) (size : Nat) :
    List Cand → List String → List (String × Cand) →
      Prog W PyExc (List (String × Cand) × List Cand × List String)
  | [], seen, batch => pure (batch, [], seen)
  | candidate :: rest, seen, batch =>
      if batch.length < size then do
        let key ← oracle.stableKey candidate
        if key = "" then Prog.raise (.contractError "oracle stable_key cannot be empty")
        else if key ∈ seen then takeBatch oracle size rest seen batch
        else takeBatch oracle size rest (seen ++ [key]) (batch ++ [(key, candidate)])
      else pure (batch, candidate :: rest, seen)

/-- The ordered screening decisions of a batch, all of them `bool`. -/
def screenBatch (oracle : Oracle W Cand State Obj) (batch : List Cand) :
    Prog W PyExc (List Bool) := do
  let decisions ← oracle.screen batch
  if decisions.length = batch.length ∧ decisions.all (fun d => d.asBool?.isSome) = true then
    pure (decisions.filterMap Value.asBool?)
  else Prog.raise (.contractError "oracle screening decisions must be ordered booleans")

/-- `admission_limit is not None and len(admitted) >= admission_limit`. -/
def limitReached (limit : Option Nat) (count : Nat) : Bool :=
  limit.any fun limit => decide (limit ≤ count)

/-- The `for` loop over a screened batch; it stops at the admission limit. -/
def admitBatch (limit : Option Nat) :
    List ((String × Cand) × Bool) → Admitting Cand → Admitting Cand
  | [], acc => acc
  | (_, false) :: rest, acc => admitBatch limit rest acc
  | ((key, candidate), true) :: rest, acc =>
      if limitReached limit acc.admitted.length then acc
      else admitBatch limit rest
        { acc with
          admitted := acc.admitted ++ [candidate]
          admittedKeys := acc.admittedKeys ++ [key] }

def screeningSize : Option Nat → Nat
  | none => screeningBatchSize
  | some limit => min screeningBatchSize limit

/-- The outer `while` loop. A pass takes at least one candidate off `rest`, so as many passes as
candidates suffice. -/
def admitLoop (oracle : Oracle W Cand State Obj) (limit : Option Nat) :
    Nat → Admitting Cand → Prog W PyExc (Admitting Cand)
  | 0, acc => pure acc
  | passes + 1, acc =>
      if acc.rest ≠ [] ∧ limitReached limit acc.admitted.length = false then do
        let (batch, rest, seen) ← takeBatch oracle (screeningSize limit) acc.rest acc.seen []
        if batch = [] then admitLoop oracle limit passes { acc with rest, seen }
        else do
          let decisions ← screenBatch oracle (batch.map Prod.snd)
          let screened :=
            { acc with
              rest
              seen
              screenedCandidateCount := acc.screenedCandidateCount + batch.length
              screenedAdmissibleCount :=
                acc.screenedAdmissibleCount + decisions.countP (fun d => d) }
          admitLoop oracle limit passes (admitBatch limit (batch.zip decisions) screened)
      else pure acc

/-- `_admit_candidates`. -/
def admitCandidates (oracle : Oracle W Cand State Obj) (candidates : List Cand)
    (limit : Option Nat) : Prog W PyExc (Admission Cand) := do
  let final ← admitLoop oracle limit candidates.length ⟨candidates, [], [], [], 0, 0⟩
  if final.seen = [] then
    Prog.raise (.contractError "candidate deduplication removed the entire round")
  else
    pure ⟨final.admitted, final.admittedKeys, final.screenedCandidateCount, final.seen.length,
      final.screenedAdmissibleCount, final.rest.isEmpty⟩

end

/-- `kernel.admission_limit`, checked; `none` for a kernel without one. -/
def admissionLimit {W Cand State : Type} (kernel : SearchKernel W Cand State) :
    Prog W PyExc (Option Nat) :=
  match kernel.admissionLimit with
  | none => pure none
  | some limit => do
      let raw ← limit
      match raw.asInt? with
      | some (.ofNat (n + 1)) => pure (some (n + 1))
      | _ => Prog.raise (.contractError "kernel admission_limit must be a positive integer")

end TxnOpt

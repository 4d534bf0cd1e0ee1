import Mathlib.Data.Nat.Notation
import Mathlib.Tactic.TypeStar

/-!
# The prepared-round transaction

`PreparedRoundTransaction`: the private reservation, settlement and cache delta of one native round. A call
that throws may have changed the transaction before, so every call gives the transaction it leaves and what
it throws. A sum of two counters never wraps to a value that passes the comparison it is made for, so
counters are integers.
-/

namespace TxnOpt.Native

inductive PreparedRoundPhase
  | prepared
  | reserved
  | evaluating
  | validated
  | aborted
  | interrupted
  deriving DecidableEq, Repr

def phaseName : PreparedRoundPhase → String
  | .prepared => "PREPARED"
  | .reserved => "RESERVED"
  | .evaluating => "EVALUATING"
  | .validated => "VALIDATED"
  | .aborted => "ABORTED"
  | .interrupted => "INTERRUPTED"

/-- The standard exceptions, with what they say. -/
inductive CppError
  | invalidArgument (what : String)
  | runtimeError (what : String)
  | logicError (what : String)
  deriving DecidableEq, Repr

structure PreparedRoundReceipt where
  phase : PreparedRoundPhase
  requestedWork : Int
  budgetLimit : Int
  reservedWork : Int
  remainingWork : Int
  startedWork : Int
  completedWork : Int
  interruptedWork : Int
  preparedCacheWriteCount : Int
  preparedCacheKeyChecksum : BitVec 64
  phaseTrace : List PreparedRoundPhase
  deriving DecidableEq, Repr

structure PreparedRoundTransaction where
  requestedWork : Int
  budgetLimit : Int
  reservedWork : Int := 0
  startedWork : Int := 0
  completedWork : Int := 0
  interruptedWork : Int := 0
  preparedCacheWriteCount : Int := 0
  preparedCacheKeyChecksum : BitVec 64 := 0
  phase : PreparedRoundPhase := .prepared
  phaseTrace : List PreparedRoundPhase := [.prepared]
  deriving DecidableEq, Repr

/-- The transaction after a call, and the exception that the call throws. -/
structure Outcome where
  transaction : PreparedRoundTransaction
  thrown : Option CppError
  deriving DecidableEq, Repr

namespace PreparedRoundTransaction

/-- The constructor. -/
def new (requestedWork budgetLimit : Int) : Except CppError PreparedRoundTransaction :=
  if requestedWork < 0 ∨ budgetLimit < 0 then
    .error (.invalidArgument "prepared-round work and budget must be non-negative")
  else .ok { requestedWork, budgetLimit }

def fnvOffset : BitVec 64 := 1469598103934665603

def fnvPrime : BitVec 64 := 1099511628211

/-- The bytes of a key from the least significant one on, then a separator. -/
def orderedKeyChecksum (keys : List (BitVec 64)) : BitVec 64 :=
  keys.foldl (fun (checksum key : BitVec 64) =>
    let mixed := (List.range 8).foldl (fun (checksum : BitVec 64) (byte : ℕ) =>
      (checksum ^^^ ((key >>> (byte * 8)) &&& 0xff)) * fnvPrime) checksum
    (mixed ^^^ 0xff) * fnvPrime) fnvOffset

variable (transaction : PreparedRoundTransaction)

def transition (next : PreparedRoundPhase) : PreparedRoundTransaction :=
  { transaction with phase := next, phaseTrace := transaction.phaseTrace ++ [next] }

/-- `require_phase`, then the rest of the call. -/
def requirePhase (expected : PreparedRoundPhase) (rest : Outcome) : Outcome :=
  if transaction.phase ≠ expected then
    ⟨transaction, some (.logicError "prepared-round transition is out of order")⟩
  else rest

def reserve : Outcome :=
  transaction.requirePhase .prepared <|
    if transaction.requestedWork > transaction.budgetLimit then
      ⟨transaction.transition .aborted,
        some (.invalidArgument "native round budget cannot reserve the complete transaction")⟩
    else
      ⟨({ transaction with reservedWork := transaction.requestedWork }).transition .reserved, none⟩

def beginEvaluation : Outcome :=
  transaction.requirePhase .reserved ⟨transaction.transition .evaluating, none⟩

/-- The counters that `resolve` stores before it decides on the phase. -/
def settle (startedWork completedWork interruptedWork : Int) : PreparedRoundTransaction :=
  { transaction with startedWork, completedWork, interruptedWork }

def resolve (startedWork completedWork interruptedWork : Int) (preparedCacheKeys : List (BitVec 64)) : Outcome :=
  transaction.requirePhase .evaluating <|
    if startedWork < 0 ∨ completedWork < 0 ∨ interruptedWork < 0 ∨ startedWork > transaction.reservedWork ∨
        completedWork > startedWork ∨ interruptedWork > startedWork ∨
        completedWork + interruptedWork ≠ startedWork then
      ⟨transaction.transition .aborted,
        some (.runtimeError "native round work settlement violates the reserved ledger")⟩
    else
      let settled := transaction.settle startedWork completedWork interruptedWork
      if interruptedWork ≠ 0 ∨ startedWork ≠ transaction.requestedWork then
        if preparedCacheKeys ≠ [] then
          ⟨settled.transition .aborted,
            some (.runtimeError "interrupted native round cannot prepare cache writes")⟩
        else ⟨settled.transition .interrupted, none⟩
      else if completedWork ≠ transaction.requestedWork ∨ (preparedCacheKeys.length : Int) ≠ completedWork then
        ⟨settled.transition .aborted,
          some (.runtimeError "validated native round lacks a complete prepared cache delta")⟩
      else
        ⟨({ settled with
            preparedCacheWriteCount := completedWork
            preparedCacheKeyChecksum := orderedKeyChecksum preparedCacheKeys }).transition .validated, none⟩

/-- The phase only changes before a terminal one; the cache delta is dropped in any phase. -/
def abort : Outcome :=
  let stopped :=
    if transaction.phase = .prepared ∨ transaction.phase = .reserved ∨ transaction.phase = .evaluating then
      transaction.transition .aborted
    else transaction
  ⟨{ stopped with preparedCacheWriteCount := 0, preparedCacheKeyChecksum := 0 }, none⟩

def receipt : Except CppError PreparedRoundReceipt :=
  if transaction.phase ≠ .validated ∧ transaction.phase ≠ .interrupted ∧ transaction.phase ≠ .aborted then
    .error (.logicError "prepared-round receipt requires a terminal prepared phase")
  else
    .ok
      { phase := transaction.phase
        requestedWork := transaction.requestedWork
        budgetLimit := transaction.budgetLimit
        reservedWork := transaction.reservedWork
        remainingWork := transaction.budgetLimit - transaction.reservedWork
        startedWork := transaction.startedWork
        completedWork := transaction.completedWork
        interruptedWork := transaction.interruptedWork
        preparedCacheWriteCount := transaction.preparedCacheWriteCount
        preparedCacheKeyChecksum := transaction.preparedCacheKeyChecksum
        phaseTrace := transaction.phaseTrace }

/-- The calls that change a transaction. -/
inductive Call
  | reserve
  | beginEvaluation
  | resolve (startedWork completedWork interruptedWork : Int) (preparedCacheKeys : List (BitVec 64))
  | abort
  deriving DecidableEq, Repr

def step : Call → Outcome
  | .reserve => transaction.reserve
  | .beginEvaluation => transaction.beginEvaluation
  | .resolve startedWork completedWork interruptedWork preparedCacheKeys =>
      transaction.resolve startedWork completedWork interruptedWork preparedCacheKeys
  | .abort => transaction.abort

/-- The transaction after a sequence of calls, whatever they throw. -/
def run (calls : List Call) : PreparedRoundTransaction :=
  calls.foldl (fun transaction call => (transaction.step call).transaction) transaction

end PreparedRoundTransaction

end TxnOpt.Native

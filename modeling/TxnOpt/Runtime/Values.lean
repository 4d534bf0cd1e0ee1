import TxnOpt.Lib.Prog

/-!
# Python values and exceptions

The runtime is typed Python, but it re-checks at run time what a kernel, an oracle or a cache store
hands it: a screening decision that is not a `bool`, a work count that is not an `int`, a receipt that
is some other object. Such answers are a `Value` here, so that the checks have something to reject.
-/

namespace TxnOpt

/-- The exception classes that the runtime's handlers tell apart. -/
inductive ExcClass where
  | runtimeContractError
  | valueError
  | typeError
  | timeoutError
  | oracleWorkerError
  | cacheCommitError
  | staleCacheSnapshotError
  | overflowError
  | wasteBoundViolation
  | other (name : String)
  deriving DecidableEq, Repr

/-- An exception instance: the classes it is an instance of, and its message. -/
structure PyExc where
  classes : List ExcClass
  message : String
  deriving DecidableEq, Repr

/-- `isinstance(error, cls)`. -/
def PyExc.isInstance (error : PyExc) (cls : ExcClass) : Bool := decide (cls ∈ error.classes)

namespace PyExc

def contractError (message : String) : PyExc := ⟨[.runtimeContractError], message⟩

def valueError (message : String) : PyExc := ⟨[.valueError], message⟩

def typeError (message : String) : PyExc := ⟨[.typeError], message⟩

def overflowError (message : String) : PyExc := ⟨[.overflowError], message⟩

def wasteBoundViolation (message : String) : PyExc := ⟨[.wasteBoundViolation], message⟩

def cacheCommitError (message : String) : PyExc := ⟨[.cacheCommitError], message⟩

def staleCacheSnapshotError (message : String) : PyExc :=
  ⟨[.staleCacheSnapshotError, .cacheCommitError], message⟩

end PyExc

/-- A dynamically typed Python value. `other` is any object that is none of the rest, such as an
instance of a class that `json` cannot write. -/
inductive Value where
  | null
  | bool (value : Bool)
  | int (value : Int)
  | str (value : String)
  | list (items : List Value)
  | dict (items : List (String × Value))
  | other
  deriving Repr

namespace Value

/-- `mapping.get(key)` on the entries of a dict with distinct keys. -/
def get (entries : List (String × Value)) (key : String) : Option Value := entries.lookup key

/-- The value of a `bool`; `none` on every other type. -/
def asBool? : Value → Option Bool
  | .bool b => some b
  | _ => none

/-- The value of an `int` that is not a `bool`. -/
def asInt? : Value → Option Int
  | .int i => some i
  | _ => none

def asStr? : Value → Option String
  | .str s => some s
  | _ => none

mutual

/-- `json.dumps(value, allow_nan=False)` succeeds. -/
def isJson : Value → Bool
  | .list items => isJsonList items
  | .dict items => isJsonDict items
  | .other => false
  | _ => true

def isJsonList : List Value → Bool
  | [] => true
  | v :: rest => isJson v && isJsonList rest

def isJsonDict : List (String × Value) → Bool
  | [] => true
  | (_, v) :: rest => isJson v && isJsonDict rest

end

end Value

/-- `re.fullmatch(r"[0-9a-f]{64}", text)`. -/
def isDigest (text : String) : Bool :=
  text.toList.length == 64 &&
    text.toList.all fun c => ('0' ≤ c && c ≤ '9') || ('a' ≤ c && c ≤ 'f')

def contractVersion : String := "txnopt-contract-v1"

def physicalTraceVersion : String := "txnopt-physical-trace-v1"

end TxnOpt

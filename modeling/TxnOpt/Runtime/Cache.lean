import TxnOpt.Runtime.Values
import Mathlib.Data.List.AList

/-!
# Solve-local cache transactions

The runtime reaches its cache through `CacheOps`, an arbitrary store. `InMemoryCacheStore` is the
reference store: one atomic generation per committed round.
-/

namespace TxnOpt

/-- A Python `dict` with `str` keys. -/
abbrev PyDict (V : Type) : Type := AList fun _ : String => V

/-- `len(entries)`. -/
def PyDict.size {V : Type} (entries : PyDict V) : Nat := entries.entries.length

/-- `values.update(entries)`: on a common key the new entry wins. -/
def PyDict.update {V : Type} (values entries : PyDict V) : PyDict V := entries ∪ values

/-- A `CacheTxn` object. Store methods may write to it, also before they raise. -/
structure CacheTxn (V : Type) where
  expectedGeneration : Nat
  staged : PyDict V
  closed : Bool

/-- The transaction after `staged.clear(); closed = True`. -/
def CacheTxn.close {V : Type} (txn : CacheTxn V) : CacheTxn V :=
  { txn with staged := ∅, closed := true }

structure CacheLookup (V : Type) where
  generation : Nat
  values : List (Option V)

structure CacheCommitReceipt where
  generationBefore : Nat
  generationAfter : Nat
  writes : Nat
  deriving DecidableEq, Repr

/-- What a store method can touch: the store, the outside world, and the transaction object. -/
structure CacheContext (C W V : Type) where
  store : C
  world : W
  txn : CacheTxn V

/-- The methods of a cache store. `commit` may return any object: `none` is one that is not a
`CacheCommitReceipt`. -/
structure CacheOps (C W V : Type) where
  begin : Prog (C × W) PyExc (CacheTxn V)
  lookup : List String → Prog (CacheContext C W V) PyExc (CacheLookup V)
  stage : PyDict V → Prog (CacheContext C W V) PyExc Unit
  commit : Prog (CacheContext C W V) PyExc (Option CacheCommitReceipt)
  rollback : Prog (CacheContext C W V) PyExc Unit
  snapshot : Prog (CacheContext C W V) PyExc (Nat × PyDict V)

/-! ### The reference store -/

structure InMemoryCacheStore (V : Type) where
  generation : Nat
  values : PyDict V

namespace InMemoryCacheStore

variable {W V : Type}

def new : InMemoryCacheStore V := ⟨0, ∅⟩

def begin : Prog (InMemoryCacheStore V × W) PyExc (CacheTxn V) :=
  Prog.read fun s => ⟨s.1.generation, ∅, false⟩

def lookup (keys : List String) :
    Prog (CacheContext (InMemoryCacheStore V) W V) PyExc (CacheLookup V) :=
  Prog.read fun s => ⟨s.store.generation, keys.map fun key => s.store.values.lookup key⟩

def requireOpen : Prog (CacheContext (InMemoryCacheStore V) W V) PyExc Unit := fun s =>
  if s.txn.closed then (.error (.cacheCommitError "cache transaction is already closed"), s)
  else (.ok (), s)

def stage (entries : PyDict V) : Prog (CacheContext (InMemoryCacheStore V) W V) PyExc Unit := do
  requireOpen
  if entries.keys.any (· == "") then
    Prog.raise (.valueError "cache keys cannot be empty")
  else
    Prog.modify fun s => { s with txn := { s.txn with staged := s.txn.staged.update entries } }

/-- The `on_commit` callback, given a copy of the staged entries. -/
def publish (onCommit : Option (PyDict V → Prog W PyExc Unit)) :
    Prog (CacheContext (InMemoryCacheStore V) W V) PyExc Unit := fun s =>
  match onCommit with
  | none => (.ok (), s)
  | some callback =>
      match callback s.txn.staged s.world with
      | (.ok _, w) => (.ok (), { s with world := w })
      | (.error _, w) =>
          (.error (.cacheCommitError "cache publication failed"),
            { s with world := w, txn := s.txn.close })

def commit (onCommit : Option (PyDict V → Prog W PyExc Unit)) :
    Prog (CacheContext (InMemoryCacheStore V) W V) PyExc (Option CacheCommitReceipt) := do
  requireOpen
  let stale ← Prog.read fun s => s.txn.expectedGeneration != s.store.generation
  if stale then
    Prog.modify fun s => { s with txn := s.txn.close }
    Prog.raise (.staleCacheSnapshotError "cache generation changed before commit")
  else
    publish onCommit
    let receipt ← Prog.read fun s =>
      ⟨s.store.generation, s.store.generation + 1, s.txn.staged.size⟩
    Prog.modify fun s =>
      { s with
        store := ⟨s.store.generation + 1, s.store.values.update s.txn.staged⟩
        txn := s.txn.close }
    pure (some receipt)

def rollback : Prog (CacheContext (InMemoryCacheStore V) W V) PyExc Unit :=
  Prog.modify fun s => if s.txn.closed then s else { s with txn := s.txn.close }

def snapshot : Prog (CacheContext (InMemoryCacheStore V) W V) PyExc (Nat × PyDict V) :=
  Prog.read fun s => (s.store.generation, s.store.values)

/-- `InMemoryCacheStore(on_commit=...)` as the runtime sees it. The callback acts on the outside world
only: it holds no reference to the store. -/
def ops (onCommit : Option (PyDict V → Prog W PyExc Unit)) :
    CacheOps (InMemoryCacheStore V) W V where
  begin := begin
  lookup := lookup
  stage := stage
  commit := commit onCommit
  rollback := rollback
  snapshot := snapshot

end InMemoryCacheStore

end TxnOpt

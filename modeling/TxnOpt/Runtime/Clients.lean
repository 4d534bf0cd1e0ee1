import TxnOpt.Runtime.Cache

/-!
# Interleaved cache transactions

Any number of transactions of one `InMemoryCacheStore`, named by the order in which they began, and the
requests made on them in any order.
-/

namespace TxnOpt

/-- The store, the world of its callback, and every transaction that it ever began. -/
structure StoreClients (W V : Type) where
  store : InMemoryCacheStore V
  world : W
  txns : List (CacheTxn V)

inductive StoreRequest (V : Type) where
  | begin
  | lookup (keys : List String)
  | stage (handle : Nat) (entries : PyDict V)
  | commit (handle : Nat)
  | rollback (handle : Nat)

namespace StoreRequest

variable {V : Type}

def handle : StoreRequest V → Option Nat
  | .begin | .lookup _ => none
  | .stage handle _ | .commit handle | .rollback handle => some handle

end StoreRequest

namespace StoreClients

variable {W V α : Type}

def start (w : W) : StoreClients W V := ⟨.new, w, []⟩

def beginTxn : Prog (StoreClients W V) PyExc Unit := fun s =>
  match InMemoryCacheStore.begin (s.store, s.world) with
  | (.ok txn, (store, world)) => (.ok (), ⟨store, world, s.txns ++ [txn]⟩)
  | (.error error, (store, world)) => (.error error, ⟨store, world, s.txns⟩)

/-- Run a store method on a transaction object. A handle that no `begin` gave names none. -/
def onTxn (handle : Nat) (call : Prog (CacheContext (InMemoryCacheStore V) W V) PyExc α) :
    Prog (StoreClients W V) PyExc α := fun s =>
  match s.txns[handle]? with
  | none => (.error ⟨[.other "NameError"], "no such transaction"⟩, s)
  | some txn =>
      match call ⟨s.store, s.world, txn⟩ with
      | (outcome, after) => (outcome, ⟨after.store, after.world, s.txns.set handle after.txn⟩)

/-- One request. The values that the methods return are left out. -/
def perform (onCommit : Option (PyDict V → Prog W PyExc Unit)) :
    StoreRequest V → Prog (StoreClients W V) PyExc Unit
  | .begin => beginTxn
  | .lookup keys => fun s =>
      -- `lookup` takes no transaction, so any stands in the context
      match InMemoryCacheStore.lookup keys ⟨s.store, s.world, ⟨0, ∅, true⟩⟩ with
      | (.ok _, after) => (.ok (), ⟨after.store, after.world, s.txns⟩)
      | (.error error, after) => (.error error, ⟨after.store, after.world, s.txns⟩)
  | .stage handle entries => onTxn handle (InMemoryCacheStore.stage entries)
  | .commit handle => do
      let _ ← onTxn handle (InMemoryCacheStore.commit onCommit)
      pure ()
  | .rollback handle => onTxn handle InMemoryCacheStore.rollback

end StoreClients

/-- A request as it was served: the transaction object that it found, whether it returned, and the store
around it. -/
structure StoreEvent (V : Type) where
  request : StoreRequest V
  txn : Option (CacheTxn V)
  returned : Bool
  before : InMemoryCacheStore V
  after : InMemoryCacheStore V

namespace StoreEvent

variable {V : Type}

/-- The staged map of a commit that returned. -/
def published (event : StoreEvent V) : Option (PyDict V) :=
  match event.request, event.returned with
  | .commit _, true => event.txn.map CacheTxn.staged
  | _, _ => none

def begins (event : StoreEvent V) : Bool :=
  match event.request with
  | .begin => true
  | _ => false

/-- The entries of a stage on `handle` that returned. -/
def accepted (handle : Nat) (event : StoreEvent V) : Option (PyDict V) :=
  match event.request, event.returned with
  | .stage other entries, true => if other = handle then some entries else none
  | _, _ => none

end StoreEvent

/-- The event of one request. -/
def eventOf {W V : Type} (onCommit : Option (PyDict V → Prog W PyExc Unit)) (request : StoreRequest V)
    (s : StoreClients W V) : StoreEvent V :=
  let (outcome, t) := StoreClients.perform onCommit request s
  ⟨request, request.handle.bind (s.txns[·]?), outcome.isOk, s.store, t.store⟩

/-- Serve the requests in turn, and list what happened. -/
def serveRequests {W V : Type} (onCommit : Option (PyDict V → Prog W PyExc Unit)) :
    List (StoreRequest V) → StoreClients W V → List (StoreEvent V) × StoreClients W V
  | [], s => ([], s)
  | request :: later, s =>
      let (events, final) := serveRequests onCommit later (StoreClients.perform onCommit request s).2
      (eventOf onCommit request s :: events, final)

end TxnOpt

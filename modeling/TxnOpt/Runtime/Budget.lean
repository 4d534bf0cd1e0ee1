import TxnOpt.Runtime.Values

/-!
# The work ledger

`BudgetLedger` counts the work of one run. Reserved work is work admitted for the current round;
starting it moves it to the started counter, which never falls.
-/

namespace TxnOpt

structure BudgetReceipt where
  requested : Nat
  startedAfter : Nat
  remainingAfter : Option Int
  granted : Bool
  deriving DecidableEq, Repr

structure BudgetLedger where
  limit : Option Nat
  reserved : Nat
  started : Nat
  deriving DecidableEq, Repr

namespace BudgetLedger

/-- `BudgetLedger(limit)`. -/
def new (limit : Option Nat) : BudgetLedger := ⟨limit, 0, 0⟩

def remaining (ledger : BudgetLedger) : Option Int :=
  ledger.limit.map fun (limit : Nat) => (limit : Int) - ledger.started - ledger.reserved

/-- `remaining is None or count <= remaining`. -/
def grants (ledger : BudgetLedger) (count : Nat) : Bool :=
  ledger.remaining.all fun remaining => decide ((count : Int) ≤ remaining)

def reserve (ledger : BudgetLedger) (count : Nat) : BudgetReceipt × BudgetLedger :=
  let granted := ledger.grants count
  let after := if granted then { ledger with reserved := ledger.reserved + count } else ledger
  (⟨count, after.started, after.remaining, granted⟩, after)

/-- Move admitted work into the irreversible started counter. -/
def start (ledger : BudgetLedger) (count : Nat) : Except PyExc BudgetLedger :=
  if count > ledger.reserved then
    .error (.valueError "started work exceeds the active reservation")
  else
    .ok { ledger with reserved := ledger.reserved - count, started := ledger.started + count }

/-- Release work that never crossed the execution boundary. -/
def releaseReserved (ledger : BudgetLedger) : BudgetLedger := { ledger with reserved := 0 }

variable (ledger : BudgetLedger)

@[simp] theorem new_limit (limit : Option Nat) : (new limit).limit = limit := rfl

@[simp] theorem new_reserved (limit : Option Nat) : (new limit).reserved = 0 := rfl

@[simp] theorem new_started (limit : Option Nat) : (new limit).started = 0 := rfl

@[simp] theorem releaseReserved_limit : ledger.releaseReserved.limit = ledger.limit := rfl

@[simp] theorem releaseReserved_reserved : ledger.releaseReserved.reserved = 0 := rfl

@[simp] theorem releaseReserved_started : ledger.releaseReserved.started = ledger.started := rfl

theorem start_eq_ok {count : Nat} (h : count ≤ ledger.reserved) :
    ledger.start count =
      .ok { ledger with reserved := ledger.reserved - count, started := ledger.started + count } := by
  unfold start
  rw [if_neg (by omega)]

@[simp] theorem reserve_granted (count : Nat) :
    (ledger.reserve count).1.granted = ledger.grants count := rfl

theorem reserve_of_grants {count : Nat} (h : ledger.grants count = true) :
    (ledger.reserve count).2 = { ledger with reserved := ledger.reserved + count } :=
  if_pos h

theorem reserve_of_not_grants {count : Nat} (h : ledger.grants count = false) :
    (ledger.reserve count).2 = ledger :=
  if_neg (by simp [h])

theorem le_of_grants {count limit : Nat} (h : ledger.grants count = true)
    (hlimit : ledger.limit = some limit) : ledger.started + ledger.reserved + count ≤ limit := by
  simp only [grants, remaining, hlimit, Option.map_some, Option.all_some, decide_eq_true_eq] at h
  omega

end BudgetLedger

end TxnOpt

import Mathlib
import PoolAccounting.Ledger

/-!
The journal of a run: the actions that succeeded, each with the ledger it met and with its receipt.
What was staked, withdrawn, compounded and paid out in a run is read off its journal.
-/
namespace PoolAccounting

open Staking Fees

/-- The integer that an operand holds, as far as it is a natural number. -/
def Operand.toNat : Operand → Nat
  | .int n => n.toNat
  | .nonInt => 0

@[simp] theorem Operand.toNat_natCast (n : Nat) : (n : Operand).toNat = n := rfl

namespace Ledger

/-- A ledger without users and reward tokens. -/
def opened (stakingToken : String) (fees : Book) : Ledger := { pool := { stakingToken }, fees }

structure Entry where
  before : Ledger
  action : Action
  receipt : Receipt

namespace Entry

/-- What the action staked. -/
def staked (e : Entry) : Nat :=
  match e.action with
  | .stake _ amount _ _ => amount.toNat
  | _ => 0

def unstaked (e : Entry) : Nat :=
  match e.action with
  | .unstake _ amount _ => amount.toNat
  | _ => 0

def compounded (e : Entry) : Nat :=
  match e.action, e.receipt with
  | .compound .., .compounded _ amount => amount
  | _, _ => 0

/-- What the action paid out of a reward token. What is compounded was paid in the staking token. -/
def paid (k : Key) (e : Entry) : Nat :=
  match e.action, e.receipt with
  | .claim .., .claimed amounts => (amounts.get? k).getD 0
  | .compound .., .compounded claimed amount =>
    (claimed.get? k).getD 0 + if k = .text e.before.pool.stakingToken then amount else 0
  | _, _ => 0

/-- The user whom a claim pays. -/
def payee (e : Entry) : Option String :=
  match e.action with
  | .claim user _ _ | .compound user _ _ => some user
  | _ => none

/-- What the action paid out of a reward token to one user. -/
def paidTo (user : String) (k : Key) (e : Entry) : Nat :=
  if e.payee = some user then e.paid k else 0

end Entry

def journal (l : Ledger) : List Action → List Entry
  | [] => []
  | a :: actions =>
    match l.perform a with
    | .ok (r, next) => ⟨l, a, r⟩ :: next.journal actions
    | .error _ => l.journal actions

theorem journal_cons_of_ok {l next : Ledger} {a : Action} {r : Receipt}
    (h : l.perform a = .ok (r, next)) (actions : List Action) :
    l.journal (a :: actions) = ⟨l, a, r⟩ :: (l.step a).journal actions := by
  rw [journal, h, step_of_ok h]

theorem journal_cons_of_error {l : Ledger} {a : Action} {f : Fault}
    (h : l.perform a = .error f) (actions : List Action) :
    l.journal (a :: actions) = (l.step a).journal actions := by
  rw [journal, h, step_of_error h]

/-- What every action that succeeds keeps, a run keeps. -/
theorem run_invariant (Inv : Ledger → Prop) {l : Ledger} {actions : List Action} (hl : Inv l)
    (step : ∀ {l next a r}, a ∈ actions → Inv l → l.perform a = .ok (r, next) → Inv next) :
    Inv (l.run actions) := by
  induction actions generalizing l with
  | nil => exact hl
  | cons a actions ih =>
    refine ih ?_ fun ha => step (List.mem_cons_of_mem a ha)
    cases h : l.perform a with
    | ok answer =>
      rw [step_of_ok h]
      exact step List.mem_cons_self hl h
    | error f => rwa [step_of_error h]

/-- Two users stake and earn two tokens, one of them the staking token. -/
def twoStakers : List Action :=
  [.addToken "S" 0 5, .addToken "R" 0 7, .stake "alice" 30 2 none, .stake "bob" 40 3 none,
    .notify "R" 11 5, .claim "alice" 8 (.listed ["R"]), .compound "bob" 9 none,
    .unstake "alice" 10 12]

end Ledger

end PoolAccounting

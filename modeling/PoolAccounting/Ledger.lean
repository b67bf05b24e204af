import PoolAccounting.Fees
import PoolAccounting.Staking.Stakes

/-!
A ledger over time: one staking pool, its users by name, and a fee book. An action that is refused
leaves the ledger as it was. A user who is not known yet counts as an empty stake and is entered
when an action of theirs succeeds.
-/
namespace PoolAccounting

open Staking Fees

structure Ledger where
  pool : StakingPool
  users : Table UserStake := ∅
  fees : Book := {}
  deriving DecidableEq, Repr

namespace Ledger

inductive Action
  | stake (user : String) (amount now : Operand) (limits : Option StakeLimits)
  | unstake (user : String) (amount now : Operand)
  | update (user : String) (now : Operand)
  | claim (user : String) (now : Operand) (choice : TokenChoice)
  | compound (user : String) (now : Operand) (limits : Option StakeLimits)
  | pending (user : String) (now : Operand)
  | apr (token : Scalar) (period : Operand)
  | addToken (token : Scalar) (now rate : Operand)
  | setRate (token : Scalar) (rate now : Operand)
  | notify (token : Scalar) (amount now : Operand)
  | receive (token : Scalar) (amount : Operand)
  | distribute (token : Scalar) (shares : Shares)
  | distributeAll (shares : Shares)
  | toStaking (token : Scalar) (shares : Shares) (now : Operand)
  deriving DecidableEq, Repr

/-- What an action that succeeds answers. -/
inductive Receipt
  | done
  | claimed (amounts : Table Nat)
  | compounded (claimed : Table Nat) (amount : Nat)
  | pending (amounts : Table Nat)
  | apr (bps : Nat)
  | distributed (result : Distribution)
  | allDistributed (results : List Distribution)
  deriving DecidableEq, Repr

def user (l : Ledger) (name : String) : UserStake := (l.users.get? name).getD {}

/-- Takes over the records of the pool and of one user. -/
def write (l : Ledger) (name : String) (p : StakingPool) (u : UserStake) : Ledger :=
  { l with pool := p, users := l.users.insert name u }

def perform (l : Ledger) : Action → Except Fault (Receipt × Ledger)
  | .stake name amount now limits => do
    let (p, u) ← l.pool.stake (l.user name) amount now limits
    pure (.done, l.write name p u)
  | .unstake name amount now => do
    let (p, u) ← l.pool.unstake (l.user name) amount now
    pure (.done, l.write name p u)
  | .update name now => do
    let (p, u) ← l.pool.update (l.user name) now
    pure (.done, l.write name p u)
  | .claim name now choice => do
    let c ← l.pool.claim (l.user name) now choice
    pure (.claimed c.claimed, l.write name c.pool c.user)
  | .compound name now limits => do
    let c ← l.pool.compound (l.user name) now limits
    pure (.compounded c.claimed c.compounded, l.write name c.pool c.user)
  | .pending name now => do
    let amounts ← l.pool.pendingRewards (l.user name) now
    pure (.pending amounts, l)
  | .apr token period => do
    let bps ← l.pool.estimateAprBps token period
    pure (.apr bps, l)
  | .addToken token now rate => do
    let p ← l.pool.addRewardToken token now rate
    pure (.done, { l with pool := p })
  | .setRate token rate now => do
    let p ← l.pool.setRewardRate token rate now
    pure (.done, { l with pool := p })
  | .notify token amount now => do
    let p ← l.pool.notifyRewardAmount token amount now
    pure (.done, { l with pool := p })
  | .receive token amount => do
    let fees ← l.fees.receive token amount
    pure (.done, { l with fees })
  | .distribute token shares => do
    let (fees, result) ← l.fees.distribute token shares
    pure (.distributed result, { l with fees })
  | .distributeAll shares => do
    let (fees, results) ← l.fees.distributeAll shares
    pure (.allDistributed results, { l with fees })
  | .toStaking token shares now => do
    let (fees, p, result) ← l.fees.distributeToStaking l.pool token shares now
    pure (.distributed result, { l with pool := p, fees })

def step (l : Ledger) (a : Action) : Ledger :=
  match l.perform a with
  | .ok (_, next) => next
  | .error _ => l

def run (l : Ledger) (actions : List Action) : Ledger := actions.foldl step l

/-- What each action in turn answers, with the ledger after it. -/
def history (l : Ledger) : List Action → List (Except Fault Receipt × Ledger)
  | [] => []
  | a :: actions => (Prod.fst <$> l.perform a, l.step a) :: history (l.step a) actions

@[simp] theorem run_nil (l : Ledger) : l.run [] = l := rfl

@[simp] theorem run_cons (l : Ledger) (a : Action) (actions : List Action) :
    l.run (a :: actions) = (l.step a).run actions := rfl

theorem step_of_error {l : Ledger} {a : Action} {f : Fault} (h : l.perform a = .error f) :
    l.step a = l := by simp [step, h]

theorem step_of_ok {l next : Ledger} {a : Action} {r : Receipt}
    (h : l.perform a = .ok (r, next)) : l.step a = next := by simp [step, h]

@[simp] theorem user_write (l : Ledger) (name other : String) (p : StakingPool) (u : UserStake) :
    (l.write name p u).user other = if name = other then u else l.user other := by
  unfold user write
  simp only [Table.get?_insert, Scalar.key_text, Key.text.injEq]
  split <;> rfl

end Ledger

end PoolAccounting

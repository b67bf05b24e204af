import PoolAccounting.Staking.Rewards
import PoolAccounting.Value

/-!
What users do: stake, unstake, claim, and compound. Each brings the pool and the user up to date
first and returns new records, so that an operation that is refused has changed nothing.
-/
namespace PoolAccounting.Staking

open Amount

/-- The reward tokens that a claim is for. -/
inductive TokenChoice
  | all
  | listed (tokens : List Scalar)
  /-- A scalar where a list belongs; it is refused. -/
  | single (given : Scalar)
  deriving DecidableEq, Repr

/-- The choice that a value stands for; null stands for every token. -/
def TokenChoice.ofValue (v : Value) : TokenChoice :=
  match v.elements?, v.toScalar with
  | some tokens, _ => listed tokens
  | none, .null => all
  | none, given => single given

structure ClaimResult where
  pool : StakingPool
  user : UserStake
  claimed : Table Nat
  deriving DecidableEq, Repr

structure CompoundResult where
  pool : StakingPool
  user : UserStake
  claimed : Table Nat
  compounded : Nat
  deriving DecidableEq, Repr

namespace StakingPool

/-- Resolves a choice of tokens; of several that are not registered the least is named. -/
def resolve (p : StakingPool) : TokenChoice → Except Fault (Table Unit)
  | .all => pure p.rewardPools.domain
  | .single given => .error (.notTokenList given)
  | .listed tokens =>
    let chosen := Table.ofNames tokens
    match chosen.names.find? fun token : Scalar => !p.rewardPools.contains token with
    | some token => .error (.unknownToken token)
    | none => pure chosen

/-- Adds to the principal, within the cap. -/
def addStake (p : StakingPool) (u : UserStake) (amount : Nat) (now : Operand)
    (limits : Option StakeLimits) : Except Fault (StakingPool × UserStake) := do
  let (p, u) ← p.update u now
  let staked ← addNat u.staked amount
  StakeLimits.checkPrincipal limits staked
  let stakeTime ← now.field "stake_time"
  let totalStaked ← addNat p.totalStaked amount
  pure ({ p with totalStaked }, { u with staked, stakeTime })

def stake (p : StakingPool) (u : UserStake) (amount now : Operand)
    (limits : Option StakeLimits) : Except Fault (StakingPool × UserStake) := do
  let amount ← amount.positive "amount"
  StakeLimits.checkStake limits amount
  p.addStake u amount now limits

/-- Withdraws principal; what is accrued stays claimable. -/
def unstake (p : StakingPool) (u : UserStake) (amount now : Operand) :
    Except Fault (StakingPool × UserStake) := do
  let amount ← amount.positive "amount"
  ensure (amount ≤ u.staked) (.unstakeExceedsStake amount u.staked)
  let (p, u) ← p.update u now
  let staked ← sub u.staked amount
  let totalStaked ← sub p.totalStaked amount
  pure ({ p with totalStaked }, { u with staked })

/-- Pays out the accrued rewards of the chosen tokens. -/
def claim (p : StakingPool) (u : UserStake) (now : Operand) (choice : TokenChoice) :
    Except Fault ClaimResult := do
  let chosen ← p.resolve choice
  let p ← p.accrue chosen now
  let settled ← p.settled chosen u
  let lastClaimTime ← now.field "last_claim_time"
  let checkpoints := u.checkpoints.override (settled.map fun c => { c with accrued := 0 })
  pure ⟨p, { u with checkpoints, lastClaimTime }, settled.map (·.accrued)⟩

/-- Claims everything and stakes what was paid in the staking token again. The cap applies to it,
the minimum of a stake does not. -/
def compound (p : StakingPool) (u : UserStake) (now : Operand) (limits : Option StakeLimits) :
    Except Fault CompoundResult := do
  let c ← p.claim u now .all
  let compounded := (c.claimed.get? p.stakingToken).getD 0
  let claimed := c.claimed.erase p.stakingToken
  if compounded = 0 then pure ⟨c.pool, c.user, claimed, compounded⟩
  else do
    let (p, u) ← c.pool.addStake c.user compounded now limits
    pure ⟨p, u, claimed, compounded⟩

end StakingPool

end PoolAccounting.Staking

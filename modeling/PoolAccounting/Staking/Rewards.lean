import PoolAccounting.Staking.Accrual

/-!
Reward tokens of a staking pool: registering them, changing their rate, injecting lump sums, and
bringing a pool and a user up to date with all of them or with some.
-/
namespace PoolAccounting.Staking

open Amount

/-- The seconds of a year of 365 days. -/
def secondsPerYear : Nat := 31536000

namespace StakingPool

/-- Accrues the chosen reward tokens, in the order of their names. -/
def accrue (p : StakingPool) (chosen : Table Unit) (now : Operand) :
    Except Fault StakingPool := do
  let rewardPools ← p.rewardPools.traverse fun token r =>
    if chosen.contains token then r.accrue p.totalStaked now else pure r
  pure { p with rewardPools }

/-- The checkpoints of `u` at the chosen reward tokens, settled. -/
def settled (p : StakingPool) (chosen : Table Unit) (u : UserStake) :
    Except Fault (Table Checkpoint) :=
  (p.rewardPools.restrict chosen).traverse fun token r =>
    (u.checkpoint token).settle u.staked r.rewardPerToken

/-- Accrues every reward token and settles the user against it. -/
def update (p : StakingPool) (u : UserStake) (now : Operand) :
    Except Fault (StakingPool × UserStake) := do
  let p ← p.accrue p.rewardPools.domain now
  let checkpoints ← p.settled p.rewardPools.domain u
  pure (p, { u with checkpoints := u.checkpoints.override checkpoints })

/-- Registers a reward token; one that is registered stays as it is. -/
def addRewardToken (p : StakingPool) (token : Scalar) (now rate : Operand) :
    Except Fault StakingPool := do
  let now ← now.time
  let token ← tokenName "token" token
  if p.rewardPools.contains token then pure p
  else do
    let rate ← rate.nonNegative "reward_rate"
    pure (p.withRewardPool token { lastUpdate := now, rate })

/-- Changes the rate from `now` on. -/
def setRewardRate (p : StakingPool) (token : Scalar) (rate now : Operand) :
    Except Fault StakingPool := do
  let rate ← rate.nonNegative "reward_rate"
  let r ← p.rewardPool token
  let r ← r.accrue p.totalStaked now
  pure (p.withRewardPool token { r with rate })

/-- Injects a lump sum of rewards; a token that is not registered is registered first. -/
def notifyRewardAmount (p : StakingPool) (token : Scalar) (amount now : Operand) :
    Except Fault StakingPool := do
  let amount ← amount.positive "amount"
  let p ← p.addRewardToken token now 0
  let r ← p.rewardPool token
  let r ← r.accrue p.totalStaked now
  let r ← r.inject amount p.totalStaked
  pure (p.withRewardPool token r)

/-- What each reward token owes the user at `now`. -/
def pendingRewards (p : StakingPool) (u : UserStake) (now : Operand) :
    Except Fault (Table Nat) := do
  let p ← p.accrue p.rewardPools.domain now
  p.rewardPools.traverse fun token r => (u.checkpoint token).earned u.staked r.rewardPerToken

/-- Everything credited to a token so far and its emission over `period`, in basis points of the
stake. The token counts as worth as much as the staking token; without a stake the rate is zero. -/
def estimateAprBps (p : StakingPool) (token : Scalar) (period : Operand) : Except Fault Nat := do
  let r ← p.rewardPool token
  let period ← period.positive "period"
  if p.totalStaked = 0 then pure 0
  else do
    let emission ← mulNat r.rate period
    let rewards ← addNat r.total emission
    mulDivDown rewards bpsDenominator p.totalStaked

end StakingPool

end PoolAccounting.Staking

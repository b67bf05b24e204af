import PoolAccounting.Operand
import PoolAccounting.Table.Lemmas

/-!
The records of a staking pool. The pool holds the principal of one staking token and a reward
accumulator per reward token; each user holds a checkpoint per reward token, and one that is
missing counts as all zero.
-/
namespace PoolAccounting.Staking

/-- The accumulator of one reward token. `queued` is what was emitted or injected while nothing was
staked, `total` everything ever emitted or injected. -/
structure RewardPool where
  rewardPerToken : Nat := 0
  lastUpdate : Nat := 0
  rate : Nat := 0
  queued : Nat := 0
  total : Nat := 0
  deriving DecidableEq, Repr

structure Checkpoint where
  paid : Nat := 0
  accrued : Nat := 0
  deriving DecidableEq, Repr

structure UserStake where
  staked : Nat := 0
  checkpoints : Table Checkpoint := ∅
  stakeTime : Nat := 0
  lastClaimTime : Nat := 0
  deriving DecidableEq, Repr

structure StakingPool where
  stakingToken : String
  totalStaked : Nat := 0
  rewardPools : Table RewardPool := ∅
  deriving DecidableEq, Repr

/-- What one stake has to reach and what a user's stakes may come to; a cap of zero is none. -/
structure StakeLimits where
  minimum : Nat := 1
  cap : Nat := 0
  minimum_pos : 0 < minimum := by decide
  deriving DecidableEq, Repr

/-- A name under which a token can be registered: a text that is not empty. -/
def tokenName (field : String) : Scalar → Except Fault String
  | .text name => do
    ensure (name ≠ "") (.emptyText field)
    pure name
  | _ => .error (.emptyText field)

theorem tokenName_eq_ok {field name : String} {token : Scalar} :
    tokenName field token = .ok name ↔ token = name ∧ name ≠ "" := by
  cases token with
  | text s =>
    simp only [tokenName, bind_eq_ok, ensure_eq_ok, pure, Except.pure, Except.ok.injEq,
      Scalar.text.injEq]
    exact ⟨fun ⟨_, h, e⟩ => e ▸ ⟨rfl, h⟩, fun ⟨e, h⟩ => ⟨(), e ▸ h, e⟩⟩
  | _ => simp [tokenName]

namespace RewardPool

def ofOperands (rewardPerToken lastUpdate rate queued total : Operand) :
    Except Fault RewardPool := do
  let rewardPerToken ← rewardPerToken.field "reward_per_token_stored"
  let lastUpdate ← lastUpdate.field "last_update_time"
  let rate ← rate.field "reward_rate"
  let queued ← queued.field "queued_rewards"
  let total ← total.field "total_rewards"
  pure ⟨rewardPerToken, lastUpdate, rate, queued, total⟩

end RewardPool

namespace Checkpoint

def ofOperands (paid accrued : Operand) : Except Fault Checkpoint := do
  let paid ← paid.field "reward_per_token_paid"
  let accrued ← accrued.field "accrued_rewards"
  pure ⟨paid, accrued⟩

end Checkpoint

namespace UserStake

def ofOperands (staked : Operand) (checkpoints : Table Checkpoint)
    (stakeTime lastClaimTime : Operand) : Except Fault UserStake := do
  let staked ← staked.field "staked_amount"
  let stakeTime ← stakeTime.field "stake_time"
  let lastClaimTime ← lastClaimTime.field "last_claim_time"
  pure ⟨staked, checkpoints, stakeTime, lastClaimTime⟩

def checkpoint (u : UserStake) (token : Key) : Checkpoint :=
  (u.checkpoints.get? token).getD ⟨0, 0⟩

def withCheckpoint (u : UserStake) (token : Scalar) (c : Checkpoint) : UserStake :=
  { u with checkpoints := u.checkpoints.insert token c }

/-- No principal and nothing accrued. -/
def isEmpty (u : UserStake) : Bool :=
  u.staked == 0 && u.checkpoints.values.all (·.accrued == 0)

theorem isEmpty_iff {u : UserStake} :
    u.isEmpty = true ↔ u.staked = 0 ∧ ∀ token, (u.checkpoint token).accrued = 0 := by
  simp only [isEmpty, Bool.and_eq_true, beq_iff_eq, List.all_eq_true, Table.mem_values_iff]
  refine and_congr_right fun _ => ⟨fun h token => ?_, fun h c => ?_⟩
  · unfold checkpoint
    cases hc : u.checkpoints.get? token with
    | none => rfl
    | some c => exact h c ⟨token, hc⟩
  · rintro ⟨token, hc⟩
    simpa [checkpoint, hc] using h token

end UserStake

namespace StakingPool

def ofOperands (stakingToken : Scalar) (totalStaked : Operand) (rewardPools : Table RewardPool) :
    Except Fault StakingPool := do
  let stakingToken ← tokenName "staking_token" stakingToken
  let totalStaked ← totalStaked.field "total_staked"
  pure ⟨stakingToken, totalStaked, rewardPools⟩

def rewardTokens (p : StakingPool) : List Scalar := p.rewardPools.names

def withRewardPool (p : StakingPool) (token : Scalar) (r : RewardPool) : StakingPool :=
  { p with rewardPools := p.rewardPools.insert token r }

/-- The accumulator of a registered token. -/
def rewardPool (p : StakingPool) (token : Scalar) : Except Fault RewardPool :=
  match p.rewardPools.get? token with
  | some r => pure r
  | none => .error (.unknownToken token)

theorem rewardPool_eq_ok {p : StakingPool} {token : Scalar} {r : RewardPool} :
    p.rewardPool token = .ok r ↔ p.rewardPools.get? token = some r := by
  unfold rewardPool
  split <;> simp_all [pure, Except.pure]

end StakingPool

namespace StakeLimits

def ofOperands (minimum cap : Operand) : Except Fault StakeLimits := do
  let cap ← cap.field "max_stake_per_user"
  let least ← minimum.integer "min_stake_amount"
  if h : 0 < least then pure ⟨least.toNat, cap, by omega⟩
  else .error (.nonPositiveField "min_stake_amount" least)

/-- Refuses a single stake below the minimum. -/
def checkStake : Option StakeLimits → Nat → Except Fault Unit
  | none, _ => pure ()
  | some l, amount => ensure (l.minimum ≤ amount) (.stakeBelowMinimum amount l.minimum)

/-- Refuses a principal above the cap. -/
def checkPrincipal : Option StakeLimits → Nat → Except Fault Unit
  | none, _ => pure ()
  | some l, staked => ensure (l.cap = 0 ∨ staked ≤ l.cap) (.stakeAboveCap staked l.cap)

end StakeLimits

end PoolAccounting.Staking

import PoolAccounting.Amount.Checked
import PoolAccounting.Staking.Records

/-!
Rewards of one token. An accumulator grows by what is released per staked unit; a checkpoint is
settled against it by the growth since the last settlement. Both quotients round down, so no more
is credited than was released.
-/
namespace PoolAccounting.Staking

open Amount

namespace RewardPool

/-- Brings the accumulator up to `now`. While nothing is staked the emission is queued; otherwise
it is released together with the queue. -/
def accrue (p : RewardPool) (totalStaked now : Operand) : Except Fault RewardPool := do
  let now ← now.time
  let staked ← totalStaked.nonNegative "total_staked"
  ensure (p.lastUpdate ≤ now) (.clockBackwards now p.lastUpdate)
  let emitted ← mulNat (now - p.lastUpdate) p.rate
  let total ← addNat p.total emitted
  if staked = 0 then do
    let queued ← addNat p.queued emitted
    pure { p with lastUpdate := now, queued, total }
  else do
    let released ← addNat emitted p.queued
    let growth ← mulDivDown released precision staked
    let rewardPerToken ← addNat p.rewardPerToken growth
    pure { p with rewardPerToken, lastUpdate := now, queued := 0, total }

/-- Credits a lump sum, to the current stake or, if there is none, to the queue. -/
def inject (p : RewardPool) (amount totalStaked : Nat) : Except Fault RewardPool := do
  if totalStaked = 0 then do
    let queued ← addNat p.queued amount
    let total ← addNat p.total amount
    pure { p with queued, total }
  else do
    let growth ← mulDivDown amount precision totalStaked
    let rewardPerToken ← addNat p.rewardPerToken growth
    let total ← addNat p.total amount
    pure { p with rewardPerToken, total }

end RewardPool

namespace Checkpoint

/-- What is accrued and not paid out for a stake, settled or not. -/
def earned (c : Checkpoint) (staked rewardPerToken : Operand) : Except Fault Nat := do
  let growth ← sub rewardPerToken c.paid
  let share ← mulDivDown staked growth precision
  addNat c.accrued share

def settle (c : Checkpoint) (staked rewardPerToken : Operand) : Except Fault Checkpoint := do
  let accrued ← c.earned staked rewardPerToken
  let paid ← rewardPerToken.field "reward_per_token_paid"
  pure ⟨paid, accrued⟩

theorem earned_eq_ok {c : Checkpoint} {staked rewardPerToken e : Nat} :
    c.earned staked rewardPerToken = .ok e ↔
      c.paid ≤ rewardPerToken ∧ rewardPerToken ≤ maxAmount ∧ staked ≤ maxAmount ∧
        e = c.accrued + staked * (rewardPerToken - c.paid) / precision ∧ e ≤ maxAmount := by
  simp only [earned, bind_eq_ok, sub_natCast_eq_ok, mulDivDown_eq_ok, addNat_eq_ok]
  constructor
  · rintro ⟨_, ⟨rfl, h1, h2⟩, _, ⟨rfl, h3, -⟩, rfl, h4⟩
    exact ⟨h1, h2, h3, rfl, h4⟩
  · rintro ⟨h1, h2, h3, rfl, h4⟩
    exact ⟨_, ⟨rfl, h1, h2⟩, _, ⟨rfl, h3, by omega, by decide, by decide, by omega⟩, rfl, h4⟩

theorem settle_eq_ok {c d : Checkpoint} {staked rewardPerToken : Nat} :
    c.settle staked rewardPerToken = .ok d ↔
      c.earned staked rewardPerToken = .ok d.accrued ∧ d.paid = rewardPerToken := by
  simp only [settle, bind_eq_ok, Operand.field_natCast, pure, Except.pure, Except.ok.injEq]
  constructor
  · rintro ⟨e, he, _, rfl, rfl⟩; exact ⟨he, rfl⟩
  · rintro ⟨he, hp⟩; exact ⟨_, he, _, rfl, by cases d; simp_all⟩

end Checkpoint

end PoolAccounting.Staking

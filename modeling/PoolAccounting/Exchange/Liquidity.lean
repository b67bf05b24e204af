import PoolAccounting.Amount.Root
import PoolAccounting.Exchange.Swap

/-!
Sizing of deposits and withdrawals. Shares of the pool (LP tokens) are minted in proportion to a
deposit and burned in proportion to a payout; whatever goes to a counterparty rounds down.
-/
namespace PoolAccounting.Exchange

open Amount

/-- The shares that the first deposit creates and gives to nobody. -/
def minLiquidity : Nat := 1000

structure Deposit where
  used0 : Nat
  used1 : Nat
  refund0 : Nat
  refund1 : Nat
  deriving DecidableEq, Repr

structure MintResult where
  minted : Nat
  used0 : Nat
  used1 : Nat
  reserves : Reserves
  supply : Nat
  deriving DecidableEq, Repr

structure BurnResult where
  out0 : Nat
  out1 : Nat
  reserves : Reserves
  supply : Nat
  deriving DecidableEq, Repr

/-- The part of an offer that fits the ratio of the reserves: all of one asset, and of the other
what the first one is worth. -/
def fitted (offer0 offer1 r0 r1 : Nat) : Except Fault (Nat × Nat) := do
  let worth1 ← quote offer0 r0 r1
  if worth1 ≤ offer1 then pure (offer0, worth1)
  else do
    let worth0 ← quote offer1 r1 r0
    pure (worth0, offer1)

/-- How much of an offer a pool takes; an empty pool takes everything. -/
def optimalDeposit (amount0 amount1 reserve0 reserve1 : Operand) : Except Fault Deposit := do
  let offer0 ← amount0.positive "amount_0_desired"
  let offer1 ← amount1.positive "amount_1_desired"
  let r0 ← reserve0.nonNegative "reserve_0"
  let r1 ← reserve1.nonNegative "reserve_1"
  if r0 = 0 ∨ r1 = 0 then pure ⟨offer0, offer1, 0, 0⟩
  else do
    let (used0, used1) ← fitted offer0 offer1 r0 r1
    ensure (0 < used0 ∧ 0 < used1) (.depositTooSmall used0 used1)
    let refund0 ← sub offer0 used0
    let refund1 ← sub offer1 used1
    pure ⟨used0, used1, refund0, refund1⟩

/-- The shares minted to the depositor. Without a supply it is the geometric mean of the deposit
less the locked shares, else the smaller of the two proportional shares. -/
def lpMint (reserve0 reserve1 amount0 amount1 lpSupply : Operand) : Except Fault Nat := do
  let r0 ← reserve0.nonNegative "reserve_0"
  let r1 ← reserve1.nonNegative "reserve_1"
  let supply ← lpSupply.nonNegative "lp_supply"
  let a0 ← amount0.positive "amount_0"
  let a1 ← amount1.positive "amount_1"
  if supply = 0 then do
    let root := floorSqrt (a0 * a1)
    ensure (minLiquidity < root) (.initialDepositTooSmall root minLiquidity)
    pure (root - minLiquidity)
  else do
    ensure (r0 ≠ 0 ∧ r1 ≠ 0) .supplyWithoutReserves
    let share0 ← mulDivDown a0 supply r0
    let share1 ← mulDivDown a1 supply r1
    ensure (0 < min share0 share1) (.mintsNothing (min share0 share1))
    pure (min share0 share1)

/-- What burning `lpAmount` pays out of each reserve. -/
def lpBurn (lpAmount reserve0 reserve1 lpSupply : Operand) : Except Fault (Nat × Nat) := do
  let burned ← lpAmount.positive "lp_amount"
  let r0 ← reserve0.nonNegative "reserve_0"
  let r1 ← reserve1.nonNegative "reserve_1"
  let supply ← lpSupply.nonNegative "lp_supply"
  ensure (burned ≤ supply) (.burnExceedsSupply burned supply)
  let out0 ← mulDivDown burned r0 supply
  let out1 ← mulDivDown burned r1 supply
  pure (out0, out1)

namespace Reserves

def addLiquidity (r : Reserves) (lpSupply amount0 amount1 : Operand) :
    Except Fault MintResult := do
  let deposit ← optimalDeposit amount0 amount1 r.reserve0 r.reserve1
  let minted ← lpMint r.reserve0 r.reserve1 deposit.used0 deposit.used1 lpSupply
  let (r0, r1) ← reservesAfterDeposit r.reserve0 r.reserve1 deposit.used0 deposit.used1
  let created := if lpSupply = 0 then minted + minLiquidity else minted
  let supply ← add lpSupply created
  let reserves ← ofOperands r0 r1
  pure ⟨minted, deposit.used0, deposit.used1, reserves, supply.toNat⟩

def removeLiquidity (r : Reserves) (lpSupply lpAmount : Operand) : Except Fault BurnResult := do
  let (out0, out1) ← lpBurn lpAmount r.reserve0 r.reserve1 lpSupply
  let (r0, r1) ← reservesAfterPayout r.reserve0 r.reserve1 out0 out1
  let reserves ← ofOperands r0 r1
  let supply ← sub lpSupply lpAmount
  pure ⟨out0, out1, reserves, supply⟩

end Reserves

end PoolAccounting.Exchange

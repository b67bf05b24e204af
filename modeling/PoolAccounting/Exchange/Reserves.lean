import PoolAccounting.Amount.Checked

/-!
The two reserves of a constant-product pool: the record, how deposits, payouts and swaps move it,
and the product and prices read off it.
-/
namespace PoolAccounting.Exchange

open Amount

structure Reserves where
  reserve0 : Nat
  reserve1 : Nat
  deriving DecidableEq, Repr

/-- Which asset the trader pays in; the other one is paid out. -/
inductive Direction
  | zeroForOne
  | oneForZero
  deriving DecidableEq, Repr

namespace Reserves

def ofOperands (reserve0 reserve1 : Operand) : Except Fault Reserves := do
  let r0 ← reserve0.field "reserve_0"
  let r1 ← reserve1.field "reserve_1"
  pure ⟨r0, r1⟩

@[simp] theorem ofOperands_natCast (r0 r1 : Nat) :
    ofOperands r0 r1 = .ok ⟨r0, r1⟩ := by
  simp [ofOperands, pure, Except.pure]

/-- The constant product, of any size. -/
def k (r : Reserves) : Nat := r.reserve0 * r.reserve1

/-- The reserve that a swap adds to, then the one that it pays from. -/
def oriented (r : Reserves) : Direction → Nat × Nat
  | .zeroForOne => (r.reserve0, r.reserve1)
  | .oneForZero => (r.reserve1, r.reserve0)

end Reserves

def reservesAfterDeposit (r0 r1 amount0 amount1 : Operand) : Except Fault (Int × Int) := do
  let a0 ← amount0.nonNegative "amount_0"
  let a1 ← amount1.nonNegative "amount_1"
  let r0 ← add r0 a0
  let r1 ← add r1 a1
  pure (r0, r1)

def reservesAfterPayout (r0 r1 amount0 amount1 : Operand) : Except Fault (Nat × Nat) := do
  let a0 ← amount0.nonNegative "amount_0"
  let a1 ← amount1.nonNegative "amount_1"
  let r0 ← sub r0 a0
  let r1 ← sub r1 a1
  pure (r0, r1)

def reservesAfterSwap (r0 r1 amountIn amountOut : Operand) (direction : Direction) :
    Except Fault (Int × Int) := do
  let paid ← amountIn.nonNegative "amount_in"
  let out ← amountOut.nonNegative "amount_out"
  match direction with
  | .zeroForOne => do
    let r0 ← add r0 paid
    let r1 ← sub r1 out
    pure (r0, r1)
  | .oneForZero => do
    let r0 ← sub r0 out
    let r1 ← add r1 paid
    pure (r0, r1)

/-- The constant product as an amount. -/
def product (r0 r1 : Operand) : Except Fault Int := mul r0 r1

/-- Whether the product did not decrease. -/
def productKept (new0 new1 old0 old1 : Operand) : Except Fault Bool := do
  let after ← product new0 new1
  let before ← product old0 old1
  pure (before ≤ after)

/-- The price of the base asset in units of the quoted one, scaled by `precision`. -/
def spotPrice (reserveBase reserveQuote : Operand) : Except Fault Nat := do
  let base ← reserveBase.nonNegative "reserve_base"
  let quoted ← reserveQuote.nonNegative "reserve_quote"
  ensure (base ≠ 0) .zeroBaseReserve
  mulDivDown quoted precision base

/-- The size of a price move in basis points, rounded down; none is seen from a price of zero. -/
def slippageBps (priceBefore priceAfter : Operand) : Except Fault Nat := do
  let before ← priceBefore.nonNegative "price_before"
  let after ← priceAfter.nonNegative "price_after"
  if before = 0 then pure 0
  else mulDivDown (max before after - min before after : Nat) bpsDenominator before

end PoolAccounting.Exchange

import PoolAccounting.BasisPoints
import PoolAccounting.Exchange.Reserves

/-!
Swaps against a constant-product pool. The fee is taken from the input and rounds up, the output
rounds down, and an exact output rounds the input up twice; with these directions the product of
the reserves never falls.
-/
namespace PoolAccounting.Exchange

open Amount

/-- What `amountIn` buys. It may be nothing: a minimum is the caller's business. -/
def amountOut (amountIn reserveIn reserveOut feeBps : Operand) : Except Fault Nat := do
  let paid ← amountIn.positive "amount_in"
  let rIn ← reserveIn.positive "reserve_in"
  let rOut ← reserveOut.positive "reserve_out"
  let bps ← feeBps.basisPoints "fee_bps"
  let fee ← BasisPoints.applyRoundUp paid bps
  let net ← sub paid fee
  if net = 0 then pure 0
  else do
    let pooled ← addNat rIn net
    mulDivDown rOut net pooled

/-- The least input, fee included, that buys at least `amountOut`. -/
def amountIn (amountOut reserveIn reserveOut feeBps : Operand) : Except Fault Nat := do
  let out ← amountOut.positive "amount_out"
  let rIn ← reserveIn.positive "reserve_in"
  let rOut ← reserveOut.positive "reserve_out"
  let bps ← feeBps.basisPoints "fee_bps"
  ensure (bps ≠ bpsDenominator) .wholeInputIsFee
  ensure (out < rOut) (.drainsReserve out rOut)
  let left ← sub rOut out
  let net ← mulDivUp rIn out left
  mulDivUp net bpsDenominator (bpsDenominator - bps : Nat)

/-- The value of `amountA` in the other asset at the ratio of the reserves, rounded down. -/
def quote (amountA reserveA reserveB : Operand) : Except Fault Nat := do
  let a ← amountA.positive "amount_a"
  let rA ← reserveA.nonNegative "reserve_a"
  let rB ← reserveB.nonNegative "reserve_b"
  mulDivDown a rB rA

/-- A swap as quoted, with the reserves it leads to. Nothing in the record ties its fields together;
`kOk` compares the two products. -/
structure SwapResult where
  amountIn : Int
  amountOut : Int
  fee : Int
  reserves : Reserves
  kBefore : Int
  kAfter : Int
  deriving DecidableEq, Repr

namespace SwapResult

def kOk (s : SwapResult) : Bool := s.kBefore ≤ s.kAfter

end SwapResult

namespace Reserves

/-- Moves `paid` in and `out` out. -/
def exchange (r : Reserves) (paid out : Nat) (feeBps : Operand) (direction : Direction) :
    Except Fault SwapResult := do
  let (r0, r1) ← reservesAfterSwap r.reserve0 r.reserve1 paid out direction
  let fee ← BasisPoints.applyRoundUp paid feeBps
  let reserves ← ofOperands r0 r1
  let kBefore ← product r.reserve0 r.reserve1
  let kAfter ← product r0 r1
  pure ⟨paid, out, fee, reserves, kBefore, kAfter⟩

/-- Sells exactly `amountIn`, all of which stays in the pool. -/
def swapExactIn (r : Reserves) (amountIn feeBps : Operand) (direction : Direction) :
    Except Fault SwapResult := do
  let out ← amountOut amountIn (r.oriented direction).1 (r.oriented direction).2 feeBps
  let paid ← amountIn.positive "amount_in"
  r.exchange paid out feeBps direction

/-- Buys exactly `amountOut`, also where the input would pay for more. -/
def swapExactOut (r : Reserves) (amountOut feeBps : Operand) (direction : Direction) :
    Except Fault SwapResult := do
  let paid ← amountIn amountOut (r.oriented direction).1 (r.oriented direction).2 feeBps
  let out ← amountOut.positive "amount_out"
  r.exchange paid out feeBps direction

end Reserves

end PoolAccounting.Exchange

import PoolAccounting.Exchange.Liquidity

/-!
A pool over time: reserves and the supply of LP tokens, moved by deposits, withdrawals and swaps.
An action that is refused leaves the pool as it was, and the next one goes on from there.
-/
namespace PoolAccounting.Exchange

/-- The supply is kept as the caller gave it until a deposit or a withdrawal succeeds. -/
structure Pool where
  reserves : Reserves
  supply : Operand
  deriving DecidableEq, Repr

namespace Pool

def empty : Pool := ⟨⟨0, 0⟩, 0⟩

inductive Action
  | add (amount0 amount1 : Operand)
  | remove (lpAmount : Operand)
  | swapIn (amount feeBps : Operand) (direction : Direction)
  | swapOut (amount feeBps : Operand) (direction : Direction)
  deriving DecidableEq, Repr

inductive Receipt
  | minted (result : MintResult)
  | burned (result : BurnResult)
  | swapped (result : SwapResult)
  deriving DecidableEq, Repr

def perform (p : Pool) : Action → Except Fault Receipt
  | .add amount0 amount1 => .minted <$> p.reserves.addLiquidity p.supply amount0 amount1
  | .remove lpAmount => .burned <$> p.reserves.removeLiquidity p.supply lpAmount
  | .swapIn amount feeBps direction =>
    .swapped <$> p.reserves.swapExactIn amount feeBps direction
  | .swapOut amount feeBps direction =>
    .swapped <$> p.reserves.swapExactOut amount feeBps direction

/-- Takes over what a receipt says. The check on the product of a swap is not asked again: it holds of
everything that a swap answers. -/
def commit (p : Pool) : Receipt → Pool
  | .minted m => ⟨m.reserves, m.supply⟩
  | .burned b => ⟨b.reserves, b.supply⟩
  | .swapped s => { p with reserves := s.reserves }

def step (p : Pool) (a : Action) : Pool :=
  match p.perform a with
  | .ok r => p.commit r
  | .error _ => p

def run (p : Pool) (actions : List Action) : Pool := actions.foldl step p

/-- What each action in turn answers, with the pool after it. -/
def history (p : Pool) : List Action → List (Except Fault Receipt × Pool)
  | [] => []
  | a :: actions => (p.perform a, p.step a) :: history (p.step a) actions

@[simp] theorem run_cons (p : Pool) (a : Action) (actions : List Action) :
    p.run (a :: actions) = (p.step a).run actions := rfl

theorem step_of_ok {p : Pool} {a : Action} {r : Receipt} (h : p.perform a = .ok r) :
    p.step a = p.commit r := by simp [step, h]

theorem step_of_error {p : Pool} {a : Action} {f : Fault} (h : p.perform a = .error f) :
    p.step a = p := by simp [step, h]

end Pool

end PoolAccounting.Exchange

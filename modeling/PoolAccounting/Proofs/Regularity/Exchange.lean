import Mathlib
import PoolAccounting.Exchange.Pool
import PoolAccounting.Proofs.Exchange.Deposits
import PoolAccounting.Proofs.Exchange.Limits
import PoolAccounting.Proofs.Exchange.Shares

/-!
The operations on a pool are regular, whatever they are given. What they subtract is no more than
what it is taken from: a fee than the input, what is used of an offer than the offer, a payout than
the reserve. What they divide by is checked beforehand or is at least what was checked. Besides, only
a deposit can meet a supply without reserves, and only where there is one. Main statement: no
operation underflows or divides by zero, and shares can be burned at any time.
-/
namespace PoolAccounting.Exchange

open Amount Operand

/-- What a deposit can be refused for: an ordinary fault, or a supply that has no reserves, where
that is so. -/
def DepositFault (r0 r1 : ℕ) (lpSupply : Operand) (f : Fault) : Prop :=
  f.isOrdinary = true ∨ f = .supplyWithoutReserves ∧
    ∃ supply : ℕ, lpSupply = supply ∧ 0 < supply ∧ (r0 = 0 ∨ r1 = 0)

theorem DepositFault.isIrregular_eq_false {r0 r1 : ℕ} {lpSupply : Operand} (f : Fault)
    (h : DepositFault r0 r1 lpSupply f) : f.isIrregular = false := by
  rcases h with h | ⟨rfl, -⟩
  · exact f.isIrregular_of_isOrdinary h
  · rfl

theorem depositFault_of_ordinary {α : Type} {x : Except Fault α} {r0 r1 : ℕ}
    {lpSupply : Operand} (h : Ordinary x) : FailsOnly (DepositFault r0 r1 lpSupply) x :=
  h.mono fun _ => .inl

section Reserves

variable {r0 r1 a0 a1 : ℕ}

theorem Reserves.ordinary_ofOperands (x y : Operand) : Ordinary (ofOperands x y) := by
  apply FailsOnly.bind (ordinary_field _ x)
  intro r0 _
  apply FailsOnly.bind (ordinary_field _ y)
  intro r1 _
  exact .pure _

theorem ordinary_reservesAfterDeposit (r0 r1 : ℕ) (amount0 amount1 : Operand) :
    Ordinary (reservesAfterDeposit r0 r1 amount0 amount1) := by
  apply FailsOnly.bind (ordinary_nonNegative _ _)
  intro a0 _
  apply FailsOnly.bind (ordinary_nonNegative _ _)
  intro a1 _
  apply FailsOnly.bind (ordinary_add _ _)
  intro x _
  apply FailsOnly.bind (ordinary_add _ _)
  intro y _
  exact .pure _

theorem ordinary_reservesAfterPayout (h0 : a0 ≤ r0) (h1 : a1 ≤ r1) :
    Ordinary (reservesAfterPayout r0 r1 a0 a1) := by
  apply FailsOnly.bind (ordinary_nonNegative _ _)
  intro x hx
  apply FailsOnly.bind (ordinary_nonNegative _ _)
  intro y hy
  cases (nonNegative_eq_ok.1 hx).1
  cases (nonNegative_eq_ok.1 hy).1
  apply FailsOnly.bind (ordinary_sub h0)
  intro left0 _
  apply FailsOnly.bind (ordinary_sub h1)
  intro left1 _
  exact .pure _

end Reserves

section Swaps

theorem ordinary_amountOut (amountIn reserveIn reserveOut feeBps : Operand) :
    Ordinary (amountOut amountIn reserveIn reserveOut feeBps) :=
  failsOnly_amountOut Fault.isOrdinary_of_overflow (ordinary_positive _ _)
    (ordinary_positive _ _) (ordinary_positive _ _) (ordinary_basisPoints _ _)

theorem ordinary_amountIn (amountOut reserveIn reserveOut feeBps : Operand) :
    Ordinary (amountIn amountOut reserveIn reserveOut feeBps) :=
  failsOnly_amountIn Fault.isOrdinary_of_overflow (ordinary_positive _ _)
    (ordinary_positive _ _) (ordinary_positive _ _) (ordinary_basisPoints _ _) (fun _ => rfl)
    fun _ _ _ _ _ => rfl

variable (r : Reserves) (amount feeBps : Operand) (d : Direction)

theorem Reserves.ordinary_swapExactIn : Ordinary (r.swapExactIn amount feeBps d) :=
  failsOnly_swapExactIn Fault.isOrdinary_of_overflow (ordinary_amountOut _ _ _ _)

theorem Reserves.ordinary_swapExactOut : Ordinary (r.swapExactOut amount feeBps d) :=
  failsOnly_swapExactOut Fault.isOrdinary_of_overflow (ordinary_amountIn _ _ _ _)

end Swaps

section Liquidity

variable {r0 r1 : ℕ}

theorem ordinary_quote {reserveA : ℕ} (h : reserveA ≠ 0) (amountA reserveB : Operand) :
    Ordinary (quote amountA reserveA reserveB) := by
  apply FailsOnly.bind (ordinary_positive _ _)
  intro a _
  apply FailsOnly.bind (ordinary_nonNegative _ _)
  intro rA hA
  cases (nonNegative_eq_ok.1 hA).1
  apply FailsOnly.bind (ordinary_nonNegative _ _)
  intro rB _
  exact ordinary_mulDivDown h _ _

theorem ordinary_fitted (h0 : r0 ≠ 0) (h1 : r1 ≠ 0) (offer0 offer1 : ℕ) :
    Ordinary (fitted offer0 offer1 r0 r1) := by
  apply FailsOnly.bind (ordinary_quote h0 _ _)
  intro worth1 _
  apply FailsOnly.ite
  · intro _
    exact .pure _
  · intro _
    apply FailsOnly.bind (ordinary_quote h1 _ _)
    intro worth0 _
    exact .pure _

theorem ordinary_optimalDeposit (amount0 amount1 reserve0 reserve1 : Operand) :
    Ordinary (optimalDeposit amount0 amount1 reserve0 reserve1) := by
  apply FailsOnly.bind (ordinary_positive _ _)
  intro offer0 ho0
  apply FailsOnly.bind (ordinary_positive _ _)
  intro offer1 ho1
  apply FailsOnly.bind (ordinary_nonNegative _ _)
  intro r0 hr0
  apply FailsOnly.bind (ordinary_nonNegative _ _)
  intro r1 hr1
  apply FailsOnly.ite
  · intro _
    exact .pure _
  · intro hne
    obtain ⟨h0, h1⟩ := not_or.1 hne
    apply FailsOnly.bind (ordinary_fitted h0 h1 _ _)
    intro ⟨used0, used1⟩ hused
    obtain ⟨hle0, hle1⟩ := used_le_of_fitted (positive_eq_ok.1 ho0).2 (positive_eq_ok.1 ho1).2
      ⟨Nat.pos_of_ne_zero h0, (nonNegative_eq_ok.1 hr0).2⟩
      ⟨Nat.pos_of_ne_zero h1, (nonNegative_eq_ok.1 hr1).2⟩ hused
    refine .bind (.ensure fun _ => rfl) ?_
    intro _ _
    apply FailsOnly.bind (ordinary_sub hle0)
    intro refund0 _
    apply FailsOnly.bind (ordinary_sub hle1)
    intro refund1 _
    exact .pure _

theorem failsOnly_lpMint (r0 r1 : ℕ) (amount0 amount1 lpSupply : Operand) :
    FailsOnly (DepositFault r0 r1 lpSupply) (lpMint r0 r1 amount0 amount1 lpSupply) := by
  apply FailsOnly.bind (depositFault_of_ordinary (ordinary_nonNegative _ _))
  intro x0 hx0
  apply FailsOnly.bind (depositFault_of_ordinary (ordinary_nonNegative _ _))
  intro x1 hx1
  apply FailsOnly.bind (depositFault_of_ordinary (ordinary_nonNegative _ _))
  intro supply hsupply
  cases (nonNegative_eq_ok.1 hx0).1
  cases (nonNegative_eq_ok.1 hx1).1
  apply FailsOnly.bind (depositFault_of_ordinary (ordinary_positive _ _))
  intro a0 _
  apply FailsOnly.bind (depositFault_of_ordinary (ordinary_positive _ _))
  intro a1 _
  apply FailsOnly.ite
  · intro _
    refine .bind (.ensure fun _ => .inl rfl) ?_
    intro _ _
    exact .pure _
  · intro hs
    have hlacking : ¬(r0 ≠ 0 ∧ r1 ≠ 0) → DepositFault r0 r1 lpSupply .supplyWithoutReserves := by
      intro hr
      exact .inr ⟨rfl, supply, (nonNegative_eq_ok.1 hsupply).1, Nat.pos_of_ne_zero hs, by omega⟩
    refine .bind (.ensure hlacking) ?_
    intro _ hr
    obtain ⟨h0, h1⟩ := ensure_eq_ok.1 hr
    apply FailsOnly.bind (depositFault_of_ordinary (ordinary_mulDivDown h0 _ _))
    intro share0 _
    apply FailsOnly.bind (depositFault_of_ordinary (ordinary_mulDivDown h1 _ _))
    intro share1 _
    refine .bind (.ensure fun _ => .inl rfl) ?_
    intro _ _
    exact .pure _

theorem ordinary_lpBurn (lpAmount reserve0 reserve1 lpSupply : Operand) :
    Ordinary (lpBurn lpAmount reserve0 reserve1 lpSupply) := by
  apply FailsOnly.bind (ordinary_positive _ _)
  intro burned hburned
  apply FailsOnly.bind (ordinary_nonNegative _ _)
  intro r0 _
  apply FailsOnly.bind (ordinary_nonNegative _ _)
  intro r1 _
  apply FailsOnly.bind (ordinary_nonNegative _ _)
  intro supply _
  refine .bind (.ensure fun _ => rfl) ?_
  intro _ hle
  have hsupply : supply ≠ 0 :=
    ((positive_eq_ok.1 hburned).2.1.trans_le (ensure_eq_ok.1 hle)).ne'
  apply FailsOnly.bind (ordinary_mulDivDown hsupply _ _)
  intro out0 _
  apply FailsOnly.bind (ordinary_mulDivDown hsupply _ _)
  intro out1 _
  exact .pure _

namespace Reserves

theorem failsOnly_addLiquidity (r : Reserves) (lpSupply amount0 amount1 : Operand) :
    FailsOnly (DepositFault r.reserve0 r.reserve1 lpSupply)
      (r.addLiquidity lpSupply amount0 amount1) := by
  apply FailsOnly.bind (depositFault_of_ordinary (ordinary_optimalDeposit _ _ _ _))
  intro deposit _
  apply FailsOnly.bind (failsOnly_lpMint _ _ _ _ _)
  intro minted hminted
  obtain ⟨supply, rfl, -⟩ := lpMint_cases hminted
  apply FailsOnly.bind (depositFault_of_ordinary (ordinary_reservesAfterDeposit _ _ _ _))
  intro ⟨x, y⟩ _
  apply FailsOnly.bind (depositFault_of_ordinary (ordinary_add _ _))
  intro total _
  apply FailsOnly.bind (depositFault_of_ordinary (ordinary_ofOperands _ _))
  intro reserves _
  exact .pure _

theorem ordinary_removeLiquidity (r : Reserves) (lpSupply lpAmount : Operand) :
    Ordinary (r.removeLiquidity lpSupply lpAmount) := by
  apply FailsOnly.bind (ordinary_lpBurn _ _ _ _)
  intro ⟨out0, out1⟩ hburn
  obtain ⟨burned, supply, rfl, rfl, -, hle, -, -, -, rfl, rfl⟩ := lpBurn_eq_ok.1 hburn
  apply FailsOnly.bind (ordinary_reservesAfterPayout (payout_le hle _) (payout_le hle _))
  intro ⟨x, y⟩ _
  apply FailsOnly.bind (ordinary_ofOperands _ _)
  intro reserves _
  apply FailsOnly.bind (ordinary_sub hle)
  intro left _
  exact .pure _

end Reserves

end Liquidity

/-- No operation on a pool underflows or divides by zero, and burning shares of a supply that is an
amount, against reserves that are amounts, is never refused. -/
theorem operations_regular (r : Reserves) :
    (∀ lpSupply amount0 amount1, Regular (r.addLiquidity lpSupply amount0 amount1)) ∧
    (∀ lpSupply lpAmount, Regular (r.removeLiquidity lpSupply lpAmount)) ∧
    (∀ amount feeBps d, Regular (r.swapExactIn amount feeBps d)) ∧
    (∀ amount feeBps d, Regular (r.swapExactOut amount feeBps d)) ∧
    (r.reserve0 ≤ maxAmount → r.reserve1 ≤ maxAmount → ∀ burned supply : ℕ, 1 ≤ burned →
      burned ≤ supply → supply ≤ maxAmount → ∃ b, r.removeLiquidity supply burned = .ok b) := by
  refine ⟨?_, ?_, ?_, ?_, ?_⟩
  · intro lpSupply amount0 amount1
    exact (r.failsOnly_addLiquidity lpSupply amount0 amount1).mono DepositFault.isIrregular_eq_false
  · intro lpSupply lpAmount
    exact (r.ordinary_removeLiquidity lpSupply lpAmount).regular
  · intro amount feeBps d
    exact (r.ordinary_swapExactIn amount feeBps d).regular
  · intro amount feeBps d
    exact (r.ordinary_swapExactOut amount feeBps d).regular
  · intro h0 h1 burned supply hb hle hs
    exact ⟨_, removeLiquidity_eq_ok.2 ⟨burned, supply, rfl, rfl, hb, hle, hs, h0, h1, rfl⟩⟩

/-- Shares can also be burned where one of the reserves is empty. -/
theorem operations_regular_one_sided :
    let r : Reserves := ⟨7, 0⟩
    r.reserve0 ≤ maxAmount ∧ r.reserve1 ≤ maxAmount ∧ 1 ≤ 3 ∧ 3 ≤ maxAmount ∧
    ∃ b, r.removeLiquidity 3 3 = .ok b := by
  intro r
  have h0 : r.reserve0 ≤ maxAmount := by decide
  have h1 : r.reserve1 ≤ maxAmount := by decide
  have h3 : 3 ≤ maxAmount := by decide
  exact ⟨h0, h1, by decide, h3,
    (operations_regular r).2.2.2.2 h0 h1 3 3 (by decide) le_rfl h3⟩

namespace Pool

theorem failsOnly_perform (p : Pool) (a : Action) :
    FailsOnly (DepositFault p.reserves.reserve0 p.reserves.reserve1 p.supply) (p.perform a) := by
  cases a with
  | add amount0 amount1 => exact .map (p.reserves.failsOnly_addLiquidity _ _ _) _
  | remove lpAmount =>
    exact .map (depositFault_of_ordinary (p.reserves.ordinary_removeLiquidity _ _)) _
  | swapIn amount feeBps direction =>
    exact .map (depositFault_of_ordinary (p.reserves.ordinary_swapExactIn _ _ _)) _
  | swapOut amount feeBps direction =>
    exact .map (depositFault_of_ordinary (p.reserves.ordinary_swapExactOut _ _ _)) _

/-- An action finds a supply without reserves only where there is one. -/
theorem of_perform_eq_supplyWithoutReserves {p : Pool} {a : Action}
    (h : p.perform a = .error .supplyWithoutReserves) :
    ∃ supply : ℕ, p.supply = supply ∧ 0 < supply ∧
      (p.reserves.reserve0 = 0 ∨ p.reserves.reserve1 = 0) := by
  rcases p.failsOnly_perform a _ h with hordinary | ⟨-, hsupply⟩
  · cases hordinary
  · exact hsupply

end Pool

end PoolAccounting.Exchange

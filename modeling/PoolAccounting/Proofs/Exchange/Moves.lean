import Mathlib
import PoolAccounting.Exchange.Pool
import PoolAccounting.Proofs.Exchange.Shares
import PoolAccounting.Proofs.Exchange.Trades

/-!
The moves of a pool: what an action that succeeds does to the reserves and to the supply, and that a
step is such a move or nothing. What holds along every run is read off the four kinds of move.
-/
namespace PoolAccounting.Exchange

open Amount

inductive Move (r : Reserves) (supply : ℕ) : Reserves → ℕ → Prop
  | seed {a0 a1 : ℕ} (hs : supply = 0) (hroot : minLiquidity < floorSqrt (a0 * a1))
      (hle0 : r.reserve0 + a0 ≤ maxAmount) (hle1 : r.reserve1 + a1 ≤ maxAmount)
      (hle : floorSqrt (a0 * a1) ≤ maxAmount) :
      Move r supply ⟨r.reserve0 + a0, r.reserve1 + a1⟩ (floorSqrt (a0 * a1))
  | deposit {a0 a1 minted : ℕ} (hs : 0 < supply) (h0 : 0 < r.reserve0) (h1 : 0 < r.reserve1)
      (hpos : 0 < minted) (hm : minted = min (a0 * supply / r.reserve0) (a1 * supply / r.reserve1))
      (hle0 : r.reserve0 + a0 ≤ maxAmount) (hle1 : r.reserve1 + a1 ≤ maxAmount)
      (hle : supply + minted ≤ maxAmount) :
      Move r supply ⟨r.reserve0 + a0, r.reserve1 + a1⟩ (supply + minted)
  | withdraw {burned : ℕ} (hpos : 0 < burned) (hs : burned ≤ supply) :
      Move r supply ⟨r.reserve0 - burned * r.reserve0 / supply,
        r.reserve1 - burned * r.reserve1 / supply⟩ (supply - burned)
  | swap {paid out bps : ℕ} {d : Direction} (ht : Trade r paid out bps d) :
      Move r supply (r.traded paid out d) supply

variable {r : Reserves} {lpSupply lpAmount amount0 amount1 amount feeBps : Operand} {d : Direction}
  {m : MintResult} {b : BurnResult} {s : SwapResult}

theorem move_of_addLiquidity (h : r.addLiquidity lpSupply amount0 amount1 = .ok m) :
    ∃ supply : ℕ, lpSupply = supply ∧ Move r supply m.reserves m.supply := by
  obtain ⟨supply, rfl, hm, hr, hs, h0, h1, hle⟩ := deposit_of_addLiquidity h
  refine ⟨supply, rfl, ?_⟩
  obtain ⟨_, hsupply, ⟨rfl, hroot, hlock⟩ | ⟨hpos, hr0, hr1, hminted, hmin⟩⟩ := lpMint_cases hm
  · cases hsupply
    have hroot' : m.supply = floorSqrt (m.used0 * m.used1) := by
      rw [hs, if_pos rfl, ← hlock]
      omega
    rw [hr, hroot']
    exact .seed rfl hroot h0 h1 (hroot' ▸ hle)
  · cases hsupply
    rw [if_neg hpos.ne', Nat.add_zero] at hs
    rw [hr, hs]
    exact .deposit hpos hr0 hr1 hminted hmin h0 h1 (hs ▸ hle)

theorem move_of_removeLiquidity (h : r.removeLiquidity lpSupply lpAmount = .ok b) :
    ∃ supply : ℕ, lpSupply = supply ∧ Move r supply b.reserves b.supply := by
  obtain ⟨burned, supply, -, rfl, hpos, hs, -, -, -, rfl⟩ := removeLiquidity_eq_ok.1 h
  exact ⟨supply, rfl, .withdraw hpos hs⟩

theorem move_of_swap (supply : ℕ)
    (h : r.swapExactIn amount feeBps d = .ok s ∨ r.swapExactOut amount feeBps d = .ok s) :
    Move r supply s.reserves supply := by
  obtain ⟨paid, out, bps, -, ht, rfl⟩ := trade_of_swap h
  exact .swap ht

namespace Pool

variable {p : Pool} {supply : ℕ}

/-- A step is a move of the pool, or the action is refused and the step is none. -/
theorem step_eq_or_move (hp : p.supply = supply) (a : Action) : p.step a = p ∨
    ∃ supply' : ℕ, (p.step a).supply = supply' ∧
      Move p.reserves supply (p.step a).reserves supply' := by
  cases h : p.perform a with
  | error f => exact .inl (step_of_error h)
  | ok receipt =>
    right
    rw [step_of_ok h]
    cases a with
    | add amount0 amount1 =>
      obtain ⟨m, hm, rfl⟩ := map_eq_ok.1 h
      obtain ⟨n, hn, hmove⟩ := move_of_addLiquidity hm
      rw [hp] at hn
      cases hn
      exact ⟨m.supply, rfl, hmove⟩
    | remove lpAmount =>
      obtain ⟨b, hb, rfl⟩ := map_eq_ok.1 h
      obtain ⟨n, hn, hmove⟩ := move_of_removeLiquidity hb
      rw [hp] at hn
      cases hn
      exact ⟨b.supply, rfl, hmove⟩
    | swapIn amount feeBps direction =>
      obtain ⟨s, hs, rfl⟩ := map_eq_ok.1 h
      exact ⟨supply, hp, move_of_swap supply (.inl hs)⟩
    | swapOut amount feeBps direction =>
      obtain ⟨s, hs, rfl⟩ := map_eq_ok.1 h
      exact ⟨supply, hp, move_of_swap supply (.inr hs)⟩

end Pool

end PoolAccounting.Exchange

import Mathlib
import PoolAccounting.Exchange.Liquidity

/-!
What minting and burning shares comes to on plain numbers. Both round in favour of those who hold
the other shares: neither lowers what one share has of a reserve.
-/
namespace PoolAccounting.Exchange

open Amount Reserves

variable {r : Reserves} {r0 r1 a0 a1 reserve amount supply minted burned out0 out1 : ℕ}
  {lpSupply lpAmount amount0 amount1 : Operand} {m : MintResult} {b : BurnResult}

/-- The first shares are the geometric mean of the deposit, the locked ones among them; later ones
are the smaller of the two proportional shares. -/
theorem lpMint_cases (h : lpMint r0 r1 a0 a1 lpSupply = .ok minted) : ∃ supply : ℕ,
    lpSupply = supply ∧
    (supply = 0 ∧ minLiquidity < floorSqrt (a0 * a1) ∧
        minted + minLiquidity = floorSqrt (a0 * a1) ∨
      0 < supply ∧ 0 < r0 ∧ 0 < r1 ∧ 0 < minted ∧
        minted = min (a0 * supply / r0) (a1 * supply / r1)) := by
  simp only [lpMint, bind_eq_ok, Operand.nonNegative_eq_ok, Operand.positive_eq_ok,
    Operand.int.injEq, Int.natCast_inj] at h
  obtain ⟨_, ⟨rfl, -⟩, _, ⟨rfl, -⟩, supply, ⟨rfl, -⟩, _, ⟨rfl, -⟩, _, ⟨rfl, -⟩, h⟩ := h
  refine ⟨supply, rfl, ?_⟩
  split at h
  · next h0 =>
    simp only [bind_eq_ok, ensure_eq_ok, pure, Except.pure, Except.ok.injEq] at h
    obtain ⟨-, hroot, rfl⟩ := h
    exact .inl ⟨h0, hroot, Nat.sub_add_cancel hroot.le⟩
  · next h0 =>
    simp only [bind_eq_ok, ensure_eq_ok, mulDivDown_eq_ok, pure, Except.pure,
      Except.ok.injEq] at h
    obtain ⟨-, hr, _, ⟨rfl, -⟩, _, ⟨rfl, -⟩, -, hpos, rfl⟩ := h
    exact .inr ⟨Nat.pos_of_ne_zero h0, Nat.pos_of_ne_zero hr.1, Nat.pos_of_ne_zero hr.2, hpos, rfl⟩

theorem reservesAfterDeposit_eq_ok {x y : ℤ} : reservesAfterDeposit r0 r1 a0 a1 = .ok (x, y) ↔
    x = (r0 + a0 : ℕ) ∧ y = (r1 + a1 : ℕ) ∧ r0 + a0 ≤ maxAmount ∧ r1 + a1 ≤ maxAmount := by
  simp only [reservesAfterDeposit, bind_eq_ok, Operand.nonNegative_eq_ok, Operand.int.injEq,
    Int.natCast_inj, pure, Except.pure, Except.ok.injEq, Prod.mk.injEq]
  constructor
  · rintro ⟨_, ⟨rfl, -⟩, _, ⟨rfl, -⟩, _, h0, _, h1, rfl, rfl⟩
    obtain ⟨rfl, hle0⟩ := add_natCast_eq_ok.1 h0
    obtain ⟨rfl, hle1⟩ := add_natCast_eq_ok.1 h1
    exact ⟨rfl, rfl, hle0, hle1⟩
  · rintro ⟨rfl, rfl, h0, h1⟩
    exact ⟨a0, ⟨rfl, by omega⟩, a1, ⟨rfl, by omega⟩, _, add_natCast_eq_ok.2 ⟨rfl, h0⟩, _,
      add_natCast_eq_ok.2 ⟨rfl, h1⟩, rfl, rfl⟩

/-- A deposit that is answered is taken over whole, and creates what `lpMint` says, with the locked
shares where there were none. -/
theorem deposit_of_addLiquidity (h : r.addLiquidity lpSupply amount0 amount1 = .ok m) :
    ∃ supply : ℕ, lpSupply = supply ∧
      lpMint r.reserve0 r.reserve1 m.used0 m.used1 supply = .ok m.minted ∧
      m.reserves = ⟨r.reserve0 + m.used0, r.reserve1 + m.used1⟩ ∧
      m.supply = supply + m.minted + (if supply = 0 then minLiquidity else 0) ∧
      r.reserve0 + m.used0 ≤ maxAmount ∧ r.reserve1 + m.used1 ≤ maxAmount ∧
      m.supply ≤ maxAmount := by
  simp only [addLiquidity, bind_eq_ok, Prod.exists, reservesAfterDeposit_eq_ok, pure, Except.pure,
    Except.ok.injEq] at h
  obtain ⟨deposit, -, minted, hm, _, _, ⟨rfl, rfl, h0, h1⟩, _, hs, after, hr, rfl⟩ := h
  obtain ⟨supply, rfl, -⟩ := lpMint_cases hm
  rw [ofOperands_natCast] at hr
  cases hr
  obtain ⟨rfl, hsupply⟩ := add_natCast_eq_ok.1 hs
  refine ⟨supply, rfl, hm, rfl, ?_, h0, h1, hsupply⟩
  simp only [Operand.natCast_eq_zero, Int.toNat_natCast]
  split <;> omega

/-- Nobody is paid more than a reserve holds. -/
theorem payout_le (h : burned ≤ supply) (reserve : ℕ) : burned * reserve / supply ≤ reserve :=
  Nat.div_le_of_le_mul (Nat.mul_le_mul_right reserve h)

theorem lpBurn_eq_ok : lpBurn lpAmount r0 r1 lpSupply = .ok (out0, out1) ↔
    ∃ burned supply : ℕ, lpAmount = burned ∧ lpSupply = supply ∧ 0 < burned ∧ burned ≤ supply ∧
      supply ≤ maxAmount ∧ r0 ≤ maxAmount ∧ r1 ≤ maxAmount ∧
      out0 = burned * r0 / supply ∧ out1 = burned * r1 / supply := by
  simp only [lpBurn, bind_eq_ok, Operand.nonNegative_eq_ok, Operand.positive_eq_ok, ensure_eq_ok,
    mulDivDown_eq_ok, Operand.int.injEq, Int.natCast_inj, pure, Except.pure, Except.ok.injEq,
    Prod.mk.injEq]
  constructor
  · rintro ⟨burned, ⟨rfl, hb, -⟩, _, ⟨rfl, h0⟩, _, ⟨rfl, h1⟩, supply, ⟨rfl, hs⟩, -, hle, _,
      ⟨rfl, -⟩, _, ⟨rfl, -⟩, rfl, rfl⟩
    exact ⟨burned, supply, rfl, rfl, hb, hle, hs, h0, h1, rfl, rfl⟩
  · rintro ⟨burned, supply, rfl, rfl, hb, hle, hs, h0, h1, rfl, rfl⟩
    exact ⟨burned, ⟨rfl, hb, by omega⟩, r0, ⟨rfl, h0⟩, r1, ⟨rfl, h1⟩, supply, ⟨rfl, hs⟩, (), hle, _,
      ⟨rfl, by omega, h0, hs, by omega, (payout_le hle r0).trans h0⟩, _,
      ⟨rfl, by omega, h1, hs, by omega, (payout_le hle r1).trans h1⟩, rfl, rfl⟩

theorem reservesAfterPayout_eq_ok {x y : ℕ} : reservesAfterPayout r0 r1 a0 a1 = .ok (x, y) ↔
    x = r0 - a0 ∧ y = r1 - a1 ∧ a0 ≤ r0 ∧ a1 ≤ r1 ∧ r0 ≤ maxAmount ∧ r1 ≤ maxAmount := by
  simp only [reservesAfterPayout, bind_eq_ok, Operand.nonNegative_eq_ok, Operand.int.injEq,
    Int.natCast_inj, sub_natCast_eq_ok, pure, Except.pure, Except.ok.injEq, Prod.mk.injEq]
  constructor
  · rintro ⟨_, ⟨rfl, -⟩, _, ⟨rfl, -⟩, _, ⟨rfl, h0, hm0⟩, _, ⟨rfl, h1, hm1⟩, rfl, rfl⟩
    exact ⟨rfl, rfl, h0, h1, hm0, hm1⟩
  · rintro ⟨rfl, rfl, h0, h1, hm0, hm1⟩
    exact ⟨a0, ⟨rfl, by omega⟩, a1, ⟨rfl, by omega⟩, _, ⟨rfl, h0, hm0⟩, _, ⟨rfl, h1, hm1⟩, rfl, rfl⟩

theorem removeLiquidity_eq_ok : r.removeLiquidity lpSupply lpAmount = .ok b ↔
    ∃ burned supply : ℕ, lpAmount = burned ∧ lpSupply = supply ∧ 0 < burned ∧ burned ≤ supply ∧
      supply ≤ maxAmount ∧ r.reserve0 ≤ maxAmount ∧ r.reserve1 ≤ maxAmount ∧
      b = ⟨burned * r.reserve0 / supply, burned * r.reserve1 / supply,
        ⟨r.reserve0 - burned * r.reserve0 / supply, r.reserve1 - burned * r.reserve1 / supply⟩,
        supply - burned⟩ := by
  simp only [removeLiquidity, bind_eq_ok, Prod.exists, lpBurn_eq_ok, reservesAfterPayout_eq_ok,
    pure, Except.pure, Except.ok.injEq]
  constructor
  · rintro ⟨_, _, ⟨burned, supply, rfl, rfl, hb, hle, hs, h0, h1, rfl, rfl⟩, _, _, ⟨rfl, rfl, -⟩, _,
      hr, _, hsub, rfl⟩
    rw [ofOperands_natCast] at hr
    cases hr
    obtain ⟨rfl, -⟩ := sub_natCast_eq_ok.1 hsub
    exact ⟨burned, supply, rfl, rfl, hb, hle, hs, h0, h1, rfl⟩
  · rintro ⟨burned, supply, rfl, rfl, hb, hle, hs, h0, h1, rfl⟩
    exact ⟨_, _, ⟨burned, supply, rfl, rfl, hb, hle, hs, h0, h1, rfl, rfl⟩, _, _,
      ⟨rfl, rfl, payout_le hle _, payout_le hle _, h0, h1⟩, _, ofOperands_natCast _ _, _,
      sub_natCast_eq_ok.2 ⟨rfl, hle, hs⟩, rfl⟩

/-- A reserve grows by at least the proportion that the supply grows by. -/
theorem mul_supply_le_of_minted (h0 : 0 < reserve) (h : minted ≤ amount * supply / reserve) :
    reserve * (supply + minted) ≤ (reserve + amount) * supply := by
  rw [Nat.le_div_iff_mul_le h0] at h
  rw [Nat.mul_add, Nat.add_mul, Nat.mul_comm reserve minted]
  exact Nat.add_le_add_left h _

/-- A reserve shrinks by at most the proportion that the supply shrinks by. -/
theorem mul_supply_le_of_burned (supply burned reserve : ℕ) :
    reserve * (supply - burned) ≤ (reserve - burned * reserve / supply) * supply := by
  rw [Nat.mul_sub, Nat.sub_mul, Nat.mul_comm reserve burned]
  exact Nat.sub_le_sub_left (Nat.div_mul_le_self _ _) _

end PoolAccounting.Exchange

import Mathlib
import PoolAccounting.Proofs.Exchange.Worth
import PoolAccounting.Proofs.Regularity.Exchange

/-!
What stands behind the shares of a pool that began empty. The first deposit creates no more shares
than the geometric mean of the reserves, and from there on no share is worth less; where the last
share goes, the reserves go with it. Main statement: it is so after every run, and no action meets a
supply without reserves.
-/
namespace PoolAccounting.Exchange

open Amount

variable {r r' : Reserves} {supply supply' : ℕ}

/-- Enough reserves for the shares, and nothing where there are none. -/
structure Reserves.Backs (r : Reserves) (supply : ℕ) : Prop where
  sq_le : supply ^ 2 ≤ r.k
  eq_zero : supply = 0 → r = ⟨0, 0⟩

namespace Reserves.Backs

theorem supply_pos (h : r.Backs supply) (hr : 0 < r.reserve0) : 0 < supply := by
  by_contra hs
  obtain rfl := h.eq_zero (by omega)
  exact absurd hr (Nat.lt_irrefl 0)

theorem reserves_pos (h : r.Backs supply) (hs : 0 < supply) :
    0 < r.reserve0 ∧ 0 < r.reserve1 := by
  have hk : 0 < r.reserve0 * r.reserve1 := (Nat.pow_pos hs).trans_le h.sq_le
  exact ⟨Nat.pos_of_mul_pos_right hk, Nat.pos_of_mul_pos_left hk⟩

/-- A share of a backed supply is worth one at least, and a move that leaves shares lowers that
for none of them. -/
theorem sq_le_of_move (h : r.Backs supply) (hm : Move r supply r' supply') (hs : 0 < supply)
    (hs' : 0 < supply') : supply' ^ 2 ≤ r'.k := by
  rw [← one_le_worth_iff hs']
  exact ((one_le_worth_iff hs).2 h.sq_le).trans (hm.worth_le hs hs')

theorem move (h : r.Backs supply) (hm : Move r supply r' supply') : r'.Backs supply' := by
  have hkept := h.sq_le_of_move hm
  cases hm with
  | @seed a0 a1 hs hroot =>
    -- the shares are the root of the deposit, and before it there was nothing
    obtain rfl := h.eq_zero hs
    constructor
    · rw [k, Nat.zero_add, Nat.zero_add, Nat.pow_two]
      exact (floorSqrt_bounds (a0 * a1)).1
    · intro h0
      omega
  | deposit hs =>
    have hs' := Nat.add_pos_left hs
    exact ⟨hkept hs (hs' _), fun h0 => absurd h0 (hs' _).ne'⟩
  | @withdraw burned hpos hle =>
    constructor
    · rcases Nat.eq_zero_or_pos (supply - burned) with h0 | h0
      · rw [h0]
        exact Nat.zero_le _
      · exact hkept (hpos.trans_le hle) h0
    · intro h0
      obtain rfl : burned = supply := by omega
      simp [Nat.mul_div_cancel_left _ hpos]
  | swap ht =>
    have hs := h.supply_pos ht.reserves_pos.1
    exact ⟨hkept hs hs, fun h0 => absurd h0 hs.ne'⟩

end Reserves.Backs

namespace Pool

structure Backed (p : Pool) (supply : ℕ) : Prop where
  supply_eq : p.supply = supply
  backs : p.reserves.Backs supply

variable {p : Pool}

theorem backed_empty : empty.Backed 0 := ⟨rfl, ⟨le_rfl, fun _ => rfl⟩⟩

theorem Backed.step (h : p.Backed supply) (a : Action) :
    ∃ supply' : ℕ, (p.step a).Backed supply' := by
  rcases step_eq_or_move h.supply_eq a with hstep | ⟨supply', hs, hmove⟩
  · rw [hstep]
    exact ⟨supply, h⟩
  · exact ⟨supply', hs, h.backs.move hmove⟩

theorem Backed.run (h : p.Backed supply) (actions : List Action) :
    ∃ supply' : ℕ, (p.run actions).Backed supply' := by
  induction actions generalizing p supply with
  | nil => exact ⟨supply, h⟩
  | cons a actions ih =>
    obtain ⟨middle, hm⟩ := h.step a
    exact ih hm

theorem Backed.perform_ne_supplyWithoutReserves (h : p.Backed supply) (a : Action) :
    p.perform a ≠ .error .supplyWithoutReserves := by
  intro ha
  obtain ⟨n, hn, hs, hr⟩ := of_perform_eq_supplyWithoutReserves ha
  rw [h.supply_eq] at hn
  cases hn
  have hpos := h.backs.reserves_pos hs
  omega

/-- After any run on a pool that began empty the product of the reserves is at least the square of
the supply, and the supply and both reserves are zero together. So no action is refused for a
supply without reserves, and a first deposit finds the pool empty and becomes its reserves. -/
theorem supply_backed (actions : List Action) :
    let q := empty.run actions
    ∃ supply : ℕ, q.supply = supply ∧ supply ^ 2 ≤ q.reserves.reserve0 * q.reserves.reserve1 ∧
      (supply = 0 ↔ q.reserves.reserve0 = 0) ∧
      (q.reserves.reserve0 = 0 ↔ q.reserves.reserve1 = 0) ∧
      (∀ a, q.perform a ≠ .error .supplyWithoutReserves) ∧
      ∀ amount0 amount1 m, q.perform (.add amount0 amount1) = .ok (.minted m) → supply = 0 →
        q.reserves = ⟨0, 0⟩ ∧ m.reserves = ⟨m.used0, m.used1⟩ := by
  intro q
  obtain ⟨supply, h⟩ := backed_empty.run actions
  have hpos : 0 < supply → 0 < q.reserves.reserve0 ∧ 0 < q.reserves.reserve1 := h.backs.reserves_pos
  have hzero : supply = 0 → q.reserves = ⟨0, 0⟩ := h.backs.eq_zero
  refine ⟨supply, h.supply_eq, h.backs.sq_le, ?_, ?_, h.perform_ne_supplyWithoutReserves, ?_⟩
  · rcases Nat.eq_zero_or_pos supply with hs | hs
    · simp [hs, hzero hs]
    · have := hpos hs
      omega
  · rcases Nat.eq_zero_or_pos supply with hs | hs
    · simp [hzero hs]
    · have := hpos hs
      omega
  · intro amount0 amount1 m hm hs
    obtain ⟨result, hadd, hresult⟩ := map_eq_ok.1 hm
    cases hresult
    obtain ⟨-, -, -, hr, -⟩ := deposit_of_addLiquidity hadd
    exact ⟨hzero hs, by simpa [hzero hs] using hr⟩

/-- The whole supply is burned and the pool seeded again. -/
example : empty.run [.add 4000 1000, .swapIn 100 30 .zeroForOne, .remove 2000, .remove 1,
    .add 2000 2000, .swapOut 50 30 .oneForZero, .add 100 100] = ⟨⟨2044, 2153⟩, 2096⟩ := by
  decide +kernel

end Pool

end PoolAccounting.Exchange

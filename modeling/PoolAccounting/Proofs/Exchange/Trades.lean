import Mathlib
import PoolAccounting.Proofs.Exchange.Quotes

/-!
What a swap that is answered does. Both kinds of swap are trades: they pay out no more than the net
input buys. Main statement: a trade keeps its whole fee in the pool, on top of the product of the
reserves that it found.
-/
namespace PoolAccounting.Exchange

open Amount

variable {r : Reserves} {paid out bps : ℕ} {amount feeBps : Operand} {d : Direction}
  {s : SwapResult}

namespace Reserves

/-- The reserves once `paid` came in and `out` went out. -/
def traded (r : Reserves) (paid out : ℕ) : Direction → Reserves
  | .zeroForOne => ⟨r.reserve0 + paid, r.reserve1 - out⟩
  | .oneForZero => ⟨r.reserve0 - out, r.reserve1 + paid⟩

@[simp] theorem oriented_traded (r : Reserves) (paid out : ℕ) (d : Direction) :
    (r.traded paid out d).oriented d = ((r.oriented d).1 + paid, (r.oriented d).2 - out) := by
  cases d <;> rfl

theorem k_eq_oriented (r : Reserves) (d : Direction) :
    r.k = (r.oriented d).1 * (r.oriented d).2 := by
  cases d with
  | zeroForOne => rfl
  | oneForZero => exact Nat.mul_comm _ _

end Reserves

open Reserves

theorem reservesAfterSwap_eq_ok {x y : ℤ} :
    reservesAfterSwap r.reserve0 r.reserve1 paid out d = .ok (x, y) ↔
      x = (r.traded paid out d).reserve0 ∧ y = (r.traded paid out d).reserve1 ∧
      out ≤ (r.oriented d).2 ∧ (r.oriented d).2 ≤ maxAmount ∧
      (r.oriented d).1 + paid ≤ maxAmount := by
  simp only [reservesAfterSwap, bind_eq_ok, Operand.nonNegative_eq_ok, Operand.int.injEq,
    Int.natCast_inj]
  cases d with
  | zeroForOne =>
    simp only [bind_eq_ok, add_natCast_eq_ok, sub_natCast_eq_ok, pure, Except.pure,
      Except.ok.injEq, Prod.mk.injEq, oriented, traded]
    constructor
    · rintro ⟨_, ⟨rfl, -⟩, _, ⟨rfl, -⟩, _, ⟨rfl, hi⟩, _, ⟨rfl, ho, hm⟩, rfl, rfl⟩
      exact ⟨rfl, rfl, ho, hm, hi⟩
    · rintro ⟨rfl, rfl, ho, hm, hi⟩
      exact ⟨paid, ⟨rfl, by omega⟩, out, ⟨rfl, by omega⟩, _, ⟨rfl, hi⟩, _, ⟨rfl, ho, hm⟩, rfl, rfl⟩
  | oneForZero =>
    simp only [bind_eq_ok, add_natCast_eq_ok, sub_natCast_eq_ok, pure, Except.pure,
      Except.ok.injEq, Prod.mk.injEq, oriented, traded]
    constructor
    · rintro ⟨_, ⟨rfl, -⟩, _, ⟨rfl, -⟩, _, ⟨rfl, ho, hm⟩, _, ⟨rfl, hi⟩, rfl, rfl⟩
      exact ⟨rfl, rfl, ho, hm, hi⟩
    · rintro ⟨rfl, rfl, ho, hm, hi⟩
      exact ⟨paid, ⟨rfl, by omega⟩, out, ⟨rfl, by omega⟩, _, ⟨rfl, ho, hm⟩, _, ⟨rfl, hi⟩, rfl, rfl⟩

/-- A swap of given amounts as its result records it. -/
def SwapResult.ofTrade (r : Reserves) (paid out bps : ℕ) (d : Direction) : SwapResult where
  amountIn := paid
  amountOut := out
  fee := feeOn paid bps
  reserves := r.traded paid out d
  kBefore := r.k
  kAfter := (r.traded paid out d).k

theorem exchange_eq_ok : r.exchange paid out feeBps d = .ok s ↔ ∃ bps : ℕ,
    feeBps = bps ∧ bps ≤ bpsDenominator ∧ out ≤ (r.oriented d).2 ∧ (r.oriented d).2 ≤ maxAmount ∧
    (r.oriented d).1 + paid ≤ maxAmount ∧ r.k ≤ maxAmount ∧
    (r.traded paid out d).k ≤ maxAmount ∧ s = .ofTrade r paid out bps d := by
  simp only [exchange, bind_eq_ok, Prod.exists, reservesAfterSwap_eq_ok,
    BasisPoints.applyRoundUp_eq_ok_feeOn, product, pure, Except.pure, Except.ok.injEq]
  constructor
  · rintro ⟨_, _, ⟨rfl, rfl, ho, hm, hi⟩, _, ⟨-, bps, rfl, hb, rfl⟩, after, hr, before, hk, k, hk',
      rfl⟩
    rw [ofOperands_natCast] at hr
    cases hr
    rw [mul_natCast_eq_ok] at hk hk'
    obtain ⟨rfl, -, -, hk⟩ := hk
    obtain ⟨rfl, -, -, hk'⟩ := hk'
    exact ⟨bps, rfl, hb, ho, hm, hi, hk, hk', rfl⟩
  · rintro ⟨bps, rfl, hb, ho, hm, hi, hk, hk', rfl⟩
    have h0 : r.reserve0 ≤ maxAmount ∧ r.reserve1 ≤ maxAmount ∧
        (r.traded paid out d).reserve0 ≤ maxAmount ∧
        (r.traded paid out d).reserve1 ≤ maxAmount := by
      cases d <;> simp only [oriented, traded] at * <;> omega
    exact ⟨_, _, ⟨rfl, rfl, ho, hm, hi⟩, _, ⟨by omega, bps, rfl, hb, rfl⟩, _,
      ofOperands_natCast _ _, _, mul_natCast_eq_ok.2 ⟨rfl, h0.1, h0.2.1, hk⟩, _,
      mul_natCast_eq_ok.2 ⟨rfl, h0.2.2.1, h0.2.2.2, hk'⟩, rfl⟩

/-- Amounts that a swap can move: what goes out is no more than the net input buys. -/
structure Trade (r : Reserves) (paid out bps : ℕ) (d : Direction) : Prop where
  bps_le : bps ≤ bpsDenominator
  reserveIn_pos : 0 < (r.oriented d).1
  reserveIn_le : (r.oriented d).1 + paid ≤ maxAmount
  out_lt : out < (r.oriented d).2
  reserveOut_le : (r.oriented d).2 ≤ maxAmount
  fair : out ≤ bought (r.oriented d).1 (r.oriented d).2 (netInput paid bps)

theorem trade_of_swapExactIn (h : r.swapExactIn amount feeBps d = .ok s) : ∃ paid out bps : ℕ,
    amount = paid ∧ feeBps = bps ∧ Trade r paid out bps d ∧ s = .ofTrade r paid out bps d := by
  simp only [swapExactIn, bind_eq_ok, amountOut_eq_ok, Operand.positive_eq_ok] at h
  obtain ⟨out, ⟨paid, rIn, rOut, bps, rfl, hi, ho, rfl, -, -, hi0, ho0, -, -, -, rfl⟩, paid', hp,
    h⟩ := h
  cases hi; cases ho; cases hp.1
  obtain ⟨bps', hb, hb', -, hm, him, -, -, rfl⟩ := exchange_eq_ok.1 h
  cases hb
  exact ⟨paid, _, bps, rfl, rfl, ⟨hb', hi0, him, bought_lt hi0 ho0 _, hm, le_rfl⟩, rfl⟩

theorem trade_of_swapExactOut (h : r.swapExactOut amount feeBps d = .ok s) : ∃ paid out bps : ℕ,
    amount = out ∧ feeBps = bps ∧ Trade r paid out bps d ∧ s = .ofTrade r paid out bps d := by
  simp only [swapExactOut, bind_eq_ok, amountIn_eq_ok, Operand.positive_eq_ok] at h
  obtain ⟨paid, ⟨out, rIn, rOut, bps, rfl, hi, ho, rfl, -, hlt, -, hi0, -, hbps, -, -, rfl⟩, out',
    hp, h⟩ := h
  cases hi; cases ho; cases hp.1
  obtain ⟨bps', hb, hb', -, hm, him, -, -, rfl⟩ := exchange_eq_ok.1 h
  cases hb
  have hfair := (netPrice_le_iff hi0 hlt).1 ((grossInput_le_iff hbps).1 le_rfl)
  exact ⟨_, out, bps, rfl, rfl, ⟨hb', hi0, him, hlt, hm, hfair⟩, rfl⟩

theorem trade_of_swap
    (h : r.swapExactIn amount feeBps d = .ok s ∨ r.swapExactOut amount feeBps d = .ok s) :
    ∃ paid out bps : ℕ, feeBps = bps ∧ Trade r paid out bps d ∧ s = .ofTrade r paid out bps d := by
  rcases h with h | h
  · obtain ⟨paid, out, bps, -, hb, ht, hs⟩ := trade_of_swapExactIn h
    exact ⟨paid, out, bps, hb, ht, hs⟩
  · obtain ⟨paid, out, bps, -, hb, ht, hs⟩ := trade_of_swapExactOut h
    exact ⟨paid, out, bps, hb, ht, hs⟩

/-- What the fee is worth in the output asset comes on top of the product. -/
theorem Trade.k_add_fee_le (h : Trade r paid out bps d) :
    r.k + feeOn paid bps * ((r.oriented d).2 - out) ≤ (r.traded paid out d).k := by
  rw [k_eq_oriented r d, k_eq_oriented _ d, oriented_traded]
  calc (r.oriented d).1 * (r.oriented d).2 + feeOn paid bps * ((r.oriented d).2 - out)
    _ ≤ ((r.oriented d).1 + netInput paid bps) * ((r.oriented d).2 - out) +
        feeOn paid bps * ((r.oriented d).2 - out) :=
      Nat.add_le_add_right ((le_bought_iff h.reserveIn_pos h.out_lt.le).1 h.fair) _
    _ = ((r.oriented d).1 + (netInput paid bps + feeOn paid bps)) * ((r.oriented d).2 - out) := by
      ring
    _ = ((r.oriented d).1 + paid) * ((r.oriented d).2 - out) := by
      rw [netInput_add_feeOn paid h.bps_le]

theorem Trade.k_le (h : Trade r paid out bps d) : r.k ≤ (r.traded paid out d).k :=
  (Nat.le_add_right _ _).trans h.k_add_fee_le

theorem Trade.reserves_pos (h : Trade r paid out bps d) : 0 < r.reserve0 ∧ 0 < r.reserve1 := by
  have hi := h.reserveIn_pos
  have ho := h.out_lt
  cases d <;> simp only [oriented] at hi ho <;> omega

theorem Trade.traded_pos (h : Trade r paid out bps d) :
    0 < (r.traded paid out d).reserve0 ∧ 0 < (r.traded paid out d).reserve1 := by
  have hi := h.reserveIn_pos
  have ho := h.out_lt
  cases d <;> simp only [oriented, traded] at hi ho ⊢ <;> omega

/-- The result of a swap on `r` that left its whole fee in the pool: beyond the product before, the
product after has at least the fee at the price of the output reserve that is left, and something is
left. The reserves moved by just what came in and went out, and the check on the product passes. -/
structure SwapResult.KeepsFee (s : SwapResult) (r : Reserves) (feeBps : Operand) (d : Direction) :
    Prop where
  fee_eq : ∃ paid bps : ℕ, s.amountIn = paid ∧ feeBps = bps ∧ s.fee = feeOn paid bps
  kBefore_eq : s.kBefore = r.k
  kAfter_eq : s.kAfter = s.reserves.k
  kBefore_add_fee_le : s.kBefore + s.fee * (s.reserves.oriented d).2 ≤ s.kAfter
  reserveOut_pos : 1 ≤ (s.reserves.oriented d).2
  reserveIn_eq : (s.reserves.oriented d).1 = (r.oriented d).1 + s.amountIn
  reserveOut_eq : (s.reserves.oriented d).2 = (r.oriented d).2 - s.amountOut
  kOk_eq_true : s.kOk = true

theorem Trade.keepsFee (h : Trade r paid out bps d) :
    (SwapResult.ofTrade r paid out bps d).KeepsFee r bps d where
  fee_eq := ⟨paid, bps, rfl, rfl, rfl⟩
  kBefore_eq := rfl
  kAfter_eq := rfl
  kBefore_add_fee_le := by
    simp only [SwapResult.ofTrade, oriented_traded]
    exact_mod_cast h.k_add_fee_le
  reserveOut_pos := by
    have hout := h.out_lt
    simp only [SwapResult.ofTrade, oriented_traded]
    omega
  reserveIn_eq := by simp [SwapResult.ofTrade]
  reserveOut_eq := by simp [SwapResult.ofTrade, Nat.cast_sub h.out_lt.le]
  kOk_eq_true := by simpa [SwapResult.kOk, SwapResult.ofTrade] using h.k_le

/-- A swap that is answered takes in or pays out just the amount that it was asked for, and leaves
its whole fee in the pool. -/
theorem fee_stays_in_pool (r : Reserves) (amount feeBps : Operand) (d : Direction)
    (s : SwapResult) :
    (r.swapExactIn amount feeBps d = .ok s → amount = s.amountIn ∧ s.KeepsFee r feeBps d) ∧
    (r.swapExactOut amount feeBps d = .ok s → amount = s.amountOut ∧ s.KeepsFee r feeBps d) := by
  constructor
  · intro h
    obtain ⟨paid, out, bps, rfl, rfl, ht, rfl⟩ := trade_of_swapExactIn h
    exact ⟨rfl, ht.keepsFee⟩
  · intro h
    obtain ⟨paid, out, bps, rfl, rfl, ht, rfl⟩ := trade_of_swapExactOut h
    exact ⟨rfl, ht.keepsFee⟩

/-- The two kinds of swap lead to one result where the output is bought at its least input. -/
theorem fee_stays_in_pool_ninety :
    let r : Reserves := ⟨1000, 1000⟩
    let d : Direction := .oneForZero
    let s : SwapResult := ⟨100, 90, 1, ⟨910, 1100⟩, 1000000, 1001000⟩
    r.swapExactIn 100 30 d = .ok s ∧ r.swapExactOut 90 30 d = .ok s ∧
      (100 : Operand) = s.amountIn ∧ (90 : Operand) = s.amountOut ∧ s.KeepsFee r 30 d := by
  intro r d s
  have hin : r.swapExactIn 100 30 d = .ok s := by decide +kernel
  have hout : r.swapExactOut 90 30 d = .ok s := by decide +kernel
  obtain ⟨hpaid, hkept⟩ := (fee_stays_in_pool r 100 30 d s).1 hin
  obtain ⟨hbought, -⟩ := (fee_stays_in_pool r 90 30 d s).2 hout
  exact ⟨hin, hout, hpaid, hbought, hkept⟩

end PoolAccounting.Exchange

import Mathlib
import PoolAccounting.Proofs.Exchange.Pricing

/-!
When the quotes of a swap are answered, and with what. Main statement: where both quotes answer, an
input buys at least an output just if it is at least what the output is quoted at.
-/
namespace PoolAccounting

open Amount

theorem Amount.mulDivUp_eq_ok_ceilDiv {a b c q : ℕ} : mulDivUp a b c = .ok q ↔
    q = a * b ⌈/⌉ c ∧ a ≤ maxAmount ∧ b ≤ maxAmount ∧ c ≤ maxAmount ∧ c ≠ 0 ∧ q ≤ maxAmount := by
  rw [mulDivUp_eq_ok]
  constructor
  · rintro ⟨hq, ha, hb, hc, h0, hm⟩
    exact ⟨by rwa [ite_mod_eq_ceilDiv _ (Nat.pos_of_ne_zero h0)] at hq, ha, hb, hc, h0, hm⟩
  · rintro ⟨hq, ha, hb, hc, h0, hm⟩
    exact ⟨by rwa [ite_mod_eq_ceilDiv _ (Nat.pos_of_ne_zero h0)], ha, hb, hc, h0, hm⟩

theorem BasisPoints.applyRoundUp_eq_ok_feeOn {paid fee : ℕ} {feeBps : Operand} :
    applyRoundUp paid feeBps = .ok fee ↔ paid ≤ maxAmount ∧
      ∃ bps : ℕ, feeBps = bps ∧ bps ≤ bpsDenominator ∧ fee = Exchange.feeOn paid bps := by
  simp only [applyRoundUp, bind_eq_ok, Operand.nonNegative_eq_ok, Operand.basisPoints_eq_ok,
    Operand.int.injEq, Int.natCast_inj]
  constructor
  · rintro ⟨_, ⟨rfl, hp⟩, bps, ⟨rfl, hb⟩, h⟩
    exact ⟨hp, bps, rfl, hb, (mulDivUp_eq_ok_ceilDiv.1 h).1⟩
  · rintro ⟨hp, bps, rfl, hb, rfl⟩
    have hfee := Exchange.netInput_add_feeOn paid hb
    have hd : bpsDenominator ≤ maxAmount := by decide
    exact ⟨_, ⟨rfl, hp⟩, _, ⟨rfl, hb⟩,
      mulDivUp_eq_ok_ceilDiv.2 ⟨rfl, hp, hb.trans hd, hd, by decide, by omega⟩⟩

namespace Exchange

theorem amountOut_eq_ok {amount reserveIn reserveOut feeBps : Operand} {out : ℕ} :
    amountOut amount reserveIn reserveOut feeBps = .ok out ↔ ∃ paid rIn rOut bps : ℕ,
      amount = paid ∧ reserveIn = rIn ∧ reserveOut = rOut ∧ feeBps = bps ∧
      0 < paid ∧ paid ≤ maxAmount ∧ 0 < rIn ∧ 0 < rOut ∧ rOut ≤ maxAmount ∧
      bps ≤ bpsDenominator ∧ rIn + netInput paid bps ≤ maxAmount ∧
      out = bought rIn rOut (netInput paid bps) := by
  simp only [amountOut, bind_eq_ok, Operand.positive_eq_ok, Operand.basisPoints_eq_ok,
    BasisPoints.applyRoundUp_eq_ok_feeOn, Operand.int.injEq, Int.natCast_inj, sub_natCast_eq_ok]
  constructor
  · rintro ⟨paid, ⟨rfl, hp, hpm⟩, rIn, ⟨rfl, hi, him⟩, rOut, ⟨rfl, ho, hom⟩, bps, ⟨rfl, hb⟩, fee,
      ⟨-, _, rfl, -, rfl⟩, net, ⟨hnet, -⟩, h⟩
    have hsum := netInput_add_feeOn paid hb
    obtain rfl : net = netInput paid bps := by omega
    refine ⟨paid, rIn, rOut, bps, rfl, rfl, rfl, rfl, hp, hpm, hi, ho, hom, hb, ?_⟩
    split at h
    · next h0 =>
      cases h
      simp only [h0, bought, Nat.mul_zero, Nat.zero_div]
      exact ⟨him, trivial⟩
    · simp only [bind_eq_ok, addNat_eq_ok] at h
      obtain ⟨_, ⟨rfl, hm⟩, hq⟩ := h
      exact ⟨hm, (mulDivDown_eq_ok.1 hq).1⟩
  · rintro ⟨paid, rIn, rOut, bps, rfl, rfl, rfl, rfl, hp, hpm, hi, ho, hom, hb, hm, rfl⟩
    have hsum := netInput_add_feeOn paid hb
    refine ⟨_, ⟨rfl, hp, hpm⟩, _, ⟨rfl, hi, by omega⟩, _, ⟨rfl, ho, hom⟩, _, ⟨rfl, hb⟩, _,
      ⟨hpm, _, rfl, hb, rfl⟩, netInput paid bps, ⟨by omega, by omega, hpm⟩, ?_⟩
    split
    · next h0 => simp [h0, bought, pure, Except.pure]
    · have hlt := bought_lt hi ho (netInput paid bps)
      simp only [bind_eq_ok, addNat_eq_ok]
      exact ⟨_, ⟨rfl, hm⟩, mulDivDown_eq_ok.2 ⟨rfl, hom, by omega, hm, by omega, by omega⟩⟩

theorem amountIn_eq_ok {amount reserveIn reserveOut feeBps : Operand} {paid : ℕ} :
    amountIn amount reserveIn reserveOut feeBps = .ok paid ↔ ∃ out rIn rOut bps : ℕ,
      amount = out ∧ reserveIn = rIn ∧ reserveOut = rOut ∧ feeBps = bps ∧
      0 < out ∧ out < rOut ∧ rOut ≤ maxAmount ∧ 0 < rIn ∧ rIn ≤ maxAmount ∧
      bps < bpsDenominator ∧ netPrice rIn rOut out ≤ maxAmount ∧ paid ≤ maxAmount ∧
      paid = grossInput (netPrice rIn rOut out) bps := by
  simp only [amountIn, bind_eq_ok, Operand.positive_eq_ok, Operand.basisPoints_eq_ok, ensure_eq_ok,
    sub_natCast_eq_ok, mulDivUp_eq_ok_ceilDiv]
  constructor
  · rintro ⟨out, ⟨rfl, ho, -⟩, rIn, ⟨rfl, hi, him⟩, rOut, ⟨rfl, -, hom⟩, bps, ⟨rfl, hb⟩, -, hne, -,
      hlt, _, ⟨rfl, -⟩, _, ⟨rfl, -, -, -, -, hn⟩, rfl, -, -, -, -, hp⟩
    exact ⟨out, rIn, rOut, bps, rfl, rfl, rfl, rfl, ho, hlt, hom, hi, him, by omega, hn, hp, rfl⟩
  · rintro ⟨out, rIn, rOut, bps, rfl, rfl, rfl, rfl, ho, hlt, hom, hi, him, hb, hn, hp, rfl⟩
    have hd : bpsDenominator ≤ maxAmount := by decide
    exact ⟨_, ⟨rfl, ho, by omega⟩, _, ⟨rfl, hi, him⟩, _, ⟨rfl, by omega, hom⟩, _, ⟨rfl, hb.le⟩, (),
      by omega, (), hlt, _, ⟨rfl, hlt.le, hom⟩, _,
      ⟨rfl, him, by omega, by omega, by omega, hn⟩, rfl, hn, hd, by omega, by omega, hp⟩

/-- The quote for an output is the least input that buys it: an input buys the output just if it is
at least the quote. So more input never buys less, and what an input buys is never quoted above
that input. -/
theorem amountIn_isLeast (reserveIn reserveOut feeBps : Operand) :
    (∀ (target amount : ℤ) (quoted out : ℕ),
      amountIn target reserveIn reserveOut feeBps = .ok quoted →
      amountOut amount reserveIn reserveOut feeBps = .ok out →
      (target ≤ out ↔ quoted ≤ amount)) ∧
    (∀ (amount amount' : ℤ) (out out' : ℕ),
      amountOut amount reserveIn reserveOut feeBps = .ok out →
      amountOut amount' reserveIn reserveOut feeBps = .ok out' →
      amount ≤ amount' → out ≤ out') ∧
    ∀ (amount : ℤ) (out quoted : ℕ),
      amountOut amount reserveIn reserveOut feeBps = .ok out →
      amountIn out reserveIn reserveOut feeBps = .ok quoted →
      quoted ≤ amount := by
  have hadjoint : ∀ (target amount : ℤ) (quoted out : ℕ),
      amountIn target reserveIn reserveOut feeBps = .ok quoted →
      amountOut amount reserveIn reserveOut feeBps = .ok out →
      (target ≤ out ↔ quoted ≤ amount) := by
    intro target amount quoted out hin hout
    obtain ⟨wanted, rIn, rOut, bps, ht, rfl, rfl, rfl, -, hlt, -, hi, -, hb, -, -, rfl⟩ :=
      amountIn_eq_ok.1 hin
    obtain ⟨paid, _, _, _, ha, hi', ho', hb', -, -, -, -, -, -, -, rfl⟩ :=
      amountOut_eq_ok.1 hout
    cases ht; cases ha; cases hi'; cases ho'; cases hb'
    rw [Nat.cast_le, Nat.cast_le, grossInput_le_iff hb, netPrice_le_iff hi hlt]
  refine ⟨hadjoint, ?_, ?_⟩
  · intro amount amount' out out' hout hout' hle
    obtain ⟨paid, rIn, rOut, bps, ha, rfl, rfl, rfl, -, -, hi, ho, -, -, -, rfl⟩ :=
      amountOut_eq_ok.1 hout
    obtain ⟨paid', _, _, _, ha', hi', ho', hb', -, -, -, -, -, -, -, rfl⟩ :=
      amountOut_eq_ok.1 hout'
    cases ha; cases ha'; cases hi'; cases ho'; cases hb'
    exact bought_mono hi ho (netInput_mono (Nat.cast_le.1 hle) bps)
  · intro amount out quoted hout hin
    exact (hadjoint out amount quoted out hin hout).1 le_rfl

/-- One unit less than the quote buys one unit less, and one unit more buys no more. -/
theorem amountIn_isLeast_ninety :
    amountIn (90 : ℤ) 1000 1000 30 = .ok 100 ∧ amountOut (99 : ℤ) 1000 1000 30 = .ok 89 ∧
      amountOut (101 : ℤ) 1000 1000 30 = .ok 90 ∧
      ((90 : ℤ) ≤ (89 : ℕ) ↔ ((100 : ℕ) : ℤ) ≤ 99) ∧ 89 ≤ 90 ∧ ((100 : ℕ) : ℤ) ≤ 101 := by
  have hin : amountIn (90 : ℤ) 1000 1000 30 = .ok 100 := by decide +kernel
  have hless : amountOut (99 : ℤ) 1000 1000 30 = .ok 89 := by decide +kernel
  have hmore : amountOut (101 : ℤ) 1000 1000 30 = .ok 90 := by decide +kernel
  obtain ⟨hleast, hmono, hback⟩ := amountIn_isLeast 1000 1000 30
  exact ⟨hin, hless, hmore, hleast 90 99 100 89 hin hless,
    hmono 99 101 89 90 hless hmore (by decide), hback 101 90 100 hmore hin⟩

end Exchange

end PoolAccounting

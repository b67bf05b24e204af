import Mathlib
import PoolAccounting.Exchange.Liquidity
import PoolAccounting.Proofs.Regularity.Arithmetic

/-!
What a pool takes of an offer. One asset is taken whole and the other one up to what the first is
worth, so nothing of the offer is lost and what is taken keeps to the ratio of the reserves. Where
the second offer does not cover the worth of the first, the first offer covers the worth of the
second. Main statement: this, and which offers are refused.
-/
namespace PoolAccounting.Exchange

open Amount

variable {offer0 offer1 r0 r1 : ℕ}

/-- All of the first asset where the other offer covers its worth, else all of the second one. -/
def Deposit.fitting (offer0 offer1 r0 r1 : ℕ) : Deposit :=
  if offer0 * r1 / r0 ≤ offer1 then
    ⟨offer0, offer0 * r1 / r0, 0, offer1 - offer0 * r1 / r0⟩
  else ⟨offer1 * r0 / r1, offer1, offer0 - offer1 * r0 / r1, 0⟩

open Deposit

theorem fitting_of_le (h : offer0 * r1 / r0 ≤ offer1) : fitting offer0 offer1 r0 r1 =
    ⟨offer0, offer0 * r1 / r0, 0, offer1 - offer0 * r1 / r0⟩ := if_pos h

theorem fitting_of_lt (h : offer1 < offer0 * r1 / r0) : fitting offer0 offer1 r0 r1 =
    ⟨offer1 * r0 / r1, offer1, offer0 - offer1 * r0 / r1, 0⟩ := if_neg h.not_ge

/-- An offer that is worth more than the other one is more than that one's worth. -/
theorem worth_lt (h0 : 0 < r0) (h1 : 0 < r1) (h : offer1 < offer0 * r1 / r0) :
    offer1 * r0 / r1 < offer0 := by
  have hle : (offer1 + 1) * r0 ≤ offer0 * r1 := (Nat.le_div_iff_mul_le h0).1 h
  rw [Nat.add_mul, Nat.one_mul] at hle
  rw [Nat.div_lt_iff_lt_mul h1]
  omega

theorem fitting_whole (offer0 offer1 : ℕ) (h0 : 0 < r0) (h1 : 0 < r1) :
    (fitting offer0 offer1 r0 r1).used0 + (fitting offer0 offer1 r0 r1).refund0 = offer0 ∧
      (fitting offer0 offer1 r0 r1).used1 + (fitting offer0 offer1 r0 r1).refund1 = offer1 := by
  rcases Nat.lt_or_ge offer1 (offer0 * r1 / r0) with h | h
  · rw [fitting_of_lt h]
    exact ⟨Nat.add_sub_cancel' (worth_lt h0 h1 h).le, rfl⟩
  · rw [fitting_of_le h]
    exact ⟨rfl, Nat.add_sub_cancel' h⟩

theorem refund_eq_zero (offer0 offer1 r0 r1 : ℕ) :
    (fitting offer0 offer1 r0 r1).refund0 = 0 ∨ (fitting offer0 offer1 r0 r1).refund1 = 0 := by
  rcases Nat.lt_or_ge offer1 (offer0 * r1 / r0) with h | h
  · rw [fitting_of_lt h]
    exact .inr rfl
  · rw [fitting_of_le h]
    exact .inl rfl

theorem isGreatest_quotient (n : ℕ) {d : ℕ} (hd : 0 < d) :
    IsGreatest {q : ℤ | q * d ≤ n} (n / d : ℕ) := by
  constructor
  · change ((n / d : ℕ) : ℤ) * d ≤ n
    exact_mod_cast Nat.div_mul_le_self n d
  · intro q hq
    rw [Int.natCast_ediv]
    exact (Int.le_ediv_iff_mul_le (Int.natCast_pos.2 hd)).2 hq

section Sizing

variable (ho0 : offer0 ∈ Set.Icc 1 maxAmount) (ho1 : offer1 ∈ Set.Icc 1 maxAmount)
  (h0 : r0 ∈ Set.Icc 1 maxAmount) (h1 : r1 ∈ Set.Icc 1 maxAmount)
include ho0 h0 h1

theorem quote_eq : quote offer0 r0 r1 =
    if offer0 * r1 / r0 ≤ maxAmount then .ok (offer0 * r1 / r0)
    else .error (.aboveDomain (offer0 * r1 / r0 : ℕ)) := by
  rw [quote, Operand.positive_eq_ok.2 ⟨rfl, ho0⟩, ok_bind,
    Operand.nonNegative_eq_ok.2 ⟨rfl, h0.2⟩, ok_bind, Operand.nonNegative_eq_ok.2 ⟨rfl, h1.2⟩,
    ok_bind]
  split
  · next h => exact mulDivDown_eq_ok.2 ⟨rfl, ho0.2, h1.2, h0.2, Nat.ne_of_gt h0.1, h⟩
  · next h =>
    exact mulDivDown_overflows ho0.2 h1.2 h0.2 (Nat.ne_of_gt h0.1) (Nat.lt_of_not_le h)

include ho1

theorem fitted_eq : fitted offer0 offer1 r0 r1 =
    if offer0 * r1 / r0 ≤ maxAmount then
      .ok ((fitting offer0 offer1 r0 r1).used0, (fitting offer0 offer1 r0 r1).used1)
    else .error (.aboveDomain (offer0 * r1 / r0 : ℕ)) := by
  rw [fitted, quote_eq ho0 h0 h1]
  split
  · rw [ok_bind]
    split
    · next hle =>
      rw [fitting_of_le hle]
      rfl
    · next hlt =>
      -- the second worth is below an amount, so it is one
      have hworth := worth_lt h0.1 h1.1 (Nat.lt_of_not_le hlt)
      rw [quote_eq ho1 h1 h0, if_pos (hworth.le.trans ho0.2),
        fitting_of_lt (Nat.lt_of_not_le hlt)]
      rfl
  · rfl

theorem used_le_of_fitted {used0 used1 : ℕ}
    (h : fitted offer0 offer1 r0 r1 = .ok (used0, used1)) : used0 ≤ offer0 ∧ used1 ≤ offer1 := by
  rw [fitted_eq ho0 ho1 h0 h1, ite_eq_iff] at h
  obtain ⟨-, h⟩ | ⟨-, h⟩ := h
  · cases h
    obtain ⟨hwhole0, hwhole1⟩ := fitting_whole offer0 offer1 h0.1 h1.1
    omega
  · cases h

theorem optimalDeposit_eq : optimalDeposit offer0 offer1 r0 r1 =
    if offer0 * r1 / r0 ≤ maxAmount then
      if 0 < (fitting offer0 offer1 r0 r1).used0 ∧ 0 < (fitting offer0 offer1 r0 r1).used1 then
        .ok (fitting offer0 offer1 r0 r1)
      else .error (.depositTooSmall (fitting offer0 offer1 r0 r1).used0
        (fitting offer0 offer1 r0 r1).used1)
    else .error (.aboveDomain (offer0 * r1 / r0 : ℕ)) := by
  have hreserves : ¬(r0 = 0 ∨ r1 = 0) := by
    have := h0.1
    have := h1.1
    omega
  obtain ⟨hwhole0, hwhole1⟩ := fitting_whole offer0 offer1 h0.1 h1.1
  have hrefund0 : sub offer0 (fitting offer0 offer1 r0 r1).used0 =
      .ok (fitting offer0 offer1 r0 r1).refund0 :=
    sub_natCast_eq_ok.2 ⟨by omega, by omega, ho0.2⟩
  have hrefund1 : sub offer1 (fitting offer0 offer1 r0 r1).used1 =
      .ok (fitting offer0 offer1 r0 r1).refund1 :=
    sub_natCast_eq_ok.2 ⟨by omega, by omega, ho1.2⟩
  rw [optimalDeposit, Operand.positive_eq_ok.2 ⟨rfl, ho0⟩, ok_bind,
    Operand.positive_eq_ok.2 ⟨rfl, ho1⟩, ok_bind, Operand.nonNegative_eq_ok.2 ⟨rfl, h0.2⟩, ok_bind,
    Operand.nonNegative_eq_ok.2 ⟨rfl, h1.2⟩, ok_bind, if_neg hreserves, fitted_eq ho0 ho1 h0 h1]
  split
  · simp only [ok_bind, ensure]
    split
    · rw [ok_bind, hrefund0, ok_bind, hrefund1]
      rfl
    · rfl
  · rfl

theorem optimalDeposit_eq_ok {taken : Deposit} :
    optimalDeposit offer0 offer1 r0 r1 = .ok taken ↔ offer0 * r1 / r0 ≤ maxAmount ∧
      0 < (fitting offer0 offer1 r0 r1).used0 ∧ 0 < (fitting offer0 offer1 r0 r1).used1 ∧
      taken = fitting offer0 offer1 r0 r1 := by
  rw [optimalDeposit_eq ho0 ho1 h0 h1]
  split
  · next h =>
    split
    · next hfit =>
      constructor
      · rintro ⟨⟩
        exact ⟨h, hfit.1, hfit.2, rfl⟩
      · rintro ⟨-, -, -, rfl⟩
        rfl
    · next hfit =>
      constructor
      · rintro ⟨⟩
      · rintro ⟨-, hused0, hused1, -⟩
        exact absurd ⟨hused0, hused1⟩ hfit
  · next h =>
    constructor
    · rintro ⟨⟩
    · rintro ⟨hle, -⟩
      exact absurd hle h

theorem optimalDeposit_overflows_iff : (∃ f, optimalDeposit offer0 offer1 r0 r1 = .error f ∧
    f.kind = .accounting .overflow) ↔ maxAmount < offer0 * r1 / r0 := by
  rw [optimalDeposit_eq ho0 ho1 h0 h1]
  split
  · next h =>
    constructor
    · rintro ⟨f, hf, hkind⟩
      split at hf
      · cases hf
      · cases hf
        cases hkind
    · intro hlt
      exact absurd h hlt.not_ge
  · next h => exact ⟨fun _ => Nat.lt_of_not_le h, fun _ => ⟨_, rfl, rfl⟩⟩

theorem optimalDeposit_belowMinimum_iff : (∃ f, optimalDeposit offer0 offer1 r0 r1 = .error f ∧
    f.kind = .accounting .belowMinimum) ↔ offer0 * r1 / r0 ≤ maxAmount ∧
      ((fitting offer0 offer1 r0 r1).used0 = 0 ∨ (fitting offer0 offer1 r0 r1).used1 = 0) := by
  rw [optimalDeposit_eq ho0 ho1 h0 h1]
  split
  · next h =>
    split
    · next hfit =>
      constructor
      · rintro ⟨f, hf, -⟩
        cases hf
      · rintro ⟨-, hzero⟩
        omega
    · next hfit => exact ⟨fun _ => ⟨h, by omega⟩, fun _ => ⟨_, rfl, rfl⟩⟩
  · next h =>
    constructor
    · rintro ⟨f, hf, hkind⟩
      cases hf
      cases hkind
    · rintro ⟨hle, -⟩
      exact absurd hle h

end Sizing

/-- Only amounts are sized. -/
theorem offers_of_optimalDeposit {amount0 amount1 : Operand} {taken : Deposit}
    (h0 : 0 < r0) (h1 : 0 < r1) (h : optimalDeposit amount0 amount1 r0 r1 = .ok taken) :
    ∃ offer0 offer1 : ℕ, amount0 = offer0 ∧ amount1 = offer1 ∧
      offer0 ∈ Set.Icc 1 maxAmount ∧ offer1 ∈ Set.Icc 1 maxAmount ∧
      r0 ∈ Set.Icc 1 maxAmount ∧ r1 ∈ Set.Icc 1 maxAmount := by
  simp only [optimalDeposit, bind_eq_ok, Operand.positive_eq_ok, Operand.nonNegative_eq_ok,
    Operand.int.injEq, Int.natCast_inj] at h
  obtain ⟨offer0, ⟨rfl, ho0⟩, offer1, ⟨rfl, ho1⟩, _, ⟨rfl, hr0⟩, _, ⟨rfl, hr1⟩, -⟩ := h
  exact ⟨offer0, offer1, rfl, rfl, ho0, ho1, ⟨h0, hr0⟩, h1, hr1⟩

/-- A deposit takes something of each asset and hands back what it does not take, nothing of one
asset at least. It takes all of the first asset just if the other offer covers its worth, and then
as much of the second as the ratio allows; else all of the second, and as much of the first as the
ratio allows. An offer of amounts is refused for an overflow just if the worth of the first asset
is no amount, and for being too small just if it is one and nothing of an asset would be taken. -/
theorem deposit_keeps_ratio (h0 : 0 < r0) (h1 : 0 < r1) :
    (∀ (amount0 amount1 : Operand) (taken : Deposit),
      optimalDeposit amount0 amount1 r0 r1 = .ok taken →
      ∃ offer0 offer1 : ℕ, amount0 = offer0 ∧ amount1 = offer1 ∧
        1 ≤ taken.used0 ∧ 1 ≤ taken.used1 ∧
        taken.used0 + taken.refund0 = offer0 ∧ taken.used1 + taken.refund1 = offer1 ∧
        (taken.refund0 = 0 ∨ taken.refund1 = 0) ∧
        (offer0 * r1 / r0 ≤ offer1 → taken.used0 = offer0 ∧
          IsGreatest {n : ℤ | n * r0 ≤ (taken.used0 * r1 : ℕ)} taken.used1) ∧
        (offer1 < offer0 * r1 / r0 → taken.used0 < offer0 ∧ taken.used1 = offer1 ∧
          IsGreatest {n : ℤ | n * r1 ≤ (taken.used1 * r0 : ℕ)} taken.used0)) ∧
    ∀ offer0 ∈ Set.Icc 1 maxAmount, ∀ offer1 ∈ Set.Icc 1 maxAmount,
      r0 ≤ maxAmount → r1 ≤ maxAmount →
      let fit := fitting offer0 offer1 r0 r1
      ((∃ f, optimalDeposit offer0 offer1 r0 r1 = .error f ∧ f.kind = .accounting .overflow) ↔
        maxAmount < offer0 * r1 / r0) ∧
      ((∃ f, optimalDeposit offer0 offer1 r0 r1 = .error f ∧
          f.kind = .accounting .belowMinimum) ↔
        offer0 * r1 / r0 ≤ maxAmount ∧ (fit.used0 = 0 ∨ fit.used1 = 0)) ∧
      ((∃ taken, optimalDeposit offer0 offer1 r0 r1 = .ok taken) ↔
        offer0 * r1 / r0 ≤ maxAmount ∧ 1 ≤ fit.used0 ∧ 1 ≤ fit.used1) := by
  constructor
  · intro amount0 amount1 taken h
    obtain ⟨offer0, offer1, rfl, rfl, ho0, ho1, hr0, hr1⟩ := offers_of_optimalDeposit h0 h1 h
    obtain ⟨-, hused0, hused1, rfl⟩ := (optimalDeposit_eq_ok ho0 ho1 hr0 hr1).1 h
    obtain ⟨hwhole0, hwhole1⟩ := fitting_whole offer0 offer1 h0 h1
    refine ⟨offer0, offer1, rfl, rfl, hused0, hused1, hwhole0, hwhole1, refund_eq_zero .., ?_, ?_⟩
    · intro hle
      rw [fitting_of_le hle]
      exact ⟨rfl, isGreatest_quotient _ h0⟩
    · intro hlt
      rw [fitting_of_lt hlt]
      exact ⟨worth_lt h0 h1 hlt, rfl, isGreatest_quotient _ h1⟩
  · intro offer0 ho0 offer1 ho1 hr0 hr1 fit
    refine ⟨optimalDeposit_overflows_iff ho0 ho1 ⟨h0, hr0⟩ ⟨h1, hr1⟩,
      optimalDeposit_belowMinimum_iff ho0 ho1 ⟨h0, hr0⟩ ⟨h1, hr1⟩, ?_⟩
    constructor
    · rintro ⟨taken, h⟩
      obtain ⟨hle, hused0, hused1, -⟩ :=
        (optimalDeposit_eq_ok ho0 ho1 ⟨h0, hr0⟩ ⟨h1, hr1⟩).1 h
      exact ⟨hle, hused0, hused1⟩
    · rintro ⟨hle, hused0, hused1⟩
      exact ⟨fit, (optimalDeposit_eq_ok ho0 ho1 ⟨h0, hr0⟩ ⟨h1, hr1⟩).2 ⟨hle, hused0, hused1, rfl⟩⟩

theorem deposit_keeps_ratio_second :
    0 < 3 ∧ 0 < 7 ∧ optimalDeposit 10 10 3 7 = .ok ⟨4, 10, 6, 0⟩ ∧
    IsGreatest {n : ℤ | n * (7 : ℕ) ≤ (10 * 3 : ℕ)} (4 : ℕ) ∧
    (∃ f, optimalDeposit 2 1 3 7 = .error f ∧ f.kind = .accounting .belowMinimum) := by
  have h := deposit_keeps_ratio (by decide : 0 < 3) (by decide : 0 < 7)
  have hsized : optimalDeposit 10 10 3 7 = .ok ⟨4, 10, 6, 0⟩ := by decide +kernel
  obtain ⟨offer0, offer1, ho0, ho1, -, -, -, -, -, -, hsecond⟩ := h.1 _ _ _ hsized
  cases ho0
  cases ho1
  refine ⟨by decide, by decide, hsized, (hsecond (by decide)).2.2, ?_⟩
  exact (h.2 2 (by decide +kernel) 1 (by decide +kernel) (by decide) (by decide)).2.1.2
    ⟨by decide, by decide⟩

/-- Where the worth of the first asset is no amount, an offer that is too small beside it is refused
for the overflow and not for its size. -/
theorem too_small_overflows :
    (fitting 2 1 1 maxAmount).used0 = 0 ∧
    optimalDeposit 2 1 1 maxAmount = .error (.aboveDomain (2 * maxAmount)) ∧
    ¬((∃ f, optimalDeposit 2 1 1 maxAmount = .error f ∧ f.kind = .accounting .belowMinimum) ↔
      (fitting 2 1 1 maxAmount).used0 = 0 ∨ (fitting 2 1 1 maxAmount).used1 = 0) := by
  have hused : (fitting 2 1 1 maxAmount).used0 = 0 := by decide +kernel
  have hrefused : optimalDeposit 2 1 1 maxAmount = .error (.aboveDomain (2 * maxAmount)) := by
    decide +kernel
  refine ⟨hused, hrefused, ?_⟩
  intro h
  obtain ⟨f, hf, hkind⟩ := h.2 (.inl hused)
  cases hrefused.symm.trans hf
  cases hkind

end PoolAccounting.Exchange

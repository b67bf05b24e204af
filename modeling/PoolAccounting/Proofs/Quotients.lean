import Mathlib
import PoolAccounting.Proofs.Regularity.Arithmetic

/-!
Quotients of integers and of products of amounts. A quotient is computed exactly and rounded, and only
then compared with the amount domain. Before that the operands are checked, and after them the divisor
for zero. Main statement: the answer is the one number that its rounding determines, and each kind of
refusal arises under one condition on the operands.
-/
namespace PoolAccounting

variable {α β : Type}

/-- The computation is refused, with an error of the family `e`. -/
def Refused (x : Except Fault α) (e : AccountingError) : Prop :=
  ∃ f, x = .error f ∧ f.kind = .accounting e

namespace Refused

variable {x : Except Fault α} {f : α → Except Fault β} {a : α} {e e' : AccountingError}

theorem bind (h : Refused x e) (f : α → Except Fault β) : Refused (x >>= f) e := by
  obtain ⟨fault, rfl, hkind⟩ := h
  exact ⟨fault, rfl, hkind⟩

theorem bind_ok (hx : x = .ok a) (h : Refused (f a) e) : Refused (x >>= f) e := by
  rw [hx]
  exact h

/-- A refusal is of one family. -/
theorem not_of_ne (h : Refused x e) (hne : e ≠ e') : ¬Refused x e' := by
  rintro ⟨fault, hx, hkind'⟩
  obtain ⟨_, rfl, hkind⟩ := h
  cases hx
  exact hne (FaultKind.accounting.inj (hkind.symm.trans hkind'))

theorem not_of_ok (hx : x = .ok a) : ¬Refused x e := by
  rintro ⟨fault, hfault, -⟩
  rw [hx] at hfault
  cases hfault

end Refused

section Rounding

variable {n c a b q r : ℤ}

theorem floor_unique (hc : 0 < c) : q * c ≤ n ∧ n < (q + 1) * c ↔ q = n / c := by
  rw [← Int.le_ediv_iff_mul_le hc, ← Int.ediv_lt_iff_lt_mul hc]
  omega

theorem ceil_unique (hc : 0 < c) :
    (q - 1) * c < n ∧ n ≤ q * c ↔ q = n / c + if c ∣ n then 0 else 1 := by
  split
  · next hdvd =>
    obtain ⟨k, rfl⟩ := hdvd
    rw [Int.mul_ediv_cancel_left k hc.ne', mul_comm c k, mul_lt_mul_iff_left₀ hc,
      mul_le_mul_iff_left₀ hc]
    omega
  · next hdvd =>
    -- the number is no multiple of the divisor, so it can be told from one strictly or not
    have hne : ∀ x, x * c ≠ n := fun x hx => hdvd ⟨x, by rw [← hx, mul_comm]⟩
    rw [← sub_eq_iff_eq_add, ← floor_unique hc, sub_add_cancel]
    exact and_congr ⟨le_of_lt, fun h => lt_of_le_of_ne h (hne _)⟩
      ⟨fun h => lt_of_le_of_ne h (hne q).symm, le_of_lt⟩

/-- Rounding up is a step from the floor, unless the division is without a rest. -/
theorem ceil_natCast (n d : ℕ) : ((if n % d = 0 then n / d else n / d + 1 : ℕ) : ℤ) =
    (n : ℤ) / d + if (d : ℤ) ∣ n then 0 else 1 := by
  simp only [Int.natCast_dvd_natCast, Nat.dvd_iff_mod_eq_zero]
  split
  · rw [add_zero, Int.natCast_ediv]
  · rw [Nat.cast_add, Int.natCast_ediv, Nat.cast_one]

theorem remainder_sign (h : r = 0 ∨ r.sign = a.sign) :
    (0 ≤ a → 0 ≤ r) ∧ (a ≤ 0 → r ≤ 0) := by
  rcases h with rfl | h
  · exact ⟨fun _ => le_rfl, fun _ => le_rfl⟩
  · rw [← Int.sign_nonneg_iff, ← Int.sign_nonpos_iff, ← h, Int.sign_nonneg_iff,
      Int.sign_nonpos_iff]
    exact ⟨id, id⟩

/-- Rounding toward zero is what leaves a remainder with the sign of the dividend. -/
theorem tdiv_tmod_iff (hb : b ≠ 0) : a.tdiv b = q ∧ a.tmod b = r ↔
    a = q * b + r ∧ |r| < |b| ∧ (r = 0 ∨ r.sign = a.sign) := by
  constructor
  · rintro ⟨rfl, rfl⟩
    refine ⟨?_, ?_, ?_⟩
    · rw [mul_comm, Int.mul_tdiv_add_tmod]
    · rw [Int.abs_eq_natAbs, Int.abs_eq_natAbs, Int.natAbs_tmod, Nat.cast_lt]
      exact Nat.mod_lt _ (Int.natAbs_pos.2 hb)
    · rw [← Int.sign_eq_zero_iff_zero, Int.sign_tmod]
      split
      · exact .inl rfl
      · exact .inr rfl
  · rintro ⟨hsum, hlt, hsign⟩
    obtain ⟨hnonneg, hnonpos⟩ := remainder_sign hsign
    rw [Int.abs_eq_natAbs, Int.abs_eq_natAbs] at hlt
    rw [add_comm, mul_comm] at hsum
    rcases le_total 0 a with ha | ha
    · have hr := hnonneg ha
      exact (Int.tdiv_tmod_unique ha hb).2 ⟨hsum.symm, hr, by omega⟩
    · have hr := hnonpos ha
      exact (Int.tdiv_tmod_unique' ha hb).2 ⟨hsum.symm, by omega, hr⟩

theorem trunc_unique (hb : b ≠ 0) :
    (∃ r, a = q * b + r ∧ |r| < |b| ∧ (r = 0 ∨ r.sign = a.sign)) ↔ q = a.tdiv b := by
  simp only [← tdiv_tmod_iff hb, exists_and_left, exists_eq', and_true]
  exact eq_comm

end Rounding

namespace Amount

/-- The integers that checked arithmetic takes. -/
abbrev domain : Set ℤ := Set.Icc minAmount maxAmount

/-- Those of them that are natural numbers. -/
abbrev naturals : Set ℤ := Set.Icc 0 maxAmount

end Amount

namespace Operand

open Amount

variable {n : ℤ}

theorem amount_of_mem (name : String) (h : n ∈ domain) : (n : Operand).amount name = .ok n :=
  amount_eq_ok.2 ⟨rfl, h⟩

theorem amount_refused (name : String) (h : n ∉ domain) :
    Refused ((n : Operand).amount name) .invalidAmount := by
  refine .bind_ok (integer_int name n) (.bind ?_ _)
  exact ⟨_, ensure_eq_error.2 ⟨h, rfl⟩, rfl⟩

theorem nonNegative_of_mem (name : String) (h : n ∈ naturals) :
    (n : Operand).nonNegative name = .ok n.toNat := by
  lift n to ℕ using h.1
  exact nonNegative_eq_ok.2 ⟨rfl, Nat.cast_le.1 h.2⟩

theorem nonNegative_refused (name : String) (h : n ∉ naturals) :
    Refused ((n : Operand).nonNegative name) .invalidAmount := by
  by_cases hn : n ∈ domain
  · refine .bind_ok (amount_of_mem name hn) (.bind ?_ _)
    exact ⟨_, ensure_eq_error.2 ⟨fun h0 => h ⟨h0, hn.2⟩, rfl⟩, rfl⟩
  · exact .bind (amount_refused name hn) _

end Operand

namespace Amount

open Operand

variable {a b c : ℤ}

section Division

/-- A quotient rounded toward zero is above the domain for one pair of operands only. -/
theorem tdiv_le_iff (ha : a ∈ domain) (h0 : b ≠ 0) :
    a.tdiv b ≤ maxAmount ↔ ¬(a = minAmount ∧ b = -1) := by
  have hmin : minAmount = -(maxAmount : ℤ) - 1 := by decide
  have hmax : (1 : ℤ) ≤ maxAmount := by decide
  obtain ⟨hlower, hupper⟩ := ha
  by_cases hb : b = -1
  · rw [hb, Int.tdiv_neg, Int.tdiv_one]
    omega
  refine iff_of_true ?_ fun h => hb h.2
  rcases le_total 0 a with hnonneg | hnonpos
  · exact (Int.tdiv_le_self b hnonneg).trans hupper
  -- both operands are negated, and a divisor of at least two halves the numerator
  rw [← Int.neg_tdiv_neg, Int.tdiv_eq_ediv_of_nonneg (by omega)]
  rcases lt_or_gt_of_ne h0 with hneg | hpos
  · refine Int.ediv_le_of_le_mul (by omega) ?_
    calc -a ≤ maxAmount * 2 := by omega
      _ ≤ maxAmount * -b := mul_le_mul_of_nonneg_left (by omega) (by omega)
  · exact (Int.ediv_nonpos_of_nonneg_of_nonpos (by omega) (by omega)).trans (by omega)

theorem div_outside (h : ¬(a ∈ domain ∧ b ∈ domain)) : Refused (div a b) .invalidAmount := by
  by_cases ha : a ∈ domain
  · refine .bind_ok (amount_of_mem "a" ha) ?_
    exact .bind (amount_refused "b" fun hb => h ⟨ha, hb⟩) _
  · exact .bind (amount_refused "a" ha) _

theorem div_zero (ha : a ∈ domain) : Refused (div a (0 : ℤ)) .divisionByZero := by
  have h0 : (0 : ℤ) ∈ domain := by decide
  refine .bind_ok (amount_of_mem "a" ha) (.bind_ok (amount_of_mem "b" h0) (.bind ?_ _))
  exact ⟨_, ensure_eq_error.2 ⟨not_not.2 rfl, rfl⟩, rfl⟩

theorem div_eq (ha : a ∈ domain) (hb : b ∈ domain) (h0 : b ≠ 0) : div a b =
    if a = minAmount ∧ b = -1 then .error (.quotientOutside a b) else .ok (a.tdiv b) := by
  rw [div, amount_of_mem "a" ha, ok_bind, amount_of_mem "b" hb, ok_bind,
    (ensure_eq_ok (u := ())).2 h0, ok_bind]
  have hle := tdiv_le_iff ha h0
  split
  · next h =>
    rw [ensure_eq_error.2 ⟨fun hq => hle.1 hq h, rfl⟩, error_bind]
  · next h =>
    rw [(ensure_eq_ok (u := ())).2 (hle.2 h), ok_bind]
    rfl

/-- What becomes of a division, in the order of its checks. -/
theorem div_cases (a b : ℤ) :
    (¬(a ∈ domain ∧ b ∈ domain) ∧ Refused (div a b) .invalidAmount) ∨
    (a ∈ domain ∧ b = 0 ∧ Refused (div a b) .divisionByZero) ∨
    (a = minAmount ∧ b = -1 ∧ Refused (div a b) .overflow) ∨
    (a ∈ domain ∧ b ∈ domain ∧ b ≠ 0 ∧ ¬(a = minAmount ∧ b = -1) ∧
      div a b = .ok (a.tdiv b)) := by
  by_cases hin : a ∈ domain ∧ b ∈ domain
  · right
    obtain ⟨ha, hb⟩ := hin
    by_cases h0 : b = 0
    · subst h0
      exact .inl ⟨ha, rfl, div_zero ha⟩
    · right
      have hdiv := div_eq ha hb h0
      split at hdiv
      · next h => exact .inl ⟨h.1, h.2, _, hdiv, rfl⟩
      · next h => exact .inr ⟨ha, hb, h0, h, hdiv⟩
  · exact .inl ⟨hin, div_outside hin⟩

theorem div_overflow_iff : Refused (div a b) .overflow ↔ a = minAmount ∧ b = -1 := by
  rcases div_cases a b with ⟨hout, h⟩ | ⟨-, rfl, h⟩ | ⟨ha, hb, h⟩ | ⟨-, -, -, hne, h⟩
  · have hin : minAmount ∈ domain ∧ -1 ∈ domain := by decide
    refine iff_of_false (h.not_of_ne (by decide)) ?_
    rintro ⟨rfl, rfl⟩
    exact hout hin
  · exact iff_of_false (h.not_of_ne (by decide)) (by simp)
  · exact iff_of_true h ⟨ha, hb⟩
  · exact iff_of_false (Refused.not_of_ok h) hne

theorem div_invalidAmount_iff :
    Refused (div a b) .invalidAmount ↔ ¬(a ∈ domain ∧ b ∈ domain) := by
  rcases div_cases a b with ⟨hout, h⟩ | ⟨ha, rfl, h⟩ | ⟨rfl, rfl, h⟩ | ⟨ha, hb, -, -, h⟩
  · exact iff_of_true h hout
  · have h0 : (0 : ℤ) ∈ domain := by decide
    exact iff_of_false (h.not_of_ne (by decide)) (not_not.2 ⟨ha, h0⟩)
  · exact iff_of_false (h.not_of_ne (by decide)) (by decide)
  · exact iff_of_false (Refused.not_of_ok h) (not_not.2 ⟨ha, hb⟩)

theorem div_divisionByZero_iff : Refused (div a b) .divisionByZero ↔ a ∈ domain ∧ b = 0 := by
  rcases div_cases a b with ⟨hout, h⟩ | ⟨ha, hb, h⟩ | ⟨rfl, rfl, h⟩ | ⟨-, -, h0, -, h⟩
  · refine iff_of_false (h.not_of_ne (by decide)) ?_
    rintro ⟨ha, rfl⟩
    exact hout ⟨ha, by decide⟩
  · exact iff_of_true h ⟨ha, hb⟩
  · exact iff_of_false (h.not_of_ne (by decide)) (by decide)
  · exact iff_of_false (Refused.not_of_ok h) fun hz => h0 hz.2

end Division

section Ratio

theorem ratio_outside (h : ¬(a ∈ naturals ∧ b ∈ naturals ∧ c ∈ naturals)) :
    Refused (ratio a b c) .invalidAmount := by
  by_cases ha : a ∈ naturals
  · refine .bind_ok (nonNegative_of_mem "a" ha) ?_
    by_cases hb : b ∈ naturals
    · refine .bind_ok (nonNegative_of_mem "b" hb) ?_
      exact .bind (nonNegative_refused "c" fun hc => h ⟨ha, hb, hc⟩) _
    · exact .bind (nonNegative_refused "b" hb) _
  · exact .bind (nonNegative_refused "a" ha) _

theorem ratio_zero (ha : a ∈ naturals) (hb : b ∈ naturals) :
    Refused (ratio a b (0 : ℤ)) .divisionByZero := by
  have h0 : (0 : ℤ) ∈ naturals := by decide
  refine .bind_ok (nonNegative_of_mem "a" ha) (.bind_ok (nonNegative_of_mem "b" hb)
    (.bind_ok (nonNegative_of_mem "c" h0) (.bind ?_ _)))
  exact ⟨_, ensure_eq_error.2 ⟨not_not.2 rfl, rfl⟩, rfl⟩

/-- The quotient of a product, rounded and then checked. -/
def quotient (round : ℕ → ℕ → ℕ) (a b c : Operand) : Except Fault ℕ := do
  let (n, d) ← ratio a b c
  checkedNat (round n d)

theorem mulDivDown_eq_quotient : mulDivDown = quotient fun n d => n / d := rfl

theorem mulDivUp_eq_quotient :
    mulDivUp = quotient fun n d => if n % d = 0 then n / d else n / d + 1 := rfl

variable (round : ℕ → ℕ → ℕ)

/-- The product may be of any size. -/
theorem quotient_natCast {m n d : ℕ} (hm : m ≤ maxAmount) (hn : n ≤ maxAmount)
    (hd : d ≤ maxAmount) (h0 : d ≠ 0) :
    if round (m * n) d ≤ maxAmount then quotient round m n d = .ok (round (m * n) d)
    else Refused (quotient round m n d) .overflow := by
  have hratio : ratio m n d = .ok (m * n, d) :=
    ratio_eq_ok.2 ⟨m, n, rfl, rfl, rfl, rfl, hm, hn, hd, h0⟩
  split
  · next hle =>
    rw [quotient, hratio]
    exact checkedNat_eq_ok.2 ⟨rfl, hle⟩
  · next hlt =>
    exact .bind_ok hratio ⟨_, checkedNat_overflows (not_le.1 hlt), rfl⟩

/-- What becomes of a rounded quotient, in the order of its checks. -/
theorem quotient_cases (a b c : ℤ) :
    (¬(a ∈ naturals ∧ b ∈ naturals ∧ c ∈ naturals) ∧
      Refused (quotient round a b c) .invalidAmount) ∨
    (a ∈ naturals ∧ b ∈ naturals ∧ c = 0 ∧ Refused (quotient round a b c) .divisionByZero) ∨
    (a ∈ naturals ∧ b ∈ naturals ∧ c ∈ naturals ∧ c ≠ 0 ∧
      (Refused (quotient round a b c) .overflow ∨ ∃ q, quotient round a b c = .ok q)) := by
  by_cases hin : a ∈ naturals ∧ b ∈ naturals ∧ c ∈ naturals
  · right
    obtain ⟨ha, hb, hc⟩ := hin
    by_cases h0 : c = 0
    · subst h0
      exact .inl ⟨ha, hb, rfl, .bind (ratio_zero ha hb) _⟩
    · refine .inr ⟨ha, hb, hc, h0, ?_⟩
      lift a to ℕ using ha.1
      lift b to ℕ using hb.1
      lift c to ℕ using hc.1
      have h := quotient_natCast round (Nat.cast_le.1 ha.2) (Nat.cast_le.1 hb.2)
        (Nat.cast_le.1 hc.2) (Nat.cast_ne_zero.1 h0)
      split at h
      · exact .inr ⟨_, h⟩
      · exact .inl h
  · exact .inl ⟨hin, .bind (ratio_outside hin) _⟩

theorem quotient_invalidAmount_iff : Refused (quotient round a b c) .invalidAmount ↔
    ¬(a ∈ naturals ∧ b ∈ naturals ∧ c ∈ naturals) := by
  rcases quotient_cases round a b c with ⟨hout, h⟩ | ⟨ha, hb, rfl, h⟩ | ⟨ha, hb, hc, -, h | h⟩
  · exact iff_of_true h hout
  · have h0 : (0 : ℤ) ∈ naturals := by decide
    exact iff_of_false (h.not_of_ne (by decide)) (not_not.2 ⟨ha, hb, h0⟩)
  · exact iff_of_false (h.not_of_ne (by decide)) (not_not.2 ⟨ha, hb, hc⟩)
  · exact iff_of_false (Refused.not_of_ok h.choose_spec) (not_not.2 ⟨ha, hb, hc⟩)

theorem quotient_divisionByZero_iff : Refused (quotient round a b c) .divisionByZero ↔
    a ∈ naturals ∧ b ∈ naturals ∧ c = 0 := by
  rcases quotient_cases round a b c with ⟨hout, h⟩ | ⟨ha, hb, hc, h⟩ | ⟨-, -, -, h0, h | h⟩
  · refine iff_of_false (h.not_of_ne (by decide)) ?_
    rintro ⟨ha, hb, rfl⟩
    exact hout ⟨ha, hb, by decide⟩
  · exact iff_of_true h ⟨ha, hb, hc⟩
  · exact iff_of_false (h.not_of_ne (by decide)) fun hz => h0 hz.2.2
  · exact iff_of_false (Refused.not_of_ok h.choose_spec) fun hz => h0 hz.2.2

end Ratio

/-- Checked quotients are exact. A product of natural amounts over a positive one is answered with its
floor or its ceiling just if that is an amount, whatever the size of the product, and refused for an
overflow otherwise; a division is answered with the quotient rounded toward zero but for one pair of
operands. An operand outside the domain is found before a divisor that is zero. -/
theorem quotients_exact (a b c : ℤ) :
    (a ∈ naturals → b ∈ naturals → c ∈ naturals → 0 < c → ∃ down up : ℕ,
      (∀ q : ℤ, q * c ≤ a * b ∧ a * b < (q + 1) * c ↔ q = down) ∧
      (∀ q : ℤ, (q - 1) * c < a * b ∧ a * b ≤ q * c ↔ q = up) ∧
      (up : ℤ) - down = (if c ∣ a * b then 0 else 1) ∧
      (if down ≤ maxAmount then mulDivDown a b c = .ok down
        else Refused (mulDivDown a b c) .overflow) ∧
      if up ≤ maxAmount then mulDivUp a b c = .ok up
        else Refused (mulDivUp a b c) .overflow) ∧
    (∀ divide ∈ [mulDivDown, mulDivUp],
      (Refused (divide a b c) .invalidAmount ↔
        ¬(a ∈ naturals ∧ b ∈ naturals ∧ c ∈ naturals)) ∧
      (Refused (divide a b c) .divisionByZero ↔ a ∈ naturals ∧ b ∈ naturals ∧ c = 0)) ∧
    (a ∈ domain → b ∈ domain → b ≠ 0 → ¬(a = minAmount ∧ b = -1) → ∃ quotient : ℤ,
      (∀ q, (∃ r, a = q * b + r ∧ |r| < |b| ∧ (r = 0 ∨ r.sign = a.sign)) ↔ q = quotient) ∧
      div a b = .ok quotient) ∧
    (Refused (div a b) .overflow ↔ a = minAmount ∧ b = -1) ∧
    (Refused (div a b) .invalidAmount ↔ ¬(a ∈ domain ∧ b ∈ domain)) ∧
    (Refused (div a b) .divisionByZero ↔ a ∈ domain ∧ b = 0) := by
  refine ⟨fun ha hb hc h0 => ?_, ?_, fun ha hb h0 hne => ?_, div_overflow_iff,
    div_invalidAmount_iff, div_divisionByZero_iff⟩
  · lift a to ℕ using ha.1
    lift b to ℕ using hb.1
    lift c to ℕ using hc.1
    have hquotient := fun round => quotient_natCast round (Nat.cast_le.1 ha.2) (Nat.cast_le.1 hb.2)
      (Nat.cast_le.1 hc.2) (Nat.cast_ne_zero.1 h0.ne')
    have hdown := hquotient fun n d => n / d
    have hup := hquotient fun n d => if n % d = 0 then n / d else n / d + 1
    have hceil := ceil_natCast (a * b) c
    rw [Nat.cast_mul] at hceil
    refine ⟨a * b / c, if a * b % c = 0 then a * b / c else a * b / c + 1, fun q => ?_, fun q => ?_,
      ?_, hdown, hup⟩
    · rw [floor_unique h0, Int.natCast_ediv, Nat.cast_mul]
    · rw [ceil_unique h0, hceil]
    · rw [hceil, Int.natCast_ediv, Nat.cast_mul, add_sub_cancel_left]
  · simp only [List.forall_mem_cons, List.not_mem_nil, false_imp_iff, implies_true, and_true,
      mulDivDown_eq_quotient, mulDivUp_eq_quotient]
    exact ⟨⟨quotient_invalidAmount_iff _, quotient_divisionByZero_iff _⟩,
      quotient_invalidAmount_iff _, quotient_divisionByZero_iff _⟩
  · exact ⟨a.tdiv b, fun q => trunc_unique h0, by rw [div_eq ha hb h0, if_neg hne]⟩

/-- A product wider than every amount is answered with the largest one; one step up, it is refused. A
negative quotient is rounded toward zero, and the least amount has no opposite. -/
theorem quotients_exact_at_top :
    let a : ℤ := 18446744073709551615
    let b : ℤ := 18446744073709551617
    maxAmount < a * b ∧ mulDivDown a b (2 : ℤ) = .ok maxAmount ∧
      Refused (mulDivUp a b (2 : ℤ)) .overflow ∧ div (-7 : ℤ) (2 : ℤ) = .ok (-3) ∧
      Refused (div minAmount (-1 : ℤ)) .overflow ∧
      Refused (div (maxAmount + 1 : ℤ) (0 : ℤ)) .invalidAmount := by
  intro a b
  obtain ⟨hproduct, -⟩ := quotients_exact a b 2
  obtain ⟨down, up, hfloor, hceil, -, hdown, hup⟩ :=
    hproduct (by decide) (by decide) (by decide) (by decide)
  obtain rfl : maxAmount = down := Nat.cast_inj.1 ((hfloor maxAmount).1 (by decide))
  obtain rfl : maxAmount + 1 = up := Nat.cast_inj.1 ((hceil (maxAmount + 1 : ℕ)).1 (by decide))
  obtain ⟨-, -, hquotient, -⟩ := quotients_exact (-7) 2 1
  obtain ⟨q, htrunc, hdiv⟩ := hquotient (by decide) (by decide) (by decide) (by decide)
  obtain rfl : -3 = q := (htrunc (-3)).1 ⟨-1, by decide⟩
  obtain ⟨-, -, -, hoverflow, -⟩ := quotients_exact minAmount (-1) 1
  obtain ⟨-, -, -, -, hinvalid, -⟩ := quotients_exact (maxAmount + 1) 0 1
  refine ⟨by decide, ?_, ?_, hdiv, hoverflow.2 ⟨rfl, rfl⟩, hinvalid.2 (by decide)⟩
  · rwa [if_pos le_rfl] at hdown
  · rwa [if_neg (by decide)] at hup

end Amount

end PoolAccounting

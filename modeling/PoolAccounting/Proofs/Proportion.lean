import Mathlib
import PoolAccounting.BasisPoints
import PoolAccounting.Proofs.Regularity.Arithmetic

/-!
A part in proportion to a total. The proportion is rounded down before it is compared with the whole,
so a part above the total is refused only if the excess comes to a basis point of the total; a part
with a smaller excess is answered as the whole.
-/
namespace PoolAccounting.BasisPoints

open Amount

variable {part total : ℕ}

/-- The proportion in whole basis points, whatever its size. -/
def points (part total : ℕ) : ℕ := part * bpsDenominator / total

theorem points_le_iff (h0 : 0 < total) :
    points part total ≤ bpsDenominator ↔ bpsDenominator * (part - total) < total := by
  rw [points, ← Nat.lt_succ_iff, Nat.div_lt_iff_lt_mul h0]
  simp only [bpsDenominator]
  omega

theorem points_le_maxAmount_iff (h0 : 0 < total) :
    points part total ≤ maxAmount ↔ part * bpsDenominator < (maxAmount + 1) * total := by
  rw [points, ← Nat.lt_succ_iff, Nat.div_lt_iff_lt_mul h0]

theorem points_bounds (part : ℕ) (h0 : 0 < total) :
    points part total * total ≤ part * bpsDenominator ∧
      part * bpsDenominator < (points part total + 1) * total :=
  ⟨Nat.div_mul_le_self _ _, (Nat.div_lt_iff_lt_mul h0).1 (Nat.lt_succ_self _)⟩

/-- A proportion that is at most the whole is the whole for every part from the total on. -/
theorem points_eq_whole (h0 : 0 < total) (h : total ≤ part)
    (hle : points part total ≤ bpsDenominator) : points part total = bpsDenominator := by
  apply le_antisymm hle
  rw [points, Nat.le_div_iff_mul_le h0, Nat.mul_comm]
  exact Nat.mul_le_mul_right bpsDenominator h

theorem proportion_eq (hpart : part ≤ maxAmount) (htotal : total ≤ maxAmount) (h0 : 0 < total) :
    proportion part total =
      if points part total ≤ bpsDenominator then .ok (points part total)
      else if points part total ≤ maxAmount then .error (.partExceedsTotal part total)
      else .error (.aboveDomain (points part total : ℕ)) := by
  have hwhole : bpsDenominator ≤ maxAmount := by decide
  rw [proportion, Operand.nonNegative_eq_ok.2 ⟨rfl, hpart⟩, ok_bind,
    Operand.nonNegative_eq_ok.2 ⟨rfl, htotal⟩, ok_bind]
  rcases Nat.lt_or_ge maxAmount (points part total) with hover | hfits
  · rw [mulDivDown_overflows hpart hwhole htotal h0.ne' hover, error_bind, if_neg (by omega),
      if_neg hover.not_ge]
    rfl
  · rw [mulDivDown_eq_ok.2 ⟨rfl, hpart, hwhole, htotal, h0.ne', hfits⟩, ok_bind, if_pos hfits]
    change (ensure (points part total ≤ bpsDenominator) _ >>= _) = _
    unfold ensure
    split <;> rfl

/-- The refusal for an excess comes where the excess is a basis point of the total or more, as long as
the proportion is an amount; where it is none, the refusal is an overflow. All other parts are
answered with their proportion rounded down, and those among them that reach or exceed the total with
the whole. -/
theorem excess_refused_iff (hpart : part ≤ maxAmount) (htotal : total ≤ maxAmount)
    (h0 : 0 < total) :
    ((∃ f, proportion part total = .error f ∧ f.kind = .accounting .invalidBps) ↔
      total ≤ bpsDenominator * (part - total) ∧
        part * bpsDenominator < (maxAmount + 1) * total) ∧
    ((∃ f, proportion part total = .error f ∧ f.kind = .accounting .overflow) ↔
      (maxAmount + 1) * total ≤ part * bpsDenominator) ∧
    ((∃ b, proportion part total = .ok b) ↔ bpsDenominator * (part - total) < total) ∧
    ∀ b, proportion part total = .ok b → b ≤ bpsDenominator ∧
      b * total ≤ part * bpsDenominator ∧ part * bpsDenominator < (b + 1) * total ∧
      (total ≤ part → b = bpsDenominator) := by
  have hwhole : bpsDenominator ≤ maxAmount := by decide
  rw [← points_le_maxAmount_iff h0, ← not_lt (b := (maxAmount + 1) * total),
    ← points_le_maxAmount_iff h0, ← not_lt (b := total), ← points_le_iff h0,
    proportion_eq hpart htotal h0]
  split
  · next hle =>
    refine ⟨by simp [hle], by simp [hle.trans hwhole], by simp [hle], ?_⟩
    rintro _ ⟨⟩
    obtain ⟨hlower, hupper⟩ := points_bounds part h0
    exact ⟨hle, hlower, hupper, fun h => points_eq_whole h0 h hle⟩
  · next hgt =>
    split
    · next hfits => simp [hgt, hfits, Fault.kind]
    · next hover => simp [hgt, hover, Fault.kind]

theorem excess_refused_iff_one_point :
    10001 ≤ maxAmount ∧ 10000 ≤ maxAmount ∧ 0 < 10000 ∧
      (∃ f, proportion 10001 10000 = .error f ∧ f.kind = .accounting .invalidBps) ∧
      proportion 10000 10000 = .ok 10000 ∧ 10000 * 10000 ≤ 10000 * bpsDenominator := by
  have hpart : 10001 ≤ maxAmount := by decide
  have htotal : 10000 ≤ maxAmount := by decide
  have hok : proportion 10000 10000 = .ok 10000 := by decide +kernel
  exact ⟨hpart, htotal, by decide, (excess_refused_iff hpart htotal (by decide)).1.2 (by decide), hok,
    ((excess_refused_iff htotal htotal (by decide)).2.2.2 _ hok).2.1⟩

/-- A part that exceeds the total by less than a basis point is answered as the whole. -/
theorem excess_answered : 20000 < 20001 ∧ 20001 ≤ maxAmount ∧
    proportion 20001 20000 = .ok bpsDenominator ∧
      ¬∃ f, proportion 20001 20000 = .error f := by
  have hok : proportion 20001 20000 = .ok bpsDenominator := by decide +kernel
  exact ⟨by decide, by decide, hok, by simp [hok]⟩

end PoolAccounting.BasisPoints

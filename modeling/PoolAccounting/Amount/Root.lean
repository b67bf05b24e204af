import PoolAccounting.Operand

/-!
The integer square root, computed two binary digits at a time.
-/
namespace PoolAccounting.Amount

/-- The root of `n` from its last `steps` digits to the base four. -/
def rootSteps : Nat → Nat → Nat
  | 0, _ => 0
  | steps + 1, n =>
    let r := 2 * rootSteps steps (n / 4)
    if (r + 1) * (r + 1) ≤ n then r + 1 else r

/-- The largest number whose square is at most `n`. -/
def floorSqrt (n : Nat) : Nat := rootSteps (n.log2 / 2 + 1) n

theorem rootSteps_bounds (steps n : Nat) (h : n < Nat.pow 4 steps) :
    rootSteps steps n * rootSteps steps n ≤ n ∧
      n < (rootSteps steps n + 1) * (rootSteps steps n + 1) := by
  induction steps generalizing n with
  | zero =>
    have hp : Nat.pow 4 0 = 1 := rfl
    have hn : n = 0 := by omega
    subst hn
    decide
  | succ steps ih =>
    have hp : Nat.pow 4 (steps + 1) = Nat.pow 4 steps * 4 := rfl
    have hn : n / 4 < Nat.pow 4 steps := by omega
    obtain ⟨lo, hi⟩ := ih (n / 4) hn
    simp only [rootSteps]
    generalize rootSteps steps (n / 4) = r at lo hi ⊢
    have e1 : 2 * r * (2 * r) = 4 * (r * r) := by grind
    have e2 : (2 * r + 1 + 1) * (2 * r + 1 + 1) = 4 * ((r + 1) * (r + 1)) := by grind
    split
    · exact ⟨by assumption, by rw [e2]; omega⟩
    · exact ⟨by rw [e1]; omega, by omega⟩

theorem floorSqrt_bounds (n : Nat) :
    floorSqrt n * floorSqrt n ≤ n ∧ n < (floorSqrt n + 1) * (floorSqrt n + 1) := by
  apply rootSteps_bounds
  rcases Nat.eq_zero_or_pos n with rfl | h
  · simp
  · calc n < 2 ^ (n.log2 + 1) := Nat.lt_log2_self
      _ ≤ 2 ^ (2 * (n.log2 / 2 + 1)) := Nat.pow_le_pow_right (by omega) (by omega)
      _ = 4 ^ (n.log2 / 2 + 1) := by rw [Nat.pow_mul]
      _ = Nat.pow 4 (n.log2 / 2 + 1) := rfl

/-- The integer square root of an amount. -/
def sqrt (value : Operand) : Except Fault Nat := do
  let n ← value.nonNegative "value"
  pure (floorSqrt n)

end PoolAccounting.Amount

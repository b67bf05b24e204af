import PoolAccounting.Operand

/-!
Checked arithmetic on amounts. Each result is computed exactly and only then compared with the
amount domain, so nothing wraps or is cut off; of a product that is divided only the quotient has
to fit.
-/
namespace PoolAccounting.Amount

/-- One whole token in the smallest unit. -/
def oneToken : Nat := 10000000

/-- The scale of fixed-point rates and prices. -/
def precision : Nat := 1000000000000000000

def checked (v : Int) : Except Fault Int := do
  ensure (v ≤ maxAmount) (.aboveDomain v)
  ensure (minAmount ≤ v) (.belowDomain v)
  pure v

def add (a b : Operand) : Except Fault Int := do
  let a ← a.amount "a"
  let b ← b.amount "b"
  checked (a + b)

/-- The difference, which may not be negative. -/
def sub (a b : Operand) : Except Fault Nat := do
  let a ← a.amount "a"
  let b ← b.amount "b"
  ensure (0 ≤ a - b) (.negativeDifference a b)
  let d ← checked (a - b)
  pure d.toNat

def mul (a b : Operand) : Except Fault Int := do
  let a ← a.amount "a"
  let b ← b.amount "b"
  ensure (minAmount ≤ a * b ∧ a * b ≤ maxAmount) (.productOutside a b)
  pure (a * b)

/-- The quotient rounded toward zero. -/
def div (a b : Operand) : Except Fault Int := do
  let a ← a.amount "a"
  let b ← b.amount "b"
  ensure (b ≠ 0) (.zeroDivisor a)
  ensure (a.tdiv b ≤ maxAmount) (.quotientOutside a b)
  pure (a.tdiv b)

def addNat (a b : Nat) : Except Fault Nat := do
  let s ← add a b
  pure s.toNat

def mulNat (a b : Nat) : Except Fault Nat := do
  let p ← mul a b
  pure p.toNat

/-- The exact product `a * b` beside the divisor `c`, once all three are amounts and `c` is not
zero. -/
def ratio (a b c : Operand) : Except Fault (Nat × Nat) := do
  let a ← a.nonNegative "a"
  let b ← b.nonNegative "b"
  let c ← c.nonNegative "c"
  ensure (c ≠ 0) (.zeroRatio a b)
  pure (a * b, c)

def checkedNat (n : Nat) : Except Fault Nat := do
  let v ← checked n
  pure v.toNat

def mulDivDown (a b c : Operand) : Except Fault Nat := do
  let (n, d) ← ratio a b c
  checkedNat (n / d)

def mulDivUp (a b c : Operand) : Except Fault Nat := do
  let (n, d) ← ratio a b c
  checkedNat (if n % d = 0 then n / d else n / d + 1)

theorem checked_eq_ok {v w : Int} :
    checked v = .ok w ↔ v = w ∧ minAmount ≤ v ∧ v ≤ maxAmount := by
  simp only [checked, bind_eq_ok, ensure_eq_ok, pure, Except.pure, Except.ok.injEq]
  exact ⟨fun ⟨_, h, _, l, e⟩ => ⟨e, l, h⟩, fun ⟨e, l, h⟩ => ⟨(), h, (), l, e⟩⟩

theorem checkedNat_eq_ok {n m : Nat} : checkedNat n = .ok m ↔ n = m ∧ n ≤ maxAmount := by
  simp only [checkedNat, bind_eq_ok, checked_eq_ok, pure, Except.pure, Except.ok.injEq]
  constructor
  · rintro ⟨_, ⟨rfl, -, h⟩, rfl⟩; exact ⟨by simp, by omega⟩
  · rintro ⟨rfl, h⟩; exact ⟨n, ⟨rfl, by simp [minAmount], by omega⟩, by simp⟩

theorem add_eq_ok {a b : Operand} {c : Int} :
    add a b = .ok c ↔ ∃ m n : Int, a = m ∧ b = n ∧ c = m + n ∧ minAmount ≤ m ∧ m ≤ maxAmount ∧
      minAmount ≤ n ∧ n ≤ maxAmount ∧ minAmount ≤ m + n ∧ m + n ≤ maxAmount := by
  simp only [add, bind_eq_ok, Operand.amount_eq_ok, checked_eq_ok]
  constructor
  · rintro ⟨m, ⟨rfl, h1, h2⟩, n, ⟨rfl, h3, h4⟩, rfl, h5, h6⟩
    exact ⟨m, n, rfl, rfl, rfl, h1, h2, h3, h4, h5, h6⟩
  · rintro ⟨m, n, rfl, rfl, rfl, h1, h2, h3, h4, h5, h6⟩
    exact ⟨m, ⟨rfl, h1, h2⟩, n, ⟨rfl, h3, h4⟩, rfl, h5, h6⟩

theorem add_natCast_eq_ok {a b : Nat} {c : Int} :
    add a b = .ok c ↔ c = (a + b : Nat) ∧ a + b ≤ maxAmount := by
  simp only [add_eq_ok, Operand.int.injEq]
  constructor
  · rintro ⟨m, n, rfl, rfl, rfl, -, -, -, -, -, h⟩; omega
  · rintro ⟨rfl, h⟩
    exact ⟨a, b, rfl, rfl, rfl, by simp [minAmount], by omega, by simp [minAmount], by omega,
      by simp [minAmount]; omega, by omega⟩

theorem addNat_eq_ok {a b c : Nat} : addNat a b = .ok c ↔ c = a + b ∧ a + b ≤ maxAmount := by
  simp only [addNat, bind_eq_ok, add_natCast_eq_ok, pure, Except.pure, Except.ok.injEq]
  constructor
  · rintro ⟨_, ⟨rfl, h⟩, rfl⟩; exact ⟨rfl, h⟩
  · rintro ⟨rfl, h⟩; exact ⟨_, ⟨rfl, h⟩, rfl⟩

theorem sub_natCast_eq_ok {a b c : Nat} :
    sub a b = .ok c ↔ c = a - b ∧ b ≤ a ∧ a ≤ maxAmount := by
  simp only [sub, bind_eq_ok, Operand.amount_eq_ok, checked_eq_ok, ensure_eq_ok, pure,
    Except.pure, Except.ok.injEq, Operand.int.injEq]
  constructor
  · rintro ⟨_, ⟨rfl, -, h1⟩, _, ⟨rfl, -, -⟩, -, h2, _, ⟨rfl, -, -⟩, rfl⟩; omega
  · rintro ⟨rfl, h1, h2⟩
    exact ⟨a, ⟨rfl, by simp [minAmount], by omega⟩, b, ⟨rfl, by simp [minAmount], by omega⟩, (),
      by omega, a - b, ⟨by omega, by simp [minAmount]; omega, by omega⟩, by omega⟩

theorem mul_natCast_eq_ok {a b : Nat} {c : Int} : mul a b = .ok c ↔
    c = (a * b : Nat) ∧ a ≤ maxAmount ∧ b ≤ maxAmount ∧ a * b ≤ maxAmount := by
  simp only [mul, bind_eq_ok, Operand.amount_eq_ok, ensure_eq_ok, pure, Except.pure,
    Except.ok.injEq, Operand.int.injEq]
  constructor
  · rintro ⟨_, ⟨rfl, -, h1⟩, _, ⟨rfl, -, h2⟩, -, ⟨-, h3⟩, rfl⟩
    exact ⟨rfl, by omega, by omega, by exact_mod_cast h3⟩
  · rintro ⟨rfl, h1, h2, h3⟩
    refine ⟨a, ⟨rfl, by simp [minAmount], by omega⟩, b, ⟨rfl, by simp [minAmount],
      by omega⟩, (), ⟨?_, by exact_mod_cast h3⟩, rfl⟩
    have := Int.natCast_nonneg (a * b)
    rw [← Int.natCast_mul]
    unfold minAmount
    omega

theorem mulNat_eq_ok {a b c : Nat} : mulNat a b = .ok c ↔
    c = a * b ∧ a ≤ maxAmount ∧ b ≤ maxAmount ∧ a * b ≤ maxAmount := by
  simp only [mulNat, bind_eq_ok, mul_natCast_eq_ok, pure, Except.pure, Except.ok.injEq]
  constructor
  · rintro ⟨_, ⟨rfl, h⟩, rfl⟩; exact ⟨rfl, h⟩
  · rintro ⟨rfl, h⟩; exact ⟨_, ⟨rfl, h⟩, rfl⟩

theorem ratio_eq_ok {a b c : Operand} {n d : Nat} : ratio a b c = .ok (n, d) ↔
    ∃ x y : Nat, a = x ∧ b = y ∧ c = d ∧ n = x * y ∧ x ≤ maxAmount ∧ y ≤ maxAmount ∧
      d ≤ maxAmount ∧ d ≠ 0 := by
  simp only [ratio, bind_eq_ok, Operand.nonNegative_eq_ok, ensure_eq_ok, pure, Except.pure,
    Except.ok.injEq, Prod.mk.injEq]
  constructor
  · rintro ⟨x, ⟨rfl, hx⟩, y, ⟨rfl, hy⟩, z, ⟨rfl, hz⟩, -, h0, rfl, rfl⟩
    exact ⟨x, y, rfl, rfl, rfl, rfl, hx, hy, hz, h0⟩
  · rintro ⟨x, y, rfl, rfl, rfl, rfl, hx, hy, hz, h0⟩
    exact ⟨x, ⟨rfl, hx⟩, y, ⟨rfl, hy⟩, d, ⟨rfl, hz⟩, (), h0, rfl, rfl⟩

theorem mulDivDown_eq_ok {a b c q : Nat} : mulDivDown a b c = .ok q ↔
    q = a * b / c ∧ a ≤ maxAmount ∧ b ≤ maxAmount ∧ c ≤ maxAmount ∧ c ≠ 0 ∧ q ≤ maxAmount := by
  simp only [mulDivDown, bind_eq_ok, Prod.exists, ratio_eq_ok, checkedNat_eq_ok,
    Operand.int.injEq, Int.natCast_inj]
  constructor
  · rintro ⟨_, _, ⟨x, y, rfl, rfl, rfl, rfl, hx, hy, hz, h0⟩, rfl, h⟩
    exact ⟨rfl, hx, hy, hz, h0, h⟩
  · rintro ⟨rfl, hx, hy, hz, h0, h⟩
    exact ⟨_, _, ⟨a, b, rfl, rfl, rfl, rfl, hx, hy, hz, h0⟩, rfl, h⟩

theorem mulDivUp_eq_ok {a b c q : Nat} : mulDivUp a b c = .ok q ↔
    q = (if a * b % c = 0 then a * b / c else a * b / c + 1) ∧ a ≤ maxAmount ∧ b ≤ maxAmount ∧
      c ≤ maxAmount ∧ c ≠ 0 ∧ q ≤ maxAmount := by
  simp only [mulDivUp, bind_eq_ok, Prod.exists, ratio_eq_ok, checkedNat_eq_ok,
    Operand.int.injEq, Int.natCast_inj]
  constructor
  · rintro ⟨_, _, ⟨x, y, rfl, rfl, rfl, rfl, hx, hy, hz, h0⟩, rfl, h⟩
    exact ⟨rfl, hx, hy, hz, h0, h⟩
  · rintro ⟨rfl, hx, hy, hz, h0, h⟩
    exact ⟨_, _, ⟨a, b, rfl, rfl, rfl, rfl, hx, hy, hz, h0⟩, rfl, h⟩

end PoolAccounting.Amount

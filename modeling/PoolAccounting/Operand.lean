import PoolAccounting.Fault

/-!
Values handed to an operation from outside and the checks on them. An operand need not be an
integer; an operation that is given one which is not refuses it when its turn comes, so the checks
of one operation run in the order in which they are written.
-/
namespace PoolAccounting

/-- The largest amount: the top of the signed 128-bit range. -/
def maxAmount : Nat := (1 <<< 127) - 1

def minAmount : Int := -(1 <<< 127 : Nat)

/-- Basis points in a whole. -/
def bpsDenominator : Nat := 10000

inductive Operand
  | int (n : Int)
  | nonInt
  deriving DecidableEq, Repr

instance : Coe Int Operand := ⟨.int⟩

instance : Coe Nat Operand := ⟨fun n => .int n⟩

instance (n : Nat) : OfNat Operand n := ⟨.int n⟩

namespace Operand

def integer (name : String) : Operand → Except Fault Int
  | int n => .ok n
  | nonInt => .error (.notInteger name)

/-- An integer in the amount domain, of either sign. -/
def amount (name : String) (x : Operand) : Except Fault Int := do
  let n ← x.integer name
  ensure (minAmount ≤ n ∧ n ≤ maxAmount) (.outsideDomain name n)
  pure n

def nonNegative (name : String) (x : Operand) : Except Fault Nat := do
  let n ← x.amount name
  ensure (0 ≤ n) (.negative name n)
  pure n.toNat

def positive (name : String) (x : Operand) : Except Fault Nat := do
  let n ← x.amount name
  ensure (0 < n) (.nonPositive name n)
  pure n.toNat

def basisPoints (name : String) (x : Operand) : Except Fault Nat := do
  let n ← x.integer name
  ensure (0 ≤ n ∧ n ≤ bpsDenominator) (.bpsOutOfRange name n)
  pure n.toNat

/-- A point in time, in seconds; only its sign is restricted. -/
def time (x : Operand) : Except Fault Nat := do
  let now ← x.integer "now"
  ensure (0 ≤ now) (.negativeTime now)
  pure now.toNat

/-- A field of a stored record: any natural number, also one above the amount domain. -/
def field (name : String) (x : Operand) : Except Fault Nat := do
  let n ← x.integer name
  ensure (0 ≤ n) (.negativeField name n)
  pure n.toNat

@[simp] theorem integer_int (name : String) (n : Int) : (int n).integer name = .ok n := rfl

theorem natCast_eq_zero {n : Nat} : (n : Operand) = 0 ↔ n = 0 := by
  change int n = int 0 ↔ n = 0
  simp

@[simp] theorem field_natCast (name : String) (n : Nat) : (n : Operand).field name = .ok n := by
  simp [field, ensure, pure, Except.pure]

@[simp] theorem time_natCast (n : Nat) : (n : Operand).time = .ok n := by
  simp [time, ensure, pure, Except.pure]

theorem amount_eq_ok {name : String} {x : Operand} {n : Int} :
    x.amount name = .ok n ↔ x = n ∧ minAmount ≤ n ∧ n ≤ maxAmount := by
  cases x with
  | nonInt => simp [amount, integer]
  | int m =>
    simp only [amount, integer, ok_bind, bind_eq_ok, ensure_eq_ok, pure, Except.pure,
      Except.ok.injEq, int.injEq]
    constructor
    · rintro ⟨-, h, rfl⟩; exact ⟨rfl, h⟩
    · rintro ⟨rfl, h⟩; exact ⟨(), h, rfl⟩

theorem nonNegative_eq_ok {name : String} {x : Operand} {n : Nat} :
    x.nonNegative name = .ok n ↔ x = n ∧ n ≤ maxAmount := by
  simp only [nonNegative, bind_eq_ok, amount_eq_ok, ensure_eq_ok, pure, Except.pure]
  constructor
  · rintro ⟨m, ⟨rfl, -, hm⟩, -, h0, h⟩
    cases h
    have := Int.toNat_of_nonneg h0
    exact ⟨by simp [this], by omega⟩
  · rintro ⟨rfl, h⟩
    exact ⟨n, ⟨rfl, by simp [minAmount], by omega⟩, (), by omega, by simp⟩

theorem positive_eq_ok {name : String} {x : Operand} {n : Nat} :
    x.positive name = .ok n ↔ x = n ∧ 0 < n ∧ n ≤ maxAmount := by
  simp only [positive, bind_eq_ok, amount_eq_ok, ensure_eq_ok, pure, Except.pure]
  constructor
  · rintro ⟨m, ⟨rfl, -, hm⟩, -, h0, h⟩
    cases h
    have := Int.toNat_of_nonneg (Int.le_of_lt h0)
    exact ⟨by simp [this], by omega, by omega⟩
  · rintro ⟨rfl, h0, h⟩
    exact ⟨n, ⟨rfl, by simp [minAmount], by omega⟩, (), by omega, by simp⟩

theorem basisPoints_eq_ok {name : String} {x : Operand} {n : Nat} :
    x.basisPoints name = .ok n ↔ x = n ∧ n ≤ bpsDenominator := by
  cases x with
  | nonInt => simp [basisPoints, integer]
  | int m =>
    simp only [basisPoints, integer, ok_bind, bind_eq_ok, ensure_eq_ok, pure, Except.pure,
      Except.ok.injEq, int.injEq]
    constructor
    · rintro ⟨-, h, rfl⟩; omega
    · rintro ⟨rfl, h⟩; exact ⟨(), by omega, by simp⟩

theorem time_eq_ok {x : Operand} {n : Nat} : x.time = .ok n ↔ x = n := by
  cases x with
  | nonInt => simp [time, integer]
  | int m =>
    simp only [time, integer, ok_bind, bind_eq_ok, ensure_eq_ok, pure, Except.pure,
      Except.ok.injEq, int.injEq]
    constructor
    · rintro ⟨-, h, rfl⟩; omega
    · rintro rfl; exact ⟨(), by omega, by simp⟩

theorem field_eq_ok {name : String} {x : Operand} {n : Nat} : x.field name = .ok n ↔ x = n := by
  cases x with
  | nonInt => simp [field, integer]
  | int m =>
    simp only [field, integer, ok_bind, bind_eq_ok, ensure_eq_ok, pure, Except.pure,
      Except.ok.injEq, int.injEq]
    constructor
    · rintro ⟨-, h, rfl⟩; omega
    · rintro rfl; exact ⟨(), by omega, by simp⟩

end Operand

end PoolAccounting

/-!
Floating-point numbers of 64 bits and the rounding of fractions to them. A finite number is kept as
a mantissa of at most 53 binary digits and an exponent, in the one form that `nearest?` gives it,
so numbers of one value and one sign are equal.
-/
namespace PoolAccounting.Decimal

/-- The integer nearest to `n / d`; of two the even one. -/
def roundHalfEven (n d : Nat) : Nat :=
  let q := n / d
  if 2 * (n % d) < d ∨ (2 * (n % d) = d ∧ q % 2 = 0) then q else q + 1

/-- The number `mantissa * 2 ^ exponent`. -/
structure Binary where
  mantissa : Nat
  exponent : Int
  deriving DecidableEq, Repr

inductive Floating
  | nan
  | infinite (negative : Bool)
  | finite (negative : Bool) (size : Binary)
  deriving DecidableEq, Repr

/-- `n / d` times `base ^ k`, as a numerator and a denominator. -/
def scale (n d base : Nat) (k : Int) : Nat × Nat :=
  (n * Nat.pow base k.toNat, d * Nat.pow base (-k).toNat)

/-- The largest `k` with `2 ^ k ≤ n / d`, for positive `n` and `d`. -/
def log2Ratio (n d : Nat) : Int :=
  let k : Int := n.log2 - d.log2
  let (p, q) := scale n d 2 (-k)
  if p < q then k - 1 else k

/-- The number of 53 binary digits nearest to `n / d`, with fewer digits below the normal range;
`none` above the range. -/
def nearest? (n d : Nat) : Option Binary :=
  let e := max (log2Ratio n d - 52) (-1074)
  let (p, q) := scale n d 2 (-e)
  let m := roundHalfEven p q
  let b : Binary := if m = 1 <<< 53 then ⟨1 <<< 52, e + 1⟩ else ⟨m, e⟩
  if 971 < b.exponent then none else some b

namespace Binary

def zero : Binary := ⟨0, -1074⟩

/-- The number as a multiple of the least positive one, which is `2 ^ -1074`. -/
def steps (b : Binary) : Nat := b.mantissa * Nat.pow 2 (b.exponent + 1074).toNat

def signedSteps (b : Binary) (negative : Bool) : Int :=
  if negative then -(b.steps : Int) else b.steps

end Binary

namespace Floating

/-- The number nearest to `n / d`. -/
def ofRatio (negative : Bool) (n d : Nat) : Floating :=
  if n = 0 then finite negative .zero
  else match nearest? n d with
    | none => infinite negative
    | some b => finite negative b

/-- The number nearest to `n * 10 ^ e`. Far outside the range the size of the exponent settles
it. -/
def ofDecimal (negative : Bool) (n : Nat) (e : Int) : Floating :=
  let size := (toString n).length + e
  if n = 0 ∨ size < -400 then finite negative .zero
  else if 400 < size then infinite negative
  else
    let (p, q) := scale n 1 10 e
    ofRatio negative p q

/-- The number nearest to an integer; `none` beyond the range. -/
def ofInt? (n : Int) : Option Floating :=
  match ofRatio (n < 0) n.natAbs 1 with
  | finite negative b => some (finite negative b)
  | _ => none

def isZero : Floating → Bool
  | finite _ b => b.mantissa == 0
  | _ => false

/-- The sum of two numbers, rounded. -/
def add : Floating → Floating → Floating
  | finite s b, finite t c =>
    let sum := b.signedSteps s + c.signedSteps t
    ofRatio (if sum = 0 then s && t else sum < 0) sum.natAbs (1 <<< 1074)
  | infinite s, infinite t => if s = t then infinite s else nan
  | infinite s, finite .. | finite .., infinite s => infinite s
  | nan, _ | _, nan => nan

/-- The product of two numbers, rounded. -/
def mul : Floating → Floating → Floating
  | finite s b, finite t c =>
    let (p, q) := scale (b.mantissa * c.mantissa) 1 2 (b.exponent + c.exponent)
    ofRatio (s != t) p q
  | infinite s, infinite t => infinite (s != t)
  | infinite s, finite t b | finite t b, infinite s =>
    if b.mantissa = 0 then nan else infinite (s != t)
  | nan, _ | _, nan => nan

/-- The same number with the other sign. -/
def neg : Floating → Floating
  | nan => nan
  | infinite s => infinite !s
  | finite s b => finite (!s) b

end Floating

end PoolAccounting.Decimal

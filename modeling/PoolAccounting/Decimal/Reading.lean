import PoolAccounting.Decimal.Floating

/-!
Reading a floating-point number from its text: digits with a point and an exponent, each of which
may be missing, or the name of a number that is not finite.
-/
namespace PoolAccounting.Decimal

def digitsValue (cs : List Char) : Nat := cs.foldl (fun n c => 10 * n + (c.toNat - 48)) 0

/-- The exponent at the end of a number; nothing at all is zero. -/
def exponent? : List Char → Option Int
  | [] => some 0
  | mark :: rest =>
    let (negative, ds) := match rest with
      | '-' :: ds => (true, ds)
      | '+' :: ds => (false, ds)
      | ds => (false, ds)
    if (mark = 'e' ∨ mark = 'E') ∧ !ds.isEmpty ∧ ds.all Char.isDigit then
      some (if negative then -(digitsValue ds : Int) else digitsValue ds)
    else none

/-- A size without a sign, as digits times a power of ten. -/
def size? (cs : List Char) : Option (Nat × Int) :=
  let whole := cs.takeWhile Char.isDigit
  let (places, rest) := match cs.dropWhile Char.isDigit with
    | '.' :: rest => (rest.takeWhile Char.isDigit, rest.dropWhile Char.isDigit)
    | rest => ([], rest)
  let digits := whole ++ places
  if digits.isEmpty then none
  else (exponent? rest).map fun e => (digitsValue digits, e - places.length)

namespace Floating

def ofSize? (negative : Bool) (cs : List Char) : Option Floating :=
  if cs = "inf".toList then some (infinite negative)
  else if cs = "nan".toList then some nan
  else (size? cs).map fun (n, e) => ofDecimal negative n e

def ofText? (s : String) : Option Floating :=
  match s.toList with
  | '-' :: cs => ofSize? true cs
  | '+' :: cs => ofSize? false cs
  | cs => ofSize? false cs

end Floating

end PoolAccounting.Decimal

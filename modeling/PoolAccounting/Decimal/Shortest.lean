import PoolAccounting.Decimal.Floating

/-!
The text of a floating-point number: the fewest digits that still round to it, positional for sizes
of up to sixteen places and with an exponent beyond.
-/
namespace PoolAccounting.Decimal

/-- The multiple of `10 ^ j` nearest to `b` among those that round to `b`, in units of it. -/
def onGrid? (b : Binary) (j : Int) : Option Nat :=
  let value := 4 * b.mantissa
  let low := if b.mantissa = 1 <<< 52 ∧ -1074 < b.exponent then value - 1 else value - 2
  let high := value + 2
  let unit := Nat.pow 2 (b.exponent - 2).toNat * Nat.pow 10 (-j).toNat
  let step := Nat.pow 2 (2 - b.exponent).toNat * Nat.pow 10 j.toNat
  let inside (c : Nat) : Bool :=
    if b.mantissa % 2 = 0 then low * unit ≤ c * step && c * step ≤ high * unit
    else low * unit < c * step && c * step < high * unit
  let down := value * unit / step
  match inside down, inside (down + 1) with
  | true, true => some (roundHalfEven (value * unit) step)
  | true, false => some down
  | false, true => some (down + 1)
  | false, false => none

/-- The first grid that has a multiple rounding to `b`, from the coarse ones to the fine ones. -/
def coarsest (b : Binary) : Nat → Nat × Int
  | 0 => (0, 0)
  | n + 1 =>
    let j : Int := n - 400
    match onGrid? b j with
    | some c => (c, j)
    | none => coarsest b n

/-- Digits times `10 ^ j`. Positional while the point is at most three places before the digits
and at most sixteen places after their start, else with an exponent of two or more digits. -/
def write (digits : List Char) (j : Int) : List Char :=
  let point := digits.length + j
  if -4 < point ∧ point ≤ 16 then
    if point ≤ 0 then '0' :: '.' :: (List.replicate (-point).toNat '0' ++ digits)
    else if digits.length ≤ point then
      digits ++ List.replicate (point - digits.length).toNat '0' ++ ['.', '0']
    else digits.take point.toNat ++ '.' :: digits.drop point.toNat
  else
    let e := point - 1
    let size := (toString e.natAbs).toList
    let fraction := match digits.drop 1 with
      | [] => []
      | rest => '.' :: rest
    digits.take 1 ++ fraction ++ ['e', if e < 0 then '-' else '+'] ++
      (if size.length < 2 then '0' :: size else size)

def Binary.text (b : Binary) : String :=
  if b.mantissa = 0 then "0.0"
  else
    let (c, j) := coarsest b 720
    String.ofList (write (toString c).toList j)

def Floating.text : Floating → String
  | nan => "nan"
  | infinite negative => if negative then "-inf" else "inf"
  | finite negative b => if negative then "-" ++ b.text else b.text

end PoolAccounting.Decimal

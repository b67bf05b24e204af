import PoolAccounting.Decimal.Floating
import PoolAccounting.Yaml.ReadFault

/-!
Numbers of a YAML text: integers to the bases 2, 8, 10, 16 and 60, and fractional numbers to the
bases 10 and 60. Underscores may stand among the digits.
-/
namespace PoolAccounting.Yaml

open Decimal (Floating)

/-- The value of a digit to a base of at most sixteen. -/
def digitValue? (c : Char) : Option Nat :=
  let n := c.toNat
  if 48 ≤ n ∧ n ≤ 57 then some (n - 48)
  else if 97 ≤ n ∧ n ≤ 102 then some (n - 87)
  else if 65 ≤ n ∧ n ≤ 70 then some (n - 55)
  else none

def isDigitOf (base : Nat) (c : Char) : Bool :=
  match digitValue? c with
  | some d => d < base
  | none => false

/-- Digits of a base, with underscores anywhere among them. -/
def isDigits (base : Nat) (cs : List Char) : Bool := cs.all fun c => c == '_' || isDigitOf base c

def digitsValue (base : Nat) (cs : List Char) : Nat :=
  cs.foldl (fun n c => match digitValue? c with
    | some d => base * n + d
    | none => n) 0

/-- A sign, if there is one, and whether it is a minus. -/
def splitSign : List Char → Bool × List Char
  | '+' :: rest => (false, rest)
  | '-' :: rest => (true, rest)
  | cs => (false, cs)

def splitColons : List Char → List (List Char)
  | [] => [[]]
  | c :: rest =>
    if c = ':' then [] :: splitColons rest
    else match splitColons rest with
      | [] => [[c]]
      | part :: parts => (c :: part) :: parts

/-- A place of a number to the base sixty, after the first one. -/
def isSixtieth : List Char → Bool
  | [c] => isDigitOf 10 c
  | [c, d] => isDigitOf 6 c && isDigitOf 10 d
  | _ => false

/-- The digits after the mark of a base. -/
def based? (base : Nat) (ds : List Char) : Option (Except ReadFault Nat) :=
  if ds.isEmpty || !isDigits base ds then none
  else if ds.all (· == '_') then some (.error (.noDigits base))
  else some (.ok (digitsValue base ds))

/-- A decimal numeral with the places to the base sixty that follow it. -/
def sexagesimal (whole : List Char) (places : List (List Char)) : Except ReadFault Nat :=
  let count := (whole.filter (· != '_')).length
  if maxDigits < count then .error (.tooManyDigits count)
  else .ok (places.foldl (fun n p => 60 * n + digitsValue 10 p) (digitsValue 10 whole))

/-- The size of an integer written without a sign. -/
def natural? : List Char → Option (Except ReadFault Nat)
  | '0' :: 'b' :: ds => based? 2 ds
  | '0' :: 'x' :: ds => based? 16 ds
  | '0' :: ds => if isDigits 8 ds then some (.ok (digitsValue 8 ds)) else none
  | c :: ds =>
    if isDigitOf 10 c then
      match splitColons (c :: ds) with
      | whole :: places =>
        if isDigits 10 whole && places.all isSixtieth then some (sexagesimal whole places)
        else none
      | [] => none
    else none
  | [] => none

def integer? (cs : List Char) : Option (Except ReadFault Int) :=
  let (negative, size) := splitSign cs
  (natural? size).map fun r => r.map fun n : Nat => if negative then -(n : Int) else n

/-- The exponent at the end of a fractional number; nothing at all is zero. -/
def exponent? : List Char → Option Int
  | [] => some 0
  | e :: sign :: ds =>
    if (e = 'e' ∨ e = 'E') ∧ (sign = '+' ∨ sign = '-') ∧ !ds.isEmpty ∧ ds.all (isDigitOf 10) then
      some (if sign = '-' then -(digitsValue 10 ds : Int) else digitsValue 10 ds)
    else none
  | _ => none

/-- A fractional number given by its digits before the point and what follows it. -/
def fraction? (negative : Bool) (whole rest : List Char) : Option Floating :=
  let isPlace (c : Char) : Bool := c == '_' || isDigitOf 10 c
  let places := rest.takeWhile isPlace
  let digits := (places.filter (· != '_')).length
  (exponent? (rest.dropWhile isPlace)).map fun e =>
    .ofDecimal negative (digitsValue 10 (whole ++ places)) (e - digits)

/-- Adds up places to the base sixty, the lowest first; `weight` is what the lowest is worth. -/
def sumPlaces : Nat → Floating → List Floating → Except ReadFault Floating
  | _, sum, [] => pure sum
  | weight, sum, place :: places =>
    match Floating.ofInt? weight with
    | some w => sumPlaces (60 * weight) (sum.add (place.mul w)) places
    | none => .error .placeTooLarge

/-- A fractional number to the base sixty: at least two places, and a fraction of the last one. It
is added up in floating-point numbers from its last place. -/
def sexagesimalFloat? (negative : Bool) (whole : List Char) (places : List (List Char)) :
    Option (Except ReadFault Floating) := do
  let last ← places.getLast?
  let middle := places.dropLast
  let units := last.takeWhile (· != '.')
  let fraction := (last.dropWhile (· != '.')).drop 1
  if units.length < last.length && isSixtieth units && middle.all isSixtieth &&
      isDigits 10 whole && isDigits 10 fraction then
    let lowest ← fraction? false units fraction
    let natural (cs : List Char) : Floating := .ofDecimal false (digitsValue 10 cs) 0
    let higher := (whole :: middle).reverse.map natural
    let sum := sumPlaces 1 (.finite false .zero) (lowest :: higher)
    some (sum.map fun x => if negative then x.neg else x)
  else none

/-- A fractional number without its sign. It starts with a digit, or with the point where `bare`
allows that. -/
def unsignedFloat? (negative bare : Bool) : List Char → Option (Except ReadFault Floating)
  | '.' :: rest =>
    if ["inf", "Inf", "INF"].contains (String.ofList rest) then some (pure (.infinite negative))
    else match bare, rest with
      | true, c :: _ => if isDigitOf 10 c then (fraction? negative [] rest).map pure else none
      | _, _ => none
  | c :: rest =>
    if isDigitOf 10 c then
      match splitColons (c :: rest) with
      | [cs] =>
        match cs.dropWhile (· != '.') with
        | '.' :: after =>
          let whole := cs.takeWhile (· != '.')
          if isDigits 10 whole then (fraction? negative whole after).map pure else none
        | _ => none
      | whole :: places => sexagesimalFloat? negative whole places
      | [] => none
    else none
  | [] => none

def float? (cs : List Char) : Option (Except ReadFault Floating) :=
  if [".nan", ".NaN", ".NAN"].contains (String.ofList cs) then some (pure .nan)
  else
    let (negative, size) := splitSign cs
    unsignedFloat? negative (size.length == cs.length) size

end PoolAccounting.Yaml

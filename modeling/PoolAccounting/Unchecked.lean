import PoolAccounting.Exchange.Swap
import PoolAccounting.Fees
import PoolAccounting.Value

/-!
Splits and swap results that were not computed here. Nothing is checked when they are built, so
their fields hold values of any kind; a total or a comparison of the products is taken over them as
they are, and refused where the kinds allow none.
-/
namespace PoolAccounting

open Decimal (Floating)

namespace Scalar

/-- An integer, or a truth value as one or zero. -/
def integer? : Scalar → Option Int
  | bool b => some (if b then 1 else 0)
  | int n => some n
  | _ => none

/-- A number as a floating-point one, unless it is an integer beyond their range. -/
def floating? : Scalar → Option (Except Fault Floating)
  | float x => some (pure x)
  | s => s.integer?.map fun n =>
    match Floating.ofInt? n with
    | some x => pure x
    | none => .error .integerTooLarge

/-- Whether two scalars are equal. Not a number is equal to nothing. -/
def same (s t : Scalar) : Bool := s.key = t.key && s.key != .nan

/-- Whether `s` is at least `t`, for two scalars of one family. Not a number is at least nothing. -/
def atLeast (s t : Scalar) : Except Fault Bool :=
  if s.key.family = t.key.family ∧ s.key ≠ .null then
    pure (s.key != .nan && t.key != .nan && !decide (s.key.Before t.key))
  else .error (.notComparable s.kindName t.kindName)

end Scalar

namespace Value

/-- The sum of two numbers, or two texts or lists one after the other. -/
def plus : Value → Value → Except Fault Value
  | text s, text t => pure (text (s ++ t))
  | list xs, list ys => pure (list (xs ++ ys))
  | text s, w => .error (.notAppendable (text s).kindName w.kindName)
  | list xs, w => .error (.notAppendable (list xs).kindName w.kindName)
  | scalar s, scalar t =>
    match s.integer?, t.integer? with
    | some m, some n => pure (int (m + n))
    | _, _ =>
      match s.floating?, t.floating? with
      | some x, some y => do pure (scalar (.float ((← x).add (← y))))
      | _, _ => .error (.notAddable s.kindName t.kindName)
  | v, w => .error (.notAddable v.kindName w.kindName)

mutual

/-- Whether two values are equal; mappings are equal whatever the order of their entries. -/
def same : Value → Value → Bool
  | scalar s, scalar t => s.same t
  | list xs, list ys => sameItems xs ys
  | map es, map fs => es.length == fs.length && sameEntries es fs
  | _, _ => false

def sameItems : List Value → List Value → Bool
  | [], [] => true
  | v :: vs, w :: ws => same v w && sameItems vs ws
  | _, _ => false

def sameEntries : List (Scalar × Value) → List (Scalar × Value) → Bool
  | [], _ => true
  | (name, v) :: es, fs =>
    (match Scalar.lookup name.key fs with
      | some w => same v w
      | none => false) && sameEntries es fs

end

mutual

/-- Whether a value is at least another one. The first items in which two lists differ decide. -/
def atLeast : Value → Value → Except Fault Bool
  | scalar s, scalar t => s.atLeast t
  | list xs, list ys => atLeastItems xs ys
  | v, w => .error (.notComparable v.kindName w.kindName)

def atLeastItems : List Value → List Value → Except Fault Bool
  | _, [] => pure true
  | [], _ :: _ => pure false
  | v :: vs, w :: ws => if v.same w then atLeastItems vs ws else atLeast v w

end

end Value

namespace Fees.Split

/-- The total of the three parts of a split, added from the front. -/
def uncheckedTotal (treasury staking burn : Value) : Except Fault Value := do
  let shared ← treasury.plus staking
  shared.plus burn

end Fees.Split

namespace Exchange.SwapResult

/-- Whether the product did not fall. -/
def uncheckedKOk (kBefore kAfter : Value) : Except Fault Bool := kAfter.atLeast kBefore

end Exchange.SwapResult

end PoolAccounting

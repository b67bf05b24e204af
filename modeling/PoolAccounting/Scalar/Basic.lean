import PoolAccounting.Calendar.Moment
import PoolAccounting.Decimal.Shortest
import PoolAccounting.Text.Quoted

/-!
Scalars: the values that have no parts. Tokens and the entries of a configuration are named by
scalars, as a rule by texts.
-/
namespace PoolAccounting

open Calendar (Date Moment)
open Decimal (Floating)

inductive Scalar
  | null
  | bool (b : Bool)
  | int (n : Int)
  | float (x : Floating)
  | date (d : Date)
  | moment (m : Moment)
  | text (s : String)
  deriving DecidableEq, Repr

namespace Scalar

instance : Coe String Scalar := ⟨text⟩

instance : Inhabited Scalar := ⟨null⟩

/-- A scalar as an error message quotes it. -/
def render : Scalar → String
  | null => "None"
  | bool b => if b then "True" else "False"
  | int n => toString n
  | float x => x.text
  | date d => d.render
  | moment m => m.render
  | text s => Text.quoted s

/-- A scalar as an error message names it: a text stands there as it is. -/
def display : Scalar → String
  | text s => s
  | s => s.render

/-- The name of the kind of a scalar. -/
def kindName : Scalar → String
  | null => "NoneType"
  | bool _ => "bool"
  | int _ => "int"
  | float _ => "float"
  | date _ => "datetime.date"
  | moment _ => "datetime.datetime"
  | text _ => "str"

/-- Whether a condition given by the scalar holds: everything does but null, falsehood, zero and the
empty text. -/
def isTrue : Scalar → Bool
  | null => false
  | bool b => b
  | int n => n != 0
  | float x => !x.isZero
  | date _ | moment _ => true
  | text s => s != ""

end Scalar

end PoolAccounting

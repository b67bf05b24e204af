import PoolAccounting.Operand
import PoolAccounting.Scalar.Key

/-!
Values of no fixed type, as a configuration holds them before it is checked, and the way an error
message shows them.
-/
namespace PoolAccounting

inductive Value
  | scalar (s : Scalar)
  | list (items : List Value)
  | map (entries : List (Scalar × Value))
  deriving Repr

instance : Coe Scalar Value := ⟨.scalar⟩

instance : Inhabited Value := ⟨.scalar .null⟩

namespace Value

@[match_pattern] abbrev null : Value := scalar .null

@[match_pattern] abbrev bool (b : Bool) : Value := scalar (.bool b)

@[match_pattern] abbrev int (n : Int) : Value := scalar (.int n)

@[match_pattern] abbrev text (s : String) : Value := scalar (.text s)

/-- A mapping of entries in the order in which they are given. A key that comes again keeps its
place and spelling and takes the later value. -/
def ofEntries (entries : List (Scalar × Value)) : Value :=
  map (entries.foldl (fun es e => Scalar.put e.1 e.2 es) [])

/-- What an operation that expects an integer is given. -/
def operand : Value → Operand
  | int n => .int n
  | _ => .nonInt

/-- The value as a name or a token. A collection is neither, and counts as null. -/
def toScalar : Value → Scalar
  | scalar s => s
  | _ => .null

/-- The elements of a list, or the keys of a mapping, as tokens. -/
def elements? : Value → Option (List Scalar)
  | scalar _ => none
  | list items => some (items.map toScalar)
  | map entries => some (entries.map (·.1))

/-- Whether a condition given by the value holds. An empty collection counts as false. -/
def isTrue : Value → Bool
  | scalar s => s.isTrue
  | list items => !items.isEmpty
  | map entries => !entries.isEmpty

mutual

/-- A value as an error message quotes it. -/
def render : Value → String
  | scalar s => s.render
  | list items => "[" ++ ", ".intercalate (renderItems items) ++ "]"
  | map entries => "\x7b" ++ ", ".intercalate (renderEntries entries) ++ "\x7d"

def renderItems : List Value → List String
  | [] => []
  | v :: rest => render v :: renderItems rest

def renderEntries : List (Scalar × Value) → List String
  | [] => []
  | (k, v) :: rest => (k.render ++ ": " ++ render v) :: renderEntries rest

end

/-- A value as an error message names it: a text stands there as it is. -/
def display : Value → String
  | scalar s => s.display
  | v => v.render

/-- The name of the kind of a value. -/
def kindName : Value → String
  | scalar s => s.kindName
  | list _ => "list"
  | map _ => "dict"

end Value

end PoolAccounting

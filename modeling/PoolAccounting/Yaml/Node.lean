import PoolAccounting.Value
import PoolAccounting.Yaml.Scalar

/-!
Trees of nodes, as they are read from a YAML text before they are values. A text is read as a whole
first; then its nodes turn into values level by level, so of several nodes that have no value the
one on the highest level is reported, and on one level the first.
-/
namespace PoolAccounting.Yaml

inductive Node
  /-- A scalar, or the reason why a plain one of its form has no value. -/
  | scalar (resolved : Except ReadFault Scalar)
  /-- The plain scalar `<<`. As a key it stands for the entries of its value. -/
  | merge
  /-- The plain scalar `=`. It is a text as a key and has no value elsewhere. -/
  | equals
  | sequence (items : List Node)
  | mapping (entries : List (Node × Node))
  /-- A mapping that is to take over the entries of what is no mapping. -/
  | refused

namespace Node

def null : Node := scalar (.ok .null)

instance : Inhabited Node := ⟨null⟩

def isCollection : Node → Bool
  | sequence _ | mapping _ | refused => true
  | _ => false

def ofPlain (cs : List Char) : Node :=
  if cs = ['<', '<'] then merge else if cs = ['='] then equals else scalar (resolve cs)

/-- The entries that a mapping takes over from a value: those of a mapping, or of a sequence of
mappings from the last one to the first. -/
def source? : Node → Option (List (Node × Node))
  | mapping entries => some entries
  | sequence items => items.foldl (fun taken n =>
      match taken, n with
      | some later, mapping entries => some (entries ++ later)
      | _, _ => none) (some [])
  | _ => none

/-- The entries that stand behind the merge keys, in their order. -/
def taken? : List (Node × Node) → Option (List (Node × Node))
  | [] => some []
  | (merge, v) :: rest => do
    let entries ← v.source?
    let others ← taken? rest
    some (entries ++ others)
  | _ :: rest => taken? rest

/-- The entries without merge keys. -/
def own : List (Node × Node) → List (Node × Node)
  | [] => []
  | (merge, _) :: rest => own rest
  | (equals, v) :: rest => (scalar (.ok (.text "=")), v) :: own rest
  | e :: rest => e :: own rest

/-- The mapping of entries as they are written. What it takes over comes first, so that its own
entries count. -/
def ofEntries (entries : List (Node × Node)) : Node :=
  match taken? entries with
  | some taken => mapping (taken ++ own entries)
  | none => refused

mutual

/-- The number of levels of a node. -/
def height : Node → Nat
  | scalar _ | merge | equals => 1
  | refused => 2
  | sequence items => 1 + heightOfItems items
  | mapping entries => 1 + heightOfEntries entries

def heightOfItems : List Node → Nat
  | [] => 0
  | n :: rest => max n.height (heightOfItems rest)

def heightOfEntries : List (Node × Node) → Nat
  | [] => 0
  | (_, v) :: rest => max v.height (heightOfEntries rest)

end

mutual

/-- The first fault on a level, which is counted from the node itself. -/
def faultAt : Nat → Node → Option ReadFault
  | 0, scalar (.error fault) => some fault
  | 0, merge | 0, equals => some .malformed
  | 0, _ => none
  | level + 1, refused => if level = 0 then some .malformed else none
  | level + 1, sequence items => faultAmongItems level items
  | level + 1, mapping entries => faultAmongEntries level entries
  | _ + 1, _ => none

def faultAmongItems : Nat → List Node → Option ReadFault
  | _, [] => none
  | level, n :: rest => (n.faultAt level).or (faultAmongItems level rest)

/-- A key counts on the level of its value; a collection is no key. -/
def faultAmongEntries : Nat → List (Node × Node) → Option ReadFault
  | _, [] => none
  | level, (k, v) :: rest =>
    let ofKey := if k.isCollection then (if level = 0 then some .malformed else none)
      else k.faultAt level
    (ofKey.or (v.faultAt level)).or (faultAmongEntries level rest)

end

/-- The fault that is reported for a node, if it has any. -/
def fault? (n : Node) : Option ReadFault :=
  (List.range n.height).findSome? fun level => n.faultAt level

/-- The scalar of a node that has one. -/
def toScalar : Node → Scalar
  | scalar (.ok s) => s
  | _ => .null

mutual

/-- The value of a node without faults. -/
def value : Node → Value
  | sequence items => .list (valuesOfItems items)
  | mapping entries => .ofEntries (valuesOfEntries entries)
  | n => .scalar n.toScalar

def valuesOfItems : List Node → List Value
  | [] => []
  | n :: rest => n.value :: valuesOfItems rest

def valuesOfEntries : List (Node × Node) → List (Scalar × Value)
  | [] => []
  | (k, v) :: rest => (k.toScalar, v.value) :: valuesOfEntries rest

end

def value? (n : Node) : Except ReadFault Value :=
  match n.fault? with
  | some fault => .error fault
  | none => pure n.value

end Node

end PoolAccounting.Yaml

import PoolAccounting.Yaml.Timestamp

/-!
Plain scalars of a YAML text. A scalar is null, a truth value, a number, a day or a time if all of
it has that form, and a text otherwise.
-/
namespace PoolAccounting.Yaml

def nullForms : List String := ["", "~", "null", "Null", "NULL"]

def trueForms : List String :=
  ["yes", "Yes", "YES", "true", "True", "TRUE", "on", "On", "ON"]

def falseForms : List String :=
  ["no", "No", "NO", "false", "False", "FALSE", "off", "Off", "OFF"]

def resolve (cs : List Char) : Except ReadFault Scalar :=
  let s := String.ofList cs
  if nullForms.contains s then pure .null
  else if trueForms.contains s then pure (.bool true)
  else if falseForms.contains s then pure (.bool false)
  else match integer? cs, float? cs, timestamp? cs with
    | some n, _, _ => n.map .int
    | none, some x, _ => x.map .float
    | none, none, some t => t.mapError .calendar
    | none, none, none => pure (.text s)

end PoolAccounting.Yaml

import PoolAccounting.Fees
import PoolAccounting.Staking.Records
import PoolAccounting.Yaml.Document

/-!
The configuration of a ledger: how fees are shared and how stakes are limited. It is read from a
mapping with one section for each, or from a YAML text of such a mapping. A section or a field that
is left out takes its default, a name that is not known is refused, and every value has to be an
integer.
-/
namespace PoolAccounting

open Fees Staking

structure Config where
  distribution : Shares := {}
  staking : StakeLimits := {}
  deriving DecidableEq, Repr

inductive ConfigFault
  | notMapping
  | unknownSections (keys : List Scalar)
  | sectionNotMapping (name : String)
  | unknownKeys (name : String) (keys : List Scalar)
  | notInteger (name key : String) (value : Value)
  | unreadable (fault : Yaml.ReadFault)
  | rejected (fault : Fault)
  deriving Repr

namespace ConfigFault

def kind : ConfigFault → FaultKind
  | notMapping | sectionNotMapping _ | notInteger .. => .illTyped
  | unknownSections _ | unknownKeys .. => .illFormed
  | unreadable fault => fault.kind
  | rejected fault => fault.kind

def quotedKeys (keys : List Scalar) : String := (Value.list (keys.map .scalar)).render

def message : ConfigFault → String
  | notMapping => "config YAML must be a mapping"
  | unknownSections keys => "unknown config sections: " ++ quotedKeys keys
  | sectionNotMapping name => "config section " ++ Text.quoted name ++ " must be a mapping"
  | unknownKeys name keys =>
    "unknown keys in config section " ++ Text.quoted name ++ ": " ++ quotedKeys keys
  | notInteger name key value => s!"{name}.{key} must be an int, got " ++ value.render
  | unreadable fault => fault.message
  | rejected fault => fault.message

end ConfigFault

namespace Config

/-- The keys that are none of `known`, in increasing order. -/
def unknownAmong (known : List String) (entries : List (Scalar × Value)) : List Scalar :=
  let keys := entries.map (·.1)
  Table.sortedNames (keys.filter fun k => !known.any fun name => k.key = .text name)

/-- The entries of a section as integers, in the order in which they are given. -/
def integers (name : String) :
    List (Scalar × Value) → Except ConfigFault (List (Scalar × Int))
  | [] => pure []
  | (key, .int n) :: rest => do
    let ns ← integers name rest
    pure ((key, n) :: ns)
  | (key, value) :: _ => .error (.notInteger name key.display value)

/-- The fields that a section sets. -/
def sectionFields (name : String) (fields : List String) :
    Option Value → Except ConfigFault (List (Scalar × Int))
  | none | some .null => pure []
  | some (.map entries) =>
    match unknownAmong fields entries with
    | [] => integers name entries
    | unknown => .error (.unknownKeys name unknown)
  | some _ => .error (.sectionNotMapping name)

def fieldOr (set : List (Scalar × Int)) (name : String) (default : Nat) : Operand :=
  match Scalar.lookup (.text name) set with
  | some n => n
  | none => default

def accepted {α : Type} : Except Fault α → Except ConfigFault α
  | .ok a => .ok a
  | .error fault => .error (.rejected fault)

def shareFields : List String := ["treasury_bps", "staking_bps", "burn_bps", "min_distribution"]

def limitFields : List String := ["min_stake_amount", "max_stake_per_user"]

def sharesOf (value : Option Value) : Except ConfigFault Shares := do
  let set ← sectionFields "distribution" shareFields value
  let default : Shares := {}
  accepted (Shares.ofOperands (fieldOr set "treasury_bps" default.treasury)
    (fieldOr set "staking_bps" default.staking) (fieldOr set "burn_bps" default.burn)
    (fieldOr set "min_distribution" default.minimum))

def limitsOf (value : Option Value) : Except ConfigFault StakeLimits := do
  let set ← sectionFields "staking" limitFields value
  let default : StakeLimits := {}
  accepted (StakeLimits.ofOperands (fieldOr set "min_stake_amount" default.minimum)
    (fieldOr set "max_stake_per_user" default.cap))

def ofValue : Value → Except ConfigFault Config
  | .null => pure {}
  | .map entries => do
    match unknownAmong ["distribution", "staking"] entries with
    | [] =>
      let distribution ← sharesOf (Scalar.lookup (.text "distribution") entries)
      let staking ← limitsOf (Scalar.lookup (.text "staking") entries)
      pure { distribution, staking }
    | unknown => .error (.unknownSections unknown)
  | _ => .error .notMapping

/-- The configuration in force where none is given: a stake has to be of one whole token. -/
def packaged : Config := { staking := { minimum := Amount.oneToken } }

/-- The configuration that a YAML text describes. -/
def ofText (text : String) : Except ConfigFault Config :=
  match Yaml.read text with
  | .ok value => ofValue value
  | .error fault => .error (.unreadable fault)

end Config

end PoolAccounting

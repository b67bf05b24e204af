import PoolAccounting.Calendar.Moment
import PoolAccounting.Fault

/-!
The reasons why a text has no value: it is not a text of the language at all, or one of its plain
scalars has the form of a number or a time but stands for none.
-/
namespace PoolAccounting.Yaml

inductive ReadFault
  | malformed
  /-- A numeral of the base that has only underscores. -/
  | noDigits (base : Nat)
  /-- A decimal numeral that is too long to be read. -/
  | tooManyDigits (count : Nat)
  /-- A place of a number to the base sixty that is worth more than any floating-point number. -/
  | placeTooLarge
  /-- A day or a time that the calendar does not have. -/
  | calendar (fault : Calendar.CalendarFault)
  deriving DecidableEq, Repr

/-- The most digits that a decimal numeral may have: the default of the limit on the conversion
between integers and texts. It is assumed of reading only; a message writes an operand out however
long it is, as where the limit is lifted. -/
def maxDigits : Nat := 4300

namespace ReadFault

def kind : ReadFault → FaultKind
  | malformed => .unreadable
  | placeTooLarge => .unrepresentable
  | noDigits _ | tooManyDigits _ | calendar _ => .illFormed

def message : ReadFault → String
  | malformed => "config is not valid YAML"
  | noDigits base => s!"invalid literal for int() with base {base}: \x27\x27"
  | tooManyDigits count =>
    s!"Exceeds the limit ({maxDigits} digits) for integer string conversion: " ++
      s!"value has {count} digits; use sys.set_int_max_str_digits() to increase the limit"
  | placeTooLarge => tooLargeMessage
  | calendar fault => fault.message

end ReadFault

end PoolAccounting.Yaml

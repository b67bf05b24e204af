import PoolAccounting.Scalar.Basic
import PoolAccounting.Yaml.Numeral

/-!
Days and times of a YAML text. A day stands alone as `2001-12-14`; with a time of day its month and
its day may be shorter, and a fraction of a second and a time zone may follow.
-/
namespace PoolAccounting.Yaml

open Calendar (CalendarFault Date Moment Offset TimeOfDay)

/-- A number of `least` to `most` digits, and what follows it. -/
def number? (least most : Nat) (cs : List Char) : Option (Nat × List Char) :=
  let ds := (cs.take most).takeWhile (isDigitOf 10)
  if ds.length < least then none else some (digitsValue 10 ds, cs.drop ds.length)

/-- What follows a character that has to be there. -/
def after? (c : Char) : List Char → Option (List Char)
  | [] => none
  | d :: rest => if d = c then some rest else none

/-- The first six digits of a fraction of a second, and what follows the fraction. -/
def microseconds (cs : List Char) : Fin 1000000 × List Char :=
  match cs with
  | '.' :: rest =>
    let ds := rest.takeWhile (isDigitOf 10)
    (Fin.ofNat 1000000 (digitsValue 10 ((ds ++ List.replicate 6 '0').take 6)),
      rest.dropWhile (isDigitOf 10))
  | _ => (0, cs)

/-- A time zone, as the minutes of its offset; nothing at all is no zone. -/
def zone? (cs : List Char) : Option (Option Int) :=
  match cs with
  | [] => some none
  | _ =>
    match cs.dropWhile (· == ' ') with
    | ['Z'] => some (some 0)
    | sign :: rest => do
      if sign ≠ '+' ∧ sign ≠ '-' then none
      else
        let (hours, rest) ← number? 1 2 rest
        let minutes ← match rest with
          | [] => some 0
          | _ => do
            let rest ← after? ':' rest
            let (minutes, rest) ← number? 2 2 rest
            if rest.isEmpty then some minutes else none
        let offset : Int := 60 * hours + minutes
        some (some (if sign = '-' then -offset else offset))
    | [] => none

/-- What separates the day from the time of day: a letter or spaces. -/
def afterSeparator? : List Char → Option (List Char)
  | 'T' :: rest | 't' :: rest => some rest
  | ' ' :: rest => some (rest.dropWhile (· == ' '))
  | _ => none

/-- The numbers of a moment; of several that are out of range the time zone is named first. -/
def moment (year month day hour minute second : Nat) (micros : Fin 1000000)
    (zone : Option Int) : Except CalendarFault Scalar := do
  let offset ← zone.mapM Offset.ofMinutes
  let date ← Date.ofNumbers year month day
  let time ← TimeOfDay.ofNumbers hour minute second micros
  pure (.moment ⟨date, time, offset⟩)

/-- The time of day after a date, up to the end. -/
def timeAfter? (year month day : Nat) (cs : List Char) :
    Option (Except CalendarFault Scalar) := do
  let cs ← afterSeparator? cs
  let (hour, cs) ← number? 1 2 cs
  let cs ← after? ':' cs
  let (minute, cs) ← number? 2 2 cs
  let cs ← after? ':' cs
  let (second, cs) ← number? 2 2 cs
  let (micros, cs) := microseconds cs
  let zone ← zone? cs
  pure (moment year month day hour minute second micros zone)

def timestamp? (cs : List Char) : Option (Except CalendarFault Scalar) := do
  let (year, rest) ← number? 4 4 cs
  let rest ← after? '-' rest
  let (month, rest) ← number? 1 2 rest
  let rest ← after? '-' rest
  let (day, rest) ← number? 1 2 rest
  if rest.isEmpty then
    if cs.length = 10 then some ((Date.ofNumbers year month day).map .date) else none
  else timeAfter? year month day rest

end PoolAccounting.Yaml

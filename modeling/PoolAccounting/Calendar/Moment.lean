import PoolAccounting.Calendar.Date

/-!
Times of day on a date, to the microsecond, in a time zone or in none. Two times in time zones are
the same moment if they are as far from the beginning of the calendar in the zone without offset.
-/
namespace PoolAccounting.Calendar

/-- The minutes of a day. -/
def dayMinutes : Nat := 1440

structure TimeOfDay where
  hour : Fin 24
  minute : Fin 60
  second : Fin 60
  microsecond : Fin 1000000
  deriving DecidableEq, Repr

/-- The distance of a time zone from the one without offset, in minutes. -/
structure Offset where
  minutes : Int
  minutes_mem : -dayMinutes < minutes ∧ minutes < dayMinutes
  deriving DecidableEq, Repr

structure Moment where
  date : Date
  time : TimeOfDay
  offset : Option Offset
  deriving DecidableEq, Repr

namespace TimeOfDay

def ofNumbers (hour minute second : Nat) (microsecond : Fin 1000000) :
    Except CalendarFault TimeOfDay :=
  if hh : hour < 24 then
    if hm : minute < 60 then
      if hs : second < 60 then .ok ⟨⟨hour, hh⟩, ⟨minute, hm⟩, ⟨second, hs⟩, microsecond⟩
      else .error .second
    else .error .minute
  else .error .hour

/-- The microseconds since midnight. -/
def number (t : TimeOfDay) : Nat :=
  ((60 * t.hour + t.minute) * 60 + t.second) * 1000000 + t.microsecond

end TimeOfDay

/-- A span of minutes as an error message shows it, in whole days and the seconds after them. -/
def renderSpan (minutes : Int) : String :=
  let days := minutes.fdiv dayMinutes
  let seconds := 60 * minutes.fmod dayMinutes
  let parts := (if days = 0 then [] else [s!"days={days}"]) ++
    (if seconds = 0 then [] else [s!"seconds={seconds}"])
  "datetime.timedelta(" ++ ", ".intercalate parts ++ ")"

namespace Offset

def ofMinutes (minutes : Int) : Except CalendarFault Offset :=
  if h : -dayMinutes < minutes ∧ minutes < dayMinutes then .ok ⟨minutes, h⟩
  else .error (.offset minutes)

def render (o : Offset) : String :=
  if o.minutes = 0 then "datetime.timezone.utc"
  else "datetime.timezone(" ++ renderSpan o.minutes ++ ")"

end Offset

namespace Moment

/-- The microseconds since the beginning of the calendar. -/
def number (m : Moment) : Int :=
  let minutes := match m.offset with
    | some o => o.minutes
    | none => 0
  (m.date.number * dayMinutes - minutes) * 60000000 + m.time.number

/-- A moment as an error message shows it. Seconds and microseconds that are zero and have nothing
after them are left out. -/
def render (m : Moment) : String :=
  let t := m.time
  let small := if t.microsecond.val = 0 then [] else [t.microsecond.val]
  let seconds := if t.second.val = 0 ∧ small.isEmpty then [] else t.second.val :: small
  let numbers := [m.date.year, m.date.month, m.date.day, t.hour.val, t.minute.val] ++ seconds
  let zone := match m.offset with
    | some o => ["tzinfo=" ++ o.render]
    | none => []
  "datetime.datetime(" ++ ", ".intercalate (numbers.map toString ++ zone) ++ ")"

end Moment

namespace CalendarFault

def message : CalendarFault → String
  | year given => s!"year {given} is out of range"
  | month => "month must be in 1..12"
  | day => "day is out of range for month"
  | hour => "hour must be in 0..23"
  | minute => "minute must be in 0..59"
  | second => "second must be in 0..59"
  | offset minutes =>
    "offset must be a timedelta strictly between -timedelta(hours=24) and timedelta(hours=24), " ++
      s!"not {renderSpan minutes}."

end CalendarFault

end PoolAccounting.Calendar

/-
Days and moments of the calendar, and which of them there are.
-/
namespace SamScript

/-- A day of the calendar. -/
structure Day where
  year : Nat
  month : Nat
  day : Nat
  deriving DecidableEq, Repr

/-- A moment: a day, the time of day, and perhaps how far the clock is ahead
of universal time, in minutes. -/
structure Moment where
  day : Day
  hour : Nat
  minute : Nat
  second : Nat
  microsecond : Nat
  offset : Option Int := none
  deriving DecidableEq, Repr

-- ============================================================ the calendar

/-- Every fourth year has a day more, but of the full centuries only every
fourth. -/
def isLeap (year : Nat) : Bool :=
  year % 4 = 0 && (year % 100 ≠ 0 || year % 400 = 0)

/-- How many days a month has. -/
def daysIn (year month : Nat) : Nat :=
  if month = 2 then if isLeap year then 29 else 28
  else if [4, 6, 9, 11].contains month then 30
  else 31

/-- Why there is no such day or moment. -/
inductive CalendarFault where
  | year (n : Nat)
  | month
  | day
  | hour
  | minute
  | second
  /-- A clock cannot be a day or more ahead or behind. -/
  | offset (minutes : Int)
  deriving DecidableEq, Repr

/-- What is wrong with a day. -/
def Day.fault? (d : Day) : Option CalendarFault :=
  if d.year = 0 then some (.year d.year)
  else if d.month = 0 ∨ 12 < d.month then some .month
  else if d.day = 0 ∨ daysIn d.year d.month < d.day then some .day
  else none

/-- The minutes of a day. -/
def minutesPerDay : Nat := 24 * 60

/-- What is wrong with a moment: of several faults the clock's comes first,
then the day's, then the time's. -/
def Moment.fault? (m : Moment) : Option CalendarFault :=
  match m.offset.filter fun minutes => minutesPerDay ≤ minutes.natAbs with
  | some minutes => some (.offset minutes)
  | none =>
    match m.day.fault? with
    | some fault => some fault
    | none =>
      if 23 < m.hour then some .hour
      else if 59 < m.minute then some .minute
      else if 59 < m.second then some .second
      else none

-- ================================================================= wording

/-- A length of time, as it is written inside a list. -/
def durationCode (minutes : Int) : String :=
  let seconds := minutes * 60
  let days := seconds / 86400
  let rest := seconds % 86400
  let parts := (if days = 0 then [] else [s!"days={days}"])
    ++ (if rest = 0 then [] else [s!"seconds={rest}"])
  "datetime.timedelta(" ++ ", ".intercalate parts ++ ")"

/-- A fault of the calendar in words. -/
def CalendarFault.message : CalendarFault → String
  | .year n => s!"year {n} is out of range"
  | .month => "month must be in 1..12"
  | .day => "day is out of range for month"
  | .hour => "hour must be in 0..23"
  | .minute => "minute must be in 0..59"
  | .second => "second must be in 0..59"
  | .offset minutes =>
    "offset must be a timedelta strictly between -timedelta(hours=24) and timedelta(hours=24), "
      ++ s!"not {durationCode minutes}."

end SamScript

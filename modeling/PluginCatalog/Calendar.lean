/-!
# Dates and moments

* `Date` is a day of the Gregorian calendar between the years 1 and 9999, `Moment` a time on such
  a day, with or without a time zone.
* `Date.of?` and `Moment.of?` refuse what the calendar and the clock do not have.
* `Date.text` and `Moment.text` are the plain texts, `Date.literal` and `Moment.literal` the ones
  that name the kind of the value.
-/

namespace PluginCatalog

/-- A number with zeros in front up to the given width. -/
def padded (width n : Nat) : String :=
  let ds := Nat.toDigits 10 n
  String.ofList (List.replicate (width - ds.length) '0' ++ ds)

/-! ## Dates -/

/-- A day of the calendar. -/
structure Date where
  year : Nat
  month : Nat
  day : Nat
  deriving DecidableEq, Repr

namespace Date

/-- Leap years are the years divisible by four, except full centuries not divisible by 400. -/
def isLeap (year : Nat) : Bool := year % 4 == 0 && (year % 100 != 0 || year % 400 == 0)

/-- The number of days of a month. -/
def daysIn (year month : Nat) : Nat :=
  match month with
  | 2 => if isLeap year then 29 else 28
  | 4 | 6 | 9 | 11 => 30
  | _ => 31

/-- The day with these numbers, if the calendar has it. -/
def of? (year month day : Nat) : Option Date :=
  if 1 ≤ year ∧ year ≤ 9999 ∧ 1 ≤ month ∧ month ≤ 12 ∧ 1 ≤ day ∧ day ≤ daysIn year month then
    some { year, month, day }
  else none

/-- Year, month and day with hyphens between them. -/
def text (d : Date) : String :=
  s!"{padded 4 d.year}-{padded 2 d.month}-{padded 2 d.day}"

/-- The date with the name of its kind. -/
def literal (d : Date) : String := s!"datetime.date({d.year}, {d.month}, {d.day})"

end Date

/-! ## Moments -/

/-- A time on a day; `zone` is the offset from universal time in minutes, if known. -/
structure Moment where
  date : Date
  hour : Nat
  minute : Nat
  second : Nat
  microsecond : Nat
  zone : Option Int
  deriving DecidableEq, Repr

namespace Moment

/-- The moment with these numbers, if calendar and clock have it; an offset is less than a day. -/
def of? (date : Option Date) (hour minute second microsecond : Nat) (zone : Option Int) :
    Option Moment := do
  let date ← date
  if hour < 24 ∧ minute < 60 ∧ second < 60 ∧ (zone.getD 0).natAbs < 1440 then
    some { date, hour, minute, second, microsecond, zone }
  else none

/-- An offset as a sign, hours and minutes. -/
def zoneText (offset : Int) : String :=
  let sign := if offset < 0 then "-" else "+"
  sign ++ padded 2 (offset.natAbs / 60) ++ ":" ++ padded 2 (offset.natAbs % 60)

/-- The date, a space, the time of day, fractions of a second if there are any, and the offset. -/
def text (m : Moment) : String :=
  let clock := s!"{padded 2 m.hour}:{padded 2 m.minute}:{padded 2 m.second}"
  let fraction := if m.microsecond = 0 then "" else "." ++ padded 6 m.microsecond
  m.date.text ++ " " ++ clock ++ fraction ++ (m.zone.map zoneText).getD ""

/-- An offset with the name of its kind, a negative one as less than a day before. -/
def zoneLiteral (offset : Int) : String :=
  if offset = 0 then "datetime.timezone.utc"
  else if 0 < offset then s!"datetime.timezone(datetime.timedelta(seconds={offset * 60}))"
  else s!"datetime.timezone(datetime.timedelta(days=-1, seconds={86400 + offset * 60}))"

/-- The moment with the name of its kind; seconds are left out if they and the fraction are zero,
the fraction if it is zero. -/
def literal (m : Moment) : String :=
  let second := if m.second = 0 ∧ m.microsecond = 0 then "" else s!", {m.second}"
  let fraction := if m.microsecond = 0 then "" else s!", {m.microsecond}"
  let zone := (m.zone.map fun offset => ", tzinfo=" ++ zoneLiteral offset).getD ""
  s!"datetime.datetime({m.date.year}, {m.date.month}, {m.date.day}, {m.hour}, {m.minute}"
    ++ second ++ fraction ++ zone ++ ")"

end Moment

end PluginCatalog

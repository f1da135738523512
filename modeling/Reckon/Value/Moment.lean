import Reckon.Decimal.Numeral

/-!
Days of the calendar, and moments: a day with a time of the day.

A moment may know its zone, as the minutes by which the local clock is ahead of universal time.
Moments that know it are compared by when they are, others by what the clock shows.
-/

set_option autoImplicit false

namespace Reckon

def Decimal.zeroPadded (width n : Nat) : String :=
  let written := Decimal.digits n
  String.ofList (List.replicate (width - written.length) '0' ++ written)

namespace Calendar

def isLeap (year : Nat) : Bool :=
  year % 4 == 0 && (year % 100 != 0 || year % 400 == 0)

def daysIn (year month : Nat) : Nat :=
  if month = 2 then (if isLeap year then 29 else 28)
  else if month = 4 ∨ month = 6 ∨ month = 9 ∨ month = 11 then 30
  else 31

def daysBefore (year month : Nat) : Nat :=
  (List.range (month - 1)).foldl (fun days i => days + daysIn year (i + 1)) 0

def dayNumber (year month day : Nat) : Nat :=
  let years := year - 1
  365 * years + years / 4 - years / 100 + years / 400 + daysBefore year month + day

def dayText (year month day : Nat) : String :=
  Decimal.zeroPadded 4 year ++ "-" ++ Decimal.zeroPadded 2 month ++ "-"
    ++ Decimal.zeroPadded 2 day

end Calendar

structure Moment where
  year : Nat
  month : Nat
  day : Nat
  hour : Nat
  minute : Nat
  second : Nat
  microsecond : Nat
  /-- The minutes by which the clock is ahead of universal time, if that is known. -/
  offset : Option Int
  deriving DecidableEq, Repr

namespace Moment

def offsetText (minutes : Int) : String :=
  (if minutes < 0 then "-" else "+") ++ Decimal.zeroPadded 2 (minutes.natAbs / 60) ++ ":"
    ++ Decimal.zeroPadded 2 (minutes.natAbs % 60)

def text (m : Moment) : String :=
  Calendar.dayText m.year m.month m.day ++ " " ++ Decimal.zeroPadded 2 m.hour ++ ":"
    ++ Decimal.zeroPadded 2 m.minute ++ ":" ++ Decimal.zeroPadded 2 m.second
    ++ (if m.microsecond = 0 then "" else "." ++ Decimal.zeroPadded 6 m.microsecond)
    ++ match m.offset with
      | none => ""
      | some minutes => offsetText minutes

def spanShown (minutes : Int) : String :=
  let days := minutes.fdiv 1440
  let seconds := 60 * minutes.fmod 1440
  let part := fun (name : String) (n : Int) =>
    if n = 0 then [] else [name ++ "=" ++ Decimal.whole n]
  "datetime.timedelta(" ++ ", ".intercalate (part "days" days ++ part "seconds" seconds) ++ ")"

def zoneShown (minutes : Int) : String :=
  if minutes = 0 then "datetime.timezone.utc"
  else "datetime.timezone(" ++ spanShown minutes ++ ")"

/-- The moment as a message names it: seconds and fractions are left out when they are zero. -/
def shown (m : Moment) : String :=
  let last := if m.microsecond ≠ 0 then [m.second, m.microsecond]
    else if m.second ≠ 0 then [m.second] else []
  let parts := [m.year, m.month, m.day, m.hour, m.minute] ++ last
  let zone := match m.offset with
    | none => ""
    | some minutes => ", tzinfo=" ++ zoneShown minutes
  "datetime.datetime(" ++ ", ".intercalate (parts.map fun (n : Nat) => Decimal.whole n) ++ zone
    ++ ")"

def clock (m : Moment) : Int :=
  let minutes := 1440 * Calendar.dayNumber m.year m.month m.day + 60 * m.hour + m.minute
  1000000 * (60 * minutes + m.second) + m.microsecond

def same (a b : Moment) : Bool :=
  match a.offset, b.offset with
  | none, none => a.clock == b.clock
  | some here, some there => a.clock - 60000000 * here == b.clock - 60000000 * there
  | _, _ => false

end Moment

end Reckon

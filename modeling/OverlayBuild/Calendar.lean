import OverlayBuild.Text.Numeral

/-! Dates and times of the proleptic Gregorian calendar, years 1 to 9999, with an
optional offset from universal time. -/
namespace OverlayBuild

open Text

structure Date where
  year : Nat
  month : Nat
  day : Nat
  deriving DecidableEq, Repr

structure DateTime where
  date : Date
  hour : Nat
  minute : Nat
  second : Nat
  microsecond : Nat
  /-- Seconds east of universal time. -/
  offset : Option Int
  deriving DecidableEq, Repr

namespace Calendar

inductive Fault where
  | year (n : Nat)
  | month
  | day
  | hour
  | minute
  | second
  | offset (seconds : Int)
  deriving DecidableEq, Repr

/-- A span of time in whole days and the seconds left over. -/
def spanText (seconds : Int) : List Char :=
  let days := seconds.fdiv 86400
  let rest := seconds.fmod 86400
  let field (name : String) (n : Int) : List (List Char) :=
    if n = 0 then [] else [name.toList ++ '=' :: integer n]
  let fields := match field "days" days ++ field "seconds" rest with
    | [] => ['0']
    | [a] => a
    | a :: b :: _ => a ++ [',', ' '] ++ b
  "datetime.timedelta(".toList ++ fields ++ [')']

def Fault.message : Fault → String
  | .year n => "year " ++ String.ofList (decimal n) ++ " is out of range"
  | .month => "month must be in 1..12"
  | .day => "day is out of range for month"
  | .hour => "hour must be in 0..23"
  | .minute => "minute must be in 0..59"
  | .second => "second must be in 0..59"
  | .offset seconds =>
    "offset must be a timedelta strictly between -timedelta(hours=24) and timedelta(hours=24), not "
      ++ String.ofList (spanText seconds) ++ "."

def isLeap (year : Nat) : Bool := year % 4 == 0 && (year % 100 != 0 || year % 400 == 0)

def daysIn (year month : Nat) : Nat :=
  if month = 2 then if isLeap year then 29 else 28
  else if month = 4 ∨ month = 6 ∨ month = 9 ∨ month = 11 then 30
  else 31

end Calendar

open Calendar

/-- The date of the numbers, checked from the year on. -/
def Date.of (year month day : Nat) : Except Fault Date :=
  if year < 1 ∨ 9999 < year then .error (.year year)
  else if month < 1 ∨ 12 < month then .error .month
  else if day < 1 ∨ daysIn year month < day then .error .day
  else .ok ⟨year, month, day⟩

def DateTime.of (year month day hour minute second microsecond : Nat) (offset : Option Int) :
    Except Fault DateTime := do
  let date ← Date.of year month day
  if 23 < hour then .error .hour
  else if 59 < minute then .error .minute
  else if 59 < second then .error .second
  else .ok ⟨date, hour, minute, second, microsecond, offset⟩

/-- An offset is less than a day either way. -/
def Calendar.checkOffset (seconds : Int) : Except Fault Int :=
  if -86400 < seconds ∧ seconds < 86400 then .ok seconds else .error (.offset seconds)

def Date.text (d : Date) : List Char :=
  fixedDecimal 4 d.year ++ '-' :: fixedDecimal 2 d.month ++ '-' :: fixedDecimal 2 d.day

/-- Hours, minutes and, unless they are zero, seconds. -/
def Calendar.offsetText (seconds : Int) : List Char :=
  let n := seconds.natAbs
  (if seconds < 0 then '-' else '+') :: fixedDecimal 2 (n / 3600) ++ ':'
    :: fixedDecimal 2 (n / 60 % 60)
    ++ if n % 60 = 0 then [] else ':' :: fixedDecimal 2 (n % 60)

def DateTime.text (t : DateTime) : List Char :=
  t.date.text ++ ' ' :: fixedDecimal 2 t.hour ++ ':' :: fixedDecimal 2 t.minute ++ ':'
    :: fixedDecimal 2 t.second
    ++ (if t.microsecond = 0 then [] else '.' :: fixedDecimal 6 t.microsecond)
    ++ (t.offset.map offsetText).getD []

/-- Days since the last day before the calendar. -/
def Date.number (d : Date) : Nat :=
  let before := d.year - 1
  365 * before + before / 4 - before / 100 + before / 400
    + (List.range (d.month - 1)).foldl (fun days m => days + daysIn d.year (m + 1)) 0 + d.day

/-- Microseconds on the clock since the last day before the calendar. -/
def DateTime.clock (t : DateTime) : Int :=
  (((t.date.number * 24 + t.hour) * 60 + t.minute) * 60 + t.second) * 1000000 + t.microsecond

def DateTime.instant? (t : DateTime) : Option Int :=
  t.offset.map fun s => t.clock - s * 1000000

def Calendar.arguments (ns : List Nat) : List Char :=
  (ns.map decimal).intersperse [',', ' '] |>.flatten

def Date.expression (d : Date) : List Char :=
  "datetime.date(".toList ++ arguments [d.year, d.month, d.day] ++ [')']

def Calendar.offsetExpression (seconds : Int) : List Char :=
  if seconds = 0 then "datetime.timezone.utc".toList
  else "datetime.timezone(".toList ++ spanText seconds ++ [')']

/-- The moment as an expression that makes it; seconds and microseconds at the end are
left out when they are zero. -/
def DateTime.expression (t : DateTime) : List Char :=
  let small := if t.microsecond ≠ 0 then [t.second, t.microsecond]
    else if t.second ≠ 0 then [t.second] else []
  "datetime.datetime(".toList
    ++ arguments ([t.date.year, t.date.month, t.date.day, t.hour, t.minute] ++ small)
    ++ (t.offset.map fun s => ", tzinfo=".toList ++ offsetExpression s).getD []
    ++ [')']

end OverlayBuild

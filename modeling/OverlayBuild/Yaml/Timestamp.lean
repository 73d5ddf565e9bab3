import OverlayBuild.Calendar
import OverlayBuild.Number.Reading

/-! The written form of dates and moments: year, month and day, then perhaps a time with
a fraction and an offset. -/
namespace OverlayBuild.Yaml

open Text

structure Timestamp.Zone where
  negative : Bool
  hours : Nat
  minutes : Nat
  deriving DecidableEq, Repr

structure Timestamp.Clock where
  hour : Nat
  minute : Nat
  second : Nat
  /-- The digits after the point. -/
  fraction : List Char
  zone : Option Timestamp.Zone
  deriving DecidableEq, Repr

structure Timestamp where
  year : Nat
  month : Nat
  day : Nat
  /-- Whether month and day are written with two digits each. -/
  padded : Bool
  clock : Option Timestamp.Clock
  deriving DecidableEq, Repr

namespace Timestamp

/-- A number of `least` to `most` ASCII digits, how many there were, and the rest. -/
def number? (least most : Nat) (cs : List Char) : Option (Nat × Nat × List Char) :=
  let ds := (cs.take most).takeWhile Char.isDigit
  if least ≤ ds.length then
    some (ofDigits 10 (ds.map fun c => c.toNat - 0x30), ds.length, cs.drop ds.length)
  else none

def after? (c : Char) : List Char → Option (List Char)
  | x :: rest => if x = c then some rest else none
  | [] => none

def isBlank (c : Char) : Bool := c == ' ' || c == '\t'

/-- An offset at the end of a text: `Z`, or hours and perhaps minutes after a sign. -/
def zone? (cs : List Char) : Option Zone :=
  match cs with
  | ['Z'] => some ⟨false, 0, 0⟩
  | sign :: rest =>
    if sign = '-' ∨ sign = '+' then do
      let (hours, _, rest) ← number? 1 2 rest
      match rest with
      | [] => some ⟨sign = '-', hours, 0⟩
      | _ =>
        let (minutes, _, rest) ← number? 2 2 (← after? ':' rest)
        if rest = [] then some ⟨sign = '-', hours, minutes⟩ else none
    else none
  | [] => none

def clock? (cs : List Char) : Option Clock := do
  let (hour, _, rest) ← number? 1 2 cs
  let (minute, _, rest) ← number? 2 2 (← after? ':' rest)
  let (second, _, rest) ← number? 2 2 (← after? ':' rest)
  let (fraction, rest) := match rest with
    | '.' :: rest => rest.span Char.isDigit
    | rest => ([], rest)
  if rest = [] then some ⟨hour, minute, second, fraction, none⟩
  else
    let zone ← zone? (rest.dropWhile isBlank)
    some ⟨hour, minute, second, fraction, some zone⟩

/-- The rest after what parts a date from a time: the letter T or blanks. -/
def afterDate? (cs : List Char) : Option (List Char) :=
  match cs with
  | 'T' :: rest | 't' :: rest => some rest
  | c :: rest => if isBlank c then some (rest.dropWhile isBlank) else none
  | [] => none

def parse? (cs : List Char) : Option Timestamp := do
  let (year, _, rest) ← number? 4 4 cs
  let (month, m, rest) ← number? 1 2 (← after? '-' rest)
  let (day, d, rest) ← number? 1 2 (← after? '-' rest)
  let padded := m == 2 && d == 2
  match rest with
  | [] => some ⟨year, month, day, padded, none⟩
  | rest =>
    let clock ← clock? (← afterDate? rest)
    some ⟨year, month, day, padded, some clock⟩

/-- Without quotes or tag, a date counts as one only in the padded form. -/
def isEvident (t : Timestamp) : Bool := t.clock.isSome || t.padded

/-- The fraction in microseconds; further digits are dropped. -/
def microseconds (fraction : List Char) : Nat :=
  let ds := (fraction.take 6).map fun c => c.toNat - 0x30
  ofDigits 10 (ds ++ List.replicate (6 - ds.length) 0)

def Zone.seconds (z : Zone) : Int :=
  let n : Int := z.hours * 3600 + z.minutes * 60
  if z.negative then -n else n

def value (t : Timestamp) : Except Calendar.Fault (Date ⊕ DateTime) :=
  match t.clock with
  | none => (Date.of t.year t.month t.day).map .inl
  | some clock => do
    let offset ← clock.zone.mapM fun z => Calendar.checkOffset z.seconds
    let moment ← DateTime.of t.year t.month t.day clock.hour clock.minute clock.second
      (microseconds clock.fraction) offset
    return .inr moment

end OverlayBuild.Yaml.Timestamp

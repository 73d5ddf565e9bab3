import OverlayBuild.Number.Binary64
import OverlayBuild.Text.Basic
import OverlayBuild.Text.Quoted

/-! Reading integers and floating point numbers from free text: blanks around them, a
sign, single underscores between digits, and decimal digits of any script. -/
namespace OverlayBuild.Number

open Text

inductive Fault where
  | notInteger (base : Nat) (shown : List Char)
  | tooManyDigits (count : Nat)
  | notFloat (shown : List Char)
  deriving DecidableEq, Repr

/-- The most decimal digits an integer is read from or written to. -/
def maxDigits : Nat := 4300

def Fault.message : Fault → String
  | .notInteger base shown =>
    "invalid literal for int() with base " ++ String.ofList (decimal base) ++ ": "
      ++ String.ofList (shown.take 200)
  | .tooManyDigits count =>
    "Exceeds the limit (4300 digits) for integer string conversion: value has "
      ++ String.ofList (decimal count)
      ++ " digits; use sys.set_int_max_str_digits() to increase the limit"
  | .notFloat shown => "could not convert string to float: " ++ String.ofList shown

/-- The blanks that may surround a number: white space but for the ASCII separators. -/
def isNumberBlank (c : Char) : Bool := isBlank c && !(0x1c ≤ c.toNat && c.toNat ≤ 0x1f)

def trimBlanks (cs : List Char) : List Char :=
  dropEndWhile isNumberBlank (cs.dropWhile isNumberBlank)

def takeSign : List Char → Bool × List Char
  | '-' :: rest => (true, rest)
  | '+' :: rest => (false, rest)
  | cs => (false, cs)

def digitOf? (base : Nat) (c : Char) : Option Nat :=
  ((hexValue? c).orElse fun _ => digitValue? c).filter (· < base)

/-- After `0b`, `0o` or `0x`, where the base has that mark, one underscore may stand
before the digits. -/
def dropBaseMark (base : Nat) : List Char → List Char
  | '0' :: m :: rest =>
    if (base = 16 ∧ (m = 'x' ∨ m = 'X')) ∨ (base = 8 ∧ (m = 'o' ∨ m = 'O'))
        ∨ (base = 2 ∧ (m = 'b' ∨ m = 'B')) then
      match rest with
      | '_' :: digits => digits
      | digits => digits
    else '0' :: m :: rest
  | cs => cs

/-- Every underscore stands between two digits; `after` tells whether a digit was just
read. -/
def separated (isDigit : Char → Bool) (after : Bool) : List Char → Bool
  | [] => true
  | '_' :: rest => after && rest.head?.any isDigit && separated isDigit false rest
  | c :: rest => separated isDigit (isDigit c) rest

def readInteger (base : Nat) (cs : List Char) : Except Fault Int :=
  let shown := quoted cs
  let (negative, body) := takeSign (trimBlanks cs)
  let body := dropBaseMark base body
  let isDigit (c : Char) : Bool := (digitOf? base c).isSome
  let (run, rest) := body.span fun c => isDigit c || c == '_'
  let digits := run.filterMap (digitOf? base)
  if !separated isDigit false run then .error (.notInteger base shown)
  else if base = 10 ∧ maxDigits < digits.length then .error (.tooManyDigits digits.length)
  else if rest ≠ [] ∨ digits = [] then .error (.notInteger base shown)
  else
    let n : Int := ofDigits base digits
    .ok (if negative then -n else n)

/-- The special names of floating point numbers, in any case. -/
def special? (cs : List Char) : Option Binary64 :=
  let name := String.ofList (cs.map Char.toLower)
  if name = "inf" ∨ name = "infinity" then some (.infinite false)
  else if name = "nan" then some .nan
  else none

def readDecimal? (cs : List Char) : Option Binary64 :=
  let isDigit (c : Char) : Bool := (digitValue? c).isSome
  let (whole, rest) := cs.span isDigit
  let (fraction, rest) := match rest with
    | '.' :: rest => rest.span isDigit
    | rest => ([], rest)
  let digits := (whole ++ fraction).filterMap digitValue?
  let finish (exponent : Int) : Binary64 :=
    let significant := digits.dropWhile (· == 0)
    .ofDecimal false (ofDigits 10 significant) significant.length
      (exponent - fraction.length)
  if digits = [] then none
  else match rest with
    | [] => some (finish 0)
    | e :: rest =>
      if e = 'e' ∨ e = 'E' then
        let (negative, power) := takeSign rest
        let powerDigits := power.filterMap digitValue?
        if power = [] ∨ powerDigits.length ≠ power.length then none
        else
          let n : Int := ofDigits 10 powerDigits
          some (finish (if negative then -n else n))
      else none

def readFloat (cs : List Char) : Except Fault Binary64 :=
  let (negative, body) := takeSign (trimBlanks cs)
  let magnitude :=
    if separated (fun c => (digitValue? c).isSome) false body then
      (special? body).orElse fun _ => readDecimal? (body.filter (· != '_'))
    else none
  match magnitude with
  | some x => .ok (if negative then x.neg else x)
  | none => .error (.notFloat (quoted cs))

end OverlayBuild.Number

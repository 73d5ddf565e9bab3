import OverlayBuild.Yaml.Timestamp

/-! The tags of plain scalars, read off their text, and the names of the tags. -/
namespace OverlayBuild.Yaml

namespace Tag

def core (name : String) : String := "tag:yaml.org,2002:" ++ name

def str : String := core "str"
def null : String := core "null"
def bool : String := core "bool"
def int : String := core "int"
def float : String := core "float"
def timestamp : String := core "timestamp"
def merge : String := core "merge"
def value : String := core "value"
def binary : String := core "binary"
def seq : String := core "seq"
def map : String := core "map"
def set : String := core "set"
def omap : String := core "omap"
def pairs : String := core "pairs"

end Tag

structure Schema where
  /-- Whether dates and moments, and the lone equals sign, are more than text. -/
  timestamps : Bool

def Schema.full : Schema := ⟨true⟩

/-- Dates, moments and the equals sign stay text. -/
def Schema.manifest : Schema := ⟨false⟩

def boolWords : List String := [
  "yes", "Yes", "YES", "no", "No", "NO", "true", "True", "TRUE", "false", "False", "FALSE",
  "on", "On", "ON", "off", "Off", "OFF"]

def dropSign : List Char → List Char
  | '-' :: rest | '+' :: rest => rest
  | cs => cs

def isDigitOrUnderscore (c : Char) : Bool := c.isDigit || c == '_'

/-- Groups of a colon and one or two digits, the first of two at most five; none or more
of them, and the rest. -/
def skipSixties (cs : List Char) : Nat × List Char :=
  match cs with
  | ':' :: a :: b :: rest =>
    if a.isDigit && b.isDigit then
      if a ≤ '5' then let (n, rest) := skipSixties rest; (n + 1, rest) else (0, cs)
    else if a.isDigit then let (n, rest) := skipSixties (b :: rest); (n + 1, rest)
    else (0, cs)
  | [':', a] => if a.isDigit then (1, []) else (0, cs)
  | cs => (0, cs)
termination_by cs.length

def isExponent : List Char → Bool
  | [] => true
  | e :: sign :: ds =>
    (e == 'e' || e == 'E') && (sign == '-' || sign == '+') && ds != [] && ds.all Char.isDigit
  | _ => false

/-- Digits before a point, and what may follow it; or base sixty with a point. -/
def isPointed (cs : List Char) : Bool :=
  match cs with
  | d :: _ =>
    d.isDigit && match skipSixties (cs.dropWhile isDigitOrUnderscore) with
      | (0, '.' :: rest) => isExponent (rest.dropWhile isDigitOrUnderscore)
      | (_ + 1, '.' :: rest) => rest.all isDigitOrUnderscore
      | _ => false
  | [] => false

def isLeadingPoint : List Char → Bool
  | '.' :: d :: rest => d.isDigit && isExponent (rest.dropWhile isDigitOrUnderscore)
  | _ => false

def infinities : List String := [".inf", ".Inf", ".INF"]

def nans : List String := [".nan", ".NaN", ".NAN"]

def isFloat (cs : List Char) : Bool :=
  isPointed (dropSign cs) || isLeadingPoint cs
    || infinities.contains (String.ofList (dropSign cs)) || nans.contains (String.ofList cs)

def isOctal (c : Char) : Bool := '0' ≤ c && c ≤ '7'

def isInt (cs : List Char) : Bool :=
  match dropSign cs with
  | ['0'] => true
  | '0' :: 'b' :: ds => ds != [] && ds.all fun c => c == '0' || c == '1' || c == '_'
  | '0' :: 'x' :: ds => ds != [] && ds.all fun c => (Text.hexValue? c).isSome || c == '_'
  | '0' :: ds => ds.all fun c => isOctal c || c == '_'
  | d :: ds => d.isDigit && match skipSixties (ds.dropWhile isDigitOrUnderscore) with
    | (_, rest) => rest == []
  | [] => false

def Schema.tagOfLine (schema : Schema) (cs : List Char) : String :=
  let text := String.ofList cs
  if boolWords.contains text then Tag.bool
  else if isFloat cs then Tag.float
  else if isInt cs then Tag.int
  else if text = "<<" then Tag.merge
  else if text = "~" ∨ text = "null" ∨ text = "Null" ∨ text = "NULL" then Tag.null
  else if schema.timestamps && (Timestamp.parse? cs).any Timestamp.isEvident then Tag.timestamp
  else if schema.timestamps && text == "=" then Tag.value
  else if text = "!" ∨ text = "&" ∨ text = "*" then Tag.core "yaml"
  else Tag.str

/-- A text but for the line break at its end. Patterns for whole texts pass over that. -/
def withoutBreak (cs : List Char) : List Char :=
  if cs.getLast? = some '\n' then cs.dropLast else cs

def Schema.tagOf (schema : Schema) (text : String) : String :=
  let cs := text.toList
  if cs = [] then Tag.null else schema.tagOfLine (withoutBreak cs)

end OverlayBuild.Yaml

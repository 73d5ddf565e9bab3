import OverlayBuild.Text.Base64
import OverlayBuild.Text.Basic
import OverlayBuild.Text.Lowercase
import OverlayBuild.Value.Mapping
import OverlayBuild.Yaml.Failure
import OverlayBuild.Yaml.Tag

/-! The values of scalars by their tags. -/
namespace OverlayBuild.Yaml

open Text

/-- Signed text without its sign. Text of no characters has no first one to look at. -/
def splitSign (cs : List Char) : Except Mismatch (Bool × List Char) :=
  match cs with
  | [] => .error .noDigits
  | '-' :: rest => .ok (true, rest)
  | '+' :: rest => .ok (false, rest)
  | cs => .ok (false, cs)

def readInt (base : Nat) (cs : List Char) : Except Mismatch Int :=
  (Number.readInteger base cs).mapError .number

/-- An integer: binary, octal after a zero, hexadecimal, base sixty or decimal. -/
def intValue (cs : List Char) : Except Mismatch Int := do
  let (negative, body) ← splitSign (cs.filter (· != '_'))
  let n ← match body with
    | [] => .error .noDigits
    | '0' :: 'b' :: ds => readInt 2 ds
    | '0' :: 'x' :: ds => readInt 16 ds
    | ['0'] => .ok 0
    | '0' :: ds => readInt 8 ('0' :: ds)
    | ds =>
      if ds.contains ':' then do
        let parts ← (splitAt ':' ds).mapM (readInt 10)
        pure (parts.foldl (fun n part => n * 60 + part) 0)
      else readInt 10 ds
  return if negative then -n else n

def readFloat (cs : List Char) : Except Mismatch Binary64 :=
  (Number.readFloat cs).mapError .number

/-- The sum of parts, the last first, each times its power of sixty. -/
def sixtiesSum (power : Nat) (sum : Binary64) : List Binary64 → Except Mismatch Binary64
  | [] => .ok sum
  | part :: parts =>
    match Binary64.ofInt (60 ^ power) with
    | .infinite _ => .error .tooLarge
    | base => sixtiesSum (power + 1) (sum.add (part.mul base)) parts

def floatValue (cs : List Char) : Except Mismatch Binary64 := do
  let (negative, body) ← splitSign (lower (cs.filter (· != '_')))
  let signed (x : Binary64) : Binary64 := if negative then x.neg else x
  let text := String.ofList body
  if text = ".inf" then return signed (.infinite false)
  else if text = ".nan" then return .nan
  else if body.contains ':' then do
    let parts ← (splitAt ':' body).mapM readFloat
    return signed (← sixtiesSum 0 .zero parts.reverse)
  else return signed (← readFloat body)

def boolValue (cs : List Char) : Except Mismatch Bool :=
  let word := String.ofList (lower cs)
  if ["yes", "true", "on"].contains word then .ok true
  else if ["no", "false", "off"].contains word then .ok false
  else .error (.boolean word)

def bytesValue (cs : List Char) : Except Problem (List UInt8) :=
  if cs.any fun c => 0x80 ≤ c.toNat then .error (.base64Text cs)
  else (Base64.decode cs).mapError fun
    | .leftOver count => .base64Length count
    | .padding => .base64Padding

def timestampValue (cs : List Char) : Except Mismatch Value :=
  match Timestamp.parse? (withoutBreak cs) with
  | none => .error .noMoment
  | some t => (t.value.mapError Mismatch.moment).map fun
    | .inl date => .date date
    | .inr moment => .datetime moment

inductive ScalarTag where
  | null
  | bool
  | int
  | float
  | binary
  | timestamp
  | str
  deriving DecidableEq, Repr

def ScalarTag.of? (tag : String) : Option ScalarTag :=
  if tag = Tag.null then some .null
  else if tag = Tag.bool then some .bool
  else if tag = Tag.int then some .int
  else if tag = Tag.float then some .float
  else if tag = Tag.binary then some .binary
  else if tag = Tag.timestamp then some .timestamp
  else if tag = Tag.str then some .str
  else none

def ScalarTag.value (tag : ScalarTag) (text : String) (start : Mark) : Except Failure Value :=
  let cs := text.toList
  let fit {α : Type} (wrap : α → Value) (x : Except Mismatch α) : Except Failure Value :=
    (x.mapError Failure.mismatch).map wrap
  match tag with
  | .null => .ok .null
  | .bool => fit .bool (boolValue cs)
  | .int => fit .int (intValue cs)
  | .float => fit .float (floatValue cs)
  | .binary => ((bytesValue cs).mapError (failAt · start)).map .bytes
  | .timestamp => fit id (timestampValue cs)
  | .str => .ok (.str text)

end OverlayBuild.Yaml

import OverlayBuild.Text.Numeral
import OverlayBuild.Text.Printable
import OverlayBuild.Text.Utf8

/-! Quoted renderings of text and of byte strings, as messages show them. Single
quotes are used unless the content holds a single quote and no double quote. -/
namespace OverlayBuild.Text

def quoteFor (single double : Bool) : Char := if single && !double then '"' else '\''

/-- The number of a character in the shortest of the forms `\xhh`, `\uhhhh` and
`\Uhhhhhhhh`. -/
def numericEscape (n : Nat) : List Char :=
  if n < 0x100 then '\\' :: 'x' :: fixedHex 2 n
  else if n < 0x10000 then '\\' :: 'u' :: fixedHex 4 n
  else '\\' :: 'U' :: fixedHex 8 n

/-- Why a text cannot be encoded: the characters that the codec lacks, at the first place that has
any. -/
def encodeFault (codec reason : String) (lacks : Char → Bool) (cs : List Char) : List Char :=
  let start := (cs.takeWhile (!lacks ·)).length
  let run := (cs.drop start).takeWhile lacks
  let place := match run with
    | [c] => "character '".toList ++ numericEscape (Utf8.codePoint c) ++ "' in position ".toList
        ++ decimal start
    | _ => "characters in position ".toList ++ decimal start ++ '-'
        :: decimal (start + run.length - 1)
  '\'' :: codec.toList ++ "' codec can't encode ".toList ++ place ++ ": ".toList ++ reason.toList

def sharedEscape? (quote c : Char) : Option (List Char) :=
  if c = quote ∨ c = '\\' then some ['\\', c]
  else if c = '\t' then some ['\\', 't']
  else if c = '\n' then some ['\\', 'n']
  else if c = '\r' then some ['\\', 'r']
  else none

def quotedChar (quote c : Char) : List Char :=
  (sharedEscape? quote c).getD (if isPrintable c then [c] else numericEscape c.toNat)

def quoted (cs : List Char) : List Char :=
  let quote := quoteFor (cs.contains '\'') (cs.contains '"')
  quote :: cs.flatMap (quotedChar quote) ++ [quote]

def quotedByte (quote : Char) (b : UInt8) : List Char :=
  let c := Char.ofNat b.toNat
  (sharedEscape? quote c).getD
    (if 0x20 ≤ b.toNat ∧ b.toNat < 0x7f then [c] else '\\' :: 'x' :: fixedHex 2 b.toNat)

def quotedBytes (bs : List UInt8) : List Char :=
  let quote := quoteFor (bs.contains 0x27) (bs.contains 0x22)
  'b' :: quote :: bs.flatMap (quotedByte quote) ++ [quote]

end OverlayBuild.Text

def String.quotedText (s : String) : String := String.ofList (OverlayBuild.Text.quoted s.toList)

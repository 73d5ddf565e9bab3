import OverlayBuild.Number.Reading
import OverlayBuild.Value.Mapping

/-! Reading JSON. A scanner takes one character after the other and completes tokens, and a
stack of what is open takes the tokens. Nothing but JSON is read: no comma before a closing
bracket, no control characters in text, no zeros before a number, and no half of a pair of units
without the other. -/
namespace OverlayBuild.Json

open Text

/-! The units that text is escaped in. -/

def units (c : Char) : List Nat :=
  if c.toNat < 0x10000 then [c.toNat]
  else [0xd800 + (c.toNat - 0x10000) / 0x400, 0xdc00 + (c.toNat - 0x10000) % 0x400]

def ofUnits? : List Nat → Option (List Char)
  | [] => some []
  | n :: rest =>
    if n < 0xd800 ∨ 0xdfff < n then (ofUnits? rest).map (Char.ofNat n :: ·)
    else match rest with
      | low :: rest =>
        if n < 0xdc00 ∧ 0xdc00 ≤ low ∧ low ≤ 0xdfff then
          (ofUnits? rest).map
            (Char.ofNat (0x10000 + (n - 0xd800) * 0x400 + (low - 0xdc00)) :: ·)
        else none
      | [] => none

/-! Tokens. -/

inductive Token where
  | openList
  | closeList
  | openMap
  | closeMap
  | comma
  | colon
  | leaf (v : Value)
  deriving Repr

def mark? (c : Char) : Option Token :=
  if c = '[' then some .openList
  else if c = ']' then some .closeList
  else if c = '\x7b' then some .openMap
  else if c = '\x7d' then some .closeMap
  else if c = ',' then some .comma
  else if c = ':' then some .colon
  else none

def isSpace (c : Char) : Bool := c = ' ' || c = '\n' || c = '\r' || c = '\t'

def isWordChar (c : Char) : Bool := c.isAlphanum || c = '-' || c = '+' || c = '.'

def afterDigits? (cs : List Char) : Option (List Char) :=
  if cs.head?.any Char.isDigit then some (cs.dropWhile Char.isDigit) else none

/-- What follows the digits before the point. A zero is not followed by more of them. -/
def afterWhole? : List Char → Option (List Char)
  | '0' :: cs => some cs
  | cs => afterDigits? cs

def afterFraction? : List Char → Option (List Char)
  | '.' :: cs => afterDigits? cs
  | cs => some cs

def afterExponent? : List Char → Option (List Char)
  | c :: cs => if c = 'e' ∨ c = 'E' then afterDigits? (Number.takeSign cs).2 else some (c :: cs)
  | [] => some []

/-- The number that a word spells: an integer, unless it has a point or an exponent. -/
def number? (cs : List Char) : Option Value := do
  let rest ← afterWhole? (if cs.head? = some '-' then cs.tail else cs)
  if rest = [] then (Number.readInteger 10 cs).toOption.map .int
  else if (← afterExponent? (← afterFraction? rest)) = [] then
    (Number.readFloat cs).toOption.map .float
  else none

def word? (cs : List Char) : Option Value :=
  if cs = "null".toList then some .null
  else if cs = "true".toList then some (.bool true)
  else if cs = "false".toList then some (.bool false)
  else number? cs

def escaped? (c : Char) : Option Char :=
  if c = '"' ∨ c = '\\' ∨ c = '/' then some c
  else if c = 'b' then some '\x08'
  else if c = 'f' then some '\x0c'
  else if c = 'n' then some '\n'
  else if c = 'r' then some '\r'
  else if c = 't' then some '\t'
  else none

/-- Where the scanner stands, with what it has read of a token. -/
inductive Scan where
  | between
  | word (cs : List Char)
  | text (taken : List Nat)
  /-- After a backslash. -/
  | escape (taken : List Nat)
  /-- In the four digits of a unit. -/
  | unit (taken : List Nat) (ds : List Nat)

def Scan.start (c : Char) : Option (Scan × List Token) :=
  if isSpace c then some (.between, [])
  else if c = '"' then some (.text [], [])
  else if isWordChar c then some (.word [c], [])
  else (mark? c).map fun t => (.between, [t])

/-- Where one more character leads, and the tokens that it completes. -/
def Scan.step : Scan → Char → Option (Scan × List Token)
  | .between, c => start c
  | .word cs, c =>
    if isWordChar c then some (.word (cs ++ [c]), [])
    else do
      let v ← word? cs
      let (scan, tokens) ← start c
      return (scan, .leaf v :: tokens)
  | .text taken, c =>
    if c = '"' then (ofUnits? taken).map fun cs => (.between, [.leaf (.str (String.ofList cs))])
    else if c = '\\' then some (.escape taken, [])
    else if c.toNat < 0x20 then none
    else some (.text (taken ++ units c), [])
  | .escape taken, c =>
    if c = 'u' then some (.unit taken [], [])
    else (escaped? c).map fun d => (.text (taken ++ units d), [])
  | .unit taken ds, c => do
    let d ← hexValue? c
    let ds := ds ++ [d]
    return if ds.length < 4 then (.unit taken ds, []) else (.text (taken ++ [ofDigits 16 ds]), [])

/-! Values. -/

/-- What is open around a value: a list after its items so far, or a mapping after its entries
so far and a key. -/
inductive Frame where
  | items (before : List Value)
  | entries (before : List (Value × Value)) (name : String)

inductive State where
  | value (around : List Frame)
  /-- The first item of a list, or its end. -/
  | list (around : List Frame)
  /-- The first key of a mapping, or its end. -/
  | map (around : List Frame)
  | key (before : List (Value × Value)) (around : List Frame)
  | colon (before : List (Value × Value)) (name : String) (around : List Frame)
  /-- After a value, a comma or the end of what is around it. -/
  | after (v : Value) (around : List Frame)

def State.ofValue (around : List Frame) : Token → Option State
  | .leaf v => some (.after v around)
  | .openList => some (.list around)
  | .openMap => some (.map around)
  | _ => none

def State.ofKey (before : List (Value × Value)) (around : List Frame) : Token → Option State
  | .leaf (.str name) => some (.colon before name around)
  | _ => none

/-- A key that comes again takes the later value. -/
def State.step : State → Token → Option State
  | .value around, t => ofValue around t
  | .list around, .closeList => some (.after (.list []) around)
  | .list around, t => ofValue (.items [] :: around) t
  | .map around, .closeMap => some (.after (.map []) around)
  | .map around, t => ofKey [] around t
  | .key before around, t => ofKey before around t
  | .colon before name around, .colon => some (.value (.entries before name :: around))
  | .after v (.items before :: around), .comma => some (.value (.items (before ++ [v]) :: around))
  | .after v (.items before :: around), .closeList =>
    some (.after (.list (before ++ [v])) around)
  | .after v (.entries before name :: around), .comma =>
    some (.key (Value.insert (.str name) v before) around)
  | .after v (.entries before name :: around), .closeMap =>
    some (.after (.map (Value.insert (.str name) v before)) around)
  | _, _ => none

def advance : Scan × State → Char → Option (Scan × State)
  | (scan, state), c => do
    let (scan, tokens) ← scan.step c
    return (scan, ← tokens.foldlM State.step state)

/-- The value that a JSON text stands for. The break at the end completes a word. -/
def read (cs : List Char) : Option Value := do
  match ← (cs ++ ['\n']).foldlM advance (.between, .value []) with
  | (.between, .after v []) => some v
  | _ => none

end OverlayBuild.Json

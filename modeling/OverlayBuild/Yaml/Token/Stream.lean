import OverlayBuild.Yaml.Token.Block
import OverlayBuild.Yaml.Token.Plain
import OverlayBuild.Yaml.Token.Tag

/-! The token stream of a text. Block structure is read off indentation, and a simple
key is known only by the colon behind it: until then its place is kept, and the tokens
from there on wait. -/
namespace OverlayBuild.Yaml

/-- Items in order, up to the end or to the failure that cut them short. -/
inductive Stream (α : Type) where
  | done
  | failed (failure : Failure)
  | item (value : α) (rest : Stream α)

/-- A place where a simple key may have started: the number of its first token, and
whether the indentation leaves no other reading. -/
structure SimpleKey where
  number : Nat
  required : Bool
  mark : Mark
  deriving DecidableEq, Repr

structure Lexer where
  cursor : Cursor
  /-- How many brackets are open. -/
  flowLevel : Nat
  /-- Tokens that were read but not yet given out. -/
  waiting : List Token
  /-- How many tokens were given out. -/
  taken : Nat
  indent : Int
  outerIndents : List Int
  keyAllowed : Bool
  /-- Possible simple keys by the number of open brackets. -/
  keys : List (Nat × SimpleKey)
  ended : Bool
  deriving Repr

namespace Lexer

def start (text : List Char) : Lexer :=
  let c := Cursor.start text
  ⟨c, 0, [⟨.streamStart, c.mark, c.mark⟩], 0, -1, [], true, [], false⟩

def mark (x : Lexer) : Mark := x.cursor.mark

def column (x : Lexer) : Int := x.cursor.mark.column

def inFlow (x : Lexer) : Bool := x.flowLevel != 0

def push (x : Lexer) (kind : Token.Kind) (start stop : Mark) : Lexer :=
  { x with waiting := x.waiting ++ [⟨kind, start, stop⟩] }

def insertAt (x : Lexer) (number : Nat) (token : Token) : Lexer :=
  let n := number - x.taken
  { x with waiting := x.waiting.take n ++ token :: x.waiting.drop n }

def missingColon (x : Lexer) (key : SimpleKey) : Failure :=
  failIn .simpleKey key.mark .missingColon x.mark

/-- A simple key lies on one line and is at most 1024 characters long. -/
def isStale (x : Lexer) (key : SimpleKey) : Bool :=
  key.mark.line != x.mark.line || decide (1024 < x.mark.index - key.mark.index)

def dropStaleKeys (x : Lexer) : Except Failure Lexer :=
  match x.keys.find? fun k => x.isStale k.2 && k.2.required with
  | some (_, key) => .error (x.missingColon key)
  | none => .ok { x with keys := x.keys.filter fun k => !x.isStale k.2 }

def key? (x : Lexer) : Option SimpleKey := x.keys.lookup x.flowLevel

def forgetKey (x : Lexer) : Lexer :=
  { x with keys := x.keys.filter fun k => k.1 != x.flowLevel }

/-- No colon followed the possible key at this level of brackets. -/
def dropKey (x : Lexer) : Except Failure Lexer :=
  match x.key? with
  | none => .ok x
  | some key => if key.required then .error (x.missingColon key) else .ok x.forgetKey

def noteKey (x : Lexer) : Except Failure Lexer :=
  if x.keyAllowed then do
    let required := !x.inFlow && x.indent == x.column
    let key : SimpleKey := ⟨x.taken + x.waiting.length, required, x.mark⟩
    let x ← x.dropKey
    return { x with keys := x.keys ++ [(x.flowLevel, key)] }
  else .ok x

def allowKey (x : Lexer) (allowed : Bool) : Lexer := { x with keyAllowed := allowed }

/-- The indentations that stay open at a column, innermost first, and how many end. -/
def closeIndents (column indent : Int) : List Int → Nat → Int × List Int × Nat
  | [], closed => (indent, [], closed)
  | outer :: rest, closed =>
    if column < indent then closeIndents column outer rest (closed + 1)
    else (indent, outer :: rest, closed)

def unwind (x : Lexer) (column : Int) : Lexer :=
  if x.inFlow then x
  else
    let (indent, outer, closed) := closeIndents column x.indent x.outerIndents 0
    { x with
      indent := indent
      outerIndents := outer
      waiting := x.waiting ++ List.replicate closed ⟨.blockEnd, x.mark, x.mark⟩ }

/-- Whether a block collection starts at the column, with the lexer inside it. -/
def indentTo (x : Lexer) (column : Int) : Bool × Lexer :=
  if x.indent < column then
    (true, { x with indent := column, outerIndents := x.indent :: x.outerIndents })
  else (false, x)

def take (x : Lexer) (n : Nat) (kind : Token.Kind) : Lexer :=
  let after := x.cursor.skip n
  { x.push kind x.mark after.mark with cursor := after }

/-- Passes over spaces, comments and line breaks. A line break outside brackets allows a
simple key. -/
def skipToToken (x : Lexer) : Lexer :=
  let c := (x.cursor.skipWhile (· == ' ')).skipComment
  match c.lineBreak? with
  | none => { x with cursor := c }
  | some (_, next) =>
    let after := { x with cursor := next, keyAllowed := x.keyAllowed || !x.inFlow }
    if next.rest.length < x.cursor.rest.length then after.skipToToken else after
termination_by x.cursor.rest.length

def skipByteOrderMark (x : Lexer) : Lexer :=
  if x.mark.index = 0 ∧ x.cursor.peek = Char.ofNat 0xfeff then { x with cursor := x.cursor.next }
  else x

def endStream (x : Lexer) : Except Failure Lexer := do
  let x ← (x.unwind (-1)).dropKey
  return { (x.push .streamEnd x.mark x.mark) with keyAllowed := false, keys := [], ended := true }

def directive (x : Lexer) : Except Failure Lexer := do
  let x ← (x.unwind (-1)).dropKey
  let (d, stop, c) ← readDirective x.cursor
  return { (x.push (.directive d) x.mark stop) with keyAllowed := false, cursor := c }

def documentMarker (x : Lexer) (kind : Token.Kind) : Except Failure Lexer := do
  let x ← (x.unwind (-1)).dropKey
  return (x.allowKey false).take 3 kind

def openBracket (x : Lexer) (kind : Token.Kind) : Except Failure Lexer := do
  let x ← x.noteKey
  return ({ x with flowLevel := x.flowLevel + 1, keyAllowed := true }).take 1 kind

def closeBracket (x : Lexer) (kind : Token.Kind) : Except Failure Lexer := do
  let x ← x.dropKey
  return ({ x with flowLevel := x.flowLevel - 1, keyAllowed := false }).take 1 kind

def flowEntry (x : Lexer) : Except Failure Lexer := do
  let x ← (x.allowKey true).dropKey
  return x.take 1 .flowEntry

/-- Opens a block collection here if this column is a new indentation. -/
def openBlock (x : Lexer) (kind : Token.Kind) : Lexer :=
  let (opened, y) := x.indentTo x.column
  if opened then y.push kind y.mark y.mark else y

def blockEntry (x : Lexer) : Except Failure Lexer := do
  if !x.inFlow && !x.keyAllowed then throw (failAt .entryNotAllowed x.mark)
  let x := if x.inFlow then x else x.openBlock .blockSequenceStart
  let x ← (x.allowKey true).dropKey
  return x.take 1 .blockEntry

def explicitKey (x : Lexer) : Except Failure Lexer := do
  if !x.inFlow && !x.keyAllowed then throw (failAt .keyNotAllowed x.mark)
  let x := if x.inFlow then x else x.openBlock .blockMappingStart
  let x ← (x.allowKey (!x.inFlow)).dropKey
  return x.take 1 .key

/-- The tokens that a colon shows to have started at a simple key. -/
def confirmKey (x : Lexer) (key : SimpleKey) : Lexer :=
  let x := x.forgetKey.insertAt key.number ⟨.key, key.mark, key.mark⟩
  if x.inFlow then x
  else
    let (opened, y) := x.indentTo key.mark.column
    if opened then y.insertAt key.number ⟨.blockMappingStart, key.mark, key.mark⟩ else y

def mappingValue (x : Lexer) : Except Failure Lexer :=
  match x.key? with
  | some key => .ok (((x.confirmKey key).allowKey false).take 1 .value)
  | none => do
    if !x.inFlow && !x.keyAllowed then throw (failAt .valueNotAllowed x.mark)
    let x := if x.inFlow then x else x.openBlock .blockMappingStart
    let x ← (x.allowKey (!x.inFlow)).dropKey
    return x.take 1 .value

def anchor (x : Lexer) (activity : Activity) (kind : String → Token.Kind) :
    Except Failure Lexer := do
  let x ← x.noteKey
  let (name, c) ← readAnchor activity x.cursor
  return { (x.push (kind name) x.mark c.mark) with keyAllowed := false, cursor := c }

def tag (x : Lexer) : Except Failure Lexer := do
  let x ← x.noteKey
  let (t, c) ← readTag x.cursor
  return { (x.push (.tag t) x.mark c.mark) with keyAllowed := false, cursor := c }

def blockScalar (x : Lexer) (folded : Bool) : Except Failure Lexer := do
  let x ← (x.allowKey true).dropKey
  let (text, stop, c) ← readBlock folded x.indent x.cursor
  let kind : Token.Kind := .scalar text (if folded then .folded else .literal)
  return { (x.push kind x.mark stop) with cursor := c }

def quotedScalar (x : Lexer) (double : Bool) : Except Failure Lexer := do
  let x ← x.noteKey
  let (text, c) ← readQuoted double x.cursor
  let kind : Token.Kind := .scalar text (if double then .double else .single)
  return { (x.push kind x.mark c.mark) with keyAllowed := false, cursor := c }

def plainScalar (x : Lexer) : Except Failure Lexer := do
  let x ← x.noteKey
  let s := readPlain x.inFlow (x.indent + 1) x.cursor
  return { (x.push (.scalar (String.ofList s.text) .plain) x.mark s.stop) with
    keyAllowed := s.broken, cursor := s.cursor }

def isIndicator (c : Char) : Bool := "-?:,[]\x7b\x7d#&*!|>'\"%@\x60".toList.contains c

/-- Whether a plain scalar starts here: no indicator, or one that the next character
makes a part of it. -/
def startsPlain (x : Lexer) : Bool :=
  let c := x.cursor.peek
  let next := x.cursor.peekAt 1
  !(isBlankOrEnd c || isIndicator c)
    || (!isBlankOrEnd next && (c == '-' || (!x.inFlow && (c == '?' || c == ':'))))

def fetch (x : Lexer) : Except Failure Lexer := do
  let x ← x.skipByteOrderMark.skipToToken.dropStaleKeys
  let x := x.unwind x.column
  let c := x.cursor.peek
  let next := x.cursor.peekAt 1
  if c = sentinel then x.endStream
  else if c = '%' ∧ x.mark.column = 0 then x.directive
  else if x.mark.column = 0 ∧ x.cursor.atMarker '-' then x.documentMarker .documentStart
  else if x.mark.column = 0 ∧ x.cursor.atMarker '.' then x.documentMarker .documentEnd
  else if c = '[' then x.openBracket .flowSequenceStart
  else if c = '\x7b' then x.openBracket .flowMappingStart
  else if c = ']' then x.closeBracket .flowSequenceEnd
  else if c = '\x7d' then x.closeBracket .flowMappingEnd
  else if c = ',' then x.flowEntry
  else if c = '-' ∧ isBlankOrEnd next then x.blockEntry
  else if c = '?' ∧ (x.inFlow ∨ isBlankOrEnd next) then x.explicitKey
  else if c = ':' ∧ (x.inFlow ∨ isBlankOrEnd next) then x.mappingValue
  else if c = '*' then x.anchor .alias .alias
  else if c = '&' then x.anchor .anchor .anchor
  else if c = '!' then x.tag
  else if c = '|' ∧ !x.inFlow then x.blockScalar false
  else if c = '>' ∧ !x.inFlow then x.blockScalar true
  else if c = '\'' then x.quotedScalar false
  else if c = '"' then x.quotedScalar true
  else if x.startsPlain then x.plainScalar
  else throw (.malformed ⟨some (.nextToken, none), .badStart c, x.mark⟩)

/-- Whether the first waiting token may still turn out to be inside a simple key. -/
def needsMore (x : Lexer) : Bool :=
  x.waiting.isEmpty || x.keys.any fun k => k.2.number == x.taken

/-- Gives out tokens as soon as they are settled, at most `fuel` of them counted with
the readings in between. -/
def run : Nat → Lexer → Stream Token
  | 0, _ => .done
  | fuel + 1, x =>
    match if x.ended then .ok x else x.dropStaleKeys with
    | .error failure => .failed failure
    | .ok y =>
      if !y.ended && y.needsMore then
        match y.fetch with
        | .error failure => .failed failure
        | .ok z => run fuel z
      else match y.waiting with
        | [] => .done
        | token :: rest => .item token (run fuel { y with waiting := rest, taken := y.taken + 1 })

end Lexer

/-- The tokens of a text. Each character gives rise to a few tokens at most, which
bounds the run. -/
def tokens (text : List Char) : Stream Token := (Lexer.start text).run (8 * text.length + 32)

end OverlayBuild.Yaml

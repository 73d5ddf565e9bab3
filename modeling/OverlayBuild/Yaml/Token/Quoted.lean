import OverlayBuild.Yaml.Token.Cursor

/-! Scalars in quotes. A single quote is written twice inside single quotes; inside
double quotes a backslash starts an escape. Line breaks fold: one becomes a space, and
of more the first is dropped. -/
namespace OverlayBuild.Yaml

open Text

def simpleEscape? (c : Char) : Option Char :=
  match c with
  | '0' => some (Char.ofNat 0)
  | 'a' => some (Char.ofNat 0x07)
  | 'b' => some (Char.ofNat 0x08)
  | 't' | '\t' => some '\t'
  | 'n' => some '\n'
  | 'v' => some (Char.ofNat 0x0b)
  | 'f' => some (Char.ofNat 0x0c)
  | 'r' => some '\r'
  | 'e' => some (Char.ofNat 0x1b)
  | ' ' | '"' | '\\' | '/' => some c
  | 'N' => some (Char.ofNat 0x85)
  | '_' => some (Char.ofNat 0xa0)
  | 'L' => some (Char.ofNat 0x2028)
  | 'P' => some (Char.ofNat 0x2029)
  | _ => none

/-- How many digits follow the escapes of a code point. -/
def escapeDigits? (c : Char) : Option Nat :=
  match c with
  | 'x' => some 2
  | 'u' => some 4
  | 'U' => some 8
  | _ => none

def charOf (n : Nat) : Except Failure Char :=
  if n < 0x110000 then .ok (Utf8.ofCodePoint n)
  else .error (.mismatch (if n < 0x80000000 then .codePoint else .codePointSize))

def readCodePoint (start : Mark) (length : Nat) (c : Cursor) : Except Failure (Char × Cursor) := do
  let digit (k : Nat) : Except Failure Nat :=
    match hexValue? (c.peekAt k) with
    | some v => .ok v
    | none => .error (failIn .doubleQuotedScalar start
        (.expected (.escape length) (c.peekAt k)) c.mark)
  let digits ← (List.range length).mapM digit
  return (← charOf (ofDigits 16 digits), c.skip length)

/-- Blanks and the line breaks between them, where no document marker may start a
line. -/
def readFoldedBreaks (start : Mark) (c : Cursor) : Except Failure (List Char × Cursor) :=
  if c.atSeparator then .error (failIn .quotedScalar start .separator c.mark)
  else
    let after := c.skipWhile fun x => x == ' ' || x == '\t'
    match after.lineBreak? with
    | none => .ok ([], after)
    | some (b, next) =>
      if next.rest.length < c.rest.length then do
        let (more, c) ← readFoldedBreaks start next
        return (b :: more, c)
      else .ok ([b], next)
termination_by c.rest.length

def foldBreak (first : Char) (more : List Char) : List Char :=
  if first ≠ '\n' then first :: more else if more = [] then [' '] else more

/-- Blanks in quotes: kept inside a line, folded at its end. -/
def readQuotedSpaces (start : Mark) (c : Cursor) : Except Failure (List Char × Cursor) := do
  let (blanks, after) := c.span fun x => x == ' ' || x == '\t'
  if after.peek = sentinel then .error (failIn .quotedScalar start .unfinished after.mark)
  match after.lineBreak? with
  | none => return (blanks, after)
  | some (b, next) =>
    let (more, c) ← readFoldedBreaks start next
    return (foldBreak b more, c)

def isQuotedPlain (c : Char) : Bool :=
  !(c == '\'' || c == '"' || c == '\\' || isBlankOrEnd c)

def readEscape (start : Mark) (c : Cursor) : Except Failure (List Char × Cursor) := do
  let x := c.peek
  match simpleEscape? x, escapeDigits? x with
  | some y, _ => return ([y], c.next)
  | none, some length =>
    let (y, c) ← readCodePoint start length c.next
    return ([y], c)
  | none, none =>
    match c.lineBreak? with
    | some (_, next) => readFoldedBreaks start next
    | none => .error (failIn .doubleQuotedScalar start (.unknownEscape x) c.mark)

def readQuotedFrom (double : Bool) (start : Mark) (c : Cursor) :
    Except Failure (List Char × Cursor) :=
  let quote := if double then '"' else '\''
  let (plain, after) := c.span isQuotedPlain
  let x := after.peek
  let goOn (piece : List Char) (next : Cursor) : Except Failure (List Char × Cursor) :=
    if next.rest.length < c.rest.length then do
      let (more, c) ← readQuotedFrom double start next
      return (plain ++ piece ++ more, c)
    else .ok (plain ++ piece, next)
  if !double && x == '\'' && after.peekAt 1 == '\'' then goOn ['\''] (after.skip 2)
  else if x = quote then .ok (plain, after.next)
  else if x = '\'' ∨ x = '"' ∨ (x = '\\' ∧ double = false) then goOn [x] after.next
  else if x = '\\' then do
    let (piece, next) ← readEscape start after.next
    goOn piece next
  else do
    let (piece, next) ← readQuotedSpaces start after
    goOn piece next
termination_by c.rest.length

def readQuoted (double : Bool) (c : Cursor) : Except Failure (String × Cursor) := do
  let (content, after) ← readQuotedFrom double c.mark c.next
  return (String.ofList content, after)

end OverlayBuild.Yaml

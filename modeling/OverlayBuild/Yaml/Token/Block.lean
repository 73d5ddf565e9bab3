import OverlayBuild.Yaml.Token.Cursor

/-! Block scalars: a header of indicators, then lines indented deeper than the node
around them. Literal ones keep their line breaks, folded ones join lines by spaces. -/
namespace OverlayBuild.Yaml

inductive Chomp where
  | strip
  | clip
  | keep
  deriving DecidableEq, Repr

def chomp? (c : Char) : Option Chomp :=
  if c = '+' then some .keep else if c = '-' then some .strip else none

def readIncrement? (start : Mark) (c : Cursor) : Except Failure (Option Nat × Cursor) :=
  let x := c.peek
  if x.isDigit then
    if x = '0' then .error (failIn .blockScalar start .zeroIndent c.mark)
    else .ok (some (x.toNat - 0x30), c.next)
  else .ok (none, c)

def readChomp? (c : Cursor) : Option Chomp × Cursor :=
  match chomp? c.peek with
  | some chomp => (some chomp, c.next)
  | none => (none, c)

/-- The indicators of a header, in either order. -/
def readIndicators (start : Mark) (c : Cursor) :
    Except Failure (Chomp × Option Nat × Cursor) := do
  let (first, c) := readChomp? c
  let (increment, c) ← readIncrement? start c
  let (second, c) := if first.isNone && increment.isSome then readChomp? c else (none, c)
  c.require isSpaceOrEnd .blockScalar start .indicators
  return ((first.orElse fun _ => second).getD .clip, increment, c)

/-- The empty lines at the start of a block scalar without an indentation indicator,
the widest column of their spaces, and where the last of them stops. -/
def leadingBreaks (widest : Nat) (stop : Mark) (c : Cursor) :
    List Char × Nat × Mark × Cursor :=
  match c.lineBreak? with
  | some (b, next) =>
    if next.rest.length < c.rest.length then
      let (breaks, rest) := leadingBreaks widest next.mark next
      (b :: breaks, rest)
    else ([b], widest, next.mark, next)
  | none =>
    if c.peek = ' ' ∧ c.next.rest.length < c.rest.length then
      leadingBreaks (max widest c.next.mark.column) stop c.next
    else ([], widest, stop, c)
termination_by c.rest.length

def blockBreaks (indent : Int) (stop : Mark) (c : Cursor) : List Char × Mark × Cursor :=
  let after := c.skipSpacesTo indent
  match after.lineBreak? with
  | some (b, next) =>
    if next.rest.length < c.rest.length then
      let (breaks, rest) := blockBreaks indent next.mark next
      (b :: breaks, rest)
    else ([b], next.mark, next)
  | none => ([], stop, after)
termination_by c.rest.length

def isBlank (c : Char) : Bool := c == ' ' || c == '\t'

/-- The lines of a block scalar from a first line on, and the breaks after the last
line: that of the line itself and those of the empty lines behind it. -/
def blockLines (folded : Bool) (indent : Int) (breaks : List Char) (stop : Mark) (c : Cursor) :
    List Char × List Char × List Char × Mark × Cursor :=
  if (c.mark.column : Int) = indent ∧ c.peek ≠ sentinel then
    let (line, after) := c.span (!isBreakOrEnd ·)
    let (ending, next) := match after.lineBreak? with
      | some (b, next) => ([b], next)
      | none => ([], after)
    let (empty, stop, next) := blockBreaks indent next.mark next
    if (next.mark.column : Int) = indent ∧ next.peek ≠ sentinel
        ∧ next.rest.length < c.rest.length then
      let joint :=
        if folded && ending == ['\n'] && !isBlank c.peek && !isBlank next.peek then
          if empty = [] then [' '] else []
        else ending
      let (text, rest) := blockLines folded indent empty stop next
      (breaks ++ line ++ joint ++ text, rest)
    else (breaks ++ line, ending, empty, stop, next)
  else ([], [], breaks, stop, c)
termination_by c.rest.length

def readBlock (folded : Bool) (parent : Int) (c : Cursor) :
    Except Failure (String × Mark × Cursor) := do
  let start := c.mark
  let (chomp, increment, c) ← readIndicators start c.next
  let c ← c.endLine .blockScalar start
  let least := max 1 (parent + 1)
  let (indent, breaks, stop, c) := match increment with
    | some n =>
      let indent := least + n - 1
      let (breaks, rest) := blockBreaks indent c.mark c
      (indent, breaks, rest)
    | none =>
      let (breaks, widest, rest) := leadingBreaks 0 c.mark c
      (max least (widest : Int), breaks, rest)
  let (text, ending, empty, stop, c) := blockLines folded indent breaks stop c
  let tail := match chomp with
    | .strip => []
    | .clip => ending
    | .keep => ending ++ empty
  return (String.ofList (text ++ tail), stop, c)

end OverlayBuild.Yaml

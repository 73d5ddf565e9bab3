import OverlayBuild.Text.Numeral
import OverlayBuild.Yaml.Style

/-! Text in the course of being written: where the line stands, and scalars in each of
their styles, folded where a line passes its width. -/
namespace OverlayBuild.Yaml

open Text

def lineWidth : Nat := 80

def indentStep : Nat := 2

structure Sheet where
  /-- What was written, last first. -/
  written : List Char
  column : Nat
  /-- Whether the last character parts words. -/
  spaced : Bool
  /-- Whether only indentation and indicators stand on the line. -/
  indented : Bool
  /-- Whether the text could go on, so that its end needs a marker. -/
  openEnded : Bool
  deriving Repr

namespace Sheet

def blank : Sheet := ⟨[], 0, true, true, false⟩

def text (s : Sheet) : List Char := s.written.reverse

def write (s : Sheet) (cs : List Char) : Sheet :=
  { s with written := cs.reverse ++ s.written, column := s.column + cs.length }

/-- Writes an indicator, after a space where it must be parted from what stands before. -/
def indicator (s : Sheet) (cs : List Char) (parted : Bool) (spaced indented : Bool) : Sheet :=
  { s.write (if parted && !s.spaced then ' ' :: cs else cs) with
    spaced := spaced, indented := s.indented && indented, openEnded := false }

def breakLine (s : Sheet) : Sheet :=
  { s with written := '\n' :: s.written, column := 0, spaced := true, indented := true }

def indentTo (s : Sheet) (column : Nat) : Sheet :=
  let s := if !s.indented || column < s.column || (s.column == column && !s.spaced) then
    s.breakLine else s
  if s.column < column then
    { s.write (List.replicate (column - s.column) ' ') with spaced := true }
  else s

def settle (s : Sheet) : Sheet := { s with spaced := false, indented := false }

end Sheet

inductive Run.Kind where
  | word
  | spaces
  | breaks
  deriving DecidableEq, Repr

structure Run where
  kind : Run.Kind
  text : List Char
  deriving DecidableEq, Repr

def Run.kindOf (c : Char) : Run.Kind :=
  if c = ' ' then .spaces else if c = '\n' then .breaks else .word

def runs : List Char → List Run
  | [] => []
  | c :: rest =>
    match runs rest with
    | [] => [⟨Run.kindOf c, [c]⟩]
    | r :: rs => if r.kind = Run.kindOf c then ⟨r.kind, c :: r.text⟩ :: rs
      else ⟨Run.kindOf c, [c]⟩ :: r :: rs

/-- Writes the runs of a plain scalar. A single space past the width becomes a line
break. -/
def Sheet.plainRuns (indent : Nat) (split : Bool) : List Run → Sheet → Sheet
  | [], s => s
  | r :: rs, s =>
    let fold := r.kind == .spaces && r.text.length == 1 && decide (lineWidth < s.column) && split
    plainRuns indent split rs (if fold then (s.indentTo indent).settle else s.write r.text)

def Sheet.plain (s : Sheet) (cs : List Char) (indent : Nat) (root split : Bool) : Sheet :=
  let s := { s with openEnded := s.openEnded || root }
  if cs = [] then s
  else
    let s := if s.spaced then s else s.write [' ']
    s.settle.plainRuns indent split (runs cs)

def doubleQuotes (cs : List Char) : List Char :=
  cs.flatMap fun c => if c = '\'' then ['\'', '\''] else [c]

/-- Writes the runs of a text in single quotes: breaks with one more in front, which the
reader folds away, and a single space past the width as a break unless it stands at
either end. -/
def Sheet.singleRuns (indent : Nat) (split first : Bool) : List Run → Sheet → Sheet
  | [], s => s
  | r :: rs, s =>
    let s := match r.kind with
      | .word => s.write (doubleQuotes r.text)
      | .spaces =>
        if r.text.length == 1 && decide (lineWidth < s.column) && split && !first && rs != [] then
          s.indentTo indent
        else s.write r.text
      | .breaks => ((r.text.foldl (fun s _ => s.breakLine) s.breakLine)).indentTo indent
    singleRuns indent split false rs s

def Sheet.single (s : Sheet) (cs : List Char) (indent : Nat) (split : Bool) : Sheet :=
  let s := s.indicator ['\''] true false false
  (s.singleRuns indent split true (runs cs)).indicator ['\''] false false false

def escape (c : Char) : List Char :=
  match c.toNat with
  | 0x00 => ['\\', '0']
  | 0x07 => ['\\', 'a']
  | 0x08 => ['\\', 'b']
  | 0x09 => ['\\', 't']
  | 0x0a => ['\\', 'n']
  | 0x0b => ['\\', 'v']
  | 0x0c => ['\\', 'f']
  | 0x0d => ['\\', 'r']
  | 0x1b => ['\\', 'e']
  | 0x22 => ['\\', '"']
  | 0x5c => ['\\', '\\']
  | 0x85 => ['\\', 'N']
  | 0xa0 => ['\\', '_']
  | 0x2028 => ['\\', 'L']
  | 0x2029 => ['\\', 'P']
  | n =>
    if n ≤ 0xff then '\\' :: 'x' :: fixedUpperHex 2 n
    else if n ≤ 0xffff then '\\' :: 'u' :: fixedUpperHex 4 n
    else '\\' :: 'U' :: fixedUpperHex 8 n

def isEscaped (c : Char) : Bool :=
  c == '"' || c == '\\' || !(0x20 ≤ c.toNat && c.toNat ≤ 0x7e)

/-- Ends a line between double quotes by a backslash; another one keeps a space at the
start of the next line. -/
def Sheet.foldDouble (s : Sheet) (indent : Nat) (next : Char) : Sheet :=
  let s := ((s.write ['\\']).indentTo indent).settle
  if next = ' ' then s.write ['\\'] else s

/-- Writes characters between double quotes. `pending` holds those, last first, that are
read but not yet written. A line is folded past the width before a space or next to an
escape, but not at either end of the text. -/
def Sheet.doubleChars (indent : Nat) (split : Bool) (pending : List Char) (first : Bool) :
    List Char → Sheet → Sheet
  | [], s => s.write pending.reverse
  | c :: rest, s =>
    let inside := !first && split && rest != []
    if isEscaped c then
      let s := (s.write pending.reverse).write (escape c)
      let s := if inside && decide (lineWidth + 1 < s.column) then
        s.foldDouble indent (rest.headD ' ') else s
      doubleChars indent split [] false rest s
    else if inside && (c == ' ' || pending == []) && decide (lineWidth < s.column + pending.length)
    then doubleChars indent split [c] false rest ((s.write pending.reverse).foldDouble indent c)
    else doubleChars indent split (c :: pending) false rest s

def Sheet.double (s : Sheet) (cs : List Char) (indent : Nat) (split : Bool) : Sheet :=
  let s := s.indicator ['"'] true false false
  (s.doubleChars indent split [] true cs).indicator ['"'] false false false

/-- The header of a literal block: an indentation where the text starts with a space or a
break, and what becomes of the breaks at the end. -/
def literalHints (cs : List Char) : List Char :=
  (if cs.head?.any isEdge then decimal indentStep else [])
    ++ match cs.reverse with
      | [] => []
      | last :: before =>
        if !isTextBreak last then ['-']
        else if before.headD '\n' |> isTextBreak then ['+']
        else []

def Sheet.literalRuns (indent : Nat) : List Run → Sheet → Sheet
  | [], s => s
  | r :: rs, s =>
    let s := match r.kind with
      | .breaks => r.text.foldl (fun s _ => s.breakLine) s
      | _ => if s.column = 0 then (s.indentTo indent).write r.text else s.write r.text
    literalRuns indent rs s

def Sheet.literal (s : Sheet) (cs : List Char) (indent : Nat) : Sheet :=
  let hints := literalHints cs
  let s := s.indicator ('|' :: hints) true false false
  let s := { s with openEnded := hints.getLast? == some '+' }.breakLine
  let s := s.literalRuns indent (runs cs)
  if cs.getLast?.any isTextBreak then s else s.breakLine

def Sheet.scalar (s : Sheet) (x : Scalar) (indent : Nat) (root simpleKey : Bool) : Sheet :=
  match x.style simpleKey with
  | .plain => s.plain x.text indent root (!simpleKey)
  | .single => s.single x.text indent (!simpleKey)
  | .double => s.double x.text indent (!simpleKey)
  | _ => s.literal x.text indent

end OverlayBuild.Yaml

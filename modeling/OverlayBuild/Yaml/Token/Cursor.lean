import OverlayBuild.Yaml.Failure

/-! The unread part of a text with its place, and the small steps that every token is
read by. Past the end there stands a null character, which no text may hold. -/
namespace OverlayBuild.Yaml

structure Cursor where
  rest : List Char
  mark : Mark
  deriving Repr

def sentinel : Char := Char.ofNat 0

def isBreakOrEnd (c : Char) : Bool := isBreak c || c == sentinel

def isSpaceOrEnd (c : Char) : Bool := c == ' ' || isBreakOrEnd c

def isBlankOrEnd (c : Char) : Bool := c == '\t' || isSpaceOrEnd c

def isWordChar (c : Char) : Bool := c.isAlphanum || c == '-' || c == '_'

namespace Cursor

def start (text : List Char) : Cursor := ⟨text, ⟨0, 0, 0⟩⟩

def peek (c : Cursor) : Char := c.rest.headD sentinel

def peekAt (c : Cursor) (n : Nat) : Char := c.rest.getD n sentinel

def next (c : Cursor) : Cursor :=
  match c.rest with
  | [] => c
  | x :: rest => ⟨rest, c.mark.past x rest.head?⟩

def skip (n : Nat) (c : Cursor) : Cursor :=
  match n with
  | 0 => c
  | n + 1 => c.next.skip n

theorem next_rest_length {c : Cursor} (h : c.rest ≠ []) :
    c.next.rest.length < c.rest.length := by
  unfold next
  split
  · contradiction
  · simp_all

def span (p : Char → Bool) (c : Cursor) : List Char × Cursor :=
  match _eq : c.rest with
  | [] => ([], c)
  | x :: _ =>
    if p x then
      let (taken, after) := c.next.span p
      (x :: taken, after)
    else ([], c)
termination_by c.rest.length
decreasing_by exact next_rest_length (by simp [_eq])

def skipWhile (p : Char → Bool) (c : Cursor) : Cursor := (c.span p).2

def skipSpacesTo (column : Int) (c : Cursor) : Cursor :=
  match _eq : c.rest with
  | ' ' :: _ => if (c.mark.column : Int) < column then c.next.skipSpacesTo column else c
  | _ => c
termination_by c.rest.length
decreasing_by exact next_rest_length (by simp [_eq])

/-- One line break: a carriage return, a line feed, both together or a next line
character read as a line feed, the other breaks as themselves. -/
def lineBreak? (c : Cursor) : Option (Char × Cursor) :=
  let x := c.peek
  if x = '\r' ∧ c.peekAt 1 = '\n' then some ('\n', c.skip 2)
  else if x = '\r' ∨ x = '\n' ∨ x = Char.ofNat 0x85 then some ('\n', c.next)
  else if isBreak x then some (x, c.next)
  else none

def skipBreak (c : Cursor) : Cursor := (c.lineBreak?.map (·.2)).getD c

/-- Whether a document marker, three characters and then a blank or the end, stands
here. -/
def atMarker (m : Char) (c : Cursor) : Bool :=
  c.peek == m && c.peekAt 1 == m && c.peekAt 2 == m && isBlankOrEnd (c.peekAt 3)

def atSeparator (c : Cursor) : Bool := c.atMarker '-' || c.atMarker '.'

def skipComment (c : Cursor) : Cursor :=
  if c.peek = '#' then c.skipWhile (!isBreakOrEnd ·) else c

def require (p : Char → Bool) (activity : Activity) (start : Mark) (wanted : Wanted)
    (c : Cursor) : Except Failure Unit :=
  if p c.peek then .ok ()
  else .error (failIn activity start (.expected wanted c.peek) c.mark)

/-- The rest of a line that may hold only a comment, and its break. -/
def endLine (activity : Activity) (start : Mark) (c : Cursor) : Except Failure Cursor := do
  let c := (c.skipWhile (· == ' ')).skipComment
  c.require isBreakOrEnd activity start .commentOrBreak
  return c.skipBreak

end OverlayBuild.Yaml.Cursor

import OverlayBuild.Text.Numeral

/-! Places in a text, and how messages show them: the line and column, and the line
itself with a caret under the place, cut to a window where it is long. -/
namespace OverlayBuild.Yaml

open Text

structure Mark where
  index : Nat
  line : Nat
  column : Nat
  deriving DecidableEq, Repr, Inhabited

def isBreak (c : Char) : Bool :=
  c == '\n' || c == '\r' || c == Char.ofNat 0x85 || c == Char.ofNat 0x2028 || c == Char.ofNat 0x2029

/-- The place after a character. A carriage return before a line feed belongs to that
break, and a byte order mark takes no column. -/
def Mark.past (m : Mark) (c : Char) (next : Option Char) : Mark :=
  if isBreak c && !(c == '\r' && next == some '\n') then ⟨m.index + 1, m.line + 1, 0⟩
  else ⟨m.index + 1, m.line, if c = Char.ofNat 0xfeff then m.column else m.column + 1⟩

/-- At most this many characters are shown on each side of the place. -/
def window : Nat := 36

/-- The characters next to the place, nearest first, up to the end of the line; with
dots, five characters short of the place where the window was left. -/
def side (cs : List Char) : List Char × List Char :=
  let line := cs.takeWhile (!isBreak ·)
  if window < line.length then (line.take (window + 1 - 5), " ... ".toList) else (line, [])

def Mark.snippet (m : Mark) (text : List Char) : List Char :=
  let (before, head) := side (text.take m.index).reverse
  let (after, tail) := side (text.drop m.index)
  let margin := List.replicate 4 ' '
  margin ++ head ++ before.reverse ++ after ++ tail ++ '\n'
    :: margin ++ List.replicate (before.length + head.length) ' ' ++ ['^']

def Mark.describe (m : Mark) (text : List Char) : List Char :=
  "  in \"<unicode string>\", line ".toList ++ decimal (m.line + 1) ++ ", column ".toList
    ++ decimal (m.column + 1) ++ ":\n".toList ++ m.snippet text

end OverlayBuild.Yaml

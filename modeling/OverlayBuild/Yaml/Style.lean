import OverlayBuild.Yaml.Tag
import OverlayBuild.Yaml.Token.Cursor

/-! Which styles a text can be written in, and which of them is taken. Only ASCII text is
written as it is; all else is escaped between double quotes. -/
namespace OverlayBuild.Yaml

/-- Breaks that a text can hold; a carriage return is always escaped. -/
def isTextBreak (c : Char) : Bool := isBreak c && c != '\r'

def isVerbatim (c : Char) : Bool := c == '\n' || (0x20 ≤ c.toNat && c.toNat ≤ 0x7e)

def anyAdjacent (p : Char → Char → Bool) : List Char → Bool
  | a :: b :: rest => p a b || anyAdjacent p (b :: rest)
  | _ => false

def spaceBeforeBreak (cs : List Char) : Bool :=
  anyAdjacent (fun a b => a == ' ' && isTextBreak b) cs

def spaceAfterBreak (cs : List Char) : Bool :=
  anyAdjacent (fun a b => isTextBreak a && b == ' ') cs

def hasBreak (cs : List Char) : Bool := cs.any isTextBreak

def leadingIndicators : List Char := "#,[]\x7b\x7d&*!|>'\"%@\x60".toList

/-- Whether a text starts like something else than a plain scalar. -/
def startsWithIndicator : List Char → Bool
  | '-' :: '-' :: '-' :: _ | '.' :: '.' :: '.' :: _ => true
  | c :: rest =>
    leadingIndicators.contains c
      || ((c == '?' || c == ':' || c == '-') && isBlankOrEnd (rest.headD sentinel))
  | [] => false

/-- Whether a colon ends a word, or a hash starts one, after the first character. -/
def holdsIndicator : List Char → Bool
  | a :: b :: rest =>
    (b == ':' && isBlankOrEnd (rest.headD sentinel)) || (b == '#' && isBlankOrEnd a)
      || holdsIndicator (b :: rest)
  | _ => false

def isEdge (c : Char) : Bool := c == ' ' || isTextBreak c

/-- Quotes of the single kind hold what has no space next to a break and nothing to
escape. -/
def fitsSingle (cs : List Char) : Bool :=
  !spaceAfterBreak cs && !spaceBeforeBreak cs && cs.all isVerbatim

/-- Without quotes a text is one line that starts and ends with neither space nor break
and holds no indicator. -/
def fitsPlain (cs : List Char) : Bool :=
  fitsSingle cs && !hasBreak cs && !cs.head?.any isEdge && !cs.getLast?.any isEdge
    && !startsWithIndicator cs && !holdsIndicator cs

/-- A literal block holds what has no space before a break or at the end and nothing to
escape. -/
def fitsLiteral (cs : List Char) : Bool :=
  cs != [] && cs.getLast? != some ' ' && !spaceBeforeBreak cs && cs.all isVerbatim

inductive Multiline where
  /-- As any other text. -/
  | quoted
  /-- As a literal block, else between double quotes. -/
  | literal
  deriving DecidableEq, Repr

structure Scalar where
  tag : String
  text : List Char
  literal : Bool
  deriving DecidableEq, Repr

/-- Whether the text would be read with the tag it has if it stood without quotes. -/
def Scalar.isEvident (s : Scalar) : Bool := Schema.full.tagOf (String.ofList s.text) == s.tag

def Scalar.style (s : Scalar) (simpleKey : Bool) : ScalarStyle :=
  if s.literal then
    if !simpleKey && fitsLiteral s.text then .literal else .double
  else if s.isEvident && (if s.text = [] then !simpleKey else fitsPlain s.text) then .plain
  else if fitsSingle s.text && !(simpleKey && hasBreak s.text) then .single
  else .double

/-- The longest text of a key on one line, with its tag counted in. -/
def maxSimpleKey : Nat := 127

def shortTagLength (tag : String) : Nat := tag.length - (Tag.core "").length + 2

def Scalar.isSimpleKey (s : Scalar) : Bool :=
  s.text != [] && !hasBreak s.text
    && decide (shortTagLength s.tag + s.text.length ≤ maxSimpleKey)

end OverlayBuild.Yaml

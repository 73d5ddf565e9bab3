import OverlayBuild.Yaml.Token.Quoted

/-! Scalars without quotes. Inside brackets they end at commas, question marks and
brackets, elsewhere where a line is indented too little. -/
namespace OverlayBuild.Yaml

def isFlowBound (c : Char) : Bool :=
  c == ',' || c == '?' || c == '[' || c == ']' || c == '\x7b' || c == '\x7d'

/-- Whether a plain scalar stops before a character, given the one after it. -/
def endsPlain (inFlow : Bool) (c next : Char) : Bool :=
  isBlankOrEnd c
    || (c == ':' && (isBlankOrEnd next || (inFlow && next != '?' && isFlowBound next)))
    || (inFlow && isFlowBound c)

def plainRun (inFlow : Bool) (c : Cursor) : List Char × Cursor :=
  match _eq : c.rest with
  | [] => ([], c)
  | x :: _ =>
    if endsPlain inFlow x (c.peekAt 1) then ([], c)
    else
      let (taken, after) := plainRun inFlow c.next
      (x :: taken, after)
termination_by c.rest.length
decreasing_by exact Cursor.next_rest_length (by simp [_eq])

/-- Line breaks after the first, with the spaces around them; none where a document
marker starts a line. -/
def plainBreaks? (c : Cursor) : Option (List Char) × Cursor :=
  let after := c.skipWhile (· == ' ')
  match after.lineBreak? with
  | none => (some [], after)
  | some (b, next) =>
    if next.atSeparator then (none, next)
    else if next.rest.length < c.rest.length then
      let (more, c) := plainBreaks? next
      (more.map (b :: ·), c)
    else (some [b], next)
termination_by c.rest.length

structure PlainGap where
  /-- What it folds to; empty where the scalar ends here. -/
  text : List Char
  cursor : Cursor
  /-- Whether it holds a line break, after which a simple key may start. -/
  broken : Bool

def plainGap (c : Cursor) : PlainGap :=
  let (spaces, after) := c.span (· == ' ')
  match after.lineBreak? with
  | none => ⟨spaces, after, false⟩
  | some (b, next) =>
    if next.atSeparator then ⟨[], next, true⟩
    else match plainBreaks? next with
      | (none, c) => ⟨[], c, true⟩
      | (some more, c) => ⟨foldBreak b more, c, true⟩

structure PlainScalar where
  text : List Char
  stop : Mark
  cursor : Cursor
  /-- Whether the white space last passed holds a line break. -/
  broken : Bool

/-- The pieces of a plain scalar, given the text of the gap before the next one. -/
def readPlainFrom (inFlow : Bool) (indent : Int) (before : List Char) (scalar : PlainScalar) :
    PlainScalar :=
  let c := scalar.cursor
  if c.peek = '#' then scalar
  else
    let (piece, after) := plainRun inFlow c
    if piece = [] then scalar
    else
      let gap := plainGap after
      let scalar : PlainScalar :=
        ⟨scalar.text ++ before ++ piece, after.mark, gap.cursor, gap.broken⟩
      if gap.text = [] ∨ gap.cursor.peek = '#'
          ∨ (inFlow = false ∧ (gap.cursor.mark.column : Int) < indent) then scalar
      else if gap.cursor.rest.length < c.rest.length then
        readPlainFrom inFlow indent gap.text scalar
      else scalar
termination_by scalar.cursor.rest.length

/-- A plain scalar; its further lines are indented to `indent` at least. -/
def readPlain (inFlow : Bool) (indent : Int) (c : Cursor) : PlainScalar :=
  readPlainFrom inFlow indent [] ⟨[], c.mark, c, false⟩

end OverlayBuild.Yaml

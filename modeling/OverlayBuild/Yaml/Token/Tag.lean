import OverlayBuild.Yaml.Token.Cursor

/-! Names in a YAML text: anchors and aliases, tags, and the directives that define
handles for tags. -/
namespace OverlayBuild.Yaml

open Text

def readWord (activity : Activity) (start : Mark) (c : Cursor) :
    Except Failure (String × Cursor) := do
  c.require isWordChar activity start .word
  let (name, c) := c.span isWordChar
  return (String.ofList name, c)

def endsAnchor (c : Char) : Bool :=
  isBlankOrEnd c || ['?', ':', ',', ']', '\x7d', '%', '@', '\x60'].contains c

def readAnchor (activity : Activity) (c : Cursor) : Except Failure (String × Cursor) := do
  let start := c.mark
  let (name, c) ← readWord activity start c.next
  c.require endsAnchor activity start .word
  return (name, c)

/-- A handle: an exclamation mark, or a word between two. -/
def readHandle (activity : Activity) (start : Mark) (c : Cursor) :
    Except Failure (String × Cursor) := do
  c.require (· == '!') activity start .exclamation
  if c.peekAt 1 = ' ' then return ("!", c.next)
  let (word, after) := c.next.span isWordChar
  after.require (· == '!') activity start .exclamation
  return (String.ofList ('!' :: word ++ ['!']), after.next)

def isUriChar (c : Char) : Bool :=
  c.isAlphanum || "-;/?:@&=+$,_.!~*'()[]%".toList.contains c

def readEscapedBytes (activity : Activity) (start : Mark) (c : Cursor) :
    Except Failure (List UInt8 × Cursor) :=
  match _eq : c.rest with
  | '%' :: _ => do
    let digits := c.next
    let digit (n : Nat) : Except Failure Nat :=
      match hexValue? (digits.peekAt n) with
      | some v => .ok v
      | none => .error (failIn activity start (.expected .uriEscape (digits.peekAt n)) digits.mark)
    let high ← digit 0
    let low ← digit 1
    let after := digits.skip 2
    if after.rest.length < c.rest.length then
      let (bytes, c) ← readEscapedBytes activity start after
      return (UInt8.ofNat (high * 16 + low) :: bytes, c)
    else return ([], c)
  | _ => .ok ([], c)
termination_by c.rest.length

/-- The characters of a tag, percent escapes read as UTF-8. -/
def readUriChars (activity : Activity) (start : Mark) (c : Cursor) :
    Except Failure (List Char × Cursor) := do
  let (plain, after) := c.span fun x => isUriChar x && x != '%'
  if after.peek = '%' then
    let (bytes, next) ← readEscapedBytes activity start after
    match Utf8.decode bytes with
    | .error cause => .error (failIn activity start (.uriBytes cause) after.mark)
    | .ok cs =>
      if next.rest.length < c.rest.length then
        let (more, c) ← readUriChars activity start next
        return (plain ++ cs ++ more, c)
      else return (plain ++ cs, next)
  else return (plain, after)
termination_by c.rest.length

/-- A tag or a part of one, not empty. `word` is the activity that an empty one
interrupts. -/
def readUri (activity word : Activity) (start : Mark) (c : Cursor) :
    Except Failure (String × Cursor) := do
  let (cs, after) ← readUriChars activity start c
  if after.mark = c.mark then
    .error (failIn word start (.expected .uri after.peek) after.mark)
  return (String.ofList cs, after)

/-- A tag: a whole one in angle brackets, the lone mark that leaves it open, or a handle
and a suffix. -/
def readTag (c : Cursor) : Except Failure (TagName × Cursor) := do
  let start := c.mark
  let second := c.peekAt 1
  let (tag, c) ←
    if second = '<' then do
      let (suffix, c) ← readUri .tag .tagWord start (c.skip 2)
      c.require (· == '>') .tagWord start .greater
      pure (⟨none, suffix⟩, c.next)
    else if isBlankOrEnd second then pure (⟨none, "!"⟩, c.next)
    else do
      let (handle, c) ←
        if ((c.rest.drop 1).takeWhile (!isSpaceOrEnd ·)).contains '!' then
          readHandle .tag start c
        else pure ("!", c.next)
      let (suffix, c) ← readUri .tag .tagWord start c
      pure (⟨some handle, suffix⟩, c)
  c.require isSpaceOrEnd .tag start .space
  return (tag, c)

def readVersionNumber (start : Mark) (c : Cursor) : Except Failure (Int × Cursor) := do
  c.require Char.isDigit .directive start .digit
  let (digits, c) := c.span Char.isDigit
  let n ← (Number.readInteger 10 digits).mapError fun cause => .mismatch (.number cause)
  return (n, c)

def readVersion (start : Mark) (c : Cursor) : Except Failure (Directive × Cursor) := do
  let (major, c) ← readVersionNumber start (c.skipWhile (· == ' '))
  c.require (· == '.') .directive start .digitOrPoint
  let (minor, c) ← readVersionNumber start c.next
  c.require isSpaceOrEnd .directive start .digitOrSpace
  return (.version major minor, c)

def readTagDirective (start : Mark) (c : Cursor) : Except Failure (Directive × Cursor) := do
  let (handle, c) ← readHandle .directive start (c.skipWhile (· == ' '))
  c.require (· == ' ') .directive start .space
  let (stem, c) ← readUri .directive .directiveWord start (c.skipWhile (· == ' '))
  c.require isSpaceOrEnd .directive start .space
  return (.tag handle stem, c)

def readDirective (c : Cursor) : Except Failure (Directive × Mark × Cursor) := do
  let start := c.mark
  let (name, c) ← readWord .directive start c.next
  c.require isSpaceOrEnd .directive start .word
  let (directive, stop, c) ←
    if name = "YAML" then do
      let (directive, c) ← readVersion start c
      pure (directive, c.mark, c)
    else if name = "TAG" then do
      let (directive, c) ← readTagDirective start c
      pure (directive, c.mark, c)
    else pure (Directive.reserved name, c.mark, c.skipWhile (!isBreakOrEnd ·))
  return (directive, stop, ← c.endLine .directive start)

end OverlayBuild.Yaml

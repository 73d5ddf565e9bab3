import OverlayBuild.Text.Basic

/-! Command lines as a POSIX shell reads them. `join` quotes each word where it has to be
quoted, and `split` reads a line back into its words. -/
namespace OverlayBuild.Shell

open Text

def isSafe (c : Char) : Bool := c.isAlphanum || "_@%+=:,./-".toList.contains c

/-- A single quote cannot stand between single quotes: they are closed before it and
opened again after it. -/
def quotedChar (c : Char) : List Char :=
  if c = '\'' then ['\'', '"', '\'', '"', '\''] else [c]

def quote (word : List Char) : List Char :=
  if word ≠ [] ∧ word.all isSafe then word
  else '\'' :: word.flatMap quotedChar ++ ['\'']

def join (words : List String) : String :=
  String.ofList (joinWith [' '] (words.map fun w => quote w.toList))

inductive Quoting where
  | none
  | single
  | double
  deriving DecidableEq, Repr

def isSeparator (c : Char) : Bool := c == ' ' || c == '\t' || c == '\n'

/-- Characters that a backslash makes ordinary between double quotes. -/
def isEscapedInDouble (c : Char) : Bool := c == '$' || c == '\x60' || c == '"' || c == '\\'

/-- Puts a word, if one was begun, in front of others. -/
def endWord (word : Option (List Char)) (words : List (List Char)) : List (List Char) :=
  match word with
  | some cs => cs.reverse :: words
  | none => words

def addTo (word : Option (List Char)) (c : Char) : Option (List Char) :=
  some (c :: word.getD [])

/-- The words of a line from some place on. `word` holds the characters of the word that
was begun, the last one first. A quote without its partner has no words. -/
def splitFrom (word : Option (List Char)) : Quoting → List Char → Option (List (List Char))
  | .none, [] => some (endWord word [])
  | _, [] => none
  | .none, '\\' :: c :: rest =>
    if c = '\n' then splitFrom word .none rest else splitFrom (addTo word c) .none rest
  | .none, c :: rest =>
    if c = '\'' then splitFrom (some (word.getD [])) .single rest
    else if c = '"' then splitFrom (some (word.getD [])) .double rest
    else if isSeparator c then (splitFrom none .none rest).map (endWord word)
    else splitFrom (addTo word c) .none rest
  | .single, c :: rest =>
    if c = '\'' then splitFrom word .none rest else splitFrom (addTo word c) .single rest
  | .double, '\\' :: c :: rest =>
    if c = '\n' then splitFrom word .double rest
    else if isEscapedInDouble c then splitFrom (addTo word c) .double rest
    else splitFrom (addTo (addTo word '\\') c) .double rest
  | .double, c :: rest =>
    if c = '"' then splitFrom word .none rest else splitFrom (addTo word c) .double rest
termination_by structural _ cs => cs

def split (line : String) : Option (List String) :=
  (splitFrom none .none line.toList).map (·.map String.ofList)

end OverlayBuild.Shell

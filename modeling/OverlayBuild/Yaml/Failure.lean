import OverlayBuild.Calendar
import OverlayBuild.Number.Reading
import OverlayBuild.Text.Quoted
import OverlayBuild.Text.Utf8
import OverlayBuild.Yaml.Token

/-! Why a YAML text is not read. A fault names what was being read, the problem and the
places of both; a failure is a fault, a character that no text may hold, or a scalar
whose content does not fit its tag. -/
namespace OverlayBuild.Yaml

open Text

inductive Activity where
  | simpleKey
  | directive
  | directiveWord
  | anchor
  | alias
  | tag
  | tagWord
  | blockScalar
  | quotedScalar
  | doubleQuotedScalar
  | nextToken
  | node
  | blockNode
  | flowNode
  | blockCollection
  | blockMapping
  | flowSequence
  | flowMapping
  | anchored (name : String)
  | singleDocument
  | mapping
  | orderedMap
  | pairs
  deriving DecidableEq, Repr

def Activity.text : Activity → String
  | .simpleKey => "while scanning a simple key"
  | .directive => "while scanning a directive"
  | .directiveWord => "while parsing a directive"
  | .anchor => "while scanning an anchor"
  | .alias => "while scanning an alias"
  | .tag => "while scanning a tag"
  | .tagWord => "while parsing a tag"
  | .blockScalar => "while scanning a block scalar"
  | .quotedScalar => "while scanning a quoted scalar"
  | .doubleQuotedScalar => "while scanning a double-quoted scalar"
  | .nextToken => "while scanning for the next token"
  | .node => "while parsing a node"
  | .blockNode => "while parsing a block node"
  | .flowNode => "while parsing a flow node"
  | .blockCollection => "while parsing a block collection"
  | .blockMapping => "while parsing a block mapping"
  | .flowSequence => "while parsing a flow sequence"
  | .flowMapping => "while parsing a flow mapping"
  | .anchored name => "found duplicate anchor " ++ name.quotedText ++ "; first occurrence"
  | .singleDocument => "expected a single document in the stream"
  | .mapping => "while constructing a mapping"
  | .orderedMap => "while constructing an ordered map"
  | .pairs => "while constructing pairs"

inductive Wanted where
  | word
  | digit
  | digitOrPoint
  | digitOrSpace
  | space
  | commentOrBreak
  | exclamation
  | greater
  | uri
  | uriEscape
  | escape (length : Nat)
  | indicators
  deriving DecidableEq, Repr

def Wanted.text : Wanted → String
  | .word => "alphabetic or numeric character"
  | .digit => "a digit"
  | .digitOrPoint => "a digit or '.'"
  | .digitOrSpace => "a digit or ' '"
  | .space => "' '"
  | .commentOrBreak => "a comment or a line break"
  | .exclamation => "'!'"
  | .greater => "'>'"
  | .uri => "URI"
  | .uriEscape => "URI escape sequence of 2 hexadecimal numbers"
  | .escape n => "escape sequence of " ++ String.ofList (decimal n) ++ " hexadecimal numbers"
  | .indicators => "chomping or indentation indicators"

inductive NodeKind where
  | scalar
  | sequence
  | mapping
  deriving DecidableEq, Repr

def NodeKind.text : NodeKind → String
  | .scalar => "scalar"
  | .sequence => "sequence"
  | .mapping => "mapping"

inductive Problem where
  | expected (wanted : Wanted) (found : Char)
  | missingColon
  | entryNotAllowed
  | keyNotAllowed
  | valueNotAllowed
  | badStart (c : Char)
  | zeroIndent
  | unfinished
  | separator
  | unknownEscape (c : Char)
  | uriBytes (cause : Utf8.Malformed)
  | notDocumentStart (found : Token.Kind)
  | duplicateVersion
  | incompatibleVersion
  | duplicateHandle (handle : String)
  | undefinedHandle (handle : String)
  | noContent (found : Token.Kind)
  | notBlockEnd (found : Token.Kind)
  | notNextItem (closing : Token.Kind) (found : Token.Kind)
  | undefinedAlias (name : String)
  | secondAnchor
  | anotherDocument
  | notNode (wanted found : NodeKind)
  | notMerged (found : NodeKind)
  | notMergeable (found : NodeKind)
  | badKey
  | notSequence (found : NodeKind)
  | notItem (found : NodeKind)
  | itemCount (n : Nat)
  | unknownTag (tag : String)
  | base64Text (cs : List Char)
  | base64Length (n : Nat)
  | base64Padding
  deriving DecidableEq, Repr

def asciiFault (cs : List Char) : List Char :=
  encodeFault "ascii" "ordinal not in range(128)" (fun c => 0x80 ≤ c.toNat) cs

def Problem.text : Problem → String
  | .expected wanted found =>
    "expected " ++ wanted.text ++ ", but found " ++ found.toString.quotedText
  | .missingColon => "could not find expected ':'"
  | .entryNotAllowed => "sequence entries are not allowed here"
  | .keyNotAllowed => "mapping keys are not allowed here"
  | .valueNotAllowed => "mapping values are not allowed here"
  | .badStart c => "found character " ++ c.toString.quotedText ++ " that cannot start any token"
  | .zeroIndent => "expected indentation indicator in the range 1-9, but found 0"
  | .unfinished => "found unexpected end of stream"
  | .separator => "found unexpected document separator"
  | .unknownEscape c => "found unknown escape character " ++ c.toString.quotedText
  | .uriBytes cause => cause.message
  | .notDocumentStart found =>
    "expected '<document start>', but found " ++ found.name.quotedText
  | .duplicateVersion => "found duplicate YAML directive"
  | .incompatibleVersion => "found incompatible YAML document (version 1.* is required)"
  | .duplicateHandle handle => "duplicate tag handle " ++ handle.quotedText
  | .undefinedHandle handle => "found undefined tag handle " ++ handle.quotedText
  | .noContent found => "expected the node content, but found " ++ found.name.quotedText
  | .notBlockEnd found => "expected <block end>, but found " ++ found.name.quotedText
  | .notNextItem closing found =>
    "expected ',' or '" ++ closing.name ++ "', but got " ++ found.name.quotedText
  | .undefinedAlias name => "found undefined alias " ++ name.quotedText
  | .secondAnchor => "second occurrence"
  | .anotherDocument => "but found another document"
  | .notNode wanted found => "expected a " ++ wanted.text ++ " node, but found " ++ found.text
  | .notMerged found => "expected a mapping for merging, but found " ++ found.text
  | .notMergeable found =>
    "expected a mapping or list of mappings for merging, but found " ++ found.text
  | .badKey => "found unhashable key"
  | .notSequence found => "expected a sequence, but found " ++ found.text
  | .notItem found => "expected a mapping of length 1, but found " ++ found.text
  | .itemCount n =>
    "expected a single mapping item, but found " ++ String.ofList (decimal n) ++ " items"
  | .unknownTag tag => "could not determine a constructor for the tag " ++ tag.quotedText
  | .base64Text cs => "failed to convert base64 data into ascii: " ++ String.ofList (asciiFault cs)
  | .base64Length n =>
    "failed to decode base64 data: Invalid base64-encoded string: number of data characters ("
      ++ String.ofList (decimal n) ++ ") cannot be 1 more than a multiple of 4"
  | .base64Padding => "failed to decode base64 data: Incorrect padding"

structure Fault where
  activity : Option (Activity × Option Mark)
  problem : Problem
  place : Mark
  deriving DecidableEq, Repr

/-- The place of the activity is left out where it is that of the problem. -/
def Fault.message (f : Fault) (text : List Char) : String :=
  let context := match f.activity with
    | none => []
    | some (activity, start) =>
      activity.text.toList :: match start with
        | none => []
        | some m =>
          if m.line = f.place.line ∧ m.column = f.place.column then [] else [m.describe text]
  String.ofList
    ((context ++ [f.problem.text.toList, f.place.describe text]).intersperse ['\n'] |>.flatten)

inductive Mismatch where
  | number (cause : Number.Fault)
  | noDigits
  | tooLarge
  | boolean (lowered : String)
  | moment (cause : Calendar.Fault)
  | noMoment
  | momentOfMapping
  /-- Mappings stand in the place of scalars, each for the next, without end. -/
  | endless
  | codePoint
  | codePointSize
  deriving DecidableEq, Repr

def Mismatch.message : Mismatch → String
  | .number cause => cause.message
  | .noDigits => "string index out of range"
  | .tooLarge => "int too large to convert to float"
  | .boolean lowered => lowered.quotedText
  | .moment cause => cause.message
  | .noMoment => "'NoneType' object has no attribute 'groupdict'"
  | .momentOfMapping => "expected string or bytes-like object, got 'list'"
  | .endless => "maximum recursion depth exceeded"
  | .codePoint => "chr() arg not in range(0x110000)"
  | .codePointSize => "Python int too large to convert to C int"

inductive Failure where
  | unacceptable (c : Char) (position : Nat)
  | malformed (fault : Fault)
  | mismatch (cause : Mismatch)
  deriving DecidableEq, Repr

def Failure.message (text : List Char) : Failure → String
  | .unacceptable c position =>
    "unacceptable character #x" ++ String.ofList (fixedHex 4 c.toNat)
      ++ ": special characters are not allowed\n  in \"<unicode string>\", position "
      ++ String.ofList (decimal position)
  | .malformed fault => fault.message text
  | .mismatch cause => cause.message

def failAt (problem : Problem) (place : Mark) : Failure := .malformed ⟨none, problem, place⟩

def failIn (activity : Activity) (start : Mark) (problem : Problem) (place : Mark) : Failure :=
  .malformed ⟨some (activity, some start), problem, place⟩

end OverlayBuild.Yaml

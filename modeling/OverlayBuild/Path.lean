import OverlayBuild.Text.Basic

/-! Paths of files. A path is kept as its parts: empty parts and single dots are dropped
when it is read, while two dots stay, because what they lead to depends on the tree. -/
namespace OverlayBuild

open Text

/-- Where a path starts. Two slashes at the start are kept apart from one. -/
inductive PathStart where
  | working
  | root
  | twoSlashes
  deriving DecidableEq, Repr

structure Path where
  start : PathStart
  parts : List String
  deriving DecidableEq, Repr

namespace Path

def startOf (cs : List Char) : PathStart :=
  match (cs.takeWhile (· == '/')).length with
  | 0 => .working
  | 2 => .twoSlashes
  | _ => .root

def pieces (text : String) : List String := (splitAt '/' text.toList).map String.ofList

def ofText (text : String) : Path :=
  ⟨startOf text.toList, (pieces text).filter fun part => part != "" && part != "."⟩

def startText : PathStart → String
  | .working => ""
  | .root => "/"
  | .twoSlashes => "//"

def text (p : Path) : String :=
  match p.start, p.parts with
  | .working, [] => "."
  | start, parts => startText start ++ String.intercalate "/" parts

def child (p : Path) (name : String) : Path := { p with parts := p.parts ++ [name] }

def parent (p : Path) : Path := { p with parts := p.parts.dropLast }

def isAbsolute (p : Path) : Bool := p.start != .working

def relativeTo? (p base : Path) : Option Path :=
  if p.start = base.start ∧ base.parts.isPrefixOf p.parts then
    some ⟨.working, p.parts.drop base.parts.length⟩
  else none

/-- The path as messages show it: relative to the working directory where it is an
absolute path that starts with it. -/
def describe (p working : Path) : String :=
  if p.isAbsolute then
    match p.relativeTo? working with
    | some rest => rest.text ++ " (abs)"
    | none => p.text
  else p.text

end Path

end OverlayBuild

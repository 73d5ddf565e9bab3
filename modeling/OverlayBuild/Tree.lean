import OverlayBuild.Path
import OverlayBuild.Text.Basic
import OverlayBuild.Text.Quoted

/-! The tree of files: what stands where, how a path leads through it, and how it is
changed. -/
namespace OverlayBuild

inductive Refusal where
  | notFound
  | permission
  | notDirectory
  | isDirectory
  | nameTooLong
  deriving DecidableEq, Repr

def Refusal.text : Refusal → String
  | .notFound => "[Errno 2] No such file or directory"
  | .permission => "[Errno 13] Permission denied"
  | .notDirectory => "[Errno 20] Not a directory"
  | .isDirectory => "[Errno 21] Is a directory"
  | .nameTooLong => "[Errno 36] File name too long"

/-- A refusal and what was refused, as an expression. -/
structure SystemError where
  refusal : Refusal
  subject : String
  deriving DecidableEq, Repr

def SystemError.message (e : SystemError) : String := e.refusal.text ++ ": " ++ e.subject

/-- The names that lead to a place from the root of the tree. -/
abbrev Location := List String

inductive Entry where
  | directory
  | file (content : List UInt8)
  deriving DecidableEq, Repr

/-- Everything but the root, which is always a directory. -/
structure Tree where
  entries : List (Location × Entry)
  deriving Repr

namespace Tree

variable (t : Tree)

def get? (location : Location) : Option Entry :=
  if location = [] then some .directory else t.entries.lookup location

def put (location : Location) (entry : Entry) : Tree :=
  ⟨(location, entry) :: t.entries.filter (·.1 != location)⟩

def erase (location : Location) : Tree := ⟨t.entries.filter (·.1 != location)⟩

theorem lookup_filter_ne {α : Type} (l location : Location) (entries : List (Location × α)) :
    (entries.filter (·.1 != location)).lookup l =
      if l = location then none else entries.lookup l := by
  induction entries with
  | nil => simp
  | cons e rest ih =>
    obtain ⟨k, v⟩ := e
    by_cases hk : k = location
    · subst hk
      by_cases hl : l = k
      · simpa [hl] using ih
      · have hb : (l == k) = false := beq_eq_false_iff_ne.mpr hl
        simpa [hl, List.lookup_cons, hb] using ih
    · by_cases hl : l = k
      · subst hl
        simp [hk]
      · have hb : (l == k) = false := beq_eq_false_iff_ne.mpr hl
        simpa [hk, List.lookup_cons, hb] using ih

theorem get?_put (location l : Location) (entry : Entry) (inside : location ≠ []) :
    (t.put location entry).get? l = if l = location then some entry else t.get? l := by
  by_cases root : l = []
  · subst root
    simp [get?, inside.symm]
  · by_cases hl : l = location
    · simp [get?, put, hl, inside]
    · have hb : (l == location) = false := beq_eq_false_iff_ne.mpr hl
      simp [get?, put, hl, root, List.lookup_cons, hb, lookup_filter_ne]

theorem get?_erase (location l : Location) (inside : location ≠ []) :
    (t.erase location).get? l = if l = location then none else t.get? l := by
  by_cases root : l = []
  · subst root
    simp [get?, inside.symm]
  · simp [get?, erase, root, lookup_filter_ne]

def maxNameBytes : Nat := 255

def follow (here : Location) (part : String) : Location :=
  if part = "" ∨ part = "." then here
  else if part = ".." then here.dropLast
  else here ++ [part]

/-- Where parts of a path lead from a place. Every part needs a directory to start from;
what the last one names need not exist. -/
def reach (here : Location) : List String → Except Refusal Location
  | [] => .ok here
  | part :: parts =>
    match t.get? here with
    | none => .error .notFound
    | some (.file _) => .error .notDirectory
    | some .directory =>
      if maxNameBytes < part.utf8ByteSize then .error .nameTooLong
      else reach (follow here part) parts

def base (working : Location) (p : Path) : Location := if p.isAbsolute then [] else working

def locate (working : Location) (p : Path) : Except Refusal Location :=
  t.reach (base working p) p.parts

def find (location : Location) : Except Refusal Entry :=
  match t.get? location with
  | some entry => .ok entry
  | none => .error .notFound

def look (working : Location) (p : Path) : Except Refusal Entry :=
  (t.locate working p).bind t.find

def present (working : Location) (p : Path) : Bool :=
  match t.look working p with
  | .ok _ => true
  | .error _ => false

def isDirectory (working : Location) (p : Path) : Bool :=
  match t.look working p with
  | .ok .directory => true
  | _ => false

/-- The content of a file. -/
def content? (working : Location) (p : Path) : Option (List UInt8) :=
  match t.look working p with
  | .ok (.file content) => some content
  | _ => none

def read (working : Location) (p : Path) : Except Refusal (List UInt8) :=
  match t.look working p with
  | .ok (.file content) => .ok content
  | .ok .directory => .error .isDirectory
  | .error refusal => .error refusal

/-- Puts a file, or what was in it before anew, at a place that is no directory. -/
def writeAt (location : Location) (content : List UInt8) : Except Refusal Tree :=
  match t.get? location with
  | some .directory => .error .isDirectory
  | _ => .ok (t.put location (.file content))

def write (working : Location) (p : Path) (content : List UInt8) : Except Refusal Tree := do
  t.writeAt (← t.locate working p) content

def remove (working : Location) (p : Path) : Except Refusal Tree := do
  let location ← t.locate working p
  match ← t.find location with
  | .directory => throw .isDirectory
  | .file _ => return t.erase location

/-- The place that a path as it is written leads to. Unlike the parts of a `Path`, empty
parts and single dots count: they need a directory before them. -/
def locateText (working : Location) (text : String) : Except Refusal Location :=
  if text = "" then .error .notFound
  else t.reach (if text.startsWith "/" then [] else working) (Path.pieces text)

/-- Writes to a path as it is written. A slash at its end says that it is a directory. -/
def writeText (working : Location) (text : String) (content : List UInt8) :
    Except Refusal Tree := do
  let bare := String.ofList (Text.dropEndWhile (· == '/') text.toList)
  let location ← if bare = "" then t.locateText working text else t.locateText working bare
  if text.endsWith "/" then throw .isDirectory
  t.writeAt location content

/-- Directories down to a place, where there are none yet. -/
def makeDirectories (here : Location) : List String → Tree → Tree
  | [], t => t
  | name :: names, t =>
    let here := here ++ [name]
    makeDirectories here names (if (t.get? here).isSome then t else t.put here .directory)

/-- The place that a path names, whatever stands on the way. -/
def resolve (working : Location) (p : Path) : Location := p.parts.foldl follow (base working p)

end Tree

end OverlayBuild

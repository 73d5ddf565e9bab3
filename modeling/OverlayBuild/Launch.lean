import OverlayBuild.Command

/-! What a command needs to start: a name of a program that is found on the search path
or at a place of its own, and a directory to run in. -/
namespace OverlayBuild.Launch

structure Machine where
  /-- The working directory. -/
  working : Location
  /-- Directories that are searched for programs, parted by colons. -/
  searchPath : String
  programs : List Location
  deriving Repr

def holdsNull (s : String) : Bool := s.toList.contains '\x00'

def handed (c : Command) : List String :=
  c.words ++ (c.directory.map Path.text).toList ++ c.environment.flatMap fun v => [v.1, v.2]

def inDirectory (directory name : String) : String :=
  if directory = "" ∨ directory.endsWith "/" then directory ++ name
  else directory ++ "/" ++ name

/-- The places where a program of a name is looked for, in order. -/
def candidates (searchPath name : String) : List String :=
  if name.toList.contains '/' then [name]
  else (Text.splitAt ':' searchPath.toList).map fun d => inDirectory (String.ofList d) name

def refusal? (m : Machine) (t : Tree) (directory : Location) (candidate : String) :
    Option Refusal :=
  match t.locateText directory candidate with
  | .error refusal => some refusal
  | .ok location =>
    match t.get? location with
    | none => some .notFound
    | some .directory => some .permission
    | some (.file _) => if m.programs.contains location then none else some .permission

def isMissing (refusal : Refusal) : Bool := refusal == .notFound || refusal == .notDirectory

/-- Why none of the candidates is run: the first refusal of one that is there, or else the
last one of all. -/
def firstRefusal (refusals : List Refusal) : Refusal :=
  ((refusals.find? (!isMissing ·)).orElse fun _ => refusals.getLast?).getD .notFound

def directoryOf (m : Machine) (t : Tree) (c : Command) : Except StartFault Location :=
  match c.directory with
  | none => .ok m.working
  | some p =>
    let subject := "PosixPath(" ++ p.text.quotedText ++ ")"
    match t.locate m.working p with
    | .error refusal => .error (.system ⟨refusal, subject⟩)
    | .ok location =>
      match t.get? location with
      | some .directory => .ok location
      | some (.file _) => .error (.system ⟨.notDirectory, subject⟩)
      | none => .error (.system ⟨.notFound, subject⟩)

def start (m : Machine) (t : Tree) (c : Command) : Except StartFault Location := do
  let some name := c.words.head? | throw .noProgram
  if c.environment.any fun v => v.1.toList.contains '=' then throw .variableName
  if (handed c).any holdsNull then throw .nullByte
  let directory ← directoryOf m t c
  let searchPath := (c.environment.lookup "PATH").getD m.searchPath
  let refusals := (candidates searchPath name).map (refusal? m t directory)
  if refusals.contains none then return directory
  throw (.system ⟨firstRefusal (refusals.filterMap id), name.quotedText⟩)

end OverlayBuild.Launch

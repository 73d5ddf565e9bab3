import OverlayBuild.Build.Flow
import OverlayBuild.CommandLine.Order
import OverlayBuild.Overlay

/-! Running the command line: the order is carried out, and its result is printed or
written to a file. -/
namespace OverlayBuild.CommandLine

open Build Report

inductive Fault where
  | overlay (cause : Overlay.Fault)
  | flow (cause : Flow.Fault)
  /-- The output file is refused. -/
  | output (error : SystemError)
  | nullByte
  /-- A line holds half a surrogate pair. -/
  | unencodable (line : List Char)
  deriving Repr

def Fault.category? : Fault → Option Category
  | .overlay cause => cause.category?
  | .flow cause => cause.category?
  | .output _ | .nullByte | .unencodable _ => none

def Fault.message : Fault → String
  | .overlay cause => cause.message
  | .flow cause => cause.message
  | .output error => error.message
  | .nullByte => "embedded null byte"
  | .unencodable line =>
    String.ofList (Text.encodeFault "utf-8" "surrogates not allowed" Text.Utf8.isHalf line)

structure Ended where
  /-- The exit status, or an error that nothing catches. -/
  status : Except Fault Nat
  output : String
  errors : String
  tree : Tree
  call : Option Call
  deriving Repr

/-- Text of several lines is written as it stands where that can be. -/
def configOf (settings : Settings) : Config := ⟨settings.program, [], .literal⟩

def buildOf (host : Host) (tree : Tree) :
    Order → Except Overlay.Fault Flow.Run
  | .build root restrictor settings =>
    .ok (buildKustomization host (configOf settings) tree root restrictor)
  | .overlay file base settings => do
    let attributes ← Overlay.read tree host.working file
    return buildAttributes host (configOf settings) tree attributes (base.getD file.parent)

def Order.settings : Order → Settings
  | .build _ _ settings | .overlay _ _ settings => settings

def isStandardOutput (name : String) : Bool := name == "-" || name == standardOutput

/-- The end of an order that fails: with a category it is reported. -/
def failed (fault : Fault) (tree : Tree) (call : Option Call) : Ended :=
  if fault.category?.isSome then
    ⟨.ok 1, "", programName ++ " error:  " ++ fault.message ++ "\n", tree, call⟩
  else ⟨.error fault, "", "", tree, call⟩

/-- Prints lines one after the other, or writes them to the file that is named for them and that is
emptied before. A line that cannot be encoded ends the run; those before it are out by then. -/
def deliver (host : Host) (file : String) (lines : List (List Char)) (tree : Tree)
    (call : Option Call) : Ended :=
  let out := textOf (lines.takeWhile fun l => !l.any Text.Utf8.isHalf)
  let status := match lines.find? fun l => l.any Text.Utf8.isHalf with
    | none => .ok 0
    | some line => .error (.unencodable line)
  if isStandardOutput file then ⟨status, out, "", tree, call⟩
  else if file.toList.contains '\x00' then failed .nullByte tree call
  else match tree.writeText host.working file out.toUTF8.toList with
    | .ok tree => ⟨status, "", "", tree, call⟩
    | .error refusal => failed (.output ⟨refusal, file.quotedText⟩) tree call

def Order.carryOut (order : Order) (host : Host) (tree : Tree) : Ended :=
  match buildOf host tree order with
  | .error cause => failed (.overlay cause) tree none
  | .ok run =>
    match run.result with
    | .error cause => failed (.flow cause) run.tree run.call
    | .ok result =>
      deliver host order.settings.outputFile
        (Report.lines .literal order.settings.format result.sorted) run.tree run.call

def Answer.ended (tree : Tree) : Answer → Ended
  | .help screen => ⟨.ok 0, screen.help, "", tree, none⟩
  | .misuse screen cause =>
    ⟨.ok 2, "", screen.usage ++ screen.title ++ ": error: " ++ cause.message ++ "\n", tree, none⟩

def run (host : Host) (environment : List (String × String)) (words : List String) (tree : Tree) :
    Ended :=
  match Order.read environment words with
  | .error answer => answer.ended tree
  | .ok order => order.carryOut host tree

end OverlayBuild.CommandLine

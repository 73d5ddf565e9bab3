import OverlayBuild.CommandLine.Usage

/-! Orders: what a command line asks to be done. -/
namespace OverlayBuild.CommandLine

open Build Report

structure Settings where
  program : String
  format : Format
  /-- Where the result goes, as it is written. -/
  outputFile : String
  deriving DecidableEq, Repr

inductive Order where
  | build (root : Path) (restrictor : String) (settings : Settings)
  /-- The base is the directory of the file unless it is given. -/
  | overlay (file : Path) (base : Option Path) (settings : Settings)
  deriving DecidableEq, Repr

inductive Answer where
  | help (screen : Screen)
  | misuse (screen : Screen) (cause : Misuse)
  deriving DecidableEq, Repr

def Answer.ofStop (screen : Screen) : Stop → Answer
  | .help => .help screen
  | .misuse cause => .misuse screen cause

def standardOutput : String := "/dev/stdout"

/-- The variable that names the program where no flag does. -/
def programVariable : String := "KUSTOMIZE_BIN"

def settingsOf (environment : List (String × String)) (r : Reading) : Settings where
  program := (r.value? CommandLine.program).getD
    ((environment.lookup programVariable).getD defaultProgram)
  format := ((r.value? output).bind Format.ofName?).getD .yaml
  outputFile := (r.value? CommandLine.outputFile).getD standardOutput

def Screen.ofName? (name : String) : Option Screen := Screen.commands.find? fun s => s.name == name

def Order.of (environment : List (String × String)) (screen : Screen) (r : Reading) : Order :=
  let settings := settingsOf environment r
  let path := Path.ofText ((r.arguments.getD []).headD "")
  match screen with
  | .overlay => .overlay path ((r.value? basePath).map Path.ofText) settings
  | _ => .build path ((r.value? loadRestrictor).getD Restrictor.rootOnly.name) settings

def Order.read (environment : List (String × String)) (words : List String) :
    Except Answer Order := do
  let main ← (Screen.main.grammar.read words).mapError (.ofStop .main)
  let (name, words) := match main.arguments with
    | some (name :: words) => (name, words)
    | _ => ("", [])
  let screen := (Screen.ofName? name).getD .build
  let r ← (screen.grammar.read words).mapError (.ofStop screen)
  match main.extras ++ r.extras with
  | [] => return .of environment screen r
  | extras => throw (.misuse .main (.unrecognized extras))

end OverlayBuild.CommandLine

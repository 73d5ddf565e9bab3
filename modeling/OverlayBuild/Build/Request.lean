import OverlayBuild.Build.Output
import OverlayBuild.Command
import OverlayBuild.Spec.Basic

/-! What is asked of a build, and how it can fail. -/
namespace OverlayBuild.Build

open Text

inductive Restrictor where
  /-- Files below the root only. -/
  | rootOnly
  | unrestricted
  deriving DecidableEq, Repr

namespace Restrictor

def all : List Restrictor := [.rootOnly, .unrestricted]

def name : Restrictor → String
  | .rootOnly => ""
  | .unrestricted => "none"

def ofName? (s : String) : Option Restrictor := all.find? fun r => r.name == s

def arguments : Restrictor → List String
  | .rootOnly => []
  | .unrestricted => ["--load-restrictor", "LoadRestrictionsNone"]

end Restrictor

structure Config where
  /-- The name or the place of the program. -/
  program : String
  environment : List (String × String)
  /-- The style of text of several lines in staged specifications. -/
  multiline : Yaml.Multiline
  deriving Repr

def defaultProgram : String := "kustomize"

/-- A build of a root, which either holds a kustomization or has a specification staged
in it. -/
structure Request where
  spec : Option Spec
  root : Path
  /-- The name of a restrictor. -/
  restrictor : String
  deriving DecidableEq, Repr

def stagedName : String := "Kustomization"

def kustomizationNames : List String := ["kustomization.yaml", "kustomization.yml", stagedName]

namespace Request

def stagedFile (r : Request) : Path := r.root.child stagedName

def place (r : Request) (working : Location) : Location := Tree.resolve working r.root

def stagedPlace (r : Request) (working : Location) : Location := r.place working ++ [stagedName]

def rendered (r : Request) (multiline : Yaml.Multiline) : Except Spec.Fault String :=
  (r.spec.map (·.yaml multiline)).getD (.ok "")

def command (r : Request) (config : Config) (restrictor : Restrictor) : Command :=
  ⟨config.program :: "build" :: r.root.text :: restrictor.arguments, none, config.environment⟩

end Request

inductive Fault where
  | notDirectory (path : String)
  | restrictor (name : String)
  /-- There is a kustomization in the way of the one to be staged. -/
  | occupied (path : String)
  | spec (cause : Spec.Fault)
  | file (error : SystemError)
  | command (cause : Command.Fault)
  | output (cause : Output.Fault)
  deriving Repr

def Fault.category? : Fault → Option Category
  | .notDirectory _ => some .path
  | .restrictor _ | .occupied _ => some .input
  | .spec _ | .file _ => none
  | .command cause => if cause.isReported then some .build else none
  | .output cause => cause.category?

def restrictorNames : List String := Restrictor.all.map Restrictor.name

def Fault.message : Fault → String
  | .notDirectory path => "Build path is not a directory: " ++ path
  | .restrictor name =>
    "Invalid load restrictor '" ++ name ++ "', expected one of: "
      ++ (Value.list (restrictorNames.map .str)).literal
  | .occupied path => "Cannot stage overlay, '" ++ path ++ "' already exists"
  | .spec cause => cause.message
  | .file error => error.message
  | .command cause => cause.message
  | .output cause => cause.message

abbrev Outcome := Except Fault (List Resource)

end OverlayBuild.Build

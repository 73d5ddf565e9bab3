import OverlayBuild.Build.Program
import OverlayBuild.Resource.Result
import OverlayBuild.Spec.Compose

/-! The two flows from a request to a build result: the build of a kustomization, and the
build of an overlay that its attributes describe. -/
namespace OverlayBuild.Build

namespace Flow

inductive Component where
  | kustomization
  | overlay
  deriving DecidableEq, Repr

def Component.name : Component → String
  | .kustomization => "kustomization build"
  | .overlay => "kustomization overlay"

inductive Fault where
  | compose (cause : ComposeFault)
  | build (component : Component) (cause : Build.Fault)
  | result (component : Component) (cause : BuildResult.Fault)
  deriving Repr

def resultCategory? : BuildResult.Fault → Option Category
  | .duplicateId _ | .tierCount _ | .overlap _ | .mismatch _ => some .input
  | .tooFewIds | .tooManyIds | .manifest _ => none

def Fault.category? : Fault → Option Category
  | .compose _ => none
  | .build _ cause => cause.category?
  | .result _ cause => resultCategory? cause

/-- A message with the name of the flow before it, where the error has a category. -/
def named (component : Component) (category : Option Category) (message : String) : String :=
  if category.isSome then component.name ++ ": " ++ message else message

def Fault.message : Fault → String
  | .compose cause => cause.message
  | .build component cause => named component cause.category? cause.message
  | .result component cause => named component (resultCategory? cause) cause.message

def finish (component : Component) : Outcome → Except Fault BuildResult
  | .error cause => .error (.build component cause)
  | .ok resources => (BuildResult.ofResources resources).mapError (.result component)

structure Run where
  result : Except Fault BuildResult
  tree : Tree
  call : Option Call
  deriving Repr

def Run.ofBuild (component : Component) (run : Build.Run) : Run :=
  ⟨finish component run.outcome, run.tree, run.call⟩

end Flow

def Request.kustomization (root : Path) (restrictor : String) : Request :=
  ⟨none, root, restrictor⟩

def Request.overlay (spec : Spec) (base : Path) : Request :=
  ⟨some spec, base, Restrictor.rootOnly.name⟩

variable (host : Host) (config : Config) (tree : Tree)

def buildKustomization (root : Path) (restrictor : String) : Flow.Run :=
  .ofBuild .kustomization (build host config tree (.kustomization root restrictor))

def buildOverlay (spec : Spec) (base : Path) : Flow.Run :=
  .ofBuild .overlay (build host config tree (.overlay spec base))

def buildAttributes (attributes : Value) (base : Path) : Flow.Run :=
  match compose attributes with
  | .error cause => ⟨.error (.compose cause), tree, none⟩
  | .ok (spec, _) => buildOverlay host config tree spec base

end OverlayBuild.Build

import OverlayBuild.Text.Basic

/-! Traces of nested steps. A step is entered and left with a line each; the line names
the steps that the step is inside of, the outermost first. -/
namespace OverlayBuild.Trace

inductive Step where
  /-- `fails`: an error arises after the steps within. `catches`: an error that arises
  within goes no further. -/
  | mk (name : String) (inner : List Step) (fails catches : Bool)
  deriving Repr, Inhabited

inductive Line where
  | entered (path : List String)
  | left (path : List String)
  deriving DecidableEq, Repr

def label (path : List String) : String := String.intercalate " > " path

def Line.text : Line → String
  | .entered path => "[Trace] > " ++ label path
  | .left path => "[Trace] < " ++ label path

/-- The names of the open steps, the outermost first, and the lines so far. -/
structure Log where
  stack : List String
  lines : List Line
  deriving DecidableEq, Repr

namespace Log

def empty : Log := ⟨[], []⟩

def enter (log : Log) (name : String) : Log :=
  let stack := log.stack ++ [name]
  ⟨stack, log.lines ++ [.entered stack]⟩

/-- Leaves the step of a path; `outer` is the stack from before it was entered. -/
def leave (log : Log) (path outer : List String) : Log := ⟨outer, log.lines ++ [.left path]⟩

end Log

mutual
/-- Runs a step: what is logged, and the name of the step whose error goes further. -/
def runStep (log : Log) : Step → Log × Option String
  | .mk name inner fails catches =>
    let inside := log.enter name
    let (after, raised) := runSteps inside inner
    let raised := raised.orElse fun _ => if fails then some name else none
    (after.leave inside.stack log.stack, if catches then none else raised)
termination_by structural step => step
def runSteps (log : Log) : List Step → Log × Option String
  | [] => (log, none)
  | step :: steps =>
    match runStep log step with
    | (log, none) => runSteps log steps
    | (log, some name) => (log, some name)
termination_by structural steps => steps
end

def run (steps : List Step) : Log × Option String := runSteps .empty steps

end OverlayBuild.Trace

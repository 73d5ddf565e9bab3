import OverlayBuild.Build.Machine

/-! Running builds to their end. Builds take their steps in turn, and programs are slow: one
ends only when no build can do anything else. -/
namespace OverlayBuild.Build

namespace Phase

/-- How many steps a build may still take. -/
def steps : Phase → Nat
  | .entering => 7 + kustomizationNames.length + 2
  | .waiting _ => 7 + kustomizationNames.length + 1
  | .checking _ names => 7 + names.length
  | .opening _ _ => 6
  | .writing _ _ => 5
  | .queued _ => 4
  | .running _ => 3
  | .cleaning _ _ => 2
  | .removing _ _ => 1
  | .done _ => 0

def isRunning : Phase → Bool
  | .running _ => true
  | _ => false

def outcome? : Phase → Option Outcome
  | .done outcome => some outcome
  | _ => none

end Phase

namespace State

def steps (s : State) : Nat := s.jobs.foldl (fun steps j => steps + j.phase.steps) 0

/-- The first of some builds that can take a step, and the state after it. -/
def firstStep? (host : Host) (s : State) : List Nat → Option (Nat × State)
  | [] => none
  | i :: order =>
    match s.step host i with
    | some next => some (i, next)
    | none => s.firstStep? host order

def isRunning (s : State) (i : Nat) : Bool :=
  match s.jobs[i]? with
  | some j => j.phase.isRunning
  | none => false

def turns (s : State) (first : Nat) : List Nat :=
  let order := List.range s.jobs.length
  order.drop first ++ order.take first

/-- The next step in turn; those that wait for the program come last. -/
def next? (host : Host) (s : State) (first : Nat) : Option (Nat × State) :=
  let order := s.turns first
  (s.firstStep? host (order.filter (!s.isRunning ·))).orElse fun _ =>
    s.firstStep? host (order.filter s.isRunning)

def settleFrom (host : Host) (s : State) (first : Nat) : Nat → State
  | 0 => s
  | fuel + 1 =>
    match s.next? host first with
    | none => s
    | some (i, next) => next.settleFrom host (i + 1) fuel

def settle (host : Host) (s : State) : State := s.settleFrom host 0 s.steps

def outcomes (s : State) : List Outcome := s.jobs.filterMap fun j => j.phase.outcome?

end State

structure Results where
  outcomes : List Outcome
  tree : Tree
  context : Context
  calls : List Call
  deriving Repr

def runTogether (host : Host) (context : Context) (tree : Tree) (requests : List Request) :
    Results :=
  let final := (State.start tree context requests).settle host
  ⟨final.outcomes, final.tree, final.context, final.calls.map (·.2)⟩

end OverlayBuild.Build

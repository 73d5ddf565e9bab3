import OverlayBuild.Build.Lock
import OverlayBuild.Build.Program

/-! Builds that share a context, in steps. Between two steps of a build any other build can
take its own. The program runs under the lock of the context; a specification is staged,
and removed again, under the lock of its directory. -/
namespace OverlayBuild.Build

structure Context where
  config : Config
  /-- Held while the program runs. -/
  lock : Lock
  staging : Staging
  deriving Repr

def Context.new (config : Config) : Context := ⟨config, .free, .empty⟩

/-- A directory and the number of its lock, which a build uses. -/
structure Hold where
  key : Location
  lock : Nat
  deriving DecidableEq, Repr

inductive Phase where
  | entering
  /-- Waits for the lock of its directory. -/
  | waiting (hold : Hold)
  /-- Looks for kustomizations of these names. -/
  | checking (hold : Hold) (names : List String)
  | opening (hold : Hold) (content : String)
  | writing (hold : Hold) (content : String)
  /-- Waits for the lock of the context. -/
  | queued (hold : Option Hold)
  | running (hold : Option Hold)
  /-- Looks whether the staged file is still there. -/
  | cleaning (hold : Hold) (outcome : Outcome)
  | removing (hold : Hold) (outcome : Outcome)
  | done (outcome : Outcome)
  deriving Repr

/-- What follows the end of the program: a staged file may have to go. -/
def Phase.ended (hold : Option Hold) (outcome : Outcome) : Phase :=
  match hold with
  | some hold => .cleaning hold outcome
  | none => .done outcome

structure Job where
  request : Request
  phase : Phase
  deriving Repr

structure State where
  tree : Tree
  context : Context
  /-- The runs of the program, each with the number of its build. -/
  calls : List (Nat × Call)
  jobs : List Job
  deriving Repr

namespace State

def start (tree : Tree) (context : Context) (requests : List Request) : State :=
  ⟨tree, context, [], requests.map fun r => ⟨r, .entering⟩⟩

variable (host : Host) (s : State) (i : Nat) (r : Request)

def become (phase : Phase) : State :=
  { s with jobs := s.jobs.modify i fun j => { j with phase := phase } }

def withLock (lock : Lock) : State := { s with context := { s.context with lock := lock } }

def withStaging (staging : Staging) : State :=
  { s with context := { s.context with staging := staging } }

def queue (hold : Option Hold) : State :=
  let lock := s.context.lock.request i
  (s.withLock lock).become i (if lock.holder = some i then .running hold else .queued hold)

def enterStaging : State :=
  let key := r.place host.working
  let (staging, number) := s.context.staging.enter key i
  let hold : Hold := ⟨key, number⟩
  (s.withStaging staging).become i
    (if (staging.lock number).holder = some i then .checking hold kustomizationNames
      else .waiting hold)

/-- Nothing else is done where the root is no directory or the restrictor is unknown. -/
def enter : State :=
  if !s.tree.isDirectory host.working r.root then
    s.become i (.done (.error (.notDirectory (r.root.describe host.workingPath))))
  else if (Restrictor.ofName? r.restrictor).isNone then
    s.become i (.done (.error (.restrictor r.restrictor)))
  else match r.spec with
    | none => s.queue i none
    | some _ => s.enterStaging host i r

def finish (hold : Hold) (outcome : Outcome) : State :=
  (s.withStaging (s.context.staging.leave hold.key hold.lock)).become i (.done outcome)

def stage (hold : Hold) : State :=
  match r.rendered s.context.config.multiline with
  | .ok content => s.become i (.opening hold content)
  | .error cause => s.finish i hold (.error (.spec cause))

def check (hold : Hold) : List String → State
  | [] => s.stage i r hold
  | name :: names =>
    let file := r.root.child name
    if s.tree.present host.working file then
      s.finish i hold (.error (.occupied (file.describe host.workingPath)))
    else if names = [] then s.stage i r hold
    else s.become i (.checking hold names)

/-- Writes the staged file and goes on. A refusal is not the end, for the file may have to
go. -/
def put (hold : Hold) (content : List UInt8) (next : State → State) : State :=
  match s.tree.write host.working r.stagedFile content with
  | .ok tree => next { s with tree := tree }
  | .error refusal => s.become i (.cleaning hold (.error (fileFault r.stagedFile refusal)))

def run (hold : Option Hold) : State :=
  let run := host.run s.context.config s.tree r
  let calls := s.calls ++ (run.call.map fun call => (i, call)).toList
  (({ s with tree := run.tree, calls := calls }).withLock s.context.lock.release).become i
    (.ended hold run.outcome)

def clean (hold : Hold) (outcome : Outcome) : State :=
  if s.tree.present host.working r.stagedFile then s.become i (.removing hold outcome)
  else s.finish i hold outcome

def remove (hold : Hold) (outcome : Outcome) : State :=
  match s.tree.remove host.working r.stagedFile with
  | .ok tree => ({ s with tree := tree }).finish i hold outcome
  | .error refusal => s.finish i hold (.error (fileFault r.stagedFile refusal))

/-- The next step of a build. There is none for a build that waits for a lock or that has
ended. -/
def step : Option State :=
  match s.jobs[i]? with
  | none => none
  | some j =>
    let r := j.request
    match j.phase with
    | .entering => some (s.enter host i r)
    | .waiting hold => (s.context.staging.take? hold.lock i).map fun staging =>
      (s.withStaging staging).become i (.checking hold kustomizationNames)
    | .checking hold names => some (s.check host i r hold names)
    | .opening hold content =>
      some (s.put host i r hold [] (·.become i (.writing hold content)))
    | .writing hold content =>
      some (s.put host i r hold content.toUTF8.toList (·.queue i (some hold)))
    | .queued hold => (s.context.lock.take? i).map fun lock =>
      (s.withLock lock).become i (.running hold)
    | .running hold => some (s.run host i r hold)
    | .cleaning hold outcome => some (s.clean host i r hold outcome)
    | .removing hold outcome => some (s.remove host i r hold outcome)
    | .done _ => none

end State

end OverlayBuild.Build

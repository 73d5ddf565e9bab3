import OverlayBuild.Build.Request

/-! Running the program for a build. What it does with a command and the tree is not
known here; a host says it. -/
namespace OverlayBuild.Build

structure Host where
  working : Location
  execute : Command → Tree → Except StartFault Completed × Tree

/-- A run of the program: its command, and what was staged for it at its start. -/
structure Call where
  command : Command
  staged : Option (List UInt8)
  deriving DecidableEq, Repr

structure Run where
  outcome : Outcome
  tree : Tree
  /-- None where the program did not start. -/
  call : Option Call
  deriving Repr

def fileFault (file : Path) (refusal : Refusal) : Fault :=
  .file ⟨refusal, file.text.quotedText⟩

def outcomeOf (shown : String) (result : Except StartFault Completed) : Outcome := do
  let output ← (Command.result shown result).mapError .command
  (Output.resources output).mapError .output

/-- The command of a request; its restrictor is known when it comes to this. -/
def Request.commandUnder (r : Request) (config : Config) : Command :=
  r.command config ((Restrictor.ofName? r.restrictor).getD .rootOnly)

namespace Host

variable (host : Host)

def workingPath : Path := ⟨.root, host.working⟩

def staged? (tree : Tree) (r : Request) : Option (List UInt8) :=
  tree.content? host.working r.stagedFile

def run (config : Config) (tree : Tree) (r : Request) : Run :=
  let command := r.commandUnder config
  let (result, after) := host.execute command tree
  let call := match result with
    | .ok _ => some ⟨command, host.staged? tree r⟩
    | .error _ => none
  ⟨outcomeOf (command.describe host.workingPath) result, after, call⟩

end Host

/-! A build on its own: a specification is staged for as long as the program runs, in a
directory that holds no kustomization yet. -/

section alone

variable (host : Host) (config : Config) (tree : Tree) (r : Request)

def unstage (run : Run) : Run :=
  if run.tree.present host.working r.stagedFile then
    match run.tree.remove host.working r.stagedFile with
    | .ok tree => { run with tree := tree }
    | .error refusal => { run with outcome := .error (fileFault r.stagedFile refusal) }
  else run

def occupant? : Option Path :=
  (kustomizationNames.map r.root.child).find? fun file => tree.present host.working file

def buildSpec (spec : Spec) : Run :=
  match occupant? host tree r with
  | some file => ⟨.error (.occupied (file.describe host.workingPath)), tree, none⟩
  | none =>
    match spec.yaml config.multiline with
    | .error cause => ⟨.error (.spec cause), tree, none⟩
    | .ok content =>
      unstage host r (match tree.write host.working r.stagedFile content.toUTF8.toList with
        | .ok tree => host.run config tree r
        | .error refusal => ⟨.error (fileFault r.stagedFile refusal), tree, none⟩)

/-- A build that nothing else interferes with. -/
def build : Run :=
  if !tree.isDirectory host.working r.root then
    ⟨.error (.notDirectory (r.root.describe host.workingPath)), tree, none⟩
  else if (Restrictor.ofName? r.restrictor).isNone then
    ⟨.error (.restrictor r.restrictor), tree, none⟩
  else match r.spec with
    | none => host.run config tree r
    | some spec => buildSpec host config tree r spec

end alone

end OverlayBuild.Build

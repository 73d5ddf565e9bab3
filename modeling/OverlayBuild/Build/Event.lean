import OverlayBuild.Build.Machine

/-! What can happen to builds that share a context, in any order: a build takes its next
step, or an error ends what it is about to do. -/
namespace OverlayBuild.Build

abbrev Program := Command → Tree → Except StartFault Completed × Tree

inductive Event where
  /-- A build takes its next step, if it has one. A program that runs in it behaves as
  given here, so that it need not behave alike each time. -/
  | advance (program : Program) (i : Nat)
  /-- An error is raised where a build is. -/
  | fail (i : Nat) (fault : Fault)

namespace State

variable (s : State) (i : Nat) (fault : Fault)

/-- A build gives up what it holds, or its place among those who wait, on the way out. -/
def fail : State :=
  match s.jobs[i]? with
  | none => s
  | some j =>
    match j.phase with
    | .entering => s.become i (.done (.error fault))
    | .waiting hold =>
      (s.withStaging (s.context.staging.abandon hold.key hold.lock i)).become i
        (.done (.error fault))
    | .checking hold _ | .cleaning hold _ | .removing hold _ => s.finish i hold (.error fault)
    | .opening hold _ | .writing hold _ => s.become i (.cleaning hold (.error fault))
    | .queued hold =>
      (s.withLock (s.context.lock.abandon i)).become i (.ended hold (.error fault))
    | .running hold =>
      (s.withLock s.context.lock.release).become i (.ended hold (.error fault))
    | .done _ => s

/-- Nothing happens where a build has no step to take. -/
def react (working : Location) : Event → State
  | .advance program i => (s.step ⟨working, program⟩ i).getD s
  | .fail i fault => s.fail i fault

def execute (working : Location) : List Event → State → State
  | [], s => s
  | event :: events, s => execute working events (s.react working event)

def follow (host : Host) (schedule : List Nat) : State :=
  s.execute host.working (schedule.map (.advance host.execute))

end State

end OverlayBuild.Build

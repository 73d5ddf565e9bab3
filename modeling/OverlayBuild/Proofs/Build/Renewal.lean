import OverlayBuild.Build.Event
import OverlayBuild.Build.Schedule
import OverlayBuild.Proofs.Build.Lock

/-! Locks that were made before builds start change nothing for them but the numbers of
their own locks. So builds that share a context in which nothing is locked any more behave
as in a new one. -/
namespace OverlayBuild.Build

variable (old : List Lock)

def Staging.above (s : Staging) : Staging :=
  ⟨old ++ s.made, s.locks.map fun p => (p.1, p.2 + old.length), s.users⟩

def Hold.above (hold : Hold) : Hold := ⟨hold.key, hold.lock + old.length⟩

def Phase.above : Phase → Phase
  | .entering => .entering
  | .waiting hold => .waiting (hold.above old)
  | .checking hold names => .checking (hold.above old) names
  | .opening hold content => .opening (hold.above old) content
  | .writing hold content => .writing (hold.above old) content
  | .queued hold => .queued (hold.map (·.above old))
  | .running hold => .running (hold.map (·.above old))
  | .cleaning hold outcome => .cleaning (hold.above old) outcome
  | .removing hold outcome => .removing (hold.above old) outcome
  | .done outcome => .done outcome

def Job.above (j : Job) : Job := ⟨j.request, j.phase.above old⟩

def State.above (s : State) : State :=
  ⟨s.tree, ⟨s.context.config, s.context.lock, s.context.staging.above old⟩, s.calls,
    s.jobs.map (·.above old)⟩

namespace Staging

variable {old} (s : Staging) (number i : Nat) (key : Location)

theorem modify_above (made : List Lock) (f : Lock → Lock) :
    (old ++ made).modify (number + old.length) f = old ++ made.modify number f := by
  induction old with
  | nil => rfl
  | cons first rest ih => simpa [← Nat.add_assoc] using ih

theorem lock_above : (s.above old).lock (number + old.length) = s.lock number := by
  simp [lock, above, List.getElem?_append_right]

theorem lookup_above (locks : List (Location × Nat)) :
    (locks.map fun p => (p.1, p.2 + old.length)).lookup key =
      (locks.lookup key).map (· + old.length) := by
  induction locks with
  | nil => rfl
  | cons p rest ih =>
    rw [List.map_cons, lookup_cons, lookup_cons, ih]
    split <;> rfl

theorem enter_above : (s.above old).enter key i =
    ((s.enter key i).1.above old, (s.enter key i).2 + old.length) := by
  have found : (s.above old).locks.lookup key = (s.locks.lookup key).map (· + old.length) :=
    lookup_above key s.locks
  cases known : s.locks.lookup key with
  | some number =>
    simp only [enter, found, known, Option.map_some]
    simp only [above, modify_above]
  | none =>
    simp only [enter, found, known, Option.map_none]
    simp [above, Nat.add_comm]

theorem take?_above : (s.above old).take? (number + old.length) i =
    (s.take? number i).map (·.above old) := by
  simp only [take?, lock_above, Option.map_map]
  refine congrArg (Option.map · _) (funext fun lock => ?_)
  simp [above, List.set_append_right]

theorem discount_above : (s.above old).discount key = (s.discount key).above old := by
  simp only [discount]
  by_cases used : ((decrement key s.users).lookup key).isSome = true
  · simp [above, used]
  · simp [above, used, List.filter_map, Function.comp_def]

theorem leave_above :
    (s.above old).leave key (number + old.length) = (s.leave key number).above old := by
  have released : ({ s.above old with
      made := (s.above old).made.modify (number + old.length) Lock.release } : Staging) =
      ({ s with made := s.made.modify number Lock.release } : Staging).above old := by
    simp only [above, modify_above]
  rw [leave, released, discount_above]
  rfl

theorem abandon_above : (s.above old).abandon key (number + old.length) i =
    (s.abandon key number i).above old := by
  have abandoned : ({ s.above old with
      made := (s.above old).made.modify (number + old.length) (·.abandon i) } : Staging) =
      ({ s with made := s.made.modify number (·.abandon i) } : Staging).above old := by
    simp only [above, modify_above]
  rw [abandon, abandoned, discount_above]
  rfl

end Staging

theorem Phase.ended_above (hold : Option Hold) (outcome : Outcome) :
    (Phase.ended hold outcome).above old = .ended (hold.map (·.above old)) outcome := by
  cases hold <;> rfl

namespace State

variable {old} (host : Host) (s : State) (i : Nat) (r : Request) (hold : Hold)

theorem become_above (p : Phase) : (s.above old).become i (p.above old) = (s.become i p).above old := by
  simp only [become, above, State.mk.injEq, true_and]
  refine List.ext_getElem? fun k => ?_
  simp only [List.getElem?_modify, List.getElem?_map]
  cases s.jobs[k]? with
  | none => rfl
  | some j => by_cases same : i = k <;> simp [same, Job.above]

/-- A phase with older locks is the phase of the same build with older locks. -/
theorem become_of_above {p q : Phase} (same : q = p.above old) :
    (s.above old).become i q = (s.become i p).above old := by
  rw [same, become_above]

theorem withLock_above (lock : Lock) :
    (s.above old).withLock lock = (s.withLock lock).above old := rfl

theorem withStaging_above (staging : Staging) :
    (s.above old).withStaging (staging.above old) = (s.withStaging staging).above old := rfl

theorem queue_above (held : Option Hold) :
    (s.above old).queue i (held.map (·.above old)) = (s.queue i held).above old := by
  have requested : (s.above old).context.lock.request i = s.context.lock.request i := rfl
  simp only [queue, withLock_above, requested]
  refine become_of_above _ _ ?_
  split <;> rfl

theorem enterStaging_above :
    (s.above old).enterStaging host i r = (s.enterStaging host i r).above old := by
  have entered : (s.above old).context.staging.enter (r.place host.working) i =
      ((s.context.staging.enter (r.place host.working) i).1.above old,
        (s.context.staging.enter (r.place host.working) i).2 + old.length) :=
    Staging.enter_above _ _ _
  simp only [enterStaging, entered, withStaging_above, Staging.lock_above]
  refine become_of_above _ _ ?_
  split <;> rfl

theorem enter_above : (s.above old).enter host i r = (s.enter host i r).above old := by
  unfold enter
  by_cases missing : (!s.tree.isDirectory host.working r.root) = true
  · have there : (!(s.above old).tree.isDirectory host.working r.root) = true := missing
    rw [if_pos missing, if_pos there]
    exact become_of_above s i rfl
  · have there : ¬ (!(s.above old).tree.isDirectory host.working r.root) = true := missing
    rw [if_neg missing, if_neg there]
    split
    · exact become_of_above s i rfl
    · split
      · exact queue_above s i none
      · exact enterStaging_above host s i r

theorem finish_above (outcome : Outcome) :
    (s.above old).finish i (hold.above old) outcome = (s.finish i hold outcome).above old := by
  have left : (s.above old).context.staging.leave (hold.above old).key (hold.above old).lock =
      (s.context.staging.leave hold.key hold.lock).above old := Staging.leave_above _ _ _
  rw [finish, left, withStaging_above]
  exact become_of_above _ i rfl

theorem stage_above : (s.above old).stage i r (hold.above old) = (s.stage i r hold).above old := by
  have rendered : r.rendered (s.above old).context.config.multiline =
      r.rendered s.context.config.multiline := rfl
  unfold stage
  rw [rendered]
  split
  · exact become_of_above s i rfl
  · exact finish_above s i hold _

theorem check_above (names : List String) :
    (s.above old).check host i r (hold.above old) names =
      (s.check host i r hold names).above old := by
  cases names with
  | nil => exact stage_above s i r hold
  | cons name names =>
    have present : (s.above old).tree.present host.working (r.root.child name) =
        s.tree.present host.working (r.root.child name) := rfl
    simp only [check, present]
    split
    · exact finish_above s i hold _
    · split
      · exact stage_above s i r hold
      · exact become_of_above s i rfl

theorem put_above (content : List UInt8) {next later : State → State}
    (goes : ∀ s : State, later (s.above old) = (next s).above old) :
    (s.above old).put host i r (hold.above old) content later =
      (s.put host i r hold content next).above old := by
  have written : (s.above old).tree.write host.working r.stagedFile content =
      s.tree.write host.working r.stagedFile content := rfl
  simp only [put, written]
  split
  · rename_i tree _
    exact goes { s with tree := tree }
  · exact become_of_above s i rfl

theorem run_above (held : Option Hold) :
    (s.above old).run host i r (held.map (·.above old)) = (s.run host i r held).above old := by
  let ended := host.run s.context.config s.tree r
  let after : State := { s with
    tree := ended.tree, calls := s.calls ++ (ended.call.map fun call => (i, call)).toList }
  exact become_of_above (after.withLock s.context.lock.release) i
    (Phase.ended_above old held _).symm

theorem clean_above (outcome : Outcome) :
    (s.above old).clean host i r (hold.above old) outcome =
      (s.clean host i r hold outcome).above old := by
  have present : (s.above old).tree.present host.working r.stagedFile =
      s.tree.present host.working r.stagedFile := rfl
  simp only [clean, present]
  split
  · exact become_of_above s i rfl
  · exact finish_above s i hold outcome

theorem remove_above (outcome : Outcome) :
    (s.above old).remove host i r (hold.above old) outcome =
      (s.remove host i r hold outcome).above old := by
  have removed : (s.above old).tree.remove host.working r.stagedFile =
      s.tree.remove host.working r.stagedFile := rfl
  simp only [remove, removed]
  split
  · rename_i tree _
    exact finish_above { s with tree := tree } i hold outcome
  · exact finish_above s i hold _

theorem step_above : (s.above old).step host i = (s.step host i).map (·.above old) := by
  have found : (s.above old).jobs[i]? = s.jobs[i]?.map (·.above old) := List.getElem?_map
  simp only [step, found]
  cases s.jobs[i]? with
  | none => rfl
  | some j =>
    obtain ⟨r, p⟩ := j
    simp only [Option.map_some, Job.above]
    cases p with
    | entering => exact congrArg some (enter_above host s i r)
    | waiting hold =>
      have taken : (s.above old).context.staging.take? (hold.above old).lock i =
          (s.context.staging.take? hold.lock i).map (·.above old) := Staging.take?_above _ _ _
      simp only [Phase.above, taken, Option.map_map]
      exact congrArg (Option.map · _) (funext fun staging => become_of_above (s.withStaging staging) i rfl)
    | checking hold names => exact congrArg some (check_above host s i r hold names)
    | opening hold content =>
      exact congrArg some (put_above host s i r hold [] fun s => become_of_above s i rfl)
    | writing hold content =>
      exact congrArg some (put_above host s i r hold _ fun s => queue_above s i (some hold))
    | queued held =>
      simp only [Phase.above, Option.map_map]
      exact congrArg (Option.map · _) (funext fun lock => become_of_above (s.withLock lock) i rfl)
    | running held => exact congrArg some (run_above host s i r held)
    | cleaning hold outcome => exact congrArg some (clean_above host s i r hold outcome)
    | removing hold outcome => exact congrArg some (remove_above host s i r hold outcome)
    | done outcome => rfl

theorem fail_above (fault : Fault) : (s.above old).fail i fault = (s.fail i fault).above old := by
  have found : (s.above old).jobs[i]? = s.jobs[i]?.map (·.above old) := List.getElem?_map
  simp only [fail, found]
  cases s.jobs[i]? with
  | none => rfl
  | some j =>
    obtain ⟨r, p⟩ := j
    simp only [Option.map_some, Job.above]
    cases p with
    | entering => exact become_of_above s i rfl
    | waiting hold =>
      have gone : (s.above old).context.staging.abandon (hold.above old).key
          (hold.above old).lock i = (s.context.staging.abandon hold.key hold.lock i).above old :=
        Staging.abandon_above _ _ _ _
      simp only [Phase.above, gone]
      exact become_of_above
        (s.withStaging (s.context.staging.abandon hold.key hold.lock i)) i rfl
    | checking hold names => exact finish_above s i hold _
    | opening hold content => exact become_of_above s i rfl
    | writing hold content => exact become_of_above s i rfl
    | queued held =>
      exact become_of_above (s.withLock (s.context.lock.abandon i)) i
        (Phase.ended_above old held _).symm
    | running held =>
      exact become_of_above (s.withLock s.context.lock.release) i
        (Phase.ended_above old held _).symm
    | cleaning hold outcome => exact finish_above s i hold _
    | removing hold outcome => exact finish_above s i hold _
    | done outcome => rfl

theorem react_above (working : Location) (event : Event) :
    (s.above old).react working event = (s.react working event).above old := by
  cases event with
  | advance program i =>
    simp only [react, step_above]
    cases s.step ⟨working, program⟩ i <;> rfl
  | fail i fault => exact fail_above s i fault

theorem execute_above (working : Location) (events : List Event) :
    (s.above old).execute working events = (s.execute working events).above old := by
  induction events generalizing s with
  | nil => rfl
  | cons event events ih =>
    rw [execute, react_above]
    exact ih _

theorem start_above (tree : Tree) (config : Config) (requests : List Request) :
    start tree ⟨config, .free, ⟨old, [], []⟩⟩ requests =
      (start tree (.new config) requests).above old := by
  simp [start, above, Context.new, Staging.empty, Staging.above, Job.above, Phase.above]

theorem outcomes_above : (s.above old).outcomes = s.outcomes := by
  simp only [outcomes, above, List.filterMap_map]
  refine congrArg (List.filterMap · s.jobs) (funext fun j => ?_)
  obtain ⟨r, p⟩ := j
  cases p <;> rfl

end State

end OverlayBuild.Build

import OverlayBuild.Proofs.Build.Standing

/-! What a build does in one step, apart from the locks: which phase follows which, what is
true of the tree then, what becomes of it, and whether the program is run. An error leaves
the tree alone. -/
namespace OverlayBuild.Build

/-- The steps of a build. The last two arguments are the tree after the step, and the run
of the program in it. -/
inductive Moves (host : Host) (config : Config) (r : Request) (tree : Tree) :
    Phase → Phase → Tree → Option Call → Prop
  | elsewhere (missing : tree.isDirectory host.working r.root = false) :
    Moves host config r tree .entering
      (.done (.error (.notDirectory (r.root.describe host.workingPath)))) tree none
  | unlisted (directory : tree.isDirectory host.working r.root = true)
      (unknown : (Restrictor.ofName? r.restrictor).isNone = true) :
    Moves host config r tree .entering (.done (.error (.restrictor r.restrictor))) tree none
  | plain {next : Phase} (directory : tree.isDirectory host.working r.root = true)
      (known : (Restrictor.ofName? r.restrictor).isNone = false) (plain : r.spec = none)
      (queued : next = .queued none ∨ next = .running none) :
    Moves host config r tree .entering next tree none
  | join {next : Phase} (hold : Hold) (directory : tree.isDirectory host.working r.root = true)
      (known : (Restrictor.ofName? r.restrictor).isNone = false) (staged : r.spec.isSome = true)
      (here : hold.key = r.place host.working)
      (joined : next = .waiting hold ∨ next = .checking hold kustomizationNames) :
    Moves host config r tree .entering next tree none
  | enter {hold : Hold} :
    Moves host config r tree (.waiting hold) (.checking hold kustomizationNames) tree none
  | vacant {hold : Hold} {name : String} {names : List String}
      (vacant : tree.present host.working (r.root.child name) = false) :
    Moves host config r tree (.checking hold (name :: names)) (.checking hold names) tree none
  | occupied {hold : Hold} {name : String} {names : List String}
      (occupied : tree.present host.working (r.root.child name) = true) :
    Moves host config r tree (.checking hold (name :: names))
      (.done (.error (.occupied ((r.root.child name).describe host.workingPath)))) tree none
  | rendered {hold : Hold} {names : List String} {content : String}
      (vacant : ∀ name ∈ names, tree.present host.working (r.root.child name) = false)
      (written : r.rendered config.multiline = .ok content) :
    Moves host config r tree (.checking hold names) (.opening hold content) tree none
  | unrendered {hold : Hold} {names : List String} {cause : Spec.Fault}
      (vacant : ∀ name ∈ names, tree.present host.working (r.root.child name) = false)
      (unwritten : r.rendered config.multiline = .error cause) :
    Moves host config r tree (.checking hold names) (.done (.error (.spec cause))) tree none
  | opened {hold : Hold} {content : String} {after : Tree}
      (put : tree.write host.working r.stagedFile [] = .ok after) :
    Moves host config r tree (.opening hold content) (.writing hold content) after none
  | unopened {hold : Hold} {content : String} {refusal : Refusal}
      (refused : tree.write host.working r.stagedFile [] = .error refusal) :
    Moves host config r tree (.opening hold content)
      (.cleaning hold (.error (fileFault r.stagedFile refusal))) tree none
  | written {next : Phase} {hold : Hold} {content : String} {after : Tree}
      (put : tree.write host.working r.stagedFile content.toUTF8.toList = .ok after)
      (queued : next = .queued (some hold) ∨ next = .running (some hold)) :
    Moves host config r tree (.writing hold content) next after none
  | unwritten {hold : Hold} {content : String} {refusal : Refusal}
      (refused : tree.write host.working r.stagedFile content.toUTF8.toList = .error refusal) :
    Moves host config r tree (.writing hold content)
      (.cleaning hold (.error (fileFault r.stagedFile refusal))) tree none
  | turn {hold : Option Hold} : Moves host config r tree (.queued hold) (.running hold) tree none
  | run {hold : Option Hold} :
    Moves host config r tree (.running hold) (.ended hold (host.run config tree r).outcome)
      (host.run config tree r).tree (host.run config tree r).call
  | gone {hold : Hold} {outcome : Outcome}
      (gone : tree.present host.working r.stagedFile = false) :
    Moves host config r tree (.cleaning hold outcome) (.done outcome) tree none
  | left {hold : Hold} {outcome : Outcome}
      (left : tree.present host.working r.stagedFile = true) :
    Moves host config r tree (.cleaning hold outcome) (.removing hold outcome) tree none
  | removed {hold : Hold} {outcome : Outcome} {after : Tree}
      (removed : tree.remove host.working r.stagedFile = .ok after) :
    Moves host config r tree (.removing hold outcome) (.done outcome) after none
  | unremoved {hold : Hold} {outcome : Outcome} {refusal : Refusal}
      (refused : tree.remove host.working r.stagedFile = .error refusal) :
    Moves host config r tree (.removing hold outcome)
      (.done (.error (fileFault r.stagedFile refusal))) tree none

/-- The phase after an error, which comes after a clean-up where something is staged. -/
def Phase.failed (fault : Fault) : Phase → Phase
  | .entering | .waiting _ | .checking _ _ | .cleaning _ _ | .removing _ _ => .done (.error fault)
  | .opening hold _ | .writing hold _ => .cleaning hold (.error fault)
  | .queued hold | .running hold => .ended hold (.error fault)
  | .done outcome => .done outcome

/-- One build goes on with a phase, and the program is run once at most. Nothing else
changes, apart from the tree and the locks. -/
structure Advances (s next : State) (i : Nat) (q : Phase) (call : Option Call) : Prop where
  phase? : ∀ k, next.phase? k = if k = i then some q else s.phase? k
  request? : ∀ k, next.request? k = s.request? k
  calls : next.calls = s.calls ++ (call.map fun call => (i, call)).toList
  config : next.context.config = s.context.config

variable {host : Host} {s : State} {i : Nat} {r : Request} {p q : Phase} {hold : Hold}

theorem advances_become {base : State} {call : Option Call} (known : s.phase? i = some p)
    (jobs : base.jobs = s.jobs) (config : base.context.config = s.context.config)
    (calls : base.calls = s.calls ++ (call.map fun call => (i, call)).toList) :
    Advances s (base.become i q) i q call := by
  have there : base.phase? i = some p := by rw [State.phase?, jobs]; exact known
  refine ⟨fun k => ?_, fun k => ?_, calls, config⟩
  · rw [State.phase?_become there, State.phase?, jobs]
    rfl
  · rw [State.request?_become, State.request?, jobs]
    rfl

theorem Advances.quiet (known : s.phase? i = some p) {base : State}
    (jobs : base.jobs = s.jobs) (config : base.context.config = s.context.config)
    (calls : base.calls = s.calls) : Advances s (base.become i q) i q none :=
  advances_become known jobs config (by simpa using calls)

def Takes (host : Host) (s : State) (i : Nat) (r : Request) (p : Phase) (next : State) : Prop :=
  ∃ q call, Moves host s.context.config r s.tree p q next.tree call ∧ Advances s next i q call

theorem takes_enter (known : s.phase? i = some .entering) :
    Takes host s i r .entering (s.enter host i r) := by
  unfold State.enter
  by_cases directory : s.tree.isDirectory host.working r.root = true
  · by_cases unknown : (Restrictor.ofName? r.restrictor).isNone = true
    · simp only [directory, unknown, Bool.not_true, Bool.false_eq_true, if_false, if_true]
      exact ⟨_, _, .unlisted directory unknown, .quiet known rfl rfl rfl⟩
    · have listed := Bool.eq_false_iff.mpr unknown
      simp only [directory, listed, Bool.not_true, Bool.false_eq_true, if_false]
      cases staged : r.spec with
      | none =>
        exact ⟨_, _, .plain directory listed staged (ite_eq_or_eq _ _ _).symm,
          .quiet known rfl rfl rfl⟩
      | some spec =>
        let number := (s.context.staging.enter (r.place host.working) i).2
        exact ⟨_, _, .join ⟨r.place host.working, number⟩ directory listed (by simp [staged]) rfl
          (ite_eq_or_eq _ _ _).symm, .quiet known rfl rfl rfl⟩
  · have missing := Bool.eq_false_iff.mpr directory
    simp only [missing, Bool.not_false, if_true]
    exact ⟨_, _, .elsewhere missing, .quiet known rfl rfl rfl⟩

theorem takes_stage {names : List String} (known : s.phase? i = some (.checking hold names))
    (vacant : ∀ name ∈ names, s.tree.present host.working (r.root.child name) = false) :
    Takes host s i r (.checking hold names) (s.stage i r hold) := by
  unfold State.stage
  split
  · rename_i content written
    exact ⟨_, _, .rendered vacant written, .quiet known rfl rfl rfl⟩
  · rename_i cause unwritten
    exact ⟨_, _, .unrendered vacant unwritten, .quiet known rfl rfl rfl⟩

theorem takes_check {names : List String} (known : s.phase? i = some (.checking hold names)) :
    Takes host s i r (.checking hold names) (s.check host i r hold names) := by
  cases names with
  | nil => exact takes_stage known nofun
  | cons name names =>
    unfold State.check
    by_cases taken : s.tree.present host.working (r.root.child name) = true
    · simp only [taken, if_true]
      exact ⟨_, _, .occupied taken, .quiet known rfl rfl rfl⟩
    · have free := Bool.eq_false_iff.mpr taken
      simp only [free, Bool.false_eq_true, if_false]
      split
      · rename_i last
        subst last
        exact takes_stage known (by simpa using free)
      · exact ⟨_, _, .vacant free, .quiet known rfl rfl rfl⟩

theorem takes_clean {outcome : Outcome} (known : s.phase? i = some (.cleaning hold outcome)) :
    Takes host s i r (.cleaning hold outcome) (s.clean host i r hold outcome) := by
  unfold State.clean
  split
  · rename_i left
    exact ⟨_, _, .left left, .quiet known rfl rfl rfl⟩
  · rename_i gone
    exact ⟨_, _, .gone (Bool.eq_false_iff.mpr gone), .quiet known rfl rfl rfl⟩

theorem takes_remove {outcome : Outcome} (known : s.phase? i = some (.removing hold outcome)) :
    Takes host s i r (.removing hold outcome) (s.remove host i r hold outcome) := by
  unfold State.remove
  split
  · rename_i after removed
    exact ⟨_, _, .removed removed, .quiet known rfl rfl rfl⟩
  · rename_i refusal refused
    exact ⟨_, _, .unremoved refused, .quiet known rfl rfl rfl⟩

theorem takes_open {content : String} (known : s.phase? i = some (.opening hold content)) :
    Takes host s i r (.opening hold content)
      (s.put host i r hold [] (·.become i (.writing hold content))) := by
  unfold State.put
  split
  · rename_i after put
    exact ⟨_, _, .opened put, .quiet known rfl rfl rfl⟩
  · rename_i refusal refused
    exact ⟨_, _, .unopened refused, .quiet known rfl rfl rfl⟩

theorem takes_write {content : String} (known : s.phase? i = some (.writing hold content)) :
    Takes host s i r (.writing hold content)
      (s.put host i r hold content.toUTF8.toList (·.queue i (some hold))) := by
  unfold State.put
  split
  · rename_i after put
    exact ⟨_, _, .written put (ite_eq_or_eq _ _ _).symm, .quiet known rfl rfl rfl⟩
  · rename_i refusal refused
    exact ⟨_, _, .unwritten refused, .quiet known rfl rfl rfl⟩

/-- Every step of a build is one of those above. -/
theorem takes_of_step {next : State} (stepped : s.step host i = some next) :
    ∃ r p, s.request? i = some r ∧ s.phase? i = some p ∧ Takes host s i r p next := by
  unfold State.step at stepped
  split at stepped
  · contradiction
  · rename_i j found
    have known : s.phase? i = some j.phase := by simp [State.phase?, found]
    refine ⟨j.request, j.phase, by simp [State.request?, found], known, ?_⟩
    cases phase : j.phase with
    | entering =>
      simp only [phase, Option.some.injEq] at stepped known
      exact stepped ▸ takes_enter known
    | waiting hold =>
      simp only [phase] at stepped known
      obtain ⟨staging, -, rfl⟩ := Option.map_eq_some_iff.mp stepped
      exact ⟨_, _, .enter, .quiet known rfl rfl rfl⟩
    | checking hold names =>
      simp only [phase, Option.some.injEq] at stepped known
      exact stepped ▸ takes_check known
    | opening hold content =>
      simp only [phase, Option.some.injEq] at stepped known
      exact stepped ▸ takes_open known
    | writing hold content =>
      simp only [phase, Option.some.injEq] at stepped known
      exact stepped ▸ takes_write known
    | queued held =>
      simp only [phase] at stepped known
      obtain ⟨lock, -, rfl⟩ := Option.map_eq_some_iff.mp stepped
      exact ⟨_, _, .turn, .quiet known rfl rfl rfl⟩
    | running held =>
      simp only [phase, Option.some.injEq] at stepped known
      exact stepped ▸ ⟨_, _, .run, advances_become known rfl rfl rfl⟩
    | cleaning hold outcome =>
      simp only [phase, Option.some.injEq] at stepped known
      exact stepped ▸ takes_clean known
    | removing hold outcome =>
      simp only [phase, Option.some.injEq] at stepped known
      exact stepped ▸ takes_remove known
    | done outcome => simp [phase] at stepped

/-- What an error does to the build that it comes to. -/
theorem advances_fail (fault : Fault) (known : s.phase? i = some p) :
    (s.fail i fault).tree = s.tree ∧ Advances s (s.fail i fault) i (p.failed fault) none := by
  obtain ⟨j, found, rfl⟩ := Option.map_eq_some_iff.mp known
  unfold State.fail
  simp only [found]
  cases phase : j.phase with
  | done outcome =>
    refine ⟨rfl, fun k => ?_, fun _ => rfl, by simp, rfl⟩
    by_cases same : k = i
    · subst same; rw [known, phase]; simp [Phase.failed]
    · simp [same]
  | entering | waiting hold | checking hold names | opening hold content | writing hold content
    | queued held | running held | cleaning hold outcome | removing hold outcome =>
    exact ⟨rfl, .quiet known rfl rfl rfl⟩

theorem fail_of_unknown (fault : Fault) (unknown : s.phase? i = none) : s.fail i fault = s := by
  have absent : s.jobs[i]? = none := Option.map_eq_none_iff.mp unknown
  simp [State.fail, absent]

/-! Runs of builds. A build changes by its own steps only, and no more once it has ended. -/

variable {next : State} {k : Nat} {call : Option Call} {outcome : Outcome}

def State.callsOf (s : State) (i : Nat) : List Call :=
  s.calls.filterMap fun call => if call.1 = i then some call.2 else none

theorem Advances.callsOf (advances : Advances s next i q call) :
    next.callsOf k = s.callsOf k ++ if k = i then call.toList else [] := by
  rw [State.callsOf, advances.calls, List.filterMap_append]
  congr 1
  cases call with
  | none => simp
  | some call => by_cases same : k = i <;> simp [same, eq_comm]

theorem follow_cons (host : Host) (s : State) (i : Nat) (schedule : List Nat) :
    s.follow host (i :: schedule) = ((s.step host i).getD s).follow host schedule := rfl

theorem step_of_done (known : s.phase? i = some (.done outcome)) : s.step host i = none := by
  obtain ⟨j, found, done⟩ := Option.map_eq_some_iff.mp known
  simp [State.step, found, done]

/-- Steps of others do nothing to a build. -/
theorem Advances.other (advances : Advances s next k q call) (apart : i ≠ k) :
    next.phase? i = s.phase? i ∧ next.callsOf i = s.callsOf i := by
  rw [advances.phase?, advances.callsOf]
  simp [apart]

theorem step_of_other (host : Host) (known : s.phase? i = some p)
    (idle : s.step host i = none ∨ k ≠ i) :
    ((s.step host k).getD s).phase? i = some p ∧
      ((s.step host k).getD s).callsOf i = s.callsOf i := by
  cases stepped : s.step host k with
  | none => exact ⟨known, rfl⟩
  | some next =>
    obtain ⟨_, _, _, _, _, _, _, advances⟩ := takes_of_step stepped
    have apart : i ≠ k := by
      rintro rfl
      rcases idle with none_left | other
      · simp [none_left] at stepped
      · contradiction
    obtain ⟨phase, calls⟩ := advances.other apart
    exact ⟨phase.trans known, calls⟩

theorem follow_of_done (host : Host) (known : s.phase? i = some (.done outcome))
    (schedule : List Nat) :
    (s.follow host schedule).phase? i = some (.done outcome) ∧
      (s.follow host schedule).callsOf i = s.callsOf i := by
  induction schedule generalizing s with
  | nil => exact ⟨known, rfl⟩
  | cons k schedule ih =>
    obtain ⟨phase, calls⟩ := step_of_other (k := k) host known (.inl (step_of_done known))
    rw [follow_cons, ← calls]
    exact ih phase

end OverlayBuild.Build

import OverlayBuild.Proofs.Build.Privacy

/-! Builds of specifications that share a context. In whatever order they take their steps,
just its own specification is staged in the root of each while the program runs for it, and it
ends as it does alone if nothing of another is staged then among the files that the program
reads. In its root nothing can be; below it there may be another root, with a lock of its own. -/
namespace OverlayBuild.Build

open OverlayBuild.Tree

/-- Whenever the program runs for a build in the steps of a schedule, nothing of another is
staged in a place. -/
def Undisturbed (host : Host) (i : Nat) (l : Location) (s : State) (schedule : List Nat) : Prop :=
  ∀ before after, schedule = before ++ i :: after →
    ((s.follow host before).standing i).runs = true →
      ∀ k bytes, (s.follow host before).staged? host.working k = some (l, bytes) → k = i

/-- No specification is to be staged in a root strictly below. -/
def Request.Apart (r : Request) (working : Location) (requests : List Request) : Prop :=
  ∀ other ∈ requests, other.spec.isSome = true → r.Contains working (other.place working) →
    other.place working = r.place working

instance (r : Request) (working l : Location) : Decidable (r.Contains working l) :=
  inferInstanceAs (Decidable (r.place working <+: l))

instance (r : Request) (working : Location) (requests : List Request) :
    Decidable (r.Apart working requests) :=
  inferInstanceAs (Decidable (∀ other ∈ requests, _))

variable {host : Host} {config : Config} {tree : Tree} {requests : List Request}
  {own : Location → Prop} {s : State} {i k : Nat} {p : Phase} {r : Request} {l : Location}
  {hold : Option Hold} {schedule : List Nat} {outcome : Outcome}

theorem undisturbed_cons : Undisturbed host i l s (k :: schedule) ↔
    (k = i → (s.standing i).runs = true →
      ∀ j bytes, s.staged? host.working j = some (l, bytes) → j = i) ∧
      Undisturbed host i l ((s.step host k).getD s) schedule := by
  constructor
  · intro undisturbed
    refine ⟨fun same runs => ?_, fun before after split runs => ?_⟩
    · exact undisturbed [] schedule (by rw [same]; rfl) runs
    · exact undisturbed (k :: before) after (by rw [split]; rfl) runs
  · rintro ⟨first, later⟩ before after split runs
    cases before with
    | nil => exact first (List.cons.inj split).1 runs
    | cons j before =>
      obtain ⟨rfl, rest⟩ := List.cons.inj split
      exact later before after rest runs

theorem phase?_of_runs (runs : (s.standing i).runs = true) :
    ∃ hold, s.phase? i = some (.running hold) := by
  cases known : s.phase? i with
  | none => simp [State.standing, known, Standing.outside] at runs
  | some p =>
    rw [State.standing_of_phase? known] at runs
    cases p with
    | running hold => exact ⟨hold, rfl⟩
    | _ => cases runs

namespace Private

variable (priv : Private host config tree requests s)

include priv

/-- The program runs for a specification only once it is written into its root. -/
theorem running_spec (asked : s.request? i = some r) (isSpec : r.spec.isSome = true)
    (runs : (s.standing i).runs = true) :
    ∃ hold content, s.phase? i = some (.running (some hold)) ∧ Enters host tree r ∧
      r.rendered config.multiline = .ok content := by
  obtain ⟨held, known⟩ := phase?_of_runs runs
  obtain ⟨admitted, ⟨content, rendered⟩, holds, -⟩ := priv.faithful i r _ asked known isSpec
  obtain ⟨directory, listed, -⟩ := not_refused_iff.mp admitted
  obtain ⟨hold, rfl⟩ := Option.isSome_iff_exists.mp (holds.trans isSpec)
  exact ⟨hold, content, known, ⟨directory, listed, isSpec⟩, rendered⟩

theorem staged_while_running (asked : s.request? i = some r) (isSpec : r.spec.isSome = true)
    (runs : (s.standing i).runs = true) :
    ∃ content, r.rendered config.multiline = .ok content ∧
      s.tree.content? host.working r.stagedFile = some content.toUTF8.toList := by
  obtain ⟨hold, content, known, enters, rendered⟩ := priv.running_spec asked isSpec runs
  have there := (priv.get?_staged asked known rfl).2
  simp only [Request.stagedPlace, Request.place] at there
  refine ⟨content, rendered, ?_⟩
  rw [Request.stagedFile, content?_child (priv.directory enters.directory) isName_stagedName,
    there, document_eq rendered]

/-- What another has staged in the root or below it is in a root strictly below. -/
theorem stager_of_contains {bytes : List UInt8} (asked : s.request? i = some r)
    (isSpec : r.spec.isSome = true) (runs : (s.standing i).runs = true)
    (apart : r.Apart host.working requests) (inside : r.Contains host.working l)
    (staged : s.staged? host.working k = some (l, bytes)) : k = i := by
  obtain ⟨hold, -, known, enters, -⟩ := priv.running_spec asked isSpec runs
  obtain ⟨other, q, otherAsked, otherKnown, written, rfl⟩ := stager staged
  have listed : other ∈ requests := List.mem_of_getElem? ((priv.asks k).symm.trans otherAsked)
  obtain ⟨held, within⟩ := inside?_of_staged? written
  obtain ⟨its, itsAsked, itsSpec, -⟩ := priv.resolved k held (by
    rw [State.standing_of_phase? otherKnown]
    simp [Standing.hold?, within])
  obtain rfl := Option.some.inj (otherAsked.symm.trans itsAsked)
  rcases List.prefix_concat_iff.mp inside with here | below
  -- The root is a directory, where nothing can be staged.
  · have vacant := (priv.laid.staged k _ bytes staged).1
    rw [Request.stagedPlace, ← here] at vacant
    have directory := (isDirectory_iff.mp enters.directory).2
    rw [Request.place, directory] at vacant
    contradiction
  · have same := apart other listed itsSpec below
    rw [Request.stagedPlace, same] at staged
    exact priv.alone asked known rfl staged

/-- A run of the program ends a build as alone if nothing of another is staged in what the
program reads. -/
theorem ends_alone_now {quiet : Prop} (keeps : host.Keeps) (reads : host.Reads config r own)
    (asked : s.request? i = some r) (known : s.phase? i = some (.running hold))
    (faithful : Faithful host config tree r quiet (.running hold) (s.callsOf i))
    (undisturbed : ∀ l, l = r.stagedPlace host.working ∨ own l →
      ∀ k bytes, s.staged? host.working k = some (l, bytes) → k = i) :
    EndsAlone host config tree r (host.run config s.tree r).outcome
      (host.run config s.tree r).call.toList := by
  obtain ⟨admitted, writable, holds, -⟩ := faithful
  have staged : (Phase.running hold).staged? (r.document config.multiline) =
      if r.spec.isSome then some (r.document config.multiline) else none := by
    rw [← holds]
    cases hold <;> rfl
  exact endsAlone_run keeps reads admitted writable priv.laid.sameDirectories fun l mem =>
    priv.found asked known staged (undisturbed l mem)

/-- A step of any build keeps one as alone, if its own run of the program does. -/
theorem faithful_advance {quiet : Prop} (keeps : host.Keeps) (asked : s.request? i = some r)
    (known : s.phase? i = some p)
    (faithful : Faithful host config tree r quiet p (s.callsOf i))
    (alone : k = i → ∀ hold, p = .running hold → quiet → EndsAlone host config tree r
      (host.run config s.tree r).outcome (host.run config s.tree r).call.toList) :
    ∃ q, ((s.step host k).getD s).phase? i = some q ∧
      Faithful host config tree r quiet q (((s.step host k).getD s).callsOf i) := by
  by_cases own : k = i
  · subst own
    cases stepped : s.step host k with
    | none => exact ⟨p, known, faithful⟩
    | some next =>
      obtain ⟨other, _, otherAsked, otherKnown, q, call, moves, advances⟩ := takes_of_step stepped
      obtain rfl := Option.some.inj (asked.symm.trans otherAsked)
      obtain rfl := Option.some.inj (known.symm.trans otherKnown)
      rw [priv.configured] at moves
      have onward := priv.move keeps asked known advances moves rfl faithful (alone rfl)
      refine ⟨q, by simpa using advances.phase? k, ?_⟩
      rw [Option.getD_some, advances.callsOf, if_pos rfl]
      exact onward.1
  · obtain ⟨phase, calls⟩ := step_of_other host known (.inr own)
    exact ⟨p, phase, calls ▸ faithful⟩

/-- In all steps of a schedule a build of a specification goes as alone, up to what others
stage in what the program reads. -/
theorem faithful_follow {quiet : Prop} (keeps : host.Keeps) (reads : host.Reads config r own)
    (asked : requests[i]? = some r) (isSpec : r.spec.isSome = true) (known : s.phase? i = some p)
    (faithful : Faithful host config tree r quiet p (s.callsOf i))
    (undisturbed : quiet → ∀ l, own l → Undisturbed host i l s schedule) :
    ∃ q, (s.follow host schedule).phase? i = some q ∧
      Faithful host config tree r quiet q ((s.follow host schedule).callsOf i) := by
  induction schedule generalizing s p with
  | nil => exact ⟨p, known, faithful⟩
  | cons k schedule ih =>
    have here : s.request? i = some r := (priv.asks i).trans asked
    obtain ⟨q, phase, onward⟩ := priv.faithful_advance keeps here known faithful (k := k) (by
      rintro rfl hold rfl still
      have runs : (s.standing k).runs = true := by rw [State.standing_of_phase? known]; rfl
      refine priv.ends_alone_now keeps reads here known faithful ?_
      rintro l (rfl | owns) j bytes staged
      · obtain ⟨held, -, running, -⟩ := priv.running_spec here isSpec runs
        exact priv.alone here running rfl staged
      · exact (undisturbed_cons.mp (undisturbed still l owns)).1 rfl runs j bytes staged)
    exact ih (priv.advance keeps k) phase onward fun still l owns =>
      (undisturbed_cons.mp (undisturbed still l owns)).2

end Private

/-- In whatever order builds take their steps: while the program runs for a specification, just
that specification is staged in its root. The build is never refused for what another has
staged, and it ends as it does alone if nothing of another is staged, while it runs, in what
the program reads. If no other specification has a root strictly below, this goes for all that
its root contains. -/
theorem spec_build_private (keeps : host.Keeps) (reads : host.Reads config r own) (tree : Tree)
    (schedule : List Nat) {spec : Spec} (asked : requests[i]? = some r)
    (staged : r.spec = some spec) :
    let start := State.start tree (.new config) requests
    let s := start.follow host schedule
    ((s.standing i).runs = true → ∃ content, spec.yaml config.multiline = .ok content ∧
      s.tree.content? host.working r.stagedFile = some content.toUTF8.toList) ∧
    (r.Apart host.working requests →
      ∀ l, r.Contains host.working l → Undisturbed host i l start schedule) ∧
    ∀ outcome, s.phase? i = some (.done outcome) →
      ((∀ l, own l → Undisturbed host i l start schedule) →
        outcome = (build host config tree r).outcome ∧
        s.callsOf i = (build host config tree r).call.toList) ∧
      ∀ path, outcome = .error (.occupied path) →
        ∃ name ∈ kustomizationNames, tree.present host.working (r.root.child name) = true := by
  intro start s
  have begun : Private host config tree requests start := private_start host config tree requests
  have isSpec : r.spec.isSome = true := by simp [staged]
  refine ⟨fun runs => ?_, fun apart l inside before after _ runs k bytes => ?_,
    fun outcome done => ?_⟩
  · have priv := begun.follow keeps schedule
    obtain ⟨content, rendered, there⟩ :=
      priv.staged_while_running ((priv.asks i).trans asked) isSpec runs
    exact ⟨content, (Request.rendered_eq staged _).symm.trans rendered, there⟩
  · have priv := begun.follow keeps before
    exact priv.stager_of_contains ((priv.asks i).trans asked) isSpec runs apart inside
  · have entering : start.phase? i = some .entering := by
      simp [start, State.phase?, State.start, asked]
    obtain ⟨q, known, faithful⟩ := begun.faithful_follow keeps reads asked isSpec entering rfl
      fun undisturbed : ∀ l, own l → Undisturbed host i l start schedule => undisturbed
    obtain rfl := Option.some.inj (known.symm.trans done)
    exact ⟨fun undisturbed => ⟨(faithful.alone undisturbed).outcome,
      (faithful.alone undisturbed).calls⟩, faithful.occupied⟩

/-! Two overlays of one directory, whose paths are spelled in two ways. -/

def twoOverlays : List Request :=
  [replicaRequest 3, ⟨some (replicaSpec 2), ⟨.working, ["root", "..", "root"]⟩, ""⟩]

/-- A program that prints nothing and fails where there is nothing at a place. -/
def seekingHost (l : Location) : Host :=
  ⟨[], fun _ tree => (.ok ⟨[], [], if (tree.get? l).isSome then 0 else 1⟩, tree)⟩

def checkingHost : Host := seekingHost ["root", stagedName]

theorem seekingHost_keeps (l : Location) : (seekingHost l).Keeps := fun _ _ _ => rfl

theorem seekingHost_reads (l : Location) (config : Config) (r : Request) :
    (seekingHost l).Reads config r (· = l) :=
  fun tree other alike => by simp only [seekingHost, alike l rfl]

theorem seekingHost_confined (inside : ∀ r ∈ requests, r.Contains [] l) :
    (seekingHost l).Confined config requests :=
  ⟨seekingHost_keeps l, fun r listed =>
    (seekingHost_reads l config r).mono fun _ here => here ▸ inside r listed⟩

theorem done_of_outcome? (ended : ((s.phase? i).bind Phase.outcome?).isSome = true) :
    ∃ outcome, s.phase? i = some (.done outcome) := by
  obtain ⟨outcome, ended⟩ := Option.isSome_iff_exists.mp ended
  obtain ⟨p, known, done⟩ := Option.bind_eq_some_iff.mp ended
  cases p with
  | done outcome => exact ⟨outcome, known⟩
  | _ => nomatch done

/-- While the program runs for the first, the second waits; later it ends as alone. -/
theorem spec_build_private_of_two :
    checkingHost.Confined bareConfig twoOverlays ∧
    (∃ content, (replicaSpec 3).yaml .quoted = .ok content ∧
      ((State.start emptyRoot (.new bareConfig) twoOverlays).follow checkingHost
        [0, 1, 0, 0, 0, 0, 0]).tree.content? [] ⟨.working, ["root", stagedName]⟩ =
          some content.toUTF8.toList) ∧
    ((State.start emptyRoot (.new bareConfig) twoOverlays).follow checkingHost
      [0, 1, 0, 0, 0, 0, 0, 0, 0, 0, 1, 1, 1, 1, 1, 1, 1, 1, 1]).callsOf 1 =
        (build checkingHost bareConfig emptyRoot
          ⟨some (replicaSpec 2), ⟨.working, ["root", "..", "root"]⟩, ""⟩).call.toList := by
  have confined : checkingHost.Confined bareConfig twoOverlays :=
    seekingHost_confined (by decide)
  have atFirst : twoOverlays[0]? = some (replicaRequest 3) := rfl
  have atSecond : twoOverlays[1]? =
      some ⟨some (replicaSpec 2), ⟨.working, ["root", "..", "root"]⟩, ""⟩ := rfl
  have first := spec_build_private confined.keeps (confined.reads _ (List.mem_of_getElem? atFirst))
    emptyRoot [0, 1, 0, 0, 0, 0, 0] atFirst rfl
  have second := spec_build_private confined.keeps
    (confined.reads _ (List.mem_of_getElem? atSecond)) emptyRoot
    [0, 1, 0, 0, 0, 0, 0, 0, 0, 0, 1, 1, 1, 1, 1, 1, 1, 1, 1] atSecond rfl
  obtain ⟨outcome, ended⟩ := done_of_outcome? (i := 1)
    (s := (State.start emptyRoot (.new bareConfig) twoOverlays).follow checkingHost
      [0, 1, 0, 0, 0, 0, 0, 0, 0, 0, 1, 1, 1, 1, 1, 1, 1, 1, 1]) (by decide +kernel)
  have undisturbed := second.2.1 (by decide)
  exact ⟨confined, first.1 (by decide +kernel), ((second.2.2 outcome ended).1 undisturbed).2⟩

/-! Overlays of a directory and of one in it. -/

def nestedRoots : Tree := ⟨[(["root"], .directory), (["root", "sub"], .directory)]⟩

def nestedOverlays : List Request :=
  [replicaRequest 3, ⟨some (replicaSpec 2), ⟨.working, ["root", "sub"]⟩, ""⟩]

/-- The program runs for the outer once the inner is staged. -/
def nestedRun : State :=
  (State.start nestedRoots (.new bareConfig) nestedOverlays).follow
    (seekingHost ["root", "sub", stagedName]) [0, 0, 0, 0, 0, 0, 1, 1, 1, 1, 1, 1, 0, 0, 0]

/-- Builds of specifications do not end as alone in every order of steps: the program finds
what is staged for another below its root. -/
theorem spec_build_not_private :
    ¬ ∀ (host : Host) (config : Config) (tree : Tree) (requests : List Request)
      (schedule : List Nat) (i : Nat) (r : Request) (outcome : Outcome),
      host.Confined config requests → requests[i]? = some r → r.spec.isSome = true →
      ((State.start tree (.new config) requests).follow host schedule).phase? i =
        some (.done outcome) →
      outcome = (build host config tree r).outcome ∧
        ((State.start tree (.new config) requests).follow host schedule).callsOf i =
          (build host config tree r).call.toList := by
  intro isolated
  obtain ⟨outcome, ended⟩ := done_of_outcome? (s := nestedRun) (i := 0) (by decide +kernel)
  obtain ⟨same, -⟩ := isolated _ bareConfig nestedRoots nestedOverlays _ 0 _ outcome
    (seekingHost_confined (by decide)) rfl rfl ended
  have succeeds : ((nestedRun.phase? 0).bind Phase.outcome?).map (·.toOption.isSome) =
      some true := by decide +kernel
  rw [ended, same] at succeeds
  exact absurd succeeds (by decide +kernel)

end OverlayBuild.Build

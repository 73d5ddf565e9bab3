import OverlayBuild.Proofs.Build.Isolation

/-! A build without a specification takes no lock of a directory, so that another may stage
in its root while it runs the program. This is the one way in which it can end otherwise than
alone, and it does if the program starts at such a time. -/
namespace OverlayBuild.Build

open OverlayBuild.Tree

def Host.Starts (host : Host) (config : Config) (r : Request) : Prop :=
  ∀ tree, ∃ completed, (host.execute (r.commandUnder config) tree).1 = .ok completed

variable {host : Host} {config : Config} {tree : Tree} {requests : List Request}
  {s next : State} {i k : Nat} {p q : Phase} {r : Request} {l : Location}
  {own : Location → Prop} {schedule : List Nat} {outcome : Outcome}

theorem undisturbed_of_done (known : s.phase? i = some (.done outcome)) :
    Undisturbed host i l s schedule := by
  intro before after split runs
  rw [State.standing_of_phase? (follow_of_done host known before).1] at runs
  nomatch runs

/-! A build that runs the program. -/

theorem running_plain {quiet : Prop} (plain : r.spec = none) (known : s.phase? i = some p)
    (faithful : Faithful host config tree r quiet p (s.callsOf i))
    (runs : (s.standing i).runs = true) : p = .running none := by
  rw [State.standing_of_phase? known] at runs
  cases p with
  | running hold =>
    obtain ⟨-, -, held, -⟩ := faithful
    cases hold with
    | none => rfl
    | some hold => simp [plain] at held
  | _ => nomatch runs

namespace Private

variable (priv : Private host config tree requests s)

include priv

/-- A program that starts where another has staged is recorded with what it finds there, and
alone with nothing. -/
theorem disturbed {bytes : List UInt8} (admitted : ¬ Refused host tree r) (plain : r.spec = none)
    (starts : host.Starts config r)
    (staged : s.staged? host.working k = some (r.stagedPlace host.working, bytes)) :
    (host.run config s.tree r).call ≠ (build host config tree r).call := by
  obtain ⟨directory, known, -⟩ := not_refused_iff.mp admitted
  obtain ⟨before, now⟩ := priv.laid.staged k _ _ staged
  simp only [Request.stagedPlace, Request.place] at before now
  have here : host.staged? s.tree r = some bytes := by
    rw [Host.staged?, Request.stagedFile,
      content?_child (priv.directory directory) isName_stagedName, now]
  have alone : host.staged? tree r = none := by
    rw [Host.staged?, Request.stagedFile, content?_child directory isName_stagedName, before]
  obtain ⟨found, ran⟩ := starts s.tree
  obtain ⟨first, began⟩ := starts tree
  rw [build_plain directory known plain]
  simp [Host.run, ran, began, here, alone]

/-- The step in which a build without a specification runs the program is its last. -/
theorem run_plain (asked : requests[i]? = some r) (known : s.phase? i = some (.running none)) :
    ∃ next, s.step host i = some next ∧
      next.phase? i = some (.done (host.run config s.tree r).outcome) ∧
      next.callsOf i = s.callsOf i ++ (host.run config s.tree r).call.toList := by
  have here : s.request? i = some r := (priv.asks i).trans asked
  obtain ⟨j, found, runs⟩ := Option.map_eq_some_iff.mp known
  obtain rfl : j.request = r := by simpa [State.request?, found] using here
  have stepped : s.step host i = some (s.run host i j.request none) := by
    simp [State.step, found, runs]
  have advances : Advances s (s.run host i j.request none) i
      (.done (host.run s.context.config s.tree j.request).outcome)
      (host.run s.context.config s.tree j.request).call := advances_become known rfl rfl rfl
  rw [priv.configured] at advances
  refine ⟨_, stepped, by simpa using advances.phase? i, ?_⟩
  rw [advances.callsOf, if_pos rfl]

theorem plain_alone {quiet : Prop} (keeps : host.Keeps) (reads : host.Reads config r own)
    (asked : requests[i]? = some r) (plain : r.spec = none) (known : s.phase? i = some p)
    (faithful : Faithful host config tree r quiet p (s.callsOf i)) (still : quiet)
    (ended : (s.follow host schedule).phase? i = some (.done outcome)) :
    ((∀ l, l = r.stagedPlace host.working ∨ own l → Undisturbed host i l s schedule) →
      EndsAlone host config tree r outcome ((s.follow host schedule).callsOf i)) ∧
    (host.Starts config r →
      EndsAlone host config tree r outcome ((s.follow host schedule).callsOf i) →
      Undisturbed host i (r.stagedPlace host.working) s schedule) := by
  induction schedule generalizing s p with
  | nil =>
    obtain rfl : p = .done outcome := Option.some.inj (known.symm.trans ended)
    exact ⟨fun _ => faithful.alone still, fun _ _ => undisturbed_of_done known⟩
  | cons k schedule ih =>
    have here : s.request? i = some r := (priv.asks i).trans asked
    simp only [undisturbed_cons]
    rw [follow_cons] at ended ⊢
    -- Once the build has run the program it has ended, and nothing later matters to it.
    by_cases now : k = i ∧ (s.standing i).runs = true
    · obtain ⟨rfl, runs⟩ := now
      obtain rfl := running_plain plain known faithful runs
      have ⟨admitted, _, _, fresh⟩ := faithful
      obtain ⟨next, stepped, phase, calls⟩ := priv.run_plain asked known
      rw [stepped, Option.getD_some] at ended ⊢
      obtain ⟨stays, same⟩ := follow_of_done host phase schedule
      obtain rfl := Phase.done.inj (Option.some.inj (stays.symm.trans ended))
      rw [same, calls, fresh, List.nil_append]
      refine ⟨fun undisturbed => ?_, fun starts alone => ⟨fun _ _ j bytes staged => ?_,
        undisturbed_of_done phase⟩⟩
      · exact priv.ends_alone_now keeps reads here known faithful fun l mem =>
          (undisturbed l mem).1 rfl runs
      · have recorded := congrArg List.head? alone.calls
        exact absurd (by simpa using recorded) (priv.disturbed admitted plain starts staged)
    · obtain ⟨q, phase, onward⟩ := priv.faithful_advance keeps here known faithful (k := k)
        (by
          rintro rfl hold rfl
          exact absurd ⟨rfl, by rw [State.standing_of_phase? known]; rfl⟩ now)
      obtain ⟨quietly, disturbed⟩ := ih (priv.advance keeps k) phase onward ended
      exact ⟨fun undisturbed => quietly fun l mem => (undisturbed l mem).2, fun starts alone =>
        ⟨fun same runs => absurd ⟨same, runs⟩ now, disturbed starts alone⟩⟩

end Private

/-- A build without a specification ends as it does alone if nothing of another is staged, while
it runs, in its root or in what the program reads. If the program starts, it does so only if
nothing is staged in its root. -/
theorem plain_build_isolation (keeps : host.Keeps) (reads : host.Reads config r own)
    (tree : Tree) (asked : requests[i]? = some r) (plain : r.spec = none)
    (ended : ((State.start tree (.new config) requests).follow host schedule).phase? i =
      some (.done outcome)) :
    ((∀ l, l = r.stagedPlace host.working ∨ own l →
        Undisturbed host i l (.start tree (.new config) requests) schedule) →
      outcome = (build host config tree r).outcome ∧
        ((State.start tree (.new config) requests).follow host schedule).callsOf i =
          (build host config tree r).call.toList) ∧
    (host.Starts config r →
      outcome = (build host config tree r).outcome ∧
        ((State.start tree (.new config) requests).follow host schedule).callsOf i =
          (build host config tree r).call.toList →
      Undisturbed host i (r.stagedPlace host.working) (.start tree (.new config) requests)
        schedule) := by
  have entering : (State.start tree (.new config) requests).phase? i = some .entering := by
    simp [State.phase?, State.start, asked]
  obtain ⟨quiet, disturbed⟩ := (private_start host config tree requests).plain_alone keeps reads
    asked plain entering rfl trivial ended
  exact ⟨fun undisturbed => ⟨(quiet undisturbed).outcome, (quiet undisturbed).calls⟩,
    fun starts same => disturbed starts ⟨same.1, same.2⟩⟩

/-! A build of a directory, and an overlay that is staged in it meanwhile. -/

def plainRequest : Request := ⟨none, ⟨.working, ["root"]⟩, ""⟩

def overlayAndPlain : List Request := [replicaRequest 3, plainRequest]

/-- The overlay is staged while the program runs for the other, which alone has nothing
staged. -/
theorem plain_build_isolation_of_overlay :
    checkingHost.Confined bareConfig overlayAndPlain ∧
    ¬ Undisturbed checkingHost 1 (plainRequest.stagedPlace [])
      (.start emptyRoot (.new bareConfig) overlayAndPlain) [1, 0, 0, 0, 0, 0, 0, 1] := by
  have confined : checkingHost.Confined bareConfig overlayAndPlain :=
    seekingHost_confined (by decide)
  obtain ⟨outcome, ended⟩ := done_of_outcome? (i := 1)
    (s := (State.start emptyRoot (.new bareConfig) overlayAndPlain).follow checkingHost
      [1, 0, 0, 0, 0, 0, 0, 1]) (by decide +kernel)
  refine ⟨confined, fun undisturbed => ?_⟩
  obtain ⟨quiet, -⟩ := plain_build_isolation (r := plainRequest) confined.keeps
    (seekingHost_reads _ _ _) emptyRoot rfl rfl ended
  obtain ⟨-, calls⟩ := quiet (by rintro l (rfl | rfl) <;> exact undisturbed)
  exact absurd (congrArg (List.map (·.staged.isSome)) calls) (by decide +kernel)

/-- Builds without a specification do not end as alone in every order of steps. -/
theorem plain_build_not_isolated :
    ¬ ∀ (host : Host) (config : Config) (tree : Tree) (requests : List Request)
      (schedule : List Nat) (i : Nat) (r : Request) (outcome : Outcome),
      host.Confined config requests → requests[i]? = some r → r.spec = none →
      ((State.start tree (.new config) requests).follow host schedule).phase? i =
        some (.done outcome) →
      outcome = (build host config tree r).outcome ∧
        ((State.start tree (.new config) requests).follow host schedule).callsOf i =
          (build host config tree r).call.toList := by
  intro isolated
  obtain ⟨outcome, ended⟩ := done_of_outcome? (i := 1)
    (s := (State.start emptyRoot (.new bareConfig) overlayAndPlain).follow checkingHost
      [1, 0, 0, 0, 0, 0, 0, 1]) (by decide +kernel)
  obtain ⟨-, calls⟩ := isolated checkingHost bareConfig emptyRoot overlayAndPlain
    [1, 0, 0, 0, 0, 0, 0, 1] 1 _ outcome (seekingHost_confined (by decide)) rfl rfl ended
  exact absurd (congrArg (List.map (·.staged.isSome)) calls) (by decide +kernel)

end OverlayBuild.Build

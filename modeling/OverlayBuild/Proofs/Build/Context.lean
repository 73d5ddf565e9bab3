import OverlayBuild.Proofs.Build.Course
import OverlayBuild.Proofs.Build.Exclusion
import OverlayBuild.Proofs.Build.Renewal

/-! What holds at every time of a context that builds share, in whatever order they take
their steps and whatever errors end them. -/
namespace OverlayBuild.Build

variable {host : Host} {s : State} {i : Nat} {p q : Phase} {hold : Hold}

def Resolved (working : Location) (s : State) : Prop :=
  ∀ i hold, (s.standing i).hold? = some hold →
    ∃ r, s.request? i = some r ∧ r.spec.isSome = true ∧ hold.key = r.place working

theorem Moves.hold? {config : Config} {r : Request} {tree after : Tree} {call : Option Call}
    (moves : Moves host config r tree p q after call) (uses : q.standing.hold? = some hold) :
    p.standing.hold? = some hold ∨ (r.spec.isSome = true ∧ hold.key = r.place host.working) := by
  cases moves with
  | plain _ _ _ queued => rcases queued with rfl | rfl <;> exact absurd uses nofun
  | join joined directory known staged here place =>
    obtain rfl : joined = hold := by
      rcases place with rfl | rfl <;> exact Option.some.inj uses
    exact .inr ⟨staged, here⟩
  | written put queued => rcases queued with rfl | rfl <;> exact .inl uses
  | run => rw [standing_ended] at uses; exact .inl uses
  | elsewhere | unlisted | occupied | unrendered | gone | removed | unremoved =>
    exact absurd uses nofun
  | enter | vacant | rendered | opened | unopened | unwritten | turn | left => exact .inl uses

theorem hold?_failed (fault : Fault) (uses : (p.failed fault).standing.hold? = some hold) :
    p.standing.hold? = some hold := by
  cases p with
  | queued held | running held => rw [Phase.failed, standing_ended] at uses; exact uses
  | opening hold content | writing hold content => exact uses
  | entering | waiting hold | checking hold names | cleaning hold outcome
    | removing hold outcome | done outcome => cases uses

theorem Resolved.advance {working : Location} {next : State} {call : Option Call} {r : Request}
    (resolved : Resolved working s) (known : s.phase? i = some p) (asked : s.request? i = some r)
    (advances : Advances s next i q call)
    (origin : ∀ hold, q.standing.hold? = some hold →
      p.standing.hold? = some hold ∨ (r.spec.isSome = true ∧ hold.key = r.place working)) :
    Resolved working next := by
  intro k hold uses
  rw [advances.request?]
  rw [State.standing, advances.phase?] at uses
  by_cases same : k = i
  · subst same
    rw [if_pos rfl] at uses
    rcases origin hold uses with before | new
    · exact resolved k hold (by rw [State.standing_of_phase? known]; exact before)
    · exact ⟨r, asked, new⟩
  · rw [if_neg same] at uses
    exact resolved k hold uses

theorem Resolved.react {working : Location} (resolved : Resolved working s) (event : Event) :
    Resolved working (s.react working event) := by
  cases event with
  | advance program i =>
    cases stepped : s.step ⟨working, program⟩ i with
    | none => simpa [State.react, stepped] using resolved
    | some next =>
      obtain ⟨r, p, asked, known, q, call, moves, advances⟩ := takes_of_step stepped
      simpa [State.react, stepped] using
        resolved.advance known asked advances fun hold => moves.hold?
  | fail i fault =>
    cases known : s.phase? i with
    | none => simpa [State.react, fail_of_unknown fault known] using resolved
    | some p =>
      obtain ⟨r, asked⟩ : ∃ r, s.request? i = some r := by
        obtain ⟨j, found, -⟩ := Option.map_eq_some_iff.mp known
        exact ⟨j.request, by simp [State.request?, found]⟩
      exact resolved.advance known asked (advances_fail fault known).2 fun hold uses =>
        .inl (hold?_failed fault uses)

theorem Resolved.execute {working : Location} (resolved : Resolved working s)
    (events : List Event) : Resolved working (s.execute working events) := by
  induction events generalizing s with
  | nil => exact resolved
  | cons event events ih => exact ih (resolved.react event)

theorem resolved_start (working : Location) (tree : Tree) (context : Context)
    (requests : List Request) : Resolved working (.start tree context requests) := by
  intro i hold uses
  rw [standing_start] at uses
  exact absurd uses nofun

/-! The configuration stays. -/

theorem config_react (working : Location) (event : Event) :
    (s.react working event).context.config = s.context.config := by
  cases event with
  | advance program i =>
    cases stepped : s.step ⟨working, program⟩ i with
    | none => simp [State.react, stepped]
    | some next =>
      obtain ⟨r, p, asked, known, q, call, moves, advances⟩ := takes_of_step stepped
      simpa [State.react, stepped] using advances.config
  | fail i fault =>
    cases known : s.phase? i with
    | none => rw [State.react, fail_of_unknown fault known]
    | some p => exact (advances_fail fault known).2.config

theorem config_execute (working : Location) (events : List Event) :
    (s.execute working events).context.config = s.context.config := by
  induction events generalizing s with
  | nil => rfl
  | cons event events ih => exact ih.trans (config_react working event)

/-! A context that no build uses. -/

/-- Runs that cannot be told apart but by the numbers of locks. -/
structure Alike (s other : State) : Prop where
  tree : s.tree = other.tree
  calls : s.calls = other.calls
  outcomes : s.outcomes = other.outcomes
  lock : s.context.lock = other.context.lock
  users : s.context.staging.users = other.context.staging.users

/-- Nothing is locked, and builds behave as they do in a new context. -/
structure Renewed (working : Location) (config : Config) (context : Context) : Prop where
  free : context.lock = .free
  locks : context.staging.locks = []
  users : context.staging.users = []
  alike : ∀ tree requests events,
    Alike ((State.start tree context requests).execute working events)
      ((State.start tree (.new config) requests).execute working events)

theorem eq_nil_of_lookup {entries : List (Location × Nat)}
    (absent : ∀ key, entries.lookup key = none) : entries = [] := by
  cases entries with
  | nil => rfl
  | cons first rest =>
    have here := absent first.1
    rw [Staging.lookup_cons, if_pos rfl] at here
    contradiction

theorem Guarded.renewed (guarded : Guarded s) (working : Location)
    (outside : ∀ i, s.standing i = .outside) : Renewed working s.context.config s.context := by
  have unused (key : Location) : s.users key = 0 := by
    refine List.countP_eq_zero.mpr fun j mem => ?_
    obtain ⟨i, found⟩ := List.mem_iff_getElem?.mp mem
    have here : s.standing i = j.phase.standing := by simp [State.standing, State.phase?, found]
    simp [← here, outside]
  have free : s.context.lock = .free :=
    Lock.Tracks.eq_free guarded.turn (by simp [outside, Standing.outside])
      (by simp [outside, Standing.outside])
  have locks : s.context.staging.locks = [] := eq_nil_of_lookup fun key => by
    have unlocked := mt (guarded.tables.locked key).mp (by simp [unused])
    exact Option.not_isSome_iff_eq_none.mp unlocked
  have users : s.context.staging.users = [] := eq_nil_of_lookup fun key => by
    rw [guarded.tables.counted, unused]
    rfl
  refine ⟨free, locks, users, fun tree requests events => ?_⟩
  -- Old locks are left, but no table leads to them.
  have context : s.context = ⟨s.context.config, .free, ⟨s.context.staging.made, [], []⟩⟩ := by
    calc s.context = ⟨s.context.config, s.context.lock, ⟨s.context.staging.made,
            s.context.staging.locks, s.context.staging.users⟩⟩ := rfl
      _ = _ := by rw [free, locks, users]
  rw [context, State.start_above, State.execute_above]
  exact ⟨rfl, rfl, State.outcomes_above _, rfl, rfl⟩

/-! A context in use. -/

def State.usersAt (working key : Location) (s : State) : Nat :=
  s.jobs.countP fun j => j.phase.standing.hold?.isSome && j.request.place working == key

theorem Resolved.usersAt {working : Location} (resolved : Resolved working s) (key : Location) :
    s.usersAt working key = s.users key := by
  refine List.countP_congr fun j mem => ?_
  obtain ⟨i, found⟩ := List.mem_iff_getElem?.mp mem
  have here : s.standing i = j.phase.standing := by simp [State.standing, State.phase?, found]
  cases uses : j.phase.standing.hold? with
  | none => simp [Standing.uses, uses]
  | some hold =>
    obtain ⟨r, asked, -, place⟩ := resolved i hold (here ▸ uses)
    obtain rfl : j.request = r := by simpa [State.request?, found] using asked
    simp [Standing.uses, uses, place]

structure Shared (working : Location) (config : Config) (s : State) : Prop where
  /-- The program runs for one build at most, which holds the lock of the context. -/
  runs : ∀ i, (s.standing i).runs = true →
    s.context.lock.holder = some i ∧ ∀ k, (s.standing k).runs = true → k = i
  /-- One build at most is between its first check and the removal of its staged file. -/
  inside : ∀ i k hold other, (s.standing i).inside? = some hold →
    (s.standing k).inside? = some other → hold.key = other.key → i = k
  /-- Only builds of specifications use directories, and each its own root. -/
  resolved : Resolved working s
  counted : ∀ key, s.context.staging.users.lookup key = Staging.entry (s.usersAt working key)
  locked : ∀ key, (s.context.staging.locks.lookup key).isSome = true ↔ 0 < s.usersAt working key
  /-- All builds that use a directory use the one lock that is registered for it. -/
  same : ∀ i hold, (s.standing i).hold? = some hold →
    s.context.staging.locks.lookup hold.key = some hold.lock
  /-- A build that leaves a directory finds itself counted there; its lock it finds by `same`. -/
  leaves : ∀ i hold, (s.standing i).hold? = some hold →
    ∃ others, s.context.staging.users.lookup hold.key = some (others + 1)
  renewed : (∀ j ∈ s.jobs, j.phase = .entering ∨ ∃ outcome, j.phase = .done outcome) →
    Renewed working config s.context

theorem Guarded.shared (guarded : Guarded s) {working : Location}
    (resolved : Resolved working s) : Shared working s.context.config s := by
  refine ⟨fun i runs => ⟨(guarded.turn.holder i).mpr runs, fun k also => guarded.turn.unique also runs⟩,
    fun i k hold other first second alike => ?_, resolved, fun key => ?_, fun key => ?_,
    guarded.tables.known, fun i hold uses => ?_, fun ended => ?_⟩
  · have inside : (s.standing i).hold? = some hold := by simp [Standing.hold?, first]
    have also : (s.standing k).hold? = some other := by simp [Standing.hold?, second]
    have number : hold.lock = other.lock := by
      have known := guarded.tables.known i hold inside
      rw [alike, guarded.tables.known k other also] at known
      exact (Option.some.inj known).symm
    exact (guarded.door other.lock).unique ⟨hold, first, number⟩ ⟨other, second, rfl⟩
  · rw [resolved.usersAt]; exact guarded.tables.counted key
  · rw [resolved.usersAt]; exact guarded.tables.locked key
  · obtain ⟨others, count⟩ := Nat.exists_eq_add_one.mpr (State.users_pos uses)
    exact ⟨others, by rw [guarded.tables.counted, count]; rfl⟩
  · refine guarded.renewed working fun i => ?_
    cases found : s.jobs[i]? with
    | none => simp [State.standing, State.phase?, found]
    | some j =>
      have here : s.standing i = j.phase.standing := by simp [State.standing, State.phase?, found]
      rcases ended j (List.mem_of_getElem? found) with entering | ⟨outcome, done⟩
      · rw [here, entering]; rfl
      · rw [here, done]; rfl

/-- Whatever happens to builds that share a context, in whatever order, errors at any point
included. -/
theorem shared_execute (working : Location) (tree : Tree) (config : Config)
    (requests : List Request) (events : List Event) :
    Shared working config ((State.start tree (.new config) requests).execute working events) := by
  have guarded := (guarded_start tree config requests).execute working events
  have resolved := (resolved_start working tree (.new config) requests).execute events
  have shared := guarded.shared resolved
  rwa [config_execute working events] at shared

end OverlayBuild.Build

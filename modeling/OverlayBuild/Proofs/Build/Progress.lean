import Mathlib.Data.Set.Card
import Mathlib.Data.Set.Finite.Lattice
import Mathlib.Order.Interval.Finset.Nat
import OverlayBuild.Build.Schedule
import OverlayBuild.Proofs.Build.Course
import OverlayBuild.Proofs.Build.Exclusion
import OverlayBuild.Proofs.Build.Isolation

/-! Builds that share a context do not block each other. A build waits for the lock of its
directory first and for the lock of the context last, and no one who holds the latter waits.
So some build can go on as long as one has not ended; and since no build goes back, all of
them end. This holds with errors at any point: whoever fails gives up its locks. -/
namespace OverlayBuild.Build

variable {s next : State} {working : Location} {i k n m : Nat} {p q : Phase} {hold : Hold}

def State.Unfinished (s : State) (i : Nat) : Prop := ∃ p, s.phase? i = some p ∧ p.outcome? = none

/-- Something happens: a build takes its next step, or an error comes to one that has not
ended. -/
def State.Acts (working : Location) (s : State) : Event → Prop
  | .advance program i => (s.step ⟨working, program⟩ i).isSome = true
  | .fail i _ => s.Unfinished i

/-! Someone can go on. -/

def Phase.letThrough? : Phase → Option Phase
  | .waiting hold => some (.checking hold kustomizationNames)
  | .queued held => some (.running held)
  | _ => none

/-- Only those who wait for a lock can be without a step. -/
theorem isSome_step (host : Host) (known : s.phase? i = some p) (unfinished : p.outcome? = none)
    (enters : ∀ hold, p = .waiting hold →
      (s.context.staging.take? hold.lock i).isSome = true)
    (turn : ∀ held, p = .queued held → (s.context.lock.take? i).isSome = true) :
    (s.step host i).isSome = true := by
  obtain ⟨j, found, rfl⟩ := Option.map_eq_some_iff.mp known
  unfold State.step
  simp only [found]
  cases phase : j.phase with
  | waiting hold => simpa using enters hold phase
  | queued held => simpa using turn held phase
  | done outcome => simp [phase, Phase.outcome?] at unfinished
  | entering | checking hold names | opening hold content | writing hold content | running held
    | cleaning hold outcome | removing hold outcome => rfl

theorem isSome_step_of_free (host : Host) (known : s.phase? i = some p)
    (unfinished : p.outcome? = none) (free : p.letThrough? = none) : (s.step host i).isSome = true := by
  refine isSome_step host known unfinished (fun hold waits => ?_) fun held waits => ?_
  · subst waits
    contradiction
  · subst waits
    contradiction

theorem phase?_of_standing {f : Standing → Prop} (stands : f (s.standing i))
    (outside : ¬ f .outside) : ∃ p, s.phase? i = some p ∧ f p.standing := by
  cases known : s.phase? i with
  | none => exact absurd (by simpa [State.standing, known] using stands) outside
  | some p => exact ⟨p, rfl, State.standing_of_phase? known ▸ stands⟩

/-- A lock that no one holds can be taken by the first who waits. -/
theorem isSome_take? {lock : Lock} {queue : List Nat} (unheld : lock.holder = none)
    (first : lock.queue = k :: queue) : (lock.take? k).isSome = true :=
  Option.isSome_iff_exists.mpr ⟨⟨some k, queue⟩, Lock.take?_eq_some_iff.mpr ⟨unheld, first, rfl⟩⟩

/-- Where a build waits for the lock of the context, the one that runs the program or the
first who waits can go on. -/
theorem Guarded.turn_comes (guarded : Guarded s) (queues : (s.standing i).queues = true) :
    ∃ k, ∀ host, (s.step host k).isSome = true := by
  have waits : i ∈ s.context.lock.queue := (guarded.turn.queue i).mpr queues
  cases holder : s.context.lock.holder with
  | some k =>
    have runs : (s.standing k).runs = true := (guarded.turn.holder k).mp holder
    obtain ⟨p, known, runs⟩ := phase?_of_standing (f := (·.runs = true)) runs nofun
    cases p with
    | running held => exact ⟨k, fun host => isSome_step_of_free host known rfl rfl⟩
    | _ => cases runs
  | none =>
    obtain ⟨k, queue, first⟩ := List.exists_cons_of_ne_nil (List.ne_nil_of_mem waits)
    have queues : (s.standing k).queues = true := (guarded.turn.queue k).mp (by simp [first])
    obtain ⟨p, known, queues⟩ := phase?_of_standing (f := (·.queues = true)) queues nofun
    cases p with
    | queued held =>
      exact ⟨k, fun host => isSome_step host known rfl nofun fun _ _ => isSome_take? holder first⟩
    | _ => cases queues

/-- Where a build waits for the lock of its directory, the one that holds it goes on or waits
for the lock of the context. -/
theorem Guarded.door_opens (guarded : Guarded s) (awaits : (s.standing i).awaits? = some hold) :
    ∃ k, ∀ host, (s.step host k).isSome = true := by
  have waits : i ∈ (s.context.staging.lock hold.lock).queue :=
    ((guarded.door hold.lock).queue i).mpr ⟨hold, awaits, rfl⟩
  cases holder : (s.context.staging.lock hold.lock).holder with
  | some k =>
    have inside := ((guarded.door hold.lock).holder k).mp holder
    obtain ⟨p, known, own, inside, -⟩ :=
      phase?_of_standing (f := Sees Standing.inside? hold.lock) inside (by simp [Standing.outside])
    cases p with
    | queued held =>
      exact guarded.turn_comes (i := k) (by simp [State.standing_of_phase? known, Phase.standing])
    | entering | waiting hold | done outcome => cases inside
    | checking hold names | opening hold content | writing hold content | running held
      | cleaning hold outcome | removing hold outcome =>
      exact ⟨k, fun host => isSome_step_of_free host known rfl rfl⟩
  | none =>
    obtain ⟨k, queue, first⟩ := List.exists_cons_of_ne_nil (List.ne_nil_of_mem waits)
    have awaits := ((guarded.door hold.lock).queue k).mp (by simp [first])
    obtain ⟨p, known, own, awaits, same⟩ :=
      phase?_of_standing (f := Sees Standing.awaits? hold.lock) awaits (by simp [Standing.outside])
    cases p with
    | waiting other =>
      obtain rfl : other = own := Option.some.inj awaits
      refine ⟨k, fun host => isSome_step host known rfl (fun hold here => ?_) fun held here => ?_⟩
      · obtain rfl : other = hold := Phase.waiting.inj here
        simp [Staging.take?, same, isSome_take? holder first]
      · cases here
    | _ => cases awaits

/-- As long as a build has not ended, some build can take a step. -/
theorem Guarded.progress (guarded : Guarded s) (unfinished : s.Unfinished i) :
    ∃ k, ∀ host, (s.step host k).isSome = true := by
  obtain ⟨p, known, unfinished⟩ := unfinished
  have here := State.standing_of_phase? known
  cases p with
  | waiting hold =>
    have awaits : (s.standing i).awaits? = some hold := by rw [here]; rfl
    exact guarded.door_opens awaits
  | queued held => exact guarded.turn_comes (i := i) (by rw [here]; rfl)
  | done outcome => cases unfinished
  | entering | checking hold names | opening hold content | writing hold content | running held
    | cleaning hold outcome | removing hold outcome =>
    exact ⟨i, fun host => isSome_step_of_free host known rfl rfl⟩

/-! No build goes back. -/

theorem Phase.steps_ended (held : Option Hold) (outcome : Outcome) :
    (Phase.ended held outcome).steps ≤ 2 := by
  cases held with
  | none => exact Nat.zero_le 2
  | some hold => exact Nat.le_refl 2

theorem Moves.steps_lt {host : Host} {config : Config} {r : Request} {tree after : Tree}
    {call : Option Call} (moves : Moves host config r tree p q after call) : q.steps < p.steps := by
  cases moves with
  | run =>
    have ended := Phase.steps_ended
    exact Nat.lt_of_le_of_lt (ended _ _) (Nat.lt_succ_self 2)
  | plain _ _ _ queued => rcases queued with rfl | rfl <;> simp only [Phase.steps] <;> omega
  | join _ _ _ _ _ joined => rcases joined with rfl | rfl <;> simp only [Phase.steps] <;> omega
  | written _ queued => rcases queued with rfl | rfl <;> simp only [Phase.steps] <;> omega
  | vacant => simp only [Phase.steps, List.length_cons]; omega
  | elsewhere | unlisted | enter | occupied | rendered | unrendered | opened | unopened
    | unwritten | turn | gone | left | removed | unremoved => simp only [Phase.steps]; omega

theorem Phase.steps_failed_lt (fault : Fault) (unfinished : p.outcome? = none) :
    (p.failed fault).steps < p.steps := by
  cases p with
  | queued held =>
    have ended := Phase.steps_ended held (.error fault)
    exact Nat.lt_of_le_of_lt ended (by simp [Phase.steps])
  | running held =>
    have ended := Phase.steps_ended held (.error fault)
    exact Nat.lt_of_le_of_lt ended (by simp [Phase.steps])
  | done outcome => cases unfinished
  | entering | waiting hold | checking hold names | opening hold content | writing hold content
    | cleaning hold outcome | removing hold outcome => simp [Phase.steps, Phase.failed]

theorem State.steps_eq_sum (s : State) : s.steps = ((s.jobs.map (·.phase)).map Phase.steps).sum := by
  rw [State.steps, List.map_map, List.sum_eq_foldl, List.foldl_map]
  rfl

/-- Changing one item of a list changes a sum by that item. -/
theorem sum_map_set {α : Type} {items : List α} {x : α} (y : α) (f : α → Nat)
    (found : items[i]? = some x) :
    ((items.set i y).map f).sum + f x = (items.map f).sum + f y := by
  induction items generalizing i with
  | nil => simp at found
  | cons first rest ih =>
    cases i with
    | zero =>
      obtain rfl : first = x := by simpa using found
      simp only [List.set_cons_zero, List.map_cons, List.sum_cons]
      omega
    | succ i =>
      have later := ih (i := i) (by simpa using found)
      simp only [List.set_cons_succ, List.map_cons, List.sum_cons]
      omega

theorem Advances.steps {call : Option Call} (advances : Advances s next i q call)
    (known : s.phase? i = some p) : next.steps + p.steps = s.steps + q.steps := by
  have phases : next.jobs.map (·.phase) = (s.jobs.map (·.phase)).set i q := by
    refine List.ext_getElem? fun k => ?_
    have here : next.phase? k = if k = i then some q else s.phase? k := advances.phase? k
    simp only [State.phase?] at here known
    rw [List.getElem?_map, here, List.getElem?_set]
    by_cases same : k = i
    · subst same
      obtain ⟨j, found, -⟩ := Option.map_eq_some_iff.mp known
      obtain ⟨within, -⟩ := List.getElem?_eq_some_iff.mp found
      simp [within]
    · simp [same, Ne.symm same]
  rw [State.steps_eq_sum, State.steps_eq_sum, phases]
  exact sum_map_set q Phase.steps (by simpa [State.phase?] using known)

/-- Whatever happens brings some build nearer to its end. -/
theorem State.Acts.steps_lt {event : Event} (acts : s.Acts working event) :
    (s.react working event).steps < s.steps := by
  cases event with
  | advance program i =>
    obtain ⟨next, stepped⟩ := Option.isSome_iff_exists.mp acts
    obtain ⟨r, p, -, known, q, call, moves, advances⟩ := takes_of_step stepped
    have less := moves.steps_lt
    have sums := advances.steps known
    rw [State.react, stepped, Option.getD_some]
    omega
  | fail i fault =>
    obtain ⟨p, known, unfinished⟩ := acts
    have less := Phase.steps_failed_lt fault unfinished
    have sums := (advances_fail fault known).2.steps known
    rw [State.react]
    omega

theorem react_of_not_acts {event : Event} (still : ¬ s.Acts working event) :
    s.react working event = s := by
  cases event with
  | advance program i => simp [State.react, Option.not_isSome_iff_eq_none.mp still]
  | fail i fault =>
    cases known : s.phase? i with
    | none => exact fail_of_unknown fault known
    | some p =>
      cases p with
      | done outcome =>
        obtain ⟨j, found, done⟩ := Option.map_eq_some_iff.mp known
        simp [State.react, State.fail, found, done]
      | _ => exact absurd ⟨_, known, rfl⟩ still

/-! Endless courses of events. -/

variable {course : Nat → Event}

def State.after (working : Location) (s : State) (course : Nat → Event) (n : Nat) : State :=
  s.execute working ((List.range n).map course)

theorem execute_append (working : Location) (s : State) (first second : List Event) :
    s.execute working (first ++ second) = (s.execute working first).execute working second := by
  induction first generalizing s with
  | nil => rfl
  | cons event first ih => exact ih (s.react working event)

theorem State.after_succ (working : Location) (s : State) (course : Nat → Event) (n : Nat) :
    s.after working course (n + 1) = (s.after working course n).react working (course n) := by
  rw [State.after, List.range_succ, List.map_append, execute_append]
  rfl

theorem steps_after_antitone (working : Location) (s : State) (course : Nat → Event) :
    Antitone fun n => (s.after working course n).steps := by
  refine antitone_nat_of_succ_le fun n => ?_
  rw [State.after_succ]
  by_cases acts : (s.after working course n).Acts working (course n)
  · exact Nat.le_of_lt acts.steps_lt
  · rw [react_of_not_acts acts]

/-- Whatever the course, no more happens than the builds have steps. -/
theorem acts_finite (working : Location) (s : State) (course : Nat → Event) :
    {n | (s.after working course n).Acts working (course n)}.Finite ∧
      {n | (s.after working course n).Acts working (course n)}.ncard ≤ s.steps := by
  let acting := {n | (s.after working course n).Acts working (course n)}
  let left (n : Nat) := (s.after working course n).steps
  have falls : StrictAntiOn left acting := by
    intro n acts m _ before
    calc left m ≤ left (n + 1) := steps_after_antitone working s course before
      _ < left n := by simpa only [left, State.after_succ] using acts.steps_lt
  have within : Set.MapsTo left acting (Finset.Ioc 0 s.steps) := by
    intro n acts
    have some_left : 0 < left n := Nat.zero_lt_of_lt acts.steps_lt
    have no_more : left n ≤ left 0 := steps_after_antitone working s course (Nat.zero_le n)
    exact Finset.mem_coe.mpr (Finset.mem_Ioc.mpr ⟨some_left, no_more⟩)
  have bounded := (Finset.Ioc 0 s.steps).finite_toSet
  refine ⟨Set.Finite.of_injOn within falls.injOn bounded, ?_⟩
  calc acting.ncard ≤ (Finset.Ioc 0 s.steps : Set Nat).ncard :=
        Set.ncard_le_ncard_of_injOn left within falls.injOn bounded
    _ = s.steps := by rw [Set.ncard_coe_finset, Nat.card_Ioc, Nat.sub_zero]

/-- A course does not stop for ever while some build can take a step. -/
def Persists (working : Location) (s : State) (course : Nat → Event) : Prop :=
  ∀ n k program, ((s.after working course n).step ⟨working, program⟩ k).isSome = true →
    ∃ m, n ≤ m ∧ (s.after working course m).Acts working (course m)

theorem Guarded.after (guarded : Guarded s) (working : Location) (course : Nat → Event) (n : Nat) :
    Guarded (s.after working course n) := guarded.execute working _

/-- All builds end in a course that persists. -/
theorem Guarded.ends (guarded : Guarded s) (persists : Persists working s course) :
    ∃ n, ∀ m, n ≤ m → ∀ i, ¬ (s.after working course m).Unfinished i := by
  obtain ⟨last, bound⟩ := (acts_finite working s course).1.bddAbove
  refine ⟨last + 1, fun m late i unfinished => ?_⟩
  obtain ⟨k, steps⟩ := (guarded.after working course m).progress unfinished
  obtain ⟨later, after, acts⟩ := persists m k (fun _ tree => (.ok ⟨[], [], 0⟩, tree)) (steps _)
  have before : later ≤ last := bound acts
  omega

/-- What ceases to be true is true a last time. -/
theorem exists_last {P : Nat → Prop} (before : n ≤ m) (first : P n) (gone : ¬ P m) :
    ∃ k, n ≤ k ∧ P k ∧ ¬ P (k + 1) := by
  by_contra never
  push Not at never
  refine gone ?_
  induction m, before using Nat.le_induction with
  | base => exact first
  | succ m before ih => exact never m before (by_contra fun absent => absent (ih absent))

theorem Moves.letThrough {host : Host} {config : Config} {r : Request} {tree after : Tree}
    {call : Option Call} {through : Phase} (moves : Moves host config r tree p q after call)
    (waits : p.letThrough? = some through) : q = through := by
  cases moves with
  | enter | turn => exact Option.some.inj waits
  | _ => nomatch waits

/-- One who waits goes on by being let through, or by an error that comes to it. -/
theorem let_through_of_react {event : Event} (known : s.phase? i = some p)
    (waits : p.letThrough? = some q) (leaves : (s.react working event).phase? i ≠ some p) :
    (s.react working event).phase? i = some q ∨ ∃ fault, event = .fail i fault := by
  cases event with
  | advance program k =>
    cases stepped : s.step ⟨working, program⟩ k with
    | none => exact absurd (by simpa [State.react, stepped] using known) leaves
    | some next =>
      obtain ⟨r, before, -, was, after, call, moves, advances⟩ := takes_of_step stepped
      have there : next.phase? i = if i = k then some after else s.phase? i := advances.phase? i
      simp only [State.react, stepped, Option.getD_some] at leaves ⊢
      by_cases own : i = k
      · subst own
        obtain rfl : before = p := Option.some.inj (was.symm.trans known)
        obtain rfl := moves.letThrough waits
        exact .inl (by simpa using there)
      · exact absurd (by simpa [own, there] using known) leaves
  | fail k fault =>
    by_cases own : i = k
    · exact .inr ⟨fault, by rw [own]⟩
    · refine absurd ?_ leaves
      cases other : s.phase? k with
      | none => simpa [State.react, fail_of_unknown fault other] using known
      | some p =>
        have there := (advances_fail fault other).2.phase? i
        simpa [State.react, there, own] using known

/-- Builds do not appear or vanish. -/
theorem isSome_phase?_react (event : Event) :
    ((s.react working event).phase? i).isSome = (s.phase? i).isSome := by
  by_cases acts : s.Acts working event
  · cases event with
    | advance program k =>
      obtain ⟨next, stepped⟩ := Option.isSome_iff_exists.mp acts
      obtain ⟨r, p, -, known, q, call, -, advances⟩ := takes_of_step stepped
      rw [State.react, stepped, Option.getD_some, advances.phase?]
      by_cases own : i = k <;> simp [own, known]
    | fail k fault =>
      obtain ⟨p, known, -⟩ := acts
      rw [State.react, (advances_fail fault known).2.phase?]
      by_cases own : i = k <;> simp [own, known]
  · rw [react_of_not_acts acts]

theorem isSome_phase?_after (n : Nat) :
    ((s.after working course n).phase? i).isSome = (s.phase? i).isSome := by
  induction n with
  | zero => rfl
  | succ n ih => rw [State.after_succ, isSome_phase?_react, ih]

/-- What a program does is of no account to whether there is a step to take. -/
theorem isSome_step_congr (program other : Program) :
    (s.step ⟨working, program⟩ i).isSome = (s.step ⟨working, other⟩ i).isSome := by
  unfold State.step
  cases s.jobs[i]? with
  | none => rfl
  | some j => cases phase : j.phase <;> simp [phase]

/-- A course in which each build gets its turn again and again persists. -/
theorem persists_of_turns (turns : ∀ k, (s.phase? k).isSome = true → ∀ n, ∃ m, n ≤ m ∧
    ∃ program, course m = .advance program k) : Persists working s course := by
  intro n k program steps
  by_contra never
  push Not at never
  have still : ∀ m, n ≤ m → s.after working course m = s.after working course n := by
    intro m after
    induction m, after using Nat.le_induction with
    | base => rfl
    | succ m after ih => rw [State.after_succ, react_of_not_acts (never m after), ih]
  have there : ((s.after working course n).phase? k).isSome = true := by
    obtain ⟨next, stepped⟩ := Option.isSome_iff_exists.mp steps
    obtain ⟨r, p, -, known, -⟩ := takes_of_step stepped
    simp [known]
  obtain ⟨m, after, other, turn⟩ := turns k ((isSome_phase?_after n).symm.trans there) n
  refine never m after ?_
  rw [turn, still m after]
  exact (isSome_step_congr other program).trans steps

theorem steps_start (tree : Tree) (config : Config) (requests : List Request) :
    (State.start tree (.new config) requests).steps = 12 * requests.length := by
  rw [State.steps_eq_sum]
  simp [State.start, Function.comp_def, Phase.steps, kustomizationNames, Nat.mul_comm]

theorem isSome_phase?_start (tree : Tree) (context : Context) {requests : List Request}
    (asked : i < requests.length) : ((State.start tree context requests).phase? i).isSome = true := by
  simp [State.phase?, State.start, asked]

/-- Builds that share a context, in whatever order and with whatever errors: as long as one
has not ended some build can take a step; no course has endlessly many steps; and in a course
that does not stop while there is a step to take, all builds end, and whoever waits for a lock
is let through, unless an error comes to it where it waits. -/
theorem shared_builds_end (working : Location) (tree : Tree) (config : Config)
    (requests : List Request) :
    let s := State.start tree (.new config) requests
    (∀ events i, (s.execute working events).Unfinished i →
      ∃ k, ∀ program, ((s.execute working events).step ⟨working, program⟩ k).isSome = true) ∧
    ∀ course : Nat → Event,
      ({n | (s.after working course n).Acts working (course n)}.Finite ∧
        {n | (s.after working course n).Acts working (course n)}.ncard ≤ 12 * requests.length) ∧
      (Persists working s course →
        (∃ n, ∀ m, n ≤ m → ∀ i, i < requests.length →
          ∃ outcome, (s.after working course m).phase? i = some (.done outcome)) ∧
        ∀ n i p q, (s.after working course n).phase? i = some p → p.letThrough? = some q →
          ∃ m, n ≤ m ∧ (s.after working course m).phase? i = some p ∧
            ((s.after working course (m + 1)).phase? i = some q ∨
              ∃ fault, course m = .fail i fault)) := by
  intro s
  have guarded : Guarded s := guarded_start tree config requests
  refine ⟨fun events i unfinished => ?_, fun course => ⟨?_, fun persists => ?_⟩⟩
  · obtain ⟨k, steps⟩ := (guarded.execute working events).progress unfinished
    exact ⟨k, fun program => steps ⟨working, program⟩⟩
  · rw [← steps_start tree config requests]
    exact acts_finite working s course
  · obtain ⟨last, ended⟩ := guarded.ends persists
    have done : ∀ m, last ≤ m → ∀ i p, (s.after working course m).phase? i = some p →
        ∃ outcome, p = .done outcome := by
      intro m late i p known
      cases p with
      | done outcome => exact ⟨outcome, rfl⟩
      | _ => exact absurd ⟨_, known, rfl⟩ (ended m late i)
    refine ⟨⟨last, fun m late i asked => ?_⟩, fun n i p q known waits => ?_⟩
    · have there : ((s.after working course m).phase? i).isSome = true :=
        (isSome_phase?_after m).trans (isSome_phase?_start tree (.new config) asked)
      obtain ⟨p, known⟩ := Option.isSome_iff_exists.mp there
      obtain ⟨outcome, rfl⟩ := done m late i p known
      exact ⟨outcome, known⟩
    · -- In the end it does not wait any more, so there is a last time that it does.
      have gone : (s.after working course (max n last)).phase? i ≠ some p := by
        intro still
        obtain ⟨outcome, rfl⟩ := done _ (Nat.le_max_right n last) i p still
        nomatch waits
      obtain ⟨m, late, there, leaves⟩ :=
        exists_last (P := fun m => (s.after working course m).phase? i = some p)
          (Nat.le_max_left n last) known gone
      rw [State.after_succ] at leaves
      refine ⟨m, late, there, ?_⟩
      rw [State.after_succ]
      exact let_through_of_react there waits leaves

/-! Two overlays of one directory. An error ends the first while it has the directory to
itself and the second waits. -/

def failingFirst (n : Nat) : Event :=
  if n = 2 then .fail 0 (.notDirectory "root") else .advance checkingHost.execute (n % 2)

theorem persists_failingFirst :
    Persists [] (.start emptyRoot (.new bareConfig) twoOverlays) failingFirst := by
  refine persists_of_turns fun k there n => ?_
  have two : k < 2 := by
    obtain ⟨p, known⟩ := Option.isSome_iff_exists.mp there
    obtain ⟨j, found, -⟩ := Option.map_eq_some_iff.mp known
    simpa [State.start, twoOverlays] using (List.getElem?_eq_some_iff.mp found).1
  refine ⟨2 * (n + 2) + k, by omega, checkingHost.execute, ?_⟩
  have turn : (2 * (n + 2) + k) % 2 = k := by omega
  have later : 2 * (n + 2) + k ≠ 2 := by omega
  rw [failingFirst, if_neg later, turn]

/-- The second is let through, and both end. -/
theorem shared_builds_end_of_failure :
    Persists [] (.start emptyRoot (.new bareConfig) twoOverlays) failingFirst ∧
    (∃ m, 2 ≤ m ∧ ((State.start emptyRoot (.new bareConfig) twoOverlays).after []
      failingFirst (m + 1)).phase? 1 = some (.checking ⟨["root"], 0⟩ kustomizationNames)) ∧
    ∃ n, ∀ m, n ≤ m → ∀ i, i < 2 → ∃ outcome,
      ((State.start emptyRoot (.new bareConfig) twoOverlays).after [] failingFirst m).phase? i =
        some (.done outcome) := by
  obtain ⟨-, courses⟩ := shared_builds_end [] emptyRoot bareConfig twoOverlays
  obtain ⟨ended, through⟩ := (courses failingFirst).2 persists_failingFirst
  have waits : ((State.start emptyRoot (.new bareConfig) twoOverlays).after [] failingFirst
      2).phase? 1 = some (.waiting ⟨["root"], 0⟩) := by rfl
  obtain ⟨m, later, -, checks | ⟨fault, fails⟩⟩ := through 2 1 _ _ waits rfl
  · exact ⟨persists_failingFirst, ⟨m, later, checks⟩, ended⟩
  · unfold failingFirst at fails
    split at fails <;> simp at fails

end OverlayBuild.Build

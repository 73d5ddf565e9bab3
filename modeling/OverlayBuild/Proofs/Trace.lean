import Mathlib.Data.List.Infix
import OverlayBuild.Trace

/-! What a trace tells. The log is well nested, and holds the two lines of exactly those steps that are
come to: a step is, where no step before it, among those beside it or beside a step around it, let an
error out. An error gets to the end where a step raises it and neither this nor a step around it
catches. -/
namespace OverlayBuild.Trace

namespace Step

def name : Step → String
  | .mk name _ _ _ => name

def inner : Step → List Step
  | .mk _ inner _ _ => inner

def fails : Step → Bool
  | .mk _ _ fails _ => fails

def catches : Step → Bool
  | .mk _ _ _ catches => catches

/-- Induction over steps: what holds of a step where it holds of the steps within. -/
theorem nested {motive : Step → Prop} (each : ∀ s, (∀ t ∈ s.inner, motive t) → motive s)
    (s : Step) : motive s := by
  refine @Step.rec motive (fun steps => ∀ s ∈ steps, motive s) ?_ nofun ?_ s
  · exact fun name inner fails catches own => each (.mk name inner fails catches) own
  · exact fun s steps first rest => List.forall_mem_cons.mpr ⟨first, rest⟩

/-- The name of the step whose error goes further than this step. -/
def escaped (s : Step) : Option String := (runStep .empty s).2

/-- Whether an error arises in the step itself, after all steps within let none out. -/
def raises (s : Step) : Bool := s.fails && s.inner.all (·.escaped.isNone)

end Step

def Line.path : Line → List String
  | .entered path | .left path => path

/-- The lines of some steps within the steps of a path, one after the other: each is entered and left
under the path with its own name, and between the two lines stand those of steps within it. -/
inductive Nested : List String → List Line → Prop
  | nil {path} : Nested path []
  | step {path name within later} (inner : Nested (path ++ [name]) within)
      (rest : Nested path later) :
      Nested path (.entered (path ++ [name]) :: within ++ .left (path ++ [name]) :: later)

/-- Where a step stands: its number among the steps beside it, after those of the steps around it. -/
abbrev Place := List Nat

mutual
/-- The two lines of each step of a tree, run or not, with its place. -/
def tour (path : List String) : Step → List (Place × Line)
  | .mk name inner _ _ =>
    ([], .entered (path ++ [name])) :: tourFrom (path ++ [name]) 0 inner
      ++ [([], .left (path ++ [name]))]
termination_by structural s => s
def tourFrom (path : List String) (n : Nat) : List Step → List (Place × Line)
  | [] => []
  | s :: steps => (tour path s).map (fun v => (n :: v.1, v.2)) ++ tourFrom path (n + 1) steps
termination_by structural steps => steps
end

/-- Whether no step before that of a place, beside it or beside a step around it, lets an error
out. -/
def reached (steps : List Step) : Place → Bool
  | [] => true
  | n :: place =>
    (steps.take n).all (·.escaped.isNone) && steps[n]?.any fun s => reached s.inner place

/-- The steps around that of a place, the outermost first, and this step. -/
def way? (steps : List Step) : Place → Option (List Step)
  | [] => some []
  | n :: place => do
    let s ← steps[n]?
    return s :: (← way? s.inner place)

variable {s : Step} {steps : List Step} {path : List String} {lines before after : List Line}
  {name : String} {n : Nat} {place : Place}

/-! A step ends as it does whatever was logged before, and adds its lines to the log. -/

theorem runStep_eq (log : Log) (s : Step) :
    runStep log s =
      ((runSteps (log.enter s.name) s.inner).1.leave (log.stack ++ [s.name]) log.stack,
        if s.catches then none
        else (runSteps (log.enter s.name) s.inner).2.orElse fun _ =>
          if s.fails then some s.name else none) := by
  cases s
  rfl

theorem runSteps_cons (log : Log) (s : Step) (steps : List Step) :
    runSteps log (s :: steps) =
      if (runStep log s).2 = none then runSteps (runStep log s).1 steps else runStep log s := by
  rw [runSteps]
  split <;> simp_all

theorem runStep_snd (log : Log) (s : Step) : (runStep log s).2 = s.escaped := by
  have alone (log other : Log) : (runStep log s).2 = (runStep other s).2 := by
    induction s using Step.nested generalizing log other with
    | each s ih =>
      have all (steps : List Step) (within : ∀ t ∈ steps, t ∈ s.inner) (log other : Log) :
          (runSteps log steps).2 = (runSteps other steps).2 := by
        induction steps generalizing log other with
        | nil => rfl
        | cons t steps rest =>
          obtain ⟨first, later⟩ := List.forall_mem_cons.mp within
          rw [runSteps_cons, runSteps_cons, ih t first log other]
          split
          · exact rest later _ _
          · exact ih t first log other
      rw [runStep_eq, runStep_eq, all s.inner (fun t mem => mem)]
  exact alone log .empty

theorem runSteps_snd (log : Log) (steps : List Step) :
    (runSteps log steps).2 = steps.findSome? Step.escaped := by
  induction steps generalizing log with
  | nil => rfl
  | cons s steps ih =>
    rw [runSteps_cons, List.findSome?_cons, ← runStep_snd log s]
    cases ended : (runStep log s).2 with
    | none => exact ih _
    | some name => exact ended

theorem escaped_eq (s : Step) :
    s.escaped = if s.catches then none
      else (s.inner.findSome? Step.escaped).orElse fun _ => if s.fails then some s.name else none := by
  rw [Step.escaped, runStep_eq, runSteps_snd]

def trail (path : List String) (s : Step) : List Line := (runStep ⟨path, []⟩ s).1.lines

/-- The steps up to the first that lets an error out, with this one. -/
def ran : List Step → List Step
  | [] => []
  | s :: steps => s :: if s.escaped = none then ran steps else []

theorem runSteps_fst_of {steps : List Step}
    (each : ∀ s ∈ steps, ∀ log, (runStep log s).1 = ⟨log.stack, log.lines ++ trail log.stack s⟩)
    (log : Log) :
    (runSteps log steps).1 = ⟨log.stack, log.lines ++ (ran steps).flatMap (trail log.stack)⟩ := by
  induction steps generalizing log with
  | nil => simp [runSteps, ran]
  | cons s steps ih =>
    obtain ⟨first, later⟩ := List.forall_mem_cons.mp each
    rw [runSteps_cons, runStep_snd, ran]
    split
    · rw [ih later, first]
      simp
    · rw [first]
      simp

theorem runStep_fst (log : Log) (s : Step) :
    (runStep log s).1 = ⟨log.stack, log.lines ++ trail log.stack s⟩ := by
  induction s using Step.nested generalizing log with
  | each s ih =>
    simp [trail, runStep_eq, runSteps_fst_of ih, Log.enter, Log.leave]

theorem runSteps_fst (log : Log) (steps : List Step) :
    (runSteps log steps).1 = ⟨log.stack, log.lines ++ (ran steps).flatMap (trail log.stack)⟩ :=
  runSteps_fst_of (fun s _ log => runStep_fst log s) log

theorem run_eq (steps : List Step) :
    run steps = (⟨[], (ran steps).flatMap (trail [])⟩, steps.findSome? Step.escaped) :=
  Prod.ext (runSteps_fst .empty steps) (runSteps_snd .empty steps)

theorem trail_eq (path : List String) (s : Step) :
    trail path s = .entered (path ++ [s.name]) ::
      (ran s.inner).flatMap (trail (path ++ [s.name])) ++ [.left (path ++ [s.name])] := by
  simp [trail, runStep_eq, runSteps_fst, Log.enter, Log.leave]

/-! The log is well nested. -/

theorem Nested.append (first : Nested path lines) (second : Nested path after) :
    Nested path (lines ++ after) := by
  induction first with
  | nil => exact second
  | step inner _ _ ih => simpa using Nested.step inner (ih second)

theorem Nested.flatMap {f : Step → List Line} (each : ∀ s ∈ steps, Nested path (f s)) :
    Nested path (steps.flatMap f) := by
  induction steps with
  | nil => exact .nil
  | cons s steps ih =>
    obtain ⟨first, later⟩ := List.forall_mem_cons.mp each
    exact first.append (ih later)

theorem mem_of_mem_ran (mem : s ∈ ran steps) : s ∈ steps := by
  induction steps with
  | nil => exact mem
  | cons t steps ih =>
    rcases List.mem_cons.mp mem with rfl | later
    · exact List.mem_cons_self
    · split at later
      · exact List.mem_cons_of_mem _ (ih later)
      · exact absurd later List.not_mem_nil

theorem nested_trail (path : List String) (s : Step) : Nested path (trail path s) := by
  induction s using Step.nested generalizing path with
  | each s ih =>
    rw [trail_eq]
    exact .step (.flatMap fun t mem => ih t (mem_of_mem_ran mem) _) .nil

/-- Steps within others have longer paths. -/
theorem Nested.longer (nested : Nested path lines) :
    ∀ line ∈ lines, path.length < line.path.length := by
  induction nested with
  | nil => nofun
  | step inner rest ihInner ihRest =>
    simp only [List.mem_append, List.mem_cons]
    rintro line ((rfl | mem) | rfl | mem)
    · simp [Line.path]
    · exact Nat.lt_of_succ_lt (by simpa using ihInner line mem)
    · simp [Line.path]
    · exact ihRest line mem

theorem Nested.not_mem {line : Line} (nested : Nested path lines) (named : line.path = path) :
    line ∉ lines :=
  fun mem => Nat.lt_irrefl _ (named ▸ nested.longer line mem)

/-- Where a list in two parts holds an element, one of the parts does. -/
theorem append_eq_append_cons {α : Type} {a b c d : List α} {x : α} (parts : a ++ b = c ++ x :: d) :
    (∃ e, a = c ++ x :: e ∧ d = e ++ b) ∨ ∃ e, c = a ++ e ∧ b = e ++ x :: d := by
  rcases List.append_eq_append_iff.mp parts with ⟨e, front, rest⟩ | ⟨e, front, rest⟩
  · exact .inr ⟨e, front, rest⟩
  · cases e with
    | nil => exact .inr ⟨[], by simpa using front.symm, by simpa using rest.symm⟩
    | cons y e =>
      obtain ⟨rfl, later⟩ := List.cons.inj rest
      exact .inl ⟨e, front, later⟩

/-- Behind an entry stand the lines within the step, and then its exit. -/
theorem Nested.exists_left {outer : List String} (nested : Nested outer lines)
    (parts : lines = before ++ .entered path :: after) :
    ∃ within, Nested path within ∧ within ++ [.left path] <+: after := by
  induction nested generalizing before after with
  | nil => simp at parts
  | @step outer name inside later inner rest ihInner ihRest =>
    rcases before with - | ⟨line, before⟩
    · obtain ⟨head, rfl⟩ := List.cons.inj parts
      obtain rfl : outer ++ [name] = path := Line.entered.inj head
      exact ⟨inside, inner, later, by simp⟩
    · rcases append_eq_append_cons (List.cons.inj parts).2 with ⟨e, own, rfl⟩ | ⟨e, -, own⟩
      · obtain ⟨within, nested, found⟩ := ihInner own
        exact ⟨within, nested, found.trans (List.prefix_append _ _)⟩
      · cases e with
        | nil => exact absurd (List.cons.inj own).1 (by simp)
        | cons line e => exact ihRest (List.cons.inj own).2

/-- Before an exit stand the lines within the step, and before them its entry. -/
theorem Nested.exists_entered {outer : List String} (nested : Nested outer lines)
    (parts : lines = before ++ .left path :: after) :
    ∃ within, Nested path within ∧ .entered path :: within <:+ before := by
  induction nested generalizing before after with
  | nil => simp at parts
  | @step outer name inside later inner rest ihInner ihRest =>
    rcases append_eq_append_cons parts with ⟨e, own, -⟩ | ⟨e, rfl, own⟩
    · rcases before with - | ⟨line, before⟩
      · exact absurd (List.cons.inj own).1 (by simp)
      · obtain ⟨within, nested, found⟩ := ihInner (List.cons.inj own).2
        exact ⟨within, nested, found.trans (List.suffix_cons _ _)⟩
    · rcases e with - | ⟨line, e⟩
      · obtain rfl : outer ++ [name] = path := Line.left.inj (List.cons.inj own).1
        exact ⟨inside, inner, by simp⟩
      · obtain ⟨within, nested, found⟩ := ihRest (List.cons.inj own).2
        obtain ⟨rfl, -⟩ := List.cons.inj own
        exact ⟨within, nested, found.trans ((List.suffix_cons _ e).trans (List.suffix_append _ _))⟩

theorem eq_of_append_prefix {line : Line} {first second : List Line} (own : line ∉ first)
    (also : line ∉ second) (one : first ++ [line] <+: lines) (two : second ++ [line] <+: lines) :
    first = second := by
  have cut {part : List Line} (own : line ∉ part) (found : part ++ [line] <+: lines) :
      lines.takeWhile (· != line) = part := by
    obtain ⟨rest, rfl⟩ := found
    have other : ∀ l ∈ part, (l != line) = true := fun l mem =>
      bne_iff_ne.mpr fun same => own (same ▸ mem)
    simp [List.takeWhile_append_of_pos other]
  exact (cut own one).symm.trans (cut also two)

/-- Each entry has one exit, and between them stand lines of steps within. -/
theorem Nested.existsUnique_left {outer : List String} (nested : Nested outer lines)
    (parts : lines = before ++ .entered path :: after) :
    ∃! within, Nested path within ∧ within ++ [.left path] <+: after := by
  obtain ⟨within, inner, found⟩ := nested.exists_left parts
  refine ⟨within, ⟨inner, found⟩, fun other ⟨also, alsoFound⟩ => ?_⟩
  exact eq_of_append_prefix (also.not_mem rfl) (inner.not_mem rfl) alsoFound found

theorem Nested.existsUnique_entered {outer : List String} (nested : Nested outer lines)
    (parts : lines = before ++ .left path :: after) :
    ∃! within, Nested path within ∧ .entered path :: within <:+ before := by
  obtain ⟨within, inner, found⟩ := nested.exists_entered parts
  refine ⟨within, ⟨inner, found⟩, fun other ⟨also, alsoFound⟩ => List.reverse_injective ?_⟩
  have turned {part : List Line} (found : .entered path :: part <:+ before) :
      part.reverse ++ [.entered path] <+: before.reverse := by
    simpa using List.reverse_prefix.mpr found
  have apart {part : List Line} (own : Nested path part) : .entered path ∉ part.reverse :=
    fun mem => own.not_mem rfl (List.mem_reverse.mp mem)
  exact eq_of_append_prefix (apart also) (apart inner) (turned alsoFound) (turned found)

/-! The log holds the lines of the steps that are reached. -/

theorem tour_eq (path : List String) (s : Step) :
    tour path s = ([], .entered (path ++ [s.name])) ::
      tourFrom (path ++ [s.name]) 0 s.inner ++ [([], .left (path ++ [s.name]))] := by
  cases s
  rfl

theorem le_of_mem_tourFrom {v : Place × Line} (mem : v ∈ tourFrom path n steps) :
    ∃ m place, v.1 = m :: place ∧ n ≤ m := by
  induction steps generalizing n with
  | nil => simp [tourFrom] at mem
  | cons s steps ih =>
    rw [tourFrom, List.mem_append, List.mem_map] at mem
    rcases mem with ⟨w, -, rfl⟩ | mem
    · exact ⟨n, w.1, rfl, le_rfl⟩
    · obtain ⟨m, place, named, le⟩ := ih mem
      exact ⟨m, place, named, by omega⟩

theorem reached_append_cons {front : List Step} (quiet : ∀ t ∈ front, t.escaped = none) :
    reached (front ++ s :: steps) (front.length :: place) = reached s.inner place := by
  have silent : (front.all fun t => t.escaped.isNone) = true := by simpa using quiet
  simp [reached, silent]

theorem reached_of_escaped {front : List Step} (out : s.escaped ≠ none) (past : front.length < n) :
    reached (front ++ s :: steps) (n :: place) = false := by
  have taken : s ∈ (front ++ s :: steps).take n := by
    obtain ⟨k, rfl⟩ : ∃ k, n = front.length + (k + 1) := ⟨n - front.length - 1, by omega⟩
    simp [List.take_append]
  rw [reached, Bool.and_eq_false_iff]
  exact .inl (List.all_eq_false.mpr ⟨s, taken, by simpa [Option.isNone_iff_eq_none] using out⟩)

def linesAt (passes : Place → Bool) (visits : List (Place × Line)) : List Line :=
  (visits.filter fun v => passes v.1).map (·.2)

theorem linesAt_append (passes : Place → Bool) (visits more : List (Place × Line)) :
    linesAt passes (visits ++ more) = linesAt passes visits ++ linesAt passes more := by
  simp [linesAt]

theorem linesAt_tourFrom {front steps : List Step} (quiet : ∀ t ∈ front, t.escaped = none)
    (each : ∀ s ∈ steps, linesAt (reached s.inner) (tour path s) = trail path s) :
    linesAt (reached (front ++ steps)) (tourFrom path front.length steps) =
      (ran steps).flatMap (trail path) := by
  induction steps generalizing front with
  | nil => rfl
  | cons s steps ih =>
    obtain ⟨first, later⟩ := List.forall_mem_cons.mp each
    have own : linesAt (reached (front ++ s :: steps))
        ((tour path s).map fun v => (front.length :: v.1, v.2)) = trail path s := by
      rw [← first]
      simp only [linesAt, List.filter_map, List.map_map, Function.comp_def,
        reached_append_cons quiet]
    have rest : linesAt (reached (front ++ s :: steps)) (tourFrom path (front.length + 1) steps) =
        (if s.escaped = none then ran steps else []).flatMap (trail path) := by
      split
      next none =>
        have quiet : ∀ t ∈ front ++ [s], t.escaped = Option.none :=
          List.forall_mem_append.mpr ⟨quiet, List.forall_mem_singleton.mpr none⟩
        simpa using ih quiet later
      next out =>
        rw [linesAt, List.filter_eq_nil_iff.mpr]
        · rfl
        · intro v mem
          obtain ⟨m, place, named, past⟩ := le_of_mem_tourFrom mem
          simp [named, reached_of_escaped out past]
    rw [tourFrom, linesAt_append, own, rest, ran, List.flatMap_cons]

theorem linesAt_tour_steps {steps : List Step}
    (each : ∀ s ∈ steps, linesAt (reached s.inner) (tour path s) = trail path s) :
    linesAt (reached steps) (tourFrom path 0 steps) = (ran steps).flatMap (trail path) := by
  have quiet : ∀ t ∈ ([] : List Step), t.escaped = none := nofun
  exact linesAt_tourFrom quiet each

/-- The log of a step holds the lines of the steps that are reached within it. -/
theorem linesAt_tour (path : List String) (s : Step) :
    linesAt (reached s.inner) (tour path s) = trail path s := by
  induction s using Step.nested generalizing path with
  | each s ih =>
    have inner := linesAt_tour_steps fun t mem => ih t mem (path ++ [s.name])
    have ends (line : Line) : linesAt (reached s.inner) [([], line)] = [line] := rfl
    rw [tour_eq, trail_eq, ← inner, ← List.singleton_append, linesAt_append, linesAt_append, ends,
      ends]
    rfl

theorem run_lines (steps : List Step) :
    (run steps).1.lines = linesAt (reached steps) (tourFrom [] 0 steps) := by
  rw [run_eq]
  exact (linesAt_tour_steps fun s _ => linesAt_tour [] s).symm

/-! An error that gets to the end. -/

/-- The last step of a way raises the error of a name, and no step on the way catches. -/
def Breaks (way : List Step) (name : String) : Prop :=
  (∃ s, way.getLast? = some s ∧ s.raises = true ∧ s.name = name) ∧ ∀ s ∈ way, s.catches = false

theorem breaks_cons {way : List Step} : Breaks (s :: way) name ↔
    s.catches = false ∧ (way = [] ∧ s.raises = true ∧ s.name = name ∨ Breaks way name) := by
  cases way with
  | nil => simp [Breaks, and_comm]
  | cons t way => simp [Breaks, List.getLast?_cons]; tauto

theorem escaped_eq_some_iff : s.escaped = some name ↔ s.catches = false ∧
    (s.raises = true ∧ s.name = name ∨ s.inner.findSome? Step.escaped = some name) := by
  have quiet : s.inner.all (·.escaped.isNone) = (s.inner.findSome? Step.escaped).isNone := by
    rw [Bool.eq_iff_iff]
    simp
  rw [escaped_eq, Step.raises, quiet]
  cases s.catches <;> cases s.inner.findSome? Step.escaped <;> cases s.fails <;> simp

theorem findSome?_escaped_iff : steps.findSome? Step.escaped = some name ↔
    ∃ n s, steps[n]? = some s ∧ (∀ t ∈ steps.take n, t.escaped = none) ∧ s.escaped = some name := by
  rw [List.findSome?_eq_some_iff]
  constructor
  · rintro ⟨front, s, back, rfl, out, quiet⟩
    exact ⟨front.length, s, by simp, by simpa using quiet, out⟩
  · rintro ⟨n, s, found, quiet, out⟩
    obtain ⟨within, rfl⟩ := List.getElem?_eq_some_iff.mp found
    exact ⟨_, _, _, (List.take_append_drop n steps).symm.trans
      (congrArg _ (List.drop_eq_getElem_cons within)), out, quiet⟩

/-- The error of a step within some steps, if it gets out of that step, gets out of them all where it
is reached. -/
theorem findSome?_escaped_iff_breaks {steps : List Step}
    (each : ∀ s ∈ steps, ∀ name, s.escaped = some name ↔
      ∃ place way, way? s.inner place = some way ∧ reached s.inner place = true ∧
        Breaks (s :: way) name) :
    steps.findSome? Step.escaped = some name ↔
      ∃ place way, way? steps place = some way ∧ reached steps place = true ∧ Breaks way name := by
  rw [findSome?_escaped_iff]
  constructor
  · rintro ⟨n, s, found, quiet, out⟩
    obtain ⟨place, way, along, inner, breaks⟩ :=
      (each s (List.mem_of_getElem? found) name).mp out
    have come : reached steps (n :: place) = true := by simpa [reached, found, inner] using quiet
    exact ⟨n :: place, s :: way, by simp [way?, found, along], come, breaks⟩
  · rintro ⟨place, way, along, come, breaks⟩
    rcases place with - | ⟨n, place⟩
    · obtain rfl := Option.some.inj along
      simp [Breaks] at breaks
    · simp only [way?, Option.bind_eq_bind, Option.bind_eq_some_iff] at along
      obtain ⟨s, found, way, along, own⟩ := along
      obtain rfl := Option.some.inj own
      simp only [reached, found, Option.any_some, Bool.and_eq_true] at come
      refine ⟨n, s, found, by simpa using come.1, ?_⟩
      exact (each s (List.mem_of_getElem? found) name).mpr ⟨place, way, along, come.2, breaks⟩

theorem escaped_iff_breaks (s : Step) (name : String) : s.escaped = some name ↔
    ∃ place way, way? s.inner place = some way ∧ reached s.inner place = true ∧
      Breaks (s :: way) name := by
  induction s using Step.nested generalizing name with
  | each s ih =>
    simp only [escaped_eq_some_iff, findSome?_escaped_iff_breaks ih, breaks_cons]
    constructor
    · rintro ⟨caught, own | ⟨place, way, along, come, breaks⟩⟩
      · exact ⟨[], [], rfl, rfl, caught, .inl ⟨rfl, own⟩⟩
      · exact ⟨place, way, along, come, caught, .inr breaks⟩
    · rintro ⟨place, way, along, come, caught, ⟨-, own⟩ | breaks⟩
      · exact ⟨caught, .inl own⟩
      · exact ⟨caught, .inr ⟨place, way, along, come, breaks⟩⟩

/-- Whatever steps are run, their log is well nested: each entry has one exit and each exit one entry
of the same path, with lines of steps within between the two. The log holds the lines of the steps
that are reached, in the order of the steps. The stack of open steps is after each step what it was
before it. The error that gets to the end is the one of a step that is reached and raises it, where
neither this nor a step around it catches. -/
theorem run_nests_and_unwinds (steps : List Step) :
    Nested [] (run steps).1.lines ∧
    (∀ before path after, (run steps).1.lines = before ++ .entered path :: after →
      ∃! within, Nested path within ∧ within ++ [.left path] <+: after) ∧
    (∀ before path after, (run steps).1.lines = before ++ .left path :: after →
      ∃! within, Nested path within ∧ .entered path :: within <:+ before) ∧
    (run steps).1.lines = linesAt (reached steps) (tourFrom [] 0 steps) ∧
    (∀ log s, (runStep log s).1.stack = log.stack) ∧ (run steps).1.stack = [] ∧
    ∀ name, (run steps).2 = some name ↔
      ∃ place way, way? steps place = some way ∧ reached steps place = true ∧ Breaks way name := by
  have nested : Nested [] (run steps).1.lines := by
    rw [run_eq]
    exact .flatMap fun s _ => nested_trail [] s
  refine ⟨nested, fun before path after => nested.existsUnique_left,
    fun before path after => nested.existsUnique_entered, run_lines steps, fun log s => ?_, ?_,
    fun name => ?_⟩
  · rw [runStep_fst]
  · rw [run_eq]
  · rw [run_eq]
    exact findSome?_escaped_iff_breaks fun s _ => escaped_iff_breaks s

/-- Steps of the same names one after the other: the first stops the error of a step within, so that
only its second inner step is left out, and the second fails, so that the last is left out. -/
def tangled : List Step := [
  .mk "a" [.mk "b" [] true false, .mk "c" [] false false] false true,
  .mk "a" [.mk "b" [] false false] true false,
  .mk "d" [] false false]

theorem run_nests_and_unwinds_tangled :
    (∃! within, Nested ["a"] within ∧ within ++ [.left ["a"]] <+:
      (run tangled).1.lines.drop 1) ∧
    (∃! within, Nested ["a"] within ∧ .entered ["a"] :: within <:+
      (run tangled).1.lines.take 7) ∧
    (run tangled).2 = some "a" ∧
    ∃ place way, way? tangled place = some way ∧ reached tangled place = true ∧ Breaks way "a" := by
  have lines : (run tangled).1.lines = [.entered ["a"], .entered ["a", "b"], .left ["a", "b"],
      .left ["a"], .entered ["a"], .entered ["a", "b"], .left ["a", "b"], .left ["a"]] := by decide
  have out : (run tangled).2 = some "a" := by decide
  obtain ⟨-, exits, entries, -, -, -, error⟩ := run_nests_and_unwinds tangled
  exact ⟨exits [] ["a"] _ rfl, entries _ ["a"] [] (by rw [lines]; rfl), out, (error "a").mp out⟩

end OverlayBuild.Trace

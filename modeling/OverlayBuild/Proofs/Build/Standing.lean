import Mathlib.Logic.Function.Basic
import OverlayBuild.Build.Event
import OverlayBuild.Proofs.Build.Lock

/-! How builds stand to the locks, by their phases. Only the standing of a build matters
to the locks, so phases that stand alike are alike to them. -/
namespace OverlayBuild.Build

structure Standing where
  /-- It has the directory to itself. -/
  inside? : Option Hold
  /-- It waits for the lock of the directory. -/
  awaits? : Option Hold
  /-- It runs the program. -/
  runs : Bool
  /-- It waits for the lock of the context. -/
  queues : Bool
  deriving DecidableEq, Repr

namespace Standing

/-- Before it has asked for anything, and after it has given up everything. -/
def outside : Standing := ⟨none, none, false, false⟩

def hold? (s : Standing) : Option Hold := s.inside?.or s.awaits?

def uses (key : Location) (s : Standing) : Bool := s.hold?.any (·.key == key)

theorem toNat_uses {standing : Standing} {hold : Hold} (holds : standing.hold? = some hold)
    (key : Location) : (standing.uses key).toNat = if key = hold.key then 1 else 0 := by
  by_cases same : key = hold.key
  · simp [uses, holds, same]
  · simp [uses, holds, same, beq_eq_false_iff_ne.mpr (Ne.symm same)]

@[simp] theorem uses_outside (key : Location) : outside.uses key = false := rfl

end Standing

def Phase.standing : Phase → Standing
  | .entering | .done _ => .outside
  | .waiting hold => ⟨none, some hold, false, false⟩
  | .checking hold _ | .opening hold _ | .writing hold _ | .cleaning hold _ | .removing hold _ =>
    ⟨some hold, none, false, false⟩
  | .queued hold => ⟨hold, none, false, true⟩
  | .running hold => ⟨hold, none, true, false⟩

theorem standing_ended (hold : Option Hold) (outcome : Outcome) :
    (Phase.ended hold outcome).standing = ⟨hold, none, false, false⟩ := by
  cases hold <;> rfl

namespace State

variable {s : State} {i k : Nat} {p q : Phase}

def phase? (s : State) (i : Nat) : Option Phase := s.jobs[i]?.map (·.phase)

def request? (s : State) (i : Nat) : Option Request := s.jobs[i]?.map (·.request)

def standing (s : State) (i : Nat) : Standing :=
  ((s.phase? i).map Phase.standing).getD .outside

def users (s : State) (key : Location) : Nat :=
  s.jobs.countP fun j => j.phase.standing.uses key

theorem standing_of_phase? (known : s.phase? i = some q) : s.standing i = q.standing := by
  rw [standing, known]
  rfl

@[simp] theorem standing_withLock (lock : Lock) : (s.withLock lock).standing = s.standing := rfl

@[simp] theorem standing_withStaging (staging : Staging) :
    (s.withStaging staging).standing = s.standing := rfl

@[simp] theorem users_withStaging (staging : Staging) :
    (s.withStaging staging).users = s.users := rfl

/-! A build goes on with a phase. -/

theorem phase?_become (known : s.phase? i = some q) :
    (s.become i p).phase? k = if k = i then some p else s.phase? k := by
  obtain ⟨j, found, -⟩ := Option.map_eq_some_iff.mp known
  simp only [phase?, become, List.getElem?_modify]
  by_cases same : k = i
  · subst same; simp [found]
  · simp [same, Ne.symm same]

@[simp] theorem request?_become : (s.become i p).request? k = s.request? k := by
  simp only [request?, become, List.getElem?_modify]
  cases s.jobs[k]? with
  | none => rfl
  | some j => by_cases same : i = k <;> simp [same]

theorem standing_become (known : s.phase? i = some q) :
    (s.become i p).standing = Function.update s.standing i p.standing := by
  funext k
  rw [standing, phase?_become known]
  by_cases same : k = i
  · subst same; simp
  · simp [same, standing]

/-- What phases have in common is kept from one to the other. -/
theorem standing_become_iff {f : Standing → Prop} (known : s.phase? i = some q)
    (alike : f q.standing ↔ f p.standing) (k : Nat) :
    f (s.standing k) ↔ f ((s.become i p).standing k) := by
  rw [standing_become known]
  by_cases same : k = i
  · subst same
    rw [standing_of_phase? known, Function.update_self]
    exact alike
  · rw [Function.update_of_ne same]

/-- Changing one item of a list changes a count by that item. -/
theorem countP_modify {α : Type} {items : List α} {x : α} (f : α → α) (test : α → Bool)
    (found : items[i]? = some x) :
    (items.modify i f).countP test + (test x).toNat =
      items.countP test + (test (f x)).toNat := by
  induction items generalizing i with
  | nil => simp at found
  | cons first rest ih =>
    cases i with
    | zero =>
      obtain rfl : first = x := by simpa using found
      simp only [List.modify_zero_cons, List.countP_cons]
      cases test first <;> cases test (f first) <;> simp
    | succ i =>
      have later := ih (i := i) (by simpa using found)
      simp only [List.modify_succ_cons, List.countP_cons]
      omega

theorem users_become (known : s.phase? i = some q) (key : Location) :
    (s.become i p).users key + (q.standing.uses key).toNat =
      s.users key + (p.standing.uses key).toNat := by
  obtain ⟨j, found, rfl⟩ := Option.map_eq_some_iff.mp known
  exact countP_modify (fun j : Job => { j with phase := p })
    (fun j => j.phase.standing.uses key) found

theorem users_join {hold : Hold} (known : s.phase? i = some q)
    (outside : q.standing = .outside) (holds : p.standing.hold? = some hold) (key : Location) :
    (s.become i p).users key = s.users key + if key = hold.key then 1 else 0 := by
  have counts := users_become (p := p) known key
  rw [outside, Standing.uses_outside, Standing.toNat_uses holds] at counts
  simpa using counts

theorem users_part {hold : Hold} (known : s.phase? i = some q)
    (holds : q.standing.hold? = some hold) (outside : p.standing = .outside) (key : Location) :
    (s.become i p).users key = if key = hold.key then s.users key - 1 else s.users key := by
  have counts := users_become (p := p) known key
  rw [outside, Standing.uses_outside, Standing.toNat_uses holds] at counts
  by_cases same : key = hold.key
  · simp only [same, if_true, Bool.toNat_false] at counts ⊢
    omega
  · simpa [same] using counts

/-- A build that uses a directory is counted among its users. -/
theorem users_pos {hold : Hold} (uses : (s.standing i).hold? = some hold) :
    0 < s.users hold.key := by
  cases known : s.phase? i with
  | none => simp [standing, known, Standing.outside, Standing.hold?] at uses
  | some p =>
    obtain ⟨j, found, rfl⟩ := Option.map_eq_some_iff.mp known
    rw [standing_of_phase? known] at uses
    exact List.countP_pos_iff.mpr ⟨j, List.mem_of_getElem? found, by simp [Standing.uses, uses]⟩

end State

end OverlayBuild.Build

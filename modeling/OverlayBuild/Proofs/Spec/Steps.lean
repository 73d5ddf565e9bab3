import OverlayBuild.Spec.Compose

/-! Compositions that only a date stops, step by step. Whether a step is stopped does not depend
on what was noticed before. -/
namespace OverlayBuild

def Value.IsMoment : Value → Prop
  | .date _ | .datetime _ => True
  | _ => False

namespace Compose

open Value

variable {α β : Type}

/-- Where `dated`, a date stops the composition; else it gives what meets `post`, whatever was
noticed before. -/
structure Ends (x : Compose α) (dated : Prop) (post : α → Prop) : Prop where
  stops : dated → ∀ before, ∃ moment : Value,
    moment.IsMoment ∧ x.run before = .error (.notIterable moment.fullTypeName)
  gives : ¬dated → ∀ before, ∃ a after, x.run before = .ok (a, after) ∧ post a

section steps

variable {x : Compose α} {f : α → Compose β} {dated later : Prop} {post : α → Prop}
  {next : β → Prop}

theorem Ends.congr (ends : Ends x dated post) (same : dated ↔ later) : Ends x later post :=
  propext same ▸ ends

theorem Ends.of_undated (ends : Ends x False post) (undated : ¬dated) : Ends x dated post :=
  ends.congr (iff_of_false id undated)

theorem Ends.imp {next : α → Prop} (ends : Ends x dated post) (holds : ∀ a, post a → next a) :
    Ends x dated next where
  stops := ends.stops
  gives undated before := by
    obtain ⟨a, after, run, meets⟩ := ends.gives undated before
    exact ⟨a, after, run, holds a meets⟩

theorem ends_pure {a : α} (holds : post a) : Ends (pure a) False post :=
  ⟨False.elim, fun _ before => ⟨a, before, rfl, holds⟩⟩

theorem ends_notice (n : Notice) : Ends (notice n) False fun _ => True :=
  ⟨False.elim, fun _ before => ⟨(), before ++ [n], rfl, trivial⟩⟩

theorem Ends.bind (first : Ends x dated post) (rest : ∀ a, post a → Ends (f a) later next) :
    Ends (x >>= f) (dated ∨ later) next := by
  by_cases early : dated
  · refine ⟨?_, fun neither => absurd (.inl early) neither⟩
    intro _ before
    obtain ⟨moment, date, run⟩ := first.stops early before
    exact ⟨moment, date, by rw [StateT.run_bind, run]; rfl⟩
  · constructor
    · intro either before
      obtain ⟨a, after, run, holds⟩ := first.gives early before
      obtain ⟨moment, date, stopped⟩ := (rest a holds).stops (either.resolve_left early) after
      exact ⟨moment, date, by rw [StateT.run_bind, run]; exact stopped⟩
    · intro neither before
      obtain ⟨a, after, run, holds⟩ := first.gives early before
      obtain ⟨b, final, finished, meets⟩ := (rest a holds).gives (neither ∘ .inr) after
      exact ⟨b, final, by rw [StateT.run_bind, run]; exact finished, meets⟩

/-- After what no date stops, the rest decides. -/
theorem Ends.before (first : Ends x False post) (rest : ∀ a, post a → Ends (f a) later next) :
    Ends (x >>= f) later next :=
  (first.bind rest).congr (iff_of_eq (false_or later))

/-- Making something of a result stops nothing more. -/
theorem Ends.return {g : α → β} (first : Ends x dated post) (holds : ∀ a, post a → next (g a)) :
    Ends (do return g (← x)) dated next :=
  (first.bind fun a meets => ends_pure (holds a meets)).congr (iff_of_eq (or_false dated))

theorem Ends.mapM {p : α → Prop} {items : List α} (each : ∀ a ∈ items, Ends (f a) (p a) next) :
    Ends (items.mapM f) (∃ a ∈ items, p a) fun results => ∀ b ∈ results, next b := by
  induction items with
  | nil =>
    rw [List.mapM_nil]
    exact (ends_pure nofun).congr (by simp)
  | cons a items ih =>
    obtain ⟨own, each⟩ := List.forall_mem_cons.mp each
    rw [List.mapM_cons]
    have all : Ends (do let b ← f a; return b :: (← items.mapM f)) (p a ∨ ∃ a ∈ items, p a)
        fun results => ∀ b ∈ results, next b :=
      own.bind fun b meets => (ih each).return fun results others =>
        List.forall_mem_cons.mpr ⟨meets, others⟩
    exact all.congr (by simp)

theorem Ends.mapM_undated {items : List α} (each : ∀ a ∈ items, Ends (f a) False next) :
    Ends (items.mapM f) False fun results => ∀ b ∈ results, next b :=
  (Ends.mapM each).congr (by simp)

end steps

end Compose

end OverlayBuild

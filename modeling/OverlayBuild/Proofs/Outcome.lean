import Mathlib.Data.List.Forall2

/-! Computations that give a result or a fault, one after the other and over the items of a
list. -/
namespace OverlayBuild

theorem ok_bind {ε α β : Type} {a : α} {f : α → Except ε β} : (Except.ok a >>= f) = f a := rfl

theorem bind_eq_ok_iff {ε α β : Type} {x : Except ε α} {f : α → Except ε β} {b : β} :
    x >>= f = .ok b ↔ ∃ a, x = .ok a ∧ f a = .ok b := by
  cases x <;> simp [bind, Except.bind]

theorem bind_eq_error_iff {ε α β : Type} {x : Except ε α} {f : α → Except ε β} {e : ε} :
    x >>= f = .error e ↔ x = .error e ∨ ∃ a, x = .ok a ∧ f a = .error e := by
  cases x <;> simp [bind, Except.bind]

theorem map_eq_ok_iff {ε α β : Type} {x : Except ε α} {f : α → β} {b : β} :
    x.map f = .ok b ↔ ∃ a, x = .ok a ∧ f a = b := by
  cases x <;> simp [Except.map]

theorem mapError_eq_ok_iff {ε δ α : Type} {x : Except ε α} {f : ε → δ} {a : α} :
    x.mapError f = .ok a ↔ x = .ok a := by
  cases x <;> simp [Except.mapError]

theorem map_eq_error_iff {ε α β : Type} {x : Except ε α} {f : α → β} {e : ε} :
    x.map f = .error e ↔ x = .error e := by
  cases x <;> simp [Except.map]

theorem mapError_eq_error_iff {ε δ α : Type} {x : Except ε α} {f : ε → δ} {e : δ} :
    x.mapError f = .error e ↔ ∃ cause, x = .error cause ∧ f cause = e := by
  cases x <;> simp [Except.mapError]

theorem toOption_eq_some_iff {ε α : Type} {x : Except ε α} {a : α} :
    x.toOption = some a ↔ x = .ok a := by
  cases x <;> simp [Except.toOption]

/-- Each item of the second list stands for one of the first. -/
theorem exists_left {α β : Type} {R : α → β → Prop} {as : List α} {bs : List β} {b : β}
    (parts : List.Forall₂ R as bs) (mem : b ∈ bs) : ∃ a ∈ as, R a b := by
  induction parts with
  | nil => contradiction
  | cons own _ ih =>
    rcases List.mem_cons.mp mem with rfl | mem
    · exact ⟨_, List.mem_cons_self, own⟩
    · obtain ⟨a, first, own⟩ := ih mem
      exact ⟨a, List.mem_cons_of_mem _ first, own⟩

theorem exists_mem_zip {α β : Type} {as : List α} {bs : List β} {b : β}
    (length : as.length = bs.length) (mem : b ∈ bs) : ∃ a ∈ as, (a, b) ∈ as.zip bs :=
  exists_left (R := fun a b => (a, b) ∈ as.zip bs)
    (List.forall₂_iff_zip.mpr ⟨length, fun mem => mem⟩) mem

theorem mapM_eq_ok_iff {ε α β : Type} {f : α → Except ε β} {items : List α} {made : List β} :
    items.mapM f = .ok made ↔ List.Forall₂ (fun a b => f a = .ok b) items made := by
  induction items generalizing made with
  | nil => cases made <;> simp [pure, Except.pure]
  | cons a items ih =>
    simp only [List.mapM_cons, bind_eq_ok_iff, ih, List.forall₂_cons_left_iff, pure,
      Except.pure, Except.ok.injEq]
    grind

theorem mapM_eq_error_iff {α β ε : Type} {f : α → Except ε β} {items : List α} {cause : ε} :
    items.mapM f = .error cause ↔ ∃ before a after, items = before ++ a :: after ∧
      (∀ b ∈ before, ∃ c, f b = .ok c) ∧ f a = .error cause := by
  induction items with
  | nil => simp [pure, Except.pure]
  | cons a items ih =>
    rw [List.mapM_cons]
    cases first : f a with
    | error other =>
      simp only [bind, Except.bind, Except.error.injEq]
      constructor
      · rintro rfl
        exact ⟨[], a, items, rfl, nofun, first⟩
      · rintro ⟨before, b, after, split, fine, failed⟩
        cases before with
        | nil =>
          obtain ⟨rfl, -⟩ := List.cons.inj split
          exact Except.error.inj (first.symm.trans failed)
        | cons c before =>
          obtain ⟨rfl, -⟩ := List.cons.inj split
          obtain ⟨_, done⟩ := fine a List.mem_cons_self
          rw [first] at done
          contradiction
    | ok c =>
      have rest : (do return c :: (← items.mapM f)) = Except.error cause ↔
          items.mapM f = .error cause := by
        cases items.mapM f <;> simp [bind, Except.bind, pure, Except.pure]
      simp only [bind, Except.bind] at rest ⊢
      rw [rest, ih]
      constructor
      · rintro ⟨before, b, after, rfl, fine, failed⟩
        exact ⟨a :: before, b, after, rfl, List.forall_mem_cons.mpr ⟨⟨c, first⟩, fine⟩, failed⟩
      · rintro ⟨before, b, after, split, fine, failed⟩
        cases before with
        | nil =>
          obtain ⟨rfl, -⟩ := List.cons.inj split
          rw [first] at failed
          contradiction
        | cons d before =>
          obtain ⟨rfl, rfl⟩ := List.cons.inj split
          exact ⟨before, b, after, rfl, (List.forall_mem_cons.mp fine).2, failed⟩

theorem exists_mapM {ε α β : Type} {f : α → Except ε β} {items : List α}
    (each : ∀ a ∈ items, ∃ b, f a = .ok b) : ∃ made, items.mapM f = .ok made := by
  cases failed : items.mapM f with
  | ok made => exact ⟨made, rfl⟩
  | error cause =>
    obtain ⟨before, a, after, rfl, -, fault⟩ := mapM_eq_error_iff.mp failed
    obtain ⟨b, fine⟩ := each a (by simp)
    exact absurd (fine.symm.trans fault) nofun

/-- All faults are of the one kind and all results of the other. -/
def Meets {ε α : Type} (p : ε → Prop) (q : α → Prop) : Except ε α → Prop
  | .error e => p e
  | .ok a => q a

namespace Meets

variable {ε α β : Type} {p : ε → Prop} {q : α → Prop} {r : β → Prop} {x y : Except ε α}
  {f : α → Except ε β}

theorem error {e : ε} (own : p e) : Meets p q (.error e) := own

theorem ok {a : α} (own : q a) : Meets p q (.ok a) := own

theorem pure {a : α} (own : q a) : Meets p q (Pure.pure a : Except ε α) := own

theorem of_error {e : ε} (meets : Meets p q x) (failed : x = .error e) : p e := by
  rw [failed] at meets
  exact meets

theorem of_ok {a : α} (meets : Meets p q x) (done : x = .ok a) : q a := by
  rw [done] at meets
  exact meets

theorem imp {p' : ε → Prop} {q' : α → Prop} (meets : Meets p q x) (faults : ∀ e, p e → p' e)
    (results : ∀ a, q a → q' a) : Meets p' q' x := by
  cases x with
  | error e => exact faults e meets
  | ok a => exact results a meets

theorem bind (first : Meets p q x) (next : ∀ a, q a → Meets p r (f a)) : Meets p r (x >>= f) := by
  cases x with
  | error e => exact first
  | ok a => exact next a first

theorem ite {c : Prop} [Decidable c] (then_ : Meets p q x) (else_ : Meets p q y) :
    Meets p q (if c then x else y) := by
  split
  · exact then_
  · exact else_

theorem mapM {items : List α} (each : ∀ a ∈ items, Meets p r (f a)) :
    Meets p (fun made => ∀ b ∈ made, r b) (items.mapM f) := by
  cases done : items.mapM f with
  | error e =>
    obtain ⟨before, a, after, rfl, -, failed⟩ := mapM_eq_error_iff.mp done
    exact (each a (by simp)).of_error failed
  | ok made =>
    intro b mem
    obtain ⟨a, held, own⟩ := exists_left (mapM_eq_ok_iff.mp done) mem
    have meets := each a held
    rw [own] at meets
    exact meets

theorem foldlM {items : List β} {f : α → β → Except ε α} {init : α} (own : q init)
    (step : ∀ b ∈ items, ∀ a, q a → Meets p q (f a b)) : Meets p q (items.foldlM f init) := by
  induction items generalizing init with
  | nil => exact .pure own
  | cons b items ih =>
    rw [List.foldlM_cons]
    exact (step b List.mem_cons_self init own).bind fun a further =>
      ih further fun c mem => step c (List.mem_cons_of_mem _ mem)

end Meets

end OverlayBuild

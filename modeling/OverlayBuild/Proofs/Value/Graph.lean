import Mathlib.Data.Fintype.Card
import Mathlib.Logic.Relation
import OverlayBuild.Value.Basic

/-! Containers that hold others by their addresses, so that one may be held in several places
and may hold itself, and the values that show them. A container is shown anew in each place that
holds it, except inside of itself, where a reference back stands for it. -/
namespace OverlayBuild.Value

open Relation

/-- Neither a container of other values nor a reference back to one. The items of a set hold no
containers. -/
def IsSingle : Value → Prop
  | .list _ | .tuple _ | .map _ | .loop _ => False
  | _ => True

/-- What stands at an address: a value of its own, or a container of what stands at others. -/
inductive Cell (n : Nat) where
  | single (v : Value) (alone : v.IsSingle)
  | list (items : List (Fin n))
  | tuple (items : List (Fin n))
  | map (entries : List (Value × Fin n))

def Cell.members {n : Nat} : Cell n → List (Fin n)
  | .single _ _ => []
  | .list items | .tuple items => items
  | .map entries => entries.map (·.2)

def Graph (n : Nat) : Type := Fin n → Cell n

namespace Graph

variable {n : Nat} {g : Graph n} {around wider : List (Fin n)} {a b c root : Fin n}

def Holds (g : Graph n) (a b : Fin n) : Prop := b ∈ (g a).members

def Reaches (g : Graph n) : Fin n → Fin n → Prop := ReflTransGen g.Holds

/-- The container holds itself, perhaps through others. -/
def Circular (g : Graph n) (a : Fin n) : Prop := TransGen g.Holds a a

def others (around : List (Fin n)) : Nat := (Finset.univ.filter (· ∉ around)).card

theorem others_lt (new : a ∉ around) : others (a :: around) < others around := by
  refine Finset.card_lt_card (Finset.ssubset_iff_of_subset ?_ |>.mpr ⟨a, ?_, ?_⟩)
  · exact Finset.monotone_filter_right _ fun b _ out mem => out (List.mem_cons_of_mem _ mem)
  · simpa using new
  · simp

/-- What stands at an address within the containers around it, innermost first. -/
def valueIn (g : Graph n) (around : List (Fin n)) (a : Fin n) : Value :=
  if a ∈ around then .loop (around.idxOf a)
  else match g a with
    | .single v _ => v
    | .list items => .list (items.map fun b => valueIn g (a :: around) b)
    | .tuple items => .tuple (items.map fun b => valueIn g (a :: around) b)
    | .map entries => .map (entries.map fun e => (e.1, valueIn g (a :: around) e.2))
termination_by others around
decreasing_by all_goals exact others_lt ‹_›

def value (g : Graph n) (a : Fin n) : Value := g.valueIn [] a

theorem valueIn_of_mem (inside : a ∈ around) : g.valueIn around a = .loop (around.idxOf a) := by
  rw [valueIn, if_pos inside]

/-! Going down from a container, what is around a place are containers that hold it. Where no
container is met again inside of itself, there are none that hold themselves. -/

section descent

variable {P : List (Fin n) → Fin n → Prop} {Fits : Fin n → Prop}
  (step : ∀ around a, P around a ↔
    a ∉ around ∧ Fits a ∧ ∀ b, g.Holds a b → P (a :: around) b)

include step

theorem exists_around (holds : P around a) (reaches : g.Reaches a b) :
    ∃ wider, P wider b ∧ around ⊆ wider := by
  induction reaches with
  | refl => exact ⟨around, holds, List.Subset.refl around⟩
  | @tail b c _ next ih =>
    obtain ⟨wider, own, subset⟩ := ih
    exact ⟨b :: wider, ((step wider b).mp own).2.2 c next, List.subset_cons_of_subset b subset⟩

theorem not_circular (holds : P around a) : ¬ g.Circular a := by
  intro circular
  obtain ⟨b, next, back⟩ := TransGen.head'_iff.mp circular
  have inside : P (a :: around) b := ((step around a).mp holds).2.2 b next
  obtain ⟨wider, again, subset⟩ := exists_around step inside back
  exact ((step wider a).mp again).1 (subset List.mem_cons_self)

theorem descends (enclosed : ∀ c ∈ around, TransGen g.Holds c a)
    (each : ∀ b, g.Reaches a b → ¬ g.Circular b ∧ Fits b) : P around a := by
  induction measure : others around using Nat.strong_induction_on generalizing around a with
  | _ count ih =>
    have new : a ∉ around := fun mem => (each a .refl).1 (enclosed a mem)
    refine (step around a).mpr ⟨new, (each a .refl).2, fun b next => ?_⟩
    refine ih _ (measure ▸ others_lt new) (List.forall_mem_cons.mpr ⟨.single next, fun c mem => ?_⟩)
      (fun c reaches => each c (.head next reaches)) rfl
    exact (enclosed c mem).tail next

/-- What holds on the way down from an address, wherever nothing is met again, holds when none
of what is reached holds itself and all of it fits. -/
theorem descends_iff :
    P [] root ↔ ∀ a, g.Reaches root a → ¬ g.Circular a ∧ Fits a := by
  refine ⟨fun holds a reaches => ?_, descends step nofun⟩
  obtain ⟨wider, own, -⟩ := exists_around step holds reaches
  exact ⟨not_circular step own, ((step wider a).mp own).2.1⟩

end descent

def IsAcyclic (g : Graph n) (a : Fin n) : Prop := ∀ b, g.Reaches a b → ¬ g.Circular b

theorem IsAcyclic.of_holds (acyclic : g.IsAcyclic a) (next : g.Holds a b) : g.IsAcyclic b :=
  fun c reaches => acyclic c (.head next reaches)

/-- What is shown where no container holds itself does not depend on the place. -/
theorem valueIn_eq (acyclic : g.IsAcyclic a) (clear : ∀ b, g.Reaches a b → b ∉ around)
    (also : ∀ b, g.Reaches a b → b ∉ wider) : g.valueIn around a = g.valueIn wider a := by
  induction measure : others around using Nat.strong_induction_on generalizing around wider a with
  | _ count ih =>
    have new : a ∉ around := clear a .refl
    have each : ∀ b ∈ (g a).members, g.valueIn (a :: around) b = g.valueIn (a :: wider) b := by
      intro b next
      have apart {c : Fin n} (reaches : g.Reaches b c) : c ≠ a := by
        rintro rfl
        exact acyclic c .refl (.head' next reaches)
      refine ih _ (measure ▸ others_lt new) (acyclic.of_holds next) (fun c reaches => ?_)
        (fun c reaches => ?_) rfl
      · exact List.not_mem_cons_of_ne_of_not_mem (apart reaches) (clear c (.head next reaches))
      · exact List.not_mem_cons_of_ne_of_not_mem (apart reaches) (also c (.head next reaches))
    rw [valueIn, valueIn, if_neg new, if_neg (also a .refl)]
    cases cell : g a with
    | single v alone => rfl
    | list items =>
      rw [cell] at each
      exact congrArg Value.list (List.map_congr_left each)
    | tuple items =>
      rw [cell] at each
      exact congrArg Value.tuple (List.map_congr_left each)
    | map entries =>
      rw [cell] at each
      refine congrArg Value.map (List.map_congr_left fun e mem => ?_)
      rw [each e.2 (List.mem_map_of_mem mem)]

/-- A container that is shared is shown in each place as it is by itself. -/
theorem valueIn_eq_value (acyclic : g.IsAcyclic a) (next : g.Holds a b) :
    g.valueIn [a] b = g.value b := by
  refine valueIn_eq (acyclic.of_holds next) (fun c reaches => ?_) fun c _ => List.not_mem_nil
  rw [List.mem_singleton]
  rintro rfl
  exact acyclic c .refl (.head' next reaches)

end Graph

end OverlayBuild.Value

import Mathlib.Data.List.Perm.Basic
import OverlayBuild.Proofs.Value.Order

/-! Values that are equal up to the order of the entries of mappings, at every depth. Sets
have no order either. -/
namespace OverlayBuild.Value

mutual
/-- Equal up to the order of the entries of mappings and of sets, at every depth. -/
def Alike : Value → Value → Prop
  | .list items, .list others | .tuple items, .tuple others => AlikeAll items others
  | .map entries, .map others => ∃ moved, AlikeEntries entries moved ∧ moved.Perm others
  | .set items, .set others => items.Perm others
  | v, w => v = w
termination_by structural v => v
def AlikeAll : List Value → List Value → Prop
  | [], [] => True
  | v :: items, w :: others => Alike v w ∧ AlikeAll items others
  | _, _ => False
termination_by structural items => items
def AlikeEntries : List (Value × Value) → List (Value × Value) → Prop
  | [], [] => True
  | (k, v) :: entries, (l, w) :: others => k = l ∧ Alike v w ∧ AlikeEntries entries others
  | _, _ => False
termination_by structural entries => entries
end

mutual
/-- No container holds itself, and the keys of each mapping are different texts. -/
def Tidy : Value → Prop
  | .list items | .tuple items => TidyAll items
  | .map entries => TextKeys entries ∧ (entries.map (·.1)).Nodup ∧ TidyEntries entries
  | .loop _ => False
  | _ => True
termination_by structural v => v
def TidyAll : List Value → Prop
  | [] => True
  | v :: items => Tidy v ∧ TidyAll items
termination_by structural items => items
def TidyEntries : List (Value × Value) → Prop
  | [] => True
  | (_, v) :: entries => Tidy v ∧ TidyEntries entries
termination_by structural entries => entries
end

variable {v w : Value} {items others : List Value}
  {entries moved fields : List (Value × Value)}

theorem alikeAll_iff : AlikeAll items others ↔ List.Forall₂ Alike items others := by
  induction items generalizing others with
  | nil => cases others <;> simp [AlikeAll]
  | cons v items ih => cases others <;> simp [AlikeAll, ih]

theorem alikeEntries_iff :
    AlikeEntries entries fields ↔
      List.Forall₂ (fun a b => a.1 = b.1 ∧ Alike a.2 b.2) entries fields := by
  induction entries generalizing fields with
  | nil => cases fields <;> simp [AlikeEntries]
  | cons e entries ih => cases fields <;> simp [AlikeEntries, ih, and_assoc]

theorem alike_list_iff :
    Alike (.list items) w ↔ ∃ others, w = .list others ∧ AlikeAll items others := by
  cases w <;> simp [Alike]

theorem alike_tuple_iff :
    Alike (.tuple items) w ↔ ∃ others, w = .tuple others ∧ AlikeAll items others := by
  cases w <;> simp [Alike]

theorem alike_map_iff :
    Alike (.map entries) w ↔
      ∃ fields moved, w = .map fields ∧ AlikeEntries entries moved ∧ moved.Perm fields := by
  cases w <;> simp [Alike]

theorem alike_set_iff : Alike (.set items) w ↔ ∃ others, w = .set others ∧ items.Perm others := by
  cases w <;> simp [Alike]

def IsLeaf : Value → Prop
  | .list _ | .tuple _ | .map _ | .set _ => False
  | _ => True

theorem IsLeaf.alike_iff (leaf : v.IsLeaf) : Alike v w ↔ v = w := by
  cases v <;> first | exact leaf.elim | (cases w <;> simp [Alike])

/-- What holds of leaves, and of containers when it holds of what they hold, holds of all
values. -/
@[elab_as_elim]
theorem nested {motive : Value → Prop} (leaf : ∀ v, v.IsLeaf → motive v)
    (list : ∀ items, (∀ v ∈ items, motive v) → motive (.list items))
    (tuple : ∀ items, (∀ v ∈ items, motive v) → motive (.tuple items))
    (map : ∀ entries, (∀ e ∈ entries, motive e.2) → motive (.map entries))
    (set : ∀ items, motive (.set items)) (v : Value) : motive v := by
  refine @Value.rec motive (fun items => ∀ v ∈ items, motive v)
    (fun entries => ∀ e ∈ entries, motive e.2) (fun e => motive e.2)
    (leaf _ trivial) (fun _ => leaf _ trivial) (fun _ => leaf _ trivial) (fun _ => leaf _ trivial)
    (fun _ => leaf _ trivial) (fun _ => leaf _ trivial) (fun _ => leaf _ trivial)
    (fun _ => leaf _ trivial) list tuple map (fun items _ => set items) (fun _ => leaf _ trivial)
    nofun ?_ nofun ?_ ?_ v
  · exact fun v items first rest => List.forall_mem_cons.mpr ⟨first, rest⟩
  · exact fun e entries first rest => List.forall_mem_cons.mpr ⟨first, rest⟩
  · exact fun k v _ second => second

theorem AlikeAll.with_mem {p : Value → Prop} (alike : AlikeAll items others)
    (each : ∀ v ∈ items, p v) : List.Forall₂ (fun v w => p v ∧ Alike v w) items others :=
  (List.forall₂_and_left _ _).mpr ⟨each, alikeAll_iff.mp alike⟩

theorem AlikeEntries.with_mem {p : Value × Value → Prop} (alike : AlikeEntries entries fields)
    (each : ∀ e ∈ entries, p e) :
    List.Forall₂ (fun a b => p a ∧ a.1 = b.1 ∧ Alike a.2 b.2) entries fields :=
  (List.forall₂_and_left _ _).mpr ⟨each, alikeEntries_iff.mp alike⟩

theorem tidyAll_iff : TidyAll items ↔ ∀ v ∈ items, Tidy v := by
  induction items with
  | nil => simp [TidyAll]
  | cons v items ih => simp [TidyAll, ih]

theorem tidyEntries_iff : TidyEntries entries ↔ ∀ e ∈ entries, Tidy e.2 := by
  induction entries with
  | nil => simp [TidyEntries]
  | cons e entries ih => simp [TidyEntries, ih]

theorem Alike.refl (v : Value) : Alike v v := by
  induction v using nested with
  | leaf v leaf => exact leaf.alike_iff.mpr rfl
  | list items ih => exact alikeAll_iff.mpr (List.forall₂_same.mpr ih)
  | tuple items ih => exact alikeAll_iff.mpr (List.forall₂_same.mpr ih)
  | map entries ih =>
    have same : AlikeEntries entries entries :=
      alikeEntries_iff.mpr (List.forall₂_same.mpr fun e mem => ⟨rfl, ih e mem⟩)
    exact ⟨entries, same, .refl entries⟩
  | set items => exact List.Perm.refl items

theorem Alike.of_perm (same : entries.Perm fields) : Alike (.map entries) (.map fields) :=
  ⟨entries, alikeEntries_iff.mpr (List.forall₂_same.mpr fun _ _ => ⟨rfl, Alike.refl _⟩), same⟩

theorem Alike.symm (alike : Alike v w) : Alike w v := by
  have back {items others : List Value} (alike : AlikeAll items others)
      (ih : ∀ v ∈ items, ∀ {w}, Alike v w → Alike w v) : AlikeAll others items :=
    alikeAll_iff.mpr ((alike.with_mem ih).imp fun _ _ both => both.1 both.2).flip
  induction v using nested generalizing w with
  | leaf v leaf =>
    obtain rfl := leaf.alike_iff.mp alike
    exact alike
  | list items ih =>
    obtain ⟨others, rfl, all⟩ := alike_list_iff.mp alike
    exact back all ih
  | tuple items ih =>
    obtain ⟨others, rfl, all⟩ := alike_tuple_iff.mp alike
    exact back all ih
  | map entries ih =>
    obtain ⟨fields, moved, rfl, all, same⟩ := alike_map_iff.mp alike
    -- Turned around, entries are moved before they are paired; the pairing has to come first.
    have turned : List.Forall₂ (fun a b => a.1 = b.1 ∧ Alike a.2 b.2) moved entries :=
      List.Forall₂.flip ((all.with_mem ih).imp fun _ _ both => ⟨both.2.1.symm, both.1 both.2.2⟩)
    obtain ⟨found, also, order⟩ := List.perm_comp_forall₂ same.symm turned
    exact ⟨found, alikeEntries_iff.mpr also, order⟩
  | set items =>
    obtain ⟨others, rfl, same⟩ := alike_set_iff.mp alike
    exact same.symm

/-! Tidy values are complete in themselves: there is no reference back to replace. -/

section tie

variable {whole : Value} {depth : Nat}

theorem tieAll_of_fixed (fixed : ∀ v ∈ items, tie whole depth v = v) :
    tieAll whole depth items = items := by
  induction items with
  | nil => rfl
  | cons v items ih =>
    obtain ⟨first, rest⟩ := List.forall_mem_cons.mp fixed
    rw [tieAll, first, ih rest]

theorem tieEntries_of_fixed (fixed : ∀ e ∈ entries, tie whole depth e.2 = e.2) :
    tieEntries whole depth entries = entries := by
  induction entries with
  | nil => rfl
  | cons e entries ih =>
    obtain ⟨first, rest⟩ := List.forall_mem_cons.mp fixed
    rw [tieEntries, first, ih rest]

theorem Tidy.tie (tidy : Tidy v) : tie whole depth v = v := by
  induction v using nested generalizing depth with
  | leaf v leaf => cases v <;> first | rfl | exact tidy.elim | exact leaf.elim
  | list items ih =>
    rw [Value.tie, tieAll_of_fixed fun v mem => ih v mem (tidyAll_iff.mp tidy v mem)]
  | tuple items ih =>
    rw [Value.tie, tieAll_of_fixed fun v mem => ih v mem (tidyAll_iff.mp tidy v mem)]
  | map entries ih =>
    rw [Value.tie, tieEntries_of_fixed fun e mem => ih e mem (tidyEntries_iff.mp tidy.2.2 e mem)]
  | set items => rfl

end tie

theorem Tidy.entries?_map (tidy : Tidy (.map entries)) : entries? (.map entries) = some entries :=
  congrArg some (tieEntries_of_fixed fun e mem => (tidyEntries_iff.mp tidy.2.2 e mem).tie)

end OverlayBuild.Value

import OverlayBuild.Number.Shortest
import OverlayBuild.Proofs.Number.Text
import OverlayBuild.Proofs.Value.Alike

/-! Plain values are those that JSON has. Two of them are the same when they differ in
nothing but the order of the entries of mappings, where a floating point number is known by
its text. -/
namespace OverlayBuild.Value

mutual
/-- Null, truth values, integers, finite floating point numbers, text, lists, and mappings
with different texts as keys. -/
def Plain : Value → Prop
  | .null | .bool _ | .int _ | .str _ => True
  | .float x => x.IsFinite
  | .list items => PlainAll items
  | .map entries => TextKeys entries ∧ (entries.map (·.1)).Nodup ∧ PlainEntries entries
  | _ => False
termination_by structural v => v
def PlainAll : List Value → Prop
  | [] => True
  | v :: items => Plain v ∧ PlainAll items
termination_by structural items => items
def PlainEntries : List (Value × Value) → Prop
  | [] => True
  | (_, v) :: entries => Plain v ∧ PlainEntries entries
termination_by structural entries => entries
end

mutual
/-- Equal up to the order of the entries of mappings, at every depth. Values of different
kinds differ: the integer 1, the floating point number 1.0, true and the text "1". -/
def Same : Value → Value → Prop
  | .float x, .float y => x.text = y.text
  | .list items, .list others => SameAll items others
  | .map entries, .map others => ∃ moved, SameEntries entries moved ∧ moved.Perm others
  | v, w => v = w
termination_by structural v => v
def SameAll : List Value → List Value → Prop
  | [], [] => True
  | v :: items, w :: others => Same v w ∧ SameAll items others
  | _, _ => False
termination_by structural items => items
def SameEntries : List (Value × Value) → List (Value × Value) → Prop
  | [], [] => True
  | (k, v) :: entries, (l, w) :: others => k = l ∧ Same v w ∧ SameEntries entries others
  | _, _ => False
termination_by structural entries => entries
end

variable {v w : Value} {items others : List Value} {entries fields : List (Value × Value)}

theorem plainAll_iff : PlainAll items ↔ ∀ v ∈ items, Plain v := by
  induction items with
  | nil => simp [PlainAll]
  | cons v items ih => simp [PlainAll, ih]

theorem plainEntries_iff : PlainEntries entries ↔ ∀ e ∈ entries, Plain e.2 := by
  induction entries with
  | nil => simp [PlainEntries]
  | cons e entries ih => simp [PlainEntries, ih]

theorem sameAll_iff : SameAll items others ↔ List.Forall₂ Same items others := by
  induction items generalizing others with
  | nil => cases others <;> simp [SameAll]
  | cons v items ih => cases others <;> simp [SameAll, ih]

theorem sameEntries_iff :
    SameEntries entries fields ↔
      List.Forall₂ (fun a b => a.1 = b.1 ∧ Same a.2 b.2) entries fields := by
  induction entries generalizing fields with
  | nil => cases fields <;> simp [SameEntries]
  | cons e entries ih => cases fields <;> simp [SameEntries, ih, and_assoc]

theorem same_list_iff :
    Same (.list items) w ↔ ∃ others, w = .list others ∧ List.Forall₂ Same items others := by
  cases w <;> simp [Same, sameAll_iff]

theorem same_map_iff :
    Same (.map entries) w ↔ ∃ fields moved, w = .map fields ∧
      List.Forall₂ (fun a b => a.1 = b.1 ∧ Same a.2 b.2) entries moved ∧ moved.Perm fields := by
  cases w <;> simp [Same, sameEntries_iff]

theorem IsLeaf.same_iff (leaf : v.IsLeaf) :
    Same v w ↔ v = w ∨ ∃ x y, v = .float x ∧ w = .float y ∧ x.text = y.text := by
  cases v <;> first | exact leaf.elim | (cases w <;> simp [Same])
  exact fun same => congrArg _ same

end OverlayBuild.Value

import Mathlib.Algebra.Group.Nat.Defs
import OverlayBuild.Proofs.Value.Alike
import OverlayBuild.Value.Display
import OverlayBuild.Value.Mapping

/-! What holds of a value and of all values in it, keys included: that it is plain data, that it
does not hold itself, that its mappings have text as keys, that its integers can be written out. -/
namespace OverlayBuild.Value

mutual
def Every (p : Value → Prop) : Value → Prop
  | .list items => p (.list items) ∧ EveryItem p items
  | .tuple items => p (.tuple items) ∧ EveryItem p items
  | .map entries => p (.map entries) ∧ EveryEntry p entries
  | .set items => p (.set items) ∧ EveryItem p items
  | v => p v
termination_by structural v => v
def EveryItem (p : Value → Prop) : List Value → Prop
  | [] => True
  | v :: items => Every p v ∧ EveryItem p items
termination_by structural items => items
def EveryEntry (p : Value → Prop) : List (Value × Value) → Prop
  | [] => True
  | (k, v) :: entries => (Every p k ∧ Every p v) ∧ EveryEntry p entries
termination_by structural entries => entries
end

variable {p q r : Value → Prop} {v key value : Value} {items : List Value}
  {entries pairs : List (Value × Value)}

theorem everyItem_iff : EveryItem p items ↔ ∀ v ∈ items, Every p v := by
  induction items with
  | nil => simp [EveryItem]
  | cons v items ih => simp [EveryItem, ih]

theorem everyEntry_iff : EveryEntry p entries ↔ ∀ e ∈ entries, Every p e.1 ∧ Every p e.2 := by
  induction entries with
  | nil => simp [EveryEntry]
  | cons e entries ih => simp [EveryEntry, ih]

theorem every_list_iff : Every p (.list items) ↔ p (.list items) ∧ ∀ v ∈ items, Every p v :=
  and_congr_right fun _ => everyItem_iff

theorem every_tuple_iff : Every p (.tuple items) ↔ p (.tuple items) ∧ ∀ v ∈ items, Every p v :=
  and_congr_right fun _ => everyItem_iff

theorem every_map_iff :
    Every p (.map entries) ↔ p (.map entries) ∧ ∀ e ∈ entries, Every p e.1 ∧ Every p e.2 :=
  and_congr_right fun _ => everyEntry_iff

theorem IsLeaf.every_iff (leaf : v.IsLeaf) : Every p v ↔ p v := by
  cases v <;> first | exact leaf.elim | exact Iff.rfl

theorem Every.own (every : Every p v) : p v := by
  cases v with
  | list items | tuple items | map entries | set items => exact every.1
  | null | bool b | int n | float x | str s | bytes bs | date d | datetime t | loop up => exact every

mutual
theorem Every.both (imp : ∀ v, p v → q v → r v) :
    ∀ {v : Value}, Every p v → Every q v → Every r v
  | .list _, ⟨own, each⟩, ⟨also, all⟩ | .tuple _, ⟨own, each⟩, ⟨also, all⟩
  | .set _, ⟨own, each⟩, ⟨also, all⟩ => ⟨imp _ own also, each.both imp all⟩
  | .map _, ⟨own, each⟩, ⟨also, all⟩ => ⟨imp _ own also, each.both imp all⟩
  | .null, own, also | .bool _, own, also | .int _, own, also | .float _, own, also
  | .str _, own, also | .bytes _, own, also | .date _, own, also | .datetime _, own, also
  | .loop _, own, also => imp _ own also
theorem EveryItem.both (imp : ∀ v, p v → q v → r v) :
    ∀ {items : List Value}, EveryItem p items → EveryItem q items → EveryItem r items
  | [], _, _ => trivial
  | _ :: _, ⟨first, rest⟩, ⟨also, all⟩ => ⟨first.both imp also, rest.both imp all⟩
theorem EveryEntry.both (imp : ∀ v, p v → q v → r v) :
    ∀ {entries : List (Value × Value)}, EveryEntry p entries → EveryEntry q entries →
      EveryEntry r entries
  | [], _, _ => trivial
  | (_, _) :: _, ⟨⟨key, value⟩, rest⟩, ⟨⟨name, content⟩, all⟩ =>
    ⟨⟨key.both imp name, value.both imp content⟩, rest.both imp all⟩
end

def Has (p : Value → Prop) (v : Value) : Prop := ¬ Every (fun w => ¬ p w) v

theorem Has.exists_of_every (has : Has p v) (every : Every q v) (also : Every r v) :
    ∃ w, p w ∧ q w ∧ r w := by
  by_contra none
  exact has (every.both (fun w own other fails => none ⟨w, fails, own, other⟩) also)

theorem insert_forall {q : Value × Value → Prop} (every : ∀ e ∈ entries, q e)
    (new : q (key, value)) (known : ∀ k, (∃ v, q (k, v)) → q (k, value)) :
    ∀ e ∈ insert key value entries, q e := by
  induction entries with
  | nil => simpa [insert] using new
  | cons e entries ih =>
    obtain ⟨own, every⟩ := List.forall_mem_cons.mp every
    rw [insert]
    split
    · exact List.forall_mem_cons.mpr ⟨known _ ⟨_, own⟩, every⟩
    · exact List.forall_mem_cons.mpr ⟨own, ih every⟩

/-- A mapping holds no keys and values but those that were put into it. -/
theorem every_ofPairs (every : ∀ e ∈ pairs, Every p e.1 ∧ Every p e.2) :
    ∀ e ∈ ofPairs pairs, Every p e.1 ∧ Every p e.2 := by
  suffices ∀ entries : List (Value × Value), (∀ e ∈ entries, Every p e.1 ∧ Every p e.2) →
      ∀ e ∈ pairs.foldl (fun entries p => insert p.1 p.2 entries) entries,
        Every p e.1 ∧ Every p e.2 from
    this [] nofun
  induction pairs with
  | nil => exact fun _ known => known
  | cons e pairs ih =>
    obtain ⟨own, every⟩ := List.forall_mem_cons.mp every
    exact fun entries known =>
      ih every _ (insert_forall known own fun _ ⟨_, other⟩ => ⟨other.1, own.2⟩)

/-- Null, truth values, numbers, text, lists and mappings, and references to those around. -/
def IsData : Value → Prop
  | .bytes _ | .date _ | .datetime _ | .tuple _ | .set _ => False
  | _ => True

/-- No reference back to a container around. -/
def IsTree : Value → Prop
  | .loop _ => False
  | _ => True

def HasTextKeys : Value → Prop
  | .map entries => TextKeys entries
  | _ => True

/-- An integer has no more decimal digits than are written out. -/
def IsShort : Value → Prop
  | .int n => n.natAbs < 10 ^ Number.maxDigits
  | _ => True

theorem isOversized_int {n : Int} (short : IsShort (.int n)) :
    (Value.int n).isOversized = false := by
  change decide (10 ^ Number.maxDigits ≤ n.natAbs) = false
  exact decide_eq_false (Nat.not_le_of_lt short)

structure IsWritable (v : Value) : Prop where
  data : v.IsData
  tree : v.IsTree
  keys : v.HasTextKeys
  short : v.IsShort

/-- What a plain tree of text keys and short integers has in all its parts. -/
theorem every_isWritable (data : Every IsData v) (tree : Every IsTree v) (keys : Every HasTextKeys v)
    (short : Every IsShort v) : Every IsWritable v := by
  have own : IsWritable v := ⟨data.own, tree.own, keys.own, short.own⟩
  induction v using nested with
  | leaf v leaf => exact leaf.every_iff.mpr own
  | list items ih =>
    rw [every_list_iff] at data tree keys short ⊢
    refine ⟨own, fun v mem => ?_⟩
    have data := data.2 v mem
    have tree := tree.2 v mem
    have keys := keys.2 v mem
    have short := short.2 v mem
    exact ih v mem data tree keys short ⟨data.own, tree.own, keys.own, short.own⟩
  | tuple items ih => exact own.data.elim
  | map entries ih =>
    rw [every_map_iff] at data tree keys short ⊢
    refine ⟨own, fun e mem => ?_⟩
    obtain ⟨s, text⟩ := own.keys e mem
    refine ⟨text ▸ ⟨trivial, trivial, trivial, trivial⟩, ?_⟩
    have data := (data.2 e mem).2
    have tree := (tree.2 e mem).2
    have keys := (keys.2 e mem).2
    have short := (short.2 e mem).2
    exact ih e mem data tree keys short ⟨data.own, tree.own, keys.own, short.own⟩
  | set items => exact own.data.elim

end OverlayBuild.Value

import Mathlib.Data.List.Pairwise
import OverlayBuild.Yaml.Document

/-! The nodes that a document holds. What aliases name is among them, and where the numbers of a
document rise in the order of its text, no two of its nodes have the same. -/
namespace OverlayBuild.Yaml

/-- Numbers that go up, from the first bound on and below the second. -/
structure Rising (low high : Nat) (numbers : List Nat) : Prop where
  ordered : numbers.Pairwise (· < ·)
  within : ∀ k ∈ numbers, low ≤ k ∧ k < high

namespace Rising

variable {low middle high k : Nat} {numbers others : List Nat}

theorem nil : Rising low high [] := ⟨.nil, nofun⟩

theorem append (first : Rising low middle numbers) (second : Rising middle high others)
    (below : low ≤ middle) (above : middle ≤ high) : Rising low high (numbers ++ others) := by
  refine ⟨List.pairwise_append.mpr ⟨first.ordered, second.ordered, fun j mem k later => ?_⟩,
    List.forall_mem_append.mpr ⟨fun k mem => ?_, fun k mem => ?_⟩⟩
  · exact Nat.lt_of_lt_of_le (first.within j mem).2 (second.within k later).1
  · exact ⟨(first.within k mem).1, Nat.lt_of_lt_of_le (first.within k mem).2 above⟩
  · exact ⟨Nat.le_trans below (second.within k mem).1, (second.within k mem).2⟩

theorem cons (own : low ≤ k) (above : k < high) (later : Rising (k + 1) high numbers) :
    Rising low high (k :: numbers) := by
  refine ⟨List.pairwise_cons.mpr ⟨fun j mem => (later.within j mem).1, later.ordered⟩,
    List.forall_mem_cons.mpr ⟨⟨own, above⟩, fun j mem => ?_⟩⟩
  obtain ⟨first, last⟩ := later.within j mem
  exact ⟨Nat.le_trans own (Nat.le_trans (Nat.le_succ k) first), last⟩

end Rising

namespace Node

variable {a b : Node} {head : Head} {items : List Node} {pairs : List (Node × Node)} {name : String}

theorem self_mem_parts (n : Node) : n ∈ n.parts := by
  cases n <;> simp [parts]

theorem partsAll_eq_flatMap : partsAll items = items.flatMap parts := by
  induction items with
  | nil => rfl
  | cons n items ih => simp [partsAll, ih]

theorem partsPairs_eq_flatMap : partsPairs pairs = pairs.flatMap fun p => p.1.parts ++ p.2.parts := by
  induction pairs with
  | nil => rfl
  | cons p pairs ih => simp [partsPairs, ih]

mutual
/-- The parts of a part are parts. -/
theorem mem_parts_trans (inside : a ∈ b.parts) : ∀ n : Node, b ∈ n.parts → a ∈ n.parts
  | .scalar head text, mem => List.mem_singleton.mp mem ▸ inside
  | .sequence head items, mem => by
    rcases List.mem_cons.mp mem with rfl | mem
    · exact inside
    · exact List.mem_cons_of_mem _ (mem_partsAll_trans inside items mem)
  | .mapping head pairs, mem => by
    rcases List.mem_cons.mp mem with rfl | mem
    · exact inside
    · exact List.mem_cons_of_mem _ (mem_partsPairs_trans inside pairs mem)
  | .alias name, mem => List.mem_singleton.mp mem ▸ inside
theorem mem_partsAll_trans (inside : a ∈ b.parts) : ∀ ns : List Node, b ∈ partsAll ns → a ∈ partsAll ns
  | n :: ns, mem => List.mem_append.mpr
    ((List.mem_append.mp mem).imp (mem_parts_trans inside n) (mem_partsAll_trans inside ns))
theorem mem_partsPairs_trans (inside : a ∈ b.parts) :
    ∀ ps : List (Node × Node), b ∈ partsPairs ps → a ∈ partsPairs ps
  | (k, v) :: ps, mem => List.mem_append.mpr ((List.mem_append.mp mem).imp
    (fun mem => List.mem_append.mpr
      ((List.mem_append.mp mem).imp (mem_parts_trans inside k) (mem_parts_trans inside v)))
    (mem_partsPairs_trans inside ps))
end

theorem item_mem_parts (mem : a ∈ items) : a ∈ (Node.sequence head items).parts := by
  rw [parts, partsAll_eq_flatMap]
  exact List.mem_cons_of_mem _ (List.mem_flatMap.mpr ⟨a, mem, self_mem_parts a⟩)

theorem pair_mem_parts {p : Node × Node} (mem : p ∈ pairs) :
    p.1 ∈ (Node.mapping head pairs).parts ∧ p.2 ∈ (Node.mapping head pairs).parts := by
  rw [parts, partsPairs_eq_flatMap]
  refine ⟨List.mem_cons_of_mem _ (List.mem_flatMap.mpr ⟨p, mem, ?_⟩),
    List.mem_cons_of_mem _ (List.mem_flatMap.mpr ⟨p, mem, ?_⟩)⟩
  · exact List.mem_append_left _ (self_mem_parts p.1)
  · exact List.mem_append_right _ (self_mem_parts p.2)

theorem eq_of_mem_anchor {anchor : Option String} {n : Node} {p : String × Node}
    (mem : p ∈ (anchor.map (·, n)).toList) : p.2 = n := by
  obtain ⟨_, -, rfl⟩ := Option.map_eq_some_iff.mp (Option.mem_toList.mp mem)
  rfl

mutual
/-- What aliases may name are parts. -/
theorem anchored_mem_parts : ∀ n : Node, ∀ p ∈ n.anchored, p.2 ∈ n.parts
  | .scalar _ _, _, mem => eq_of_mem_anchor mem ▸ self_mem_parts _
  | .sequence _ items, p, mem => (List.mem_append.mp mem).elim
    (fun own => eq_of_mem_anchor own ▸ self_mem_parts _)
    fun inner => List.mem_cons_of_mem _ (anchoredAll_mem_partsAll items p inner)
  | .mapping _ pairs, p, mem => (List.mem_append.mp mem).elim
    (fun own => eq_of_mem_anchor own ▸ self_mem_parts _)
    fun inner => List.mem_cons_of_mem _ (anchoredPairs_mem_partsPairs pairs p inner)
theorem anchoredAll_mem_partsAll : ∀ ns : List Node, ∀ p ∈ anchoredAll ns, p.2 ∈ partsAll ns
  | n :: ns, p, mem => List.mem_append.mpr ((List.mem_append.mp mem).imp
    (anchored_mem_parts n p) (anchoredAll_mem_partsAll ns p))
theorem anchoredPairs_mem_partsPairs :
    ∀ ps : List (Node × Node), ∀ p ∈ anchoredPairs ps, p.2 ∈ partsPairs ps
  | (k, v) :: ps, p, mem => List.mem_append.mpr ((List.mem_append.mp mem).imp
    (fun mem => List.mem_append.mpr ((List.mem_append.mp mem).imp
      (anchored_mem_parts k p) (anchored_mem_parts v p)))
    (anchoredPairs_mem_partsPairs ps p))
end

/-! The numbers of nodes. -/

def number? (n : Node) : Option Nat := n.head?.map (·.number)

def numbers (n : Node) : List Nat := n.parts.filterMap number?

@[simp] theorem numbers_scalar {text : String} : (Node.scalar head text).numbers = [head.number] := rfl

@[simp] theorem numbers_alias : (Node.alias name).numbers = [] := rfl

@[simp] theorem numbers_sequence :
    (Node.sequence head items).numbers = head.number :: items.flatMap numbers := by
  rw [numbers, parts, partsAll_eq_flatMap, List.filterMap_cons, List.filterMap_flatMap]
  rfl

@[simp] theorem numbers_mapping :
    (Node.mapping head pairs).numbers =
      head.number :: pairs.flatMap fun p => p.1.numbers ++ p.2.numbers := by
  rw [numbers, parts, partsPairs_eq_flatMap, List.filterMap_cons, List.filterMap_flatMap]
  simp only [List.filterMap_append]
  rfl

theorem number_mem_numbers {n : Node} {k : Nat} (part : a ∈ n.parts) (own : a.number? = some k) :
    k ∈ n.numbers :=
  List.mem_filterMap.mpr ⟨a, part, own⟩

/-- Parts with the same number are the same. -/
theorem eq_of_number {n : Node} {k : Nat} (distinct : n.numbers.Nodup) (first : a ∈ n.parts)
    (second : b ∈ n.parts) (own : a.number? = some k) (same : b.number? = some k) : a = b := by
  let Alike (a b : Node) : Prop := ∀ j, a.number? = some j → b.number? = some j → a = b
  have : Std.Symm Alike := ⟨fun _ _ alike j left right => (alike j right left).symm⟩
  have each : n.parts.Pairwise Alike := (List.pairwise_filterMap.mp distinct).imp
    fun differ j left right => absurd rfl (differ j left j right)
  exact each.forall_of_forall (fun _ _ _ _ _ => rfl) first second k own same

end Node

namespace Document

variable {d : Document} {n : Node} {head : Node.Head} {items : List Node}
  {pairs : List (Node × Node)}

def Closed (d : Document) : Prop := ∀ p ∈ d.anchors, p.2 ∈ d.root.parts

theorem ofRoot_closed (root : Node) (count : Nat) : (ofRoot root count).Closed :=
  Node.anchored_mem_parts root

theorem Closed.follow (closed : d.Closed) (part : n ∈ d.root.parts) : d.follow n ∈ d.root.parts := by
  cases n with
  | scalar head text | sequence head items | mapping head pairs => exact part
  | «alias» name =>
    rw [Document.follow]
    cases found : d.anchors.lookup name with
    | none => exact part
    | some n =>
      obtain ⟨_, _, split, -⟩ := List.lookup_eq_some_iff.mp found
      exact closed (name, n) (by simp [split])

def PairsWithin (d : Document) (pairs : List (Node × Node)) : Prop :=
  ∀ p ∈ pairs, p.1 ∈ d.root.parts ∧ p.2 ∈ d.root.parts

theorem item_mem (part : .sequence head items ∈ d.root.parts) (mem : n ∈ items) :
    n ∈ d.root.parts :=
  Node.mem_parts_trans (Node.item_mem_parts mem) _ part

theorem pairsWithin_of_mem (part : .mapping head pairs ∈ d.root.parts) : d.PairsWithin pairs :=
  fun _ mem =>
    have ⟨key, value⟩ := Node.pair_mem_parts mem
    ⟨Node.mem_parts_trans key _ part, Node.mem_parts_trans value _ part⟩

/-- The numbers of nodes go up in the order of the text. -/
def Numbered (d : Document) : Prop := Rising 0 d.count d.root.numbers

theorem Numbered.lt {k : Nat} (numbered : d.Numbered) (part : n ∈ d.root.parts)
    (own : n.number? = some k) : k < d.count :=
  (numbered.within k (Node.number_mem_numbers part own)).2

theorem Numbered.eq {m : Node} {k : Nat} (numbered : d.Numbered) (first : n ∈ d.root.parts)
    (second : m ∈ d.root.parts) (own : n.number? = some k) (same : m.number? = some k) : n = m :=
  Node.eq_of_number (numbered.ordered.imp Nat.ne_of_lt) first second own same

end Document

end OverlayBuild.Yaml

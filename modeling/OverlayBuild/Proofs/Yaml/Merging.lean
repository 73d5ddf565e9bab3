import Mathlib.Algebra.Order.BigOperators.Group.List
import Mathlib.Algebra.Order.Ring.Nat
import Mathlib.Logic.Relation
import OverlayBuild.Proofs.Outcome
import OverlayBuild.Proofs.Yaml.Bare

/-! What merging makes of the mappings of a document, said without the state that it goes through.
A mapping that does not lead back to itself gets the pairs of what its merge keys name, in order,
and then its own. Each step takes a merge key out of a mapping, so the bound is never reached. -/
namespace OverlayBuild.Yaml

open Node

namespace Revision

variable {rev : Revision} {head : Head} {pairs ps : List (Node × Node)}

def held (rev : Revision) : Node → List (Node × Node)
  | .mapping head pairs => rev.pairsOf head pairs
  | _ => []

@[simp] theorem pairsOf_setPairs : (rev.setPairs head ps).pairsOf head pairs = ps := by
  simp [pairsOf, setPairs]

end Revision

namespace Document

variable {d : Document} {n m : Node} {head : Head} {items : List Node} {p : Node × Node}
  {pairs ps made given : List (Node × Node)}

def ownPairs (d : Document) (pairs : List (Node × Node)) : List (Node × Node) :=
  pairs.filter fun p => !d.isMergeKey p.1

def mergePairs (d : Document) (pairs : List (Node × Node)) : List (Node × Node) :=
  pairs.filter fun p => d.isMergeKey p.1

/-- The nodes that are merged where a merge key has this value: itself, or the items of a list. -/
def mergedBy (d : Document) : Node → List Node
  | .sequence _ items => items.map d.follow
  | n => [n]

def Takes (d : Document) (n m : Node) : Prop := ∃ p ∈ d.mergePairs n.pairs, m ∈ d.mergedBy (d.follow p.2)

def Reaches (d : Document) : Node → Node → Prop := Relation.ReflTransGen d.Takes

/-- Merging the node leads back to it. -/
def MergesItself (d : Document) (n : Node) : Prop := Relation.TransGen d.Takes n n

/-- A pair of its own of a mapping that merging the node leads to. -/
def Gathers (d : Document) (n : Node) (p : Node × Node) : Prop :=
  ∃ m, d.Reaches n m ∧ p ∈ d.ownPairs m.pairs

/-- The pairs that a node gives when it is merged, or that a mapping has after merging. For a
mapping that leads back to itself the order of what it gathers is left open. -/
inductive Merges (d : Document) : Node → List (Node × Node) → Prop
  | mapping {head : Head} {pairs : List (Node × Node)} {parts : List (List (Node × Node))}
    (apart : ¬d.MergesItself (.mapping head pairs))
    (length : (d.mergePairs pairs).length = parts.length)
    (each : ∀ {p : Node × Node} {part : List (Node × Node)},
      (p, part) ∈ (d.mergePairs pairs).zip parts → Merges d (d.follow p.2) part) :
    Merges d (.mapping head pairs) (parts.flatten ++ d.ownPairs pairs)
  | itself {head : Head} {pairs front : List (Node × Node)}
    (again : d.MergesItself (.mapping head pairs))
    (gathered : ∀ p ∈ front, d.Gathers (.mapping head pairs) p) :
    Merges d (.mapping head pairs) (front ++ d.ownPairs pairs)
  | list {head : Head} {items : List Node} {parts : List (List (Node × Node))}
    (fits : ∀ item ∈ items, (d.follow item).kind = .mapping) (length : items.length = parts.length)
    (each : ∀ {item : Node} {part : List (Node × Node)}, (item, part) ∈ items.zip parts →
      Merges d (d.follow item) part) :
    Merges d (.sequence head items) parts.reverse.flatten

theorem isMergeKey_of_mem_ownPairs (mem : p ∈ d.ownPairs pairs) : d.isMergeKey p.1 = false :=
  (Bool.not_eq_true' _).mp (List.mem_filter.mp mem).2

theorem Gathers.isMergeKey (gathers : d.Gathers n p) : d.isMergeKey p.1 = false :=
  have ⟨_, _, own⟩ := gathers
  isMergeKey_of_mem_ownPairs own

theorem Gathers.of_takes (takes : d.Takes n m) (gathers : d.Gathers m p) : d.Gathers n p :=
  have ⟨far, reached, own⟩ := gathers
  ⟨far, .head takes reached, own⟩

theorem gathers_own (own : p ∈ d.ownPairs n.pairs) : d.Gathers n p := ⟨n, .refl, own⟩

/-- All pairs that merging gives are gathered. -/
theorem Merges.gathers (merges : d.Merges n made) : ∀ p ∈ made, ∃ m ∈ d.mergedBy n, d.Gathers m p := by
  induction merges with
  | @mapping head pairs parts _ length _ ih =>
    refine fun p mem => ⟨.mapping head pairs, List.mem_singleton_self _, ?_⟩
    rcases List.mem_append.mp mem with merged | own
    · obtain ⟨part, among, inside⟩ := List.mem_flatten.mp merged
      obtain ⟨key, among, paired⟩ := exists_mem_zip length among
      obtain ⟨m, named, gathers⟩ := ih paired p inside
      exact .of_takes ⟨key, among, named⟩ gathers
    · exact gathers_own own
  | @itself head pairs front _ gathered =>
    refine fun p mem => ⟨.mapping head pairs, List.mem_singleton_self _, ?_⟩
    exact (List.mem_append.mp mem).elim (gathered p) fun own => gathers_own own
  | list fits length _ ih =>
    intro p mem
    obtain ⟨part, among, inside⟩ := List.mem_flatten.mp mem
    obtain ⟨item, among, paired⟩ := exists_mem_zip length (List.mem_reverse.mp among)
    obtain ⟨m, named, gathers⟩ := ih paired p inside
    have mapping := fits item among
    cases found : d.follow item with
    | mapping head pairs =>
      rw [found] at named
      obtain rfl := List.mem_singleton.mp named
      exact ⟨_, List.mem_map.mpr ⟨item, among, found⟩, gathers⟩
    | scalar head text | sequence head items | «alias» name =>
      rw [found] at mapping
      contradiction

theorem find?_mergeKey_eq_none (each : ∀ p ∈ ps, d.isMergeKey p.1 = false) :
    (ps.find? fun p => d.isMergeKey p.1) = none :=
  List.find?_eq_none.mpr fun p mem => ne_true_of_eq_false (each p mem)

theorem Merges.find?_eq_none (merges : d.Merges n made) :
    (made.find? fun p => d.isMergeKey p.1) = none :=
  find?_mergeKey_eq_none fun p mem =>
    have ⟨_, _, gathers⟩ := merges.gathers p mem
    gathers.isMergeKey

/-! Parts of the document. -/

theorem mem_mergedBy (closed : d.Closed) (part : n ∈ d.root.parts) (mem : m ∈ d.mergedBy n) :
    m ∈ d.root.parts := by
  cases n with
  | sequence head items =>
    obtain ⟨item, among, rfl⟩ := List.mem_map.mp mem
    exact closed.follow (item_mem part among)
  | mapping head pairs | scalar head text | «alias» name => exact List.mem_singleton.mp mem ▸ part

theorem pairs_within (part : n ∈ d.root.parts) : d.PairsWithin n.pairs := by
  cases n with
  | mapping head pairs => exact pairsWithin_of_mem part
  | scalar head text | sequence head items | «alias» name => exact nofun

theorem Takes.part (takes : d.Takes n m) (closed : d.Closed) (part : n ∈ d.root.parts) :
    m ∈ d.root.parts :=
  have ⟨_, among, named⟩ := takes
  mem_mergedBy closed (closed.follow (pairs_within part _ (List.mem_of_mem_filter among)).2) named

theorem Gathers.within (gathers : d.Gathers n p) (closed : d.Closed) (part : n ∈ d.root.parts) :
    p.1 ∈ d.root.parts ∧ p.2 ∈ d.root.parts := by
  obtain ⟨m, reached, own⟩ := gathers
  have far : m ∈ d.root.parts := by
    clear own
    induction reached with
    | refl => exact part
    | tail _ takes ih => exact takes.part closed ih
  exact pairs_within far p (List.mem_of_mem_filter own)

theorem Merges.within (merges : d.Merges n made) (closed : d.Closed) (part : n ∈ d.root.parts) :
    d.PairsWithin made := fun p mem =>
  have ⟨_, named, gathers⟩ := merges.gathers p mem
  gathers.within closed (mem_mergedBy closed part named)

/-! What mappings hold in the midst of merging. -/

variable {rev next last : Revision} {inside named : List Node}

theorem held_setPairs_of_ne (numbered : d.Numbered) (part : .mapping head pairs ∈ d.root.parts)
    (other : m ∈ d.root.parts) (differ : m ≠ .mapping head pairs) :
    (rev.setPairs head ps).held m = rev.held m := by
  cases m with
  | mapping far held =>
    have apart : far.number ≠ head.number := fun same =>
      differ (numbered.eq other part (congrArg some same) rfl)
    simp [Revision.held, Revision.pairsOf, Revision.setPairs, List.lookup_cons, beq_false_of_ne apart]
  | scalar head text | sequence head items | «alias» name => rfl

/-- What a mapping holds while its merge keys are taken out: what others have put in front, and
those of its pairs that are left. -/
def Underway (d : Document) (n : Node) (held : List (Node × Node)) : Prop :=
  ∃ front rest, held = front ++ rest ∧ rest ⊆ n.pairs ∧ d.ownPairs rest = d.ownPairs n.pairs ∧
    ∀ p ∈ front, d.Gathers n p

/-- What stands while the nodes inside are merged: the mappings among them are underway, and the
others are as they were written or merged. -/
structure Standing (d : Document) (inside : List Node) (rev : Revision) : Prop where
  texts : rev.texts = []
  scalars : rev.scalars = []
  underway : ∀ n ∈ d.root.parts, n ∈ inside → d.Underway n (rev.held n)
  others : ∀ n ∈ d.root.parts, n ∉ inside → rev.held n = n.pairs ∨ d.Merges n (rev.held n)

def keysLeft (d : Document) (rev : Revision) : Nat :=
  (d.root.parts.map fun n => (d.mergePairs (rev.held n)).length).sum

/-- A step that merges some nodes: what it gives, and what it does to the mappings. -/
structure Gives (d : Document) (inside named : List Node) (rev next : Revision)
    (given : List (Node × Node)) : Prop where
  standing : d.Standing inside next
  gathered : ∀ p ∈ given, ∃ m ∈ named, d.Gathers m p
  /-- Mappings that are not reached stay as they are. -/
  frame : ∀ n ∈ d.root.parts, (∀ m ∈ named, ¬d.Reaches m n) → next.held n = rev.held n
  fewer : d.keysLeft next ≤ d.keysLeft rev

theorem Gives.trans {others : List Node} {more : List (Node × Node)}
    (first : d.Gives inside named rev next given) (second : d.Gives inside others next last more) :
    d.Gives inside (named ++ others) rev last (more ++ given) where
  standing := second.standing
  gathered p mem := by
    rcases List.mem_append.mp mem with mem | mem
    · obtain ⟨m, named, gathers⟩ := second.gathered p mem
      exact ⟨m, List.mem_append_right _ named, gathers⟩
    · obtain ⟨m, named, gathers⟩ := first.gathered p mem
      exact ⟨m, List.mem_append_left _ named, gathers⟩
  frame n part apart := by
    obtain ⟨left, right⟩ := List.forall_mem_append.mp apart
    exact (second.frame n part right).trans (first.frame n part left)
  fewer := second.fewer.trans first.fewer

/-! How many merge keys are left after a mapping was changed. -/

theorem keysLeft_setPairs_le (numbered : d.Numbered) (part : .mapping head pairs ∈ d.root.parts)
    (le : (d.mergePairs ps).length ≤ (d.mergePairs (rev.pairsOf head pairs)).length) :
    d.keysLeft (rev.setPairs head ps) ≤ d.keysLeft rev := by
  refine List.sum_le_sum fun n mem => ?_
  by_cases same : n = .mapping head pairs
  · subst same
    simpa [Revision.held] using le
  · rw [held_setPairs_of_ne numbered part mem same]

theorem keysLeft_setPairs_lt (numbered : d.Numbered) (part : .mapping head pairs ∈ d.root.parts)
    (lt : (d.mergePairs ps).length < (d.mergePairs (rev.pairsOf head pairs)).length) :
    d.keysLeft (rev.setPairs head ps) < d.keysLeft rev := by
  refine List.sum_lt_sum _ _ (fun n mem => ?_) ⟨.mapping head pairs, part, ?_⟩
  · by_cases same : n = .mapping head pairs
    · subst same
      simpa [Revision.held] using le_of_lt lt
    · rw [held_setPairs_of_ne numbered part mem same]
  · simpa [Revision.held] using lt

/-! Taking a merge key out. -/

theorem filter_eraseP {α : Type} (f : α → Bool) (as : List α) :
    ((as.eraseP f).filter fun a => !f a) = as.filter fun a => !f a := by
  induction as with
  | nil => rfl
  | cons a as ih => cases own : f a <;> simp [own, ih]

theorem filter_of_find? {α : Type} {f : α → Bool} {as : List α} {a : α}
    (found : as.find? f = some a) : as.filter f = a :: (as.eraseP f).filter f := by
  induction as with
  | nil => contradiction
  | cons b as ih =>
    cases own : f b with
    | true =>
      rw [List.find?_cons_of_pos own] at found
      obtain rfl := Option.some.inj found
      simp [own]
    | false =>
      rw [List.find?_cons_of_neg (ne_true_of_eq_false own)] at found
      simp [own, ih found]

theorem ownPairs_eq_self (each : ∀ p ∈ ps, d.isMergeKey p.1 = false) : d.ownPairs ps = ps :=
  List.filter_eq_self.mpr fun p mem => (Bool.not_eq_true' _).mpr (each p mem)

theorem mergePairs_eq_nil (each : ∀ p ∈ ps, d.isMergeKey p.1 = false) : d.mergePairs ps = [] :=
  List.filter_eq_nil_iff.mpr fun p mem => ne_true_of_eq_false (each p mem)

/-- A merge key that is left is one of those that were written. -/
theorem Underway.mem_mergePairs (underway : d.Underway n ps) (mem : p ∈ ps)
    (key : d.isMergeKey p.1 = true) : p ∈ d.mergePairs n.pairs := by
  obtain ⟨front, rest, rfl, among, -, gathered⟩ := underway
  rcases List.mem_append.mp mem with mem | mem
  · exact absurd ((gathered p mem).isMergeKey.symm.trans key) nofun
  · exact List.mem_filter.mpr ⟨among mem, key⟩

theorem Underway.eraseP (underway : d.Underway n ps) :
    d.Underway n (ps.eraseP fun p => d.isMergeKey p.1) := by
  obtain ⟨front, rest, rfl, among, own, gathered⟩ := underway
  refine ⟨front, rest.eraseP fun p => d.isMergeKey p.1, ?_, ?_, ?_, gathered⟩
  · exact List.eraseP_append_right _ fun p mem => ne_true_of_eq_false (gathered p mem).isMergeKey
  · exact fun p mem => among (List.mem_of_mem_eraseP mem)
  · exact (filter_eraseP _ _).trans own

theorem Underway.append (underway : d.Underway n ps) (gathered : ∀ p ∈ given, d.Gathers n p) :
    d.Underway n (given ++ ps) := by
  obtain ⟨front, rest, rfl, among, own, before⟩ := underway
  exact ⟨given ++ front, rest, (List.append_assoc _ _ _).symm, among, own,
    List.forall_mem_append.mpr ⟨gathered, before⟩⟩

/-- What a mapping holds once its merge keys are out. -/
theorem Underway.split (underway : d.Underway n ps) (out : ∀ p ∈ ps, d.isMergeKey p.1 = false) :
    ∃ front, ps = front ++ d.ownPairs n.pairs ∧ ∀ p ∈ front, d.Gathers n p := by
  obtain ⟨front, rest, rfl, -, own, gathered⟩ := underway
  refine ⟨front, ?_, gathered⟩
  rw [← own, ownPairs_eq_self (List.forall_mem_append.mp out).2]

theorem Underway.gathers (underway : d.Underway n ps) (out : ∀ p ∈ ps, d.isMergeKey p.1 = false) :
    ∀ p ∈ ps, d.Gathers n p := by
  obtain ⟨front, rfl, gathered⟩ := underway.split out
  exact List.forall_mem_append.mpr ⟨gathered, fun p own => gathers_own own⟩

/-! Documents as they are read where no tags are written. -/

structure Regular (d : Document) : Prop where
  bare : d.Bare
  closed : d.Closed
  numbered : d.Numbered

theorem Standing.tag (standing : d.Standing inside rev) (n : Node) : rev.tag n = n.tag := by
  simp [Revision.tag, standing.texts]

theorem Standing.within (standing : d.Standing inside rev) (regular : d.Regular)
    (part : n ∈ d.root.parts) : d.PairsWithin (rev.held n) := by
  by_cases mem : n ∈ inside
  · obtain ⟨front, rest, split, among, -, gathered⟩ := standing.underway n part mem
    rw [split]
    exact List.forall_mem_append.mpr ⟨fun p mem => (gathered p mem).within regular.closed part,
      fun p mem => pairs_within part p (among mem)⟩
  · rcases standing.others n part mem with same | merges
    · exact same ▸ pairs_within part
    · exact merges.within regular.closed part

/-- There are no equals signs to become text. -/
theorem Standing.retag (standing : d.Standing inside rev) (regular : d.Regular)
    (part : .mapping head pairs ∈ d.root.parts) : d.retag rev (rev.pairsOf head pairs) = rev := by
  have none : ((rev.pairsOf head pairs).filterMap fun p =>
      let key := d.follow p.1
      if rev.tag key = Tag.value then key.head?.map (·.number) else none) = [] := by
    refine List.filterMap_eq_nil_iff.mpr fun p mem => if_neg ?_
    rw [standing.tag]
    have within := standing.within regular part p mem
    exact (regular.bare _ (regular.closed.follow within.1)).tag_ne_value
  rw [Document.retag, none]
  rfl

theorem Standing.setPairs (standing : d.Standing inside rev) (regular : d.Regular)
    (part : .mapping head pairs ∈ d.root.parts) (mem : .mapping head pairs ∈ inside)
    (underway : d.Underway (.mapping head pairs) ps) :
    d.Standing inside (rev.setPairs head ps) where
  texts := standing.texts
  scalars := standing.scalars
  underway n own inside := by
    by_cases same : n = .mapping head pairs
    · subst same
      simpa [Revision.held] using underway
    · rw [held_setPairs_of_ne regular.numbered part own same]
      exact standing.underway n own inside
  others n own outside := by
    have differ : n ≠ .mapping head pairs := fun same => outside (same ▸ mem)
    rw [held_setPairs_of_ne regular.numbered part own differ]
    exact standing.others n own outside

/-! What the steps of merging give. -/

theorem Gives.nothing (standing : d.Standing inside rev) : d.Gives inside [] rev rev [] :=
  ⟨standing, nofun, fun _ _ _ => rfl, Nat.le_refl _⟩

/-- A way to merge a mapping that does it as it should, inside others and with so few merge keys
left. -/
def Sound (d : Document) (inside : List Node) (fuel : Nat)
    (merged : Revision → Head → List (Node × Node) → Except Failure (Revision × List (Node × Node)))
    (n : Node) : Prop :=
  ∀ {head : Head} {pairs : List (Node × Node)} {rev next : Revision} {part : List (Node × Node)},
    n = .mapping head pairs → d.Standing inside rev → d.keysLeft rev < fuel →
    merged rev head pairs = .ok (next, part) →
    d.Gives inside [n] rev next part ∧ (n ∉ inside → d.Merges n part)

variable {merged : Revision → Head → List (Node × Node) → Except Failure (Revision × List (Node × Node))}
  {fuel : Nat} {start : Mark} {part : List (Node × Node)}

/-- The items of a list are merged one after the other, and what each gives goes to the front. -/
theorem mergeItems_gives (sound : ∀ item ∈ items, d.Sound inside fuel merged (d.follow item))
    (standing : d.Standing inside rev) (few : d.keysLeft rev < fuel)
    (done : items.foldlM (d.mergeItem merged start) (rev, given) = .ok (next, made)) :
    ∃ parts, made = parts.reverse.flatten ++ given ∧
      d.Gives inside (items.map d.follow) rev next parts.reverse.flatten ∧
      List.Forall₂ (fun item part => (d.follow item).kind = .mapping ∧
        (d.follow item ∉ inside → d.Merges (d.follow item) part)) items parts := by
  induction items generalizing rev given with
  | nil =>
    obtain ⟨rfl, rfl⟩ := Prod.mk.inj (Except.ok.inj done)
    exact ⟨[], rfl, .nothing standing, .nil⟩
  | cons item items ih =>
    obtain ⟨own, later⟩ := List.forall_mem_cons.mp sound
    obtain ⟨middle, first, done⟩ := bind_eq_ok_iff.mp (List.foldlM_cons.symm.trans done)
    rw [mergeItem] at first
    cases found : d.follow item with
    | mapping head pairs =>
      simp only [found] at first
      obtain ⟨⟨between, part⟩, alone, same⟩ := bind_eq_ok_iff.mp first
      obtain rfl := Except.ok.inj same
      obtain ⟨gives, merges⟩ := own found standing few alone
      obtain ⟨parts, rfl, rest, each⟩ :=
        ih later gives.standing (Nat.lt_of_le_of_lt gives.fewer few) done
      refine ⟨part :: parts, by simp, ?_, .cons ⟨by rw [found]; rfl, merges⟩ each⟩
      simpa using gives.trans rest
    | scalar head text | sequence head items | «alias» name =>
      simp only [found] at first
      contradiction

theorem mergeValue_gives (sound : ∀ m ∈ d.mergedBy n, d.Sound inside fuel merged m)
    (standing : d.Standing inside rev) (few : d.keysLeft rev < fuel)
    (done : d.mergeValue merged rev start n = .ok (next, made)) :
    d.Gives inside (d.mergedBy n) rev next made ∧
      ((∀ m ∈ d.mergedBy n, m ∉ inside) → d.Merges n made) := by
  cases n with
  | mapping head pairs =>
    rw [mergeValue] at done
    obtain ⟨gives, merges⟩ := sound _ (List.mem_singleton_self _) rfl standing few done
    exact ⟨gives, fun outside => merges (outside _ (List.mem_singleton_self _))⟩
  | sequence head items =>
    obtain ⟨parts, rfl, gives, each⟩ :=
      mergeItems_gives (fun item mem => sound _ (List.mem_map_of_mem mem)) standing few done
    rw [List.append_nil]
    refine ⟨gives, fun outside => .list (fun item mem => ?_) each.length_eq fun mem => ?_⟩
    · obtain ⟨part, -, own, -⟩ := exists_left each.flip mem
      exact own
    · exact (List.forall₂_zip each mem).2 (outside _ (List.mem_map_of_mem (List.of_mem_zip mem).1))
  | scalar head text => exact absurd done nofun
  | «alias» name => exact absurd done nofun

structure Ends (d : Document) (inside : List Node) (head : Head) (pairs : List (Node × Node))
    (rev : Revision) (given : List (Node × Node)) (next : Revision) (made : List (Node × Node)) :
    Prop where
  gives : d.Gives inside [.mapping head pairs] rev next made
  held : next.held (.mapping head pairs) = made
  /-- Where it does not lead back to itself, nobody else has touched it. -/
  apart : ¬d.MergesItself (.mapping head pairs) → ∃ parts,
    List.Forall₂ (fun p part => d.Merges (d.follow p.2) part)
      (d.mergePairs (rev.pairsOf head pairs)) parts ∧
    made = given ++ parts.flatten ++ d.ownPairs (rev.pairsOf head pairs)

/-- No merge keys are left. -/
theorem ends_of_out (regular : d.Regular) (part : .mapping head pairs ∈ d.root.parts)
    (mem : .mapping head pairs ∈ inside) (standing : d.Standing inside rev)
    (gathered : ∀ p ∈ given, d.Gathers (.mapping head pairs) p)
    (out : ∀ p ∈ rev.pairsOf head pairs, d.isMergeKey p.1 = false)
    (done : d.merge rev head pairs given (fuel + 1) = .ok (next, made)) :
    d.Ends inside head pairs rev given next made := by
  have underway : d.Underway (.mapping head pairs) (rev.pairsOf head pairs) :=
    standing.underway _ part mem
  rw [merge] at done
  simp only [find?_mergeKey_eq_none out, standing.retag regular part] at done
  obtain ⟨rfl, rfl⟩ := Prod.mk.inj (Except.ok.inj done)
  have apart : ¬d.MergesItself (.mapping head pairs) → ∃ parts,
      List.Forall₂ (fun p part => d.Merges (d.follow p.2) part)
        (d.mergePairs (rev.pairsOf head pairs)) parts ∧
      given ++ rev.pairsOf head pairs =
        given ++ parts.flatten ++ d.ownPairs (rev.pairsOf head pairs) := fun _ =>
    ⟨[], by rw [mergePairs_eq_nil out]; exact .nil, by simp [ownPairs_eq_self out]⟩
  have all : ∀ p ∈ given ++ rev.pairsOf head pairs, d.Gathers (.mapping head pairs) p :=
    List.forall_mem_append.mpr ⟨gathered, underway.gathers out⟩
  have named : ∀ p ∈ given ++ rev.pairsOf head pairs,
      ∃ m ∈ [Node.mapping head pairs], d.Gathers m p := fun p mem =>
    ⟨_, List.mem_singleton_self _, all p mem⟩
  cases given with
  | nil =>
    exact ⟨⟨standing, named, fun _ _ _ => rfl, Nat.le_refl _⟩, rfl, apart⟩
  | cons p given =>
    refine ⟨⟨standing.setPairs regular part mem (underway.append gathered), named, ?_, ?_⟩,
      Revision.pairsOf_setPairs, apart⟩
    · intro m own unreached
      refine held_setPairs_of_ne regular.numbered part own fun same => ?_
      exact unreached _ (List.mem_singleton_self _) (same ▸ .refl)
    · refine keysLeft_setPairs_le regular.numbered part ?_
      rw [mergePairs_eq_nil fun p mem => (all p mem).isMergeKey]
      exact Nat.zero_le _

/-- One step: a merge key is taken out and what it names is merged. -/
theorem ends_of_key (regular : d.Regular) (part : .mapping head pairs ∈ d.root.parts)
    (mem : .mapping head pairs ∈ inside)
    (around : ∀ m ∈ inside, d.Reaches m (.mapping head pairs)) (standing : d.Standing inside rev)
    (few : d.keysLeft rev < fuel + 1) (gathered : ∀ p ∈ given, d.Gathers (.mapping head pairs) p)
    (found : (rev.pairsOf head pairs).find? (fun p => d.isMergeKey p.1) = some p)
    (sound : ∀ n ∈ d.root.parts, (∀ m ∈ inside, d.Reaches m n) →
      d.Sound inside fuel (fun rev head pairs => d.merge rev head pairs [] fuel) n)
    (ih : ∀ {rev given next made}, d.Standing inside rev → d.keysLeft rev < fuel →
      (∀ p ∈ given, d.Gathers (.mapping head pairs) p) →
      d.merge rev head pairs given fuel = .ok (next, made) →
      d.Ends inside head pairs rev given next made)
    (done : d.merge rev head pairs given (fuel + 1) = .ok (next, made)) :
    d.Ends inside head pairs rev given next made := by
  have underway : d.Underway (.mapping head pairs) (rev.pairsOf head pairs) :=
    standing.underway _ part mem
  rw [merge] at done
  simp only [found] at done
  obtain ⟨⟨middle, front⟩, value, done⟩ := bind_eq_ok_iff.mp done
  have out : d.mergePairs (rev.pairsOf head pairs) = p ::
      d.mergePairs ((rev.pairsOf head pairs).eraseP fun p => d.isMergeKey p.1) :=
    filter_of_find? found
  have key := List.find?_some found
  have among := underway.mem_mergePairs (List.mem_of_find?_eq_some found) key
  have takes : ∀ m ∈ d.mergedBy (d.follow p.2), d.Takes (.mapping head pairs) m := fun m named =>
    ⟨p, among, named⟩
  have less : d.keysLeft (rev.setPairs head
      ((rev.pairsOf head pairs).eraseP fun p => d.isMergeKey p.1)) < d.keysLeft rev :=
    keysLeft_setPairs_lt regular.numbered part (by simp [out])
  obtain ⟨first, merges⟩ := mergeValue_gives
    (fun m named => sound m ((takes m named).part regular.closed part) fun k mem =>
      (around k mem).tail (takes m named))
    (standing.setPairs regular part mem underway.eraseP) (by omega) value
  have second := ih first.standing (by have := first.fewer; omega)
    (List.forall_mem_append.mpr ⟨gathered, fun p mem =>
      have ⟨m, named, gathers⟩ := first.gathered p mem
      gathers.of_takes (takes m named)⟩) done
  refine ⟨⟨second.gives.standing, second.gives.gathered, fun m own unreached => ?_, ?_⟩,
    second.held, fun apart => ?_⟩
  · have far := unreached _ (List.mem_singleton_self _)
    rw [second.gives.frame m own unreached,
      first.frame m own fun k named reaches => far (.head (takes k named) reaches),
      held_setPairs_of_ne regular.numbered part own fun same => far (same ▸ .refl)]
  · have fewer := first.fewer
    have rest := second.gives.fewer
    omega
  · have back : ∀ m ∈ d.mergedBy (d.follow p.2), ¬d.Reaches m (.mapping head pairs) :=
      fun m named reaches => apart (.head' (takes m named) reaches)
    have untouched := first.frame _ part back
    simp only [Revision.held, Revision.pairsOf_setPairs] at untouched
    obtain ⟨parts, each, rfl⟩ := second.apart apart
    rw [untouched] at each ⊢
    refine ⟨front :: parts, out ▸ .cons (merges fun m named mem => back m named (around m mem)) each,
      ?_⟩
    rw [show d.ownPairs (List.eraseP _ _) = _ from filter_eraseP _ _]
    simp [ownPairs]

/-- The merging of a mapping begins. -/
theorem Standing.enter (standing : d.Standing inside rev) (written : rev.held n = n.pairs) :
    d.Standing (n :: inside) rev where
  texts := standing.texts
  scalars := standing.scalars
  underway m part among := by
    rcases List.mem_cons.mp among with rfl | among
    · exact ⟨[], m.pairs, written, fun _ mem => mem, rfl, nofun⟩
    · exact standing.underway m part among
  others m part outside := standing.others m part fun mem => outside (List.mem_cons_of_mem _ mem)

theorem Standing.leave (standing : d.Standing (n :: inside) rev) (merges : d.Merges n (rev.held n)) :
    d.Standing inside rev where
  texts := standing.texts
  scalars := standing.scalars
  underway m part among := standing.underway m part (List.mem_cons_of_mem _ among)
  others m part outside := by
    by_cases same : m = n
    · exact .inr (same ▸ merges)
    · exact standing.others m part fun mem => (List.mem_cons.mp mem).elim same outside

/-- A mapping that began as it was written has been merged at the end. -/
theorem Ends.merges (ends : d.Ends inside head pairs rev [] next made)
    (part : .mapping head pairs ∈ d.root.parts) (mem : .mapping head pairs ∈ inside)
    (written : rev.pairsOf head pairs = pairs) : d.Merges (.mapping head pairs) made := by
  by_cases again : d.MergesItself (.mapping head pairs)
  · have out : ∀ p ∈ made, d.isMergeKey p.1 = false := fun p mem =>
      have ⟨_, _, gathers⟩ := ends.gives.gathered p mem
      gathers.isMergeKey
    have underway := ends.gives.standing.underway _ part mem
    rw [ends.held] at underway
    obtain ⟨front, rfl, gathered⟩ := underway.split out
    exact .itself again gathered
  · obtain ⟨parts, each, rfl⟩ := ends.apart again
    rw [written] at each ⊢
    exact .mapping again each.length_eq (List.forall₂_zip each)

/-- Merging a mapping is sound, whether it is in the midst of it already, has been merged or is as
it was written. -/
theorem sound_of_ends (regular : d.Regular)
    (ends : ∀ {inside head pairs rev next made}, .mapping head pairs ∈ d.root.parts →
      .mapping head pairs ∈ inside → (∀ m ∈ inside, d.Reaches m (.mapping head pairs)) →
      d.Standing inside rev → d.keysLeft rev < fuel →
      d.merge rev head pairs [] fuel = .ok (next, made) → d.Ends inside head pairs rev [] next made)
    (part : n ∈ d.root.parts) (around : ∀ m ∈ inside, d.Reaches m n) :
    d.Sound inside fuel (fun rev head pairs => d.merge rev head pairs [] fuel) n := by
  rintro head pairs rev next made rfl standing few done
  by_cases mem : .mapping head pairs ∈ inside
  · exact ⟨(ends part mem around standing few done).gives, fun outside => absurd mem outside⟩
  rcases standing.others _ part mem with written | merges
  · have ended := ends part List.mem_cons_self (List.forall_mem_cons.mpr ⟨.refl, around⟩)
      (standing.enter written) few done
    have merges := ended.merges part List.mem_cons_self written
    have gives := ended.gives
    have left := gives.standing.leave (ended.held.symm ▸ merges)
    exact ⟨⟨left, gives.gathered, gives.frame, gives.fewer⟩, fun _ => merges⟩
  · have out : (rev.pairsOf head pairs).find? (fun p => d.isMergeKey p.1) = none :=
      merges.find?_eq_none
    obtain ⟨fuel, rfl⟩ := Nat.exists_eq_succ_of_ne_zero (Nat.ne_zero_of_lt few)
    simp only [merge, out, standing.retag regular part, List.nil_append, List.isEmpty_nil, if_true]
      at done
    obtain ⟨rfl, rfl⟩ := Prod.mk.inj (Except.ok.inj done)
    exact ⟨⟨standing, merges.gathers, fun _ _ _ => rfl, Nat.le_refl _⟩, fun _ => merges⟩

theorem ends_of_merge (regular : d.Regular) (part : .mapping head pairs ∈ d.root.parts)
    (mem : .mapping head pairs ∈ inside)
    (around : ∀ m ∈ inside, d.Reaches m (.mapping head pairs)) (standing : d.Standing inside rev)
    (few : d.keysLeft rev < fuel) (gathered : ∀ p ∈ given, d.Gathers (.mapping head pairs) p)
    (done : d.merge rev head pairs given fuel = .ok (next, made)) :
    d.Ends inside head pairs rev given next made := by
  induction fuel generalizing inside head pairs rev given next made with
  | zero => contradiction
  | succ fuel ih =>
    cases found : (rev.pairsOf head pairs).find? fun p => d.isMergeKey p.1 with
    | none =>
      have out : ∀ p ∈ rev.pairsOf head pairs, d.isMergeKey p.1 = false := fun p mem =>
        eq_false_of_ne_true (List.find?_eq_none.mp found p mem)
      exact ends_of_out regular part mem standing gathered out done
    | some p =>
      refine ends_of_key regular part mem around standing few gathered found ?_ (ih part mem around)
        done
      exact fun n own reach => sound_of_ends regular
        (fun part mem around standing few => ih part mem around standing few nofun) own reach

theorem Standing.keysLeft_le (standing : d.Standing [] rev) : d.keysLeft rev ≤ d.mergeKeys := by
  rw [mergeKeys, List.countP_flatMap]
  refine List.sum_le_sum fun n mem => ?_
  rw [Function.comp_apply, List.countP_eq_length_filter]
  rcases standing.others n mem List.not_mem_nil with written | merges
  · rw [written]
    exact Nat.le_refl _
  · rw [mergePairs, List.filter_eq_nil_iff.mpr (List.find?_eq_none.mp merges.find?_eq_none)]
    exact Nat.zero_le _

theorem Standing.none : d.Standing [] .none where
  texts := rfl
  scalars := rfl
  underway := nofun
  others n _ _ := by cases n <;> exact .inl rfl

/-- Merging ends within its bound, and what a mapping has then are the merged pairs. -/
theorem merges_of_mergedPairs (regular : d.Regular) (part : .mapping head pairs ∈ d.root.parts)
    (standing : d.Standing [] rev) (done : d.mergedPairs rev head pairs = .ok (next, made)) :
    d.Standing [] next ∧ d.Merges (.mapping head pairs) made := by
  have nowhere : ∀ m ∈ [], d.Reaches m (.mapping head pairs) := nofun
  obtain ⟨gives, merges⟩ := sound_of_ends regular
    (fun part mem around standing few => ends_of_merge regular part mem around standing few nofun)
    part nowhere rfl standing (Nat.lt_succ_of_le standing.keysLeft_le) done
  exact ⟨gives.standing, merges List.not_mem_nil⟩

end Document
end OverlayBuild.Yaml

import Mathlib.Data.List.Perm.Subperm
import OverlayBuild.Proofs.Value.Every
import OverlayBuild.Proofs.Yaml.Checking
import OverlayBuild.Proofs.Yaml.Merging

/-! What the values of bare nodes are, said without a bound. The making of a value goes into each
collection once at most before it comes back to it, so it never reaches the bound that it is given.
The values are plain data, merging and aliases included. -/
namespace OverlayBuild.Yaml.Document

open Node

/-- What a node has as its value inside collections with the numbers `outer`, innermost first. -/
inductive Shows (d : Document) : List Nat → Node → Value → Prop
  | scalar {outer : List Nat} {n : Node} {head : Head} {text : String} {tag : ScalarTag} {v : Value}
    (found : d.follow n = .scalar head text) (own : ScalarTag.of? head.tag = some tag)
    (made : tag.value text head.start = .ok v) : Shows d outer n v
  | loop {outer : List Nat} {n : Node} {head : Head} {up : Nat}
    (found : (d.follow n).head? = some head) (collection : (d.follow n).kind ≠ .scalar)
    (around : outer.idxOf? head.number = some up) : Shows d outer n (.loop up)
  | list {outer : List Nat} {n : Node} {head : Head} {items : List Node} {values : List Value}
    (found : d.follow n = .sequence head items) (fresh : head.number ∉ outer)
    (length : items.length = values.length)
    (each : ∀ {item : Node} {v : Value}, (item, v) ∈ items.zip values →
      Shows d (head.number :: outer) item v) : Shows d outer n (.list values)
  | map {outer : List Nat} {n : Node} {head : Head} {pairs merged : List (Node × Node)}
    {entries : List (Value × Value)} (found : d.follow n = .mapping head pairs)
    (fresh : head.number ∉ outer) (merges : Merges d (.mapping head pairs) merged)
    (length : merged.length = entries.length)
    (keys : ∀ {p : Node × Node} {e : Value × Value}, (p, e) ∈ merged.zip entries →
      Shows d (head.number :: outer) p.1 e.1)
    (values : ∀ {p : Node × Node} {e : Value × Value}, (p, e) ∈ merged.zip entries →
      Shows d (head.number :: outer) p.2 e.2) : Shows d outer n (.map (Value.ofPairs entries))

/-! Room for going on: two levels for each collection that is not yet around, and two more. -/

/-- Numbers of different nodes of a document, with a bound that leaves room for the others. -/
structure Room (count : Nat) (numbers : List Nat) (fuel : Nat) : Prop where
  distinct : numbers.Nodup
  below : ∀ k ∈ numbers, k < count
  enough : 2 * count + 2 ≤ fuel + 2 * numbers.length

variable {count fuel k : Nat} {numbers : List Nat}

theorem Room.start (count : Nat) : Room count [] (2 * count + 2) :=
  ⟨List.nodup_nil, nofun, Nat.le_refl _⟩

theorem length_le_of_below (distinct : numbers.Nodup) (below : ∀ k ∈ numbers, k < count) :
    numbers.length ≤ count := by
  have range : numbers ⊆ List.range count := fun k mem => List.mem_range.mpr (below k mem)
  simpa using (distinct.subperm range).length_le

/-- There is room for one more node, and what is left is room for those in it. -/
theorem Room.exists_inner (room : Room count numbers fuel) :
    ∃ less, fuel = less + 2 ∧ ∀ k ∉ numbers, k < count → Room count (k :: numbers) less := by
  have few := length_le_of_below room.distinct room.below
  have enough := room.enough
  refine ⟨fuel - 2, by omega, fun k fresh lt => ⟨List.nodup_cons.mpr ⟨fresh, room.distinct⟩,
    List.forall_mem_cons.mpr ⟨lt, room.below⟩, ?_⟩⟩
  rw [List.length_cons]
  omega

variable {d : Document} {n : Node} {head : Head} {text : String} {items : List Node}
  {pairs made : List (Node × Node)} {outer : List Nat} {start : Mark} {v : Value} {rev : Revision}

/-! Values. -/

theorem collectionTag_bareTags {tag : String} (bare : tag ∈ bareTags) :
    CollectionTag.of? tag = none := by
  revert tag
  decide +kernel

theorem scalarTag_bareTags {name : String} {tag : ScalarTag} (bare : name ∈ bareTags)
    (own : ScalarTag.of? name = some tag) : tag ≠ .binary ∧ tag ≠ .timestamp := by
  have each : ∀ name ∈ bareTags, ScalarTag.of? name ≠ some .binary ∧
      ScalarTag.of? name ≠ some .timestamp := by decide +kernel
  obtain ⟨noBytes, noDate⟩ := each name bare
  exact ⟨fun same => noBytes (same ▸ own), fun same => noDate (same ▸ own)⟩

theorem idxOf?_map_some : (numbers.map some).idxOf? (some k) = numbers.idxOf? k := by
  induction numbers with
  | nil => rfl
  | cons number numbers ih => simp [List.idxOf?_cons, ih]

/-- Of the tags of scalars only two make something else than plain data. -/
theorem scalarTag_value_data {tag : ScalarTag} (fits : tag ≠ .binary ∧ tag ≠ .timestamp)
    (made : tag.value text start = .ok v) : v.Every Value.IsData := by
  cases tag with
  | null | str =>
    obtain rfl := Except.ok.inj made
    trivial
  | bool | int | float =>
    obtain ⟨_, -, rfl⟩ := map_eq_ok_iff.mp made
    trivial
  | binary => exact absurd rfl fits.1
  | timestamp => exact absurd rfl fits.2

/-- Checking a document of bare nodes leaves only mappings that are as they were written or merged. -/
theorem Regular.upheld (regular : d.Regular) : d.Upheld (d.Standing []) fun _ => True where
  malformed _ := trivial
  within standing part := standing.within regular part
  merged {rev head pairs} standing part := by
    cases done : d.mergedPairs rev head pairs with
    | error failure => exact .error trivial
    | ok made =>
      obtain ⟨standing, merges⟩ := merges_of_mergedPairs regular part standing done
      exact .ok ⟨standing, merges.within regular.closed part⟩
  scalar {rev n tag} standing part tagged := by
    rw [standing.tag] at tagged
    cases d.scalarValue rev tag n with
    | error failure => exact .error trivial
    | ok v =>
      cases n with
      | mapping head pairs =>
        cases regular.bare _ part with
        | mapping own =>
          have none : ScalarTag.of? Tag.map = none := by decide
          rw [Node.tag, head?, Option.map_some, Option.getD_some, own, none] at tagged
          contradiction
      | scalar head text | sequence head items | «alias» name => exact .ok standing

theorem shows_of_scalar (standing : d.Standing [] rev) (found : d.follow n = .scalar head text)
    (bare : head.tag ∈ bareTags)
    (value : d.nodeValue rev (outer.map some) n (fuel + 1) = .ok v) : d.Shows outer n v := by
  have tag : (Node.scalar head text).tag = head.tag := rfl
  have unnoted : rev.scalars.lookup head.number = none := by rw [standing.scalars]; rfl
  simp only [nodeValue, found, standing.tag, tag, head?, Option.getD_some,
    collectionTag_bareTags bare, unnoted] at value
  cases own : ScalarTag.of? head.tag with
  | none =>
    rw [own] at value
    contradiction
  | some tag =>
    rw [own] at value
    refine .scalar found own ?_
    simpa [scalarValue, scalarText, ok_bind, kind, Node.start, head?] using value

/-- A collection is one of those around, or it is made into a value inside them. -/
theorem shows_or_collectionValue {tag : CollectionTag} (standing : d.Standing [] rev)
    (found : (d.follow n).head? = some head) (collection : (d.follow n).kind ≠ .scalar)
    (own : CollectionTag.of? head.tag = some tag)
    (value : d.nodeValue rev (outer.map some) n (fuel + 1) = .ok v) :
    d.Shows outer n v ∨ head.number ∉ outer ∧
      d.collectionValue rev tag ((head.number :: outer).map some) (d.follow n) fuel = .ok v := by
  have tagged : (d.follow n).tag = head.tag := by simp [Node.tag, found]
  simp only [nodeValue, standing.tag, tagged, found, Option.getD_some, own, idxOf?_map_some] at value
  cases around : outer.idxOf? head.number with
  | some up =>
    rw [around] at value
    obtain rfl := Except.ok.inj value
    exact .inl (.loop found collection around)
  | none =>
    rw [around] at value
    exact .inr ⟨List.idxOf?_eq_none_iff.mp around, value⟩

theorem shows_of_sequence (standing : d.Standing [] rev) (found : d.follow n = .sequence head items)
    (tag : head.tag = Tag.seq) (value : d.nodeValue rev (outer.map some) n (fuel + 2) = .ok v)
    (inner : head.number ∉ outer → ∀ item ∈ items, ∀ v,
      d.nodeValue rev ((head.number :: outer).map some) item fuel = .ok v →
        d.Shows (head.number :: outer) item v) : d.Shows outer n v := by
  have collection : CollectionTag.of? head.tag = some .seq := tag ▸ by decide
  rcases shows_or_collectionValue standing (by rw [found]; rfl) (by rw [found]; exact nofun) collection
    value with around | ⟨fresh, value⟩
  · exact around
  rw [found] at value
  obtain ⟨values, made, value⟩ := bind_eq_ok_iff.mp value
  obtain rfl := Except.ok.inj value
  have each : List.Forall₂ (d.Shows (head.number :: outer)) items values :=
    ((List.forall₂_and_left _ _).mpr ⟨inner fresh, mapM_eq_ok_iff.mp made⟩).imp
      fun _ _ ⟨inner, made⟩ => inner _ made
  exact .list found fresh each.length_eq (List.forall₂_zip each)

theorem shows_of_mapping (regular : d.Regular) (standing : d.Standing [] rev)
    (found : d.follow n = .mapping head pairs) (part : .mapping head pairs ∈ d.root.parts)
    (tag : head.tag = Tag.map) (value : d.nodeValue rev (outer.map some) n (fuel + 2) = .ok v)
    (inner : head.number ∉ outer → ∀ item ∈ d.root.parts, ∀ v,
      d.nodeValue rev ((head.number :: outer).map some) item fuel = .ok v →
        d.Shows (head.number :: outer) item v) : d.Shows outer n v := by
  have collection : CollectionTag.of? head.tag = some .map := tag ▸ by decide
  rcases shows_or_collectionValue standing (by rw [found]; rfl) (by rw [found]; exact nofun) collection
    value with around | ⟨fresh, value⟩
  · exact around
  rw [found] at value
  obtain ⟨⟨_, merged⟩, done, value⟩ := bind_eq_ok_iff.mp value
  obtain ⟨entries, made, value⟩ := bind_eq_ok_iff.mp value
  obtain rfl := Except.ok.inj value
  obtain ⟨-, merges⟩ := merges_of_mergedPairs regular part standing done
  have each : List.Forall₂ (fun p e => d.Shows (head.number :: outer) p.1 e.1 ∧
      d.Shows (head.number :: outer) p.2 e.2) merged entries := by
    refine ((List.forall₂_and_left _ _).mpr
      ⟨merges.within regular.closed part, mapM_eq_ok_iff.mp made⟩).imp ?_
    rintro p e ⟨⟨key, value⟩, made⟩
    obtain ⟨k, keyed, made⟩ := bind_eq_ok_iff.mp made
    obtain ⟨v, valued, made⟩ := bind_eq_ok_iff.mp made
    obtain rfl := Except.ok.inj made
    exact ⟨inner fresh _ key _ keyed, inner fresh _ value _ valued⟩
  exact .map found fresh merges each.length_eq (fun mem => (List.forall₂_zip each mem).1)
    fun mem => (List.forall₂_zip each mem).2

/-- The value that is made of a bare node is what the node shows. -/
theorem shows_of_nodeValue (regular : d.Regular) (standing : d.Standing [] rev)
    (part : n ∈ d.root.parts) (room : Room d.count outer fuel)
    (value : d.nodeValue rev (outer.map some) n fuel = .ok v) : d.Shows outer n v := by
  induction fuel using Nat.strongRecOn generalizing outer n v with
  | _ fuel ih =>
    obtain ⟨fuel, rfl, inner⟩ := room.exists_inner
    have followed := regular.closed.follow part
    cases found : d.follow n with
    | scalar head text =>
      rw [found] at followed
      cases regular.bare _ followed with
      | scalar tag => exact shows_of_scalar standing found tag value
    | sequence head items =>
      rw [found] at followed
      have below := regular.numbered.lt followed rfl
      cases regular.bare _ followed with
      | sequence tag =>
        exact shows_of_sequence standing found tag value fun fresh item mem _ value =>
          ih fuel (by omega) (item_mem followed mem) (inner _ fresh below) value
    | mapping head pairs =>
      rw [found] at followed
      have below := regular.numbered.lt followed rfl
      cases regular.bare _ followed with
      | mapping tag =>
        exact shows_of_mapping regular standing found followed tag value fun fresh _ mem _ value =>
          ih fuel (by omega) mem (inner _ fresh below) value
    | «alias» name =>
      have untagged : (Node.alias name).tag = "" := rfl
      have collection : CollectionTag.of? "" = none := by decide
      have scalar : ScalarTag.of? "" = none := by decide
      have unnoted (k : Nat) : rev.scalars.lookup k = none := by rw [standing.scalars]; rfl
      simp only [nodeValue, found, standing.tag, untagged, collection, unnoted, scalar] at value
      contradiction

/-- What a bare node shows is plain data. -/
theorem Shows.data (shown : d.Shows outer n v) (regular : d.Regular) (part : n ∈ d.root.parts) :
    v.Every Value.IsData := by
  induction shown with
  | scalar found own made =>
    cases regular.bare _ (found ▸ regular.closed.follow part) with
    | scalar tag => exact scalarTag_value_data (scalarTag_bareTags tag own) made
  | loop => trivial
  | list found _ length _ ih =>
    have followed := found ▸ regular.closed.follow part
    refine Value.every_list_iff.mpr ⟨trivial, fun v mem => ?_⟩
    obtain ⟨item, member, paired⟩ := exists_mem_zip length mem
    exact ih paired (item_mem followed member)
  | map found _ merges length _ _ keyed valued =>
    have followed := found ▸ regular.closed.follow part
    refine Value.every_map_iff.mpr ⟨trivial, Value.every_ofPairs fun e mem => ?_⟩
    obtain ⟨p, member, paired⟩ := exists_mem_zip length mem
    obtain ⟨key, value⟩ := merges.within regular.closed followed p member
    exact ⟨keyed paired key, valued paired value⟩

/-- The value of a document of bare nodes is what its root shows. -/
theorem Regular.shows (regular : d.Regular) (value : d.value = .ok v) : d.Shows [] d.root v := by
  obtain ⟨rev, checked, value⟩ := bind_eq_ok_iff.mp value
  have standing := (meets_check regular.upheld regular.closed .none).of_ok checked
  exact shows_of_nodeValue regular standing (self_mem_parts d.root) (.start d.count) value

/-- Text shows itself. -/
theorem Shows.eq_str (shown : d.Shows outer (.scalar head text) v) (tag : head.tag = Tag.str) :
    v = .str text := by
  have string : ScalarTag.of? Tag.str = some .str := by decide
  cases shown with
  | scalar found own made =>
    obtain ⟨rfl, rfl⟩ := Node.scalar.inj found
    rw [tag, string] at own
    obtain rfl := Option.some.inj own
    exact (Except.ok.inj made).symm
  | loop found collection => exact absurd rfl collection
  | list found => contradiction
  | map found => contradiction

end OverlayBuild.Yaml.Document

import OverlayBuild.Proofs.Yaml.Checking
import OverlayBuild.Proofs.Yaml.Heeding

/-! What making the value of a document fails with: a fault in the text, a scalar in it whose content
does not fit its tag, or a mapping in the place of a scalar whose equals signs lead back to it. -/
namespace OverlayBuild.Yaml

def ScalarTag.IsStrict : ScalarTag → Prop
  | .bool | .int | .float | .timestamp => True
  | .null | .binary | .str => False

theorem ScalarTag.isStrict_of_value {tag : ScalarTag} {text : String} {start : Mark} {cause : Mismatch}
    (failed : tag.value text start = .error (.mismatch cause)) : tag.IsStrict := by
  cases tag with
  | bool | int | float | timestamp => trivial
  | null | str => contradiction
  | binary =>
    -- Text that should be bytes and is not is malformed.
    obtain ⟨problem, -, fault⟩ := mapError_eq_error_iff.mp (map_eq_error_iff.mp failed)
    exact absurd fault nofun

namespace Document

/-- The text that a node stands for: that of a scalar, or what a mapping holds under an equals
sign. -/
inductive Stands (d : Document) : Node → String → Prop
  | scalar {head : Node.Head} {text : String} : Stands d (.scalar head text) text
  | mapping {head : Node.Head} {pairs : List (Node × Node)} {p : Node × Node} {text : String}
    (mem : p ∈ pairs) (equals : (d.follow p.1).tag = Tag.value)
    (stands : Stands d (d.follow p.2) text) : Stands d (.mapping head pairs) text

/-- Equals signs lead on from a node for so many steps. -/
inductive Leads (d : Document) : Nat → Node → Prop
  | here {n : Node} : Leads d 0 n
  | on {steps : Nat} {head : Node.Head} {pairs : List (Node × Node)} {p : Node × Node} (mem : p ∈ pairs)
    (equals : (d.follow p.1).tag = Tag.value) (leads : Leads d steps (d.follow p.2)) :
    Leads d (steps + 1) (.mapping head pairs)

/-- Why the value of a scalar of the document cannot be made, though the text is well formed. -/
inductive Misfit (d : Document) : Mismatch → Prop
  /-- One that should be a truth value, a number or a time has other content. -/
  | content {n : Node} {tag : ScalarTag} {text : String} {cause : Mismatch}
    (part : n ∈ d.root.parts) (own : ScalarTag.of? n.tag = some tag) (strict : tag.IsStrict)
    (stands : d.Stands n text) (misfit : tag.value text n.start = .error (.mismatch cause)) :
    Misfit d cause
  /-- A mapping stands in the place of a time. -/
  | moment {head : Node.Head} {pairs : List (Node × Node)} {text : String}
    (part : .mapping head pairs ∈ d.root.parts) (own : ScalarTag.of? head.tag = some .timestamp)
    (stands : d.Stands (.mapping head pairs) text) : Misfit d .momentOfMapping
  /-- A mapping in the place of a scalar leads on for more steps than there are nodes. -/
  | endless {n : Node} (part : n ∈ d.root.parts) (leads : d.Leads (d.count + 1) n) :
    Misfit d .endless

/-- A mismatch is that of a misfit in the document. -/
def Tells (d : Document) : Failure → Prop
  | .mismatch cause => d.Misfit cause
  | .unacceptable _ _ | .malformed _ => True

def Changes (d : Document) (rev : Revision) : Prop := ∀ change ∈ rev.pairs, d.PairsWithin change.2

variable {d : Document} {n key : Node} {head : Node.Head} {items : List Node}
  {pairs given : List (Node × Node)} {cause : Mismatch} {fuel : Nat} {start : Mark} {rev : Revision}
  {tag : ScalarTag}

theorem Changes.within (changes : d.Changes rev) (part : .mapping head pairs ∈ d.root.parts) :
    d.PairsWithin (rev.pairsOf head pairs) := by
  rw [Revision.pairsOf]
  cases found : rev.pairs.lookup head.number with
  | none => exact pairsWithin_of_mem part
  | some held =>
    obtain ⟨_, _, split, -⟩ := List.lookup_eq_some_iff.mp found
    exact changes (head.number, held) (by simp [split])

theorem Changes.setPairs (changes : d.Changes rev) (within : d.PairsWithin pairs) :
    d.Changes (rev.setPairs head pairs) :=
  List.forall_mem_cons.mpr ⟨within, changes⟩

theorem Changes.note (changes : d.Changes rev) (n : Node) (v : Value) : d.Changes (rev.note n v) := by
  cases n <;> exact changes

/-! Merging. -/

def Joined (d : Document) (made : Revision × List (Node × Node)) : Prop :=
  d.Changes made.1 ∧ d.PairsWithin made.2

theorem meets_mergeValue (closed : d.Closed)
    {merged : Revision → Node.Head → List (Node × Node) →
      Except Failure (Revision × List (Node × Node))}
    (inner : ∀ {rev head pairs}, d.Changes rev → .mapping head pairs ∈ d.root.parts →
      Meets d.Tells d.Joined (merged rev head pairs))
    (changes : d.Changes rev) (part : n ∈ d.root.parts) :
    Meets d.Tells d.Joined (d.mergeValue merged rev start n) := by
  cases n with
  | mapping head pairs => exact inner changes part
  | sequence head items =>
    refine .foldlM ⟨changes, nofun⟩ fun item mem given ⟨changes, within⟩ => ?_
    have named := closed.follow (item_mem part mem)
    rw [mergeItem]
    split
    next head pairs found =>
      refine .bind (inner changes (found ▸ named)) fun made ⟨changes, own⟩ => .pure ⟨changes, ?_⟩
      exact List.forall_mem_append.mpr ⟨own, within⟩
    · exact .error trivial
  | scalar head text | «alias» name => exact .error trivial

theorem meets_merge (closed : d.Closed) (changes : d.Changes rev)
    (part : .mapping head pairs ∈ d.root.parts) (within : d.PairsWithin given) :
    Meets d.Tells d.Joined (d.merge rev head pairs given fuel) := by
  induction fuel generalizing rev head pairs given with
  | zero => exact .ok ⟨changes, changes.within part⟩
  | succ fuel ih =>
    rw [merge]
    have held := changes.within part
    split
    · have all : d.PairsWithin (given ++ rev.pairsOf head pairs) :=
        List.forall_mem_append.mpr ⟨within, held⟩
      have turned : d.Changes (d.retag rev (rev.pairsOf head pairs)) := changes
      refine .ok ⟨?_, all⟩
      split
      · exact turned
      · exact turned.setPairs all
    next key value found =>
      have named := closed.follow (held _ (List.mem_of_find?_eq_some found)).2
      have left : d.PairsWithin ((rev.pairsOf head pairs).eraseP fun p => d.isMergeKey p.1) :=
        fun p mem => held p (List.mem_of_mem_eraseP mem)
      refine .bind (meets_mergeValue closed (fun changes part => ih changes part nofun)
        (changes.setPairs left) named) fun made ⟨changes, own⟩ => ?_
      exact ih changes part (List.forall_mem_append.mpr ⟨within, own⟩)

/-! Scalars. -/

theorem tag_of_ne_value (other : rev.tag n ≠ Tag.str) : rev.tag n = n.tag := by
  rw [Revision.tag] at other ⊢
  split
  next turned => exact absurd (if_pos turned) other
  · rfl

theorem tag_eq_of_value (equals : rev.tag n = Tag.value) : n.tag = Tag.value := by
  have other : Tag.value ≠ Tag.str := by decide
  rw [← tag_of_ne_value (equals ▸ other), equals]

/-- A node in the place of a scalar stands for a text, leads on or is malformed. -/
theorem meets_scalarText :
    Meets (fun failure => failure.isSyntactic = true ∨
        failure = .mismatch .endless ∧ d.Leads fuel n)
      (d.Stands n) (d.scalarText rev n fuel) := by
  induction fuel generalizing n with
  | zero => exact .error (.inr ⟨rfl, .here⟩)
  | succ fuel ih =>
    rw [scalarText.eq_def]
    cases n with
    | scalar head text => exact .ok .scalar
    | mapping head pairs =>
      dsimp only
      split
      next key value found =>
        have mem := List.mem_of_find?_eq_some found
        have turned := List.find?_some found
        have equals := tag_eq_of_value (beq_iff_eq.mp turned)
        exact ih.imp
          (fun failure told => told.imp_right fun ⟨same, leads⟩ => ⟨same, .on mem equals leads⟩)
          fun text stands => .mapping mem equals stands
      · exact .error (.inl rfl)
    | sequence head items | «alias» name => exact .error (.inl rfl)

theorem tells_of_isSyntactic {failure : Failure} (syntactic : failure.isSyntactic = true) :
    d.Tells failure := by
  cases failure with
  | unacceptable c position | malformed fault => trivial
  | mismatch cause => contradiction

theorem meets_scalarValue (part : n ∈ d.root.parts) (tagged : ScalarTag.of? (rev.tag n) = some tag) :
    Meets d.Tells (fun _ => True) (d.scalarValue rev tag n) := by
  have text : Meets d.Tells (d.Stands n) (d.scalarText rev n (d.count + 1)) :=
    meets_scalarText.imp (fun failure told => told.elim tells_of_isSyntactic fun ⟨same, leads⟩ =>
      same ▸ .endless part leads) fun _ stands => stands
  -- A tag that may not fit is the one that was written.
  have written (strict : tag.IsStrict) : ScalarTag.of? n.tag = some tag := by
    have string : ScalarTag.of? Tag.str = some .str := by decide
    rw [← tag_of_ne_value fun same => ?_, tagged]
    rw [same, string] at tagged
    obtain rfl := Option.some.inj tagged
    exact strict
  refine text.bind fun text stands => ?_
  split
  next moment =>
    obtain ⟨rfl, mapping⟩ := moment
    cases n with
    | mapping head pairs => exact .error (.moment part (written trivial) stands)
    | scalar head text | sequence head items | «alias» name => contradiction
  · cases made : tag.value text n.start with
    | ok v => exact .ok trivial
    | error failure =>
      cases failure with
      | mismatch cause =>
        have strict := ScalarTag.isStrict_of_value made
        exact .error (.content part (written strict) strict stands made)
      | unacceptable c position | malformed fault => exact .error trivial

theorem upheld (closed : d.Closed) : d.Upheld d.Changes d.Tells where
  malformed _ := trivial
  within changes part := changes.within part
  merged changes part := meets_merge closed changes part nofun
  scalar changes part tagged :=
    (meets_scalarValue part tagged).imp (fun _ told => told) fun v _ => changes.note _ v

/-! Values. -/

structure Makes (d : Document) (rev : Revision) (fuel : Nat) : Prop where
  node : ∀ outer {n}, n ∈ d.root.parts → Meets d.Tells (fun _ => True) (d.nodeValue rev outer n fuel)
  collection : ∀ tag outer {n}, n ∈ d.root.parts →
    Meets d.Tells (fun _ => True) (d.collectionValue rev tag outer n fuel)

theorem meets_nodeValue (closed : d.Closed) (inner : d.Makes rev fuel) (outer : List (Option Nat))
    (part : n ∈ d.root.parts) :
    Meets d.Tells (fun _ => True) (d.nodeValue rev outer n (fuel + 1)) := by
  have named := closed.follow part
  rw [nodeValue]
  split
  next tag _ =>
    split
    · exact .pure trivial
    · exact inner.collection tag _ named
  · split
    · exact .pure trivial
    next tag _ tagged => exact meets_scalarValue named tagged
    · exact .error trivial

theorem meets_collectionValue (closed : d.Closed) (changes : d.Changes rev) (inner : d.Makes rev fuel)
    (tag : CollectionTag) (outer : List (Option Nat)) (part : n ∈ d.root.parts) :
    Meets d.Tells (fun _ => True) (d.collectionValue rev tag outer n (fuel + 1)) := by
  have pair (outer : List (Option Nat)) {p : Node × Node}
      (parts : p.1 ∈ d.root.parts ∧ p.2 ∈ d.root.parts) :
      Meets d.Tells (fun _ => True) (do
        return (← d.nodeValue rev outer p.1 fuel, ← d.nodeValue rev outer p.2 fuel)) :=
    .bind (inner.node outer parts.1) fun _ _ => .bind (inner.node outer parts.2) fun _ _ =>
      .pure trivial
  rw [collectionValue.eq_def]
  cases n with
  | mapping head pairs =>
    have merged : Meets d.Tells d.Joined (d.mergedPairs rev head pairs) :=
      meets_merge closed changes part nofun
    cases tag with
    | map | set =>
      exact .bind merged fun made all => .bind (.mapM fun p mem => pair outer (all.2 p mem))
        fun _ _ => .pure trivial
    | seq | omap | pairs => exact .error trivial
  | sequence head items =>
    cases tag with
    | seq =>
      exact .bind (.mapM fun item mem => inner.node outer (item_mem part mem)) fun _ _ => .pure trivial
    | omap | pairs =>
      refine .bind (.mapM (r := fun _ => True) fun item mem => ?_) fun _ _ => .pure trivial
      exact .bind (meets_itemPair (upheld closed) closed changes (item_mem part mem)) fun p parts =>
        .bind (pair _ parts) fun _ _ => .pure trivial
    | map | set => exact .error trivial
  | scalar head text | «alias» name => cases tag <;> exact .error trivial

theorem makes (closed : d.Closed) (changes : d.Changes rev) (fuel : Nat) : d.Makes rev fuel := by
  induction fuel with
  | zero => exact ⟨fun _ _ _ => .ok trivial, fun _ _ _ _ => .ok trivial⟩
  | succ fuel inner =>
    exact ⟨fun outer _ => meets_nodeValue closed inner outer,
      fun tag outer _ => meets_collectionValue closed changes inner tag outer⟩

theorem meets_value (closed : d.Closed) : Meets d.Tells (fun _ => True) d.value :=
  .bind (meets_check (upheld closed) closed nofun) fun _ changes =>
    (makes closed changes _).node [] (Node.self_mem_parts d.root)

end Document

/-! Texts. -/

variable {schema : Schema} {text : List Char} {cause : Mismatch}

theorem closed_of_nextDocument {reader after : NodeReader} {first : Bool} {fuel : Nat} {start : Mark}
    {d : Document}
    (next : (nextDocument schema first fuel).run reader = .ok (some (start, d), after)) :
    d.Closed := by
  obtain ⟨⟨opened, _⟩, -, next⟩ := bind_eq_ok_iff.mp next
  cases opened with
  | none =>
    obtain ⟨absent, -⟩ := Prod.mk.inj (Except.ok.inj next)
    contradiction
  | some opened =>
    obtain ⟨⟨root, later⟩, -, next⟩ := bind_eq_ok_iff.mp next
    have same : (some (opened.1, Document.ofRoot root later.count), later) = (some (start, d), after) :=
      Except.ok.inj next
    obtain ⟨-, rfl⟩ := Prod.mk.inj (Option.some.inj (Prod.mk.inj same).1)
    exact Document.ofRoot_closed root _

/-- A reader at the start of a text heeds the tokens of the text. -/
theorem meets_openText :
    Meets (fun failure => failure.isSyntactic = true ∨ (tokens text).failure? = some failure)
      (fun start => start.1.tokens.failure? = (tokens text).failure?) (openText text) := by
  rw [openText]
  split
  · exact .error (.inl rfl)
  · dsimp only
    split
    next token rest all => exact .ok (by rw [all]; rfl)
    next failure all => exact .error (.inr (by rw [all]; rfl))
    next all => exact .ok (by rw [all])

def Opens (schema : Schema) (text : List Char) (d : Document) : Prop :=
  ∃ reader fuel start after, openText text = .ok (reader, fuel) ∧
    (nextDocument schema true fuel).run reader = .ok (some (start, d), after)

/-- A text of which a number or the like cannot be made cuts its tokens short there, or its
document has a scalar whose content does not fit its tag. -/
theorem read_eq_mismatch (failed : read schema text = .error (.mismatch cause)) :
    (tokens text).failure? = some (.mismatch cause) ∨ ∃ d, Opens schema text d ∧ d.Misfit cause := by
  -- What a reader of the text fails with itself is no mismatch.
  have heed {α : Type} {x : ReadNode α} {reader : NodeReader} (heeds : NodeReader.Heeds x)
      (same : reader.tokens.failure? = (tokens text).failure?)
      (stopped : x.run reader = .error (.mismatch cause)) :
      (tokens text).failure? = some (.mismatch cause) := by
    have outcome := heeds reader
    rw [stopped] at outcome
    cases outcome with
    | failed told => exact same ▸ told.resolve_left nofun
  rcases bind_eq_error_iff.mp failed with stopped | ⟨⟨reader, fuel⟩, opened, failed⟩
  · exact .inl ((meets_openText.of_error stopped).resolve_left nofun)
  have same : reader.tokens.failure? = (tokens text).failure? := meets_openText.of_ok opened
  rcases bind_eq_error_iff.mp failed with stopped | ⟨⟨next, after⟩, found, failed⟩
  · exact .inl (heed NodeReader.heeds_nextDocument same stopped)
  cases next with
  | none => contradiction
  | some next =>
    obtain ⟨start, d⟩ := next
    have later : after.tokens.failure? = (tokens text).failure? := by
      have heeds : NodeReader.Heeds (nextDocument schema true fuel) := NodeReader.heeds_nextDocument
      have outcome := heeds reader
      rw [found] at outcome
      cases outcome with
      | done further => exact further.trans same
    rcases bind_eq_error_iff.mp failed with stopped | ⟨⟨more, _⟩, _, failed⟩
    · exact .inl (heed NodeReader.heeds_openDocument later stopped)
    · cases more with
      | none =>
        exact .inr ⟨d, ⟨reader, fuel, start, after, opened, found⟩,
          (Document.meets_value (closed_of_nextDocument found)).of_error failed⟩
      | some more => exact absurd (Except.error.inj failed) nofun

end OverlayBuild.Yaml

import OverlayBuild.Build.Output
import OverlayBuild.Proofs.Yaml.Lexical

/-! What reading the nodes of a text fails with: a fault of its own, or the failure that cuts the
tokens short. -/
namespace OverlayBuild.Yaml

namespace NodeReader

variable {α β : Type} {x y : ReadNode α} {f : α → ReadNode β} {cut : Option Failure}

/-- A reading ends with a fault in the text, with what cuts its tokens short, or before the tokens
that are cut short by the same. -/
inductive Heeded (cut : Option Failure) : Except Failure (α × NodeReader) → Prop
  | failed {failure : Failure} (told : failure.isSyntactic = true ∨ cut = some failure) :
      Heeded cut (.error failure)
  | done {a : α} {r : NodeReader} (same : r.tokens.failure? = cut) : Heeded cut (.ok (a, r))

def Heeds (x : ReadNode α) : Prop := ∀ r : NodeReader, Heeded r.tokens.failure? (x.run r)

namespace Heeds

theorem pure (a : α) : Heeds (Pure.pure a : ReadNode α) := fun _ => .done rfl

theorem stop {failure : Failure} (own : failure.isSyntactic = true) :
    Heeds (NodeReader.stop failure : ReadNode α) :=
  fun _ => .failed (.inl own)

theorem bind (first : Heeds x) (next : ∀ a, Heeds (f a)) : Heeds (x >>= f) := by
  intro r
  have outcome := first r
  rw [StateT.run_bind]
  generalize x.run r = result at outcome ⊢
  cases outcome with
  | failed told => exact .failed told
  | @done a after same => exact same ▸ next a after

theorem ite {c : Prop} [Decidable c] (then_ : Heeds x) (else_ : Heeds y) :
    Heeds (if c then x else y) := by
  split
  · exact then_
  · exact else_

/-- What several branches go on with is followed once. -/
theorem shared {goal : Prop} (reach : Heeds x → goal) (heeds : Heeds x) : goal := reach heeds

/-- Branches may go on in the same way from different places. -/
theorem join {ι : Type} {rest : ι → ReadNode α} {goal : Prop} (reach : (∀ i, Heeds (rest i)) → goal)
    (heeds : ∀ i, Heeds (rest i)) : goal :=
  reach heeds

end Heeds

theorem heeds_peek : Heeds peek := by
  rintro ⟨tokens, anchors, handles, count⟩
  cases tokens with
  | failed failure => exact .failed (.inr rfl)
  | done | item token rest => exact .done rfl

theorem heeds_take : Heeds take := by
  rintro ⟨tokens, anchors, handles, count⟩
  cases tokens with
  | failed failure => exact .failed (.inr rfl)
  | done | item token rest => exact .done rfl

theorem heeds_next (kinds : List Token.Kind) : Heeds (next kinds) :=
  .bind heeds_peek fun _ => .pure _

theorem heeds_get : Heeds (get : ReadNode NodeReader) := fun _ => .done rfl

theorem heeds_modify {change : NodeReader → NodeReader} (tokens : ∀ r, (change r).tokens = r.tokens) :
    Heeds (modify change : ReadNode PUnit) :=
  fun r => .done (by rw [tokens])

variable {schema : Schema} {place : Place} {p : Properties} {start opening after : Mark}
  {anchor : Option String} {tag : String} {token : Token} {fuel : Nat} {first version marked : Bool}
  {kinds : List Token.Kind} {handles : List (String × String)}

theorem heeds_head : Heeds (head start anchor tag) :=
  .bind heeds_get fun _ => .bind (heeds_modify fun _ => rfl) fun _ => .pure _

theorem heeds_empty : Heeds (empty start) := .bind heeds_head fun _ => .pure _

theorem heeds_properties : Heeds properties := by
  refine .bind heeds_peek fun first => ?_
  split
  · refine .bind heeds_take fun _ => .bind heeds_peek fun second => ?_
    split
    · exact .bind heeds_take fun _ => .pure _
    · exact .pure _
  · refine .bind heeds_take fun _ => .bind heeds_peek fun second => ?_
    split
    · exact .bind heeds_take fun _ => .pure _
    · exact .pure _
  · exact .pure _

theorem heeds_resolveTag : Heeds (resolveTag p start) := by
  rw [resolveTag]
  split
  · exact .pure _
  · exact .pure _
  · refine .bind heeds_get fun r => ?_
    split
    · exact .pure _
    · exact .stop rfl

theorem heeds_register : Heeds (register anchor start) := by
  rw [register.eq_def]
  split
  · exact .pure _
  · refine .bind heeds_get fun r => ?_
    split
    · exact .stop rfl
    · exact heeds_modify fun _ => rfl

theorem heeds_contentless : Heeds (contentless place p start token) :=
  .ite (.pure _) (.stop rfl)

theorem heeds_content : Heeds (content place p start) := by
  refine .bind heeds_peek fun token => ?_
  split
  · exact .ite (.pure _) heeds_contentless
  · exact .bind heeds_take fun _ => .pure _
  · exact .pure _
  · exact .pure _
  · exact .ite heeds_contentless (.pure _)
  · exact .ite heeds_contentless (.pure _)
  · exact heeds_contentless

structure AllHeed (schema : Schema) (fuel : Nat) : Prop where
  node : ∀ place, Heeds (node schema place fuel)
  nodeUnless : ∀ kinds place after, Heeds (nodeUnless schema kinds place after fuel)
  blockItems : ∀ opening, Heeds (blockItems schema opening fuel)
  indentless : Heeds (indentless schema fuel)
  blockPairs : ∀ opening, Heeds (blockPairs schema opening fuel)
  blockValue : Heeds (blockValue schema fuel)
  flowItems : ∀ opening first, Heeds (flowItems schema opening first fuel)
  flowValue : ∀ kinds, Heeds (flowValue schema kinds fuel)
  flowPairs : ∀ opening first, Heeds (flowPairs schema opening first fuel)

theorem AllHeed.zero : AllHeed schema 0 where
  node _ := heeds_empty
  nodeUnless _ _ _ := heeds_empty
  blockItems _ := .pure _
  indentless := .pure _
  blockPairs _ := .pure _
  blockValue := heeds_empty
  flowItems _ _ := .pure _
  flowValue _ := heeds_empty
  flowPairs _ _ := .pure _

theorem heeds_node (inner : AllHeed schema fuel) : Heeds (node schema place (fuel + 1)) := by
  rw [node]
  refine .bind heeds_peek fun first => ?_
  split
  · refine .bind heeds_take fun _ => .bind heeds_get fun r => ?_
    split
    · exact .pure _
    · exact .stop rfl
  · refine .bind heeds_properties fun p => .bind heeds_resolveTag fun tag => ?_
    simp only [pure_bind]
    apply Heeds.join
    · intro rest
      cases p.start with
      | some start => exact rest start
      | none => exact .bind heeds_peek fun token => rest token.start
    · intro start
      refine .bind heeds_content fun content => .bind heeds_register fun _ => ?_
      cases content with
      | scalar text plain | empty => exact .bind heeds_head fun _ => .pure _
      | indentless => exact .bind heeds_head fun _ => .bind inner.indentless fun _ => .pure _
      | blockSequence =>
        exact .bind heeds_head fun _ => .bind heeds_take fun _ =>
          .bind (inner.blockItems _) fun _ => .pure _
      | blockMapping =>
        exact .bind heeds_head fun _ => .bind heeds_take fun _ =>
          .bind (inner.blockPairs _) fun _ => .pure _
      | flowSequence =>
        exact .bind heeds_head fun _ => .bind heeds_take fun _ =>
          .bind (inner.flowItems _ _) fun _ => .pure _
      | flowMapping =>
        exact .bind heeds_head fun _ => .bind heeds_take fun _ =>
          .bind (inner.flowPairs _ _) fun _ => .pure _

theorem heeds_blockItems (inner : AllHeed schema fuel) :
    Heeds (blockItems schema opening (fuel + 1)) := by
  rw [blockItems]
  refine .bind heeds_peek fun token => ?_
  split
  · exact .bind heeds_take fun _ => .bind (inner.nodeUnless _ _ _) fun _ =>
      .bind (inner.blockItems opening) fun _ => .pure _
  · exact .bind heeds_take fun _ => .pure _
  · exact .stop rfl

theorem heeds_indentless (inner : AllHeed schema fuel) : Heeds (indentless schema (fuel + 1)) := by
  rw [indentless]
  refine .bind heeds_peek fun token => .ite ?_ (.pure _)
  exact .bind heeds_take fun _ => .bind (inner.nodeUnless _ _ _) fun _ =>
    .bind inner.indentless fun _ => .pure _

theorem heeds_blockPairs (inner : AllHeed schema fuel) :
    Heeds (blockPairs schema opening (fuel + 1)) := by
  rw [blockPairs]
  refine .bind heeds_peek fun token => ?_
  split
  · exact .bind heeds_take fun _ => .bind (inner.nodeUnless _ _ _) fun _ =>
      .bind inner.blockValue fun _ => .bind (inner.blockPairs opening) fun _ => .pure _
  · exact .bind heeds_take fun _ => .pure _
  · exact .stop rfl

theorem heeds_flowItems (inner : AllHeed schema fuel) :
    Heeds (flowItems schema opening first (fuel + 1)) := by
  rw [flowItems]
  refine .bind (heeds_next _) fun closes => .ite (.bind heeds_take fun _ => .pure _) ?_
  refine .bind heeds_peek fun token => ?_
  apply Heeds.shared
  · intro rest
    exact .ite (.ite (.bind heeds_take fun _ => rest) (.bind (.stop rfl) fun _ => rest)) rest
  refine .bind heeds_peek fun token => ?_
  split
  · exact .bind heeds_take fun _ => .bind heeds_head fun _ =>
      .bind (inner.nodeUnless _ _ _) fun _ => .bind (inner.flowValue _) fun _ =>
        .bind (inner.flowItems _ _) fun _ => .pure _
  · exact .bind heeds_take fun _ => .pure _
  · exact .bind (inner.node _) fun _ => .bind (inner.flowItems _ _) fun _ => .pure _

theorem heeds_flowPairs (inner : AllHeed schema fuel) :
    Heeds (flowPairs schema opening first (fuel + 1)) := by
  rw [flowPairs]
  refine .bind (heeds_next _) fun closes => .ite (.bind heeds_take fun _ => .pure _) ?_
  refine .bind heeds_peek fun token => ?_
  apply Heeds.shared
  · intro rest
    exact .ite (.ite (.bind heeds_take fun _ => rest) (.bind (.stop rfl) fun _ => rest)) rest
  refine .bind heeds_peek fun token => ?_
  split
  · exact .bind heeds_take fun _ => .bind (inner.nodeUnless _ _ _) fun _ =>
      .bind (inner.flowValue _) fun _ => .bind (inner.flowPairs _ _) fun _ => .pure _
  · exact .bind heeds_take fun _ => .pure _
  · exact .bind (inner.node _) fun _ => .bind heeds_peek fun _ => .bind heeds_empty fun _ =>
      .bind (inner.flowPairs _ _) fun _ => .pure _

theorem allHeed (schema : Schema) (fuel : Nat) : AllHeed schema fuel := by
  induction fuel with
  | zero => exact .zero
  | succ fuel inner => exact {
      node := fun _ => heeds_node inner
      nodeUnless := fun _ place _ =>
        .bind (heeds_next _) fun _ => .ite heeds_empty (inner.node place)
      blockItems := fun _ => heeds_blockItems inner
      indentless := heeds_indentless inner
      blockPairs := fun _ => heeds_blockPairs inner
      blockValue := .bind heeds_peek fun _ =>
        .ite (.bind heeds_take fun _ => inner.nodeUnless _ _ _) heeds_empty
      flowItems := fun _ _ => heeds_flowItems inner
      flowValue := fun kinds => .bind heeds_peek fun _ =>
        .ite (.bind heeds_take fun _ => inner.nodeUnless kinds _ _) heeds_empty
      flowPairs := fun _ _ => heeds_flowPairs inner }

theorem heeds_directives : Heeds (directives version handles fuel) := by
  induction fuel generalizing version handles with
  | zero => exact .pure _
  | succ fuel ih =>
    refine .bind heeds_peek fun token => ?_
    split
    · refine .bind heeds_take fun _ => ?_
      split
      · exact .ite (.stop rfl) (.ite (.stop rfl) ih)
      · exact .ite (.stop rfl) ih
      · exact ih
    · exact .pure _

theorem heeds_skipDocumentEnds : Heeds (skipDocumentEnds fuel) := by
  induction fuel with
  | zero => exact .pure _
  | succ fuel ih =>
    exact .bind (heeds_next _) fun _ => .ite (.bind heeds_take fun _ => ih) (.pure _)

theorem heeds_openDocument : Heeds (openDocument first fuel) := by
  refine .bind heeds_peek fun token => .ite ?_ ?_
  · exact .bind (heeds_modify fun _ => rfl) fun _ => .pure _
  refine .bind heeds_skipDocumentEnds fun _ => .bind heeds_peek fun token => .ite (.pure _) ?_
  refine .bind heeds_directives fun handles => .bind (heeds_modify fun _ => rfl) fun _ => ?_
  exact .bind heeds_peek fun marker => .ite (.bind heeds_take fun _ => .pure _) (.stop rfl)

theorem heeds_documentNode : Heeds (documentNode schema marked fuel) := by
  refine .bind (heeds_modify fun _ => rfl) fun _ => .bind heeds_peek fun token => ?_
  have ends (root : Node) : Heeds (do
      if ← next [.documentEnd] then
        let _ ← take
      return root) :=
    .bind (heeds_next _) fun _ => .ite (.bind heeds_take fun _ => .pure _) (.pure _)
  exact .ite (.bind heeds_empty ends) (.bind ((allHeed schema fuel).node .block) ends)

theorem heeds_nextDocument : Heeds (nextDocument schema first fuel) := by
  refine .bind heeds_openDocument fun opened => ?_
  split
  · exact .pure _
  · exact .bind heeds_documentNode fun _ => .bind heeds_get fun _ => .pure _

end NodeReader

end OverlayBuild.Yaml

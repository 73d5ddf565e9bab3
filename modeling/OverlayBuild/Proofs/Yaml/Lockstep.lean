import OverlayBuild.Proofs.Yaml.Bare

/-! Reading the nodes of a text without written tags under both schemas. The readings go in
lockstep: they take the same tokens, fail alike, and give nodes that differ at most in the
scalars that become text. -/
namespace OverlayBuild.Yaml

def Token.Kind.isTag : Token.Kind → Bool
  | .tag _ => true
  | _ => false

def Stream.untagged : Stream Token → Bool
  | .item token rest => !token.kind.isTag && rest.untagged
  | _ => true

namespace NodeReader

variable {α β γ δ : Type} {R : Nat → α → β → Prop} {S : Nat → γ → δ → Prop} {P : α → Prop}
  {Q : γ → Prop} {count : Nat} {x : ReadNode α} {y : ReadNode β} {f : α → ReadNode γ}
  {g : β → ReadNode δ}

/-- Two readings end with the same failure, or with the same tokens to come, without tags, and
results that are related once so many nodes are numbered. -/
inductive Agree (R : Nat → α → β → Prop) :
    Except Failure (α × NodeReader) → Except Failure (β × NodeReader) → Prop
  | failed (failure : Failure) : Agree R (.error failure) (.error failure)
  | done {a : α} {b : β} {r : NodeReader} (related : R r.count a b)
    (untagged : r.tokens.untagged = true) : Agree R (.ok (a, r)) (.ok (b, r))

theorem Agree.imp {T : Nat → α → β → Prop} {u : Except Failure (α × NodeReader)}
    {v : Except Failure (β × NodeReader)} (agree : Agree R u v)
    (imp : ∀ count a b, R count a b → T count a b) : Agree T u v := by
  cases agree with
  | failed failure => exact .failed failure
  | done related untagged => exact .done (imp _ _ _ related) untagged

theorem Agree.bind {r : NodeReader} (first : Agree R (x.run r) (y.run r))
    (next : ∀ a b r, R r.count a b → r.tokens.untagged = true →
      Agree S ((f a).run r) ((g b).run r)) : Agree S ((x >>= f).run r) ((y >>= g).run r) := by
  rw [StateT.run_bind, StateT.run_bind]
  generalize x.run r = u at first ⊢
  generalize y.run r = v at first ⊢
  cases first with
  | failed failure => exact .failed failure
  | done related untagged => exact next _ _ _ related untagged

/-- The readings agree wherever so many nodes are numbered and no tags are to come; they number
no fewer. -/
def Lockstep (count : Nat) (R : Nat → α → β → Prop) (x : ReadNode α) (y : ReadNode β) : Prop :=
  ∀ r : NodeReader, r.count = count → r.tokens.untagged = true →
    Agree (fun high a b => count ≤ high ∧ R high a b) (x.run r) (y.run r)

theorem Lockstep.agree {r : NodeReader} (lockstep : Lockstep count R x y)
    (numbered : r.count = count) (untagged : r.tokens.untagged = true) : Agree R (x.run r) (y.run r) :=
  (lockstep r numbered untagged).imp fun _ _ _ => And.right

theorem Lockstep.pure {a : α} {b : β} (related : R count a b) :
    Lockstep count R (Pure.pure a) (Pure.pure b) := by
  rintro r rfl untagged
  exact .done ⟨Nat.le_refl _, related⟩ untagged

theorem Lockstep.stop (failure : Failure) :
    Lockstep count R (NodeReader.stop failure) (NodeReader.stop failure) :=
  fun _ _ _ => .failed failure

theorem Lockstep.bind (first : Lockstep count R x y)
    (next : ∀ high a b, count ≤ high → R high a b → Lockstep high S (f a) (g b)) :
    Lockstep count S (x >>= f) (y >>= g) := by
  intro r numbered untagged
  refine (first r numbered untagged).bind fun a b r ⟨more, related⟩ untagged => ?_
  exact (next r.count a b more related r rfl untagged).imp fun _ _ _ ⟨le, related⟩ =>
    ⟨Nat.le_trans more le, related⟩

theorem Lockstep.ite {c : Prop} [Decidable c] {u : ReadNode α} {v : ReadNode β}
    (then_ : Lockstep count R x y) (else_ : Lockstep count R u v) :
    Lockstep count R (if c then x else u) (if c then y else v) := by
  split
  · exact then_
  · exact else_

/-- What several branches go on with is followed once. -/
theorem Lockstep.shared {goal : Prop} (reach : Lockstep count R x y → goal)
    (agree : Lockstep count R x y) : goal :=
  reach agree

/-- Branches may go on in the same way from different places. -/
theorem Lockstep.join {ι : Type} {rest : ι → ReadNode α} {rest' : ι → ReadNode β} {goal : Prop}
    (reach : (∀ i, Lockstep count R (rest i) (rest' i)) → goal)
    (agree : ∀ i, Lockstep count R (rest i) (rest' i)) : goal :=
  reach agree

/-- A reading passes over no tags, numbers no nodes and gives what it should. -/
def Keeps (P : α → Prop) (x : ReadNode α) : Prop :=
  ∀ r : NodeReader, r.tokens.untagged = true →
    Agree (fun count a b => count = r.count ∧ a = b ∧ P a) (x.run r) (x.run r)

/-- A step that does not depend on the schema. -/
theorem Lockstep.after {f : α → ReadNode γ} {g : α → ReadNode δ} (first : Keeps P x)
    (next : ∀ a, P a → Lockstep count S (f a) (g a)) : Lockstep count S (x >>= f) (x >>= g) := by
  rintro r rfl untagged
  refine (first r untagged).bind ?_
  rintro a _ after ⟨same, rfl, own⟩ untagged
  exact next a own after same untagged

theorem Keeps.after {f : α → ReadNode γ} (first : Keeps P x) (next : ∀ a, P a → Keeps Q (f a)) :
    Keeps Q (x >>= f) := by
  intro r untagged
  refine (first r untagged).bind ?_
  rintro a _ after ⟨same, rfl, own⟩ untagged
  exact same ▸ next a own after untagged

theorem Keeps.stop (failure : Failure) : Keeps P (NodeReader.stop failure) :=
  fun _ _ => .failed failure

theorem Keeps.ite {c : Prop} [Decidable c] {u : ReadNode α} (then_ : Keeps P x)
    (else_ : Keeps P u) : Keeps P (if c then x else u) := by
  split
  · exact then_
  · exact else_

theorem keeps_pure {a : α} (own : P a) : Keeps P (pure a) :=
  fun _ untagged => .done ⟨rfl, rfl, own⟩ untagged

theorem keeps_stop (failure : Failure) : Keeps (fun (_ : α) => False) (NodeReader.stop failure) :=
  .stop failure

theorem keeps_peek : Keeps (fun token => token.kind.isTag = false) peek := by
  rintro ⟨tokens, anchors, handles, count⟩ untagged
  cases tokens with
  | done => exact .done ⟨rfl, rfl, rfl⟩ rfl
  | failed failure => exact .failed failure
  | item token rest =>
    obtain ⟨own, -⟩ := Bool.and_eq_true_iff.mp untagged
    exact .done ⟨rfl, rfl, (Bool.not_eq_true' _).mp own⟩ untagged

theorem keeps_take : Keeps (fun token => token.kind.isTag = false) take := by
  rintro ⟨tokens, anchors, handles, count⟩ untagged
  cases tokens with
  | done => exact .done ⟨rfl, rfl, rfl⟩ rfl
  | failed failure => exact .failed failure
  | item token rest =>
    obtain ⟨own, later⟩ := Bool.and_eq_true_iff.mp untagged
    exact .done ⟨rfl, rfl, (Bool.not_eq_true' _).mp own⟩ later

theorem keeps_next (kinds : List Token.Kind) : Keeps (fun _ => True) (next kinds) :=
  .after keeps_peek fun _ _ => keeps_pure trivial

theorem keeps_get : Keeps (fun _ => True) get :=
  fun _ untagged => .done ⟨rfl, rfl, trivial⟩ untagged

theorem keeps_modify {change : NodeReader → NodeReader} (tokens : ∀ r, (change r).tokens = r.tokens)
    (count : ∀ r, (change r).count = r.count) : Keeps (fun _ => True) (modify change) :=
  fun r untagged => .done ⟨count r, rfl, trivial⟩ ((tokens r).symm ▸ untagged)

variable {place : Place} {fuel : Nat} {p : Properties} {start : Mark} {anchor : Option String}

theorem keeps_properties : Keeps (fun p => p.tag = none) properties := by
  refine .after keeps_peek fun first plain => ?_
  split
  next name kind =>
    refine .after keeps_take fun _ _ => .after keeps_peek fun second plain => ?_
    split
    next t kind => exact absurd plain (by simp [kind, Token.Kind.isTag])
    · exact keeps_pure rfl
  next t kind => exact absurd plain (by simp [kind, Token.Kind.isTag])
  · exact keeps_pure rfl

theorem keeps_resolveTag (none : p.tag = none) : Keeps (· = Option.none) (resolveTag p start) := by
  rw [resolveTag, none]
  exact keeps_pure rfl

theorem keeps_register : Keeps (fun _ => True) (register anchor start) := by
  rw [register.eq_def]
  split
  · exact keeps_pure trivial
  · refine .after keeps_get fun r _ => ?_
    split
    · exact .stop _
    · exact keeps_modify (fun _ => rfl) fun _ => rfl

theorem keeps_contentless {token : Token} :
    Keeps (fun _ => True) (contentless place p start token) := by
  rw [contentless]
  split
  · exact keeps_pure trivial
  · exact .stop _

theorem keeps_content : Keeps (fun _ => True) (content place p start) := by
  refine .after keeps_peek fun token _ => ?_
  split
  · split
    · exact keeps_pure trivial
    · exact keeps_contentless
  · exact .after keeps_take fun _ _ => keeps_pure trivial
  · exact keeps_pure trivial
  · exact keeps_pure trivial
  · split
    · exact keeps_contentless
    · exact keeps_pure trivial
  · split
    · exact keeps_contentless
    · exact keeps_pure trivial
  · exact keeps_contentless

theorem lockstep_head {tag other : String} :
    Lockstep count
      (fun high h g => high = count + 1 ∧ h.number = count ∧ h.tag = tag ∧ g = { h with tag := other })
      (head start anchor tag) (head start anchor other) := by
  rintro r rfl untagged
  exact .done ⟨Nat.le_succ _, rfl, rfl, rfl, rfl⟩ untagged

/-- The second node is the first with its dates, moments and equals signs as text, and is bare. Its
numbers go up from the first bound to the second. -/
structure Twin (low high : Nat) (n m : Node) : Prop where
  turned : m = n.texted
  bare : m.Bare
  rising : Rising low high m.numbers

structure TwinItems (low high : Nat) (ns ms : List Node) : Prop where
  turned : ms = Node.textedAll ns
  bare : ∀ m ∈ ms, m.Bare
  rising : Rising low high (ms.flatMap Node.numbers)

structure TwinPairs (low high : Nat) (ps qs : List (Node × Node)) : Prop where
  turned : qs = Node.textedPairs ps
  bare : Node.BarePairs qs
  rising : Rising low high (qs.flatMap fun q => q.1.numbers ++ q.2.numbers)

variable {n m k l : Node} {ns ms : List Node} {ps qs : List (Node × Node)} {h g : Node.Head}
  {text name : String} {tag : String} {low middle high late last : Nat}

theorem Twin.reference : Twin low high (.alias name) (.alias name) := ⟨rfl, .reference name, .nil⟩

theorem Twin.scalar (own : h.tag = tag) (bare : textTag tag ∈ bareTags) (number : h.number = low) :
    Twin low (low + 1) (.scalar h text) (.scalar { h with tag := textTag tag } text) :=
  ⟨by rw [Node.texted, own], .scalar bare,
    .cons (Nat.le_of_eq number.symm) (number ▸ Nat.lt_succ_self _) .nil⟩

theorem Twin.plain (bare : h.tag ∈ bareTags) (number : h.number = low) :
    Twin low (low + 1) (.scalar h text) (.scalar h text) := by
  have twins : Twin low (low + 1) (.scalar h text) (.scalar { h with tag := textTag h.tag } text) :=
    .scalar rfl ((textTag_bare bare).symm ▸ bare) number
  rwa [textTag_bare bare] at twins

theorem TwinItems.nil : TwinItems low high [] [] := ⟨rfl, nofun, .nil⟩

theorem TwinItems.cons (own : Twin low middle n m) (rest : TwinItems middle high ns ms)
    (below : low ≤ middle) (above : middle ≤ high) : TwinItems low high (n :: ns) (m :: ms) := by
  refine ⟨?_, List.forall_mem_cons.mpr ⟨own.bare, rest.bare⟩, ?_⟩
  · rw [own.turned, rest.turned, Node.textedAll]
  · exact own.rising.append rest.rising below above

theorem TwinPairs.nil : TwinPairs low high [] [] := ⟨rfl, nofun, .nil⟩

theorem TwinPairs.cons (key : Twin low middle k l) (value : Twin middle late n m)
    (rest : TwinPairs late high ps qs) (first : low ≤ middle) (second : middle ≤ late)
    (third : late ≤ high) : TwinPairs low high ((k, n) :: ps) ((l, m) :: qs) := by
  refine ⟨?_, List.forall_mem_cons.mpr ⟨⟨key.bare, value.bare⟩, rest.bare⟩, ?_⟩
  · rw [key.turned, value.turned, rest.turned, Node.textedPairs]
  · exact (key.rising.append value.rising first second).append rest.rising
      (Nat.le_trans first second) third

theorem TwinItems.sequence (items : TwinItems (low + 1) high ns ms) (own : h.tag = Tag.seq)
    (number : h.number = low) (le : low + 1 ≤ high) :
    Twin low high (.sequence h ns) (.sequence h ms) := by
  refine ⟨?_, .sequence own items.bare, ?_⟩
  · rw [items.turned, Node.texted]
  · rw [Node.numbers_sequence, number]
    exact .cons (Nat.le_refl _) le items.rising

theorem TwinPairs.mapping (pairs : TwinPairs (low + 1) high ps qs) (own : h.tag = Tag.map)
    (number : h.number = low) (le : low + 1 ≤ high) :
    Twin low high (.mapping h ps) (.mapping h qs) := by
  refine ⟨?_, .mapping own (fun q mem => (pairs.bare q mem).1) fun q mem => (pairs.bare q mem).2, ?_⟩
  · rw [pairs.turned, Node.texted]
  · rw [Node.numbers_mapping, number]
    exact .cons (Nat.le_refl _) le pairs.rising

/-- A scalar without a written tag. -/
theorem scalarTag_none (text : String) (plain : Bool) :
    scalarTag .manifest none text plain ∈ bareTags ∧
      scalarTag .manifest none text plain = textTag (scalarTag .full none text plain) := by
  cases plain with
  | true => exact tagOf_manifest text
  | false => exact ⟨str_mem_bareTags, (textTag_bare str_mem_bareTags).symm⟩

theorem lockstep_scalar (plain : Bool) :
    Lockstep count (Twin count)
      (do return .scalar (← head start anchor (scalarTag .full none text plain)) text)
      (do return .scalar (← head start anchor (scalarTag .manifest none text plain)) text) := by
  refine .bind lockstep_head fun _ h g _ ⟨next, number, own, same⟩ => .pure ?_
  obtain ⟨bare, turned⟩ := scalarTag_none text plain
  subst next same
  rw [turned] at bare ⊢
  exact .scalar own bare number

/-- A head that does not depend on the schema. -/
theorem Lockstep.afterHead {f : Node.Head → ReadNode γ} {g : Node.Head → ReadNode δ}
    (next : ∀ h, h.number = count → h.tag = tag → Lockstep (count + 1) S (f h) (g h)) :
    Lockstep count S (head start anchor tag >>= f) (head start anchor tag >>= g) := by
  refine .bind lockstep_head fun high h _ _ ⟨after, number, own, same⟩ => ?_
  subst after own same
  exact next h number rfl

theorem lockstep_empty : Lockstep count (Twin count) (empty start) (empty start) :=
  .afterHead fun _ number own => .pure (.plain (own ▸ by decide) number)

structure Parallel (fuel : Nat) : Prop where
  node : ∀ {count} place, Lockstep count (Twin count) (node .full place fuel)
    (node .manifest place fuel)
  nodeUnless : ∀ {count} kinds place after, Lockstep count (Twin count)
    (nodeUnless .full kinds place after fuel) (nodeUnless .manifest kinds place after fuel)
  blockItems : ∀ {count} opening, Lockstep count (TwinItems count) (blockItems .full opening fuel)
    (blockItems .manifest opening fuel)
  indentless : ∀ {count}, Lockstep count (TwinItems count) (indentless .full fuel)
    (indentless .manifest fuel)
  blockPairs : ∀ {count} opening, Lockstep count (TwinPairs count) (blockPairs .full opening fuel)
    (blockPairs .manifest opening fuel)
  blockValue : ∀ {count}, Lockstep count (Twin count) (blockValue .full fuel)
    (blockValue .manifest fuel)
  flowItems : ∀ {count} opening first, Lockstep count (TwinItems count)
    (flowItems .full opening first fuel) (flowItems .manifest opening first fuel)
  flowValue : ∀ {count} kinds, Lockstep count (Twin count) (flowValue .full kinds fuel)
    (flowValue .manifest kinds fuel)
  flowPairs : ∀ {count} opening first, Lockstep count (TwinPairs count)
    (flowPairs .full opening first fuel) (flowPairs .manifest opening first fuel)

theorem Parallel.zero : Parallel 0 where
  node _ := lockstep_empty
  nodeUnless _ _ _ := lockstep_empty
  blockItems _ := .pure .nil
  indentless := .pure .nil
  blockPairs _ := .pure .nil
  blockValue := lockstep_empty
  flowItems _ _ := .pure .nil
  flowValue _ := lockstep_empty
  flowPairs _ _ := .pure .nil

theorem lockstep_node (inner : Parallel fuel) :
    Lockstep count (Twin count) (node .full place (fuel + 1)) (node .manifest place (fuel + 1)) := by
  rw [node, node]
  refine .after keeps_peek fun first plain => ?_
  split
  next name kind =>
    refine .after keeps_take fun _ _ => .after keeps_get fun r _ => ?_
    split
    · exact .pure .reference
    · exact .stop _
  · refine .after keeps_properties fun p none => .after (keeps_resolveTag none) ?_
    rintro _ rfl
    simp only [pure_bind]
    apply Lockstep.join
    · intro agree
      cases p.start with
      | some start => exact agree start
      | none => exact .after keeps_peek fun token _ => agree token.start
    · intro start
      refine .after keeps_content fun content _ => .after keeps_register fun _ _ => ?_
      cases content with
      | scalar text plain => exact lockstep_scalar plain
      | empty => exact lockstep_scalar true
      | indentless =>
        exact .afterHead fun h number own => .bind inner.indentless fun _ _ _ le twins =>
          .pure (twins.sequence own number le)
      | blockSequence =>
        exact .afterHead fun h number own => .after keeps_take fun token _ =>
          .bind (inner.blockItems token.start) fun _ _ _ le twins =>
            .pure (twins.sequence own number le)
      | blockMapping =>
        exact .afterHead fun h number own => .after keeps_take fun token _ =>
          .bind (inner.blockPairs token.start) fun _ _ _ le twins =>
            .pure (twins.mapping own number le)
      | flowSequence =>
        exact .afterHead fun h number own => .after keeps_take fun token _ =>
          .bind (inner.flowItems token.start true) fun _ _ _ le twins =>
            .pure (twins.sequence own number le)
      | flowMapping =>
        exact .afterHead fun h number own => .after keeps_take fun token _ =>
          .bind (inner.flowPairs token.start true) fun _ _ _ le twins =>
            .pure (twins.mapping own number le)

theorem lockstep_nodeUnless (inner : Parallel fuel) {kinds : List Token.Kind} {after : Mark} :
    Lockstep count (Twin count) (nodeUnless .full kinds place after (fuel + 1))
      (nodeUnless .manifest kinds place after (fuel + 1)) := by
  rw [nodeUnless, nodeUnless]
  refine .after (keeps_next kinds) fun absent _ => ?_
  split
  · exact lockstep_empty
  · exact inner.node place

theorem lockstep_blockItems (inner : Parallel fuel) {opening : Mark} :
    Lockstep count (TwinItems count) (blockItems .full opening (fuel + 1))
      (blockItems .manifest opening (fuel + 1)) := by
  rw [blockItems, blockItems]
  refine .after keeps_peek fun token _ => ?_
  split
  · exact .after keeps_take fun _ _ => .bind (inner.nodeUnless _ _ _) fun _ _ _ below item =>
      .bind (inner.blockItems opening) fun _ _ _ above rest => .pure (.cons item rest below above)
  · exact .after keeps_take fun _ _ => .pure .nil
  · exact .stop _

theorem lockstep_indentless (inner : Parallel fuel) :
    Lockstep count (TwinItems count) (indentless .full (fuel + 1)) (indentless .manifest (fuel + 1)) := by
  rw [indentless, indentless]
  refine .after keeps_peek fun token _ => ?_
  split
  · exact .after keeps_take fun _ _ => .bind (inner.nodeUnless _ _ _) fun _ _ _ below item =>
      .bind inner.indentless fun _ _ _ above rest => .pure (.cons item rest below above)
  · exact .pure .nil

theorem lockstep_blockPairs (inner : Parallel fuel) {opening : Mark} :
    Lockstep count (TwinPairs count) (blockPairs .full opening (fuel + 1))
      (blockPairs .manifest opening (fuel + 1)) := by
  rw [blockPairs, blockPairs]
  refine .after keeps_peek fun token _ => ?_
  split
  · exact .after keeps_take fun _ _ => .bind (inner.nodeUnless _ _ _) fun _ _ _ first key =>
      .bind inner.blockValue fun _ _ _ second value =>
        .bind (inner.blockPairs opening) fun _ _ _ third rest =>
          .pure (.cons key value rest first second third)
  · exact .after keeps_take fun _ _ => .pure .nil
  · exact .stop _

theorem lockstep_blockValue (inner : Parallel fuel) :
    Lockstep count (Twin count) (blockValue .full (fuel + 1)) (blockValue .manifest (fuel + 1)) := by
  rw [blockValue, blockValue]
  refine .after keeps_peek fun token _ => ?_
  split
  · exact .after keeps_take fun _ _ => inner.nodeUnless _ _ _
  · exact lockstep_empty

theorem lockstep_flowValue (inner : Parallel fuel) {kinds : List Token.Kind} :
    Lockstep count (Twin count) (flowValue .full kinds (fuel + 1))
      (flowValue .manifest kinds (fuel + 1)) := by
  rw [flowValue, flowValue]
  refine .after keeps_peek fun token _ => ?_
  split
  · exact .after keeps_take fun _ _ => inner.nodeUnless _ _ _
  · exact lockstep_empty

theorem lockstep_flowItems (inner : Parallel fuel) {opening : Mark} {first : Bool} :
    Lockstep count (TwinItems count) (flowItems .full opening first (fuel + 1))
      (flowItems .manifest opening first (fuel + 1)) := by
  rw [flowItems, flowItems]
  refine .after (keeps_next _) fun closes _ => ?_
  dsimp only
  split
  · exact .after keeps_take fun _ _ => .pure .nil
  refine .after keeps_peek fun token _ => ?_
  apply Lockstep.shared
  · intro agree
    split
    · split
      · exact .after keeps_take fun _ _ => agree
      · exact .after (keeps_stop _) nofun
    · exact agree
  refine .after keeps_peek fun token _ => ?_
  split
  · refine .after keeps_take fun _ _ => .afterHead fun h number own => ?_
    refine .bind (inner.nodeUnless _ _ _) fun _ _ _ first key => ?_
    refine .bind (inner.flowValue _) fun late _ _ second value => ?_
    refine .bind (inner.flowItems _ _) fun _ _ _ above rest => .pure ?_
    have pair := TwinPairs.cons key value .nil first second (Nat.le_refl late)
    have below := Nat.le_trans first second
    exact .cons (pair.mapping own number below) rest (Nat.le_of_succ_le below) above
  · exact .after keeps_take fun _ _ => .pure .nil
  · exact .bind (inner.node _) fun _ _ _ below item =>
      .bind (inner.flowItems _ _) fun _ _ _ above rest => .pure (.cons item rest below above)

theorem lockstep_flowPairs (inner : Parallel fuel) {opening : Mark} {first : Bool} :
    Lockstep count (TwinPairs count) (flowPairs .full opening first (fuel + 1))
      (flowPairs .manifest opening first (fuel + 1)) := by
  rw [flowPairs, flowPairs]
  refine .after (keeps_next _) fun closes _ => ?_
  dsimp only
  split
  · exact .after keeps_take fun _ _ => .pure .nil
  refine .after keeps_peek fun token _ => ?_
  apply Lockstep.shared
  · intro agree
    split
    · split
      · exact .after keeps_take fun _ _ => agree
      · exact .after (keeps_stop _) nofun
    · exact agree
  refine .after keeps_peek fun token _ => ?_
  split
  · exact .after keeps_take fun _ _ => .bind (inner.nodeUnless _ _ _) fun _ _ _ first key =>
      .bind (inner.flowValue _) fun _ _ _ second value =>
        .bind (inner.flowPairs _ _) fun _ _ _ third rest =>
          .pure (.cons key value rest first second third)
  · exact .after keeps_take fun _ _ => .pure .nil
  · exact .bind (inner.node _) fun _ _ _ first key => .after keeps_peek fun _ _ =>
      .bind lockstep_empty fun _ _ _ second value =>
        .bind (inner.flowPairs _ _) fun _ _ _ third rest =>
          .pure (.cons key value rest first second third)

theorem parallel (fuel : Nat) : Parallel fuel := by
  induction fuel with
  | zero => exact .zero
  | succ fuel inner => exact {
      node := fun _ => lockstep_node inner
      nodeUnless := fun _ _ _ => lockstep_nodeUnless inner
      blockItems := fun _ => lockstep_blockItems inner
      indentless := lockstep_indentless inner
      blockPairs := fun _ => lockstep_blockPairs inner
      blockValue := lockstep_blockValue inner
      flowItems := fun _ _ => lockstep_flowItems inner
      flowValue := fun _ => lockstep_flowValue inner
      flowPairs := fun _ _ => lockstep_flowPairs inner }

end NodeReader
end OverlayBuild.Yaml

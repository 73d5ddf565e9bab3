import OverlayBuild.Proofs.Value.Mapping
import OverlayBuild.Proofs.Yaml.Nodes

/-! A node that spells a value is checked without complaint and has that value. -/
namespace OverlayBuild

namespace Yaml

variable {v : Value} {n : Node} {low high fuel : Nat} {vs : List Value} {es : List (Value × Value)}
  {ns : List Node} {ps : List (Node × Node)} {d : Document}

/-! The numbers of nodes. -/

def Within (low high : Nat) (v : Value) (n : Node) : Prop :=
  ∃ l h, low ≤ l ∧ h ≤ high ∧ Spells v n l h

def PairWithin (low high : Nat) (e : Value × Value) (p : Node × Node) : Prop :=
  ∃ key start l, e.1 = .str key ∧ p.1 = .scalar ⟨l, start, none, Tag.str⟩ key ∧ low ≤ l ∧
    Within (l + 1) high e.2 p.2

theorem Within.mono {l h : Nat} (within : Within l h v n) (first : low ≤ l) (last : h ≤ high) :
    Within low high v n := by
  obtain ⟨a, b, from_, until_, spells⟩ := within
  exact ⟨a, b, Nat.le_trans first from_, Nat.le_trans until_ last, spells⟩

theorem SpellsAll.parts (each : ∀ v ∈ vs, ∀ {n l h}, Spells v n l h → l < h)
    (all : SpellsAll vs ns low high) : low ≤ high ∧ List.Forall₂ (Within low high) vs ns := by
  induction vs generalizing ns low with
  | nil =>
    obtain ⟨rfl, rfl⟩ := all
    exact ⟨Nat.le_refl _, .nil⟩
  | cons v vs ih =>
    obtain ⟨n, more, middle, rfl, spells, all⟩ := all
    have own := each v List.mem_cons_self spells
    obtain ⟨later, parts⟩ := ih (fun v mem => each v (List.mem_cons_of_mem _ mem)) all
    refine ⟨by omega, .cons ⟨low, middle, Nat.le_refl _, later, spells⟩ ?_⟩
    exact parts.imp fun _ _ within => within.mono (by omega) (Nat.le_refl _)

theorem SpellsEntries.parts (each : ∀ e ∈ es, ∀ {n l h}, Spells e.2 n l h → l < h)
    (all : SpellsEntries es ps low high) : low ≤ high ∧ List.Forall₂ (PairWithin low high) es ps := by
  induction es generalizing ps low with
  | nil =>
    obtain ⟨rfl, rfl⟩ := all
    exact ⟨Nat.le_refl _, .nil⟩
  | cons e es ih =>
    obtain ⟨k, v⟩ := e
    obtain ⟨key, start, n, more, middle, rfl, rfl, spells, all⟩ := all
    have own := each _ List.mem_cons_self spells
    obtain ⟨later, parts⟩ := ih (fun v mem => each v (List.mem_cons_of_mem _ mem)) all
    refine ⟨by omega, .cons ⟨key, start, low, rfl, rfl, Nat.le_refl _,
      ⟨low + 1, middle, Nat.le_refl _, later, spells⟩⟩ ?_⟩
    refine parts.imp fun _ _ ⟨key, start, l, text, scalar, beyond, within⟩ => ?_
    exact ⟨key, start, l, text, scalar, by omega, within⟩

/-- A node takes a number at least. -/
theorem Spells.lt (spells : Spells v n low high) : low < high := by
  induction v using Value.nested generalizing n low high with
  | leaf v leaf =>
    cases v with
    | str => exact spells.2 ▸ Nat.lt_succ_self low
    | int => exact spells.2 ▸ Nat.lt_succ_self low
    | _ => first | exact spells.elim | exact leaf.elim
  | list items ih =>
    obtain ⟨_, _, rfl, all⟩ := spells
    exact (all.parts fun v mem _ _ _ => ih v mem).1
  | map entries ih =>
    obtain ⟨_, _, rfl, all⟩ := spells
    exact (all.parts fun e mem _ _ _ => ih e mem).1
  | tuple => exact spells.elim
  | set => exact spells.elim

theorem SpellsAll.within (all : SpellsAll vs ns low high) : List.Forall₂ (Within low high) vs ns :=
  (all.parts fun _ _ _ _ _ => Spells.lt).2

theorem SpellsEntries.within (all : SpellsEntries es ps low high) :
    List.Forall₂ (PairWithin low high) es ps :=
  (all.parts fun _ _ _ _ _ => Spells.lt).2

/-! The check. -/

/-- Nodes with tags that fit what they are, and with texts as keys. -/
inductive Sound : Node → Prop
  | str {head : Node.Head} {text : String} (tag : head.tag = Tag.str) : Sound (.scalar head text)
  | int {head : Node.Head} {text : String} {i : Int} (tag : head.tag = Tag.int)
    (value : intValue text.toList = .ok i) : Sound (.scalar head text)
  | sequence {head : Node.Head} {nodes : List Node} (tag : head.tag = Tag.seq)
    (each : ∀ n ∈ nodes, Sound n) : Sound (.sequence head nodes)
  | mapping {head : Node.Head} {pairs : List (Node × Node)} (tag : head.tag = Tag.map)
    (keys : ∀ p ∈ pairs, ∃ h t, p.1 = .scalar h t ∧ h.tag = Tag.str)
    (each : ∀ p ∈ pairs, Sound p.2) : Sound (.mapping head pairs)

theorem Spells.sound (spells : Spells v n low high) : Sound n := by
  induction v using Value.nested generalizing n low high with
  | leaf v leaf =>
    cases v with
    | str =>
      obtain ⟨⟨_, rfl⟩, -⟩ := spells
      exact .str rfl
    | int =>
      obtain ⟨⟨_, _, rfl, value⟩, -⟩ := spells
      exact .int rfl value
    | _ => first | exact spells.elim | exact leaf.elim
  | list items ih =>
    obtain ⟨_, nodes, rfl, all⟩ := spells
    refine .sequence rfl fun n mem => ?_
    obtain ⟨v, own, _, _, -, -, spells⟩ := exists_left all.within mem
    exact ih v own spells
  | map entries ih =>
    obtain ⟨_, pairs, rfl, all⟩ := spells
    refine .mapping rfl (fun p mem => ?_) fun p mem => ?_
    · obtain ⟨e, -, _, _, _, -, scalar, -⟩ := exists_left all.within mem
      exact ⟨_, _, scalar, rfl⟩
    · obtain ⟨e, own, _, _, _, -, -, -, _, _, -, -, spells⟩ := exists_left all.within mem
      exact ih e own spells
  | tuple => exact spells.elim
  | set => exact spells.elim

/-! Values. -/

@[simp] theorem Revision.none_tag (n : Node) : Revision.none.tag n = n.tag := by
  simp [Revision.tag, Revision.none]

namespace Document

variable {head : Node.Head} {text : String} {outer : List (Option Nat)} {i : Int} {rev : Revision}

@[simp] theorem follow_scalar : d.follow (.scalar head text) = .scalar head text := rfl

theorem scalarText_scalar (fuel : Nat) :
    d.scalarText rev (.scalar head text) (fuel + 1) = .ok text := rfl

theorem scalarValue_str : d.scalarValue rev .str (.scalar head text) = .ok (.str text) := rfl

theorem scalarValue_int (value : intValue text.toList = .ok i) :
    d.scalarValue rev .int (.scalar head text) = .ok (.int i) := by
  rw [scalarValue, scalarText_scalar]
  simp only [bind, Except.bind, ScalarTag.value, value]
  rfl

theorem nodeValue_scalar {tag : ScalarTag} (collection : CollectionTag.of? head.tag = none)
    (scalar : ScalarTag.of? head.tag = some tag) (value : d.scalarValue .none tag (.scalar head text) = .ok v)
    (fuel : Nat) : d.nodeValue .none outer (.scalar head text) (fuel + 1) = .ok v := by
  have own : (Node.scalar head text).tag = head.tag := rfl
  have unnoted (k : Nat) : Revision.none.scalars.lookup k = Option.none := rfl
  simp only [nodeValue, follow_scalar, Revision.none_tag, own, collection, unnoted, scalar, value]

theorem nodeValue_str (tag : head.tag = Tag.str) (fuel : Nat) :
    d.nodeValue .none outer (.scalar head text) (fuel + 1) = .ok (.str text) :=
  nodeValue_scalar (by rw [tag]; decide) (by rw [tag]; decide) scalarValue_str fuel

theorem nodeValue_int (tag : head.tag = Tag.int) (value : intValue text.toList = .ok i) (fuel : Nat) :
    d.nodeValue .none outer (.scalar head text) (fuel + 1) = .ok (.int i) :=
  nodeValue_scalar (by rw [tag]; decide) (by rw [tag]; decide) (scalarValue_int value) fuel

/-- Keys of text merge nothing and stay as they are. -/
theorem mergedPairs_of_texts (texts : ∀ p ∈ ps, ∃ h t, p.1 = .scalar h t ∧ h.tag = Tag.str) :
    d.mergedPairs .none head ps = .ok (.none, ps) := by
  have own : ∀ p ∈ ps, (d.follow p.1).tag = Tag.str := fun p mem => by
    obtain ⟨h, t, scalar, tag⟩ := texts p mem
    rw [scalar]
    exact tag
  have unmerged : (ps.find? fun p => d.isMergeKey p.1) = Option.none :=
    List.find?_eq_none.mpr fun p mem => by
      rw [isMergeKey, own p mem]
      decide
  have unturned : d.retag .none ps = .none := by
    have nothing : (ps.filterMap fun p =>
        let key := d.follow p.1
        if Revision.none.tag key = Tag.value then key.head?.map (·.number) else Option.none) = [] := by
      refine List.filterMap_eq_nil_iff.mpr fun p mem => if_neg ?_
      rw [Revision.none_tag, own p mem]
      decide
    rw [retag, nothing]
    rfl
  have held : Revision.none.pairsOf head ps = ps := rfl
  simp only [mergedPairs, merge, held, unmerged, unturned, List.nil_append, List.isEmpty_nil, if_true]

theorem mapM_of_forall₂ {α β : Type} {R : β → α → Prop} {f : α → Except Failure β} {as : List α}
    {bs : List β} (parts : List.Forall₂ R bs as) (each : ∀ b ∈ bs, ∀ a, R b a → f a = .ok b) :
    as.mapM f = .ok bs := by
  induction parts with
  | nil => rfl
  | @cons b a bs as own _ ih =>
    rw [List.mapM_cons, each b List.mem_cons_self a own,
      ih fun b mem => each b (List.mem_cons_of_mem _ mem)]
    rfl

/-- A node that spells a tidy value has that value. -/
theorem nodeValue_of_spells (tidy : v.Tidy) (spells : Spells v n low high)
    (enough : 2 * (high - low) ≤ fuel) (new : ∀ k, some k ∈ outer → k < low) :
    d.nodeValue .none outer n fuel = .ok v := by
  have size := spells.lt
  -- Nodes are numbered in the order of the text, so that none is met inside of itself.
  have inner {outer : List (Option Nat)} {low l : Nat} (new : ∀ k, some k ∈ outer → k < low)
      (first : low + 1 ≤ l) : ∀ k, some k ∈ some low :: outer → k < l := by
    intro k mem
    rcases List.mem_cons.mp mem with same | mem
    · obtain rfl := Option.some.inj same
      omega
    · have := new k mem
      omega
  induction v using Value.nested generalizing n low high fuel outer with
  | leaf v leaf =>
    obtain ⟨fuel, rfl⟩ := Nat.exists_eq_add_of_le' (by omega : 1 ≤ fuel)
    cases v with
    | str =>
      obtain ⟨⟨_, rfl⟩, -⟩ := spells
      exact nodeValue_str rfl _
    | int =>
      obtain ⟨⟨_, _, rfl, value⟩, -⟩ := spells
      exact nodeValue_int rfl value _
    | _ => first | exact spells.elim | exact leaf.elim
  | list items ih =>
    obtain ⟨start, nodes, rfl, all⟩ := spells
    obtain ⟨fuel, rfl⟩ := Nat.exists_eq_add_of_le' (by omega : 2 ≤ fuel)
    have apart : outer.idxOf? (some low) = none :=
      List.idxOf?_eq_none_iff.mpr fun mem => absurd (new low mem) (Nat.lt_irrefl low)
    have collection : CollectionTag.of? Tag.seq = some .seq := by decide
    have tag : (Node.sequence ⟨low, start, none, Tag.seq⟩ nodes).tag = Tag.seq := rfl
    have values : nodes.mapM (fun item => d.nodeValue .none (some low :: outer) item fuel) = .ok items := by
      refine mapM_of_forall₂ all.within fun v mem n ⟨l, h, first, last, own⟩ => ?_
      exact ih v mem (Value.tidyAll_iff.mp tidy v mem) own (by omega) (inner new first) own.lt
    rw [nodeValue]
    simp only [follow, Revision.none_tag, tag, Node.head?, Option.getD_some, collection, apart,
      collectionValue, values]
    rfl
  | map entries ih =>
    obtain ⟨start, pairs, rfl, all⟩ := spells
    obtain ⟨texts, distinct, tidy⟩ := tidy
    obtain ⟨fuel, rfl⟩ := Nat.exists_eq_add_of_le' (by omega : 2 ≤ fuel)
    have apart : outer.idxOf? (some low) = none :=
      List.idxOf?_eq_none_iff.mpr fun mem => absurd (new low mem) (Nat.lt_irrefl low)
    have collection : CollectionTag.of? Tag.map = some .map := by decide
    have tag : (Node.mapping ⟨low, start, none, Tag.map⟩ pairs).tag = Tag.map := rfl
    have values : pairs.mapM (fun p => do
        return (← d.nodeValue .none (some low :: outer) p.1 fuel,
          ← d.nodeValue .none (some low :: outer) p.2 fuel)) = .ok entries := by
      refine mapM_of_forall₂ all.within fun e mem p own => ?_
      obtain ⟨k, v⟩ := e
      obtain ⟨key, value⟩ := p
      obtain ⟨text, start, m, rfl, rfl, first, l, h, later, last, own⟩ := own
      have filled := own.lt
      obtain ⟨fuel, rfl⟩ := Nat.exists_eq_add_of_le' (by omega : 1 ≤ fuel)
      have second : d.nodeValue .none (some low :: outer) value (fuel + 1) = .ok v :=
        ih _ mem (Value.tidyEntries_iff.mp tidy _ mem) own (by omega) (inner new (by omega)) own.lt
      simp only [nodeValue_str, second]
      rfl
    have texts' : ∀ p ∈ pairs, ∃ h t, p.1 = .scalar h t ∧ h.tag = Tag.str := fun p mem => by
      obtain ⟨e, -, _, _, _, -, scalar, -⟩ := exists_left all.within mem
      exact ⟨_, _, scalar, rfl⟩
    rw [nodeValue]
    simp only [follow, Revision.none_tag, tag, Node.head?, Option.getD_some, collection, apart,
      collectionValue, mergedPairs_of_texts texts', bind, Except.bind]
    simp only [bind, Except.bind] at values
    rw [values]
    exact congrArg (Except.ok <| Value.map ·) (Value.ofPairs_of_nodup texts distinct)
  | tuple => exact spells.elim
  | set => exact spells.elim

/-- Only collections that are sound wait for their turn, and nothing has changed. -/
structure Agenda.Calm (agenda : Agenda) : Prop where
  waiting : ∀ n ∈ agenda.waiting, Sound n ∧ n.kind ≠ .scalar
  rev : agenda.rev = .none

theorem foldlM_calm {α : Type} {f : Agenda → α → Except Failure Agenda} {items : List α}
    {agenda : Agenda} (calm : agenda.Calm)
    (each : ∀ a ∈ items, ∀ agenda : Agenda, agenda.Calm →
      ∃ after, f agenda a = .ok after ∧ after.Calm) :
    ∃ after, items.foldlM f agenda = .ok after ∧ after.Calm := by
  induction items generalizing agenda with
  | nil => exact ⟨agenda, rfl, calm⟩
  | cons a items ih =>
    obtain ⟨own, each⟩ := List.forall_mem_cons.mp each
    obtain ⟨after, first, calm⟩ := own agenda calm
    obtain ⟨last, rest, calm⟩ := ih calm each
    exact ⟨last, by rw [List.foldlM_cons, first]; exact rest, calm⟩

theorem meet_scalar {tag : ScalarTag} {w : Value} (collection : CollectionTag.of? head.tag = none)
    (scalar : ScalarTag.of? head.tag = some tag)
    (value : d.scalarValue .none tag (.scalar head text) = .ok w) {agenda : Agenda}
    (calm : agenda.Calm) :
    ∃ after, d.meet agenda (.scalar head text) = .ok (true, after) ∧ after.Calm := by
  have own : (Node.scalar head text).tag = head.tag := rfl
  rw [meet]
  simp only [follow_scalar, calm.rev, Revision.none_tag, own, Node.head?, Option.getD_some, collection]
  by_cases met : agenda.met.contains head.number = true
  · exact ⟨agenda, by simp only [met, if_true]; rfl, calm⟩
  · refine ⟨⟨agenda.waiting, head.number :: agenda.met, .none⟩, ?_, ⟨calm.waiting, rfl⟩⟩
    simp only [met, Bool.false_eq_true, if_false, scalar, value]
    rfl

theorem meet_collection {tag : CollectionTag} (sound : Sound n) (other : n.kind ≠ .scalar)
    (own : n.head? = some head) (collection : CollectionTag.of? head.tag = some tag)
    {agenda : Agenda} (calm : agenda.Calm) :
    ∃ after, d.meet agenda n = .ok (false, after) ∧ after.Calm := by
  have stays : d.follow n = n := by
    cases n with
    | «alias» name => contradiction
    | _ => rfl
  have tagged : n.tag = head.tag := by simp [Node.tag, own]
  rw [meet]
  simp only [stays, calm.rev, Revision.none_tag, tagged, own, Option.getD_some, collection]
  cases met : agenda.met.contains head.number with
  | true => exact ⟨agenda, by simp only [if_true]; rfl, calm⟩
  | false =>
    refine ⟨⟨agenda.waiting ++ [n], head.number :: agenda.met, .none⟩,
      by simp only [Bool.false_eq_true, if_false]; rfl, ?_, rfl⟩
    exact List.forall_mem_append.mpr ⟨calm.waiting, List.forall_mem_singleton.mpr ⟨sound, other⟩⟩

theorem meet_sound (sound : Sound n) {agenda : Agenda} (calm : agenda.Calm) :
    ∃ key after, d.meet agenda n = .ok (key, after) ∧ after.Calm := by
  cases sound with
  | str tag =>
    exact ⟨true, meet_scalar (by rw [tag]; decide) (by rw [tag]; decide) scalarValue_str calm⟩
  | int tag value =>
    exact ⟨true, meet_scalar (by rw [tag]; decide) (by rw [tag]; decide)
      (scalarValue_int value) calm⟩
  | sequence tag each =>
    exact ⟨false, meet_collection (.sequence tag each) (by simp [Node.kind]) rfl
      (by rw [tag]; decide : CollectionTag.of? _ = some .seq) calm⟩
  | mapping tag keys each =>
    exact ⟨false, meet_collection (.mapping tag keys each) (by simp [Node.kind]) rfl
      (by rw [tag]; decide : CollectionTag.of? _ = some .map) calm⟩

theorem checkCollection_sound (sound : Sound n) (other : n.kind ≠ .scalar) {agenda : Agenda}
    (calm : agenda.Calm) : ∃ after, d.checkCollection agenda n = .ok after ∧ after.Calm := by
  cases sound with
  | str => exact absurd rfl other
  | int => exact absurd rfl other
  | @sequence head nodes tag each =>
    have collection : CollectionTag.of? Tag.seq = some .seq := by decide
    rw [checkCollection]
    simp only [Node.tag, Node.head?, Option.map_some, Option.getD_some, tag, collection]
    refine foldlM_calm calm fun n mem agenda calm => ?_
    obtain ⟨key, after, met, calm⟩ := meet_sound (d := d) (each n mem) calm
    exact ⟨after, by rw [met]; rfl, calm⟩
  | @mapping head pairs tag keys each =>
    have collection : CollectionTag.of? Tag.map = some .map := by decide
    rw [checkCollection]
    simp only [Node.tag, Node.head?, Option.map_some, Option.getD_some, tag, collection,
      calm.rev, mergedPairs_of_texts keys]
    refine foldlM_calm ⟨calm.waiting, rfl⟩ fun p mem agenda calm => ?_
    obtain ⟨h, t, scalar, tag⟩ := keys p mem
    obtain ⟨middle, first, calm⟩ := meet_scalar (d := d)
      (by rw [tag]; decide) (by rw [tag]; decide) scalarValue_str calm
    obtain ⟨key, after, second, calm⟩ := meet_sound (d := d) (each p mem) calm
    refine ⟨after, ?_, calm⟩
    rw [meetPair, scalar, first]
    simp only [bind, Except.bind, second]
    rfl

theorem checkFrom_calm {agenda : Agenda} (calm : agenda.Calm) (fuel : Nat) :
    d.checkFrom agenda fuel = .ok .none := by
  induction fuel generalizing agenda with
  | zero => exact congrArg Except.ok calm.rev
  | succ fuel ih =>
    obtain ⟨waiting, met, rev⟩ := agenda
    rw [checkFrom]
    cases waiting with
    | nil => exact congrArg Except.ok calm.rev
    | cons n waiting =>
      obtain ⟨⟨sound, other⟩, later⟩ := List.forall_mem_cons.mp calm.waiting
      have calm : Agenda.Calm ⟨waiting, met, rev⟩ := ⟨later, calm.rev⟩
      obtain ⟨after, checked, calm⟩ := checkCollection_sound (d := d) sound other calm
      simp only [checked]
      exact ih calm

/-- A document of sound nodes is checked without complaint, and nothing in it changes. -/
theorem check_sound (sound : Sound d.root) : d.check = .ok .none := by
  have calm : Agenda.Calm ⟨[], [], .none⟩ := ⟨nofun, rfl⟩
  obtain ⟨key, after, met, calm⟩ := meet_sound (d := d) sound calm
  rw [check, met]
  exact checkFrom_calm calm _

/-- The value of a document whose root spells it. -/
theorem value_of_spells (tidy : v.Tidy) (spells : Spells v n 0 high) :
    (ofRoot n high).value = .ok v := by
  have checked : (ofRoot n high).check = .ok .none := check_sound spells.sound
  rw [value, checked]
  exact nodeValue_of_spells tidy spells (by simp only [ofRoot]; omega) nofun

end Document

/-! Whole documents. -/

open NodeReader

variable {r : NodeReader} {t : Token} {ts : List Token} {count : Nat} {schema : Schema}
  {ks : List Token.Kind}

theorem skipDocumentEnds_of_ne (other : t.kind ≠ .documentEnd) (fuel : Nat) :
    (skipDocumentEnds fuel).run (r.before (t :: ts) count) = .ok ((), r.before (t :: ts) count) := by
  cases fuel with
  | zero => rfl
  | succ fuel =>
    have none : [Token.Kind.documentEnd].contains t.kind = false := by simpa using other
    rw [skipDocumentEnds, run_bind (run_next _), none]
    rfl

/-- A document is opened by the mark of its start. -/
theorem openDocument_start (kind : t.kind = .documentStart) (first : Bool) (fuel : Nat) :
    ∃ handles, (openDocument first fuel).run (r.before (t :: ts) count) =
      .ok (some (t.start, true), { r with handles := handles }.before ts count) := by
  have none (handles : List (String × String)) :
      (directives false handles fuel).run (r.before (t :: ts) count) =
      .ok (handles, r.before (t :: ts) count) := by
    cases fuel with
    | zero => rfl
    | succ fuel =>
      rw [directives, run_bind run_peek]
      simp only [kind]
      rfl
  let handles := [] ++ defaultHandles.filter fun h => (([] : List (String × String)).lookup h.1).isNone
  have marker : peek.run ({ r with handles := handles }.before (t :: ts) count) =
      .ok (t, { r with handles := handles }.before (t :: ts) count) := rfl
  refine ⟨handles, ?_⟩
  rw [openDocument, run_bind run_peek]
  simp only [kind, Bool.not_true, Bool.and_false, Bool.false_eq_true, if_false]
  rw [run_bind (skipDocumentEnds_of_ne (by rw [kind]; decide) fuel), run_bind run_peek]
  simp only [kind, reduceCtorEq, if_false]
  rw [run_bind (none []), StateT.run_bind, StateT.run_modify, pure_bind]
  refine (run_bind marker).trans ?_
  simp only [kind, if_true]
  rfl

/-- No document is left where the stream ends. -/
theorem openDocument_end (kind : t.kind = .streamEnd) (fuel : Nat) :
    (openDocument false fuel).run (r.before (t :: ts) count) =
      .ok (none, r.before (t :: ts) count) := by
  rw [openDocument, run_bind run_peek]
  simp only [Bool.false_and, Bool.false_eq_true, if_false]
  rw [run_bind (skipDocumentEnds_of_ne (by rw [kind]; decide) fuel), run_bind run_peek]
  simp only [kind, if_true]
  rfl

/-- The root of a document is read, with the mark of its end. -/
theorem documentNode_spells (reads : Reads schema false (.blockMappingStart :: ks) v)
    (kinds : ts.map (·.kind) = .blockMappingStart :: ks) (enough : 3 * ts.length ≤ fuel)
    (r : NodeReader) (count : Nat) (next : Token) (more : List Token) :
    ∃ root high, (documentNode schema true fuel).run (r.before (ts ++ next :: more) count) =
        .ok (root, { r with anchors := [] }.before
          (if next.kind = Token.Kind.documentEnd then more else next :: more) high) ∧
      Spells v root 0 high := by
  have size : (Token.Kind.blockMappingStart :: ks).length = ts.length := by
    rw [← kinds, List.length_map]
  obtain ⟨root, high, read, spells⟩ :=
    reads.reads { r with anchors := [] } .block fuel 0 next more kinds (by omega)
      (by decide) nofun
  refine ⟨root, high, ?_, spells⟩
  obtain ⟨t, rest, rfl, kind, -⟩ := exists_token kinds
  have first : peek.run ({ r with anchors := [] }.before (t :: (rest ++ next :: more)) 0) =
      .ok (t, { r with anchors := [] }.before (t :: (rest ++ next :: more)) 0) := rfl
  rw [documentNode, StateT.run_bind, StateT.run_modify, pure_bind]
  refine (run_bind first).trans ?_
  simp only [kind, Bool.and_false, Bool.false_eq_true, if_false]
  rw [List.cons_append] at read
  rw [run_bind read, run_bind (run_next _)]
  by_cases ends : next.kind = .documentEnd
  · have here : [Token.Kind.documentEnd].contains next.kind = true := by simp [ends]
    rw [here, if_pos ends]
    rfl
  · have none : [Token.Kind.documentEnd].contains next.kind = false := by simpa using ends
    rw [none, if_neg ends]
    rfl

theorem length_ofList {α : Type} (items : List α) : (Stream.ofList items).length = items.length := by
  induction items with
  | nil => rfl
  | cons a items ih => rw [Stream.ofList, Stream.length, ih, List.length_cons]

/-- A text with the tokens of one document whose root spells a tidy value is read as that value. -/
theorem read_of_tokens {text : List Char} {marked : Bool} (clean : unacceptable? text = none)
    (all : tokens text = Stream.ofList ts)
    (kinds : ts.map (·.kind) = [.streamStart, .documentStart, .blockMappingStart] ++ ks ++
      (if marked then [.documentEnd] else []) ++ [.streamEnd])
    (reads : Reads schema false (.blockMappingStart :: ks) v) (tidy : v.Tidy) :
    read schema text = .ok v := by
  have shape : [.streamStart, .documentStart, .blockMappingStart] ++ ks ++
      (if marked then [.documentEnd] else []) ++ [.streamEnd] =
        Token.Kind.streamStart :: .documentStart :: ((.blockMappingStart :: ks) ++
          ((if marked then [.documentEnd] else []) ++ [.streamEnd])) := by simp
  rw [shape] at kinds
  obtain ⟨s, ts, rfl, -, kinds⟩ := exists_token kinds
  obtain ⟨o, ts, rfl, opens, kinds⟩ := exists_token kinds
  obtain ⟨body, last, rfl, own, ends⟩ := List.map_eq_append_iff.mp kinds
  obtain ⟨next, more, final, rfl, done, stops⟩ : ∃ next more final, last = next :: more ∧
      (if next.kind = Token.Kind.documentEnd then more else next :: more) = [final] ∧
        final.kind = .streamEnd := by
    cases marked with
    | false =>
      obtain ⟨final, rest, rfl, stops, none⟩ := exists_token ends
      obtain rfl := List.map_eq_nil_iff.mp none
      exact ⟨final, [], final, rfl, by simp [stops], stops⟩
    | true =>
      obtain ⟨next, rest, rfl, marker, ends⟩ := exists_token ends
      obtain ⟨final, rest, rfl, stops, none⟩ := exists_token ends
      obtain rfl := List.map_eq_nil_iff.mp none
      exact ⟨next, [final], final, rfl, by simp [marker], stops⟩
  let fuel := 4 * (Stream.ofList (s :: o :: (body ++ next :: more))).length + 8
  have enough : 3 * body.length ≤ fuel := by
    simp only [fuel, length_ofList, List.length_cons, List.length_append]
    omega
  let blank : NodeReader := ⟨.done, [], [], 0⟩
  obtain ⟨handles, opened⟩ := openDocument_start (r := blank)
    opens true fuel
  obtain ⟨root, high, read, spells⟩ :=
    documentNode_spells reads own enough { blank with handles := handles } 0 next more
  rw [done] at read
  have document : (nextDocument schema true fuel).run (blank.before (o :: (body ++ next :: more)) 0) =
      .ok (some (o.start, Document.ofRoot root high),
        { blank with handles := handles }.before [final] high) := by
    rw [nextDocument, run_bind opened]
    refine (run_bind read).trans ?_
    rfl
  have none : (openDocument false fuel).run
      ({ blank with handles := handles }.before [final] high) = _ := openDocument_end stops fuel
  have start : openText text = .ok (blank.before (o :: (body ++ next :: more)) 0, fuel) := by
    rw [openText, clean, all]
    rfl
  rw [Yaml.read, start]
  simp only [bind, Except.bind, document, none]
  exact Document.value_of_spells tidy spells

end Yaml

end OverlayBuild

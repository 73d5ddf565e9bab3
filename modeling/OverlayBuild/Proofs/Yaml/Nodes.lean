import OverlayBuild.Proofs.Yaml.Stream
import OverlayBuild.Yaml.Document

/-! The nodes that are read from the tokens of blocks, and the values that they spell. -/
namespace OverlayBuild.Yaml

/-! Steps of the reader. -/

namespace NodeReader

/-- The reader before the tokens, after a number of nodes. -/
def before (r : NodeReader) (ts : List Token) (count : Nat) : NodeReader :=
  { r with tokens := Stream.ofList ts, count := count }

variable {α β : Type} {r r' : NodeReader} {t : Token} {ts : List Token} {n fuel : Nat} {a : α}
  {x : ReadNode α} {f : α → ReadNode β} {schema : Schema} {place : Place}

theorem run_bind (done : x.run r = .ok (a, r')) : (x >>= f).run r = (f a).run r' := by
  rw [StateT.run_bind, done]
  rfl

theorem run_map {g : α → β} (done : x.run r = .ok (a, r')) : (g <$> x).run r = .ok (g a, r') := by
  rw [StateT.run_map, done]
  rfl

@[simp] theorem run_peek : peek.run (r.before (t :: ts) n) = .ok (t, r.before (t :: ts) n) := rfl

@[simp] theorem run_take : take.run (r.before (t :: ts) n) = .ok (t, r.before ts n) := rfl

@[simp] theorem run_next (kinds : List Token.Kind) :
    (next kinds).run (r.before (t :: ts) n) = .ok (kinds.contains t.kind, r.before (t :: ts) n) := rfl

@[simp] theorem run_head (start : Mark) (anchor : Option String) (tag : String) :
    (head start anchor tag).run (r.before ts n) =
      .ok (⟨n, start, anchor, tag⟩, r.before ts (n + 1)) := rfl

/-! What a node is by its first token. -/

theorem node_scalar {text : String} {style : ScalarStyle} (kind : t.kind = .scalar text style) :
    (node schema place (fuel + 1)).run (r.before (t :: ts) n) =
      .ok (.scalar ⟨n, t.start, none, scalarTag schema none text (style == .plain)⟩ text,
        r.before ts (n + 1)) := by
  simp [node, properties, resolveTag, content, register, kind, ok_bind]

theorem node_indentless (kind : t.kind = .blockEntry) :
    (node schema .afterKey (fuel + 1)).run (r.before (t :: ts) n) =
      (Node.sequence ⟨n, t.start, none, Tag.seq⟩ <$> indentless schema fuel).run
        (r.before (t :: ts) (n + 1)) := by
  simp [node, properties, resolveTag, content, register, kind, ok_bind, collectionTag]

theorem node_blockSequence (kind : t.kind = .blockSequenceStart) (block : place ≠ .flow) :
    (node schema place (fuel + 1)).run (r.before (t :: ts) n) =
      (Node.sequence ⟨n, t.start, none, Tag.seq⟩ <$> blockItems schema t.start fuel).run
        (r.before ts (n + 1)) := by
  simp [node, properties, resolveTag, content, register, kind, ok_bind, collectionTag, block]

theorem node_blockMapping (kind : t.kind = .blockMappingStart) (block : place ≠ .flow) :
    (node schema place (fuel + 1)).run (r.before (t :: ts) n) =
      (Node.mapping ⟨n, t.start, none, Tag.map⟩ <$> blockPairs schema t.start fuel).run
        (r.before ts (n + 1)) := by
  simp [node, properties, resolveTag, content, register, kind, ok_bind, collectionTag, block]

theorem node_flowSequence (kind : t.kind = .flowSequenceStart) :
    (node schema place (fuel + 1)).run (r.before (t :: ts) n) =
      (Node.sequence ⟨n, t.start, none, Tag.seq⟩ <$> flowItems schema t.start true fuel).run
        (r.before ts (n + 1)) := by
  simp [node, properties, resolveTag, content, register, kind, ok_bind, collectionTag]

theorem node_flowMapping (kind : t.kind = .flowMappingStart) :
    (node schema place (fuel + 1)).run (r.before (t :: ts) n) =
      (Node.mapping ⟨n, t.start, none, Tag.map⟩ <$> flowPairs schema t.start true fuel).run
        (r.before ts (n + 1)) := by
  simp [node, properties, resolveTag, content, register, kind, ok_bind, collectionTag]

theorem nodeUnless_of_not_mem {kinds : List Token.Kind} {after : Mark} (other : t.kind ∉ kinds) :
    (nodeUnless schema kinds place after (fuel + 1)).run (r.before (t :: ts) n) =
      (node schema place fuel).run (r.before (t :: ts) n) := by
  have none : kinds.contains t.kind = false := by simpa using other
  rw [nodeUnless, run_bind (run_next kinds), none]
  rfl

end NodeReader

open NodeReader

variable {v : Value} {text : String}

/-! The values that nodes spell. -/

mutual
/-- The node has the value, and its nodes have the numbers from `low` up to `high`. -/
def Spells : Value → Node → Nat → Nat → Prop
  | .str text, n, low, high => (∃ start, n = .scalar ⟨low, start, none, Tag.str⟩ text) ∧ high = low + 1
  | .int i, n, low, high =>
    (∃ start text, n = .scalar ⟨low, start, none, Tag.int⟩ text ∧ intValue text.toList = .ok i) ∧
      high = low + 1
  | .list items, n, low, high =>
    ∃ start nodes, n = .sequence ⟨low, start, none, Tag.seq⟩ nodes ∧
      SpellsAll items nodes (low + 1) high
  | .map entries, n, low, high =>
    ∃ start pairs, n = .mapping ⟨low, start, none, Tag.map⟩ pairs ∧
      SpellsEntries entries pairs (low + 1) high
  | _, _, _, _ => False
termination_by structural v => v
def SpellsAll : List Value → List Node → Nat → Nat → Prop
  | [], ns, low, high => ns = [] ∧ high = low
  | v :: vs, ns, low, high =>
    ∃ n more middle, ns = n :: more ∧ Spells v n low middle ∧ SpellsAll vs more middle high
termination_by structural vs => vs
def SpellsEntries : List (Value × Value) → List (Node × Node) → Nat → Nat → Prop
  | [], ps, low, high => ps = [] ∧ high = low
  | (k, v) :: es, ps, low, high =>
    ∃ key start n more middle, k = .str key ∧
      ps = (.scalar ⟨low, start, none, Tag.str⟩ key, n) :: more ∧ Spells v n (low + 1) middle ∧
        SpellsEntries es more middle high
termination_by structural es => es
end

/-- Tokens of these kinds are read as a node that spells the value. A sequence that stands at the
column of its key is `loose`: it goes on as long as items follow. -/
structure Reads (schema : Schema) (loose : Bool) (ks : List Token.Kind) (v : Value) : Prop where
  starts : ∃ k more, ks = k :: more ∧ k ∉ [.key, .value, .blockEnd] ∧ (loose = false → k ≠ .blockEntry)
  reads : ∀ (r : NodeReader) (place : Place) (fuel low : Nat) (next : Token) (more : List Token)
    {ts : List Token}, ts.map (·.kind) = ks → 3 * ks.length ≤ fuel →
    place ≠ .flow → (loose = true → place = .afterKey ∧ next.kind ≠ .blockEntry) →
    ∃ n high, (node schema place fuel).run (r.before (ts ++ next :: more) low) =
      .ok (n, r.before (next :: more) high) ∧ Spells v n low high

structure ReadsItems (schema : Schema) (ks : List Token.Kind) (vs : List Value) : Prop where
  starts : ∀ k ∈ ks.head?, k = .blockEntry
  closed : ∀ (r : NodeReader) (opening : Mark) (fuel low : Nat) (stop : Token) (more : List Token)
    {ts : List Token}, ts.map (·.kind) = ks → 3 * ks.length + 1 ≤ fuel →
    stop.kind = .blockEnd →
    ∃ ns high, (blockItems schema opening fuel).run (r.before (ts ++ stop :: more) low) =
      .ok (ns, r.before more high) ∧ SpellsAll vs ns low high
  loose : ∀ (r : NodeReader) (fuel low : Nat) (next : Token) (more : List Token)
    {ts : List Token}, ts.map (·.kind) = ks → 3 * ks.length ≤ fuel + 1 →
    next.kind ≠ .blockEntry →
    ∃ ns high, (indentless schema fuel).run (r.before (ts ++ next :: more) low) =
      .ok (ns, r.before (next :: more) high) ∧ SpellsAll vs ns low high

structure ReadsPairs (schema : Schema) (ks : List Token.Kind) (es : List (Value × Value)) : Prop where
  starts : ∀ k ∈ ks.head?, k = .key
  closed : ∀ (r : NodeReader) (opening : Mark) (fuel low : Nat) (stop : Token) (more : List Token)
    {ts : List Token}, ts.map (·.kind) = ks → 3 * ks.length + 1 ≤ fuel →
    stop.kind = .blockEnd →
    ∃ ps high, (blockPairs schema opening fuel).run (r.before (ts ++ stop :: more) low) =
      .ok (ps, r.before more high) ∧ SpellsEntries es ps low high

variable {schema : Schema} {loose : Bool} {ks later : List Token.Kind} {vs : List Value}
  {es : List (Value × Value)} {style : ScalarStyle} {i : Int}

/-- One token of the kind. -/
theorem exists_token {ts : List Token} {k : Token.Kind} {ks : List Token.Kind}
    (kinds : ts.map (·.kind) = k :: ks) :
    ∃ t more, ts = t :: more ∧ t.kind = k ∧ more.map (·.kind) = ks :=
  List.map_eq_cons_iff.mp kinds

theorem Reads.str (told : style = .plain → schema.tagOf text = Tag.str) :
    Reads schema false [.scalar text style] (.str text) where
  starts := ⟨_, _, rfl, by simp, nofun⟩
  reads r place fuel low next more ts kinds enough _ _ := by
    obtain ⟨t, rest, rfl, kind, none⟩ := exists_token kinds
    obtain rfl := List.map_eq_nil_iff.mp none
    obtain ⟨fuel, rfl⟩ := Nat.exists_eq_add_of_le' (Nat.le_trans (by simp) enough : 1 ≤ fuel)
    refine ⟨_, _, node_scalar kind, ⟨t.start, ?_⟩, rfl⟩
    cases style <;> simp [scalarTag, told]

theorem Reads.int (told : schema.tagOf text = Tag.int) (value : intValue text.toList = .ok i) :
    Reads schema false [.scalar text .plain] (.int i) where
  starts := ⟨_, _, rfl, by simp, nofun⟩
  reads r place fuel low next more ts kinds enough _ _ := by
    obtain ⟨t, rest, rfl, kind, none⟩ := exists_token kinds
    obtain rfl := List.map_eq_nil_iff.mp none
    obtain ⟨fuel, rfl⟩ := Nat.exists_eq_add_of_le' (Nat.le_trans (by simp) enough : 1 ≤ fuel)
    exact ⟨_, _, node_scalar kind, ⟨t.start, text, by simp [scalarTag, told], value⟩, rfl⟩

theorem Reads.emptyList : Reads schema false [.flowSequenceStart, .flowSequenceEnd] (.list []) where
  starts := ⟨_, _, rfl, by simp, by simp⟩
  reads r place fuel low next more ts kinds enough _ _ := by
    obtain ⟨t, rest, rfl, kind, kinds⟩ := exists_token kinds
    obtain ⟨u, rest, rfl, closes, none⟩ := exists_token kinds
    obtain rfl := List.map_eq_nil_iff.mp none
    obtain ⟨fuel, rfl⟩ := Nat.exists_eq_add_of_le' (Nat.le_trans (by simp) enough : 2 ≤ fuel)
    have empty :
        (flowItems schema t.start true (fuel + 1)).run (r.before (u :: next :: more) (low + 1)) =
        .ok ([], r.before (next :: more) (low + 1)) := by
      simp [flowItems, ok_bind, closes]
    refine ⟨_, _, ?_, t.start, [], rfl, rfl, rfl⟩
    rw [List.cons_append, List.singleton_append, node_flowSequence kind]
    exact run_map empty

theorem Reads.emptyMap : Reads schema false [.flowMappingStart, .flowMappingEnd] (.map []) where
  starts := ⟨_, _, rfl, by simp, by simp⟩
  reads r place fuel low next more ts kinds enough _ _ := by
    obtain ⟨t, rest, rfl, kind, kinds⟩ := exists_token kinds
    obtain ⟨u, rest, rfl, closes, none⟩ := exists_token kinds
    obtain rfl := List.map_eq_nil_iff.mp none
    obtain ⟨fuel, rfl⟩ := Nat.exists_eq_add_of_le' (Nat.le_trans (by simp) enough : 2 ≤ fuel)
    have empty :
        (flowPairs schema t.start true (fuel + 1)).run (r.before (u :: next :: more) (low + 1)) =
        .ok ([], r.before (next :: more) (low + 1)) := by
      simp [flowPairs, ok_bind, closes]
    refine ⟨_, _, ?_, t.start, [], rfl, rfl, rfl⟩
    rw [List.cons_append, List.singleton_append, node_flowMapping kind]
    exact run_map empty

theorem ReadsItems.nil : ReadsItems schema [] [] where
  starts := nofun
  closed r opening fuel low stop more ts kinds enough closes := by
    obtain rfl := List.map_eq_nil_iff.mp kinds
    obtain ⟨fuel, rfl⟩ := Nat.exists_eq_add_of_le' (Nat.le_trans (by simp) enough : 1 ≤ fuel)
    exact ⟨[], low, by simp [blockItems, ok_bind, closes], rfl, rfl⟩
  loose r fuel low next more ts kinds _ other := by
    obtain rfl := List.map_eq_nil_iff.mp kinds
    refine ⟨[], low, ?_, rfl, rfl⟩
    cases fuel with
    | zero => rfl
    | succ fuel =>
      rw [List.nil_append, indentless, run_bind run_peek]
      simp only [other, if_false]
      rfl

/-- A node where none of the kinds stands that leave it out. -/
theorem Reads.unless (own : Reads schema loose ks v) (kinds : List Token.Kind)
    (among : ∀ k ∈ kinds, k ∈ [.key, .value, .blockEnd] ∨ loose = false ∧ k = .blockEntry)
    (r : NodeReader) (place : Place) (after : Mark) (fuel low : Nat) (next : Token) (more : List Token)
    {ts : List Token} (same : ts.map (·.kind) = ks) (enough : 3 * ks.length + 1 ≤ fuel)
    (block : place ≠ .flow)
    (ends : loose = true → place = .afterKey ∧ next.kind ≠ .blockEntry) :
    ∃ n high, (nodeUnless schema kinds place after fuel).run (r.before (ts ++ next :: more) low) =
      .ok (n, r.before (next :: more) high) ∧ Spells v n low high := by
  obtain ⟨k, later, rfl, other, entry⟩ := own.starts
  obtain ⟨t, rest, rfl, rfl, -⟩ := exists_token same
  obtain ⟨fuel, rfl⟩ := Nat.exists_eq_add_of_le' (Nat.le_trans (Nat.le_add_left 1 _) enough)
  have none : t.kind ∉ kinds := fun mem => by
    rcases among _ mem with first | ⟨tight, first⟩
    · exact other first
    · exact entry tight first
  rw [List.cons_append, nodeUnless_of_not_mem none, ← List.cons_append]
  exact own.reads r place fuel low next more same (by omega) block ends

theorem ReadsItems.cons (item : Reads schema false ks v) (rest : ReadsItems schema later vs) :
    ReadsItems schema (.blockEntry :: (ks ++ later)) (v :: vs) where
  starts := by simp
  closed r opening fuel low stop more ts kinds enough closes := by
    obtain ⟨t, ts, rfl, entry, kinds⟩ := exists_token kinds
    obtain ⟨first, others, rfl, own, same⟩ := List.map_eq_append_iff.mp kinds
    obtain ⟨fuel, rfl⟩ := Nat.exists_eq_add_of_le' (Nat.le_trans (Nat.le_add_left 1 _) enough)
    obtain ⟨next, later', follows⟩ : ∃ next later', others ++ stop :: more = next :: later' :=
      List.exists_cons_of_ne_nil (by simp)
    simp only [List.length_cons, List.length_append] at enough
    obtain ⟨n, middle, read, spells⟩ := item.unless [.blockEntry, .blockEnd] (by simp) r .block t.stop
      fuel low next later' own (by omega) (by decide) nofun
    obtain ⟨ns, high, reads, all⟩ := rest.closed r opening fuel middle stop more same (by omega) closes
    refine ⟨n :: ns, high, ?_, n, ns, middle, rfl, spells, all⟩
    rw [List.cons_append, List.append_assoc, follows, blockItems, run_bind run_peek]
    simp only [entry]
    rw [run_bind run_take, run_bind read, ← follows]
    exact run_map (g := (n :: ·)) reads
  loose r fuel low next more ts kinds enough other := by
    obtain ⟨t, ts, rfl, entry, kinds⟩ := exists_token kinds
    obtain ⟨first, others, rfl, own, same⟩ := List.map_eq_append_iff.mp kinds
    simp only [List.length_cons, List.length_append] at enough
    obtain ⟨fuel, rfl⟩ := Nat.exists_eq_add_of_le' (by omega : 1 ≤ fuel)
    obtain ⟨next', later', follows⟩ : ∃ next' later', others ++ next :: more = next' :: later' :=
      List.exists_cons_of_ne_nil (by simp)
    obtain ⟨n, middle, read, spells⟩ := item.unless [.blockEntry, .key, .value, .blockEnd] (by simp)
      r .block t.stop fuel low next' later' own (by omega) (by decide) nofun
    obtain ⟨ns, high, reads, all⟩ := rest.loose r fuel middle next more same (by omega) other
    refine ⟨n :: ns, high, ?_, n, ns, middle, rfl, spells, all⟩
    rw [List.cons_append, List.append_assoc, follows, indentless, run_bind run_peek]
    simp only [entry, if_true]
    rw [run_bind run_take, run_bind read, ← follows]
    exact run_map (g := (n :: ·)) reads

/-- An indented sequence. -/
theorem ReadsItems.block (items : ReadsItems schema ks vs) :
    Reads schema false (.blockSequenceStart :: (ks ++ [.blockEnd])) (.list vs) where
  starts := ⟨_, _, rfl, by simp, by simp⟩
  reads r place fuel low next more ts kinds enough block _ := by
    obtain ⟨t, ts, rfl, kind, kinds⟩ := exists_token kinds
    obtain ⟨inner, last, rfl, same, ends⟩ := List.map_eq_append_iff.mp kinds
    obtain ⟨stop, rest, rfl, closes, none⟩ := exists_token ends
    obtain rfl := List.map_eq_nil_iff.mp none
    simp only [List.length_cons, List.length_append] at enough
    obtain ⟨fuel, rfl⟩ := Nat.exists_eq_add_of_le' (by omega : 1 ≤ fuel)
    obtain ⟨ns, high, reads, all⟩ := items.closed r t.start fuel (low + 1) stop (next :: more) same
      (by omega) closes
    refine ⟨_, high, ?_, t.start, ns, rfl, all⟩
    rw [List.cons_append, List.append_assoc, node_blockSequence kind block]
    exact run_map reads

/-- A sequence at the column of the key before it. -/
theorem ReadsItems.level (items : ReadsItems schema ks vs) (filled : ks ≠ []) :
    Reads schema true ks (.list vs) where
  starts := by
    obtain ⟨k, later, rfl⟩ := List.exists_cons_of_ne_nil filled
    obtain rfl : k = .blockEntry := items.starts k rfl
    exact ⟨_, _, rfl, by simp, nofun⟩
  reads r place fuel low next more ts kinds enough _ ends := by
    obtain ⟨rfl, other⟩ := ends rfl
    have size := List.length_pos_iff.mpr filled
    obtain ⟨fuel, rfl⟩ := Nat.exists_eq_add_of_le' (by omega : 1 ≤ fuel)
    obtain ⟨ns, high, reads, all⟩ := items.loose r fuel (low + 1) next more kinds (by omega) other
    obtain ⟨k, later, rfl⟩ := List.exists_cons_of_ne_nil filled
    obtain ⟨t, rest, rfl, kind, -⟩ := exists_token kinds
    refine ⟨_, high, ?_, t.start, ns, rfl, all⟩
    rw [List.cons_append, node_indentless (kind.trans (items.starts k rfl)), ← List.cons_append]
    exact run_map reads

theorem ReadsPairs.nil : ReadsPairs schema [] [] where
  starts := nofun
  closed r opening fuel low stop more ts kinds enough closes := by
    obtain rfl := List.map_eq_nil_iff.mp kinds
    obtain ⟨fuel, rfl⟩ := Nat.exists_eq_add_of_le' (Nat.le_trans (by simp) enough : 1 ≤ fuel)
    exact ⟨[], low, by simp [blockPairs, ok_bind, closes], rfl, rfl⟩

/-- After an explicit key or one on the line comes its value. -/
theorem ReadsPairs.cons (told : style = .plain → schema.tagOf text = Tag.str)
    (own : Reads schema loose ks v) (rest : ReadsPairs schema later es) :
    ReadsPairs schema (.key :: .scalar text style :: .value :: (ks ++ later))
      ((.str text, v) :: es) where
  starts := by simp
  closed r opening fuel low stop more ts kinds enough closes := by
    obtain ⟨t, ts, rfl, keyed, kinds⟩ := exists_token kinds
    obtain ⟨k, ts, rfl, scalar, kinds⟩ := exists_token kinds
    obtain ⟨c, ts, rfl, colon, kinds⟩ := exists_token kinds
    obtain ⟨first, others, rfl, own', same⟩ := List.map_eq_append_iff.mp kinds
    simp only [List.length_cons, List.length_append] at enough
    obtain ⟨fuel, rfl⟩ := Nat.exists_eq_add_of_le' (by omega : 2 ≤ fuel)
    obtain ⟨next, later', follows⟩ : ∃ next later', others ++ stop :: more = next :: later' :=
      List.exists_cons_of_ne_nil (by simp)
    have ends : next.kind ≠ .blockEntry := by
      cases others with
      | nil =>
        obtain ⟨rfl, -⟩ := List.cons.inj follows
        rw [closes]
        decide
      | cons o others =>
        obtain ⟨rfl, -⟩ := List.cons.inj follows
        rw [rest.starts o.kind (by rw [← same]; rfl)]
        decide
    obtain ⟨key, middle, readKey, ⟨start, rfl⟩, rfl⟩ :=
      (Reads.str told).unless [.key, .value, .blockEnd] (by simp) r .afterKey t.stop (fuel + 1) low c
        (first ++ next :: later')
        (by simpa using scalar : [k].map (·.kind) = _) (by simp; omega) (by decide) nofun
    obtain ⟨n, middle, read, spells⟩ :=
      own.unless [.key, .value, .blockEnd] (by simp) r .afterKey c.stop fuel (low + 1) next later' own'
        (by omega) (by decide) fun _ => ⟨rfl, ends⟩
    obtain ⟨ps, high, reads, all⟩ :=
      rest.closed r opening (fuel + 1) middle stop more same (by omega) closes
    have value :
        (blockValue schema (fuel + 1)).run (r.before (c :: (first ++ next :: later')) (low + 1)) =
        .ok (n, r.before (next :: later') middle) := by
      rw [blockValue, run_bind run_peek]
      simp only [colon, if_true]
      rw [run_bind run_take, read]
    refine ⟨_, high, ?_, text, start, n, ps, middle, rfl, rfl, spells, all⟩
    rw [List.cons_append, List.cons_append, List.cons_append, List.append_assoc, follows, blockPairs,
      run_bind run_peek]
    simp only [keyed]
    rw [List.singleton_append] at readKey
    rw [run_bind run_take, run_bind readKey, run_bind value, ← follows]
    exact run_map (g := ((_, n) :: ·)) reads

/-- A mapping in a block. -/
theorem ReadsPairs.block (pairs : ReadsPairs schema ks es) :
    Reads schema false (.blockMappingStart :: (ks ++ [.blockEnd])) (.map es) where
  starts := ⟨_, _, rfl, by simp, by simp⟩
  reads r place fuel low next more ts kinds enough block _ := by
    obtain ⟨t, ts, rfl, kind, kinds⟩ := exists_token kinds
    obtain ⟨inner, last, rfl, same, ends⟩ := List.map_eq_append_iff.mp kinds
    obtain ⟨stop, rest, rfl, closes, none⟩ := exists_token ends
    obtain rfl := List.map_eq_nil_iff.mp none
    simp only [List.length_cons, List.length_append] at enough
    obtain ⟨fuel, rfl⟩ := Nat.exists_eq_add_of_le' (by omega : 1 ≤ fuel)
    obtain ⟨ps, high, reads, all⟩ := pairs.closed r t.start fuel (low + 1) stop (next :: more) same
      (by omega) closes
    refine ⟨_, high, ?_, t.start, ps, rfl, all⟩
    rw [List.cons_append, List.append_assoc, node_blockMapping kind block]
    exact run_map reads

end OverlayBuild.Yaml

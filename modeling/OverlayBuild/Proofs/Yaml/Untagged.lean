import OverlayBuild.Proofs.Yaml.Lockstep
import OverlayBuild.Proofs.Yaml.Shown

/-! The documents of a text without written tags under both schemas: those of the narrower one are
the others with dates, moments and equals signs as text, and their values are what they show. -/
namespace OverlayBuild.Yaml

namespace NodeReader

variable {fuel count : Nat} {version first marked : Bool} {handles : List (String × String)}
  {r : NodeReader}

theorem keeps_directives : Keeps (fun _ => True) (directives version handles fuel) := by
  induction fuel generalizing version handles with
  | zero => exact keeps_pure trivial
  | succ fuel ih =>
    refine .after keeps_peek fun token _ => ?_
    split
    next d kind =>
      refine .after keeps_take fun _ _ => ?_
      split
      · split
        · exact .stop _
        · split
          · exact .stop _
          · exact ih
      · split
        · exact .stop _
        · exact ih
      · exact ih
    · exact keeps_pure trivial

theorem keeps_skipDocumentEnds : Keeps (fun _ => True) (skipDocumentEnds fuel) := by
  induction fuel with
  | zero => exact keeps_pure trivial
  | succ fuel ih =>
    refine .after (keeps_next _) fun more _ => ?_
    split
    · exact .after keeps_take fun _ _ => ih
    · exact keeps_pure trivial

theorem keeps_openDocument : Keeps (fun _ => True) (openDocument first fuel) := by
  refine .after keeps_peek fun token _ => .ite ?_ ?_
  · exact .after (keeps_modify (fun _ => rfl) fun _ => rfl) fun _ _ => keeps_pure trivial
  refine .after keeps_skipDocumentEnds fun _ _ => .after keeps_peek fun token _ => .ite ?_ ?_
  · exact keeps_pure trivial
  refine .after keeps_directives fun handles _ => ?_
  refine .after (keeps_modify (fun _ => rfl) fun _ => rfl) fun _ _ => ?_
  refine .after keeps_peek fun marker _ => .ite ?_ ?_
  · exact .after keeps_take fun _ _ => keeps_pure trivial
  · exact .stop _

/-- Passing over the marker of a document's end. -/
theorem lockstep_end {low : Nat} {n m : Node} (twins : Twin low count n m) :
    Lockstep count (Twin low)
      (do
        if ← next [.documentEnd] then
          let _ ← take
        return n)
      (do
        if ← next [.documentEnd] then
          let _ ← take
        return m) :=
  .after (keeps_next _) fun _ _ => .ite (.after keeps_take fun _ _ => .pure twins) (.pure twins)

/-- The nodes of a document are numbered from zero. -/
theorem agree_documentNode (untagged : r.tokens.untagged = true) :
    Agree (Twin 0) ((documentNode .full marked fuel).run r)
      ((documentNode .manifest marked fuel).run r) := by
  have opened : Agree (fun count _ _ => count = 0)
      ((modify fun r => { r with anchors := [], count := 0 } : ReadNode PUnit).run r)
      ((modify fun r => { r with anchors := [], count := 0 } : ReadNode PUnit).run r) :=
    .done rfl untagged
  refine opened.bind fun _ _ r zero untagged => Lockstep.agree ?_ zero untagged
  exact .after keeps_peek fun _ _ => .ite (.bind lockstep_empty fun _ _ _ _ => lockstep_end)
    (.bind ((parallel fuel).node .block) fun _ _ _ _ => lockstep_end)

/-- No document in either reading, or one from twin roots. -/
inductive TwinNext : Option (Mark × Document) → Option (Mark × Document) → Prop
  | none : TwinNext none none
  | some {start : Mark} {root other : Node} {count : Nat} (twins : Twin 0 count root other) :
    TwinNext (some (start, .ofRoot root count)) (some (start, .ofRoot other count))

theorem agree_nextDocument (untagged : r.tokens.untagged = true) :
    Agree (fun _ => TwinNext) ((nextDocument .full first fuel).run r)
      ((nextDocument .manifest first fuel).run r) := by
  refine (keeps_openDocument r untagged).bind ?_
  rintro opened _ r ⟨-, rfl, -⟩ untagged
  cases opened with
  | none => exact .done .none untagged
  | some opened =>
    refine (agree_documentNode untagged).bind fun root other r twins untagged => ?_
    exact .done (.some twins) untagged

end NodeReader

/-! Documents. -/

def documentsFrom (schema : Schema) (fuel : Nat) (first : Bool) (reader : NodeReader) :
    Nat → Except Failure (List Document)
  | 0 => .ok []
  | more + 1 => do
    match ← (nextDocument schema first fuel).run reader with
    | (none, _) => return []
    | (some (_, document), reader) =>
      return document :: (← documentsFrom schema fuel false reader more)

/-- The documents of a text as the schema reads them. -/
def documents (schema : Schema) (text : List Char) : Except Failure (List Document) := do
  let (reader, fuel) ← openText text
  documentsFrom schema fuel true reader fuel

/-- The document with dates, moments and equals signs as text. -/
def Document.texted (d : Document) : Document := .ofRoot d.root.texted d.count

theorem Document.regular_of_twin {root : Node} {count : Nat}
    (twins : NodeReader.Twin 0 count root root.texted) : (ofRoot root count).texted.Regular :=
  ⟨twins.bare.part, ofRoot_closed root.texted count, twins.rising⟩

variable {schema : Schema} {fuel more : Nat} {first : Bool} {reader : NodeReader} {text : List Char}
  {values : List Value} {ds : List Document}

theorem valuesFrom_eq_ok_iff : valuesFrom schema fuel first reader more = .ok values ↔
    ∃ ds, documentsFrom schema fuel first reader more = .ok ds ∧
      ds.mapM Document.value = .ok values := by
  induction more generalizing first reader values with
  | zero => simp [valuesFrom, documentsFrom, pure, Except.pure]
  | succ more ih =>
    rw [valuesFrom, documentsFrom]
    cases (nextDocument schema first fuel).run reader with
    | error cause => simp [bind, Except.bind]
    | ok next =>
      obtain ⟨_ | ⟨start, d⟩, after⟩ := next
      · simp [bind, Except.bind, pure, Except.pure]
      · rw [ok_bind, ok_bind]
        constructor
        · intro done
          obtain ⟨v, own, done⟩ := bind_eq_ok_iff.mp done
          obtain ⟨vs, rest, done⟩ := bind_eq_ok_iff.mp done
          obtain ⟨ds, rest, made⟩ := ih.mp rest
          refine ⟨d :: ds, bind_eq_ok_iff.mpr ⟨ds, rest, rfl⟩, ?_⟩
          rw [List.mapM_cons, own, made]
          exact done
        · rintro ⟨_, done, made⟩
          obtain ⟨ds, rest, done⟩ := bind_eq_ok_iff.mp done
          obtain rfl := Except.ok.inj done
          obtain ⟨v, own, made⟩ := bind_eq_ok_iff.mp (List.mapM_cons.symm.trans made)
          obtain ⟨vs, made, done⟩ := bind_eq_ok_iff.mp made
          exact bind_eq_ok_iff.mpr ⟨v, own, bind_eq_ok_iff.mpr ⟨vs, ih.mpr ⟨ds, rest, made⟩, done⟩⟩

/-- A text is read when its documents are and each of them has a value. -/
theorem readAll_eq_ok_iff : readAll schema text = .ok values ↔
    ∃ ds, documents schema text = .ok ds ∧ ds.mapM Document.value = .ok values := by
  rw [readAll, documents]
  cases openText text with
  | error cause => simp [bind, Except.bind]
  | ok opened => exact valuesFrom_eq_ok_iff

/-- The documents that the two schemas read fail alike, or they differ in what becomes text. -/
theorem documentsFrom_texted (untagged : reader.tokens.untagged = true) :
    (∃ failure, documentsFrom .full fuel first reader more = .error failure ∧
      documentsFrom .manifest fuel first reader more = .error failure) ∨
    ∃ ds, documentsFrom .full fuel first reader more = .ok ds ∧
      documentsFrom .manifest fuel first reader more = .ok (ds.map Document.texted) ∧
      ∀ d ∈ ds, d.texted.Regular := by
  induction more generalizing first reader with
  | zero => exact .inr ⟨[], rfl, rfl, nofun⟩
  | succ more ih =>
    rw [documentsFrom, documentsFrom]
    have agree : NodeReader.Agree (fun _ => NodeReader.TwinNext)
        ((nextDocument .full first fuel).run reader)
        ((nextDocument .manifest first fuel).run reader) := NodeReader.agree_nextDocument untagged
    generalize (nextDocument .full first fuel).run reader = x at agree ⊢
    generalize (nextDocument .manifest first fuel).run reader = y at agree ⊢
    cases agree with
    | failed failure => exact .inl ⟨failure, rfl, rfl⟩
    | @done next other after related untagged =>
      rw [ok_bind, ok_bind]
      cases related with
      | none => exact .inr ⟨[], rfl, rfl, nofun⟩
      | @some start root other count twins =>
        obtain rfl := twins.turned
        rcases @ih false _ untagged with ⟨failure, full, manifest⟩ | ⟨ds, full, manifest, each⟩
        · exact .inl ⟨failure, by simp only [full]; rfl, by simp only [manifest]; rfl⟩
        · refine .inr ⟨.ofRoot root count :: ds, by simp only [full]; rfl,
            by simp only [manifest]; rfl, List.forall_mem_cons.mpr ⟨Document.regular_of_twin twins, each⟩⟩

theorem documents_texted (untagged : (tokens text).untagged = true) :
    (∃ failure, documents .full text = .error failure ∧ documents .manifest text = .error failure) ∨
    ∃ ds, documents .full text = .ok ds ∧ documents .manifest text = .ok (ds.map Document.texted) ∧
      ∀ d ∈ ds, d.texted.Regular := by
  rw [documents, documents]
  cases opened : openText text with
  | error failure => exact .inl ⟨failure, rfl, rfl⟩
  | ok start =>
    obtain ⟨reader, fuel⟩ := start
    refine documentsFrom_texted ?_
    rw [openText] at opened
    split at opened
    · contradiction
    dsimp only at opened
    split at opened
    next token rest seen =>
      obtain ⟨rfl, rfl⟩ := Prod.mk.inj (Except.ok.inj opened)
      rw [seen] at untagged
      exact (Bool.and_eq_true_iff.mp untagged).2
    · contradiction
    · obtain ⟨rfl, rfl⟩ := Prod.mk.inj (Except.ok.inj opened)
      rfl

/-- The values of a text without written tags are plain data. They are what the documents show that
the full schema reads, with dates, moments and equals signs as text. -/
theorem exists_documents (untagged : (tokens text).untagged = true)
    (read : readAll .manifest text = .ok values) :
    ∃ ds, documents .full text = .ok ds ∧ documents .manifest text = .ok (ds.map Document.texted) ∧
      List.Forall₂ (fun d v => d.texted.value = .ok v ∧ d.texted.Shows [] d.texted.root v ∧
        v.Every Value.IsData) ds values := by
  obtain ⟨_, done, made⟩ := readAll_eq_ok_iff.mp read
  rcases documents_texted untagged with ⟨failure, -, failed⟩ | ⟨ds, full, manifest, regular⟩
  · exact absurd (failed.symm.trans done) nofun
  · obtain rfl := Except.ok.inj (manifest.symm.trans done)
    have made := List.forall₂_map_left_iff.mp (mapM_eq_ok_iff.mp made)
    refine ⟨ds, full, manifest, ((List.forall₂_and_left _ _).mpr ⟨regular, made⟩).imp ?_⟩
    rintro d v ⟨regular, value⟩
    have shown := regular.shows value
    exact ⟨value, shown, shown.data regular (Node.self_mem_parts _)⟩

/-! The nodes of a document. -/

namespace Node

mutual
theorem parts_texted : ∀ n : Node, n.texted.parts = n.parts.map texted
  | .scalar _ _ => rfl
  | .sequence _ items => congrArg (_ :: ·) (partsAll_texted items)
  | .mapping _ pairs => congrArg (_ :: ·) (partsPairs_texted pairs)
  | .alias _ => rfl
theorem partsAll_texted : ∀ ns : List Node, partsAll (textedAll ns) = (partsAll ns).map texted
  | [] => rfl
  | n :: ns => by
    rw [textedAll, partsAll, partsAll, parts_texted n, partsAll_texted ns, List.map_append]
theorem partsPairs_texted :
    ∀ ps : List (Node × Node), partsPairs (textedPairs ps) = (partsPairs ps).map texted
  | [] => rfl
  | (k, v) :: ps => by
    rw [textedPairs, partsPairs, partsPairs, parts_texted k, parts_texted v, partsPairs_texted ps,
      List.map_append, List.map_append]
end

end Node

/-- Where the full schema takes plain text for a date, a moment or the equals sign, the value is
that text. -/
theorem shows_of_turned {d : Document} {head : Node.Head} {text : String}
    (part : .scalar head text ∈ d.root.parts)
    (turned : head.tag = Tag.timestamp ∨ head.tag = Tag.value) :
    .scalar { head with tag := Tag.str } text ∈ d.texted.root.parts ∧ ∀ outer v,
      d.texted.Shows outer (.scalar { head with tag := Tag.str } text) v → v = .str text := by
  have own : (Node.scalar head text).texted = .scalar { head with tag := Tag.str } text := by
    rw [Node.texted, textTag, if_pos turned]
  have inside : (Node.scalar head text).texted ∈ d.root.texted.parts := by
    rw [Node.parts_texted]
    exact List.mem_map_of_mem part
  exact ⟨own ▸ inside, fun _ _ shown => shown.eq_str rfl⟩

end OverlayBuild.Yaml

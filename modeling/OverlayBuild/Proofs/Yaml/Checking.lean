import OverlayBuild.Proofs.Outcome
import OverlayBuild.Proofs.Yaml.Parts

/-! Checking a document changes it by merging and by the values of scalars only, goes to parts of it
only, and fails only as these do or with a fault in the text. -/
namespace OverlayBuild.Yaml.Document

/-- What merging and the values of scalars keep up, and what they fail with. -/
structure Upheld (d : Document) (holds : Revision → Prop) (fails : Failure → Prop) : Prop where
  malformed : ∀ fault, fails (.malformed fault)
  within : ∀ {rev head pairs}, holds rev → .mapping head pairs ∈ d.root.parts →
    d.PairsWithin (rev.pairsOf head pairs)
  merged : ∀ {rev head pairs}, holds rev → .mapping head pairs ∈ d.root.parts →
    Meets fails (fun made => holds made.1 ∧ d.PairsWithin made.2) (d.mergedPairs rev head pairs)
  scalar : ∀ {rev n tag}, holds rev → n ∈ d.root.parts → ScalarTag.of? (rev.tag n) = some tag →
    Meets fails (fun v => holds (rev.note n v)) (d.scalarValue rev tag n)

structure Agenda.Fits (agenda : Agenda) (d : Document) (holds : Revision → Prop) : Prop where
  waiting : ∀ n ∈ agenda.waiting, n ∈ d.root.parts
  rev : holds agenda.rev

variable {d : Document} {holds : Revision → Prop} {fails : Failure → Prop} {rev : Revision}
  {agenda : Agenda} {activity : Activity} {start : Mark} {n item : Node} {p : Node × Node}
  {fuel : Nat}

theorem meets_itemPair (upheld : d.Upheld holds fails) (closed : d.Closed) (own : holds rev)
    (part : item ∈ d.root.parts) :
    Meets fails (fun p => p.1 ∈ d.root.parts ∧ p.2 ∈ d.root.parts)
      (d.itemPair rev activity start item) := by
  rw [itemPair]
  have named := closed.follow part
  split
  next head pairs found =>
    have within := upheld.within own (found ▸ named)
    split
    next pair alone => exact .ok (within pair (alone ▸ List.mem_singleton_self pair))
    · exact .error (upheld.malformed _)
  · exact .error (upheld.malformed _)

theorem meets_meet (upheld : d.Upheld holds fails) (closed : d.Closed) (fits : agenda.Fits d holds)
    (part : n ∈ d.root.parts) : Meets fails (fun r => r.2.Fits d holds) (d.meet agenda n) := by
  have named := closed.follow part
  rw [meet]
  split
  · refine .ite (.pure fits) (.pure ⟨?_, fits.rev⟩)
    exact List.forall_mem_append.mpr ⟨fits.waiting, List.forall_mem_singleton.mpr named⟩
  · refine .ite (.pure fits) ?_
    split
    next tag tagged =>
      exact .bind (upheld.scalar fits.rev named tagged) fun _ rev => .pure ⟨fits.waiting, rev⟩
    · exact .error (upheld.malformed _)

theorem meets_meetPair (upheld : d.Upheld holds fails) (closed : d.Closed)
    (fits : agenda.Fits d holds) (parts : p.1 ∈ d.root.parts ∧ p.2 ∈ d.root.parts) :
    Meets fails (fun r => r.Fits d holds) (d.meetPair start agenda p) := by
  refine .bind (meets_meet upheld closed fits parts.1) fun r first => ?_
  refine .ite (.error (upheld.malformed _)) ?_
  exact .bind (meets_meet upheld closed first parts.2) fun _ second => .pure second

theorem meets_meetItem (upheld : d.Upheld holds fails) (closed : d.Closed)
    (fits : agenda.Fits d holds) (part : item ∈ d.root.parts) :
    Meets fails (fun r => r.Fits d holds) (d.meetItem activity start agenda item) := by
  refine .bind (meets_itemPair upheld closed fits.rev part) fun p parts => ?_
  refine .bind (meets_meet upheld closed fits parts.1) fun r first => ?_
  exact .bind (meets_meet upheld closed first parts.2) fun _ second => .pure second

theorem meets_checkCollection (upheld : d.Upheld holds fails) (closed : d.Closed)
    (fits : agenda.Fits d holds) (part : n ∈ d.root.parts) :
    Meets fails (fun r => r.Fits d holds) (d.checkCollection agenda n) := by
  cases n with
  | mapping head pairs =>
    have each : Meets fails (fun r => r.Fits d holds)
        (d.mergedPairs agenda.rev head pairs >>= fun made =>
          made.2.foldlM (d.meetPair head.start) { agenda with rev := made.1 }) :=
      .bind (upheld.merged fits.rev part) fun _ merged =>
        .foldlM ⟨fits.waiting, merged.1⟩ fun p mem _ further =>
          meets_meetPair upheld closed further (merged.2 p mem)
    simp only [checkCollection]
    split <;> first | exact each | exact .error (upheld.malformed _)
  | sequence head items =>
    have listed (activity : Activity) : Meets fails (fun r => r.Fits d holds)
        (items.foldlM (d.meetItem activity head.start) agenda) :=
      .foldlM fits fun item mem _ further => meets_meetItem upheld closed further (item_mem part mem)
    have plain : Meets fails (fun r => r.Fits d holds)
        (items.foldlM (fun agenda item => return (← d.meet agenda item).2) agenda) :=
      .foldlM fits fun item mem _ further =>
        .bind (meets_meet upheld closed further (item_mem part mem)) fun _ more => .pure more
    simp only [checkCollection]
    split <;> first | exact listed _ | exact plain | exact .error (upheld.malformed _)
  | scalar head text | «alias» name =>
    simp only [checkCollection]
    split <;> exact .error (upheld.malformed _)

theorem meets_checkFrom (upheld : d.Upheld holds fails) (closed : d.Closed)
    (fits : agenda.Fits d holds) : Meets fails holds (d.checkFrom agenda fuel) := by
  induction fuel generalizing agenda with
  | zero => exact .ok fits.rev
  | succ fuel ih =>
    rw [checkFrom]
    split
    · exact .ok fits.rev
    next n rest next =>
      have all : ∀ m ∈ n :: rest, m ∈ d.root.parts := next ▸ fits.waiting
      obtain ⟨own, others⟩ := List.forall_mem_cons.mp all
      have waiting : Agenda.Fits { agenda with waiting := rest } d holds := ⟨others, fits.rev⟩
      exact .bind (meets_checkCollection upheld closed waiting own) fun _ further => ih further

theorem meets_check (upheld : d.Upheld holds fails) (closed : d.Closed) (none : holds .none) :
    Meets fails holds d.check :=
  have nothing : Agenda.Fits ⟨[], [], .none⟩ d holds := ⟨nofun, none⟩
  .bind (meets_meet upheld closed nothing (Node.self_mem_parts d.root))
    fun _ fits => meets_checkFrom upheld closed fits

end OverlayBuild.Yaml.Document

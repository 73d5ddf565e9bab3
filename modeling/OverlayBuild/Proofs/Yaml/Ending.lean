import OverlayBuild.Proofs.Yaml.Roundtrip

/-! How a document ends that is written: with one line break behind something else. Literal
blocks whose breaks at the end matter are followed by the mark of the document's end. -/
namespace OverlayBuild.Yaml

open Text

/-- One line break stands at the end of the text, behind something else. -/
def Finished (p : List Char) : Prop := ∃ q x, x ≠ '\n' ∧ p = q ++ [x, '\n']

/-- A text of lines, the last of which is not empty. -/
def Inked (p : List Char) : Prop := ∃ q x, x ≠ '\n' ∧ p = q ++ [x]

variable {p q text : List Char} {indent k : Nat} {fresh : Bool}

theorem Inked.append (inked : Inked q) (p : List Char) : Inked (p ++ q) := by
  obtain ⟨q, x, other, rfl⟩ := inked
  exact ⟨p ++ q, x, other, by simp⟩

theorem Inked.finished (inked : Inked p) : Finished (p ++ ['\n']) := by
  obtain ⟨q, x, other, rfl⟩ := inked
  exact ⟨q, x, other, by simp⟩

theorem Finished.append (finished : Finished q) (p : List Char) : Finished (p ++ q) := by
  obtain ⟨q, x, other, rfl⟩ := finished
  exact ⟨p ++ q, x, other, by simp⟩

theorem PlainWord.inked (own : PlainWord p) : Inked p := by
  obtain ⟨q, x, rfl⟩ := (List.eq_nil_or_concat p).resolve_left own.filled
  exact ⟨q, x, (own.visible x (by simp)).2, by simp⟩

theorem Spread.inked (form : Spread indent text p) : Inked p := by
  induction form with
  | word own => exact own.inked
  | spaces own k inner ih => exact (ih.append _).append _
  | fold own inner ih =>
    simpa using ((ih.append (List.replicate indent ' ')).append ['\n']).append _

theorem Inked.quoted (p : List Char) (double : Bool) : Inked (quoteOf double :: (p ++ [quoteOf double])) :=
  ⟨quoteOf double :: p, quoteOf double, by cases double <;> decide, rfl⟩

/-! Literal blocks. -/

theorem lay_inked (inked : Inked p) : Inked (lay indent fresh p) := by
  obtain ⟨q, x, other, rfl⟩ := inked
  induction q generalizing fresh with
  | nil =>
    refine ⟨if fresh then List.replicate indent ' ' else [], x, other, ?_⟩
    simp [lay, other]
  | cons c q ih =>
    rw [List.cons_append, lay]
    split
    · exact (@ih true).append ['\n']
    · exact ((@ih false).append [c]).append _

/-- A block ends with the break after its last line, unless its header says that more breaks
belong to it. -/
theorem literalBlock_finished (clear : Clear text) (filled : text ≠ [])
    (closed : (literalHints text).getLast? ≠ some '+') : Finished (literalBlock indent text) := by
  obtain ⟨front, k, rfl, last⟩ := exists_trailing text
  have hints := literalHints_eq (clear_append.mp clear).1 last filled
  have one : front ≠ [] ∧ (k = 0 ∨ k = 1) := by
    by_cases none : k = 0
    · subst none
      exact ⟨by simpa using filled, .inl rfl⟩
    · by_cases single : k = 1 ∧ front ≠ []
      · exact ⟨single.2, .inr single.1⟩
      · rw [hints, if_neg none, if_neg single] at closed
        simp at closed
  obtain ⟨visible, few⟩ := one
  have inked : Inked front := by
    obtain ⟨q, x, rfl⟩ := (List.eq_nil_or_concat front).resolve_left visible
    exact ⟨q, x, by simpa using last, by simp⟩
  have feed : isTextBreak '\n' = true := rfl
  have same : '\n' :: lay indent true (front ++ List.replicate k '\n') ++
      (if (front ++ List.replicate k '\n').getLast?.any isTextBreak then [] else ['\n']) =
        '\n' :: (lay indent true front ++ ['\n']) := by
    rw [lay_append_breaks]
    rcases few with rfl | rfl
    · obtain ⟨q, x, other, rfl⟩ := inked
      have verbatim : isVerbatim x = true := clear x (by simp)
      have bare : isTextBreak x = false := by simpa [isTextBreak_of_verbatim verbatim] using other
      simp [bare]
    · simp [feed]
  rw [literalBlock, List.append_assoc, same]
  exact ((lay_inked inked).finished.append ['\n']).append _

/-! The writer. -/

namespace Sheet

variable {s : Sheet} {x : Scalar} {depth c : Nat} {v : Value} {vs : List Value}
  {es : List (Value × Value)} {mode : Multiline} {inMapping : Bool}

def Closes (s : Sheet) : Prop := s.openEnded = false → Finished s.full

theorem closes_of_inked (moved : s.indented = false) (inked : Inked s.text) : s.Closes := by
  intro _
  rw [full, moved]
  exact inked.finished

@[simp] theorem openEnded_write (cs : List Char) : (s.write cs).openEnded = s.openEnded := rfl

theorem openEnded_foldl_breakLine {α : Type} (items : List α) :
    (items.foldl (fun s _ => s.breakLine) s).openEnded = s.openEnded := by
  induction items generalizing s with
  | nil => rfl
  | cons a items ih => exact ih (s := s.breakLine)

theorem openEnded_literalRuns (indent : Nat) (rs : List Run) :
    (s.literalRuns indent rs).openEnded = s.openEnded := by
  induction rs generalizing s with
  | nil => rfl
  | cons r rs ih =>
    rw [literalRuns, ih]
    split
    · exact openEnded_foldl_breakLine r.text
    · split <;> simp

theorem openEnded_literal (cs : List Char) (indent : Nat) :
    (s.literal cs indent).openEnded = ((literalHints cs).getLast? == some '+') := by
  rw [literal]
  split
  · exact openEnded_literalRuns indent _
  · exact openEnded_literalRuns indent _

/-- Whatever stands before a scalar, it ends as a document can. -/
theorem scalar_closes (told : x.IsTold) (narrow : indent < lineWidth) (root : Bool) :
    (s.scalar x indent root false).Closes := by
  cases style : x.style false with
  | plain =>
    obtain ⟨evident, fits⟩ := Scalar.style_plain style
    have filled := told.filled evident
    obtain ⟨written, form, done, moved, -⟩ :=
      s.plain_spec (fits.resolve_left filled) filled indent root true
    rw [scalar, style]
    exact closes_of_inked moved (done ▸ form.inked.append _)
  | single =>
    obtain ⟨fits, -⟩ := Scalar.style_single style
    obtain ⟨written, -, done, moved, -⟩ := s.single_spec fits indent true
    rw [scalar, style]
    exact closes_of_inked moved (done ▸ (Inked.quoted written false).append _)
  | double =>
    obtain ⟨written, -, done, moved, -⟩ := s.double_spec x.text narrow true
    rw [scalar, style]
    exact closes_of_inked moved (done ▸ (Inked.quoted written true).append _)
  | literal =>
    obtain ⟨fits, -⟩ := Scalar.style_literal style
    simp only [fitsLiteral, Bool.and_eq_true, bne_iff_ne, List.all_eq_true] at fits
    obtain ⟨done, stands⟩ := s.literal_spec fits.2 indent
    rw [scalar, style]
    intro closed
    rw [openEnded_literal, beq_eq_false_iff_ne] at closed
    simp only [full, stands.indented, if_true, List.append_nil, done]
    exact (literalBlock_finished fits.2 fits.1.1.1 closed).append _
  | folded => exact absurd style Scalar.style_ne_folded

theorem brackets_close (x y : Char) (other : y ≠ '\n') :
    ((s.indicator [x] true true false).indicator [y] false false false).Closes :=
  closes_of_inked (by simp [indicator]) ⟨_, y, other, text_indicator⟩

theorem items_close (each : ∀ v ∈ vs, ∀ s, (Sheet.value mode (some c) false v s).Closes)
    (filled : vs ≠ []) : (Sheet.items mode c vs s).Closes := by
  induction vs generalizing s with
  | nil => exact absurd rfl filled
  | cons v vs ih =>
    obtain ⟨own, others⟩ := List.forall_mem_cons.mp each
    cases vs with
    | nil => exact own _
    | cons w ws => exact ih others (List.cons_ne_nil w ws)

theorem entries_close (each : ∀ e ∈ es, ∀ s, (Sheet.value mode (some c) true e.2 s).Closes)
    (filled : es ≠ []) : (Sheet.entries mode c es s).Closes := by
  induction es generalizing s with
  | nil => exact absurd rfl filled
  | cons e es ih =>
    obtain ⟨own, others⟩ := List.forall_mem_cons.mp each
    cases es with
    | nil => exact own _
    | cons f fs => exact ih others (List.cons_ne_nil f fs)

end Sheet

variable {s : Sheet} {depth c : Nat} {v : Value} {es : List (Value × Value)} {mode : Multiline}

/-- A value inside a collection ends as a document can, for its last scalar does. -/
theorem Legible.closes (legible : Legible depth v) (narrow : c + 2 * depth + 2 < lineWidth)
    (inMapping : Bool) : (Sheet.value mode (some c) inMapping v s).Closes := by
  induction legible generalizing c inMapping s with
  | str text => exact Sheet.scalar_closes (.inl rfl) (by simp [scalarIndent, indentStep]; omega) false
  | @int _ i small =>
    have evident : (Scalar.ofValue mode (.int i)).isEvident = true := beq_iff_eq.mpr (tagOf_integer _)
    exact Sheet.scalar_closes (.inr ⟨rfl, evident, fitsPlain_integer, integer_ne_nil⟩)
      (by simp [scalarIndent, indentStep]; omega) false
  | @list depth items each ih =>
    cases items with
    | nil => exact Sheet.brackets_close '[' ']' (by decide)
    | cons v vs =>
      have column : sequenceIndent s (some c) inMapping ≤ c + 2 := by
        unfold sequenceIndent
        split
        · exact Nat.le_add_right c 2
        · exact Nat.le_refl (c + 2)
      exact Sheet.items_close (fun v mem s => ih v mem (by omega) false) (List.cons_ne_nil v vs)
  | @map depth entries keys distinct each ih =>
    cases entries with
    | nil => exact Sheet.brackets_close '\x7b' '\x7d' (by decide)
    | cons e es =>
      have column : deeper (some c) = c + 2 := rfl
      exact Sheet.entries_close (fun e mem s => ih e mem (by omega) true) (List.cons_ne_nil e es)

/-- One line break stands at the end of a document. -/
theorem write_finished (legible : Legible depth (.map es)) (filled : es ≠ [])
    (narrow : 2 * depth < lineWidth) : Finished (write mode (.map es)).toList := by
  cases legible with
  | @map depth _ keys distinct each =>
    obtain ⟨-, -, -, ended, -⟩ := root_spec mode keys each filled (by omega)
    rw [write_of_ended filled ended]
    cases marked : (Sheet.entries mode 0 es .opened).openEnded with
    | true =>
      have dots : Finished (ending true) := ⟨['.', '.'], '.', by decide, rfl⟩
      exact dots.append _
    | false =>
      have closes : (Sheet.entries mode 0 es .opened).Closes :=
        Sheet.entries_close (fun e mem s => (each e mem).closes (by omega) true) filled
      simpa [ending] using closes marked

end OverlayBuild.Yaml

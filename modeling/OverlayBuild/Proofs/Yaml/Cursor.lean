import OverlayBuild.Yaml.Style

/-! Cursors in clear text, which is what is written outside of escapes: line feeds are its only
breaks, and a piece of it is passed by the same steps whatever comes after it. -/
namespace OverlayBuild.Yaml

/-- Text of characters that are written as they are. -/
def Clear (cs : List Char) : Prop := ∀ c ∈ cs, isVerbatim c = true

variable {c : Char} {cs ds piece rest : List Char} {m : Mark} {p : Char → Bool}

instance : Decidable (Clear cs) := List.decidableBAll (fun c => isVerbatim c = true) cs

@[simp] theorem clear_nil : Clear [] := nofun

@[simp] theorem clear_cons : Clear (c :: cs) ↔ isVerbatim c = true ∧ Clear cs :=
  List.forall_mem_cons

@[simp] theorem clear_append : Clear (cs ++ ds) ↔ Clear cs ∧ Clear ds := List.forall_mem_append

theorem clear_replicate (n : Nat) (verbatim : isVerbatim c = true) : Clear (List.replicate n c) :=
  fun d mem => by rw [List.eq_of_mem_replicate mem]; exact verbatim

@[simp] theorem clear_spaces (n : Nat) : Clear (List.replicate n ' ') :=
  clear_replicate n (by decide)

@[simp] theorem clear_breaks (n : Nat) : Clear (List.replicate n '\n') :=
  clear_replicate n (by decide)

theorem isVerbatim_iff :
    isVerbatim c = true ↔ c = '\n' ∨ 0x20 ≤ c.toNat ∧ c.toNat ≤ 0x7e := by
  simp [isVerbatim]

/-- No character outside of ASCII, and no control character but the line feed, is clear. -/
theorem ne_of_verbatim {d : Char} (verbatim : isVerbatim c = true) (other : isVerbatim d = false) :
    c ≠ d := by
  rintro rfl
  rw [verbatim] at other
  contradiction

theorem beq_of_verbatim {d : Char} (verbatim : isVerbatim c = true)
    (other : isVerbatim d = false) : (c == d) = false :=
  beq_eq_false_iff_ne.mpr (ne_of_verbatim verbatim other)

theorem isBreak_of_verbatim (verbatim : isVerbatim c = true) : isBreak c = (c == '\n') := by
  have other {d : Char} (other : isVerbatim d = false) := beq_of_verbatim verbatim other
  rw [isBreak, other (d := '\r') (by decide), other (d := Char.ofNat 0x85) (by decide),
    other (d := Char.ofNat 0x2028) (by decide), other (d := Char.ofNat 0x2029) (by decide)]
  simp

theorem isTextBreak_of_verbatim (verbatim : isVerbatim c = true) :
    isTextBreak c = (c == '\n') := by
  have carriage : c ≠ '\r' := ne_of_verbatim verbatim (by decide)
  simp [isTextBreak, isBreak_of_verbatim verbatim, carriage]

theorem isBreakOrEnd_of_verbatim (verbatim : isVerbatim c = true) :
    isBreakOrEnd c = (c == '\n') := by
  rw [isBreakOrEnd, isBreak_of_verbatim verbatim,
    beq_of_verbatim verbatim (d := sentinel) (by decide), Bool.or_false]

theorem isBlankOrEnd_of_verbatim (verbatim : isVerbatim c = true) :
    isBlankOrEnd c = (c == ' ' || c == '\n') := by
  rw [isBlankOrEnd, isSpaceOrEnd, isBreakOrEnd_of_verbatim verbatim,
    beq_of_verbatim verbatim (d := '\t') (by decide), Bool.false_or]

def Mark.over (m : Mark) (cs : List Char) : Mark := cs.foldl (fun m c => m.past c none) m

@[simp] theorem Mark.over_nil : m.over [] = m := rfl

@[simp] theorem Mark.over_over : (m.over cs).over ds = m.over (cs ++ ds) :=
  List.foldl_append.symm

theorem Mark.over_append : m.over (cs ++ ds) = (m.over cs).over ds := List.foldl_append

theorem Mark.past_of_verbatim (verbatim : isVerbatim c = true) (next : Option Char) :
    m.past c next = m.over [c] := by
  have carriage : c ≠ '\r' := ne_of_verbatim verbatim (by decide)
  simp [Mark.over, Mark.past, carriage]

theorem Mark.over_cons (m : Mark) (c : Char) (cs : List Char) :
    m.over (c :: cs) = (m.over [c]).over cs := rfl

theorem Mark.over_break : m.over ['\n'] = ⟨m.index + 1, m.line + 1, 0⟩ := rfl

theorem Mark.over_of_ne (verbatim : isVerbatim c = true) (other : c ≠ '\n') :
    m.over [c] = ⟨m.index + 1, m.line, m.column + 1⟩ := by
  have order : c ≠ Char.ofNat 0xfeff := ne_of_verbatim verbatim (by decide)
  simp [Mark.over, Mark.past, isBreak_of_verbatim verbatim, other, order]

/-- Within a line, the columns are counted up. -/
theorem Mark.over_line (clear : Clear cs) (line : '\n' ∉ cs) :
    m.over cs = ⟨m.index + cs.length, m.line, m.column + cs.length⟩ := by
  induction cs generalizing m with
  | nil => rfl
  | cons c cs ih =>
    obtain ⟨verbatim, clear⟩ := clear_cons.mp clear
    obtain ⟨other, line⟩ := List.ne_and_not_mem_of_not_mem_cons line
    rw [Mark.over_cons, ih clear line, Mark.over_of_ne verbatim (Ne.symm other)]
    simp [Nat.add_comm, Nat.add_left_comm]

theorem Mark.line_le_over (m : Mark) (clear : Clear cs) : m.line ≤ (m.over cs).line := by
  induction cs generalizing m with
  | nil => exact Nat.le_refl _
  | cons c cs ih =>
    obtain ⟨verbatim, clear⟩ := clear_cons.mp clear
    refine Nat.le_trans ?_ (Mark.over_cons m c cs ▸ ih (m.over [c]) clear)
    by_cases feed : c = '\n'
    · exact feed ▸ Nat.le_succ m.line
    · exact Nat.le_of_eq (by rw [Mark.over_of_ne verbatim feed])

theorem Mark.line_lt_over (m : Mark) (clear : Clear cs) (feed : '\n' ∈ cs) :
    m.line < (m.over cs).line := by
  obtain ⟨before, after, rfl⟩ := List.append_of_mem feed
  obtain ⟨first, -, last⟩ := by simpa using clear
  have until_ := m.line_le_over first
  have from_ := ((m.over before).over ['\n']).line_le_over last
  rw [Mark.over_append, Mark.over_cons]
  rw [Mark.over_break] at from_ ⊢
  dsimp only at from_
  omega

/-- The column after a line break counts from there. -/
theorem Mark.over_column_of_break (clear : Clear ds) (line : '\n' ∉ ds) :
    (m.over (cs ++ '\n' :: ds)).column = ds.length := by
  rw [Mark.over_append, Mark.over_cons, Mark.over_line clear line, Mark.over_break]
  simp

namespace Cursor

theorem next_cons (verbatim : isVerbatim c = true) :
    next ⟨c :: rest, m⟩ = ⟨rest, m.over [c]⟩ := by
  simp only [next, Mark.past_of_verbatim verbatim]

theorem skip_append (clear : Clear piece) :
    skip piece.length ⟨piece ++ rest, m⟩ = ⟨rest, m.over piece⟩ := by
  induction piece generalizing m with
  | nil => rfl
  | cons c piece ih =>
    obtain ⟨verbatim, clear⟩ := clear_cons.mp clear
    rw [List.length_cons, skip, List.cons_append, next_cons verbatim, ih clear,
      Mark.over_cons m c piece]

@[simp] theorem peek_nil : peek ⟨[], m⟩ = sentinel := rfl

@[simp] theorem peek_cons : peek ⟨c :: rest, m⟩ = c := rfl

theorem span_append (clear : Clear piece) (all : ∀ c ∈ piece, p c = true)
    (stops : ∀ c ∈ rest.head?, p c = false) :
    span p ⟨piece ++ rest, m⟩ = (piece, ⟨rest, m.over piece⟩) := by
  induction piece generalizing m with
  | nil =>
    cases rest with
    | nil => rw [span]; rfl
    | cons c rest => rw [span]; simp [stops c rfl]
  | cons c piece ih =>
    obtain ⟨verbatim, clear⟩ := clear_cons.mp clear
    obtain ⟨first, all⟩ := List.forall_mem_cons.mp all
    rw [span]
    simp only [List.cons_append, first, if_true, next_cons verbatim, ih clear all,
      Mark.over_cons m c piece]

theorem skipWhile_append (clear : Clear piece) (all : ∀ c ∈ piece, p c = true)
    (stops : ∀ c ∈ rest.head?, p c = false) :
    skipWhile p ⟨piece ++ rest, m⟩ = ⟨rest, m.over piece⟩ := by
  rw [skipWhile, span_append clear all stops]

theorem lineBreak?_feed : lineBreak? ⟨'\n' :: rest, m⟩ = some ('\n', ⟨rest, m.over ['\n']⟩) := by
  rw [lineBreak?, next_cons (by decide)]
  simp

theorem lineBreak?_of_not_break (other : ∀ c ∈ rest.head?, isBreak c = false) :
    lineBreak? ⟨rest, m⟩ = none := by
  cases rest with
  | nil => rfl
  | cons c rest =>
    have plain : isBreak c = false := other c rfl
    have parts := plain
    simp only [isBreak, Bool.or_eq_false_iff, beq_eq_false_iff_ne] at parts
    simp [lineBreak?, plain, parts.1.1.1.1, parts.1.1.1.2, parts.1.1.2]

end Cursor

/-- What comes next ends neither a run of spaces nor a line. -/
def Solid (rest : List Char) : Prop :=
  ∃ c more, rest = c :: more ∧ isVerbatim c = true ∧ c ≠ ' ' ∧ c ≠ '\n'

theorem Solid.not_blank (solid : Solid rest) : ∀ c ∈ rest.head?, (c == ' ' || c == '\t') = false := by
  obtain ⟨c, more, rfl, verbatim, space, -⟩ := solid
  simpa using ⟨space, ne_of_verbatim verbatim (by decide)⟩

theorem Solid.not_break (solid : Solid rest) : ∀ c ∈ rest.head?, isBreak c = false := by
  obtain ⟨c, more, rfl, verbatim, -, feed⟩ := solid
  simpa [isBreak_of_verbatim verbatim] using feed

theorem Solid.peek_ne_sentinel (solid : Solid rest) : (Cursor.mk rest m).peek ≠ sentinel := by
  obtain ⟨c, more, rfl, verbatim, -, -⟩ := solid
  exact ne_of_verbatim verbatim (by decide)

end OverlayBuild.Yaml

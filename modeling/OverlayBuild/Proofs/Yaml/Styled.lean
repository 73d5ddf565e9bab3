import OverlayBuild.Proofs.Yaml.Literal
import OverlayBuild.Proofs.Yaml.Quoted

/-! Scalars in the style that is taken for them. A text without quotes is told by its form, so
that it keeps its tag; in a key on one line nothing is folded, and it stays short. -/
namespace OverlayBuild.Yaml

/-- A text as it stands in one of the styles, with lines after the first indented. -/
inductive Styled (indent : Nat) (text : List Char) : ScalarStyle → List Char → Prop
  | plain {written : List Char} (starts : startsWithIndicator text = false)
      (form : Spread indent text written) : Styled indent text .plain written
  | quoted (double : Bool) {written : List Char} (form : Enquoted double indent text written) :
    Styled indent text (if double then .double else .single)
      (quoteOf double :: (written ++ [quoteOf double]))
  | literal (clear : Clear text) (filled : text ≠ []) :
    Styled indent text .literal (literalBlock indent text)

variable {indent : Nat} {text written : List Char} {s : Sheet} {rs : List Run} {c : Char}
  {first : Bool} {pending : List Char}

theorem clear_lay (clear : Clear text) (fresh : Bool) : Clear (lay indent fresh text) := by
  induction text generalizing fresh with
  | nil => exact clear_nil
  | cons c text ih =>
    obtain ⟨verbatim, clear⟩ := clear_cons.mp clear
    rw [lay]
    split
    · exact clear_cons.mpr ⟨by decide, ih clear true⟩
    · cases fresh <;> simp [verbatim, ih clear]

theorem clear_literalHints (text : List Char) : Clear (literalHints text) := by
  unfold literalHints
  rw [decimal_indentStep]
  refine clear_append.mpr ⟨?_, ?_⟩
  all_goals
    repeat' split
    all_goals simp <;> decide

theorem Styled.clear {style : ScalarStyle} (form : Styled indent text style written) :
    Clear written := by
  cases form with
  | plain _ form => exact form.clear
  | quoted double form =>
    have quote : isVerbatim (quoteOf double) = true := by cases double <;> decide
    simp [quote, form.clear]
  | literal clear _ =>
    have feed : isVerbatim '\n' = true := by decide
    have bar : isVerbatim '|' = true := by decide
    simp only [literalBlock, clear_append, clear_cons]
    refine ⟨⟨⟨bar, clear_literalHints text⟩, feed, clear_lay clear true⟩, ?_⟩
    split <;> simp [feed]

/-! Keys on one line. -/

theorem singleRuns_whole (line : ∀ r ∈ rs, r.kind ≠ .breaks) (even : ∀ r ∈ rs, r.Even) :
    (s.singleRuns indent false first rs).text = s.text ++ doubleQuotes (rs.flatMap Run.text) := by
  induction rs generalizing s first with
  | nil => simp [Sheet.singleRuns, doubleQuotes]
  | cons r rs ih =>
    obtain ⟨own, line⟩ := List.forall_mem_cons.mp line
    obtain ⟨form, even⟩ := List.forall_mem_cons.mp even
    rw [Sheet.singleRuns]
    cases kind : r.kind with
    | word => simp [ih line even, doubleQuotes]
    | spaces =>
      obtain ⟨k, spaces⟩ := form.spaces kind
      have same : doubleQuotes r.text = r.text := by
        rw [spaces, doubleQuotes, List.flatMap_replicate]
        simp
      simp only [doubleQuotes] at same ih ⊢
      simp [ih line even, same]
    | breaks => exact absurd kind own

def doubled (c : Char) : List Char := if isEscaped c then escape c else [c]

theorem doubleChars_whole :
    (s.doubleChars indent false pending first text).text =
      s.text ++ pending.reverse ++ text.flatMap doubled := by
  induction text generalizing s pending first with
  | nil => simp [Sheet.doubleChars]
  | cons c text ih =>
    rw [Sheet.doubleChars]
    by_cases escaped : isEscaped c = true
    · simp [escaped, ih, doubled]
    · simp [escaped, ih, doubled]

theorem fixedUpperHex_line (width : Nat) {n : Nat} (small : n < 16 ^ (width + 1)) :
    '\n' ∉ Text.fixedUpperHex (width + 1) n ∧
      (Text.fixedUpperHex (width + 1) n).length = width + 1 := by
  obtain ⟨ds, same, length, digits, -⟩ := Text.fixedUpperHex_spec small
  have visible : ∀ d < 16, Text.upperDigitChar d ≠ '\n' := by decide
  rw [same, List.length_map, length]
  refine ⟨fun mem => ?_, rfl⟩
  obtain ⟨d, own, feed⟩ := List.mem_map.mp mem
  exact visible d (digits d own) feed

theorem escape_line (c : Char) :
    '\n' ∉ escape c ∧ (c.toNat < 0x10000 → (escape c).length ≤ 6) := by
  unfold escape
  split
  iterate 15 exact ⟨by decide, fun _ => by decide⟩
  split
  · have := fixedUpperHex_line 1 (n := c.toNat) (by omega)
    simp [this]
  split
  · have := fixedUpperHex_line 3 (n := c.toNat) (by omega)
    simp [this]
  · have := fixedUpperHex_line 7 (n := c.toNat) (Nat.lt_trans Text.toNat_lt_limit (by decide))
    exact ⟨by simp [this], fun low => by omega⟩

theorem doubled_line (c : Char) :
    '\n' ∉ doubled c ∧ (c.toNat < 0x10000 → (doubled c).length ≤ 6) := by
  rw [doubled]
  split
  next => exact escape_line c
  next bare =>
    refine ⟨?_, fun _ => by simp⟩
    rw [List.mem_singleton]
    rintro rfl
    exact bare (by decide)

theorem length_flatMap_le {f : Char → List Char} {k : Nat} (each : ∀ c ∈ text, (f c).length ≤ k) :
    (text.flatMap f).length ≤ k * text.length := by
  induction text with
  | nil => simp
  | cons c text ih =>
    obtain ⟨own, each⟩ := List.forall_mem_cons.mp each
    have later := ih each
    rw [List.flatMap_cons, List.length_append, List.length_cons, Nat.mul_succ]
    omega

structure OneLine (text written : List Char) : Prop where
  line : '\n' ∉ written
  short : (∀ c ∈ text, c.toNat < 0x10000) → written.length ≤ 6 * text.length + 2

theorem OneLine.of_flatMap {f : Char → List Char} (double : Bool)
    (each : ∀ c ∈ text, '\n' ∉ f c ∧ (c.toNat < 0x10000 → (f c).length ≤ 6)) :
    OneLine text (quoteOf double :: (text.flatMap f ++ [quoteOf double])) where
  line := by
    have quote : quoteOf double ≠ '\n' := by cases double <;> decide
    have inner : '\n' ∉ text.flatMap f := fun mem =>
      let ⟨c, own, found⟩ := List.mem_flatMap.mp mem
      (each c own).1 found
    simp [quote.symm, inner]
  short low := by
    have inner := length_flatMap_le fun c mem => (each c mem).2 (low c mem)
    simp only [List.length_cons, List.length_append, List.length_nil]
    omega

/-! The writer. -/

/-- Outside of a text between quotes nothing is written but the quotes. -/
theorem eq_of_between {before out written other : List Char} {quote : Char}
    (first : out = before ++ quote :: (written ++ [quote]))
    (second : out = before ++ quote :: (other ++ [quote])) : written = other := by
  have same := List.append_cancel_left (first.symm.trans second)
  exact List.append_cancel_right (List.cons.inj same).2

theorem Sheet.single_line (s : Sheet) (fits : fitsSingle text = true) (line : hasBreak text = false)
    (indent : Nat) :
    ∃ written, Enquoted false indent text written ∧
      (s.single text indent false).text =
        s.text ++ (if s.spaced then [] else [' ']) ++ '\'' :: (written ++ ['\'']) ∧
      (s.single text indent false).indented = false ∧
      OneLine text ('\'' :: (written ++ ['\''])) := by
  obtain ⟨written, form, done, indented, -⟩ := s.single_spec fits indent false
  have lines : ∀ r ∈ runs text, r.kind ≠ .breaks := by
    intro r mem breaks
    obtain ⟨k, feeds⟩ := (even_of_mem_runs mem).breaks breaks
    have feed : '\n' ∈ text :=
      flatMap_runs text ▸ List.mem_flatMap.mpr ⟨r, mem, by rw [feeds]; simp⟩
    exact absurd line (by simpa [hasBreak] using ⟨'\n', feed, by decide⟩)
  have whole : (s.single text indent false).text =
      s.text ++ (if s.spaced then [] else [' ']) ++ '\'' :: (doubleQuotes text ++ ['\'']) := by
    cases own : s.spaced <;>
      simp [Sheet.single, singleRuns_whole lines fun _ => even_of_mem_runs, flatMap_runs, own]
  obtain rfl := eq_of_between done whole
  refine ⟨_, form, done, indented, OneLine.of_flatMap false fun c mem => ?_⟩
  have visible : c ≠ '\n' := by
    rintro rfl
    exact absurd line (by simpa [hasBreak] using ⟨'\n', mem, by decide⟩)
  split
  · exact ⟨by decide, fun _ => by simp⟩
  · exact ⟨by simpa using visible.symm, fun _ => by simp⟩

theorem Sheet.double_line (s : Sheet) (text : List Char) (narrow : indent < lineWidth) :
    ∃ written, Enquoted true indent text written ∧
      (s.double text indent false).text =
        s.text ++ (if s.spaced then [] else [' ']) ++ '"' :: (written ++ ['"']) ∧
      (s.double text indent false).indented = false ∧
      OneLine text ('"' :: (written ++ ['"'])) := by
  obtain ⟨written, form, done, indented, -⟩ := s.double_spec text narrow false
  have whole : (s.double text indent false).text =
      s.text ++ (if s.spaced then [] else [' ']) ++ '"' :: (text.flatMap doubled ++ ['"']) := by
    cases own : s.spaced <;> simp [Sheet.double, doubleChars_whole, own]
  obtain rfl := eq_of_between done whole
  exact ⟨_, form, done, indented, OneLine.of_flatMap true fun c _ => doubled_line c⟩

/-- A text is written between quotes, on one line where it is a key. -/
def Sheet.Quotes (s after : Sheet) (double : Bool) (indent : Nat) (text : List Char)
    (simpleKey : Bool) : Prop :=
  ∃ written, Enquoted double indent text written ∧
    after.text = s.text ++ (if s.spaced then [] else [' ']) ++
      quoteOf double :: (written ++ [quoteOf double]) ∧
    after.indented = false ∧
    (simpleKey = true → OneLine text (quoteOf double :: (written ++ [quoteOf double])))

theorem Sheet.single_quotes (s : Sheet) {simpleKey : Bool} (fits : fitsSingle text = true)
    (line : simpleKey = true → hasBreak text = false) (indent : Nat) :
    s.Quotes (s.single text indent (!simpleKey)) false indent text simpleKey := by
  cases simpleKey with
  | true =>
    obtain ⟨written, form, done, indented, one⟩ := s.single_line fits (line rfl) indent
    exact ⟨written, form, done, indented, fun _ => one⟩
  | false =>
    obtain ⟨written, form, done, indented, -⟩ := s.single_spec fits indent true
    exact ⟨written, form, done, indented, nofun⟩

theorem Sheet.double_quotes (s : Sheet) (text : List Char) (narrow : indent < lineWidth)
    (simpleKey : Bool) :
    s.Quotes (s.double text indent (!simpleKey)) true indent text simpleKey := by
  cases simpleKey with
  | true =>
    obtain ⟨written, form, done, indented, one⟩ := s.double_line text narrow
    exact ⟨written, form, done, indented, fun _ => one⟩
  | false =>
    obtain ⟨written, form, done, indented, -⟩ := s.double_spec text narrow true
    exact ⟨written, form, done, indented, nofun⟩

section style

variable {x : Scalar} {simpleKey : Bool}

theorem Scalar.style_plain (style : x.style simpleKey = .plain) :
    x.isEvident = true ∧ (x.text = [] ∨ fitsPlain x.text = true) := by
  unfold Scalar.style at style
  repeat' split at style
  all_goals simp_all

theorem Scalar.style_single (style : x.style simpleKey = .single) :
    fitsSingle x.text = true ∧ (simpleKey = true → hasBreak x.text = false) := by
  unfold Scalar.style at style
  repeat' split at style
  all_goals grind

theorem Scalar.style_literal (style : x.style simpleKey = .literal) :
    fitsLiteral x.text = true ∧ simpleKey = false := by
  unfold Scalar.style at style
  repeat' split at style
  all_goals simp_all

theorem Scalar.style_ne_folded : x.style simpleKey ≠ .folded := by
  unfold Scalar.style
  repeat' split
  all_goals simp

/-- Text, or something else that is told from text by its form. -/
def Scalar.IsTold (x : Scalar) : Prop :=
  x.tag = Tag.str ∨ x.literal = false ∧ x.isEvident = true ∧ fitsPlain x.text = true ∧ x.text ≠ []

theorem Scalar.IsTold.tag_of_style (told : x.IsTold) (other : x.style simpleKey ≠ .plain) :
    x.tag = Tag.str := by
  refine told.resolve_right fun ⟨literal, evident, fits, filled⟩ => other ?_
  simp [Scalar.style, literal, evident, fits, filled]

theorem Scalar.IsTold.filled (told : x.IsTold) (evident : x.isEvident = true) : x.text ≠ [] := by
  rcases told with text | ⟨-, -, -, filled⟩
  · intro empty
    rw [Scalar.isEvident, empty, text] at evident
    exact absurd evident (by decide)
  · exact filled

/-- A scalar is written in a style that keeps its tag. -/
theorem Sheet.scalar_spec (s : Sheet) (told : x.IsTold) (narrow : indent < lineWidth)
    (root simpleKey : Bool) :
    ∃ style written, Styled indent x.text style written ∧
      (s.scalar x indent root simpleKey).text =
        s.text ++ (if s.spaced then [] else [' ']) ++ written ∧
      (if style = .literal then (s.scalar x indent root simpleKey).Stands 0
        else (s.scalar x indent root simpleKey).indented = false) ∧
      (if style = .plain then x.isEvident = true else x.tag = Tag.str) ∧
      (simpleKey = true → style ≠ .literal ∧ OneLine x.text written) := by
  cases style : x.style simpleKey with
  | plain =>
    obtain ⟨evident, fits⟩ := Scalar.style_plain style
    have filled := told.filled evident
    have fits := fits.resolve_left filled
    obtain ⟨written, form, done, indented, -, whole⟩ :=
      s.plain_spec fits filled indent root (!simpleKey)
    have plain := fits
    simp only [fitsPlain, Bool.and_eq_true, Bool.not_eq_true'] at plain
    refine ⟨.plain, written, .plain plain.1.2 form, ?_, ?_, by simpa using evident, fun key => ?_⟩
    · rw [Sheet.scalar, style]
      exact done
    · rw [Sheet.scalar, style]
      simpa using indented
    · obtain rfl := whole (by simp [key])
      refine ⟨by decide, fun feed => ?_, fun _ => by omega⟩
      have line := plain.1.1.1.1.2
      exact absurd line (by simpa [hasBreak] using ⟨'\n', feed, by decide⟩)
  | single =>
    obtain ⟨fits, line⟩ := Scalar.style_single style
    have tag := told.tag_of_style (by rw [style]; decide)
    have after : s.scalar x indent root simpleKey = s.single x.text indent (!simpleKey) := by
      rw [Sheet.scalar, style]
    obtain ⟨written, form, done, indented, one⟩ := s.single_quotes fits line indent
    rw [after]
    exact ⟨_, _, .quoted false form, done, by simpa using indented, by simpa using tag,
      fun key => ⟨by decide, one key⟩⟩
  | double =>
    have tag := told.tag_of_style (by rw [style]; decide)
    have after : s.scalar x indent root simpleKey = s.double x.text indent (!simpleKey) := by
      rw [Sheet.scalar, style]
    obtain ⟨written, form, done, indented, one⟩ := s.double_quotes x.text narrow simpleKey
    rw [after]
    exact ⟨_, _, .quoted true form, done, by simpa using indented, by simpa using tag,
      fun key => ⟨by decide, one key⟩⟩
  | literal =>
    obtain ⟨fits, block⟩ := Scalar.style_literal style
    have tag := told.tag_of_style (by rw [style]; decide)
    simp only [fitsLiteral, Bool.and_eq_true, bne_iff_ne, List.all_eq_true] at fits
    obtain ⟨done, stands⟩ := s.literal_spec fits.2 indent
    refine ⟨.literal, _, .literal fits.2 fits.1.1.1, ?_, ?_, by simpa using tag, fun key => ?_⟩
    · rw [Sheet.scalar, style]
      exact done
    · rw [Sheet.scalar, style]
      simpa using stands
    · rw [block] at key
      contradiction
  | folded => exact absurd style Scalar.style_ne_folded

end style

end OverlayBuild.Yaml

import OverlayBuild.Proofs.Yaml.Styled
import OverlayBuild.Yaml.Printer

/-! What is written of a value, whatever it holds, is ASCII: spaces, line feeds and characters that
can be seen. Text with others is written between double quotes, where these are escaped. -/
namespace OverlayBuild.Yaml

variable {s : Sheet} {cs pending : List Char} {rs : List Run} {c : Char} {n indent : Nat}
  {parted spaced indented split first : Bool}

theorem clear_of_fitsSingle (fits : fitsSingle cs = true) : Clear cs := by
  simp only [fitsSingle, Bool.and_eq_true, List.all_eq_true] at fits
  exact fits.2

theorem clear_of_fitsPlain (fits : fitsPlain cs = true) : Clear cs := by
  simp only [fitsPlain, Bool.and_eq_true] at fits
  exact clear_of_fitsSingle fits.1.1.1.1.1

theorem clear_of_fitsLiteral (fits : fitsLiteral cs = true) : Clear cs := by
  simp only [fitsLiteral, Bool.and_eq_true, List.all_eq_true] at fits
  exact fits.2

theorem clear_runs (clear : Clear cs) : ∀ r ∈ runs cs, Clear r.text := fun r mem c held =>
  clear c (flatMap_runs cs ▸ List.mem_flatMap.mpr ⟨r, mem, held⟩)

theorem clear_escape (c : Char) : Clear (escape c) := by
  obtain ⟨e, same, clear, -⟩ := readEscape_escape c
  exact same ▸ clear_cons.mpr ⟨by decide, clear⟩

theorem clear_of_not_isEscaped (bare : isEscaped c = false) : isVerbatim c = true := by
  simp only [isEscaped, Bool.or_eq_false_iff, Bool.not_eq_eq_eq_not, Bool.not_false] at bare
  simp [isVerbatim, bare.2]

theorem clear_doubleQuotes (clear : Clear cs) : Clear (doubleQuotes cs) := by
  intro c mem
  obtain ⟨d, held, own⟩ := List.mem_flatMap.mp mem
  split at own
  · have quotes : Clear ['\'', '\''] := by decide
    exact quotes c own
  · exact List.mem_singleton.mp own ▸ clear d held

namespace Sheet

/-! The steps. -/

theorem clear_write (clear : Clear s.text) (more : Clear cs) : Clear (s.write cs).text := by
  simp [clear, more]

theorem clear_breakLine (clear : Clear s.text) : Clear s.breakLine.text := by
  have feed : isVerbatim '\n' = true := by decide
  simp [clear, feed]

theorem clear_breakLines {α : Type} (clear : Clear s.text) (items : List α) :
    Clear (items.foldl (fun s _ => s.breakLine) s).text := by
  rw [(foldl_breakLine items).1]
  exact clear_append.mpr ⟨clear, clear_breaks _⟩

theorem clear_indicator (clear : Clear s.text) (more : Clear cs) :
    Clear (s.indicator cs parted spaced indented).text := by
  have space : isVerbatim ' ' = true := by decide
  rw [text_indicator]
  split <;> simp [clear, more, space]

theorem clear_indentTo (clear : Clear s.text) : Clear (s.indentTo n).text := by
  rw [indentTo]
  split <;> split
  · exact clear_write (clear_breakLine clear) (clear_spaces _)
  · exact clear_breakLine clear
  · exact clear_write clear (clear_spaces _)
  · exact clear

/-! Scalars. -/

theorem clear_plainRuns (clear : Clear s.text) (each : ∀ r ∈ rs, Clear r.text) :
    Clear (plainRuns indent split rs s).text := by
  induction rs generalizing s with
  | nil => exact clear
  | cons r rs ih =>
    obtain ⟨own, each⟩ := List.forall_mem_cons.mp each
    rw [plainRuns]
    refine ih ?_ each
    split
    · exact clear_indentTo clear
    · exact clear_write clear own

theorem clear_plain (clear : Clear s.text) (more : Clear cs) (root : Bool) :
    Clear (s.plain cs indent root split).text := by
  have space : Clear [' '] := by decide
  rw [Sheet.plain]
  dsimp only
  split
  · exact clear
  · refine clear_plainRuns ?_ (clear_runs more)
    split
    · exact clear
    · exact clear_write (s := { s with openEnded := s.openEnded || root }) clear space

theorem clear_singleRuns (clear : Clear s.text) (each : ∀ r ∈ rs, Clear r.text) :
    Clear (singleRuns indent split first rs s).text := by
  induction rs generalizing s first with
  | nil => exact clear
  | cons r rs ih =>
    obtain ⟨own, each⟩ := List.forall_mem_cons.mp each
    rw [singleRuns]
    refine ih ?_ each
    split
    · exact clear_write clear (clear_doubleQuotes own)
    · split
      · exact clear_indentTo clear
      · exact clear_write clear own
    · exact clear_indentTo (clear_breakLines (clear_breakLine clear) _)

theorem clear_foldDouble (clear : Clear s.text) (next : Char) :
    Clear (s.foldDouble indent next).text := by
  have slash : Clear ['\\'] := by decide
  have folded : Clear ((s.write ['\\']).indentTo indent).settle.text :=
    clear_indentTo (clear_write clear slash)
  rw [foldDouble]
  split
  · exact clear_write folded slash
  · exact folded

theorem clear_doubleChars (clear : Clear s.text) (waiting : Clear pending) :
    Clear (doubleChars indent split pending first cs s).text := by
  have flushed {s : Sheet} {pending : List Char} (clear : Clear s.text) (waiting : Clear pending) :
      Clear (s.write pending.reverse).text :=
    clear_write clear fun c mem => waiting c (List.mem_reverse.mp mem)
  induction cs generalizing s pending first with
  | nil => exact flushed clear waiting
  | cons c cs ih =>
    rw [doubleChars]
    dsimp only
    split
    · have escaped := clear_write (flushed clear waiting) (clear_escape c)
      refine ih ?_ clear_nil
      split
      · exact clear_foldDouble escaped _
      · exact escaped
    next bare =>
      have own : isVerbatim c = true := clear_of_not_isEscaped (eq_false_of_ne_true bare)
      split
      · exact ih (clear_foldDouble (flushed clear waiting) _) (clear_cons.mpr ⟨own, clear_nil⟩)
      · exact ih clear (clear_cons.mpr ⟨own, waiting⟩)

theorem clear_literalRuns (clear : Clear s.text) (each : ∀ r ∈ rs, Clear r.text) :
    Clear (literalRuns indent rs s).text := by
  induction rs generalizing s with
  | nil => exact clear
  | cons r rs ih =>
    obtain ⟨own, each⟩ := List.forall_mem_cons.mp each
    rw [literalRuns]
    refine ih ?_ each
    split
    · exact clear_breakLines clear _
    · split
      · exact clear_write (clear_indentTo clear) own
      · exact clear_write clear own

theorem clear_literal (clear : Clear s.text) (more : Clear cs) :
    Clear (s.literal cs indent).text := by
  have bar : isVerbatim '|' = true := by decide
  have hints : Clear ('|' :: literalHints cs) := clear_cons.mpr ⟨bar, clear_literalHints cs⟩
  have begun : Clear (s.indicator ('|' :: literalHints cs) true false false).text :=
    clear_indicator clear hints
  have written {s : Sheet} (clear : Clear s.text) :
      Clear (s.breakLine.literalRuns indent (runs cs)).text :=
    clear_literalRuns (clear_breakLine clear) (clear_runs more)
  rw [Sheet.literal]
  split
  · exact written begun
  · exact clear_breakLine (written begun)

theorem clear_scalar (clear : Clear s.text) (x : Scalar) (indent : Nat) (root simpleKey : Bool) :
    Clear (s.scalar x indent root simpleKey).text := by
  have single : Clear ['\''] := by decide
  have double : Clear ['"'] := by decide
  rw [Sheet.scalar]
  cases style : x.style simpleKey with
  | plain =>
    refine clear_plain clear ?_ root
    rcases (Scalar.style_plain style).2 with empty | fits
    · exact empty ▸ clear_nil
    · exact clear_of_fitsPlain fits
  | single =>
    have more := clear_of_fitsSingle (Scalar.style_single style).1
    exact clear_indicator (clear_singleRuns (clear_indicator clear single) (clear_runs more)) single
  | double =>
    exact clear_indicator (clear_doubleChars (clear_indicator clear double) clear_nil) double
  | literal => exact clear_literal clear (clear_of_fitsLiteral (Scalar.style_literal style).1)
  | folded => exact absurd style Scalar.style_ne_folded

/-! Values. -/

theorem clear_key (clear : Clear s.text) (multiline : Multiline) (key : Value) :
    Clear (s.key multiline key indent).text := by
  have colon : Clear [':'] := by decide
  have mark : Clear ['?'] := by decide
  rw [Sheet.key]
  dsimp only
  split
  · exact clear_indicator (clear_scalar (clear_indentTo clear) _ _ _ _) colon
  · exact clear_indicator (clear_indentTo (clear_scalar
      (clear_indicator (clear_indentTo clear) mark) _ _ _ _)) colon

mutual
theorem clear_value (multiline : Multiline) (indent : Option Nat) (inMapping : Bool) :
    ∀ (v : Value) {s : Sheet}, Clear s.text → Clear (Sheet.value multiline indent inMapping v s).text
  | .list items, s, clear | .tuple items, s, clear => by
    have opening : Clear ['['] := by decide
    have closing : Clear [']'] := by decide
    rw [Sheet.value]
    split
    · exact clear_indicator (clear_indicator clear opening) closing
    · exact clear_items multiline _ items clear
  | .map entries, s, clear => by
    have opening : Clear ['\x7b'] := by decide
    have closing : Clear ['\x7d'] := by decide
    rw [Sheet.value]
    split
    · exact clear_indicator (clear_indicator clear opening) closing
    · exact clear_entries multiline _ entries clear
  | .null, _, clear | .bool _, _, clear | .int _, _, clear | .float _, _, clear | .str _, _, clear
  | .date _, _, clear | .datetime _, _, clear | .bytes _, _, clear | .set _, _, clear
  | .loop _, _, clear => by
    rw [Sheet.value]
    · exact clear_scalar clear _ _ _ _
    all_goals exact nofun
theorem clear_items (multiline : Multiline) (indent : Nat) :
    ∀ (vs : List Value) {s : Sheet}, Clear s.text → Clear (Sheet.items multiline indent vs s).text
  | [], _, clear => clear
  | v :: vs, s, clear => by
    have mark : Clear ['-'] := by decide
    rw [Sheet.items]
    exact clear_items multiline indent vs
      (clear_value multiline (some indent) false v (clear_indicator (clear_indentTo clear) mark))
theorem clear_entries (multiline : Multiline) (indent : Nat) :
    ∀ (es : List (Value × Value)) {s : Sheet}, Clear s.text →
      Clear (Sheet.entries multiline indent es s).text
  | [], _, clear => clear
  | (k, v) :: es, s, clear => by
    rw [Sheet.entries]
    exact clear_entries multiline indent es
      (clear_value multiline (some indent) true v (clear_key clear multiline k))
end

end Sheet

end OverlayBuild.Yaml

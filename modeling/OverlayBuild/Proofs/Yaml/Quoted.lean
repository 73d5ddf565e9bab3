import OverlayBuild.Proofs.Number.Text
import OverlayBuild.Proofs.Outcome
import OverlayBuild.Proofs.Text
import OverlayBuild.Proofs.Yaml.Sheet
import OverlayBuild.Yaml.Token.Quoted

/-! Text between quotes. `Enquoted` says in which ways a text may stand there; the writer takes
one of them, and the reader reads the text back from each. -/
namespace OverlayBuild.Yaml

open Text

def quoteOf (double : Bool) : Char := if double then '"' else '\''

/-- A text and a way to write it between quotes, with lines after the first indented. -/
inductive Enquoted (double : Bool) (indent : Nat) : List Char → List Char → Prop
  | done : Enquoted double indent [] []
  | space {text written : List Char} (inner : Enquoted double indent text written)
      (next : written.head? ≠ some '\n') : Enquoted double indent (' ' :: text) (' ' :: written)
  | char {c : Char} {text written : List Char} (verbatim : isVerbatim c = true)
      (visible : c ≠ ' ' ∧ c ≠ '\n') (bare : c ≠ quoteOf double ∧ (double = true → c ≠ '\\'))
      (inner : Enquoted double indent text written) :
      Enquoted double indent (c :: text) (c :: written)
  /-- Single quotes are doubled between their like. -/
  | quote {text written : List Char} (single : double = false)
      (inner : Enquoted double indent text written) :
      Enquoted double indent ('\'' :: text) ('\'' :: '\'' :: written)
  /-- A single space as a line break. -/
  | fold {text written : List Char} (single : double = false)
      (inner : Enquoted double indent text written)
      (next : written.head? ≠ some ' ' ∧ written.head? ≠ some '\n') :
      Enquoted double indent (' ' :: text) ('\n' :: List.replicate indent ' ' ++ written)
  /-- Line breaks, with one more before them. -/
  | breaks (k : Nat) {text written : List Char} (single : double = false)
      (inner : Enquoted double indent text written)
      (next : written.head? ≠ some ' ' ∧ written.head? ≠ some '\n') :
      Enquoted double indent (List.replicate (k + 1) '\n' ++ text)
        ('\n' :: List.replicate (k + 1) '\n' ++ List.replicate indent ' ' ++ written)
  | escape {c : Char} {text written : List Char} (both : double = true)
      (inner : Enquoted double indent text written) :
      Enquoted double indent (c :: text) (Yaml.escape c ++ written)
  /-- A backslash takes the line break after it away. -/
  | turn {text written : List Char} (both : double = true)
      (inner : Enquoted double indent text written)
      (next : written.head? ≠ some ' ' ∧ written.head? ≠ some '\n') :
      Enquoted double indent text ('\\' :: '\n' :: List.replicate indent ' ' ++ written)
  /-- A space that would be lost at the start of a line. -/
  | keep {text written : List Char} (both : double = true)
      (inner : Enquoted double indent text written) :
      Enquoted double indent (' ' :: text) ('\\' :: ' ' :: written)

variable {double : Bool} {indent : Nat} {text written piece rest more : List Char} {start m : Mark}
  {c : Char} {after last : Cursor} {part : List Char}

/-! What the reader does at each sort of piece, after plain characters that it has passed. -/

/-- What the reader finds past the plain characters: the closing quote, or a piece of text. -/
def quotedPiece (double : Bool) (start : Mark) (after : Cursor) :
    Except Failure (Option (List Char) × Cursor) :=
  let x := after.peek
  if !double && x == '\'' && after.peekAt 1 == '\'' then .ok (some ['\''], after.skip 2)
  else if x = quoteOf double then .ok (none, after.next)
  else if x = '\'' ∨ x = '"' ∨ (x = '\\' ∧ double = false) then .ok (some [x], after.next)
  else if x = '\\' then (readEscape start after.next).map fun found => (some found.1, found.2)
  else (readQuotedSpaces start after).map fun found => (some found.1, found.2)

section reading

variable (clear : Clear piece) (plain : ∀ c ∈ piece, isQuotedPlain c = true)
  (stops : ∀ c ∈ rest.head?, isQuotedPlain c = false)

include clear plain stops

theorem readQuotedFrom_eq :
    readQuotedFrom double start ⟨piece ++ rest, m⟩ =
      (quotedPiece double start ⟨rest, m.over piece⟩ >>= fun
        | (none, next) => .ok (piece, next)
        | (some part, next) =>
          if next.rest.length < (piece ++ rest).length then do
            let (more, c) ← readQuotedFrom double start next
            return (piece ++ part ++ more, c)
          else .ok (piece ++ part, next)) := by
  rw [readQuotedFrom, Cursor.span_append clear plain stops]
  cases double <;> simp only [quotedPiece, quoteOf, Bool.false_eq_true, if_true, if_false]
  all_goals
    split
    · rfl
    split
    · rfl
    split
    · rfl
    split
    · cases readEscape start (Cursor.next ⟨rest, m.over piece⟩) <;> rfl
    · cases readQuotedSpaces start ⟨rest, m.over piece⟩ <;> rfl

theorem readQuotedFrom_of_close
    (found : quotedPiece double start ⟨rest, m.over piece⟩ = .ok (none, after)) :
    readQuotedFrom double start ⟨piece ++ rest, m⟩ = .ok (piece, after) := by
  rw [readQuotedFrom_eq clear plain stops, found]
  rfl

theorem readQuotedFrom_of_piece
    (found : quotedPiece double start ⟨rest, m.over piece⟩ = .ok (some part, after))
    (shorter : after.rest.length < rest.length)
    (goesOn : readQuotedFrom double start after = .ok (text, last)) :
    readQuotedFrom double start ⟨piece ++ rest, m⟩ = .ok (piece ++ part ++ text, last) := by
  have less : after.rest.length < (piece ++ rest).length := by
    rw [List.length_append]; omega
  rw [readQuotedFrom_eq clear plain stops, found]
  simp only [bind, Except.bind, less, if_true, goesOn, pure, Except.pure]

end reading

theorem quotedPiece_close (other : double = false → rest.head? ≠ some '\'') :
    quotedPiece double start ⟨quoteOf double :: rest, m⟩ =
      .ok (none, ⟨rest, m.over [quoteOf double]⟩) := by
  cases double with
  | true => simp [quotedPiece, quoteOf, Cursor.next_cons (c := '"') (by decide)]
  | false =>
    have single : (Cursor.mk ('\'' :: rest) m).peekAt 1 ≠ '\'' := by
      cases rest with
      | nil => simp [Cursor.peekAt, sentinel]
      | cons c rest => simpa [Cursor.peekAt] using other rfl
    simp [quotedPiece, quoteOf, single, Cursor.next_cons (c := '\'') (by decide)]

theorem quotedPiece_doubled :
    quotedPiece false start ⟨'\'' :: '\'' :: rest, m⟩ =
      .ok (some ['\''], ⟨rest, m.over ['\'', '\'']⟩) := by
  have skipped : Cursor.skip 2 ⟨['\'', '\''] ++ rest, m⟩ = ⟨rest, m.over ['\'', '\'']⟩ :=
    @Cursor.skip_append ['\'', '\''] rest m (by simp; decide)
  rw [List.cons_append, List.cons_append, List.nil_append] at skipped
  simp [quotedPiece, Cursor.peekAt, skipped]

theorem quotedPiece_other (mark : c = '\'' ∨ c = '"' ∨ c = '\\')
    (bare : c ≠ quoteOf double ∧ (double = true → c ≠ '\\')) :
    quotedPiece double start ⟨c :: rest, m⟩ = .ok (some [c], ⟨rest, m.over [c]⟩) := by
  have verbatim : isVerbatim c = true := by rcases mark with rfl | rfl | rfl <;> decide
  rcases mark with rfl | rfl | rfl <;> cases double <;>
    simp_all [quotedPiece, quoteOf, Cursor.next_cons verbatim]

theorem quotedPiece_escape {e : List Char}
    (read : ∀ m, readEscape start ⟨e ++ rest, m⟩ = .ok (part, ⟨rest, m.over e⟩)) :
    quotedPiece true start ⟨'\\' :: e ++ rest, m⟩ =
      .ok (some part, ⟨rest, m.over ('\\' :: e)⟩) := by
  simp [quotedPiece, quoteOf, Cursor.next_cons (c := '\\') (by decide), read, Except.map]

theorem quotedPiece_blank (blank : c = ' ' ∨ c = '\n') :
    quotedPiece double start ⟨c :: rest, m⟩ =
      (readQuotedSpaces start ⟨c :: rest, m⟩).map fun found => (some found.1, found.2) := by
  rcases blank with rfl | rfl <;> cases double <;> simp [quotedPiece, quoteOf]

/-! Blanks and line breaks. -/

section blanks

variable {k : Nat} (solid : Solid rest)

include solid

theorem readQuotedSpaces_spaces :
    readQuotedSpaces start ⟨List.replicate k ' ' ++ rest, m⟩ =
      .ok (List.replicate k ' ', ⟨rest, m.over (List.replicate k ' ')⟩) := by
  have spaces : ∀ c ∈ List.replicate k ' ', (c == ' ' || c == '\t') = true := by simp
  rw [readQuotedSpaces, Cursor.span_append (clear_spaces k) spaces solid.not_blank]
  simp [solid.peek_ne_sentinel, Cursor.lineBreak?_of_not_break solid.not_break, pure, Except.pure]

theorem readFoldedBreaks_breaks (indented : 0 < indent) :
    readFoldedBreaks start ⟨List.replicate k '\n' ++ (List.replicate indent ' ' ++ rest), m⟩ =
      .ok (List.replicate k '\n',
        ⟨rest, m.over (List.replicate k '\n' ++ List.replicate indent ' ')⟩) := by
  induction k generalizing m with
  | zero =>
    obtain ⟨n, rfl⟩ := Nat.exists_eq_succ_of_ne_zero (Nat.ne_of_gt indented)
    have spaces : ∀ c ∈ List.replicate (n + 1) ' ', (c == ' ' || c == '\t') = true := by simp
    have separator : (Cursor.mk (List.replicate (n + 1) ' ' ++ rest) m).atSeparator = false := by
      simp [Cursor.atSeparator, Cursor.atMarker, List.replicate_succ]
    rw [List.replicate_zero, List.nil_append, readFoldedBreaks, separator,
      Cursor.skipWhile_append (clear_spaces _) spaces solid.not_blank]
    simp [Cursor.lineBreak?_of_not_break solid.not_break]
  | succ k ih =>
    rw [List.replicate_succ, List.cons_append]
    generalize List.replicate k '\n' ++ (List.replicate indent ' ' ++ rest) = lines at ih ⊢
    have separator : (Cursor.mk ('\n' :: lines) m).atSeparator = false := by
      simp [Cursor.atSeparator, Cursor.atMarker]
    have stays : Cursor.skipWhile (fun x => x == ' ' || x == '\t') ⟨[] ++ '\n' :: lines, m⟩ =
        ⟨'\n' :: lines, m⟩ :=
      Cursor.skipWhile_append clear_nil nofun (by simp)
    rw [List.nil_append] at stays
    rw [readFoldedBreaks, separator, stays]
    simp only [Cursor.lineBreak?_feed, List.length_cons, Nat.lt_succ_self, if_true, ih, bind,
      Except.bind, pure, Except.pure, Bool.false_eq_true, if_false]
    rfl

/-- Line breaks between lines of text are folded. -/
theorem readQuotedSpaces_breaks (indented : 0 < indent) :
    readQuotedSpaces start
        ⟨'\n' :: (List.replicate k '\n' ++ (List.replicate indent ' ' ++ rest)), m⟩ =
      .ok (foldBreak '\n' (List.replicate k '\n'),
        ⟨rest, m.over ('\n' :: List.replicate k '\n' ++ List.replicate indent ' ')⟩) := by
  have stays {lines : List Char} :
      Cursor.span (fun x => x == ' ' || x == '\t') ⟨[] ++ '\n' :: lines, m⟩ =
        ([], ⟨'\n' :: lines, m⟩) :=
    Cursor.span_append clear_nil nofun (by simp)
  simp only [List.nil_append] at stays
  have inside : '\n' ≠ sentinel := by decide
  rw [readQuotedSpaces, stays]
  simp only [Cursor.peek_cons, Cursor.lineBreak?_feed, readFoldedBreaks_breaks solid indented,
    inside, if_false, bind, Except.bind, pure, Except.pure]
  rfl

theorem quotedPiece_breaks (indented : 0 < indent) :
    quotedPiece double start
        ⟨'\n' :: List.replicate k '\n' ++ List.replicate indent ' ' ++ rest, m⟩ =
      .ok (some (foldBreak '\n' (List.replicate k '\n')),
        ⟨rest, m.over ('\n' :: List.replicate k '\n' ++ List.replicate indent ' ')⟩) := by
  rw [List.append_assoc, List.cons_append, quotedPiece_blank (.inr rfl),
    readQuotedSpaces_breaks solid indented]
  rfl

end blanks

/-! Escapes. -/

theorem readEscape_turn (indented : 0 < indent) (solid : Solid rest) :
    readEscape start ⟨'\n' :: (List.replicate indent ' ' ++ rest), m⟩ =
      .ok ([], ⟨rest, m.over ('\n' :: List.replicate indent ' ')⟩) := by
  have folded : readFoldedBreaks start ⟨List.replicate 0 '\n' ++ (List.replicate indent ' ' ++ rest),
      m.over ['\n']⟩ = _ := readFoldedBreaks_breaks solid indented
  simp only [List.replicate_zero, List.nil_append] at folded
  simp [readEscape, simpleEscape?, escapeDigits?, Cursor.lineBreak?_feed, folded]

theorem readEscape_keep : readEscape start ⟨' ' :: rest, m⟩ = .ok ([' '], ⟨rest, m.over [' ']⟩) := by
  simp [readEscape, simpleEscape?, Cursor.next_cons (c := ' ') (by decide), pure, Except.pure]

theorem readEscape_simple {x : Char} (verbatim : isVerbatim x = true)
    (means : simpleEscape? x = some c) :
    readEscape start ⟨x :: rest, m⟩ = .ok ([c], ⟨rest, m.over [x]⟩) := by
  simp [readEscape, means, Cursor.next_cons verbatim, pure, Except.pure]

theorem clear_upperDigits {ds : List Nat} (small : ∀ d ∈ ds, d < 16) :
    Clear (ds.map upperDigitChar) := by
  have each : ∀ d < 16, isVerbatim (upperDigitChar d) = true := by decide
  exact List.forall_mem_map.mpr fun d mem => each d (small d mem)

theorem readCodePoint_hex {width : Nat} (small : c.toNat < 16 ^ (width + 1)) :
    readCodePoint start (width + 1) ⟨fixedUpperHex (width + 1) c.toNat ++ rest, m⟩ =
      .ok (c, ⟨rest, m.over (fixedUpperHex (width + 1) c.toNat)⟩) := by
  obtain ⟨ds, spelled, length, digits, value⟩ := fixedUpperHex_spec small
  have skipped : Cursor.skip (ds.map upperDigitChar).length ⟨ds.map upperDigitChar ++ rest, m⟩ = _ :=
    Cursor.skip_append (clear_upperDigits digits)
  rw [List.length_map, length] at skipped
  rw [readCodePoint, spelled]
  refine bind_eq_ok_iff.mpr ⟨ds, mapM_eq_ok_iff.mpr ?_, ?_⟩
  · refine List.forall₂_iff_get.mpr ⟨by rw [List.length_range, length], fun k first second => ?_⟩
    have found : Cursor.peekAt ⟨ds.map upperDigitChar ++ rest, m⟩ k = upperDigitChar ds[k] := by
      simp [Cursor.peekAt, List.getElem?_append, second]
    simp [found, hexValue?_upperDigitChar _ (digits _ (List.getElem_mem second))]
  · rw [value, charOf, if_pos toNat_lt_limit, skipped, Utf8.ofCodePoint_toNat]
    rfl

theorem readEscape_hex {x : Char} {width : Nat} (verbatim : isVerbatim x = true)
    (unnamed : simpleEscape? x = none) (counted : escapeDigits? x = some (width + 1))
    (small : c.toNat < 16 ^ (width + 1)) :
    readEscape start ⟨x :: fixedUpperHex (width + 1) c.toNat ++ rest, m⟩ =
      .ok ([c], ⟨rest, m.over (x :: fixedUpperHex (width + 1) c.toNat)⟩) := by
  rw [List.cons_append, readEscape]
  simp only [Cursor.peek_cons, unnamed, counted, Cursor.next_cons verbatim,
    readCodePoint_hex small, bind, Except.bind, pure, Except.pure]
  rfl

/-- Every escape is read back, whatever comes after it. -/
theorem readEscape_escape (c : Char) :
    ∃ e, escape c = '\\' :: e ∧ Clear e ∧ 0 < e.length ∧ ∀ start rest m,
      readEscape start ⟨e ++ rest, m⟩ = .ok ([c], ⟨rest, m.over e⟩) := by
  have named {x : Char} {n : Nat} (number : c.toNat = n)
      (spelled : isVerbatim x = true ∧ simpleEscape? x = some (Char.ofNat n)) :
      ∃ e, ['\\', x] = '\\' :: e ∧ Clear e ∧ 0 < e.length ∧ ∀ start rest m,
        readEscape start ⟨e ++ rest, m⟩ = .ok ([c], ⟨rest, m.over e⟩) := by
    have own : simpleEscape? x = some c := by rw [spelled.2, ← number, Char.ofNat_toNat]
    exact ⟨[x], rfl, by simp [spelled.1], by simp, fun _ _ _ => readEscape_simple spelled.1 own⟩
  have numbered {x : Char} {k : Nat} (small : c.toNat < 16 ^ (k + 1))
      (spelled : isVerbatim x = true ∧ simpleEscape? x = none ∧ escapeDigits? x = some (k + 1)) :
      ∃ e, '\\' :: x :: fixedUpperHex (k + 1) c.toNat = '\\' :: e ∧ Clear e ∧ 0 < e.length ∧
        ∀ start rest m, readEscape start ⟨e ++ rest, m⟩ = .ok ([c], ⟨rest, m.over e⟩) := by
    obtain ⟨ds, digits, -, below, -⟩ := fixedUpperHex_spec small
    refine ⟨_, rfl, clear_cons.mpr ⟨spelled.1, digits ▸ clear_upperDigits below⟩, by simp,
      fun _ _ _ => readEscape_hex spelled.1 spelled.2.1 spelled.2.2 small⟩
  unfold escape
  split
  iterate 15 exact named ‹_› (by decide)
  split
  · exact numbered (k := 1) (by omega) (by decide)
  split
  · exact numbered (k := 3) (by omega) (by decide)
  · exact numbered (k := 7) (Nat.lt_trans toNat_lt_limit (by decide)) (by decide)

/-! The whole text. -/

theorem Enquoted.clear (form : Enquoted double indent text written) : Clear written := by
  induction form with
  | done => exact clear_nil
  | space _ _ ih => simp [ih, isVerbatim]
  | char verbatim _ _ _ ih => exact clear_cons.mpr ⟨verbatim, ih⟩
  | quote _ _ ih => simp [ih, isVerbatim]
  | fold _ _ _ ih => simp [ih, isVerbatim]
  | breaks k _ _ _ ih => simp [ih, isVerbatim]
  | @escape c _ _ _ _ ih =>
    obtain ⟨e, spelled, clear, -⟩ := readEscape_escape c
    simp [spelled, clear, ih, isVerbatim]
  | turn _ _ _ ih => simp [ih, isVerbatim]
  | keep _ _ ih => simp [ih, isVerbatim]

theorem solid_of_clear (rest : List Char) (clear : Clear written) {c : Char}
    (mark : isVerbatim c = true) (visible : c ≠ ' ' ∧ c ≠ '\n')
    (next : written.head? ≠ some ' ' ∧ written.head? ≠ some '\n') : Solid (written ++ c :: rest) := by
  cases written with
  | nil => exact ⟨c, rest, rfl, mark, visible⟩
  | cons d written =>
    exact ⟨d, _, rfl, (clear_cons.mp clear).1, by simpa using next.1, by simpa using next.2⟩

/-- The reader takes the text off the way in which it is written, after plain characters and
spaces that it has not told apart from it yet. -/
def ReadsBack (double : Bool) (start : Mark) (rest text written : List Char) (k : Nat) : Prop :=
  ∀ piece : List Char, Clear piece → (∀ c ∈ piece, isQuotedPlain c = true) → ∀ m,
    readQuotedFrom double start
        ⟨piece ++ (List.replicate k ' ' ++ (written ++ quoteOf double :: rest)), m⟩ =
      .ok (piece ++ (List.replicate k ' ' ++ text),
        ⟨rest, m.over (piece ++ (List.replicate k ' ' ++ (written ++ [quoteOf double])))⟩)

namespace ReadsBack

theorem of_piece {chunk : List Char} (inner : ReadsBack double start rest text written 0)
    (starts : ∃ c more, chunk = c :: more ∧ isQuotedPlain c = false)
    (found : ∀ m, quotedPiece double start ⟨chunk ++ (written ++ quoteOf double :: rest), m⟩ =
      .ok (some part, ⟨written ++ quoteOf double :: rest, m.over chunk⟩)) :
    ReadsBack double start rest (part ++ text) (chunk ++ written) 0 := by
  intro piece clear plain m
  obtain ⟨c, more, rfl, special⟩ := starts
  have goesOn := inner [] clear_nil nofun ((m.over piece).over (c :: more))
  simp only [List.replicate_zero, List.nil_append] at goesOn
  have read := readQuotedFrom_of_piece clear plain (by simpa using special) (found (m.over piece))
    (by simp only [List.length_append, List.length_cons]; omega) goesOn
  simpa using read

theorem spaced (base : ReadsBack double start rest text written 0)
    (solid : Solid (written ++ quoteOf double :: rest)) (k : Nat) :
    ReadsBack double start rest text written (k + 1) := by
  intro piece clear plain m
  have found : quotedPiece double start
      ⟨List.replicate (k + 1) ' ' ++ (written ++ quoteOf double :: rest), m.over piece⟩ =
        .ok (some (List.replicate (k + 1) ' '), ⟨written ++ quoteOf double :: rest,
          (m.over piece).over (List.replicate (k + 1) ' ')⟩) := by
    have blanks : quotedPiece double start
        ⟨' ' :: (List.replicate k ' ' ++ (written ++ quoteOf double :: rest)), m.over piece⟩ = _ :=
      quotedPiece_blank (.inl rfl)
    rw [← List.cons_append, ← List.replicate_succ, readQuotedSpaces_spaces solid] at blanks
    exact blanks
  have goesOn := base [] clear_nil nofun ((m.over piece).over (List.replicate (k + 1) ' '))
  simp only [List.replicate_zero, List.nil_append] at goesOn
  have special : ∀ c ∈ (List.replicate (k + 1) ' ' ++ (written ++ quoteOf double :: rest)).head?,
      isQuotedPlain c = false := by
    simp [isQuotedPlain, isBlankOrEnd, isSpaceOrEnd, List.replicate_succ]
  have read := readQuotedFrom_of_piece clear plain special found
    (by simp only [List.length_append, List.length_replicate, List.length_cons]; omega) goesOn
  simpa using read

theorem any (base : ReadsBack double start rest text written 0) (clear : Clear written)
    (bare : written.head? ≠ some ' ') {k : Nat} (next : k = 0 ∨ written.head? ≠ some '\n') :
    ReadsBack double start rest text written k := by
  cases k with
  | zero => exact base
  | succ k =>
    have line : written.head? ≠ some '\n' := next.resolve_left (Nat.succ_ne_zero k)
    exact base.spaced (solid_of_clear _ clear (by cases double <;> decide)
      (by cases double <;> decide) ⟨bare, line⟩) k

end ReadsBack

theorem Enquoted.readsBack (form : Enquoted double indent text written) (indented : 0 < indent)
    (other : double = false → rest.head? ≠ some '\'') (k : Nat)
    (next : k = 0 ∨ written.head? ≠ some '\n') : ReadsBack double start rest text written k := by
  induction form generalizing k with
  | done =>
    refine ReadsBack.any (fun piece clear plain m => ?_) clear_nil nofun next
    simpa using readQuotedFrom_of_close clear plain (by cases double <;> simp [quoteOf, isQuotedPlain])
      (quotedPiece_close other)
  | @space text written inner feed ih =>
    -- One more space before what is inside.
    have more := ih (k + 1) (.inr feed)
    intro piece clear plain m
    have spaces (cs : List Char) :
        List.replicate (k + 1) ' ' ++ cs = List.replicate k ' ' ++ ' ' :: cs := by
      rw [List.replicate_succ', List.append_assoc]
      rfl
    simpa only [spaces, List.cons_append] using more piece clear plain m
  | @char c text written verbatim visible bare inner ih =>
    refine ReadsBack.any ?_ (clear_cons.mpr ⟨verbatim, inner.clear⟩) (by simpa using visible.1) next
    by_cases mark : c = '\'' ∨ c = '"' ∨ c = '\\'
    · exact .of_piece (ih 0 (.inl rfl)) ⟨c, [], rfl, by rcases mark with rfl | rfl | rfl <;> decide⟩
        fun m => quotedPiece_other mark bare
    · have own : isQuotedPlain c = true := by
        simp_all [isQuotedPlain, isBlankOrEnd_of_verbatim verbatim]
      intro piece clear plain m
      have longer := ih 0 (.inl rfl) (piece ++ [c]) (clear_append.mpr ⟨clear, by simp [verbatim]⟩)
        (List.forall_mem_append.mpr ⟨plain, by simp [own]⟩) m
      simpa using longer
  | quote single inner ih =>
    subst single
    exact .any (.of_piece (ih 0 (.inl rfl)) ⟨'\'', ['\''], rfl, by decide⟩ fun m => quotedPiece_doubled)
      (by simp [inner.clear, isVerbatim]) (by simp) next
  | fold single inner solid ih =>
    subst single
    have solid := solid_of_clear rest inner.clear (c := quoteOf false) (by decide) (by decide) solid
    exact .any (.of_piece (ih 0 (.inl rfl)) ⟨'\n', _, rfl, by decide⟩
      fun m => quotedPiece_breaks (k := 0) solid indented) (by simp [inner.clear, isVerbatim])
      (by simp) next
  | breaks n single inner solid ih =>
    subst single
    have solid := solid_of_clear rest inner.clear (c := quoteOf false) (by decide) (by decide) solid
    exact .any (.of_piece (ih 0 (.inl rfl)) ⟨'\n', _, rfl, by decide⟩
      fun m => quotedPiece_breaks (k := n + 1) solid indented) (by simp [inner.clear, isVerbatim])
      (by simp) next
  | @escape c text written both inner ih =>
    subst both
    obtain ⟨e, spelled, clear, filled, read⟩ := readEscape_escape c
    rw [spelled]
    exact .any (.of_piece (ih 0 (.inl rfl)) ⟨'\\', e, rfl, by decide⟩
      fun m => quotedPiece_escape (read start _)) (by simp [clear, inner.clear, isVerbatim])
      (by simp) (.inr (by simp))
  | turn both inner solid ih =>
    subst both
    have solid := solid_of_clear rest inner.clear (c := quoteOf true) (by decide) (by decide) solid
    have read (m : Mark) : readEscape start ⟨_, m⟩ = _ := readEscape_turn indented solid
    exact .any (.of_piece (ih 0 (.inl rfl)) ⟨'\\', '\n' :: List.replicate indent ' ', rfl, by decide⟩
      fun m => quotedPiece_escape read) (by simp [inner.clear, isVerbatim])
      (by simp) (.inr (by simp))
  | keep both inner ih =>
    subst both
    exact .any (.of_piece (ih 0 (.inl rfl)) ⟨'\\', [' '], rfl, by decide⟩
      fun m => quotedPiece_escape fun m => readEscape_keep) (by simp [inner.clear, isVerbatim])
      (by simp) (.inr (by simp))

/-- A quoted text is read back, up to its closing quote and no further. -/
theorem Enquoted.readQuoted (form : Enquoted double indent text written) (indented : 0 < indent)
    (other : double = false → rest.head? ≠ some '\'') :
    readQuoted double ⟨quoteOf double :: (written ++ quoteOf double :: rest), m⟩ =
      .ok (String.ofList text, ⟨rest, m.over (quoteOf double :: (written ++ [quoteOf double]))⟩) := by
  have verbatim : isVerbatim (quoteOf double) = true := by cases double <;> decide
  have back : ReadsBack double m rest text written 0 := form.readsBack indented other 0 (.inl rfl)
  have read := back [] clear_nil nofun (m.over [quoteOf double])
  simp only [List.replicate_zero, List.nil_append] at read
  simp only [Yaml.readQuoted, Cursor.next_cons verbatim, read, bind, Except.bind, pure, Except.pure,
    Mark.over_over, List.cons_append, List.nil_append]

/-! The writer. -/

/-- What starts with something to be seen is written so that it starts with it, too. -/
theorem Enquoted.head_ne (form : Enquoted double indent text written)
    (starts : ∀ c ∈ text.head?, c ≠ ' ' ∧ (double = false → c ≠ '\n')) :
    written.head? ≠ some ' ' ∧ written.head? ≠ some '\n' := by
  cases form with
  | done => simp
  | space => exact absurd rfl (starts ' ' rfl).1
  | char _ visible => simpa using visible
  | quote => simp
  | fold => exact absurd rfl (starts ' ' rfl).1
  | breaks k single => exact absurd rfl ((starts '\n' (by simp [List.replicate_succ])).2 single)
  | @escape c =>
    obtain ⟨e, spelled, -⟩ := readEscape_escape c
    simp [spelled]
  | turn => simp
  | keep => exact absurd rfl (starts ' ' rfl).1

section single

variable {word : List Char} {rs : List Run} {s : Sheet} {split first : Bool}

theorem length_le_doubleQuotes : word.length ≤ (doubleQuotes word).length := by
  induction word with
  | nil => exact Nat.le_refl _
  | cons c word ih =>
    have own : 1 ≤ (if c = '\'' then ['\'', '\''] else [c]).length := by split <;> simp
    rw [doubleQuotes] at ih ⊢
    rw [List.flatMap_cons, List.length_append, List.length_cons]
    omega

theorem Enquoted.words (form : Enquoted false indent text written) (clear : Clear word)
    (visible : ∀ c ∈ word, c ≠ ' ' ∧ c ≠ '\n') :
    Enquoted false indent (word ++ text) (doubleQuotes word ++ written) := by
  induction word with
  | nil => exact form
  | cons c word ih =>
    obtain ⟨verbatim, clear⟩ := clear_cons.mp clear
    obtain ⟨own, visible⟩ := List.forall_mem_cons.mp visible
    have inner := ih clear visible
    by_cases quote : c = '\''
    · subst quote
      exact .quote rfl inner
    · have step : doubleQuotes (c :: word) = c :: doubleQuotes word := by
        simp [doubleQuotes, quote]
      rw [step]
      exact .char verbatim own ⟨quote, nofun⟩ inner

theorem Enquoted.spaces (form : Enquoted double indent text written)
    (next : written.head? ≠ some '\n') (k : Nat) :
    Enquoted double indent (List.replicate (k + 1) ' ' ++ text)
      (List.replicate (k + 1) ' ' ++ written) := by
  induction k with
  | zero => exact .space form next
  | succ k ih => exact .space ih (by simp [List.replicate_succ])

/-- A line is broken only where something stands on it, so that the break is read as one. -/
theorem singleRuns_spec (indent : Nat) (split first : Bool) (even : ∀ r ∈ rs, r.Even)
    (clear : ∀ r ∈ rs, Clear r.text) (chain : rs.IsChain Alternates)
    (stands : s.indented = false ∨ indent ≤ s.column)
    (after : ∀ r ∈ rs.head?, r.kind = .spaces → first = false →
      s.indented = false ∨ indent < s.column) :
    ∃ written, Enquoted false indent (rs.flatMap Run.text) written ∧
      (s.singleRuns indent split first rs).text = s.text ++ written := by
  induction rs generalizing s first with
  | nil => exact ⟨[], .done, by simp [Sheet.singleRuns]⟩
  | cons r rs ih =>
    obtain ⟨own, later⟩ := List.forall_mem_cons.mp even
    obtain ⟨verbatim, rest⟩ := List.forall_mem_cons.mp clear
    have goOn {s : Sheet} := ih (s := s) false later rest chain.tail
    rw [Sheet.singleRuns]
    cases kind : r.kind with
    | word =>
      obtain ⟨c, cs, text, visible⟩ := own.word kind
      have longer : 0 < (doubleQuotes r.text).length :=
        Nat.lt_of_lt_of_le (List.length_pos_iff.mpr own.filled) length_le_doubleQuotes
      have wide : (s.write (doubleQuotes r.text)).indented = false ∨
          indent < (s.write (doubleQuotes r.text)).column :=
        stands.imp_right fun (within : indent ≤ s.column) => by
          simp only [Sheet.write]; omega
      obtain ⟨written, form, done⟩ := goOn (wide.imp_right Nat.le_of_lt) fun _ _ _ _ => wide
      exact ⟨_, form.words verbatim visible, by simpa using done⟩
    | spaces =>
      obtain ⟨k, text⟩ := own.spaces kind
      have visible := head_of_alternates later chain (by rw [kind]; decide)
      have calm (s : Sheet) (b : Run) (mem : b ∈ rs.head?) (spaces : b.kind = .spaces) :
          s.indented = false ∨ indent < s.column := by
        simp [word_of_alternates chain (by rw [kind]; decide) b mem] at spaces
      dsimp only
      split
      next folds =>
        obtain ⟨⟨⟨⟨alone, -⟩, -⟩, inside⟩, -⟩ := by simpa using folds
        obtain rfl : k = 0 := by simpa [text] using alone
        obtain ⟨line, fresh⟩ := Sheet.indentTo_of_movable (after r rfl kind inside)
        obtain ⟨written, form, done⟩ :=
          goOn (.inr (Nat.le_of_eq fresh.column.symm)) fun b mem spaces _ => calm _ b mem spaces
        have bare := form.head_ne fun c mem => ⟨(visible c mem).1, fun _ => (visible c mem).2⟩
        rw [List.flatMap_cons, text]
        exact ⟨_, .fold rfl form bare, by simpa [line] using done⟩
      next =>
        obtain ⟨written, form, done⟩ := goOn (s := s.write r.text)
          (stands.imp_right fun within => Nat.le_trans within (Nat.le_add_right _ _))
          fun b mem spaces _ => calm _ b mem spaces
        have bare := form.head_ne fun c mem => ⟨(visible c mem).1, fun _ => (visible c mem).2⟩
        rw [text] at done
        rw [List.flatMap_cons, text]
        exact ⟨_, form.spaces bare.2 k, by simpa using done⟩
    | breaks =>
      obtain ⟨k, text⟩ := own.breaks kind
      have visible := head_of_alternates later chain (by rw [kind]; decide)
      have calm (s : Sheet) (b : Run) (mem : b ∈ rs.head?) (spaces : b.kind = .spaces) :
          s.indented = false ∨ indent < s.column := by
        simp [word_of_alternates chain (by rw [kind]; decide) b mem] at spaces
      obtain ⟨feeds, line⟩ := Sheet.foldl_breakLine (s := s.breakLine) r.text
      obtain ⟨indentation, fresh⟩ :=
        Sheet.indentTo_of_stands (line (.inl Sheet.breakLine_stands)) (Nat.zero_le indent)
      obtain ⟨written, form, done⟩ :=
        goOn (.inr (Nat.le_of_eq fresh.column.symm)) fun b mem spaces _ => calm _ b mem spaces
      have bare := form.head_ne fun c mem => ⟨(visible c mem).1, fun _ => (visible c mem).2⟩
      rw [text] at done feeds indentation
      rw [List.flatMap_cons, text]
      exact ⟨_, .breaks k rfl form bare, by simpa [indentation, feeds] using done⟩

end single

theorem runs_clear (clear : Clear text) : ∀ r ∈ runs text, Clear r.text := fun r mem c found =>
  clear c (flatMap_runs text ▸ List.mem_flatMap.mpr ⟨r, mem, found⟩)

/-- Text that fits between single quotes is written in one of the ways that are read back. -/
theorem Sheet.single_spec (s : Sheet) (fits : fitsSingle text = true) (indent : Nat) (split : Bool) :
    ∃ written, Enquoted false indent text written ∧
      (s.single text indent split).text =
        s.text ++ (if s.spaced then [] else [' ']) ++ '\'' :: (written ++ ['\'']) ∧
      (s.single text indent split).indented = false ∧ (s.single text indent split).spaced = false := by
  simp only [fitsSingle, Bool.and_eq_true, Bool.not_eq_true', List.all_eq_true] at fits
  obtain ⟨⟨after, before⟩, clear⟩ := fits
  obtain ⟨written, form, done⟩ := singleRuns_spec (s := s.indicator ['\''] true false false)
    indent split true (fun _ => even_of_mem_runs) (runs_clear clear) (isChain_runs clear before after)
    (.inl (by simp [Sheet.indicator])) (by simp)
  rw [flatMap_runs] at form
  refine ⟨written, form, ?_, by simp [Sheet.single, Sheet.indicator], rfl⟩
  cases own : s.spaced <;> simp [Sheet.single, done, own]

section double

variable {pending : List Char} {s : Sheet} {split first : Bool}

theorem foldDouble_spec (indent : Nat) (next : Char) (settled : s.indented = false) :
    (s.foldDouble indent next).text = s.text ++ '\\' :: '\n' ::
        (List.replicate indent ' ' ++ if next = ' ' then ['\\'] else []) ∧
      (s.foldDouble indent next).indented = false ∧
      (s.foldDouble indent next).column ≤ indent + 1 := by
  obtain ⟨line, fresh⟩ :=
    Sheet.indentTo_of_movable (s := s.write ['\\']) (n := indent) (.inl settled)
  have column := fresh.column
  by_cases space : next = ' '
  · simp [Sheet.foldDouble, space, line, column]
  · simp [Sheet.foldDouble, space, line, column]

theorem Enquoted.head_ne_feed (form : Enquoted true indent text written) :
    written.head? ≠ some '\n' := by
  cases form with
  | done => simp
  | space => simp
  | char _ visible => simpa using visible.2
  | quote single => contradiction
  | fold single => contradiction
  | breaks k single => contradiction
  | @escape c =>
    obtain ⟨e, spelled, -⟩ := readEscape_escape c
    simp [spelled]
  | turn => simp
  | keep => simp

theorem Enquoted.bare {c : Char} (form : Enquoted true indent text written)
    (bare : isEscaped c = false) : Enquoted true indent (c :: text) (c :: written) := by
  simp only [isEscaped, Bool.or_eq_false_iff, beq_eq_false_iff_ne, Bool.not_eq_false',
    Bool.and_eq_true, decide_eq_true_eq] at bare
  obtain ⟨⟨quote, slash⟩, low, high⟩ := bare
  by_cases space : c = ' '
  · exact space ▸ .space form form.head_ne_feed
  · have feed : c ≠ '\n' := by rintro rfl; exact absurd low (by decide)
    exact .char (isVerbatim_iff.mpr (.inr ⟨low, high⟩)) ⟨space, feed⟩ ⟨quote, fun _ => slash⟩ form

/-- Where a line was broken before a space, that space stands behind a backslash already: then the
text goes on after it. -/
theorem doubleChars_spec (text : List Char) (split first : Bool) (pending : List Char)
    (narrow : indent < lineWidth) (settled : s.indented = false) :
    ∃ written, Enquoted true indent text written ∧
      (s.doubleChars indent split pending first text).text = s.text ++ pending.reverse ++ written ∧
      ∀ rest, text = ' ' :: rest → s.column + pending.length ≤ lineWidth →
        ∃ later, written = ' ' :: later ∧ Enquoted true indent rest later := by
  induction text generalizing s pending first with
  | nil => exact ⟨[], .done, by simp [Sheet.doubleChars], nofun⟩
  | cons c rest ih =>
    rw [Sheet.doubleChars]
    dsimp only
    split
    next escaped =>
      have space : c ≠ ' ' := by rintro rfl; exact absurd escaped (by decide)
      split
      next folds =>
        obtain ⟨line, settled, near⟩ := foldDouble_spec
          (s := (s.write pending.reverse).write (escape c)) indent (rest.headD ' ') settled
        obtain ⟨written, form, done, spaced⟩ := ih false [] settled
        have ends (own : List Char) : c :: rest ≠ ' ' :: own := fun own => space (List.cons.inj own).1
        by_cases next : rest.headD ' ' = ' '
        · obtain ⟨later, rfl⟩ : ∃ later, rest = ' ' :: later := by
            cases rest with
            | nil => simp at folds
            | cons d later => exact ⟨later, by rw [← next]; rfl⟩
          obtain ⟨written, rfl, inner⟩ := spaced later rfl (Nat.le_trans near narrow)
          rw [line, if_pos next] at done
          exact ⟨_, .escape rfl (.turn rfl (.keep rfl inner) (by simp)), by simpa using done,
            fun own same => (ends own same).elim⟩
        · have starts : ∀ d ∈ rest.head?, d ≠ ' ' := fun d mem same =>
            next (by rw [List.headD_eq_head?_getD, Option.mem_def.mp mem, same]; rfl)
          have bare := form.head_ne fun d mem => ⟨starts d mem, nofun⟩
          rw [line, if_neg next] at done
          exact ⟨_, .escape rfl (.turn rfl form bare), by simpa using done,
            fun own same => (ends own same).elim⟩
      next =>
        obtain ⟨written, form, done, -⟩ := ih
          (s := (s.write pending.reverse).write (escape c)) false [] settled
        refine ⟨escape c ++ written, .escape rfl form, by simpa using done, fun _ own => ?_⟩
        exact absurd (List.cons.inj own).1 space
    next unescaped =>
      split
      next folds =>
        have far : lineWidth < s.column + pending.length := by
          simpa using (Bool.and_eq_true_iff.mp folds).2
        have own : isEscaped c = false := by simpa using unescaped
        obtain ⟨line, settled, near⟩ := foldDouble_spec (s := s.write pending.reverse)
          indent c settled
        obtain ⟨written, form, done, -⟩ := ih false [c] settled
        by_cases space : c = ' '
        · subst space
          refine ⟨_, .turn rfl (.keep rfl form) (by simp), by simpa [line] using done,
            fun _ _ near => ?_⟩
          omega
        · have bare := (form.bare own).head_ne (by simpa using space)
          refine ⟨_, .turn rfl (form.bare own) bare, by simpa [line, space] using done,
            fun _ _ near => ?_⟩
          omega
      next =>
        obtain ⟨written, form, done, -⟩ := ih (s := s) false (c :: pending) settled
        refine ⟨c :: written, form.bare (by simpa using unescaped), by simpa using done, ?_⟩
        rintro _ own -
        obtain ⟨rfl, rfl⟩ := List.cons.inj own
        exact ⟨written, rfl, form⟩

end double

/-- Any text can be written between double quotes, in one of the ways that are read back. -/
theorem Sheet.double_spec (s : Sheet) (text : List Char) (narrow : indent < lineWidth)
    (split : Bool) :
    ∃ written, Enquoted true indent text written ∧
      (s.double text indent split).text =
        s.text ++ (if s.spaced then [] else [' ']) ++ '"' :: (written ++ ['"']) ∧
      (s.double text indent split).indented = false ∧ (s.double text indent split).spaced = false := by
  obtain ⟨written, form, done, -⟩ := doubleChars_spec (s := s.indicator ['"'] true false false)
    text split true [] narrow (by simp [Sheet.indicator])
  refine ⟨written, form, ?_, by simp [Sheet.double, Sheet.indicator], rfl⟩
  cases own : s.spaced <;> simp [Sheet.double, done, own]

end OverlayBuild.Yaml

import OverlayBuild.Proofs.Yaml.Sheet
import OverlayBuild.Yaml.Token.Plain

/-! Scalars without quotes. `Spread` says in which ways the words of a text may stand; the
writer takes one of them, and the reader puts the words together again from each. -/
namespace OverlayBuild.Yaml

structure PlainWord (w : List Char) : Prop where
  filled : w ≠ []
  clear : Clear w
  visible : ∀ c ∈ w, c ≠ ' ' ∧ c ≠ '\n'
  first : w.head? ≠ some '#'
  last : w.getLast? ≠ some ':'

/-- A text and a way to write it without quotes, with lines after the first indented. -/
inductive Spread (indent : Nat) : List Char → List Char → Prop
  | word {w : List Char} (own : PlainWord w) : Spread indent w w
  | spaces {w text written : List Char} (own : PlainWord w) (k : Nat)
      (inner : Spread indent text written) :
      Spread indent (w ++ (List.replicate (k + 1) ' ' ++ text))
        (w ++ (List.replicate (k + 1) ' ' ++ written))
  /-- A single space as a line break. -/
  | fold {w text written : List Char} (own : PlainWord w) (inner : Spread indent text written) :
      Spread indent (w ++ ' ' :: text) (w ++ '\n' :: (List.replicate indent ' ' ++ written))

variable {indent : Nat} {w text written rest before acc : List Char} {m stop : Mark} {i : Int}
  {broken : Bool} {gap : PlainGap} {k : Nat}

namespace PlainWord

theorem not_blank (own : PlainWord w) : ∀ c ∈ w, isBlankOrEnd c = false := fun c mem => by
  simpa [isBlankOrEnd_of_verbatim (own.clear c mem)] using own.visible c mem

theorem solid (own : PlainWord w) (rest : List Char) : Solid (w ++ rest) := by
  obtain ⟨c, cs, rfl⟩ := List.exists_cons_of_ne_nil own.filled
  exact ⟨c, cs ++ rest, rfl, own.clear c List.mem_cons_self, own.visible c List.mem_cons_self⟩

end PlainWord

/-- A plain scalar stops here: at a blank, at the end, or at a colon before one. -/
def StopsPlain (rest : List Char) : Prop :=
  isBlankOrEnd (rest.headD sentinel) = true ∨
    ∃ more, rest = ':' :: more ∧ isBlankOrEnd (more.headD sentinel) = true

theorem peekAt_one {c : Char} : Cursor.peekAt ⟨c :: rest, m⟩ 1 = rest.headD sentinel := by
  cases rest <;> rfl

theorem plainRun_stops (stops : StopsPlain rest) : plainRun false ⟨rest, m⟩ = ([], ⟨rest, m⟩) := by
  rw [plainRun]
  cases rest with
  | nil => rfl
  | cons c rest =>
    have ends : endsPlain false c (Cursor.peekAt ⟨c :: rest, m⟩ 1) = true := by
      rw [peekAt_one, endsPlain]
      rcases stops with blank | ⟨more, same, blank⟩
      · rw [List.headD_cons] at blank
        simp only [blank, Bool.true_or]
      · obtain ⟨rfl, rfl⟩ := List.cons.inj same
        simp only [blank, beq_self_eq_true, Bool.and_self, Bool.true_or, Bool.or_true]
    simp only [ends, if_true]

theorem plainRun_append (clear : Clear w) (visible : ∀ c ∈ w, isBlankOrEnd c = false)
    (last : w.getLast? ≠ some ':') (stops : StopsPlain rest) :
    plainRun false ⟨w ++ rest, m⟩ = (w, ⟨rest, m.over w⟩) := by
  induction w generalizing m with
  | nil => exact plainRun_stops stops
  | cons c w ih =>
    obtain ⟨verbatim, clear⟩ := clear_cons.mp clear
    obtain ⟨own, visible⟩ := List.forall_mem_cons.mp visible
    have inside : endsPlain false c (Cursor.peekAt ⟨c :: (w ++ rest), m⟩ 1) = false := by
      rw [peekAt_one]
      cases w with
      | nil =>
        have other : c ≠ ':' := by simpa using last
        simp [endsPlain, own, other]
      | cons d w => simp [endsPlain, own, visible d List.mem_cons_self]
    have later : w.getLast? ≠ some ':' := by
      cases w with
      | nil => simp
      | cons d w => simpa [List.getLast?_cons_cons] using last
    rw [List.cons_append, plainRun]
    simp only [inside, Cursor.next_cons verbatim, ih clear visible later, Bool.false_eq_true, if_false]
    rfl

theorem PlainWord.plainRun (own : PlainWord w) (stops : StopsPlain rest) :
    plainRun false ⟨w ++ rest, m⟩ = (w, ⟨rest, m.over w⟩) :=
  plainRun_append own.clear own.not_blank own.last stops

/-! The white space between words and after the last. -/

theorem plainGap_spaces (solid : Solid rest) :
    plainGap ⟨List.replicate k ' ' ++ rest, m⟩ =
      ⟨List.replicate k ' ', ⟨rest, m.over (List.replicate k ' ')⟩, false⟩ := by
  have stops : ∀ c ∈ rest.head?, (c == ' ') = false := by
    obtain ⟨c, more, rfl, -, space, -⟩ := solid
    simpa using space
  rw [plainGap, Cursor.span_append (clear_spaces k) (by simp) stops]
  simp only [Cursor.lineBreak?_of_not_break solid.not_break]

/-- What may follow a scalar on a new line: spaces and then something else, or nothing. -/
inductive LineStart : Nat → List Char → Prop
  | solid {rest : List Char} (n : Nat) (visible : Solid rest) :
    LineStart n (List.replicate n ' ' ++ rest)
  | nothing : LineStart 0 []

theorem plainBreaks?_spaces (line : LineStart k rest) :
    ∃ more, rest = List.replicate k ' ' ++ more ∧
      plainBreaks? ⟨rest, m⟩ = (some [], ⟨more, m.over (List.replicate k ' ')⟩) := by
  have passes {more : List Char} (next : ∀ c ∈ more.head?, (c == ' ') = false ∧ isBreak c = false) :
      plainBreaks? ⟨List.replicate k ' ' ++ more, m⟩ =
        (some [], ⟨more, m.over (List.replicate k ' ')⟩) := by
    rw [plainBreaks?, Cursor.skipWhile_append (clear_spaces k) (by simp) fun c mem => (next c mem).1]
    simp only [Cursor.lineBreak?_of_not_break fun c mem => (next c mem).2]
  cases line with
  | solid n visible =>
    refine ⟨_, rfl, passes fun c mem => ⟨?_, visible.not_break c mem⟩⟩
    exact (Bool.or_eq_false_iff.mp (visible.not_blank c mem)).1
  | nothing => exact ⟨[], rfl, passes nofun⟩

/-- A line break folds to a space, unless a document marker comes after it. -/
theorem plainGap_break (line : LineStart k rest) :
    ∃ more, rest = List.replicate k ' ' ++ more ∧
      plainGap ⟨'\n' :: rest, m⟩ =
        if (Cursor.mk rest (m.over ['\n'])).atSeparator then ⟨[], ⟨rest, m.over ['\n']⟩, true⟩
        else ⟨[' '], ⟨more, m.over ('\n' :: List.replicate k ' ')⟩, true⟩ := by
  have stays : Cursor.span (· == ' ') ⟨[] ++ '\n' :: rest, m⟩ = ([], ⟨'\n' :: rest, m⟩) :=
    Cursor.span_append clear_nil nofun (by simp)
  rw [List.nil_append] at stays
  obtain ⟨more, split, passes⟩ := plainBreaks?_spaces (m := m.over ['\n']) line
  refine ⟨more, split, ?_⟩
  simp only [plainGap, stays, Cursor.lineBreak?_feed, passes]
  split
  · rfl
  · rfl

/-! The whole scalar. -/

theorem readPlainFrom_word (own : PlainWord w) (stops : StopsPlain rest)
    (found : plainGap ⟨rest, m.over w⟩ = gap) :
    readPlainFrom false i before ⟨acc, stop, ⟨w ++ rest, m⟩, broken⟩ =
      if gap.text = [] ∨ gap.cursor.peek = '#' ∨ (gap.cursor.mark.column : Int) < i then
        ⟨acc ++ before ++ w, m.over w, gap.cursor, gap.broken⟩
      else if gap.cursor.rest.length < (w ++ rest).length then
        readPlainFrom false i gap.text ⟨acc ++ before ++ w, m.over w, gap.cursor, gap.broken⟩
      else ⟨acc ++ before ++ w, m.over w, gap.cursor, gap.broken⟩ := by
  have start : (Cursor.mk (w ++ rest) m).peek ≠ '#' := by
    obtain ⟨c, cs, rfl⟩ := List.exists_cons_of_ne_nil own.filled
    simpa using own.first
  rw [readPlainFrom]
  simp only [start, if_false, own.plainRun stops, own.filled, found, true_and]

theorem Spread.starts (form : Spread indent text written) :
    ∃ w more, PlainWord w ∧ written = w ++ more := by
  cases form with
  | word own => exact ⟨_, [], own, (List.append_nil _).symm⟩
  | spaces own => exact ⟨_, _, own, rfl⟩
  | fold own => exact ⟨_, _, own, rfl⟩

theorem Spread.solid (form : Spread indent text written) (rest : List Char) :
    Solid (written ++ rest) := by
  obtain ⟨w, more, own, rfl⟩ := form.starts
  exact List.append_assoc _ _ _ ▸ own.solid _

theorem Spread.peek_ne (form : Spread indent text written) :
    (Cursor.mk (written ++ rest) m).peek ≠ '#' := by
  obtain ⟨w, more, own, rfl⟩ := form.starts
  obtain ⟨c, cs, rfl⟩ := List.exists_cons_of_ne_nil own.filled
  simpa using own.first

theorem Spread.clear (form : Spread indent text written) : Clear written := by
  induction form with
  | word own => exact own.clear
  | spaces own k _ ih => simp [own.clear, ih]
  | fold own _ ih => simp [own.clear, ih, isVerbatim]

/-- The words are put together again, up to where the scalar ends. -/
theorem Spread.readPlainFrom (form : Spread indent text written) (deep : i ≤ indent)
    (lines : 0 < indent) (near : i ≤ m.column + 1) (stops : StopsPlain rest)
    (found : plainGap ⟨rest, m.over written⟩ = gap)
    (ends : gap.text = [] ∨ gap.cursor.peek = '#' ∨ (gap.cursor.mark.column : Int) < i) :
    readPlainFrom false i before ⟨acc, stop, ⟨written ++ rest, m⟩, broken⟩ =
      ⟨acc ++ before ++ text, m.over written, gap.cursor, gap.broken⟩ := by
  induction form generalizing acc before stop m broken with
  | word own => rw [readPlainFrom_word own stops found, if_pos ends]
  | @spaces w text written own k inner ih =>
    have blank : StopsPlain (List.replicate (k + 1) ' ' ++ (written ++ rest)) :=
      .inl (by simp [List.replicate_succ, isBlankOrEnd, isSpaceOrEnd])
    have column : ((m.over w).over (List.replicate (k + 1) ' ')).column =
        m.column + w.length + (k + 1) := by
      rw [Mark.over_line (clear_spaces _) (by simp),
        Mark.over_line own.clear fun mem => (own.visible _ mem).2 rfl]
      simp
    have filled := List.length_pos_iff.mpr own.filled
    have goesOn := @ih (List.replicate (k + 1) ' ') (acc ++ before ++ w)
      ((m.over w).over (List.replicate (k + 1) ' ')) (m.over w) false
      (by rw [column]; omega) (by simpa using found)
    simp only [List.append_assoc] at blank ⊢
    rw [readPlainFrom_word own blank (plainGap_spaces (inner.solid rest)), if_neg, if_pos]
    · simpa using goesOn
    · simp only [List.length_append, List.length_replicate]
      omega
    · simp only [not_or, inner.peek_ne, not_false_iff, column, true_and]
      exact ⟨by simp, by omega⟩
  | @fold w text written own inner ih =>
    have blank : StopsPlain ('\n' :: (List.replicate indent ' ' ++ (written ++ rest))) :=
      .inl (by simp [isBlankOrEnd, isSpaceOrEnd, isBreakOrEnd, isBreak])
    obtain ⟨more, split, folded⟩ := plainGap_break (m := m.over w) (.solid indent (inner.solid rest))
    obtain rfl := List.append_cancel_left split
    have separator : (Cursor.mk (List.replicate indent ' ' ++ (written ++ rest))
        ((m.over w).over ['\n'])).atSeparator = false := by
      obtain ⟨n, rfl⟩ := Nat.exists_eq_succ_of_ne_zero (Nat.ne_of_gt lines)
      simp [Cursor.atSeparator, Cursor.atMarker, List.replicate_succ]
    rw [separator, if_neg Bool.false_ne_true] at folded
    have column : ((m.over w).over ('\n' :: List.replicate indent ' ')).column = indent := by
      rw [Mark.over_over, Mark.over_column_of_break (clear_spaces _) (by simp), List.length_replicate]
    have goesOn := @ih [' '] (acc ++ before ++ w)
      ((m.over w).over ('\n' :: List.replicate indent ' ')) (m.over w) true
      (by rw [column]; omega) (by simpa using found)
    simp only [List.append_assoc, List.cons_append] at blank ⊢
    rw [readPlainFrom_word own blank folded, if_neg, if_pos]
    · simpa using goesOn
    · simp only [List.length_append, List.length_cons, List.length_replicate]
      omega
    · simp only [not_or, inner.peek_ne, not_false_iff, column, true_and]
      exact ⟨by simp, by omega⟩

/-- A key without quotes, up to its colon. -/
theorem Spread.readPlain_colon (form : Spread indent text written) (deep : i ≤ indent)
    (lines : 0 < indent) (near : i ≤ m.column + 1)
    (blank : isBlankOrEnd (rest.headD sentinel) = true) :
    readPlain false i ⟨written ++ ':' :: rest, m⟩ =
      ⟨text, m.over written, ⟨':' :: rest, m.over written⟩, false⟩ := by
  have stays : Cursor.span (· == ' ') ⟨[] ++ ':' :: rest, m.over written⟩ =
      ([], ⟨':' :: rest, m.over written⟩) :=
    Cursor.span_append clear_nil nofun (by simp)
  have gap : plainGap ⟨':' :: rest, m.over written⟩ =
      ⟨[], ⟨':' :: rest, m.over written⟩, false⟩ := by
    rw [List.nil_append] at stays
    have same : ∀ c ∈ (':' :: rest).head?, isBreak c = false := by simp [isBreak]
    simp only [plainGap, stays, Cursor.lineBreak?_of_not_break same]
  exact form.readPlainFrom deep lines near (.inr ⟨rest, rfl, blank⟩) gap (.inl rfl)

/-- A value without quotes, up to the next line that is not indented for it. -/
theorem Spread.readPlain_break (form : Spread indent text written) (deep : i ≤ indent)
    (lines : 0 < indent) (near : i ≤ m.column + 1) (line : LineStart k rest) (shallow : (k : Int) < i) :
    ∃ sp more, rest = sp ++ more ∧ (∀ c ∈ sp, c = ' ') ∧
      readPlain false i ⟨written ++ '\n' :: rest, m⟩ =
        ⟨text, m.over written, ⟨more, m.over (written ++ '\n' :: sp)⟩, true⟩ := by
  have blank : StopsPlain ('\n' :: rest) := .inl rfl
  obtain ⟨more, split, gap⟩ := plainGap_break (m := m.over written) line
  by_cases separator : (Cursor.mk rest ((m.over written).over ['\n'])).atSeparator = true
  · rw [if_pos separator] at gap
    rw [Mark.over_over] at gap
    exact ⟨[], rest, rfl, nofun, form.readPlainFrom deep lines near blank gap (.inl rfl)⟩
  · rw [if_neg separator, Mark.over_over] at gap
    have column : (m.over (written ++ '\n' :: List.replicate k ' ')).column = k := by
      rw [Mark.over_column_of_break (clear_spaces _) (by simp), List.length_replicate]
    exact ⟨List.replicate k ' ', more, split, fun c mem => List.eq_of_mem_replicate mem,
      form.readPlainFrom deep lines near blank gap (.inr (.inr (by rw [column]; exact shallow)))⟩

/-! The writer. -/

section writing

variable {r : Run} {rs : List Run} {s : Sheet} {split root : Bool} {c : Char}

theorem holdsIndicator_of_append (before : List Char) (calm : holdsIndicator (before ++ text) = false) :
    holdsIndicator text = false := by
  induction before with
  | nil => exact calm
  | cons a before ih =>
    refine ih ?_
    cases tail : before ++ text with
    | nil => rfl
    | cons b more =>
      rw [List.cons_append, tail] at calm
      simp only [holdsIndicator, Bool.or_eq_false_iff] at calm
      exact calm.2

/-- A word after a space, in a text without indicators. -/
theorem PlainWord.of_calm (filled : w ≠ []) (clear : Clear w) (visible : ∀ c ∈ w, c ≠ ' ' ∧ c ≠ '\n')
    (calm : holdsIndicator (' ' :: (w ++ rest)) = false)
    (ends : isBlankOrEnd (rest.headD sentinel) = true) : PlainWord w where
  filled := filled
  clear := clear
  visible := visible
  first := by
    obtain ⟨c, cs, rfl⟩ := List.exists_cons_of_ne_nil filled
    simp only [List.cons_append, holdsIndicator, Bool.or_eq_false_iff, Bool.and_eq_false_iff] at calm
    have other : ¬ (c == '#') = true := by simpa using calm.1.2.resolve_right (by decide)
    simpa using other
  last := by
    intro colon
    obtain ⟨front, rfl⟩ := List.getLast?_eq_some_iff.mp colon
    obtain ⟨before, a, same⟩ : ∃ before a, ' ' :: front = before ++ [a] :=
      ⟨_, _, (List.dropLast_append_getLast (List.cons_ne_nil ' ' front)).symm⟩
    have whole : ' ' :: (front ++ [':'] ++ rest) = before ++ a :: ':' :: rest := by
      rw [List.append_assoc, ← List.cons_append, same]
      simp
    have inner := holdsIndicator_of_append _ (whole ▸ calm)
    simp only [holdsIndicator, Bool.or_eq_false_iff, ends, Bool.and_true, beq_self_eq_true] at inner
    exact Bool.noConfusion inner.1.1

/-- The runs of a text that can stand without quotes: words, with spaces between them. -/
structure Unquoted (rs : List Run) : Prop where
  even : ∀ r ∈ rs, r.Even
  clear : ∀ r ∈ rs, Clear r.text
  line : ∀ r ∈ rs, r.kind ≠ .breaks
  chain : rs.IsChain Alternates
  first : ∀ r ∈ rs.head?, r.kind = .word
  last : ∀ r ∈ rs.getLast?, r.kind = .word
  calm : holdsIndicator (' ' :: rs.flatMap Run.text) = false

theorem Unquoted.word (own : Unquoted (r :: rs))
    (ends : isBlankOrEnd ((rs.flatMap Run.text).headD sentinel) = true) : PlainWord r.text := by
  have even := own.even r List.mem_cons_self
  obtain ⟨c, cs, text, visible⟩ := even.word (own.first r rfl)
  exact .of_calm even.filled (own.clear r List.mem_cons_self) visible
    (by simpa using own.calm) ends

/-- After a word come spaces, and a text that needs no quotes either. -/
theorem Unquoted.after_word {r gap : Run} {rest : List Run} (own : Unquoted (r :: gap :: rest)) :
    ∃ k, r.kind = .word ∧ gap.kind = .spaces ∧ gap.text = List.replicate (k + 1) ' ' ∧
      PlainWord r.text ∧ rest ≠ [] ∧ Unquoted rest := by
  have word := own.first r rfl
  have parts : gap.kind = .spaces := by
    have other : gap.kind ≠ .word := (List.isChain_cons_cons.mp own.chain).1.mp word
    cases kind : gap.kind with
    | word => exact absurd kind other
    | spaces => rfl
    | breaks => exact absurd kind (own.line gap (by simp))
  obtain ⟨k, spaces⟩ := (own.even gap (by simp)).spaces parts
  have starts : PlainWord r.text := own.word (by
    simp [spaces, List.replicate_succ, isBlankOrEnd, isSpaceOrEnd])
  refine ⟨k, word, parts, spaces, starts, ?_, ?_⟩
  · rintro rfl
    have last := own.last gap (by simp)
    rw [parts] at last
    contradiction
  · exact {
      even := fun b mem => own.even b (by simp [mem])
      clear := fun b mem => own.clear b (by simp [mem])
      line := fun b mem => own.line b (by simp [mem])
      chain := own.chain.tail.tail
      first := word_of_alternates own.chain.tail (by rw [parts]; decide)
      last := fun b mem => own.last b (by
        rw [List.getLast?_cons_cons, List.getLast?_cons, Option.mem_def.mp mem]
        rfl)
      calm := holdsIndicator_of_append (' ' :: (r.text ++ List.replicate k ' ')) (by
        have calm := own.calm
        rw [List.flatMap_cons, List.flatMap_cons, spaces, List.replicate_succ'] at calm
        simpa using calm) }

theorem plainRuns_spec (indent : Nat) (split : Bool) (rs : List Run) (own : Unquoted rs)
    (filled : rs ≠ []) {s : Sheet} (settled : s.indented = false) :
    ∃ written, Spread indent (rs.flatMap Run.text) written ∧
      (s.plainRuns indent split rs).text = s.text ++ written ∧
      (s.plainRuns indent split rs).indented = false ∧
      (s.spaced = false → (s.plainRuns indent split rs).spaced = false) ∧
      (split = false → written = rs.flatMap Run.text) := by
  match rs with
  | [r] =>
    have word := own.first r rfl
    refine ⟨r.text, ?_, ?_⟩
    · simpa using Spread.word (own.word (by decide))
    · simp [Sheet.plainRuns, word, settled]
  | r :: gap :: rest =>
    obtain ⟨k, word, parts, spaces, starts, more, later⟩ := own.after_word
    have past : s.plainRuns indent split (r :: gap :: rest) =
        (s.write r.text).plainRuns indent split (gap :: rest) := by
      rw [Sheet.plainRuns, word]
      rfl
    rw [past, Sheet.plainRuns]
    split
    next folds =>
      obtain ⟨⟨⟨-, alone⟩, -⟩, wraps⟩ := by simpa using folds
      obtain rfl : k = 0 := by simpa [spaces] using alone
      obtain ⟨line, -⟩ :=
        Sheet.indentTo_of_movable (s := s.write r.text) (n := indent) (.inl settled)
      obtain ⟨written, form, text, indented, spaced, -⟩ := plainRuns_spec indent split rest
        later more (Sheet.indented_settle ((s.write r.text).indentTo indent))
      refine ⟨r.text ++ '\n' :: (List.replicate indent ' ' ++ written), ?_, ?_, indented,
        fun _ => spaced rfl, fun off => absurd (off.symm.trans wraps) (by decide)⟩
      · simpa [spaces] using Spread.fold starts form
      · simpa [line] using text
    next =>
      obtain ⟨written, form, text, indented, spaced, exact_⟩ := plainRuns_spec indent split rest
        later more (show ((s.write r.text).write gap.text).indented = false from settled)
      refine ⟨r.text ++ (gap.text ++ written), ?_, ?_, indented, spaced, fun off => ?_⟩
      · simpa [spaces] using Spread.spaces starts k form
      · simpa using text
      · rw [exact_ off]
        rfl

/-- A text that starts like nothing else than a plain scalar. -/
theorem startsWithIndicator_false {cs : List Char} (starts : startsWithIndicator (c :: cs) = false) :
    c ∉ leadingIndicators ∧
      (c = '-' ∨ c = '?' ∨ c = ':' → isBlankOrEnd (cs.headD sentinel) = false) ∧
      (∀ more, c :: cs ≠ '-' :: '-' :: '-' :: more) ∧ ∀ more, c :: cs ≠ '.' :: '.' :: '.' :: more := by
  unfold startsWithIndicator at starts
  split at starts
  · contradiction
  · contradiction
  next first second same =>
    obtain ⟨rfl, rfl⟩ := List.cons.inj same
    refine ⟨by simpa using (Bool.or_eq_false_iff.mp starts).1, ?_,
      fun more same => first more (List.cons.inj same).1 (List.cons.inj same).2,
      fun more same => second more (List.cons.inj same).1 (List.cons.inj same).2⟩
    have mark := (Bool.or_eq_false_iff.mp starts).2
    rintro (rfl | rfl | rfl) <;> simpa using mark
  next none => contradiction

theorem getLast?_flatMap_runs (mem : r ∈ rs.getLast?) (filled : r.text ≠ []) :
    (rs.flatMap Run.text).getLast? = r.text.getLast? := by
  obtain ⟨front, rfl⟩ := List.getLast?_eq_some_iff.mp mem
  rw [List.flatMap_append, List.flatMap_singleton]
  exact List.getLast?_append_of_ne_nil _ filled

theorem unquoted_runs (fits : fitsPlain text = true) : Unquoted (runs text) := by
  simp only [fitsPlain, fitsSingle, Bool.and_eq_true, Bool.not_eq_true', List.all_eq_true] at fits
  obtain ⟨⟨⟨⟨⟨⟨⟨after, before⟩, clear⟩, line⟩, first⟩, last⟩, starts⟩, holds⟩ := fits
  have even : ∀ r ∈ runs text, r.Even := fun _ => even_of_mem_runs
  have within {r : Run} (mem : r ∈ runs text) {c : Char} (found : c ∈ r.text) : c ∈ text :=
    flatMap_runs text ▸ List.mem_flatMap.mpr ⟨r, mem, found⟩
  have lines : ∀ r ∈ runs text, r.kind ≠ .breaks := by
    intro r mem breaks
    obtain ⟨k, feeds⟩ := (even r mem).breaks breaks
    have feed : '\n' ∈ text := within mem (feeds ▸ by simp)
    exact absurd line (by simpa [hasBreak] using ⟨'\n', feed, by decide⟩)
  have worded {r : Run} (mem : r ∈ runs text) {c : Char} (found : c ∈ r.text)
      (inner : isEdge c = false) : r.kind = .word := by
    have kind := (even r mem).kind c found
    rw [← kind, kindOf_eq_word]
    constructor <;> rintro rfl <;> exact absurd inner (by decide)
  refine ⟨even, fun r mem c found => clear c (within mem found), lines,
    isChain_runs clear before after, fun r mem => ?_, fun r mem => ?_, ?_⟩
  · obtain ⟨c, cs, own⟩ := List.exists_cons_of_ne_nil (even r (List.mem_of_mem_head? mem)).filled
    obtain ⟨rest, parts⟩ := List.head?_eq_some_iff.mp mem
    have head : text.head? = some c := by rw [← flatMap_runs text, parts, List.flatMap_cons, own]; rfl
    exact worded (List.mem_of_mem_head? mem) (own ▸ List.mem_cons_self) (by simpa [head] using first)
  · have inside := List.mem_of_mem_getLast? mem
    obtain ⟨c, own⟩ := List.getLast?_isSome.mpr (even r inside).filled |> Option.isSome_iff_exists.mp
    have tail : text.getLast? = some c := by
      rw [← flatMap_runs text, getLast?_flatMap_runs mem (even r inside).filled, own]
    exact worded inside (List.mem_of_getLast? own) (by simpa [tail] using last)
  · rw [flatMap_runs]
    cases text with
    | nil => rfl
    | cons c rest =>
      obtain ⟨leading, next, -⟩ := startsWithIndicator_false starts
      have hash : c ≠ '#' := fun same => leading (same ▸ by decide)
      have colon : c = ':' → isBlankOrEnd (rest.headD sentinel) = false := fun same =>
        next (.inr (.inr same))
      simp only [holdsIndicator, holds, Bool.or_false]
      simpa [hash] using colon

/-- A text without indicators is written in one of the ways that are read back. -/
theorem Sheet.plain_spec (s : Sheet) (fits : fitsPlain text = true) (filled : text ≠ [])
    (indent : Nat) (root split : Bool) :
    ∃ written, Spread indent text written ∧
      (s.plain text indent root split).text =
        s.text ++ (if s.spaced then [] else [' ']) ++ written ∧
      (s.plain text indent root split).indented = false ∧
      (s.plain text indent root split).spaced = false ∧
      (split = false → written = text) := by
  have parts : runs text ≠ [] := fun none => filled (by rw [← flatMap_runs text, none]; rfl)
  have spec (s : Sheet) := plainRuns_spec indent split _ (unquoted_runs fits) parts s.indented_settle
  simp only [flatMap_runs] at spec
  obtain ⟨written, form, done, indented, spaced, same⟩ :=
    spec (if s.spaced then { s with openEnded := s.openEnded || root }
      else ({ s with openEnded := s.openEnded || root } : Sheet).write [' '])
  refine ⟨written, form, ?_, ?_, ?_, same⟩
  all_goals simp only [Sheet.plain, if_neg filled]
  · rw [done, Sheet.text_settle]
    cases own : s.spaced <;> simp [Sheet.text, Sheet.write]
  · exact indented
  · exact spaced rfl

end writing

end OverlayBuild.Yaml

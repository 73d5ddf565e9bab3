import OverlayBuild.Proofs.Yaml.Plain
import OverlayBuild.Yaml.Token.Block

/-! Literal blocks. The writer indents the lines that are not empty and says in the header what
could not be told from them; the reader finds the indentation and takes it off again. -/
namespace OverlayBuild.Yaml

/-- The text of a literal block without its header. `fresh` tells whether a line starts here. -/
def lay (indent : Nat) (fresh : Bool) : List Char → List Char
  | [] => []
  | c :: cs =>
    if c = '\n' then '\n' :: lay indent true cs
    else (if fresh then List.replicate indent ' ' else []) ++ c :: lay indent false cs

/-- A literal block from its indicator on, with a line break at its end in any case. -/
def literalBlock (indent : Nat) (cs : List Char) : List Char :=
  '|' :: literalHints cs ++ '\n' :: lay indent true cs
    ++ if cs.getLast?.any isTextBreak then [] else ['\n']

variable {indent k n : Nat} {fresh : Bool} {cs w core written rest more line breaks : List Char}
  {m stop start : Mark} {i : Int} {c : Char}

@[simp] theorem lay_breaks : lay indent fresh (List.replicate (k + 1) '\n' ++ cs) =
    List.replicate (k + 1) '\n' ++ lay indent true cs := by
  induction k generalizing fresh with
  | zero => simp [lay]
  | succ k ih => rw [List.replicate_succ, List.cons_append, lay, if_pos rfl, ih, List.cons_append]

theorem lay_inside (line : ∀ c ∈ w, c ≠ '\n') :
    lay indent false (w ++ cs) = w ++ lay indent false cs := by
  induction w with
  | nil => rfl
  | cons c w ih =>
    obtain ⟨other, line⟩ := List.forall_mem_cons.mp line
    simp [lay, other, ih line]

theorem lay_line (filled : w ≠ []) (line : ∀ c ∈ w, c ≠ '\n') :
    lay indent fresh (w ++ cs) =
      (if fresh then List.replicate indent ' ' else []) ++ (w ++ lay indent false cs) := by
  obtain ⟨c, w, rfl⟩ := List.exists_cons_of_ne_nil filled
  obtain ⟨other, line⟩ := List.forall_mem_cons.mp line
  rw [List.cons_append, lay, if_neg other, lay_inside line, List.cons_append]

/-! The writer. -/

section writing

variable {r : Run} {rs : List Run} {s : Sheet}

theorem literalRuns_breaks (kind : r.kind = .breaks) :
    s.literalRuns indent (r :: rs) =
      (r.text.foldl (fun s _ => s.breakLine) s).literalRuns indent rs := by
  rw [Sheet.literalRuns, kind]

theorem literalRuns_other (kind : r.kind ≠ .breaks) :
    s.literalRuns indent (r :: rs) =
      (if s.column = 0 then (s.indentTo indent).write r.text
        else s.write r.text).literalRuns indent rs := by
  obtain ⟨own, text⟩ := r
  cases own with
  | word => rfl
  | spaces => rfl
  | breaks => contradiction

theorem literalRuns_spec (indent : Nat) (even : ∀ r ∈ rs, r.Even) (stands : s.column = 0 → s.Stands 0) :
    (s.literalRuns indent rs).text = s.text ++ lay indent (s.column == 0) (rs.flatMap Run.text) ∧
      ((rs.flatMap Run.text).getLast? = some '\n' ∨ rs = [] ∧ s.column = 0 →
        (s.literalRuns indent rs).Stands 0) := by
  induction rs generalizing s with
  | nil =>
    refine ⟨by simp [Sheet.literalRuns, lay], ?_⟩
    rintro (ends | ⟨-, fresh⟩)
    · simp at ends
    · exact stands fresh
  | cons r rs ih =>
    obtain ⟨own, later⟩ := List.forall_mem_cons.mp even
    have last {out : Sheet} (goesOn : (rs.flatMap Run.text).getLast? = some '\n' ∨
        rs = [] ∧ r.kind = .breaks → out.Stands 0)
        (ends : ((r :: rs).flatMap Run.text).getLast? = some '\n' ∨ r :: rs = [] ∧ s.column = 0) :
        out.Stands 0 := by
      refine goesOn ?_
      have ends := ends.resolve_right (by simp)
      rw [List.flatMap_cons] at ends
      cases rs with
      | nil =>
        rw [List.flatMap_nil, List.append_nil] at ends
        exact .inr ⟨rfl, (own.kind '\n' (List.mem_of_getLast? ends)).symm.trans (by decide)⟩
      | cons b rs =>
        have filled : (b :: rs).flatMap Run.text ≠ [] := by
          simpa using fun none => absurd none (later b List.mem_cons_self).filled
        rw [List.getLast?_append_of_ne_nil _ filled] at ends
        exact .inl ends
    by_cases kind : r.kind = .breaks
    · obtain ⟨k, text⟩ := own.breaks kind
      obtain ⟨feeds, line⟩ := Sheet.foldl_breakLine (s := s) r.text
      have fresh := line (.inr own.filled)
      obtain ⟨done, stands⟩ := ih later fun _ => fresh
      have column := fresh.column
      rw [literalRuns_breaks kind]
      refine ⟨?_, last fun ends => stands (ends.imp_right fun e => ⟨e.1, column⟩)⟩
      rw [done, feeds, column, List.flatMap_cons, text, lay_breaks]
      simp
    · have line : ∀ c ∈ r.text, c ≠ '\n' := fun c mem feed =>
        kind ((own.kind c mem).symm.trans (kindOf_eq_breaks.mpr feed))
      have wide (t : Sheet) : (t.write r.text).column ≠ 0 := by
        have := List.length_pos_iff.mpr own.filled
        simp only [Sheet.column_write]
        omega
      rw [literalRuns_other kind, List.flatMap_cons, lay_line own.filled line]
      split
      next fresh =>
        obtain ⟨text, -⟩ := Sheet.indentTo_of_stands (stands fresh) (Nat.zero_le indent)
        obtain ⟨done, stands⟩ := ih (s := (s.indentTo indent).write r.text) later
          fun zero => absurd zero (wide _)
        refine ⟨?_, last fun ends => stands (ends.imp_right fun e => absurd e.2 kind)⟩
        rw [done, beq_false_of_ne (wide _)]
        simp [text, fresh]
      next inside =>
        obtain ⟨done, stands⟩ := ih (s := s.write r.text) later fun zero => absurd zero (wide _)
        refine ⟨?_, last fun ends => stands (ends.imp_right fun e => absurd e.2 kind)⟩
        rw [done, beq_false_of_ne (wide s)]
        simp [inside]

/-- A literal block is written after its place, whatever the text; its end stands on a new
line. -/
theorem Sheet.literal_spec (s : Sheet) (clear : Clear cs) (indent : Nat) :
    (s.literal cs indent).text = s.text ++ (if s.spaced then [] else [' ']) ++ literalBlock indent cs ∧
      (s.literal cs indent).Stands 0 := by
  have even : ∀ r ∈ runs cs, r.Even := fun _ => even_of_mem_runs
  have spec (s : Sheet) := literalRuns_spec (s := s) indent even
  simp only [flatMap_runs] at spec
  obtain ⟨done, stands⟩ := spec ({ s.indicator ('|' :: literalHints cs) true false false with
    openEnded := (literalHints cs).getLast? == some '+' } : Sheet).breakLine fun _ =>
      Sheet.breakLine_stands
  have feed : cs.getLast?.any isTextBreak = true → cs.getLast? = some '\n' := by
    intro ends
    cases own : cs.getLast? with
    | none => simp [own] at ends
    | some c =>
      rw [own, Option.any_some, isTextBreak_of_verbatim (clear c (List.mem_of_getLast? own))] at ends
      rw [beq_iff_eq.mp ends]
  simp only [Sheet.literal, literalBlock]
  split
  next ends =>
    refine ⟨?_, stands (.inl (feed ends))⟩
    rw [done, Sheet.text_breakLine]
    cases own : s.spaced <;> simp [Sheet.text, Sheet.indicator, Sheet.write, own, Sheet.breakLine]
  next =>
    refine ⟨?_, Sheet.breakLine_stands⟩
    rw [Sheet.text_breakLine, done, Sheet.text_breakLine]
    cases own : s.spaced <;> simp [Sheet.text, Sheet.indicator, Sheet.write, own, Sheet.breakLine]

end writing

/-! The lines of the text. -/

/-- A text of lines, without breaks at either end, and how it stands in a block after the
indentation of its first line. -/
inductive Lined (indent : Nat) : List Char → List Char → Prop
  | line {line : List Char} (filled : line ≠ []) (clear : Clear line) (inner : '\n' ∉ line) :
    Lined indent line line
  | more {line core written : List Char} (filled : line ≠ []) (clear : Clear line)
      (inner : '\n' ∉ line) (k : Nat) (later : Lined indent core written) :
    Lined indent (line ++ (List.replicate (k + 1) '\n' ++ core))
      (line ++ (List.replicate (k + 1) '\n' ++ (List.replicate indent ' ' ++ written)))

theorem Lined.cons (form : Lined indent core written) (verbatim : isVerbatim c = true)
    (other : c ≠ '\n') : Lined indent (c :: core) (c :: written) := by
  cases form with
  | line filled clear inner =>
    exact .line (by simp) (by simp [verbatim, clear]) (by simp [other.symm, inner])
  | more filled clear inner k later =>
    exact .more (List.cons_ne_nil c _) (by simp [verbatim, clear]) (by simp [other.symm, inner])
      k later

theorem exists_lined (clear : Clear cs) (filled : cs ≠ []) (last : cs.getLast? ≠ some '\n') :
    ∃ k core written, cs = List.replicate k '\n' ++ core ∧ Lined indent core written ∧
      ∀ fresh, lay indent fresh cs = List.replicate k '\n' ++
        ((if fresh || 0 < k then List.replicate indent ' ' else []) ++ written) := by
  induction cs with
  | nil => exact absurd rfl filled
  | cons c cs ih =>
    obtain ⟨verbatim, clear⟩ := clear_cons.mp clear
    by_cases alone : cs = []
    · subst alone
      have other : c ≠ '\n' := by simpa using last
      exact ⟨0, [c], [c], rfl, .line (by simp) (by simp [verbatim]) (by simpa using other.symm),
        fun fresh => by simp [lay, other]⟩
    · have later : cs.getLast? ≠ some '\n' := by
        obtain ⟨d, ds, rfl⟩ := List.exists_cons_of_ne_nil alone
        rwa [List.getLast?_cons_cons] at last
      obtain ⟨k, core, written, rfl, form, laid⟩ := ih clear alone later
      by_cases feed : c = '\n'
      · subst feed
        exact ⟨k + 1, core, written, rfl, form, fun fresh => by simp [lay, laid, List.replicate_succ]⟩
      · cases k with
        | zero =>
          exact ⟨0, c :: core, c :: written, rfl, form.cons verbatim feed,
            fun fresh => by simpa [lay, feed] using laid false⟩
        | succ k =>
          exact ⟨0, _, _, rfl, .more (List.cons_ne_nil c []) (by simp [verbatim])
            (by simpa using Ne.symm feed) k form, fun fresh => by simp [lay, feed, laid]⟩

/-! The reader. -/

theorem skipSpacesTo_spaces (deep : (m.column + k : Int) ≤ i)
    (stops : (m.column + k : Int) = i ∨ rest.head? ≠ some ' ') :
    Cursor.skipSpacesTo i ⟨List.replicate k ' ' ++ rest, m⟩ =
      ⟨rest, m.over (List.replicate k ' ')⟩ := by
  induction k generalizing m with
  | zero =>
    rw [List.replicate_zero, List.nil_append, Cursor.skipSpacesTo]
    split
    next own =>
      have full : ¬ (m.column : Int) < i := by
        rcases stops with same | other
        · omega
        · exact absurd (show rest.head? = some ' ' from congrArg List.head? own) other
      rw [if_neg full]
      rfl
    next => rfl
  | succ k ih =>
    have column : (m.over [' ']).column = m.column + 1 := rfl
    have less : (m.column : Int) < i := by omega
    rw [List.replicate_succ, List.cons_append, Cursor.skipSpacesTo]
    simp only [less, if_true, Cursor.next_cons (c := ' ') (by decide)]
    rw [ih (by rw [column]; omega) (stops.imp_left fun same => by rw [column]; omega)]
    rfl

/-- Where the reader of a block comes to stand after line breaks: at a line of the block, or
before one that is not indented for it. -/
structure Landing (i : Int) (sp more : List Char) : Prop where
  spaces : ∀ c ∈ sp, c = ' '
  within : (sp.length : Int) ≤ i
  stops : (sp.length : Int) = i ∨ more.head? ≠ some ' '
  line : ∀ c ∈ more.head?, isBreak c = false

variable {sp : List Char}

theorem Landing.eq_replicate (landing : Landing i sp more) : sp = List.replicate sp.length ' ' :=
  List.eq_replicate_iff.mpr ⟨rfl, landing.spaces⟩

theorem Landing.clear (landing : Landing i sp more) : Clear sp :=
  landing.eq_replicate ▸ clear_spaces _

theorem blockBreaks_breaks (stop : Mark) (landing : Landing i sp more) (fresh : m.column = 0) :
    ∃ stop', blockBreaks i stop ⟨List.replicate k '\n' ++ (sp ++ more), m⟩ =
      (List.replicate k '\n', stop', ⟨more, m.over (List.replicate k '\n' ++ sp)⟩) := by
  obtain ⟨spaces, within, stops, line⟩ := landing
  obtain ⟨n, rfl⟩ : ∃ n, sp = List.replicate n ' ' := ⟨_, List.eq_replicate_iff.mpr ⟨rfl, spaces⟩⟩
  rw [List.length_replicate] at within stops
  induction k generalizing m stop with
  | zero =>
    rw [List.replicate_zero, List.nil_append, blockBreaks,
      skipSpacesTo_spaces (by rw [fresh]; simpa using within) (by rw [fresh]; simpa using stops)]
    simp only [Cursor.lineBreak?_of_not_break line]
    exact ⟨stop, rfl⟩
  | succ k ih =>
    obtain ⟨stop', done⟩ := ih (m := m.over ['\n']) (m.over ['\n']) rfl
    have stays : Cursor.skipSpacesTo i
        ⟨List.replicate 0 ' ' ++ '\n' :: (List.replicate k '\n' ++ (List.replicate n ' ' ++ more)),
          m⟩ = _ :=
      skipSpacesTo_spaces (by rw [fresh]; omega) (.inr (by simp))
    rw [List.replicate_zero, List.nil_append] at stays
    rw [List.replicate_succ, List.cons_append, blockBreaks, stays]
    simp only [Mark.over_nil, Cursor.lineBreak?_feed, List.length_cons, Nat.lt_succ_self, if_true, done]
    exact ⟨stop', rfl⟩

/-- One line of a block, with the breaks after it. -/
theorem blockLines_line (breaks : List Char) (stop : Mark) (filled : line ≠ [])
    (clear : Clear line) (inner : '\n' ∉ line) (column : (m.column : Int) = i)
    (landing : Landing i sp more) :
    ∃ stop', blockLines false i breaks stop
        ⟨line ++ (List.replicate (k + 1) '\n' ++ (sp ++ more)), m⟩ =
      let next : Cursor := ⟨more, m.over (line ++ (List.replicate (k + 1) '\n' ++ sp))⟩
      if (sp.length : Int) = i ∧ next.peek ≠ sentinel then
        let (text, rest) := blockLines false i (List.replicate k '\n') stop' next
        (breaks ++ line ++ ['\n'] ++ text, rest)
      else (breaks ++ line, ['\n'], List.replicate k '\n', stop', next) := by
  have all : ∀ c ∈ line, (!isBreakOrEnd c) = true := fun c mem => by
    have other : c ≠ '\n' := fun feed => inner (feed ▸ mem)
    simpa [isBreakOrEnd_of_verbatim (clear c mem)] using other
  obtain ⟨stop', empty⟩ := blockBreaks_breaks (k := k)
    (m := (m.over line).over ['\n']) ((m.over line).over ['\n']) landing rfl
  have place : ((m.over line).over ['\n']).over (List.replicate k '\n' ++ sp) =
      m.over (line ++ (List.replicate (k + 1) '\n' ++ sp)) := by
    simp [List.replicate_succ]
  have width : (m.over (line ++ (List.replicate (k + 1) '\n' ++ sp))).column = sp.length := by
    have feeds : line ++ (List.replicate (k + 1) '\n' ++ sp) =
        (line ++ List.replicate k '\n') ++ '\n' :: sp := by simp [List.replicate_succ']
    rw [feeds, Mark.over_column_of_break landing.clear fun mem => by simpa using landing.spaces _ mem]
  have inside : (Cursor.mk (line ++ (List.replicate (k + 1) '\n' ++ (sp ++ more))) m).peek ≠
      sentinel := by
    obtain ⟨c, cs, rfl⟩ := List.exists_cons_of_ne_nil filled
    exact ne_of_verbatim (clear_cons.mp clear).1 (by decide)
  refine ⟨stop', ?_⟩
  rw [blockLines, if_pos ⟨column, inside⟩,
    Cursor.span_append clear all (by simp [List.replicate_succ, isBreakOrEnd, isBreak]),
    List.replicate_succ, List.cons_append]
  simp only [Cursor.lineBreak?_feed, empty, place, Bool.false_and, if_false, Bool.false_eq_true, width]
  have shorter : more.length < (line ++ '\n' :: (List.replicate k '\n' ++ (sp ++ more))).length := by
    simp only [List.length_append, List.length_cons]
    omega
  simp only [shorter, and_true]
  rfl

theorem Lined.starts (form : Lined indent core written) :
    ∃ c cs ds, core = c :: cs ∧ written = c :: ds ∧ isVerbatim c = true ∧ c ≠ '\n' := by
  have first {line : List Char} (filled : line ≠ []) (clear : Clear line) (inner : '\n' ∉ line) :
      ∃ c cs, line = c :: cs ∧ isVerbatim c = true ∧ c ≠ '\n' := by
    obtain ⟨c, cs, rfl⟩ := List.exists_cons_of_ne_nil filled
    exact ⟨c, cs, rfl, (clear_cons.mp clear).1, fun feed => inner (feed ▸ List.mem_cons_self)⟩
  cases form with
  | line filled clear inner =>
    obtain ⟨c, cs, rfl, own⟩ := first filled clear inner
    exact ⟨c, cs, cs, rfl, rfl, own⟩
  | more filled clear inner =>
    obtain ⟨c, cs, rfl, own⟩ := first filled clear inner
    exact ⟨c, _, _, rfl, rfl, own⟩

theorem Lined.landing (form : Lined indent core written) (rest : List Char) :
    Landing indent (List.replicate indent ' ') (written ++ rest) := by
  obtain ⟨c, cs, ds, -, rfl, verbatim, other⟩ := form.starts
  exact ⟨fun _ => List.eq_of_mem_replicate, by simp, .inl (by simp),
    by simpa [isBreak_of_verbatim verbatim] using other⟩

/-- The lines of a block are read back, up to the first that is not indented for it. -/
theorem Lined.blockLines (form : Lined indent core written) (breaks : List Char) (stop : Mark)
    (column : m.column = indent)
    (landing : Landing indent sp more) (shallow : sp.length < indent) :
    ∃ stop', blockLines false indent breaks stop
        ⟨written ++ (List.replicate (k + 1) '\n' ++ (sp ++ more)), m⟩ =
      (breaks ++ core, ['\n'], List.replicate k '\n', stop',
        ⟨more, m.over (written ++ (List.replicate (k + 1) '\n' ++ sp))⟩) := by
  induction form generalizing breaks stop m with
  | line filled clear inner =>
    obtain ⟨stop', done⟩ := blockLines_line (k := k) breaks stop
      filled clear inner (Int.natCast_inj.mpr column) landing
    have short : ¬ (sp.length : Int) = (indent : Int) := by omega
    exact ⟨stop', done.trans (if_neg fun at_ => short at_.1)⟩
  | @more line core written filled clear inner j later ih =>
    have next := later.landing (List.replicate (k + 1) '\n' ++ (sp ++ more))
    obtain ⟨middle, done⟩ := blockLines_line (k := j) breaks stop
      filled clear inner (Int.natCast_inj.mpr column) next
    have width : (m.over (line ++ (List.replicate (j + 1) '\n' ++ List.replicate indent ' '))).column =
        indent := by
      have feeds : line ++ (List.replicate (j + 1) '\n' ++ List.replicate indent ' ') =
          (line ++ List.replicate j '\n') ++ '\n' :: List.replicate indent ' ' := by
        simp [List.replicate_succ']
      rw [feeds, Mark.over_column_of_break (clear_spaces _) (by simp), List.length_replicate]
    obtain ⟨stop', goesOn⟩ := ih (List.replicate j '\n') middle width
    have visible : (Cursor.mk (written ++ (List.replicate (k + 1) '\n' ++ (sp ++ more)))
        (m.over (line ++ (List.replicate (j + 1) '\n' ++ List.replicate indent ' ')))).peek ≠
          sentinel := by
      obtain ⟨c, cs, ds, -, rfl, verbatim, -⟩ := later.starts
      exact ne_of_verbatim verbatim (by decide)
    refine ⟨stop', ?_⟩
    simp only [List.append_assoc]
    refine done.trans ((if_pos ⟨by rw [List.length_replicate], visible⟩).trans ?_)
    rw [goesOn]
    simp [List.replicate_succ]

theorem leadingBreaks_spaces (other : c ≠ ' ' ∧ isBreak c = false) :
    leadingBreaks m.column stop ⟨List.replicate k ' ' ++ c :: rest, m⟩ =
      ([], m.column + k, stop, ⟨c :: rest, m.over (List.replicate k ' ')⟩) := by
  induction k generalizing m with
  | zero =>
    rw [List.replicate_zero, List.nil_append, leadingBreaks,
      Cursor.lineBreak?_of_not_break (by simpa using other.2)]
    simp [other.1]
  | succ k ih =>
    have column : max m.column (m.over [' ']).column = (m.over [' ']).column :=
      Nat.max_eq_right (Nat.le_succ _)
    rw [List.replicate_succ, List.cons_append, leadingBreaks,
      Cursor.lineBreak?_of_not_break (by simp [isBreak])]
    simp only [Cursor.peek_cons, Cursor.next_cons (c := ' ') (by decide), List.length_cons,
      Nat.lt_succ_self, and_self, if_true, column, ih]
    have width : (m.over [' ']).column + k = m.column + (k + 1) := by
      rw [Mark.over_of_ne (by decide) (by decide)]
      exact Nat.add_right_comm _ _ _
    rw [width]
    rfl

/-! The header. -/

section header

variable {d t : List Char} {increment : Option Nat} {chomp : Chomp}

theorem readIndicators_hints (digit : d = [] ∧ increment = none ∨ d = ['2'] ∧ increment = some 2)
    (tail : t = [] ∧ chomp = .clip ∨ t = ['-'] ∧ chomp = .strip ∨ t = ['+'] ∧ chomp = .keep) :
    readIndicators start ⟨d ++ (t ++ '\n' :: rest), m⟩ =
      .ok (chomp, increment, ⟨'\n' :: rest, m.over (d ++ t)⟩) := by
  have ends : isSpaceOrEnd '\n' = true := rfl
  rcases digit with ⟨rfl, rfl⟩ | ⟨rfl, rfl⟩ <;>
    rcases tail with ⟨rfl, rfl⟩ | ⟨rfl, rfl⟩ | ⟨rfl, rfl⟩ <;>
    simp [readIndicators, readChomp?, chomp?, readIncrement?, Cursor.require, ends, bind, Except.bind,
      pure, Except.pure, Cursor.next_cons (c := '+') (by decide),
      Cursor.next_cons (c := '-') (by decide), Cursor.next_cons (c := '2') (by decide)]

theorem endLine_feed : Cursor.endLine .blockScalar start ⟨'\n' :: rest, m⟩ =
    .ok ⟨rest, m.over ['\n']⟩ := by
  have stays : Cursor.skipWhile (· == ' ') ⟨[] ++ '\n' :: rest, m⟩ = ⟨'\n' :: rest, m⟩ :=
    Cursor.skipWhile_append clear_nil nofun (by simp)
  have ends : isBreakOrEnd '\n' = true := rfl
  rw [List.nil_append] at stays
  simp [Cursor.endLine, stays, Cursor.skipComment, Cursor.require, ends, Cursor.skipBreak,
    Cursor.lineBreak?_feed, bind, Except.bind, pure, Except.pure]

theorem exists_trailing (cs : List Char) :
    ∃ front k, cs = front ++ List.replicate k '\n' ∧ front.getLast? ≠ some '\n' := by
  induction cs using List.reverseRecOn with
  | nil => exact ⟨[], 0, rfl, by simp⟩
  | append_singleton cs c ih =>
    by_cases feed : c = '\n'
    · obtain ⟨front, k, rfl, last⟩ := ih
      exact ⟨front, k + 1, by rw [feed, List.append_assoc, List.replicate_succ'], last⟩
    · exact ⟨cs ++ [c], 0, by simp, by simpa using feed⟩

theorem decimal_indentStep : Text.decimal indentStep = ['2'] := by
  simp [Text.decimal, Text.digits, indentStep, Text.digitChar]

/-- What the header says of the breaks at the end: of none, of one after a line, or of more. -/
theorem literalHints_eq {front : List Char} (clear : Clear front) (last : front.getLast? ≠ some '\n')
    (filled : front ++ List.replicate k '\n' ≠ []) :
    literalHints (front ++ List.replicate k '\n') =
      (if (front ++ List.replicate k '\n').head?.any isEdge then ['2'] else []) ++
        if k = 0 then ['-'] else if k = 1 ∧ front ≠ [] then [] else ['+'] := by
  have calm (c : Char) (cs : List Char) (same : front.reverse = c :: cs) : isTextBreak c = false := by
    have own : front.getLast? = some c := by rw [List.getLast?_eq_head?_reverse, same]; rfl
    rw [isTextBreak_of_verbatim (clear c (List.mem_of_getLast? own))]
    simpa [own] using last
  have feed : isTextBreak '\n' = true := rfl
  rw [literalHints, decimal_indentStep, List.reverse_append, List.reverse_replicate]
  congr 1
  match k with
  | 0 =>
    cases back : front.reverse with
    | nil => exact absurd (by simpa using back) (by simpa using filled)
    | cons c cs => simp [calm c cs back]
  | 1 =>
    cases back : front.reverse with
    | nil => simp [feed, List.reverse_eq_nil_iff.mp back]
    | cons c cs =>
      have some_ : front ≠ [] := by rintro rfl; simp at back
      simp [feed, calm c cs back, some_]
  | k + 2 => simp [feed, List.replicate_succ]

def Chomp.finish (chomp : Chomp) (text ending empty : List Char) : List Char :=
  text ++ match chomp with
    | .strip => []
    | .clip => ending
    | .keep => ending ++ empty

theorem readBlock_header {text ending empty : List Char} {stop' : Mark} {next last : Cursor}
    (digit : d = [] ∧ increment = none ∨ d = ['2'] ∧ increment = some 2)
    (tail : t = [] ∧ chomp = .clip ∨ t = ['-'] ∧ chomp = .strip ∨ t = ['+'] ∧ chomp = .keep)
    (inside : 0 ≤ i) (parent : (indent : Int) = i + 2)
    (first : let c : Cursor := ⟨rest, m.over ('|' :: (d ++ (t ++ ['\n'])))⟩
      if increment = none then leadingBreaks 0 c.mark c = (breaks, indent, stop, next)
      else blockBreaks indent c.mark c = (breaks, stop, next))
    (lines : blockLines false indent breaks stop next = (text, ending, empty, stop', last)) :
    readBlock false i ⟨'|' :: (d ++ (t ++ '\n' :: rest)), m⟩ =
      .ok (String.ofList (chomp.finish text ending empty), stop', last) := by
  have least : max 1 (i + 1) = i + 1 := by omega
  have place : ((m.over ['|']).over (d ++ t)).over ['\n'] = m.over ('|' :: (d ++ (t ++ ['\n']))) := by
    simp
  rw [readBlock]
  simp only [Cursor.next_cons (c := '|') (by decide), readIndicators_hints digit tail, endLine_feed,
    least, place, bind, Except.bind, pure, Except.pure]
  rcases digit with ⟨-, rfl⟩ | ⟨-, rfl⟩
  · have wide : max (i + 1) ((indent : Nat) : Int) = indent := by omega
    simp only [if_true] at first
    simp only [first, wide, lines]
    cases chomp <;> rfl
  · have wide : i + 1 + ((2 : Nat) : Int) - 1 = indent := by omega
    simp only [reduceCtorEq, if_false] at first
    simp only [wide, first, lines]
    cases chomp <;> rfl

end header

theorem lay_append_breaks (fresh : Bool) (cs : List Char) (k : Nat) :
    lay indent fresh (cs ++ List.replicate k '\n') = lay indent fresh cs ++ List.replicate k '\n' := by
  induction cs generalizing fresh with
  | nil =>
    cases k with
    | zero => rfl
    | succ k =>
      have breaks : lay indent fresh (List.replicate (k + 1) '\n' ++ []) = _ := lay_breaks
      simpa [lay] using breaks
  | cons c cs ih =>
    rw [List.cons_append, lay, lay]
    split
    · rw [ih, List.cons_append]
    · rw [ih, List.append_assoc, List.cons_append]

/-- At the end of a block stands one break at least, and the header says which breaks of these
are the text's own. -/
theorem exists_chomp {front : List Char} (clear : Clear front) (filled : front ≠ [])
    (last : front.getLast? ≠ some '\n') (k : Nat) :
    ∃ j t chomp,
      (t = [] ∧ chomp = Chomp.clip ∨ t = ['-'] ∧ chomp = .strip ∨ t = ['+'] ∧ chomp = .keep) ∧
      (List.replicate k '\n' ++ if (front ++ List.replicate k '\n').getLast?.any isTextBreak then []
        else ['\n']) = List.replicate (j + 1) '\n' ∧
      (if k = 0 then ['-'] else if k = 1 ∧ front ≠ [] then [] else ['+']) = t ∧
      chomp.finish front ['\n'] (List.replicate j '\n') = front ++ List.replicate k '\n' := by
  have feed : isTextBreak '\n' = true := rfl
  match k with
  | 0 =>
    have calm : isTextBreak (front.getLast filled) = false := by
      rw [isTextBreak_of_verbatim (clear _ (List.getLast_mem filled))]
      simpa [List.getLast?_eq_some_getLast filled] using last
    refine ⟨0, _, .strip, .inr (.inl ⟨rfl, rfl⟩), ?_, rfl, by simp [Chomp.finish]⟩
    simp [List.getLast?_eq_some_getLast filled, calm]
  | 1 => exact ⟨0, _, .clip, .inl ⟨by simp [filled], rfl⟩, by simp [feed], rfl, by simp [Chomp.finish]⟩
  | k + 2 =>
    refine ⟨k + 1, _, .keep, .inr (.inr ⟨by simp, rfl⟩), ?_, rfl, ?_⟩
    · simp [List.replicate_succ', feed]
    · simp [Chomp.finish, List.replicate_succ]

/-- The start of a block is read as the header says: by its own indentation or by the first
line's. -/
theorem Lined.blockStart {a : Nat} {increment : Option Nat} (form : Lined indent core written)
    (fresh : m.column = 0)
    (shown : increment = none → (List.replicate a '\n' ++ core).head?.any isEdge = false)
    (rest : List Char) :
    let lines := List.replicate a '\n' ++ (List.replicate indent ' ' ++ (written ++ rest))
    let next : Cursor :=
      ⟨written ++ rest, m.over (List.replicate a '\n' ++ List.replicate indent ' ')⟩
    ∃ stop, if increment = none then
        leadingBreaks 0 m ⟨lines, m⟩ = (List.replicate a '\n', indent, stop, next)
      else blockBreaks indent m ⟨lines, m⟩ = (List.replicate a '\n', stop, next) := by
  dsimp only
  by_cases auto : increment = none
  · have calm := shown auto
    obtain ⟨c, cs, ds, rfl, rfl, verbatim, other⟩ := form.starts
    cases a with
    | succ a => exact absurd calm (by simp [List.replicate_succ, isEdge]; decide)
    | zero =>
      have visible : c ≠ ' ' := by rintro rfl; exact absurd calm (by simp [isEdge])
      have own : isBreak c = false := by simpa [isBreak_of_verbatim verbatim] using other
      have found : leadingBreaks m.column m ⟨List.replicate indent ' ' ++ c :: (ds ++ rest), m⟩ = _ :=
        leadingBreaks_spaces ⟨visible, own⟩
      rw [fresh, Nat.zero_add] at found
      exact ⟨m, by rw [if_pos auto]; exact found⟩
  · obtain ⟨stop, found⟩ := blockBreaks_breaks (k := a) m (form.landing rest) fresh
    exact ⟨stop, by rw [if_neg auto]; exact found⟩

theorem Mark.column_after_breaks {ds : List Char} (clear : Clear ds) (line : '\n' ∉ ds) (cs : List Char)
    (a : Nat) : (m.over (cs ++ List.replicate (a + 1) '\n' ++ ds)).column = ds.length := by
  have feeds : cs ++ List.replicate (a + 1) '\n' ++ ds =
      (cs ++ List.replicate a '\n') ++ '\n' :: ds := by
    simp [List.replicate_succ']
  rw [feeds, Mark.over_column_of_break clear line]

section literal

variable (inside : 0 ≤ i) (parent : (indent : Int) = i + 2) (landing : Landing indent sp more)
  (shallow : sp.length < indent)

include inside parent landing shallow

/-- A block of line breaks and nothing else says its own indentation, and keeps them all. -/
theorem readBlock_breaks (k : Nat) :
    ∃ stop, readBlock false i
        ⟨literalBlock indent (List.replicate (k + 1) '\n') ++ (sp ++ more), m⟩ =
      .ok (String.ofList (List.replicate (k + 1) '\n'), stop,
        ⟨more, m.over (literalBlock indent (List.replicate (k + 1) '\n') ++ sp)⟩) := by
  have hints := literalHints_eq (k := k + 1) clear_nil (by simp) (by simp)
  have feed : isTextBreak '\n' = true := rfl
  have block : literalBlock indent (List.replicate (k + 1) '\n') =
      '|' :: (['2'] ++ (['+'] ++ '\n' :: List.replicate (k + 1) '\n')) := by
    have laid : lay indent true ([] ++ List.replicate (k + 1) '\n') = _ :=
      lay_append_breaks true [] (k + 1)
    have ends : (List.replicate (k + 1) '\n').getLast? = some '\n' := by simp [List.replicate_succ']
    rw [List.nil_append] at hints laid
    rw [literalBlock, hints, ends, laid]
    simp [isEdge, List.replicate_succ, lay, feed]
  obtain ⟨stop, breaks⟩ := blockBreaks_breaks (k := k + 1)
    (m := m.over ('|' :: (['2'] ++ (['+'] ++ ['\n'])))) (m.over _) landing rfl
  have column : ((m.over ('|' :: (['2'] ++ (['+'] ++ ['\n'])))).over
      (List.replicate (k + 1) '\n' ++ sp)).column = sp.length := by
    rw [Mark.over_over, ← List.append_assoc]
    exact Mark.column_after_breaks landing.clear (fun mem => by simpa using landing.spaces _ mem) _ k
  have short : ¬ ((sp.length : Int) = indent) := by omega
  have done := readBlock_header (m := m)
    (.inr ⟨rfl, rfl⟩) (.inr (.inr ⟨rfl, rfl⟩)) inside parent breaks
    (by rw [blockLines, if_neg fun at_ => short (column ▸ at_.1)])
  refine ⟨stop, ?_⟩
  rw [block]
  simpa [Chomp.finish] using done

/-- A literal block is read back inside a node at the column before it, whatever comes after
that is not indented for it. -/
theorem readBlock_literal (clear : Clear cs) (filled : cs ≠ []) :
    ∃ stop, readBlock false i ⟨literalBlock indent cs ++ (sp ++ more), m⟩ =
      .ok (String.ofList cs, stop, ⟨more, m.over (literalBlock indent cs ++ sp)⟩) := by
  obtain ⟨front, k, rfl, last⟩ := exists_trailing cs
  by_cases bare : front = []
  · subst bare
    obtain ⟨k, rfl⟩ : ∃ j, k = j + 1 := Nat.exists_eq_succ_of_ne_zero (by simpa using filled)
    exact readBlock_breaks inside parent landing shallow k
  · have own : Clear front := (clear_append.mp clear).1
    have hints := literalHints_eq own last filled
    obtain ⟨a, core, written, lines, form, laid⟩ := exists_lined own bare last
    obtain ⟨j, t, chomp, tail, closed, mark, whole⟩ := exists_chomp own bare last k
    obtain ⟨d, increment, digit, shown, auto⟩ : ∃ d increment,
        (d = [] ∧ increment = none ∨ d = ['2'] ∧ increment = some 2) ∧
        (if (front ++ List.replicate k '\n').head?.any isEdge then ['2'] else []) = d ∧
        (increment = none → front.head?.any isEdge = false) := by
      rw [List.head?_append_of_ne_nil _ bare]
      cases front.head?.any isEdge
      · exact ⟨_, none, .inl ⟨rfl, rfl⟩, rfl, fun _ => rfl⟩
      · exact ⟨_, some 2, .inr ⟨rfl, rfl⟩, rfl, nofun⟩
    have block : literalBlock indent (front ++ List.replicate k '\n') =
        '|' :: (d ++ (t ++ '\n' :: (List.replicate a '\n' ++ (List.replicate indent ' ' ++
          (written ++ List.replicate (j + 1) '\n'))))) := by
      rw [literalBlock, hints, shown, mark, lay_append_breaks, laid]
      simp only [List.append_assoc, List.cons_append, closed]
      simp
    have header : '|' :: (d ++ (t ++ ['\n'])) =
        '|' :: (d ++ t) ++ List.replicate (0 + 1) '\n' ++ [] := by
      simp
    have fresh : (m.over ('|' :: (d ++ (t ++ ['\n'])))).column = 0 := by
      rw [header, Mark.column_after_breaks clear_nil (by simp), List.length_nil]
    obtain ⟨stop, first⟩ := form.blockStart fresh (lines ▸ auto)
      (List.replicate (j + 1) '\n' ++ (sp ++ more))
    have column : ((m.over ('|' :: (d ++ (t ++ ['\n'])))).over
        (List.replicate a '\n' ++ List.replicate indent ' ')).column = indent := by
      have feeds : '|' :: (d ++ (t ++ ['\n'])) ++ (List.replicate a '\n' ++ List.replicate indent ' ') =
          '|' :: (d ++ t) ++ List.replicate (a + 1) '\n' ++ List.replicate indent ' ' := by
        simp [List.replicate_succ]
      rw [Mark.over_over, feeds, Mark.column_after_breaks (clear_spaces _) (by simp),
        List.length_replicate]
    obtain ⟨stop', body⟩ := form.blockLines (k := j) (List.replicate a '\n') stop
      column landing shallow
    have done := readBlock_header digit tail inside parent first body
    rw [← lines, whole] at done
    refine ⟨stop', ?_⟩
    rw [block]
    simpa using done

end literal

end OverlayBuild.Yaml

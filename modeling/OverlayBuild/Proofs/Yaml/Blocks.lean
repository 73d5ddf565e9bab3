import OverlayBuild.Proofs.Yaml.Tokens

/-! Blocks of lines. `Fills` says which tokens the lexer finds in the text of a value, from the
mark before it to the end of its last line; `Rows` says so of entries or items at one column.
Both hold whatever stands around the text, so that larger blocks are put together from smaller. -/
namespace OverlayBuild.Yaml

open Spot

structure Closed (p : List Char) : Prop where
  clear : Clear p
  ends : ∃ q, p = q ++ ['\n']

variable {c d k : Nat} {allowed fresh : Bool} {p q sp written text rest : List Char}
  {ks more : List Token.Kind} {start stop kind : Token.Kind} {style : ScalarStyle} {m : Mark}
  {i j : Int} {o o' : List Int}

theorem Closed.column (closed : Closed p) (m : Mark) : (m.over p).column = 0 := by
  obtain ⟨-, q, rfl⟩ := closed
  exact Mark.over_column_of_break clear_nil (by simp)

theorem Closed.append (clear : Clear p) (closed : Closed q) : Closed (p ++ q) where
  clear := clear_append.mpr ⟨clear, closed.clear⟩
  ends := by
    obtain ⟨r, rfl⟩ := closed.ends
    exact ⟨p ++ r, (List.append_assoc _ _ _).symm⟩

theorem Closed.cons {x : Char} (verbatim : isVerbatim x = true) (closed : Closed q) :
    Closed (x :: q) :=
  .append (p := [x]) (by simpa using verbatim) closed

structure Leading (x : Char) : Prop where
  verbatim : isVerbatim x = true
  gap : isGap x = false
  comment : x ≠ '#'

theorem Leading.visible {x : Char} (leading : Leading x) (rest : List Char) : Visible (x :: rest) :=
  fun y mem => by
    obtain rfl := Option.some.inj mem
    exact ⟨leading.verbatim, leading.gap, leading.comment⟩

/-- The place before a token is where the lexer settles. -/
theorem settled_idle (visible : Visible rest) (within : i ≤ m.column) :
    (idle rest m ks i o allowed).settled = idle rest m ks i o allowed := by
  rw [settled_eq (s := idle rest m ks i o allowed) (r := rest) (List.nil_append rest).symm nofun visible
    within]
  simp [idle]

theorem settled_idle_gap (gap : ∀ x ∈ sp, isGap x = true) (visible : Visible rest)
    (within : i ≤ (m.over sp).column) :
    (idle (sp ++ rest) m ks i o allowed).settled =
      idle rest (m.over sp) ks i o (allowed || sp.contains '\n') := by
  rw [settled_gap (s := idle (sp ++ rest) m ks i o allowed) gap rfl]
  exact settled_idle visible within

theorem outside_of_visible (visible : Visible rest) (filled : rest ≠ []) (within : k ≤ c) :
    Outside c (List.replicate k ' ' ++ rest) :=
  ⟨k, rest, rfl, visible, fun none => absurd none filled, by exact_mod_cast within⟩

theorem Outside.mono (after : Outside i rest) (within : i ≤ j) : Outside j rest := by
  obtain ⟨k, r, rfl, visible, bare, near⟩ := after
  exact ⟨k, r, rfl, visible, bare, Int.le_trans near within⟩

theorem Brackets.leading {x y : Char} (pair : Brackets x y start stop) : Leading x := by
  cases pair <;> exact ⟨by decide, by decide, by decide⟩

/-- A block that ends before a token that is indented less is closed there. -/
theorem settled_outside (after : Outside c rest) (column : m.column = 0) (deeper : c < d)
    (outer : List Int) :
    (idle rest m ks d (c :: outer) true).settled =
      (idle rest m (ks ++ [.blockEnd]) c outer true).settled := by
  obtain ⟨k, r, rfl, visible, -, within⟩ := after
  have place := Mark.over_line (m := m) (clear_spaces k) (by simp)
  refine settled_close (s := idle _ m ks d (c :: outer) true) rfl (fun x mem => ?_) visible rfl ?_
  · rw [List.eq_of_mem_replicate mem]
    rfl
  · simp only [idle, place, column, List.length_replicate]
    omega

theorem Styled.leading (form : Styled d text style written) :
    ∃ x q, written = x :: q ∧ Leading x := by
  cases form with
  | plain starts form =>
    obtain ⟨w, more, own, rfl⟩ := form.starts
    obtain ⟨x, w, rfl⟩ := List.exists_cons_of_ne_nil own.filled
    obtain ⟨space, feed⟩ := own.visible x List.mem_cons_self
    have verbatim : isVerbatim x = true := own.clear x List.mem_cons_self
    exact ⟨x, _, rfl, verbatim, by simp [isGap, space, feed], by simpa using own.first⟩
  | quoted double form =>
    exact ⟨_, _, rfl, by cases double <;> exact ⟨by decide, by decide, by decide⟩⟩
  | literal => exact ⟨'|', _, rfl, by decide, by decide, by decide⟩

/-- The text of a value in a collection at the column, with its tokens. Where a mark stands before
it, a key may start right behind that. -/
structure Fills (c : Nat) (allowed : Bool) (p : List Char) (ks : List Token.Kind) : Prop where
  closed : Closed p
  parted : ∃ x q, p = x :: q ∧ isGap x = true
  settles : ∀ rest, Settles (p ++ rest)
  leads : ∀ (ks₀) {m o rest}, c < m.column → (allowed = true → m.column = c + 1) → Outside c rest →
    Leads (idle (p ++ rest) m ks₀ c o allowed).settled
      (idle rest (m.over p) (ks₀ ++ ks) c o true).settled

structure Rows (c : Nat) (start : Token.Kind) (p : List Char) (ks : List Token.Kind) : Prop where
  closed : Closed p
  leading : ∃ x q, p = x :: q ∧ Leading x
  leads : ∀ (ks₀) {m i o fresh o' rest}, m.column = c → Enters i o c fresh c o' → Outside c rest →
    Leads (idle (p ++ rest) m ks₀ i o true)
      (idle rest (m.over p) (ks₀ ++ (opening fresh start ++ ks)) c o' true).settled

theorem Rows.visible (rows : Rows c start p ks) (rest : List Char) : Visible (p ++ rest) := by
  obtain ⟨x, q, rfl, leading⟩ := rows.leading
  exact leading.visible _

theorem Fills.blank (fills : Fills c allowed p ks) (rest : List Char) :
    isBlankOrEnd ((p ++ rest).headD sentinel) = true := by
  obtain ⟨x, q, rfl, gap⟩ := fills.parted
  simp only [isGap, Bool.or_eq_true, beq_iff_eq] at gap
  rcases gap with rfl | rfl
  · exact (by decide : isBlankOrEnd ' ' = true)
  · exact (by decide : isBlankOrEnd '\n' = true)

theorem Rows.append (first : Rows c start p ks) (second : Rows c start q more) :
    Rows c start (p ++ (List.replicate c ' ' ++ q)) (ks ++ more) where
  closed := .append first.closed.clear (.append (clear_spaces c) second.closed)
  leading := by
    obtain ⟨x, r, rfl, leading⟩ := first.leading
    exact ⟨x, _, rfl, leading⟩
  leads ks₀ {m i o fresh o' rest} column enters after := by
    have visible := second.visible rest
    have filled : q ++ rest ≠ [] := by
      obtain ⟨x, r, rfl, -⟩ := second.leading
      exact List.cons_ne_nil _ _
    have own := first.leads ks₀ column enters
      (outside_of_visible visible filled (Nat.le_refl c))
    have gap : ∀ x ∈ List.replicate c ' ', isGap x = true := fun x mem => by
      rw [List.eq_of_mem_replicate mem]
      rfl
    have place : ((m.over p).over (List.replicate c ' ')).column = c := by
      rw [Mark.over_line (clear_spaces c) (by simp), first.closed.column]
      simp
    rw [settled_idle_gap gap visible (Int.le_of_eq (by rw [place])), Bool.true_or] at own
    have later := second.leads (ks₀ ++ (opening fresh start ++ ks)) (o := o') place
      (.same rfl) after
    simpa [opening] using Relation.ReflTransGen.trans own later

theorem Rows.mark {x : Char} (mark : BlockMark x start kind) (fills : Fills c true p ks) :
    Rows c start (x :: p) (kind :: ks) where
  closed := .cons (by cases mark <;> decide) fills.closed
  leading := ⟨x, p, rfl, by cases mark <;> exact ⟨by decide, by decide, by decide⟩⟩
  leads ks₀ {m i o fresh o' rest} column enters after := by
    subst column
    have verbatim : isVerbatim x = true := by cases mark <;> decide
    have beside : (m.over [x]).column = m.column + 1 := by
      rw [Mark.over_line (by simpa using verbatim) (by cases mark <;> decide)]
      rfl
    have next : Next (idle _ m ks₀ i o true) _ :=
      next_mark mark enters (fills.blank rest) (fills.settles rest)
    have later := fills.leads (ks₀ ++ (opening fresh start ++ [kind])) (o := o')
      (by omega) (fun _ => beside) after
    simpa [← Mark.over_cons] using Relation.ReflTransGen.head next later

theorem Rows.key (form : Styled (c + 2) text style written) (block : style ≠ .literal)
    (line : '\n' ∉ written) (short : written.length ≤ 1024) (fills : Fills c false p ks) :
    Rows c .blockMappingStart (written ++ ':' :: p)
      (.key :: .scalar (String.ofList text) style :: .value :: ks) where
  closed := .append form.clear (.cons (by decide) fills.closed)
  leading := by
    obtain ⟨x, q, rfl, leading⟩ := form.leading
    exact ⟨x, _, rfl, leading⟩
  leads ks₀ {m i o fresh o' rest} column enters after := by
    subst column
    have within : i ≤ m.column := by cases enters <;> omega
    have own : Leads (idle _ m ks₀ i o true) _ := leads_key form block (by omega) (by omega)
      enters line short (fills.blank rest) (fills.settles rest)
    have beyond : m.column < (m.over (written ++ [':'])).column := by
      rw [Mark.over_line (by simpa using ⟨form.clear, by decide⟩) (by simpa using line)]
      simp
    have later := fills.leads (o := o')
      (ks₀ ++ (opening fresh .blockMappingStart ++ [.key, .scalar (String.ofList text) style, .value]))
      beyond nofun after
    have whole : m.over (written ++ ':' :: p) = (m.over (written ++ [':'])).over p := by simp
    rw [whole]
    simpa using Relation.ReflTransGen.trans own later

/-! Values. -/

theorem literalBlock_ends (clear : Clear text) : ∃ q, literalBlock d text = q ++ ['\n'] := by
  rw [literalBlock]
  by_cases breaks : text.getLast?.any isTextBreak = true
  · rw [if_pos breaks, List.append_nil]
    obtain ⟨front, x, rfl⟩ : ∃ front x, text = front ++ [x] := by
      rcases List.eq_nil_or_concat text with rfl | ⟨front, x, own⟩
      · simp at breaks
      · exact ⟨front, x, by simpa using own⟩
    have verbatim : isVerbatim x = true := clear x (by simp)
    obtain rfl : x = '\n' := by simpa [isTextBreak_of_verbatim verbatim] using breaks
    have laid : lay d true _ = _ := lay_append_breaks true front 1
    rw [List.replicate_one] at laid
    exact ⟨_, by rw [laid, ← List.cons_append, ← List.append_assoc]⟩
  · rw [if_neg breaks]
    exact ⟨_, rfl⟩

theorem Styled.closed (form : Styled d text style written) : Closed (written ++ lineEnd style) where
  clear := by
    rw [lineEnd]
    split
    · simpa using form.clear
    · simpa using ⟨form.clear, by decide⟩
  ends := by
    cases form with
    | plain => exact ⟨written, rfl⟩
    | @quoted double inner _ =>
      exact ⟨quoteOf double :: (inner ++ [quoteOf double]), by cases double <;> rfl⟩
    | literal clear _ =>
      obtain ⟨q, ends⟩ := literalBlock_ends (d := d) clear
      exact ⟨q, by rw [lineEnd, if_pos rfl, ends, List.append_nil]⟩

theorem Fills.scalar (form : Styled (c + 2) text style written) :
    Fills c allowed (' ' :: (written ++ lineEnd style)) [.scalar (String.ofList text) style] where
  closed := .cons (by decide) form.closed
  parted := ⟨_, _, rfl, rfl⟩
  settles rest := by
    obtain ⟨x, q, rfl, leading⟩ := form.leading
    refine (settles_append isGap_space).mpr ?_
    exact (leading.visible _).settles
  leads ks₀ {m o rest} beyond _ after := by
    obtain ⟨x, q, own, leading⟩ := form.leading
    have visible : Visible (written ++ (lineEnd style ++ rest)) := own ▸ leading.visible _
    have place : (m.over [' ']).column = m.column + 1 := by
      rw [Mark.over_of_ne (by decide) (by decide)]
    have gap : (idle _ m ks₀ c o allowed).settled = _ := settled_idle_gap isGap_space visible (by omega)
    have next : Next (idle _ (m.over [' ']) ks₀ c o allowed) _ := next_value form
      (by push_cast; rfl) (by omega) (by omega) after
    have gapless : (allowed || [' '].contains '\n') = allowed := by simp
    rw [gapless] at gap
    have start : ' ' :: (written ++ lineEnd style) ++ rest =
        [' '] ++ (written ++ (lineEnd style ++ rest)) := by
      simp
    rw [start, gap, Mark.over_cons]
    exact .single next

/-- An empty collection stands on the line. -/
theorem Fills.empty {x y : Char} (pair : Brackets x y start stop) :
    Fills c allowed [' ', x, y, '\n'] [start, stop] where
  closed := ⟨by cases pair <;> simp <;> decide, [' ', x, y], rfl⟩
  parted := ⟨_, _, rfl, rfl⟩
  settles rest := by
    refine (settles_append isGap_space).mpr ?_
    exact (pair.leading.visible _).settles
  leads ks₀ {m o rest} beyond _ after := by
    have place : (m.over [' ']).column = m.column + 1 := by
      rw [Mark.over_of_ne (by decide) (by decide)]
    have gap : (idle _ m ks₀ c o allowed).settled = _ :=
      settled_idle_gap isGap_space (pair.leading.visible (y :: '\n' :: rest)) (by omega)
    have gapless : (allowed || [' '].contains '\n') = allowed := by simp
    rw [gapless] at gap
    have own : Leads (idle _ (m.over [' ']) ks₀ c o allowed) _ := leads_empty pair (by omega) after
    have start : [' ', x, y, '\n'] ++ rest = [' '] ++ x :: y :: '\n' :: rest := rfl
    rw [start, gap, Mark.over_cons]
    exact own

/-- A collection that is indented deeper than the one around it. -/
theorem Rows.nested (rows : Rows d start p ks) (deeper : c < d) (gap : ∀ x ∈ sp, isGap x = true)
    (filled : sp ≠ []) (may : (allowed || sp.contains '\n') = true)
    (lands : ∀ m : Mark, (allowed = true → m.column = c + 1) → (m.over sp).column = d) :
    Fills c allowed (sp ++ p) (start :: (ks ++ [.blockEnd])) where
  closed := .append (clear_gap gap) rows.closed
  parted := by
    obtain ⟨x, q, rfl⟩ := List.exists_cons_of_ne_nil filled
    exact ⟨x, _, rfl, gap x List.mem_cons_self⟩
  settles rest := by
    rw [List.append_assoc, settles_append gap]
    exact (rows.visible rest).settles
  leads ks₀ {m o rest} _ column after := by
    have place := lands m column
    have start : (c : Int) ≤ (m.over sp).column := by omega
    rw [List.append_assoc, settled_idle_gap gap (rows.visible rest) start, may]
    have inner : Outside d rest := after.mono (by omega)
    have own := rows.leads ks₀ (i := c) (o := o) place (.fresh (by omega)) inner
    rw [settled_outside after (rows.closed.column _) deeper] at own
    simpa [opening] using own

theorem isGap_below {x : Char} (mem : x ∈ '\n' :: List.replicate d ' ') : isGap x = true := by
  rcases List.mem_cons.mp mem with rfl | mem
  · rfl
  · rw [List.eq_of_mem_replicate mem]
    rfl

theorem column_below (m : Mark) : (m.over ('\n' :: List.replicate d ' ')).column = d := by
  have column : (m.over ([] ++ '\n' :: List.replicate d ' ')).column = _ :=
    Mark.over_column_of_break (clear_spaces d) (by simp)
  simpa using column

/-- A block of rows on lines of their own. -/
theorem Rows.below (rows : Rows d start p ks) (deeper : c < d) :
    Fills c allowed ('\n' :: List.replicate d ' ' ++ p) (start :: (ks ++ [.blockEnd])) :=
  rows.nested deeper (fun _ => isGap_below) (by simp) (by simp) fun m _ => column_below m

/-- A block of rows the first of which stands on the line of the mark before it. -/
theorem Rows.beside (rows : Rows (c + 2) start p ks) :
    Fills c true (' ' :: p) (start :: (ks ++ [.blockEnd])) := by
  refine rows.nested (by omega) isGap_space (by simp) (by simp) fun m column => ?_
  rw [Mark.over_of_ne (by decide) (by decide)]
  have := column rfl
  dsimp only
  omega

/-- The items of a sequence may stand at the column of the key before them. -/
theorem Rows.level (rows : Rows c start p ks) :
    Fills c allowed ('\n' :: List.replicate c ' ' ++ p) ks where
  closed := .append (clear_gap fun _ => isGap_below) rows.closed
  parted := ⟨_, _, rfl, rfl⟩
  settles rest := by
    rw [List.append_assoc, settles_append fun _ => isGap_below]
    exact (rows.visible rest).settles
  leads ks₀ {m o rest} _ _ after := by
    have place := column_below (d := c) m
    have start : (c : Int) ≤ (m.over ('\n' :: List.replicate c ' ')).column := by omega
    have own := rows.leads ks₀ (o := o) place (.same rfl) after
    rw [List.append_assoc, settled_idle_gap (fun _ => isGap_below) (rows.visible rest) start]
    simpa [opening] using own

/-! Whole documents. -/

inductive DocumentMark : Char → Token.Kind → Prop
  | start : DocumentMark '-' .documentStart
  | stop : DocumentMark '.' .documentEnd

section documents

variable {x : Char} {s : Spot} {last : List Token.Kind}

theorem DocumentMark.dispatch {y : Lexer} (mark : DocumentMark x kind)
    (here : y.cursor = ⟨x :: x :: x :: rest, m⟩) (column : m.column = 0)
    (blank : isBlankOrEnd (rest.headD sentinel) = true) : y.dispatch = y.documentMarker kind := by
  have peek : y.cursor.peek = x := by rw [here]; rfl
  have place : y.mark.column = 0 := by rw [Lexer.mark, here]; exact column
  have marked : y.cursor.atMarker x = true := by
    have fourth : y.cursor.peekAt 3 = rest.headD sentinel := by rw [here]; cases rest <;> rfl
    simp only [Cursor.atMarker, peek, fourth, blank, Bool.and_true]
    rw [here]
    simp [Cursor.peekAt]
  cases mark with
  | start => simp [Lexer.dispatch, peek, place, marked, sentinel]
  | stop =>
    have other := atMarker_of_ne (q := '-') here (by decide)
    simp [Lexer.dispatch, peek, place, marked, other, sentinel]

/-- Before a mark of a document all collections are closed. -/
theorem DocumentMark.next (mark : DocumentMark x kind) (column : m.column = 0)
    (blank : isBlankOrEnd (rest.headD sentinel) = true) (settles : Settles rest) :
    Next (idle (x :: x :: x :: rest) m ks i o true)
      (((idle (x :: x :: x :: rest) m ks i o true).close (-1)).past [x, x, x] rest kind
        false).settled := by
  have verbatim : isVerbatim x = true := by cases mark <;> decide
  let here := idle (x :: x :: x :: rest) m ks i o true
  have load : (here.close (-1)).load = here.load := load_close
  refine .of_settled rfl settles (by simp [past, close, idle]) ?_ ?_ ?_ fun w n held _ => ?_
  · simp [past, idle]
    omega
  · simp [past, close, idle]
  · have size : here.rest.length = rest.length + 3 := rfl
    have whole : (here.close (-1)).load =
      (here.close (-1)).kinds.length + (here.close (-1)).outer.length + 4 * here.rest.length := rfl
    show ((here.close (-1)).kinds ++ [kind]).length + (here.close (-1)).outer.length + 4 * rest.length ≤
      here.load
    rw [List.length_append, List.length_singleton]
    omega
  · obtain ⟨w₁, held₁, closed⟩ := unwind_lexer (s := here) rfl held (-1)
    obtain ⟨w₂, held₂, taken⟩ := take_lexer (s := here.close (-1)) [x, x, x]
      rest false rfl (by simpa using verbatim) held₁ kind
    have bare := dropKey_lexer (s := here.close (-1)) rfl w₁ n
    refine ⟨w₂, held₂, ?_, ?_⟩
    · have pushed : ((here.close (-1)).past [x, x, x] rest kind false).kinds =
          here.kinds ++ ((here.close (-1)).kinds.drop ks.length ++ [kind]) := by
        simp [past, close, here, idle]
      rw [pushed, List.take_append_of_le_length held.within]
    · rw [mark.dispatch rfl column blank, Lexer.documentMarker, closed]
      simp only [bind, Except.bind, bare, pure, Except.pure]
      exact congrArg Except.ok taken

/-- At the end of the text all collections are closed. -/
theorem ends_of_close (flow : s.flow = 0) (bare : s.keys = []) (none : s.rest = [])
    (kinds : (s.close (-1)).kinds ++ [.streamEnd] = s.kinds ++ last) : s.Ends last := by
  intro w n held _
  obtain ⟨w', held', closed⟩ := unwind_lexer flow held (-1)
  have keyless := dropKey_lexer (s := s.close (-1)) bare w' n
  have ended := held'.push .streamEnd (s.close (-1)).mark (s.close (-1)).mark
  have peek : (s.lexer w n).cursor.peek = sentinel := by simp [lexer, none]
  refine ⟨{ ((s.close (-1)).lexer w' n).push .streamEnd (s.close (-1)).mark (s.close (-1)).mark with
    keyAllowed := false, keys := [], ended := true }, ?_, ?_, rfl⟩
  · rw [← kinds]
    exact ended
  · rw [Lexer.dispatch, peek]
    simp only [if_true, Lexer.endStream, closed, bind, Except.bind, keyless, pure, Except.pure]
    rfl

def ending (marked : Bool) : List Char := if marked then ['.', '.', '.', '\n'] else []

theorem visible_ending (marked : Bool) : Visible (ending marked) := by
  cases marked with
  | false => exact fun _ none => absurd none (by simp [ending])
  | true => exact Leading.visible ⟨by decide, by decide, by decide⟩ _

theorem outside_ending (marked : Bool) : Outside 0 (ending marked) :=
  ⟨0, ending marked, rfl, visible_ending marked, fun _ => rfl, Int.le_refl 0⟩

/-- The mark of a document's start is read, up to the start of the next line. -/
theorem next_documentStart {below : List Char} (visible : Visible below) :
    Next (idle ('-' :: '-' :: '-' :: '\n' :: below) ⟨0, 0, 0⟩ [.streamStart] (-1) [] true)
      (idle below (Mark.over ⟨0, 0, 0⟩ ['-', '-', '-', '\n']) [.streamStart, .documentStart] (-1) []
        true) := by
  have blank : isBlankOrEnd (('\n' :: below).headD sentinel) = true :=
    (by decide : isBlankOrEnd '\n' = true)
  have next : Next (idle _ ⟨0, 0, 0⟩ [.streamStart] (-1) [] true) _ :=
    DocumentMark.start.next rfl blank ((settles_append isGap_feed).mpr visible.settles)
  rw [close_of_le (Int.le_refl (-1))] at next
  have settled : (idle _ (Mark.over ⟨0, 0, 0⟩ ['-', '-', '-']) [.streamStart, .documentStart] (-1) []
    false).settled = _ := settled_idle_gap isGap_feed visible (by decide)
  exact settled ▸ next

/-- The mark of a document's end is read, up to the end of the text. -/
theorem next_documentEnd (column : m.column = 0) :
    Next (idle (ending true) m ks 0 [-1] true)
      (idle [] (m.over (ending true)) (ks ++ [.blockEnd, .documentEnd]) (-1) [] true) := by
  have next : Next (idle ('.' :: '.' :: '.' :: ['\n']) m ks 0 [-1] true) _ :=
    DocumentMark.stop.next column (by decide) ((settles_append isGap_feed).mpr (Visible.settles nofun))
  have low : (-1 : Int) < 0 := by decide
  have closed : ((idle (ending true) m ks 0 [-1] true).close (-1)).past ['.', '.', '.'] ['\n']
      .documentEnd false =
        idle ['\n'] (m.over ['.', '.', '.']) (ks ++ [.blockEnd, .documentEnd]) (-1) [] false := by
    rw [close_of_lt rfl low, close_of_le (Int.le_refl (-1))]
    simp [past, idle]
  have settled : (idle (['\n'] ++ []) (m.over ['.', '.', '.']) (ks ++ [.blockEnd, .documentEnd]) (-1) []
    false).settled = _ := settled_idle_gap isGap_feed nofun (by omega)
  rw [Mark.over_over] at settled
  have whole : ['.', '.', '.', '\n'] = '.' :: '.' :: '.' :: ['\n'] := rfl
  rw [ending, if_pos rfl, whole] at closed
  rw [closed] at next
  exact settled ▸ next

/-- The tokens of a document whose root is a block. -/
theorem tokens_document (rows : Rows 0 start p ks) (marked : Bool) :
    ∃ ts, tokens ('-' :: '-' :: '-' :: '\n' :: (p ++ ending marked)) = Stream.ofList ts ∧
      ts.map (·.kind) = [.streamStart, .documentStart, start] ++ ks ++ [.blockEnd] ++
        (if marked then [.documentEnd] else []) ++ [.streamEnd] := by
  let text := '-' :: '-' :: '-' :: '\n' :: (p ++ ending marked)
  let origin : Mark := ⟨0, 0, 0⟩
  let first := idle text origin [.streamStart] (-1) [] true
  let below := origin.over ['-', '-', '-', '\n']
  let beyond := below.over p
  have low : (-1 : Int) < 0 := by decide
  have arrives : (Lexer.start text).arrive = .ok (first.lexer [⟨.streamStart, origin, origin⟩] 0) :=
    arrive_fresh (s := first) (Leading.visible ⟨by decide, by decide, by decide⟩ _) nofun
      (.inr (Int.le_of_lt low))
  have held : Held first.kinds [⟨.streamStart, origin, origin⟩] 0 := ⟨Nat.zero_le _, rfl⟩
  have within : first.load ≤ 4 * text.length + 1 := by
    simp only [load, first, idle, List.length_cons, List.length_nil]
    omega
  have next := next_documentStart (rows.visible (ending marked))
  have own := rows.leads [.streamStart, .documentStart] (m := below) (i := -1) (o := []) rfl
    (.fresh low) (outside_ending marked)
  let kinds := [.streamStart, .documentStart] ++ (opening true start ++ ks)
  have column : beyond.column = 0 := rows.closed.column below
  have leads : Leads first (idle (ending marked) beyond kinds 0 [-1] true) := by
    rw [← settled_idle (visible_ending marked) (by omega)]
    exact .head next own
  cases marked with
  | false =>
    have ends : (idle [] beyond kinds 0 [-1] true).Ends [.blockEnd, .streamEnd] := by
      refine ends_of_close rfl rfl rfl ?_
      rw [close_of_lt rfl low, close_of_le (Int.le_refl (-1))]
      simp [idle]
    obtain ⟨ts, all, same⟩ := tokens_of_leads arrives held leads ends within (Nat.le_refl _)
      (Nat.le_refl 2)
    exact ⟨ts, all, by simpa [kinds, opening, idle] using same⟩
  | true =>
    have closes : Next (idle _ beyond kinds 0 [-1] true) _ := next_documentEnd column
    have ends : (idle [] (beyond.over (ending true)) (kinds ++ [.blockEnd, .documentEnd]) (-1) []
        true).Ends [.streamEnd] := by
      refine ends_of_close rfl rfl rfl ?_
      rw [close_of_le (Int.le_refl (-1))]
    obtain ⟨ts, all, same⟩ := tokens_of_leads arrives held (leads.tail closes) ends within
      (Nat.le_refl _) (Nat.le_refl 1)
    exact ⟨ts, all, by simpa [kinds, opening, idle] using same⟩

end documents

end OverlayBuild.Yaml

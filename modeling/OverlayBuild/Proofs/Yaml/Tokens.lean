import OverlayBuild.Proofs.Yaml.Dispatch

/-! The steps of the lexer from one place of a block to the next: behind a mark, past a value or a
key on one line, and past empty brackets. -/
namespace OverlayBuild.Yaml

/-- What may stand after a node in a collection at the column: nothing, or a token on a line of
its own that is indented no deeper. -/
def Outside (i : Int) (rest : List Char) : Prop :=
  ∃ k r, rest = List.replicate k ' ' ++ r ∧ Visible r ∧ (r = [] → k = 0) ∧ (k : Int) ≤ i

/-- What is written after a scalar; a literal block has a line break of its own. -/
def lineEnd (style : ScalarStyle) : List Char := if style = .literal then [] else ['\n']

section outside

variable {i : Int} {rest : List Char} {n : Nat}

theorem Visible.solid {r : List Char} (visible : Visible r) (filled : r ≠ []) : Solid r := by
  obtain ⟨c, r, rfl⟩ := List.exists_cons_of_ne_nil filled
  obtain ⟨verbatim, gap, -⟩ := visible c rfl
  simp only [isGap, Bool.or_eq_false_iff, beq_eq_false_iff_ne] at gap
  exact ⟨c, r, rfl, verbatim, gap⟩

theorem Outside.lineStart (after : Outside i rest) : ∃ k, LineStart k rest ∧ (k : Int) ≤ i := by
  obtain ⟨k, r, rfl, visible, bare, within⟩ := after
  by_cases filled : r = []
  · obtain rfl := bare filled
    subst filled
    exact ⟨0, .nothing, within⟩
  · exact ⟨k, .solid k (visible.solid filled), within⟩

theorem Outside.landing (after : Outside i rest) (deeper : i < n) :
    ∃ sp more, rest = sp ++ more ∧ Landing n sp more ∧ sp.length < n := by
  obtain ⟨k, r, rfl, visible, -, within⟩ := after
  refine ⟨_, r, rfl, ⟨fun _ => List.eq_of_mem_replicate, ?_, .inr ?_, visible.not_break⟩, ?_⟩
  · rw [List.length_replicate]
    omega
  · intro space
    exact absurd (visible.not_space ' ' space) (by decide)
  · rw [List.length_replicate]
    omega

theorem Outside.settles (after : Outside i rest) : Settles rest := by
  obtain ⟨k, r, rfl, visible, -, -⟩ := after
  rw [settles_append fun c mem => by rw [List.eq_of_mem_replicate mem]; decide]
  exact visible.settles

end outside

namespace Spot

section values

variable {s : Spot} {indent : Nat} {text written rest : List Char} {style : ScalarStyle} {m : Mark}
  {ks : List Token.Kind} {i : Int} {o : List Int} {allowed : Bool}

/-- Nothing is told of the gap before the next token. -/
theorem settled_eq_idle {raw : Spot} {gap more : List Char} (split : rest = gap ++ more)
    (spaces : ∀ c ∈ gap, isGap c = true)
    (same : { raw with keys := [] } = idle more (m.over gap) ks i o true) :
    raw.settled = (idle rest m ks i o true).settled := by
  have passes := settled_gap (s := idle rest m ks i o true) spaces split
  have own : raw.settled = settled { raw with keys := [] } := rfl
  rw [passes, own, same]
  simp [idle]

/-- Nor is anything told of the break at the end of a line. -/
theorem settled_feed {raw : Spot}
    (same : { raw with keys := [] } = idle ('\n' :: rest) m ks i o false) :
    raw.settled = (idle rest (m.over ['\n']) ks i o true).settled := by
  have own : raw.settled = settled { raw with keys := [] } := rfl
  rw [own, same, settled_gap (s := idle ('\n' :: rest) m ks i o false) isGap_feed rfl]
  simp [idle]

theorem noted_idle {s : Spot} (deeper : s.indent < s.mark.column) {line : Nat}
    (later : s.mark.line < line) :
    ∀ k ∈ s.noted.keys, k.2.required = false ∧ k.2.mark.line < line := by
  intro k mem
  have other : s.indent ≠ s.mark.column := by omega
  rw [noted_keys mem]
  simp [other, later]

theorem next_plain (form : Spread indent text written) (starts : startsWithIndicator text = false)
    (parent : (indent : Int) = i + 2) (inside : 0 ≤ i) (deeper : i < m.column)
    (after : Outside i rest) :
    Next (idle (written ++ '\n' :: rest) m ks i o allowed)
      (idle rest (m.over (written ++ ['\n'])) (ks ++ [.scalar (String.ofList text) .plain])
        i o true).settled := by
  obtain ⟨k, line, shallow⟩ := after.lineStart
  obtain ⟨gap, more, rfl, spaces, read⟩ := form.readPlain_break (i := i + 1) (m := m) (by omega)
    (by omega) (by omega) line (by omega)
  have gaps : ∀ c ∈ gap, isGap c = true := fun c mem => by rw [spaces c mem]; decide
  let raw := (idle (written ++ '\n' :: (gap ++ more)) m ks i o allowed).noted.scalar more
    (m.over (written ++ '\n' :: gap)) text .plain true
  have same : raw.settled = (idle (gap ++ more) (m.over (written ++ ['\n']))
      (ks ++ [.scalar (String.ofList text) .plain]) i o true).settled :=
    settled_eq_idle rfl gaps (by simp [raw, scalar, noted, idle])
  rw [← same]
  have settles : Settles more := (settles_append gaps).mp after.settles
  refine .of_settled rfl settles ?_ ?_ ?_ ?_ fun w n held _ => ?_
  · refine noted_idle deeper (Nat.lt_of_lt_of_le (m.line_lt_over ?_ ?_) (Mark.line_le_over _ ?_))
    · simp [form.clear, clear_gap gaps, isVerbatim]
    · simp
    · exact clear_gap fun _ => List.mem_takeWhile_imp
  · simp only [raw, scalar, noted, idle, List.length_append, List.length_cons]
    omega
  · simp [raw, scalar, noted, idle]
  · simp only [raw, scalar, noted, idle, load, List.length_append, List.length_cons, List.length_nil]
    omega
  · obtain ⟨w', held', reads⟩ := reads_plain form starts (.inl rfl) rfl rfl rfl read rfl held
    exact ⟨w', held', List.take_append_of_le_length held.within, reads⟩

theorem next_quoted {double : Bool} (form : Enquoted double indent text written)
    (lines : 0 < indent) (deeper : i < m.column) (after : Outside i rest) :
    Next (idle (quoteOf double :: (written ++ quoteOf double :: '\n' :: rest)) m ks i o allowed)
      (idle rest (m.over (quoteOf double :: (written ++ [quoteOf double, '\n'])))
        (ks ++ [.scalar (String.ofList text) (if double then .double else .single)])
        i o true).settled := by
  have quote : isVerbatim (quoteOf double) = true := by cases double <;> decide
  let raw := (idle (quoteOf double :: (written ++ quoteOf double :: '\n' :: rest)) m ks i o
    allowed).noted.scalar ('\n' :: rest) (m.over (quoteOf double :: (written ++ [quoteOf double]))) text
      (if double then .double else .single) false
  have same : raw.settled =
      (idle rest ((m.over (quoteOf double :: (written ++ [quoteOf double]))).over ['\n'])
        (ks ++ [.scalar (String.ofList text) (if double then .double else .single)])
        i o true).settled :=
    settled_feed (by simp [raw, scalar, noted, idle])
  have place : (m.over (quoteOf double :: (written ++ [quoteOf double]))).over ['\n'] =
      m.over (quoteOf double :: (written ++ [quoteOf double, '\n'])) := by simp
  rw [← place, ← same]
  have settles : Settles ('\n' :: rest) :=
    (settles_append isGap_feed).mpr after.settles
  refine .of_settled rfl settles ?_ ?_ ?_ ?_ fun w n held _ => ?_
  · refine noted_idle deeper (Nat.lt_of_le_of_lt (Mark.line_le_over m ?_) (Mark.line_lt_over _ ?_ ?_))
    · simp [form.clear, quote]
    · exact clear_gap fun _ => List.mem_takeWhile_imp
    · simp [raw, scalar, isGap]
  · simp only [raw, scalar, noted, idle, List.length_append, List.length_cons]
    omega
  · simp [raw, scalar, noted, idle]
  · simp only [raw, scalar, noted, idle, load, List.length_append, List.length_cons, List.length_nil]
    omega
  · obtain ⟨w', held', reads⟩ := reads_quoted form lines (by simp) rfl rfl held
    exact ⟨w', held', List.take_append_of_le_length held.within, reads⟩

theorem next_literal (clear : Clear text) (filled : text ≠ []) (parent : (indent : Int) = i + 2)
    (inside : 0 ≤ i) (after : Outside i rest) :
    Next (idle (literalBlock indent text ++ rest) m ks i o allowed)
      (idle rest (m.over (literalBlock indent text)) (ks ++ [.scalar (String.ofList text) .literal])
        i o true).settled := by
  obtain ⟨gap, more, rfl, landing, shallow⟩ := after.landing (n := indent) (by omega)
  obtain ⟨stop, read⟩ := readBlock_literal (m := m) inside parent landing shallow clear filled
  have gaps : ∀ c ∈ gap, isGap c = true := fun c mem => by rw [landing.spaces c mem]; decide
  obtain ⟨body, block⟩ : ∃ body, literalBlock indent text = '|' :: body := ⟨_, rfl⟩
  rw [block] at read ⊢
  let raw := (idle (('|' :: body) ++ (gap ++ more)) m ks i o allowed).scalar more
    (m.over (('|' :: body) ++ gap)) text .literal true
  have same : raw.settled = (idle (gap ++ more) (m.over ('|' :: body))
      (ks ++ [.scalar (String.ofList text) .literal]) i o true).settled :=
    settled_eq_idle rfl gaps (by simp [raw, scalar, idle])
  rw [← same]
  have settles : Settles more := (settles_append gaps).mp after.settles
  refine .of_settled rfl settles (by simp [raw, scalar, idle]) ?_ ?_ ?_ fun w n held _ => ?_
  · simp only [raw, scalar, idle, List.length_append, List.length_cons]
    omega
  · simp [raw, scalar, idle]
  · simp only [raw, scalar, idle, load, List.length_append, List.length_cons, List.length_nil]
    omega
  · obtain ⟨w', held', reads⟩ := reads_literal
      (s := idle (('|' :: body) ++ (gap ++ more)) m ks i o allowed) rfl rfl rfl read held
    exact ⟨w', held', List.take_append_of_le_length held.within, reads⟩

/-- A scalar that is a value is read up to what stands after it. -/
theorem next_value (form : Styled indent text style written) (parent : (indent : Int) = i + 2)
    (inside : 0 ≤ i) (deeper : i < m.column) (after : Outside i rest) :
    Next (idle (written ++ (lineEnd style ++ rest)) m ks i o allowed)
      (idle rest (m.over (written ++ lineEnd style)) (ks ++ [.scalar (String.ofList text) style])
        i o true).settled := by
  cases form with
  | plain starts form => exact next_plain form starts parent inside deeper after
  | quoted double form =>
    have lines : 0 < indent := by omega
    have ends : lineEnd (if double then .double else .single) = ['\n'] := by cases double <;> rfl
    have next : Next (idle _ m ks i o allowed) _ := next_quoted form lines deeper after
    rw [ends]
    simpa using next
  | literal clear filled =>
    have ends : lineEnd .literal = [] := rfl
    rw [ends, List.nil_append, List.append_nil]
    exact next_literal clear filled parent inside after

/-! Keys on one line. -/

/-- The scalar before a colon, at a place where a key may start. -/
theorem next_keyScalar (form : Styled indent text style written) (block : style ≠ .literal)
    (deep : i + 1 ≤ indent) (lines : 0 < indent) (within : i ≤ m.column)
    (line : '\n' ∉ written) (short : written.length ≤ 1024)
    (blank : isBlankOrEnd (rest.headD sentinel) = true) :
    Next (idle (written ++ ':' :: rest) m ks i o true)
      ((idle (written ++ ':' :: rest) m ks i o true).noted.scalar (':' :: rest) (m.over written)
        text style false) := by
  have clear := form.clear
  have place := Mark.over_line (m := m) clear line
  have filled : 0 < written.length := by
    cases form with
    | plain _ form =>
      obtain ⟨w, more, own, rfl⟩ := form.starts
      have := List.length_pos_iff.mpr own.filled
      rw [List.length_append]
      omega
    | quoted => simp
    | literal => exact absurd rfl block
  refine .of_fresh ?_ ?_ ?_ (.inr ?_) ?_ ?_ rfl
    fun w n held _ => ?_
  · exact fun c mem => by
      obtain rfl := Option.some.inj mem
      decide
  · intro k mem
    obtain rfl := List.mem_singleton.mp mem
    simp [scalar, noted, idle, place, short]
  · intro k mem
    obtain rfl := List.mem_singleton.mp mem
    exact Nat.le_refl _
  · simp only [scalar, noted, idle, place]
    omega
  · simp only [scalar, noted, idle, List.length_append, List.length_cons]
    omega
  · simp only [scalar, noted, idle, load, List.length_append, List.length_cons, List.length_nil]
    omega
  · cases form with
    | plain starts form =>
      have read := form.readPlain_colon (i := i + 1) (m := m) deep lines (by omega) blank
      exact reads_plain (s := idle (written ++ ':' :: rest) m ks i o true) form starts
        (.inr ⟨rest, rfl, blank⟩) rfl rfl rfl read rfl held
    | quoted double form =>
      exact reads_quoted (s := idle _ m ks i o true) form lines (by simp) rfl (by simp [idle]) held
    | literal => exact absurd rfl block

/-- The indentation inside a block collection at a column, and whether it is opened there. -/
inductive Enters (i : Int) (o : List Int) (column : Nat) : Bool → Int → List Int → Prop
  | fresh (deeper : i < column) : Enters i o column true column (i :: o)
  | same (level : i = column) : Enters i o column false i o

def opening (fresh : Bool) (start : Token.Kind) : List Token.Kind := if fresh then [start] else []

variable {fresh : Bool} {i' : Int} {o' : List Int} {n : Nat} {w : List Token}

theorem next_mark {c : Char} {start kind : Token.Kind} (mark : BlockMark c start kind)
    (enters : Enters i o m.column fresh i' o') (blank : isBlankOrEnd (rest.headD sentinel) = true)
    (settles : Settles rest) :
    Next (idle (c :: rest) m ks i o true)
      (idle rest (m.over [c]) (ks ++ (opening fresh start ++ [kind])) i' o' true).settled := by
  have next := mark.next (s := idle (c :: rest) m ks i o true) rfl blank rfl rfl rfl settles
  cases enters with
  | fresh deeper =>
    rw [opened_of_lt deeper] at next
    simpa [past, idle, opening] using next
  | same level =>
    rw [opened_of_eq level] at next
    simpa [past, idle, opening] using next

theorem insertAt_lexer {k : Nat} (after : n ≤ k) (within : k ≤ s.kinds.length)
    (held : Held s.kinds w n) (kind : Token.Kind) (a b : Mark) :
    ∃ w', Held (s.kinds.take k ++ kind :: s.kinds.drop k) w' n ∧
      (s.lexer w n).insertAt k ⟨kind, a, b⟩ =
        ({ s with kinds := s.kinds.take k ++ kind :: s.kinds.drop k } : Spot).lexer w' n :=
  ⟨_, held.insert after within kind a b, rfl⟩

theorem confirmKey_lexer {kind : Token.Kind} {start : Mark} {required : Bool}
    (enters : Enters i o start.column fresh i' o') (kinds : s.kinds = ks ++ [kind])
    (flow : s.flow = 0) (column : s.indent = i) (outer : s.outer = o)
    (keys : s.keys = [(0, ⟨ks.length, required, start⟩)]) (keeps : n ≤ ks.length)
    (held : Held s.kinds w n) :
    ∃ w', Held (ks ++ (opening fresh .blockMappingStart ++ [.key, kind])) w' n ∧
      (s.lexer w n).confirmKey ⟨ks.length, required, start⟩ =
        ({ s with
          kinds := ks ++ (opening fresh .blockMappingStart ++ [.key, kind])
          indent := i', outer := o', keys := [] } : Spot).lexer w' n := by
  have forgotten : (s.lexer w n).forgetKey = ({ s with keys := [] } : Spot).lexer w n := by
    simp [Lexer.forgetKey, lexer, keys, flow]
  obtain ⟨w₁, held₁, keyed⟩ := insertAt_lexer (s := { s with keys := [] }) keeps
    (by simp [kinds]) held .key start start
  have block : (({ s with
      keys := [], kinds := s.kinds.take ks.length ++ .key :: s.kinds.drop ks.length } : Spot).lexer
        w₁ n).inFlow = false := by simp [Lexer.inFlow, lexer, flow]
  simp only [Lexer.confirmKey, forgotten, keyed, block, Bool.false_eq_true, if_false]
  simp only [kinds, List.take_left, List.drop_left] at held₁ ⊢
  cases enters with
  | fresh deeper =>
    obtain ⟨w₂, held₂, started⟩ := insertAt_lexer (s := { s with
        keys := [], kinds := ks ++ [.key, kind], indent := start.column, outer := i :: o })
      keeps (by simp) held₁ .blockMappingStart start start
    simp only [List.take_left, List.drop_left] at held₂ started
    have entered : Lexer.indentTo (Spot.lexer { s with keys := [], kinds := ks ++ [.key, kind] } w₁ n)
        start.column = (true, Spot.lexer { s with
          keys := [], kinds := ks ++ [.key, kind], indent := start.column, outer := i :: o } w₁ n) := by
      rw [Lexer.indentTo, if_pos (by simpa [lexer, column] using deeper)]
      simp [lexer, column, outer]
    refine ⟨w₂, by simpa [opening] using held₂, ?_⟩
    rw [entered]
    simpa [opening] using started
  | same level =>
    have stays : Lexer.indentTo (Spot.lexer { s with keys := [], kinds := ks ++ [.key, kind] } w₁ n)
        start.column = (false, Spot.lexer { s with keys := [], kinds := ks ++ [.key, kind] } w₁ n) := by
      rw [Lexer.indentTo, if_neg (by simp [lexer, column, level])]
    refine ⟨w₁, by simpa [opening] using held₁, ?_⟩
    rw [stays]
    simp [opening, column, outer]

/-- A key on one line is read with its colon. -/
theorem leads_key (form : Styled indent text style written) (block : style ≠ .literal)
    (deep : i + 1 ≤ indent) (lines : 0 < indent) (enters : Enters i o m.column fresh i' o')
    (line : '\n' ∉ written) (short : written.length ≤ 1024)
    (blank : isBlankOrEnd (rest.headD sentinel) = true) (settles : Settles rest) :
    Leads (idle (written ++ ':' :: rest) m ks i o true)
      (idle rest (m.over (written ++ [':']))
        (ks ++ (opening fresh .blockMappingStart ++ [.key, .scalar (String.ofList text) style, .value]))
        i' o' false).settled := by
  have within : i ≤ m.column := by cases enters <;> omega
  refine .head (next_keyScalar form block deep lines within line short blank) (.single ?_)
  refine .of_settled rfl settles (by simp [idle]) (by simp [idle, scalar]) ?_ ?_ fun w n held keeps => ?_
  · simp [idle, noted, scalar]
  · cases enters <;> simp [idle, noted, scalar, opening, load] <;> omega
  · have early : n ≤ ks.length := keeps _ (List.mem_singleton_self _)
    obtain ⟨w₁, held₁, confirmed⟩ := confirmKey_lexer enters rfl rfl rfl rfl rfl early held
    let after := idle (':' :: rest) (m.over written)
      (ks ++ (opening fresh .blockMappingStart ++ [.key, .scalar (String.ofList text) style])) i' o' false
    have held₁ : Held after.kinds w₁ n := held₁
    obtain ⟨w₂, held₂, taken⟩ :=
      take_lexer [':'] rest false rfl (by simp; decide) held₁ .value
    refine ⟨w₂, ?_, ?_, ?_⟩
    · simpa [past, after, idle] using held₂
    · simp only [idle, scalar, noted]
      rw [List.take_append_of_le_length early, List.take_append_of_le_length early]
    · have own : (lexer ((idle (written ++ ':' :: rest) m ks i o true).noted.scalar (':' :: rest)
          (m.over written) text style false) w n).key? =
          some ⟨ks.length, (0 == 0 && i == (m.column : Int)), m⟩ := rfl
      rw [dispatch_mappingValue rfl blank, Lexer.mappingValue, own]
      refine congrArg Except.ok (Eq.trans ?_ (taken.trans ?_))
      · exact congrArg (fun x : Lexer => (x.allowKey false).take 1 .value) confirmed
      · simp [past, after, idle]

end values

end Spot

/-! Empty collections. -/

inductive Brackets : Char → Char → Token.Kind → Token.Kind → Prop
  | sequence : Brackets '[' ']' .flowSequenceStart .flowSequenceEnd
  | mapping : Brackets '\x7b' '\x7d' .flowMappingStart .flowMappingEnd

section brackets

variable {c d : Char} {start stop : Token.Kind} {rest : List Char} {m : Mark} {x : Lexer} {i : Int}
  {ks : List Token.Kind} {o : List Int} {allowed : Bool}

theorem Brackets.dispatch_open (pair : Brackets c d start stop) (here : x.cursor = ⟨c :: rest, m⟩) :
    x.dispatch = x.openBracket start := by
  have peek : x.cursor.peek = c := by rw [here]; rfl
  have dashes := atMarker_of_ne (q := '-') here (by cases pair <;> decide)
  have dots := atMarker_of_ne (q := '.') here (by cases pair <;> decide)
  rw [Lexer.dispatch]
  cases pair <;> simp [peek, dashes, dots, sentinel]

theorem Brackets.dispatch_close (pair : Brackets c d start stop) (here : x.cursor = ⟨d :: rest, m⟩) :
    x.dispatch = x.closeBracket stop := by
  have peek : x.cursor.peek = d := by rw [here]; rfl
  have dashes := atMarker_of_ne (q := '-') here (by cases pair <;> decide)
  have dots := atMarker_of_ne (q := '.') here (by cases pair <;> decide)
  rw [Lexer.dispatch]
  cases pair <;> simp [peek, dashes, dots, sentinel]

namespace Spot

theorem next_bracket (pair : Brackets c d start stop) :
    Next (idle (c :: d :: rest) m ks i o allowed)
      { (idle (c :: d :: rest) m ks i o allowed).noted with
        rest := d :: rest, mark := m.over [c], kinds := ks ++ [start], flow := 1, allowed := true } := by
  have verbatim : isVerbatim c = true := by cases pair <;> decide
  have clear : Clear [c] := by simpa using verbatim
  have place := Mark.over_line (m := m) clear (by cases pair <;> decide)
  refine .of_fresh ?_ ?_ ?_ (.inl Nat.one_ne_zero) ?_ ?_ rfl fun w n held _ => ?_
  · intro e mem
    obtain rfl := Option.some.inj mem
    cases pair <;> decide
  · intro k mem
    rw [noted_keys mem, place]
    simp [idle]
  · intro k mem
    rw [noted_keys mem]
  · simp [idle]
  · simp [idle, noted, load]
    omega
  · obtain ⟨w', held', taken⟩ := take_lexer (s := { (idle (c :: d :: rest) m ks i o allowed).noted with
      flow := 1 }) [c] (d :: rest) true rfl clear held start
    refine ⟨w', held', ?_⟩
    rw [pair.dispatch_open rfl, Lexer.openBracket, noteKey_lexer rfl held]
    exact congrArg Except.ok taken

/-- An empty collection is read up to what stands after its line. -/
theorem leads_empty (pair : Brackets c d start stop) (deeper : i < m.column) (after : Outside i rest) :
    Leads (idle (c :: d :: '\n' :: rest) m ks i o allowed)
      (idle rest (m.over [c, d, '\n']) (ks ++ [start, stop]) i o true).settled := by
  refine .head (next_bracket pair) (.single ?_)
  have clear : isVerbatim c = true ∧ isVerbatim d = true := by cases pair <;> decide
  let raw : Spot := { (idle (c :: d :: '\n' :: rest) m ks i o allowed).noted with
    rest := '\n' :: rest, mark := m.over [c, d], kinds := ks ++ [start, stop], allowed := false }
  have same : raw.settled =
      (idle rest ((m.over [c, d]).over ['\n']) (ks ++ [start, stop]) i o true).settled :=
    settled_feed (by simp [raw, noted, idle])
  have place : (m.over [c, d]).over ['\n'] = m.over [c, d, '\n'] := by simp
  rw [← place, ← same]
  have settles : Settles ('\n' :: rest) :=
    (settles_append isGap_feed).mpr after.settles
  refine .of_settled rfl settles ?_ ?_ ?_ ?_ fun w n held _ => ?_
  · refine noted_idle deeper (Nat.lt_of_le_of_lt (Mark.line_le_over m ?_) (Mark.line_lt_over _ ?_ ?_))
    · simp [clear]
    · exact clear_gap fun _ => List.mem_takeWhile_imp
    · simp [raw, isGap]
  · simp [raw]
  · simp [raw]
  · simp only [raw, noted, idle, load, List.length_append, List.length_cons, List.length_nil]
    omega
  · have outside : Held (ks ++ [start]) w n := held
    obtain ⟨w', held', taken⟩ := take_lexer (s := {
      (idle (c :: d :: '\n' :: rest) m ks i o allowed).noted with
        rest := d :: '\n' :: rest, mark := m.over [c], kinds := ks ++ [start] })
      [d] ('\n' :: rest) false rfl (by simpa using clear.2) outside stop
    have unkeyed (x : Lexer) (keys : x.keys = (idle (c :: d :: '\n' :: rest) m ks i o allowed).noted.keys)
        (level : x.flowLevel = 1) : x.dropKey = .ok x := by
      have none : x.key? = none := by
        rw [Lexer.key?, List.lookup_eq_none_iff, keys, level]
        exact fun k mem => by rw [noted_keys mem]; rfl
      rw [Lexer.dropKey, none]
    refine ⟨w', ?_, ?_, ?_⟩
    · simpa [past, raw] using held'
    · have all : ks ++ [start, stop] = (ks ++ [start]) ++ [stop] := by simp
      simp only [raw, all]
      exact List.take_append_of_le_length outside.within
    · rw [pair.dispatch_close rfl, Lexer.closeBracket, unkeyed _ rfl rfl]
      refine congrArg Except.ok (Eq.trans ?_ (taken.trans ?_))
      · rfl
      · simp [past, raw]

end Spot

end brackets

end OverlayBuild.Yaml

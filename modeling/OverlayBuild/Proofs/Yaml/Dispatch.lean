import Mathlib.Data.List.TakeWhile
import OverlayBuild.Proofs.Yaml.Settled
import OverlayBuild.Proofs.Yaml.Styled

/-! What the lexer reads in one step: the mark of an entry, a key or a value, or a scalar in one of
its styles. -/
namespace OverlayBuild.Yaml

namespace Spot

variable {s t raw : Spot} {sp r rest : List Char} {w : List Token} {n : Nat} {m : Mark}
  {ks more : List Token.Kind} {i : Int} {o : List Int} {allowed : Bool} {kind : Token.Kind}

theorem kinds_settled (s : Spot) : ∃ k, s.settled.kinds = s.kinds ++ List.replicate k .blockEnd :=
  ⟨_, rfl⟩

theorem rest_settled : s.settled.rest.length ≤ s.rest.length :=
  (List.dropWhile_suffix isGap (l := s.rest)).length_le

theorem Next.of_settled (flow : raw.flow = 0) (settles : Settles raw.rest)
    (idle : ∀ k ∈ raw.keys, k.2.required = false ∧
      k.2.mark.line < (raw.mark.over (raw.rest.takeWhile isGap)).line)
    (shorter : raw.rest.length < s.rest.length) (grows : s.kinds.length ≤ raw.kinds.length)
    (load : raw.load ≤ s.load)
    (step : ∀ w n, Held s.kinds w n → s.Keeps n → ∃ w', Held raw.kinds w' n ∧
      raw.kinds.take n = s.kinds.take n ∧ (s.lexer w n).dispatch = .ok (raw.lexer w' n)) :
    Next s raw.settled where
  shorter := Nat.lt_of_le_of_lt rest_settled shorter
  grows := by
    obtain ⟨k, kinds⟩ := raw.kinds_settled
    rw [kinds, List.length_append]
    omega
  load := Nat.le_trans load_settled load
  step w n held keeps := by
    obtain ⟨w', all, same, read⟩ := step w n held keeps
    obtain ⟨w'', settled, arrives⟩ := arrive_settled flow (List.takeWhile_append_dropWhile).symm
      (fun _ => List.mem_takeWhile_imp) settles
      (fun k mem => ⟨(idle k mem).1, Nat.ne_of_lt (idle k mem).2⟩) all
    obtain ⟨k, kinds⟩ := raw.kinds_settled
    refine ⟨w'', raw.lexer w' n, settled, ?_, ?_, read, rfl, arrives⟩
    · exact fun k mem => absurd mem (List.not_mem_nil)
    · rw [kinds, List.take_append_of_le_length all.within, same]

theorem Next.of_fresh (visible : Visible raw.rest)
    (fresh : ∀ k ∈ raw.keys, k.2.mark.line = raw.mark.line ∧ raw.mark.index - k.2.mark.index ≤ 1024)
    (numbers : ∀ k ∈ raw.keys, s.kinds.length ≤ k.2.number)
    (within : raw.flow ≠ 0 ∨ raw.indent ≤ raw.mark.column)
    (shorter : raw.rest.length < s.rest.length) (load : raw.load ≤ s.load)
    (pushed : raw.kinds = s.kinds ++ more)
    (step : ∀ w n, Held s.kinds w n → s.Keeps n → ∃ w', Held raw.kinds w' n ∧
      (s.lexer w n).dispatch = .ok (raw.lexer w' n)) :
    Next s raw where
  shorter := shorter
  grows := by
    rw [pushed, List.length_append]
    exact Nat.le_add_right _ _
  load := load
  step w n held keeps := by
    obtain ⟨w', all, read⟩ := step w n held keeps
    refine ⟨w', raw.lexer w' n, all, ?_, ?_, read, rfl, arrive_fresh visible fresh within⟩
    · exact fun k mem => Nat.le_trans held.within (numbers k mem)
    · rw [pushed, List.take_append_of_le_length held.within]

/-- A place outside of brackets at which no key waits for its colon. -/
def idle (rest : List Char) (m : Mark) (ks : List Token.Kind) (i : Int) (o : List Int)
    (allowed : Bool) : Spot :=
  ⟨rest, m, ks, i, o, 0, allowed, []⟩

/-- The place in a block collection of the given kind, which is opened if the column is new. -/
def opened (s : Spot) (kind : Token.Kind) : Spot :=
  if s.indent < s.mark.column then
    { s with kinds := s.kinds ++ [kind], indent := s.mark.column, outer := s.indent :: s.outer }
  else s

theorem openBlock_lexer (held : Held s.kinds w n) (kind : Token.Kind) :
    ∃ w', Held (s.opened kind).kinds w' n ∧
      (s.lexer w n).openBlock kind = (s.opened kind).lexer w' n := by
  rw [Lexer.openBlock, Lexer.indentTo, opened]
  by_cases deeper : s.indent < s.mark.column
  · have own : (s.lexer w n).indent < (s.lexer w n).column := deeper
    rw [if_pos own, if_pos deeper]
    exact ⟨_, held.push kind s.mark s.mark, rfl⟩
  · have own : ¬ (s.lexer w n).indent < (s.lexer w n).column := deeper
    rw [if_neg own, if_neg deeper]
    exact ⟨_, held, rfl⟩

theorem opened_of_lt (deeper : s.indent < s.mark.column) :
    s.opened kind =
      { s with kinds := s.kinds ++ [kind], indent := s.mark.column, outer := s.indent :: s.outer } :=
  if_pos deeper

theorem opened_of_eq (same : s.indent = s.mark.column) : s.opened kind = s :=
  if_neg (by omega)

theorem opened_spec (s : Spot) (kind : Token.Kind) :
    (s.opened kind).rest = s.rest ∧ (s.opened kind).mark = s.mark ∧ (s.opened kind).flow = s.flow ∧
      (s.opened kind).keys = s.keys ∧ (s.opened kind).load ≤ s.load + 2 ∧
      ∃ ks, (s.opened kind).kinds = s.kinds ++ ks := by
  rw [opened]
  split
  · refine ⟨rfl, rfl, rfl, rfl, ?_, _, rfl⟩
    simp only [load, List.length_append, List.length_cons, List.length_nil]
    omega
  · exact ⟨rfl, rfl, rfl, rfl, Nat.le_add_right _ _, [], (List.append_nil _).symm⟩

/-- The place after a piece of text that makes a token by itself. -/
def past (s : Spot) (piece rest : List Char) (kind : Token.Kind) (allowed : Bool) : Spot :=
  { s with
    rest := rest
    mark := s.mark.over piece
    kinds := s.kinds ++ [kind]
    allowed := allowed }

theorem take_lexer (piece rest : List Char) (allowed : Bool) (here : s.rest = piece ++ rest)
    (clear : Clear piece) (held : Held s.kinds w n) (kind : Token.Kind) :
    ∃ w', Held (s.past piece rest kind allowed).kinds w' n ∧
      ((s.lexer w n).allowKey allowed).take piece.length kind =
        (s.past piece rest kind allowed).lexer w' n := by
  refine ⟨_, held.push kind s.mark (s.mark.over piece), ?_⟩
  have skipped : (Cursor.mk s.rest s.mark).skip piece.length = ⟨rest, s.mark.over piece⟩ := by
    rw [here]
    exact Cursor.skip_append clear
  simp only [Lexer.take, Lexer.allowKey, lexer, skipped]
  rfl

theorem dropKey_lexer (bare : s.keys = []) (w : List Token) (n : Nat) :
    (s.lexer w n).dropKey = .ok (s.lexer w n) := by
  have none : (s.lexer w n).key? = none := by
    rw [Lexer.key?, lexer]
    simp [bare]
  rw [Lexer.dropKey, none]

/-- No marker of a document starts with a mark of a block. -/
theorem atMarker_of_blank {c : Char} {x : Lexer} (here : x.cursor = ⟨c :: rest, m⟩)
    (blank : isBlankOrEnd (rest.headD sentinel) = true) (mark : Char)
    (visible : isBlankOrEnd mark = false) :
    x.cursor.atMarker mark = false := by
  have other : (rest.headD sentinel == mark) = false :=
    beq_eq_false_iff_ne.mpr fun same => by
      rw [same, visible] at blank
      contradiction
  rw [here, Cursor.atMarker, peekAt_one, other]
  simp

theorem dispatch_blockEntry {x : Lexer} (here : x.cursor = ⟨'-' :: rest, m⟩)
    (blank : isBlankOrEnd (rest.headD sentinel) = true) : x.dispatch = x.blockEntry := by
  have first : x.cursor.peek = '-' := by rw [here]; rfl
  have next : isBlankOrEnd (x.cursor.peekAt 1) = true := by rwa [here, peekAt_one]
  have dashes := atMarker_of_blank here blank '-' (by decide)
  have dots := atMarker_of_blank here blank '.' (by decide)
  have inside : '-' ≠ sentinel := by decide
  simp [Lexer.dispatch, first, next, dashes, dots, inside]

theorem dispatch_explicitKey {x : Lexer} (here : x.cursor = ⟨'?' :: rest, m⟩)
    (blank : isBlankOrEnd (rest.headD sentinel) = true) : x.dispatch = x.explicitKey := by
  have first : x.cursor.peek = '?' := by rw [here]; rfl
  have next : isBlankOrEnd (x.cursor.peekAt 1) = true := by rwa [here, peekAt_one]
  have dashes := atMarker_of_blank here blank '-' (by decide)
  have dots := atMarker_of_blank here blank '.' (by decide)
  have inside : '?' ≠ sentinel := by decide
  simp [Lexer.dispatch, first, next, dashes, dots, inside]

theorem dispatch_mappingValue {x : Lexer} (here : x.cursor = ⟨':' :: rest, m⟩)
    (blank : isBlankOrEnd (rest.headD sentinel) = true) : x.dispatch = x.mappingValue := by
  have first : x.cursor.peek = ':' := by rw [here]; rfl
  have next : isBlankOrEnd (x.cursor.peekAt 1) = true := by rwa [here, peekAt_one]
  have dashes := atMarker_of_blank here blank '-' (by decide)
  have dots := atMarker_of_blank here blank '.' (by decide)
  have inside : ':' ≠ sentinel := by decide
  simp [Lexer.dispatch, first, next, dashes, dots, inside]

inductive BlockMark : Char → Token.Kind → Token.Kind → Prop
  | item : BlockMark '-' .blockSequenceStart .blockEntry
  | key : BlockMark '?' .blockMappingStart .key
  | value : BlockMark ':' .blockMappingStart .value

theorem BlockMark.reads {c : Char} {start : Token.Kind} (mark : BlockMark c start kind)
    (here : s.rest = c :: rest) (blank : isBlankOrEnd (rest.headD sentinel) = true)
    (flow : s.flow = 0) (bare : s.keys = []) (allowed : s.allowed = true) (held : Held s.kinds w n) :
    ∃ w', Held ((s.opened start).past [c] rest kind true).kinds w' n ∧
      (s.lexer w n).dispatch = .ok (((s.opened start).past [c] rest kind true).lexer w' n) := by
  have cursor : (s.lexer w n).cursor = ⟨c :: rest, s.mark⟩ := by rw [← here]; rfl
  have block : (s.lexer w n).inFlow = false := by simp [Lexer.inFlow, lexer, flow]
  have may : (s.lexer w n).keyAllowed = true := allowed
  obtain ⟨rest', -, level, keys, -⟩ := opened_spec s start
  obtain ⟨w', held', openedAt⟩ := openBlock_lexer held start
  have none (a : Bool) : (((s.opened start).lexer w' n).allowKey a).dropKey =
      .ok (((s.opened start).lexer w' n).allowKey a) :=
    dropKey_lexer (s := { s.opened start with allowed := a }) (keys.trans bare) w' n
  have outside : ((s.opened start).lexer w' n).inFlow = false := by
    simp [Lexer.inFlow, lexer, level, flow]
  have clear : Clear [c] := by simpa using (by cases mark <;> decide : isVerbatim c = true)
  obtain ⟨w'', held'', taken⟩ :=
    take_lexer [c] rest true (rest'.trans here) clear held' kind
  rw [List.length_singleton] at taken
  refine ⟨w'', held'', ?_⟩
  cases mark with
  | item =>
    rw [dispatch_blockEntry cursor blank, Lexer.blockEntry, block, may]
    simp only [Bool.not_true, Bool.not_false, Bool.and_false, Bool.false_eq_true, if_false, openedAt,
      none, bind, Except.bind, taken, pure, Except.pure]
  | key =>
    rw [dispatch_explicitKey cursor blank, Lexer.explicitKey, block, may]
    simp only [Bool.not_true, Bool.not_false, Bool.and_false, Bool.false_eq_true, if_false, openedAt,
      outside, none, bind, Except.bind, taken, pure, Except.pure]
  | value =>
    have unkeyed : (s.lexer w n).key? = Option.none := by
      rw [Lexer.key?, lexer]
      simp [bare]
    rw [dispatch_mappingValue cursor blank, Lexer.mappingValue, unkeyed]
    simp only [block, may, Bool.not_true, Bool.not_false, Bool.and_false, Bool.false_eq_true,
      if_false, openedAt, outside, none, bind, Except.bind, taken, pure, Except.pure]

/-- A mark of a block is read, and the block is opened if the mark is the first. -/
theorem BlockMark.next {c : Char} {start : Token.Kind} (mark : BlockMark c start kind)
    (here : s.rest = c :: rest) (blank : isBlankOrEnd (rest.headD sentinel) = true)
    (flow : s.flow = 0) (bare : s.keys = []) (allowed : s.allowed = true)
    (settles : Settles rest) :
    Next s ((s.opened start).past [c] rest kind true).settled := by
  obtain ⟨-, -, level, keys, load, ks, kinds⟩ := opened_spec s start
  have pushed : ((s.opened start).past [c] rest kind true).kinds = s.kinds ++ (ks ++ [kind]) := by
    rw [← List.append_assoc, ← kinds]
    rfl
  refine .of_settled (level.trans flow) settles ?_ ?_ ?_ ?_ fun w n held _ => ?_
  · have none : ((s.opened start).past [c] rest kind true).keys = [] := keys.trans bare
    simp [none]
  · rw [here]
    exact Nat.lt_succ_self _
  · rw [pushed, List.length_append]
    exact Nat.le_add_right _ _
  · have size : (s.opened start).rest.length = rest.length + 1 := by
      rw [(opened_spec s start).1, here]
      rfl
    simp only [Spot.load, past, List.length_append, List.length_singleton] at load ⊢
    omega
  · obtain ⟨w', held', read⟩ := mark.reads here blank flow bare allowed held
    exact ⟨w', held', by rw [pushed, List.take_append_of_le_length held.within], read⟩

end Spot

/-! Which token starts at a scalar. -/

section starts

variable {x : Lexer} {c : Char} {text written rest t v w : List Char} {m : Mark} {indent : Nat}

theorem leadingIndicators_eq : leadingIndicators =
    ['#', ',', '[', ']', '\x7b', '\x7d', '&', '*', '!', '|', '>', '\'', '"', '%', '@', '\x60'] := by
  decide

theorem isIndicator_iff : Lexer.isIndicator c = true ↔
    c ∈ leadingIndicators ∨ c = '-' ∨ c = '?' ∨ c = ':' := by
  have all : "-?:,[]\x7b\x7d#&*!|>'\"%@\x60".toList = ['-', '?', ':', ',', '[', ']', '\x7b', '\x7d',
      '#', '&', '*', '!', '|', '>', '\'', '"', '%', '@', '\x60'] := by decide
  rw [Lexer.isIndicator, all, leadingIndicators_eq]
  simp only [List.contains_iff_mem, List.mem_cons, List.not_mem_nil, or_false]
  grind

structure StartsPlain (x : Lexer) (c : Char) : Prop where
  peek : x.cursor.peek = c
  visible : isBlankOrEnd c = false
  leading : c ∉ leadingIndicators
  next : c = '-' ∨ c = '?' ∨ c = ':' → isBlankOrEnd (x.cursor.peekAt 1) = false
  dashes : x.cursor.atMarker '-' = false
  dots : x.cursor.atMarker '.' = false

theorem StartsPlain.dispatch (own : StartsPlain x c) (flow : x.flowLevel = 0) :
    x.dispatch = x.plainScalar := by
  obtain ⟨peek, visible, leading, next, dashes, dots⟩ := own
  have inside : c ≠ sentinel := by rintro rfl; exact absurd visible (by decide)
  have block : x.inFlow = false := by simp [Lexer.inFlow, flow]
  have starts : x.startsPlain = true := by
    rw [Lexer.startsPlain, peek, block, visible]
    by_cases mark : c = '-' ∨ c = '?' ∨ c = ':'
    · rw [next mark]
      rcases mark with rfl | rfl | rfl <;> decide
    · have bare : Lexer.isIndicator c = false :=
        Bool.eq_false_iff.mpr fun indicates => (isIndicator_iff.mp indicates).elim leading mark
      rw [bare]
      rfl
  have other {d : Char} (mem : d ∈ leadingIndicators) : c ≠ d := fun same => leading (same ▸ mem)
  have dash : ¬ (c = '-' ∧ isBlankOrEnd (x.cursor.peekAt 1) = true) := fun own => by
    simp [next (.inl own.1)] at own
  have question : ¬ (c = '?' ∧ isBlankOrEnd (x.cursor.peekAt 1) = true) := fun own => by
    simp [next (.inr (.inl own.1))] at own
  have colon : ¬ (c = ':' ∧ isBlankOrEnd (x.cursor.peekAt 1) = true) := fun own => by
    simp [next (.inr (.inr own.1))] at own
  rw [Lexer.dispatch]
  simp only [peek, inside, dashes, dots, block, starts, dash, question, colon, if_true, if_false,
    other (d := '%') (by decide), other (d := '[') (by decide), other (d := ']') (by decide),
    other (d := '\x7b') (by decide), other (d := '\x7d') (by decide), other (d := ',') (by decide),
    other (d := '*') (by decide), other (d := '&') (by decide), other (d := '!') (by decide),
    other (d := '|') (by decide), other (d := '>') (by decide), other (d := '\'') (by decide),
    other (d := '"') (by decide), false_and, and_false, Bool.false_eq_true, false_or]

/-- A text and the way in which it stands have their first word in common. -/
theorem Spread.begins (form : Spread indent text written) :
    ∃ w t u, PlainWord w ∧ text = w ++ t ∧ written = w ++ u ∧
      isBlankOrEnd (t.headD sentinel) = true ∧ (u = [] ∨ isBlankOrEnd (u.headD sentinel) = true) := by
  have space : isBlankOrEnd ' ' = true := by decide
  have feed : isBlankOrEnd '\n' = true := by decide
  cases form with
  | word own => exact ⟨_, [], [], own, by simp, by simp, by decide, .inl rfl⟩
  | spaces own k => exact ⟨_, _, _, own, rfl, rfl, by simp [List.replicate_succ, space],
      .inr (by simp [List.replicate_succ, space])⟩
  | fold own => exact ⟨_, _, _, own, rfl, rfl, by simp [space], .inr (by simp [feed])⟩

theorem Spread.startsPlain (form : Spread indent text written)
    (starts : startsWithIndicator text = false) (stops : StopsPlain rest)
    (here : x.cursor = ⟨written ++ rest, m⟩) : ∃ c, StartsPlain x c := by
  obtain ⟨w, t, u, own, rfl, rfl, blank, after⟩ := form.begins
  rw [List.append_assoc] at here
  have later : StopsPlain (u ++ rest) := by
    rcases after with rfl | blank
    · exact stops
    · cases u with
      | nil => exact stops
      | cons d u => exact .inl blank
  generalize u ++ rest = v at later here
  obtain ⟨c, cs, rfl⟩ := List.exists_cons_of_ne_nil own.filled
  obtain ⟨leading, next, dashes, dots⟩ := startsWithIndicator_false starts
  have peek : x.cursor.peek = c := by rw [here]; rfl
  have second : x.cursor.peekAt 1 = (cs ++ v).headD sentinel := by rw [here]; exact peekAt_one
  -- A marker of a document would be in the text itself.
  have marker (q : Char) (mark : q ≠ ':' ∧ isBlankOrEnd q = false)
      (none : ∀ more, c :: (cs ++ t) ≠ q :: q :: q :: more) : x.cursor.atMarker q = false := by
    have ends : v.headD sentinel ≠ q := by
      rcases later with blank | ⟨more, rfl, -⟩
      · exact fun same => absurd (same ▸ blank) (by simp [mark.2])
      · exact mark.1.symm
    cases own : x.cursor.atMarker q with
    | false => rfl
    | true =>
      simp only [Cursor.atMarker, Bool.and_eq_true, beq_iff_eq] at own
      obtain ⟨⟨⟨first, follows⟩, third⟩, -⟩ := own
      rw [peek] at first
      rw [second] at follows
      rcases cs with _ | ⟨d, _ | ⟨e, cs⟩⟩
      · exact absurd follows ends
      · exact absurd (by rw [here] at third; cases v <;> exact third) ends
      · have next : d = q := follows
        have last : e = q := by rw [here] at third; exact third
        exact absurd (by rw [first, next, last]; rfl) (none (cs ++ t))
  refine ⟨c, peek, own.not_blank c List.mem_cons_self, leading, fun mark => ?_,
    marker '-' (by decide) dashes, marker '.' (by decide) dots⟩
  rw [second]
  cases cs with
  | nil =>
    have inner : isBlankOrEnd (t.headD sentinel) = false := next mark
    rw [inner] at blank
    contradiction
  | cons d cs => exact own.not_blank d (by simp)

theorem atMarker_of_ne {q : Char} (here : x.cursor = ⟨c :: rest, m⟩) (other : c ≠ q) :
    x.cursor.atMarker q = false := by
  have peek : x.cursor.peek = c := by rw [here]; rfl
  simp [Cursor.atMarker, peek, other]

theorem dispatch_quoted (double : Bool) (here : x.cursor = ⟨quoteOf double :: rest, m⟩) :
    x.dispatch = x.quotedScalar double := by
  have peek : x.cursor.peek = quoteOf double := by rw [here]; rfl
  have dashes := atMarker_of_ne (q := '-') here (by cases double <;> decide)
  have dots := atMarker_of_ne (q := '.') here (by cases double <;> decide)
  rw [Lexer.dispatch]
  cases double <;> simp [peek, dashes, dots, quoteOf, sentinel]

theorem dispatch_literal (flow : x.flowLevel = 0) (here : x.cursor = ⟨'|' :: rest, m⟩) :
    x.dispatch = x.blockScalar false := by
  have peek : x.cursor.peek = '|' := by rw [here]; rfl
  have block : x.inFlow = false := by simp [Lexer.inFlow, flow]
  have dashes := atMarker_of_ne (q := '-') here (by decide)
  have dots := atMarker_of_ne (q := '.') here (by decide)
  simp [Lexer.dispatch, peek, dashes, dots, block, sentinel]

end starts

namespace Spot

section scalars

variable {s : Spot} {w : List Token} {n indent k : Nat} {text written rest : List Char}
  {style : ScalarStyle}

def noted (s : Spot) : Spot :=
  { s with keys := if s.allowed then
      [(s.flow, ⟨s.kinds.length, s.flow == 0 && s.indent == s.mark.column, s.mark⟩)] else [] }

theorem noted_keys {k : Nat × SimpleKey} (mem : k ∈ s.noted.keys) :
    k = (s.flow, ⟨s.kinds.length, s.flow == 0 && s.indent == s.mark.column, s.mark⟩) := by
  rw [noted] at mem
  dsimp only at mem
  split at mem
  · exact List.mem_singleton.mp mem
  · simp at mem

theorem noteKey_lexer (bare : s.keys = []) (held : Held s.kinds w n) :
    (s.lexer w n).noteKey = .ok (s.noted.lexer w n) := by
  have may : (s.lexer w n).keyAllowed = s.allowed := rfl
  rw [Lexer.noteKey, may, noted]
  cases own : s.allowed with
  | false =>
    simp only [Bool.false_eq_true, if_false, lexer, bare, own]
  | true =>
    rw [if_pos rfl, dropKey_lexer bare]
    have number : (s.lexer w n).taken + (s.lexer w n).waiting.length = s.kinds.length := held.total
    have required : (!(s.lexer w n).inFlow && (s.lexer w n).indent == (s.lexer w n).column) =
        (s.flow == 0 && s.indent == s.mark.column) := by
      simp [Lexer.inFlow, lexer, Lexer.column, bne]
    simp only [bind, Except.bind, pure, Except.pure, number, required]
    simp [lexer, bare, Lexer.mark, own]

def scalar (s : Spot) (rest : List Char) (m : Mark) (text : List Char) (style : ScalarStyle)
    (allowed : Bool) : Spot :=
  { s with
    rest := rest
    mark := m
    kinds := s.kinds ++ [.scalar (String.ofList text) style]
    allowed := allowed }

theorem reads_quoted {double : Bool} (form : Enquoted double indent text written)
    (indented : 0 < indent) (other : double = false → rest.head? ≠ some '\'') (bare : s.keys = [])
    (here : s.rest = quoteOf double :: (written ++ quoteOf double :: rest)) (held : Held s.kinds w n) :
    ∃ w', Held (s.kinds ++ [.scalar (String.ofList text) (if double then .double else .single)]) w' n ∧
      (s.lexer w n).dispatch = .ok ((s.noted.scalar rest
        (s.mark.over (quoteOf double :: (written ++ [quoteOf double]))) text
        (if double then .double else .single) false).lexer w' n) := by
  have read := form.readQuoted (m := s.mark) indented other
  have cursor : (s.lexer w n).cursor =
      ⟨quoteOf double :: (written ++ quoteOf double :: rest), s.mark⟩ := by
    rw [← here]; rfl
  have noted : (s.noted.lexer w n).cursor = (s.lexer w n).cursor := rfl
  refine ⟨_, held.push _ s.mark (s.mark.over (quoteOf double :: (written ++ [quoteOf double]))), ?_⟩
  rw [dispatch_quoted double cursor, Lexer.quotedScalar, noteKey_lexer bare held]
  simp only [bind, Except.bind, noted, cursor, read, pure, Except.pure]
  rfl

theorem reads_plain {result : PlainScalar} (form : Spread indent text written)
    (starts : startsWithIndicator text = false) (stops : StopsPlain rest) (flow : s.flow = 0)
    (bare : s.keys = []) (here : s.rest = written ++ rest)
    (read : readPlain false (s.indent + 1) ⟨written ++ rest, s.mark⟩ = result)
    (all : result.text = text) (held : Held s.kinds w n) :
    ∃ w', Held (s.kinds ++ [.scalar (String.ofList text) .plain]) w' n ∧
      (s.lexer w n).dispatch = .ok ((s.noted.scalar result.cursor.rest result.cursor.mark text .plain
        result.broken).lexer w' n) := by
  have cursor : (s.lexer w n).cursor = ⟨written ++ rest, s.mark⟩ := by rw [← here]; rfl
  obtain ⟨c, own⟩ := form.startsPlain starts stops cursor
  have noted : (s.noted.lexer w n).cursor = (s.lexer w n).cursor := rfl
  have block : (s.noted.lexer w n).inFlow = false := by simp [Lexer.inFlow, lexer, Spot.noted, flow]
  have column : (s.noted.lexer w n).indent = s.indent := rfl
  refine ⟨_, held.push _ s.mark result.stop, ?_⟩
  rw [own.dispatch flow, Lexer.plainScalar, noteKey_lexer bare held]
  simp only [bind, Except.bind, noted, block, column, cursor, read, pure, Except.pure, all]
  rfl

theorem reads_literal {stop : Mark} {c : Cursor} (flow : s.flow = 0) (bare : s.keys = [])
    (here : s.rest = '|' :: rest)
    (read : readBlock false s.indent ⟨'|' :: rest, s.mark⟩ = .ok (String.ofList text, stop, c))
    (held : Held s.kinds w n) :
    ∃ w', Held (s.kinds ++ [.scalar (String.ofList text) .literal]) w' n ∧
      (s.lexer w n).dispatch =
        .ok ((s.scalar c.rest c.mark text .literal true).lexer w' n) := by
  have cursor : (s.lexer w n).cursor = ⟨'|' :: rest, s.mark⟩ := by rw [← here]; rfl
  have none : ((s.lexer w n).allowKey true).dropKey = .ok ((s.lexer w n).allowKey true) :=
    dropKey_lexer (s := { s with allowed := true }) bare w n
  have allowed : ((s.lexer w n).allowKey true).cursor = (s.lexer w n).cursor := rfl
  have column : ((s.lexer w n).allowKey true).indent = s.indent := rfl
  refine ⟨_, held.push _ s.mark stop, ?_⟩
  rw [dispatch_literal flow cursor, Lexer.blockScalar, none]
  simp only [bind, Except.bind, allowed, column, cursor, read, pure, Except.pure]
  rfl

end scalars

end Spot

end OverlayBuild.Yaml

import OverlayBuild.Proofs.Yaml.Stream

/-! What parts one token from the next: spaces and line breaks are passed, keys that were not
confirmed on their line are forgotten, and collections that are indented deeper than the next
token end. -/
namespace OverlayBuild.Yaml

def isGap (c : Char) : Bool := c == ' ' || c == '\n'

def Visible (rest : List Char) : Prop :=
  ∀ c ∈ rest.head?, isVerbatim c = true ∧ isGap c = false ∧ c ≠ '#'

variable {sp r rest : List Char} {m : Mark} {x : Lexer} {column indent : Int} {outer : List Int}
  {k : Nat}

theorem isVerbatim_of_isGap {c : Char} (gap : isGap c = true) : isVerbatim c = true := by
  simp only [isGap, Bool.or_eq_true, beq_iff_eq] at gap
  rcases gap with rfl | rfl <;> decide

theorem clear_gap (gap : ∀ c ∈ sp, isGap c = true) : Clear sp :=
  fun c mem => isVerbatim_of_isGap (gap c mem)

theorem Visible.not_gap (visible : Visible r) : ∀ c ∈ r.head?, isGap c = false :=
  fun c mem => (visible c mem).2.1

theorem Visible.not_space (visible : Visible r) : ∀ c ∈ r.head?, (c == ' ') = false :=
  fun c mem => (Bool.or_eq_false_iff.mp (visible c mem).2.1).1

theorem Visible.not_break (visible : Visible r) : ∀ c ∈ r.head?, isBreak c = false := fun c mem => by
  rw [isBreak_of_verbatim (visible c mem).1]
  exact (Bool.or_eq_false_iff.mp (visible c mem).2.1).2

def Settles (rest : List Char) : Prop := Visible (rest.dropWhile isGap)

theorem isGap_feed : ∀ c ∈ ['\n'], isGap c = true := List.forall_mem_singleton.mpr rfl

theorem isGap_space : ∀ c ∈ [' '], isGap c = true := List.forall_mem_singleton.mpr rfl

theorem settles_append (gap : ∀ c ∈ sp, isGap c = true) : Settles (sp ++ r) ↔ Settles r := by
  rw [Settles, Settles, List.dropWhile_append_of_pos gap]

theorem Visible.settles (visible : Visible r) : Settles r := by
  have stays : r.dropWhile isGap = r := by
    cases r with
    | nil => rfl
    | cons c r => exact List.dropWhile_cons_of_neg (by simp [visible.not_gap c rfl])
  rw [Settles, stays]
  exact visible

theorem skipComment_of_ne {c : Cursor} (other : c.peek ≠ '#') : c.skipComment = c := by
  rw [Cursor.skipComment, if_neg other]

theorem skipToToken_spaces (visible : Visible r) :
    Lexer.skipToToken { x with cursor := ⟨List.replicate k ' ' ++ r, m⟩ } =
      { x with cursor := ⟨r, m.over (List.replicate k ' ')⟩ } := by
  have bare : (Cursor.mk r (m.over (List.replicate k ' '))).peek ≠ '#' := by
    cases r with
    | nil => exact (by decide : sentinel ≠ '#')
    | cons c r => exact (visible c rfl).2.2
  rw [Lexer.skipToToken, Cursor.skipWhile_append (clear_spaces k) (by simp) visible.not_space,
    skipComment_of_ne bare, Cursor.lineBreak?_of_not_break visible.not_break]

theorem skipToToken_break (flow : x.flowLevel = 0) :
    Lexer.skipToToken { x with cursor := ⟨List.replicate k ' ' ++ '\n' :: r, m⟩ } =
      Lexer.skipToToken { x with
        cursor := ⟨r, m.over (List.replicate k ' ' ++ ['\n'])⟩, keyAllowed := true } := by
  have bare : (Cursor.mk ('\n' :: r) (m.over (List.replicate k ' '))).peek ≠ '#' :=
    (by decide : '\n' ≠ '#')
  rw [Lexer.skipToToken, Cursor.skipWhile_append (clear_spaces k) (by simp) (by simp),
    skipComment_of_ne bare, Cursor.lineBreak?_feed]
  have shorter : r.length < (List.replicate k ' ' ++ '\n' :: r).length := by
    simp only [List.length_append, List.length_cons]
    omega
  have block : (x.keyAllowed ||
      !Lexer.inFlow { x with cursor := ⟨List.replicate k ' ' ++ '\n' :: r, m⟩ }) = true := by
    simp [Lexer.inFlow, flow]
  simp only [shorter, if_true, block, Mark.over_over]

theorem skipToToken_gap (flow : x.flowLevel = 0) (gap : ∀ c ∈ sp, isGap c = true)
    (visible : Visible r) :
    Lexer.skipToToken { x with cursor := ⟨List.replicate k ' ' ++ (sp ++ r), m⟩ } =
      { x with
        cursor := ⟨r, m.over (List.replicate k ' ' ++ sp)⟩
        keyAllowed := x.keyAllowed || sp.contains '\n' } := by
  induction sp generalizing k m x with
  | nil =>
    rw [List.nil_append, List.append_nil, skipToToken_spaces visible]
    simp
  | cons c sp ih =>
    obtain ⟨own, others⟩ := List.forall_mem_cons.mp gap
    simp only [isGap, Bool.or_eq_true, beq_iff_eq] at own
    rcases own with rfl | rfl
    · have spaces (cs : List Char) :
          List.replicate k ' ' ++ ' ' :: cs = List.replicate (k + 1) ' ' ++ cs := by
        rw [List.replicate_succ', List.append_assoc]
        rfl
      rw [List.cons_append, spaces, ih flow others, spaces]
      simp
    · have later := ih (k := 0) (x := { x with keyAllowed := true })
        (m := m.over (List.replicate k ' ' ++ ['\n'])) flow others
      rw [List.cons_append, skipToToken_break flow]
      refine later.trans ?_
      simp

/-! Collections that end. -/

theorem closeIndents_of_le (within : indent ≤ column) (k : Nat) :
    Lexer.closeIndents column indent outer k = (indent, outer, k) := by
  cases outer with
  | nil => rfl
  | cons o outer => rw [Lexer.closeIndents, if_neg (by omega)]

theorem closeIndents_of_lt (o : Int) (deeper : column < indent) (k : Nat) :
    Lexer.closeIndents column indent (o :: outer) k = Lexer.closeIndents column o outer (k + 1) := by
  rw [Lexer.closeIndents, if_pos deeper]

theorem closeIndents_add (j : Nat) :
    Lexer.closeIndents column indent outer (k + j) =
      ((Lexer.closeIndents column indent outer k).1, (Lexer.closeIndents column indent outer k).2.1,
        (Lexer.closeIndents column indent outer k).2.2 + j) := by
  induction outer generalizing indent k with
  | nil => rfl
  | cons o outer ih =>
    rw [Lexer.closeIndents, Lexer.closeIndents]
    split
    · rw [Nat.add_right_comm, ih]
    · rfl

/-- Each collection that ends leaves one less to be ended. -/
theorem closeIndents_total :
    (Lexer.closeIndents column indent outer k).2.2 +
      (Lexer.closeIndents column indent outer k).2.1.length = k + outer.length := by
  induction outer generalizing indent k with
  | nil => rfl
  | cons o outer ih =>
    rw [Lexer.closeIndents]
    split
    · rw [ih, List.length_cons]
      omega
    · rfl

namespace Spot

variable {s : Spot} {w : List Token} {n : Nat}

def close (s : Spot) (column : Int) : Spot :=
  let closed := Lexer.closeIndents column s.indent s.outer 0
  { s with
    kinds := s.kinds ++ List.replicate closed.2.2 .blockEnd
    indent := closed.1
    outer := closed.2.1 }

theorem close_of_le (within : s.indent ≤ column) : s.close column = s := by
  simp [close, closeIndents_of_le within]

theorem close_of_lt {o : Int} {outer : List Int} (opened : s.outer = o :: outer)
    (deeper : column < s.indent) :
    s.close column =
      close { s with kinds := s.kinds ++ [.blockEnd], indent := o, outer := outer } column := by
  have own : Lexer.closeIndents column o outer (0 + 1) = _ := closeIndents_add 1
  simp [close, opened, closeIndents_of_lt o deeper, own, List.replicate_succ]

theorem load_close : (s.close column).load = s.load := by
  have total : (Lexer.closeIndents column s.indent s.outer 0).2.2 + _ = _ := closeIndents_total
  simp only [load, close, List.length_append, List.length_replicate]
  omega

theorem unwind_lexer (flow : s.flow = 0) (held : Held s.kinds w n) (column : Int) :
    ∃ w', Held (s.close column).kinds w' n ∧
      (s.lexer w n).unwind column = (s.close column).lexer w' n := by
  let closed := Lexer.closeIndents column s.indent s.outer 0
  have all := held.append (List.replicate closed.2.2 ⟨.blockEnd, s.mark, s.mark⟩)
  rw [List.map_replicate] at all
  refine ⟨_, all, ?_⟩
  rw [Lexer.unwind, if_neg (by simp [Lexer.inFlow, lexer, flow])]
  rfl

/-- The place of the next token, with the keys before it forgotten and the collections that
ended before it closed. -/
def settled (s : Spot) : Spot :=
  let gap := s.rest.takeWhile isGap
  let mark := s.mark.over gap
  close { s with
    rest := s.rest.dropWhile isGap
    mark := mark
    allowed := s.allowed || gap.contains '\n'
    keys := [] } mark.column

/-- What is passed before the next token may be passed at once. -/
theorem settled_gap (gap : ∀ c ∈ sp, isGap c = true) (split : s.rest = sp ++ r) :
    s.settled = settled { s with
      rest := r, mark := s.mark.over sp, allowed := s.allowed || sp.contains '\n' } := by
  simp only [settled, split, List.takeWhile_append_of_pos gap, List.dropWhile_append_of_pos gap]
  simp [Bool.or_assoc]

theorem settled_visible (split : s.rest = sp ++ r) (gap : ∀ c ∈ sp, isGap c = true)
    (visible : Visible r) :
    s.settled = close { s with
      rest := r, mark := s.mark.over sp, allowed := s.allowed || sp.contains '\n', keys := [] }
        (s.mark.over sp).column := by
  have here : s.rest.takeWhile isGap = sp ∧ s.rest.dropWhile isGap = r := by
    rw [split, List.takeWhile_append_of_pos gap, List.dropWhile_append_of_pos gap]
    cases r with
    | nil => simp
    | cons c r => simp [visible.not_gap c rfl]
  rw [settled, here.1, here.2]

/-- A collection that is indented deeper than the next token ends before it. -/
theorem settled_close {o : Int} {outer : List Int} (split : s.rest = sp ++ r)
    (gap : ∀ c ∈ sp, isGap c = true) (visible : Visible r) (opened : s.outer = o :: outer)
    (deeper : ((s.mark.over sp).column : Int) < s.indent) :
    s.settled = settled { s with kinds := s.kinds ++ [.blockEnd], indent := o, outer := outer } := by
  have closes := close_of_lt (s := { s with
    rest := r, mark := s.mark.over sp, allowed := s.allowed || sp.contains '\n', keys := [] })
    opened deeper
  rw [settled_visible split gap visible, closes,
    settled_visible (s := { s with kinds := s.kinds ++ [.blockEnd], indent := o, outer := outer })
      split gap visible]

theorem settled_eq (split : s.rest = sp ++ r) (gap : ∀ c ∈ sp, isGap c = true)
    (visible : Visible r) (within : s.indent ≤ (s.mark.over sp).column) :
    s.settled = { s with
      rest := r, mark := s.mark.over sp, allowed := s.allowed || sp.contains '\n', keys := [] } := by
  rw [settled_visible split gap visible]
  exact close_of_le within

theorem load_settled : s.settled.load ≤ s.load := by
  have shorter := (List.dropWhile_suffix isGap (l := s.rest)).length_le
  rw [settled, load_close]
  simp only [load]
  omega

/-! Arriving at the next token. -/

theorem dropStaleKeys_calm {x : Lexer}
    (calm : ∀ k ∈ x.keys, k.2.required = false ∨ x.isStale k.2 = false) :
    x.dropStaleKeys = .ok { x with keys := x.keys.filter fun k => !x.isStale k.2 } := by
  have none : x.keys.find? (fun k => x.isStale k.2 && k.2.required) = none :=
    List.find?_eq_none.mpr fun k mem => by
      rcases calm k mem with own | own <;> simp [own]
  rw [Lexer.dropStaleKeys, none]

theorem skipByteOrderMark_verbatim {x : Lexer}
    (verbatim : ∀ c ∈ x.cursor.rest.head?, isVerbatim c = true) : x.skipByteOrderMark = x := by
  rw [Lexer.skipByteOrderMark, if_neg]
  rintro ⟨-, order⟩
  cases rest : x.cursor.rest with
  | nil => simp [Cursor.peek, rest, sentinel] at order
  | cons c cs =>
    rw [Cursor.peek, rest, List.headD_cons] at order
    exact ne_of_verbatim (verbatim c (by rw [rest]; rfl)) (by decide) order

theorem head_verbatim (gap : ∀ c ∈ sp, isGap c = true) (visible : Visible r) :
    ∀ c ∈ (sp ++ r).head?, isVerbatim c = true := by
  cases sp with
  | nil => exact fun c mem => (visible c mem).1
  | cons d sp => simpa using isVerbatim_of_isGap (gap d List.mem_cons_self)

/-- Where no key waits for its colon any more, the lexer settles at the next token. -/
theorem arrive_settled (flow : s.flow = 0) (split : s.rest = sp ++ r)
    (gap : ∀ c ∈ sp, isGap c = true) (visible : Visible r)
    (idle : ∀ k ∈ s.keys, k.2.required = false ∧ k.2.mark.line ≠ (s.mark.over sp).line)
    (held : Held s.kinds w n) :
    ∃ w', Held s.settled.kinds w' n ∧ (s.lexer w n).arrive = .ok (s.settled.lexer w' n) := by
  let passed : Spot := { s with
    rest := r, mark := s.mark.over sp, allowed := s.allowed || sp.contains '\n', keys := [] }
  have turned : (s.lexer w n).turn = .ok (passed.lexer w n) := by
    have first := dropStaleKeys_calm (x := s.lexer w n) fun k mem => .inl (idle k mem).1
    have skips (keys : List (Nat × SimpleKey)) :
        (Lexer.skipByteOrderMark { s.lexer w n with keys := keys }).skipToToken =
          { passed.lexer w n with keys := keys } := by
      rw [skipByteOrderMark_verbatim (by simpa [lexer, split] using head_verbatim gap visible)]
      have passes := skipToToken_gap (k := 0) (m := s.mark)
        (x := { s.lexer w n with keys := keys }) flow gap visible
      rw [List.replicate_zero, List.nil_append, List.nil_append, ← split] at passes
      exact passes
    rw [Lexer.turn, first]
    simp only [bind, Except.bind, skips]
    rw [dropStaleKeys_calm fun k mem => .inl (idle k (List.mem_filter.mp mem).1).1]
    have none {p q : Nat × SimpleKey → Bool} (all : ∀ k ∈ s.keys, p k = false) :
        (s.keys.filter q).filter p = [] :=
      List.filter_eq_nil_iff.mpr fun k mem => by simp [all k (List.mem_filter.mp mem).1]
    have stale : (s.lexer w n).keys = s.keys := rfl
    simp only [stale]
    rw [none fun k mem => by simp [Lexer.isStale, Lexer.mark, lexer, passed, (idle k mem).2]]
    rfl
  obtain ⟨w', all, unwound⟩ := unwind_lexer (s := passed) flow held (s.mark.over sp).column
  refine ⟨w', ?_, ?_⟩
  · rw [settled_visible split gap visible]
    exact all
  · rw [Lexer.arrive, turned, settled_visible split gap visible]
    exact congrArg Except.ok unwound

/-- Where a key may still find its colon, nothing is forgotten. -/
theorem arrive_fresh (visible : Visible s.rest)
    (fresh : ∀ k ∈ s.keys, k.2.mark.line = s.mark.line ∧ s.mark.index - k.2.mark.index ≤ 1024)
    (within : s.flow ≠ 0 ∨ s.indent ≤ s.mark.column) :
    (s.lexer w n).arrive = .ok (s.lexer w n) := by
  have kept : (s.lexer w n).dropStaleKeys = .ok (s.lexer w n) := by
    have own : ∀ k ∈ s.keys, (s.lexer w n).isStale k.2 = false := fun k mem => by
      obtain ⟨line, near⟩ := fresh k mem
      show (k.2.mark.line != s.mark.line || decide (1024 < s.mark.index - k.2.mark.index)) = false
      rw [line, decide_eq_false (Nat.not_lt.mpr near), bne_self_eq_false]
      rfl
    rw [dropStaleKeys_calm fun k mem => .inr (own k mem)]
    have all : s.keys.filter (fun k => !(s.lexer w n).isStale k.2) = s.keys :=
      List.filter_eq_self.mpr fun k mem => by simp [own k mem]
    exact congrArg (fun keys => Except.ok { s.lexer w n with keys := keys }) all
  have stays : (s.lexer w n).skipToToken = s.lexer w n :=
    skipToToken_spaces (x := s.lexer w n) (k := 0) (m := s.mark) visible
  have turned : (s.lexer w n).turn = .ok (s.lexer w n) := by
    rw [Lexer.turn, kept]
    simp only [bind, Except.bind]
    rw [skipByteOrderMark_verbatim fun c mem => (visible c mem).1, stays, kept]
  rw [Lexer.arrive, turned]
  simp only [Except.map, Lexer.unwind]
  rcases within with flow | near
  · rw [if_pos (by simpa [Lexer.inFlow, lexer] using flow)]
  · have none :
        Lexer.closeIndents (s.lexer w n).column (s.lexer w n).indent (s.lexer w n).outerIndents 0 =
        (s.indent, s.outer, 0) := closeIndents_of_le near 0
    split
    · rfl
    · rw [none]
      simp [lexer]

end Spot

end OverlayBuild.Yaml

import Mathlib.Logic.Relation
import OverlayBuild.Proofs.Outcome
import OverlayBuild.Proofs.Yaml.Cursor
import OverlayBuild.Yaml.Token.Stream

/-! Runs of the lexer. What a lexer does next depends on its place and on the tokens up to it,
but not on how many of these were given out; `Spot` is what is left when that is forgotten. A run
passes from spot to spot, and in between it gives out the tokens that no key can come before. -/
namespace OverlayBuild.Yaml

/-- A place in a text with the kinds of all tokens before it, and what the lexer keeps of them. -/
structure Spot where
  rest : List Char
  mark : Mark
  kinds : List Token.Kind
  indent : Int
  outer : List Int
  flow : Nat
  allowed : Bool
  keys : List (Nat × SimpleKey)

/-- The tokens that wait after a number of them was given out. -/
structure Held (kinds : List Token.Kind) (waiting : List Token) (taken : Nat) : Prop where
  within : taken ≤ kinds.length
  waits : waiting.map (·.kind) = kinds.drop taken

namespace Held

variable {kinds : List Token.Kind} {waiting : List Token} {n : Nat} {kind : Token.Kind} {a b : Mark}

theorem total (held : Held kinds waiting n) : n + waiting.length = kinds.length := by
  have length := congrArg List.length held.waits
  rw [List.length_map, List.length_drop] at length
  have := held.within
  omega

theorem append (held : Held kinds waiting n) (tokens : List Token) :
    Held (kinds ++ tokens.map (·.kind)) (waiting ++ tokens) n where
  within := by
    rw [List.length_append]
    exact Nat.le_add_right_of_le held.within
  waits := by rw [List.map_append, held.waits, List.drop_append_of_le_length held.within]

theorem push (held : Held kinds waiting n) (kind : Token.Kind) (a b : Mark) :
    Held (kinds ++ [kind]) (waiting ++ [⟨kind, a, b⟩]) n :=
  held.append [⟨kind, a, b⟩]

/-- A token put before those from some number on. -/
theorem insert (held : Held kinds waiting n) {k : Nat} (after : n ≤ k) (within : k ≤ kinds.length)
    (kind : Token.Kind) (a b : Mark) :
    Held (kinds.take k ++ kind :: kinds.drop k)
      (waiting.take (k - n) ++ ⟨kind, a, b⟩ :: waiting.drop (k - n)) n where
  within := by
    have := held.within
    simp only [List.length_append, List.length_take, List.length_cons, List.length_drop]
    omega
  waits := by
    have whole : n + (k - n) = k := by omega
    rw [List.map_append, List.map_cons, List.map_take, List.map_drop, held.waits,
      List.drop_append_of_le_length (by rw [List.length_take]; omega), List.drop_drop, whole,
      List.drop_take]

theorem give {token : Token} (held : Held kinds (token :: waiting) n) :
    Held kinds waiting (n + 1) where
  within := by
    have := held.total
    rw [List.length_cons] at this
    omega
  waits := by
    have waits := congrArg (List.drop 1) held.waits
    rwa [List.map_cons, List.drop_one, List.tail_cons, List.drop_drop] at waits

end Held

namespace Spot

def lexer (s : Spot) (waiting : List Token) (taken : Nat) : Lexer :=
  ⟨⟨s.rest, s.mark⟩, s.flow, waiting, taken, s.indent, s.outer, s.allowed, s.keys, false⟩

def Keeps (s : Spot) (taken : Nat) : Prop := ∀ k ∈ s.keys, taken ≤ k.2.number

/-- A bound for the tokens of a text, by those before a place and what may come after it. -/
def load (s : Spot) : Nat := s.kinds.length + s.outer.length + 4 * s.rest.length

end Spot

namespace Lexer

variable {x y z : Lexer} {w : List Token} {n : Nat}

def turn (x : Lexer) : Except Failure Lexer := do
  let x ← x.dropStaleKeys
  x.skipByteOrderMark.skipToToken.dropStaleKeys

def arrive (x : Lexer) : Except Failure Lexer := x.turn.map fun y => y.unwind y.column

def dispatch (x : Lexer) : Except Failure Lexer :=
  let c := x.cursor.peek
  let next := x.cursor.peekAt 1
  if c = sentinel then x.endStream
  else if c = '%' ∧ x.mark.column = 0 then x.directive
  else if x.mark.column = 0 ∧ x.cursor.atMarker '-' then x.documentMarker .documentStart
  else if x.mark.column = 0 ∧ x.cursor.atMarker '.' then x.documentMarker .documentEnd
  else if c = '[' then x.openBracket .flowSequenceStart
  else if c = '\x7b' then x.openBracket .flowMappingStart
  else if c = ']' then x.closeBracket .flowSequenceEnd
  else if c = '\x7d' then x.closeBracket .flowMappingEnd
  else if c = ',' then x.flowEntry
  else if c = '-' ∧ isBlankOrEnd next then x.blockEntry
  else if c = '?' ∧ (x.inFlow ∨ isBlankOrEnd next) then x.explicitKey
  else if c = ':' ∧ (x.inFlow ∨ isBlankOrEnd next) then x.mappingValue
  else if c = '*' then x.anchor .alias .alias
  else if c = '&' then x.anchor .anchor .anchor
  else if c = '!' then x.tag
  else if c = '|' ∧ !x.inFlow then x.blockScalar false
  else if c = '>' ∧ !x.inFlow then x.blockScalar true
  else if c = '\'' then x.quotedScalar false
  else if c = '"' then x.quotedScalar true
  else if x.startsPlain then x.plainScalar
  else throw (.malformed ⟨some (.nextToken, none), .badStart c, x.mark⟩)

theorem fetch_eq (dropped : x.dropStaleKeys = .ok y) (arrives : x.arrive = .ok z) :
    y.fetch = z.dispatch := by
  rw [arrive, turn, dropped] at arrives
  rw [fetch]
  cases skipped : y.skipByteOrderMark.skipToToken.dropStaleKeys with
  | error cause => simp [bind, Except.bind, Except.map, skipped] at arrives
  | ok v =>
    simp only [bind, Except.bind, skipped, Except.map, Except.ok.injEq] at arrives ⊢
    rw [arrives]
    rfl

/-! Giving out a token changes nothing of what comes next. -/

def reload (x : Lexer) (waiting : List Token) (taken : Nat) : Lexer :=
  { x with waiting := waiting, taken := taken }

theorem dropStaleKeys_reload :
    (x.reload w n).dropStaleKeys = x.dropStaleKeys.map (·.reload w n) := by
  have same (key : SimpleKey) : (x.reload w n).isStale key = x.isStale key := rfl
  simp only [dropStaleKeys, same]
  have keys : (x.reload w n).keys = x.keys := rfl
  rw [keys]
  split <;> rfl

theorem skipToToken_reload : (x.reload w n).skipToToken = x.skipToToken.reload w n := by
  have cursor (y : Lexer) : (y.reload w n).cursor = y.cursor := rfl
  fun_induction skipToToken x with
  | case1 x c none =>
    rw [skipToToken, cursor, none]
    rfl
  | case2 x c b next found after shorter ih =>
    rw [skipToToken, cursor, found]
    simp only [shorter, if_true]
    exact ih
  | case3 x c b next found after longer =>
    rw [skipToToken, cursor, found]
    simp only [longer, if_false]
    rfl

theorem turn_reload : (x.reload w n).turn = x.turn.map (·.reload w n) := by
  have mark : ∀ y : Lexer, (y.reload w n).skipByteOrderMark = y.skipByteOrderMark.reload w n := by
    intro y
    simp only [skipByteOrderMark]
    split <;> split <;> first | rfl | contradiction
  rw [turn, dropStaleKeys_reload, turn]
  cases x.dropStaleKeys with
  | error => rfl
  | ok y =>
    simp only [Except.map, bind, Except.bind, mark, skipToToken_reload, dropStaleKeys_reload]

theorem dropStaleKeys_eq (dropped : x.dropStaleKeys = .ok y) :
    y = { x with keys := x.keys.filter fun k => !x.isStale k.2 } := by
  rw [dropStaleKeys] at dropped
  split at dropped
  · contradiction
  · exact (Except.ok.inj dropped).symm

theorem dropStaleKeys_again (dropped : x.dropStaleKeys = .ok y) : y.dropStaleKeys = .ok y := by
  obtain rfl := dropStaleKeys_eq dropped
  have fresh : ∀ k ∈ x.keys.filter fun k => !x.isStale k.2, x.isStale k.2 = false := fun k mem => by
    simpa using (List.mem_filter.mp mem).2
  have same (key : SimpleKey) :
      isStale { x with keys := x.keys.filter fun k => !x.isStale k.2 } key = x.isStale key := rfl
  rw [dropStaleKeys]
  simp only [same]
  have none : (x.keys.filter fun k => !x.isStale k.2).find?
      (fun k => x.isStale k.2 && k.2.required) = none :=
    List.find?_eq_none.mpr fun k mem => by simp [fresh k mem]
  rw [none, List.filter_filter]
  simp

theorem keys_skipToToken : x.skipToToken.keys = x.keys := by
  fun_induction skipToToken x with
  | case1 => rfl
  | case2 x c b next found after shorter ih => exact ih
  | case3 => rfl

/-- What is met on the way to the next token. -/
theorem turn_eq (turned : x.turn = .ok y) :
    y.waiting = x.waiting ∧ y.taken = x.taken ∧
      ∃ v, x.dropStaleKeys = .ok v ∧ ∀ k ∈ y.keys, k ∈ v.keys := by
  have reloaded := turn_reload (x := x) (w := x.waiting) (n := x.taken)
  have own : x.reload x.waiting x.taken = x := rfl
  rw [own, turned] at reloaded
  have same : y = y.reload x.waiting x.taken := Except.ok.inj reloaded
  have waits : y.waiting = (y.reload x.waiting x.taken).waiting := congrArg Lexer.waiting same
  have count : y.taken = (y.reload x.waiting x.taken).taken := congrArg Lexer.taken same
  refine ⟨waits, count, ?_⟩
  rw [turn] at turned
  cases dropped : x.dropStaleKeys with
  | error cause => simp [dropped, bind, Except.bind] at turned
  | ok v =>
    rw [dropped] at turned
    have mark : v.skipByteOrderMark.keys = v.keys := by
      rw [skipByteOrderMark]
      split <;> rfl
    refine ⟨v, rfl, fun k mem => ?_⟩
    rw [dropStaleKeys_eq turned] at mem
    have found := (List.mem_filter.mp mem).1
    rwa [keys_skipToToken, mark] at found

theorem unwind_reload (x : Lexer) (column : Int) :
    ∃ ends, (x.unwind column).waiting = x.waiting ++ ends ∧
      ∀ w n, (x.reload w n).unwind column = (x.unwind column).reload (w ++ ends) n := by
  have flow (w : List Token) (n : Nat) : (x.reload w n).inFlow = x.inFlow := rfl
  simp only [unwind, flow]
  split
  · exact ⟨[], (List.append_nil _).symm, fun w n => by rw [List.append_nil]⟩
  · exact ⟨_, rfl, fun _ _ => rfl⟩

/-- A token is given out on the way to the next one. -/
theorem arrive_give {token : Token} {waiting : List Token} {s : Spot}
    (dropped : x.dropStaleKeys = .ok y) (arrives : x.arrive = .ok (s.lexer w n))
    (waits : y.waiting = token :: waiting) :
    ∃ later, w = token :: later ∧
      (y.reload waiting (y.taken + 1)).arrive = .ok (s.lexer later (n + 1)) ∧ y.taken = n ∧
      ∀ k ∈ s.keys, k ∈ y.keys := by
  rw [arrive] at arrives
  cases turned : x.turn with
  | error cause => simp [turned, Except.map] at arrives
  | ok v =>
    rw [turned] at arrives
    have unwound : v.unwind v.column = s.lexer w n := Except.ok.inj arrives
    obtain ⟨waiting', taken, u, again, keys⟩ := turn_eq turned
    obtain rfl : y = u := Except.ok.inj (dropped.symm.trans again)
    have own := dropStaleKeys_eq dropped
    have stays : y.turn = .ok v := by
      rw [turn, dropStaleKeys_again dropped]
      rw [turn, dropped] at turned
      exact turned
    have first : v.waiting = token :: waiting := by
      rw [waiting', ← waits, own]
    obtain ⟨ends, closed, reloaded⟩ := unwind_reload v v.column
    have total : w = token :: (waiting ++ ends) := by
      rw [← List.cons_append, ← first, ← closed, unwound]
      rfl
    have count : y.taken = n := by
      have kept : (v.unwind v.column).taken = v.taken := by
        rw [unwind]
        split <;> rfl
      have same : (v.unwind v.column).taken = (s.lexer w n).taken := congrArg Lexer.taken unwound
      rw [own]
      exact taken.symm.trans (kept.symm.trans same)
    refine ⟨waiting ++ ends, total, ?_, count, fun k mem => keys k ?_⟩
    · rw [arrive, turn_reload, stays, count]
      simp only [Except.map]
      have column : (v.reload waiting (n + 1)).column = v.column := rfl
      rw [column, reloaded, unwound]
      rfl
    · have same : v.keys = s.keys := by
        have kept : (v.unwind v.column).keys = v.keys := by
          rw [unwind]
          split <;> rfl
        rw [← kept, unwound]
        rfl
      rwa [same]

end Lexer

def Stream.ofList {α : Type} : List α → Stream α
  | [] => .done
  | a :: items => .item a (ofList items)

namespace Spot

/-- One token is read, or a few, and what parts it from the next one is passed. Nothing is put
before the tokens that may be given out. -/
structure Next (s t : Spot) : Prop where
  shorter : t.rest.length < s.rest.length
  grows : s.kinds.length ≤ t.kinds.length
  load : t.load ≤ s.load
  step : ∀ w n, Held s.kinds w n → s.Keeps n → ∃ w' z, Held t.kinds w' n ∧ t.Keeps n ∧
    t.kinds.take n = s.kinds.take n ∧
    (s.lexer w n).dispatch = .ok z ∧ z.ended = false ∧ z.arrive = .ok (t.lexer w' n)

def Ends (s : Spot) (last : List Token.Kind) : Prop :=
  ∀ w n, Held s.kinds w n → s.Keeps n → ∃ z, Held (s.kinds ++ last) z.waiting n ∧
    (s.lexer w n).dispatch = .ok z ∧ z.ended = true

abbrev Leads : Spot → Spot → Prop := Relation.ReflTransGen Next

variable {s t : Spot} {last : List Token.Kind} {x : Lexer} {w : List Token} {n fuel : Nat}

theorem Leads.load (leads : Leads s t) : t.load ≤ s.load := by
  induction leads with
  | refl => exact Nat.le_refl _
  | tail _ next ih => exact Nat.le_trans next.load ih

theorem Leads.grows (leads : Leads s t) : s.kinds.length ≤ t.kinds.length := by
  induction leads with
  | refl => exact Nat.le_refl _
  | tail _ next ih => exact Nat.le_trans ih next.grows

/-- After the last token was read, all that wait are given out. -/
theorem run_ended (ended : x.ended = true) (enough : x.waiting.length ≤ fuel) :
    x.run fuel = Stream.ofList x.waiting := by
  induction fuel generalizing x with
  | zero =>
    rw [List.eq_nil_of_length_eq_zero (Nat.le_zero.mp enough)]
    rfl
  | succ fuel ih =>
    rw [Lexer.run, if_pos ended]
    simp only [ended, Bool.not_true, Bool.false_and, Bool.false_eq_true, if_false]
    cases waits : x.waiting with
    | nil => rfl
    | cons token rest =>
      rw [waits, List.length_cons] at enough
      have given : Lexer.run fuel (x.reload rest (x.taken + 1)) = Stream.ofList rest :=
        ih ended (Nat.le_of_succ_le_succ enough)
      rw [Stream.ofList, ← given, Lexer.reload, ended]

theorem dropStaleKeys_of_arrive {z : Lexer} (arrives : x.arrive = .ok z) :
    ∃ y, x.dropStaleKeys = .ok y := by
  cases turned : x.turn with
  | error cause => simp [Lexer.arrive, turned, Except.map] at arrives
  | ok v =>
    obtain ⟨-, -, y, dropped, -⟩ := Lexer.turn_eq turned
    exact ⟨y, dropped⟩

/-- A run that has enough fuel gives out all tokens that are met from spot to spot. -/
theorem run_leads (leads : Leads s t) (ends : t.Ends last) (active : x.ended = false)
    (arrives : x.arrive = .ok (s.lexer w n)) (held : Held s.kinds w n) (keeps : s.Keeps n)
    (enough : (t.kinds ++ last).length + s.rest.length + 2 ≤ fuel + n) :
    ∃ ts, x.run fuel = Stream.ofList ts ∧
      s.kinds.take n ++ ts.map (·.kind) = t.kinds ++ last := by
  have within := held.within
  have grows := leads.grows
  rw [List.length_append] at enough
  -- A turn reads a token or gives one out: the fuel is for the text that is left and for the tokens
  -- that are not given out yet.
  induction fuel generalizing s x w n with
  | zero => omega
  | succ fuel ih =>
    obtain ⟨y, dropped⟩ := dropStaleKeys_of_arrive arrives
    have running : y.ended = false := by
      rw [Lexer.dropStaleKeys_eq dropped]
      exact active
    rw [Lexer.run, if_neg (by simp [active]), dropped]
    simp only [running, Bool.not_false, Bool.true_and]
    by_cases more : y.needsMore = true
    · rw [if_pos more, Lexer.fetch_eq dropped arrives]
      rcases leads.cases_head with rfl | ⟨u, next, later⟩
      · obtain ⟨z, all, read, ended⟩ := ends w n held keeps
        have count := all.total
        rw [List.length_append] at count
        refine ⟨z.waiting, ?_, ?_⟩
        · simp only [read]
          exact run_ended ended (by omega)
        · rw [all.waits, ← List.take_append_of_le_length within, List.take_append_drop]
      · obtain ⟨w', z, held', keeps', same, read, active', arrives'⟩ := next.step w n held keeps
        have less := next.shorter
        obtain ⟨ts, given, kinds⟩ :=
          ih later active' arrives' held' keeps' (by omega) held'.within (Leads.grows later)
        refine ⟨ts, ?_, same ▸ kinds⟩
        simp only [read]
        exact given
    · rw [if_neg more]
      cases waits : y.waiting with
      | nil => exact absurd (by simp [Lexer.needsMore, waits]) more
      | cons token rest =>
        obtain ⟨later, rfl, arrives', count, keys⟩ := Lexer.arrive_give dropped arrives waits
        have settled : ∀ k ∈ s.keys, n + 1 ≤ k.2.number := by
          intro k mem
          have other : k.2.number ≠ n := by
            intro same
            refine more ?_
            rw [Lexer.needsMore, Bool.or_eq_true]
            exact .inr (List.any_eq_true.mpr ⟨k, keys k mem, by simp [same, count]⟩)
          have := keeps k mem
          omega
        obtain ⟨ts, given, kinds⟩ := ih (x := y.reload rest (y.taken + 1)) leads running arrives'
          held.give settled (by omega) held.give.within grows
        have first : s.kinds.take (n + 1) = s.kinds.take n ++ [token.kind] := by
          have waits := congrArg List.head? held.waits
          rw [List.map_cons, List.head?_cons, List.head?_drop] at waits
          rw [List.take_add_one, ← waits]
          rfl
        refine ⟨token :: ts, ?_, ?_⟩
        · rw [Stream.ofList, ← given, Lexer.reload, running]
        · rw [first, List.append_assoc] at kinds
          exact kinds

end Spot

/-- The tokens of a text are those that are met from its start to its end. -/
theorem tokens_of_leads {text : List Char} {s t : Spot} {last : List Token.Kind}
    {waiting : List Token} (arrives : (Lexer.start text).arrive = .ok (s.lexer waiting 0))
    (held : Held s.kinds waiting 0) (leads : s.Leads t) (ends : t.Ends last)
    (within : s.load ≤ 4 * text.length + 1) (shorter : s.rest.length ≤ text.length)
    (closed : last.length ≤ t.outer.length + 1) :
    ∃ ts, tokens text = Stream.ofList ts ∧ ts.map (·.kind) = t.kinds ++ last := by
  have load := leads.load
  simp only [Spot.load] at load within
  have enough : (t.kinds ++ last).length + s.rest.length + 2 ≤ 8 * text.length + 32 + 0 := by
    rw [List.length_append]
    omega
  obtain ⟨ts, given, kinds⟩ :=
    Spot.run_leads leads ends rfl arrives held (fun _ _ => Nat.zero_le _) enough
  exact ⟨ts, given, by simpa using kinds⟩

end OverlayBuild.Yaml

import OverlayBuild.Proofs.Outcome
import OverlayBuild.Yaml.Token.Stream

/-! What reading the tokens of a text fails with: a fault in the text, or a number in it that no
character or version has. -/
namespace OverlayBuild.Yaml

/-- Failures of reading tokens: faults, escapes that name no character, and numbers of versions
that cannot be read. -/
def Failure.IsLexical : Failure → Prop
  | .unacceptable _ _ | .malformed _ => True
  | .mismatch .codePoint | .mismatch .codePointSize | .mismatch (.number _) => True
  | .mismatch _ => False

def Lexes {α : Type} (x : Except Failure α) : Prop := Meets Failure.IsLexical (fun _ => True) x

namespace Lexes

variable {α β : Type} {x y : Except Failure α} {f : α → Except Failure β} {failure : Failure}

theorem ok {a : α} : Lexes (.ok a) := trivial

theorem pure {a : α} : Lexes (Pure.pure a) := trivial

theorem error (own : failure.IsLexical) : Lexes (.error failure : Except Failure α) := own

theorem of_error (lexes : Lexes x) (failed : x = .error failure) : failure.IsLexical :=
  Meets.of_error lexes failed

theorem bind (first : Lexes x) (next : ∀ a, Lexes (f a)) : Lexes (x >>= f) :=
  Meets.bind first fun a _ => next a

theorem ite {c : Prop} [Decidable c] (then_ : Lexes x) (else_ : Lexes y) :
    Lexes (if c then x else y) :=
  Meets.ite then_ else_

theorem mapM {items : List α} (each : ∀ a ∈ items, Lexes (f a)) : Lexes (items.mapM f) :=
  (Meets.mapM each).imp (fun _ own => own) fun _ _ => trivial

end Lexes

variable {activity word : Activity} {start : Mark} {wanted : Wanted} {c : Cursor} {double : Bool}
  {length n : Nat} {x : Lexer}

theorem lexes_require {q : Char → Bool} : Lexes (c.require q activity start wanted) :=
  .ite .ok (.error trivial)

theorem lexes_endLine : Lexes (c.endLine activity start) :=
  .bind lexes_require fun _ => .pure

/-! Names, tags and directives. -/

theorem lexes_readWord : Lexes (readWord activity start c) :=
  .bind lexes_require fun _ => .pure

theorem lexes_readAnchor : Lexes (readAnchor activity c) :=
  .bind lexes_readWord fun _ => .bind lexes_require fun _ => .pure

theorem lexes_readHandle : Lexes (readHandle activity start c) :=
  .bind lexes_require fun _ => .ite .pure (.bind lexes_require fun _ => .pure)

theorem lexes_readEscapedBytes : Lexes (readEscapedBytes activity start c) := by
  fun_induction readEscapedBytes activity start c with
  | case1 c rest found digits digit ih =>
    have each (n : Nat) : Lexes (digit n) := by
      unfold digit
      split
      · exact .ok
      · exact .error trivial
    refine .bind (each 0) fun _ => .bind (each 1) fun _ => ?_
    dsimp only
    split
    next less => exact .bind (ih less) fun _ => .pure
    · exact .pure
  | case2 c none => exact .ok

theorem lexes_readUriChars : Lexes (readUriChars activity start c) := by
  fun_induction readUriChars activity start c with
  | case1 c plain after found escapes ih =>
    refine .bind lexes_readEscapedBytes fun _ => ?_
    dsimp only
    split
    · exact .error trivial
    · split
      next less => exact .bind (ih _ less) fun _ => .pure
      · exact .pure
  | case2 => exact .pure

theorem lexes_readUri : Lexes (readUri activity word start c) :=
  .bind lexes_readUriChars fun _ => .ite (.bind (.error trivial) fun _ => .pure) .pure

theorem lexes_readTag : Lexes (readTag c) := by
  have ends {t : TagName} {c : Cursor} {start : Mark} :
      Lexes (c.require isSpaceOrEnd .tag start .space >>= fun _ => pure (t, c)) :=
    .bind lexes_require fun _ => .pure
  refine .ite ?_ (.ite (.bind .pure fun _ => ends) (.ite ?_ ?_))
  · exact .bind lexes_readUri fun _ => .bind lexes_require fun _ => .bind .pure fun _ => ends
  · exact .bind lexes_readHandle fun _ => .bind lexes_readUri fun _ => .bind .pure fun _ => ends
  · exact .bind .pure fun _ => .bind lexes_readUri fun _ => .bind .pure fun _ => ends

theorem lexes_readVersionNumber : Lexes (readVersionNumber start c) := by
  refine .bind lexes_require fun _ => .bind ?_ fun _ => .pure
  cases Number.readInteger 10 (c.span Char.isDigit).1 with
  | error cause => exact .error trivial
  | ok n => exact .ok

theorem lexes_readVersion : Lexes (readVersion start c) :=
  .bind lexes_readVersionNumber fun _ => .bind lexes_require fun _ =>
    .bind lexes_readVersionNumber fun _ => .bind lexes_require fun _ => .pure

theorem lexes_readTagDirective : Lexes (readTagDirective start c) :=
  .bind lexes_readHandle fun _ => .bind lexes_require fun _ =>
    .bind lexes_readUri fun _ => .bind lexes_require fun _ => .pure

theorem lexes_readDirective : Lexes (readDirective c) := by
  refine .bind lexes_readWord fun _ => .bind lexes_require fun _ => .ite ?_ (.ite ?_ ?_)
  · exact .bind lexes_readVersion fun _ => .bind .pure fun _ =>
      .bind lexes_endLine fun _ => .pure
  · exact .bind lexes_readTagDirective fun _ => .bind .pure fun _ =>
      .bind lexes_endLine fun _ => .pure
  · exact .bind .pure fun _ => .bind lexes_endLine fun _ => .pure

/-! Scalars. -/

theorem lexes_readIncrement? : Lexes (readIncrement? start c) :=
  .ite (.ite (.error trivial) .ok) .ok

theorem lexes_readIndicators : Lexes (readIndicators start c) :=
  .bind lexes_readIncrement? fun _ => .bind lexes_require fun _ => .pure

theorem lexes_readBlock {folded : Bool} {parent : Int} : Lexes (readBlock folded parent c) :=
  .bind lexes_readIndicators fun _ => .bind lexes_endLine fun _ => .pure

theorem lexes_charOf : Lexes (charOf n) := by
  refine .ite .ok (.error ?_)
  split <;> trivial

theorem lexes_readCodePoint : Lexes (readCodePoint start length c) := by
  refine .bind (.mapM fun k _ => ?_) fun _ => .bind lexes_charOf fun _ => .pure
  split
  · exact .ok
  · exact .error trivial

theorem lexes_readFoldedBreaks : Lexes (readFoldedBreaks start c) := by
  fun_induction readFoldedBreaks start c with
  | case1 => exact .error trivial
  | case2 => exact .ok
  | case3 c _ _ b next _ less ih => exact .bind ih fun _ => .pure
  | case4 => exact .ok

theorem lexes_readQuotedSpaces : Lexes (readQuotedSpaces start c) := by
  refine .ite (.bind (.error trivial) fun _ => ?_) ?_ <;> split
  · exact .pure
  · exact .bind lexes_readFoldedBreaks fun _ => .pure
  · exact .pure
  · exact .bind lexes_readFoldedBreaks fun _ => .pure

theorem lexes_readEscape : Lexes (readEscape start c) := by
  rw [readEscape]
  split
  · exact .pure
  · exact .bind lexes_readCodePoint fun _ => .pure
  · split
    · exact lexes_readFoldedBreaks
    · exact .error trivial

theorem lexes_goOn {plain piece : List Char} {next : Cursor}
    (rest : ∀ next : Cursor, next.rest.length < c.rest.length →
      Lexes (readQuotedFrom double start next)) :
    Lexes (if _less : next.rest.length < c.rest.length then do
        let (more, c) ← readQuotedFrom double start next
        return (plain ++ piece ++ more, c)
      else .ok (plain ++ piece, next)) := by
  split
  next less => exact .bind (rest next less) fun _ => .pure
  · exact .ok

theorem lexes_readQuotedFrom : Lexes (readQuotedFrom double start c) := by
  fun_induction readQuotedFrom double start c with
  | case1 _ _ _ _ _ _ _ rest => exact lexes_goOn rest
  | case2 => exact .ok
  | case3 _ _ _ _ _ _ _ _ _ _ rest => exact lexes_goOn rest
  | case4 _ _ _ _ _ _ _ _ _ _ _ rest => exact .bind lexes_readEscape fun _ => lexes_goOn rest
  | case5 _ _ _ _ _ _ _ _ _ _ _ rest => exact .bind lexes_readQuotedSpaces fun _ => lexes_goOn rest

theorem lexes_readQuoted : Lexes (readQuoted double c) :=
  .bind lexes_readQuotedFrom fun _ => .pure

/-! Tokens. -/

namespace Lexer

theorem lexes_dropStaleKeys : Lexes x.dropStaleKeys := by
  rw [dropStaleKeys]
  split
  · exact .error trivial
  · exact .ok

theorem lexes_dropKey : Lexes x.dropKey := by
  rw [dropKey]
  split
  · exact .ok
  · exact .ite (.error trivial) .ok

theorem lexes_noteKey : Lexes x.noteKey :=
  .ite (.bind lexes_dropKey fun _ => .pure) .ok

/-- A token that needs no more than the possible key before it to be dropped. -/
theorem lexes_dropKey_then {f : Lexer → Lexer} :
    Lexes (x.dropKey >>= fun y => pure (f y)) :=
  .bind lexes_dropKey fun _ => .pure

theorem lexes_noteKey_then {f : Lexer → Lexer} :
    Lexes (x.noteKey >>= fun y => pure (f y)) :=
  .bind lexes_noteKey fun _ => .pure

theorem lexes_directive : Lexes x.directive :=
  .bind lexes_dropKey fun _ => .bind lexes_readDirective fun _ => .pure

theorem lexes_blockEntry : Lexes x.blockEntry :=
  .ite (.bind (.error trivial) fun _ => lexes_dropKey_then) lexes_dropKey_then

theorem lexes_explicitKey : Lexes x.explicitKey :=
  .ite (.bind (.error trivial) fun _ => lexes_dropKey_then) lexes_dropKey_then

theorem lexes_mappingValue : Lexes x.mappingValue := by
  rw [mappingValue]
  split
  · exact .ok
  · exact .ite (.bind (.error trivial) fun _ => lexes_dropKey_then) lexes_dropKey_then

theorem lexes_anchor {kind : String → Token.Kind} : Lexes (x.anchor activity kind) :=
  .bind lexes_noteKey fun _ => .bind lexes_readAnchor fun _ => .pure

theorem lexes_tag : Lexes x.tag :=
  .bind lexes_noteKey fun _ => .bind lexes_readTag fun _ => .pure

theorem lexes_blockScalar {folded : Bool} : Lexes (x.blockScalar folded) :=
  .bind lexes_dropKey fun _ => .bind lexes_readBlock fun _ => .pure

theorem lexes_quotedScalar : Lexes (x.quotedScalar double) :=
  .bind lexes_noteKey fun _ => .bind lexes_readQuoted fun _ => .pure

theorem lexes_fetch : Lexes x.fetch := by
  refine .bind lexes_dropStaleKeys fun x => ?_
  -- The end, directives and markers of documents.
  refine .ite lexes_dropKey_then (.ite lexes_directive
    (.ite lexes_dropKey_then (.ite lexes_dropKey_then ?_)))
  -- Brackets and the commas in them.
  refine .ite lexes_noteKey_then (.ite lexes_noteKey_then
    (.ite lexes_dropKey_then (.ite lexes_dropKey_then (.ite lexes_dropKey_then ?_))))
  -- Entries, keys and values.
  refine .ite lexes_blockEntry (.ite lexes_explicitKey (.ite lexes_mappingValue ?_))
  refine .ite lexes_anchor (.ite lexes_anchor (.ite lexes_tag ?_))
  -- Scalars in every style.
  refine .ite lexes_blockScalar (.ite lexes_blockScalar (.ite lexes_quotedScalar
    (.ite lexes_quotedScalar (.ite lexes_noteKey_then (.error trivial)))))

end Lexer

def Stream.failure? {α : Type} : Stream α → Option Failure
  | .done => none
  | .failed failure => some failure
  | .item _ rest => rest.failure?

theorem Lexer.isLexical_of_run {fuel : Nat} {failure : Failure}
    (failed : (x.run fuel).failure? = some failure) : failure.IsLexical := by
  induction fuel generalizing x with
  | zero => contradiction
  | succ fuel ih =>
    have first : Lexes (if x.ended then .ok x else x.dropStaleKeys) := .ite .ok lexes_dropStaleKeys
    rw [run] at failed
    split at failed
    next own fails =>
      obtain rfl := Option.some.inj failed
      exact first.of_error fails
    next y _ =>
      split at failed
      · split at failed
        next own fails =>
          obtain rfl := Option.some.inj failed
          exact lexes_fetch.of_error fails
        next z _ => exact ih failed
      · split at failed
        · contradiction
        next token rest _ => exact ih failed

/-- The tokens of a text are cut short by a failure of reading them only. -/
theorem isLexical_of_tokens {text : List Char} {failure : Failure}
    (failed : (tokens text).failure? = some failure) : failure.IsLexical :=
  Lexer.isLexical_of_run failed

end OverlayBuild.Yaml

import Mathlib.Data.List.Chain
import OverlayBuild.Proofs.Yaml.Cursor
import OverlayBuild.Yaml.Sheet

/-! What the small steps of the writer add to the text, and how a text is cut into runs. -/
namespace OverlayBuild.Yaml

namespace Sheet

variable {s : Sheet} {cs : List Char} {n : Nat} {parted spaced indented : Bool}

@[simp] theorem text_write : (s.write cs).text = s.text ++ cs := by simp [text, write]

@[simp] theorem column_write : (s.write cs).column = s.column + cs.length := rfl

@[simp] theorem indented_write : (s.write cs).indented = s.indented := rfl

@[simp] theorem spaced_write : (s.write cs).spaced = s.spaced := rfl

@[simp] theorem text_breakLine : s.breakLine.text = s.text ++ ['\n'] := by simp [text, breakLine]

@[simp] theorem text_settle : s.settle.text = s.text := rfl

@[simp] theorem column_settle : s.settle.column = s.column := rfl

@[simp] theorem indented_settle (s : Sheet) : s.settle.indented = false := rfl

@[simp] theorem spaced_settle : s.settle.spaced = false := rfl

@[simp] theorem text_indicator :
    (s.indicator cs parted spaced indented).text =
      s.text ++ if parted = true ∧ s.spaced = false then ' ' :: cs else cs := by
  cases parted <;> cases own : s.spaced <;> simp [indicator, text, write, own]

/-- The line is new and stands at the column. -/
structure Stands (s : Sheet) (n : Nat) : Prop where
  indented : s.indented = true
  spaced : s.spaced = true
  column : s.column = n

theorem breakLine_stands : s.breakLine.Stands 0 := ⟨rfl, rfl, rfl⟩

/-- Spaces are all that is needed at the start of a line. -/
theorem indentTo_of_stands {m : Nat} (stands : s.Stands m) (within : m ≤ n) :
    (s.indentTo n).text = s.text ++ List.replicate (n - m) ' ' ∧ (s.indentTo n).Stands n := by
  obtain ⟨indented, spaced, rfl⟩ := stands
  have stays : ¬ n < s.column := Nat.not_lt.mpr within
  by_cases more : s.column < n
  · have whole : s.column + (n - s.column) = n := Nat.add_sub_of_le within
    simp [indentTo, indented, spaced, stays, more, whole, write, text]
    exact ⟨rfl, rfl, rfl⟩
  · obtain rfl : s.column = n := by omega
    simp [indentTo, indented, spaced]
    exact ⟨indented, spaced, rfl⟩

/-- Once something stands on the line, the next place is on a new one. -/
theorem indentTo_of_movable (movable : s.indented = false ∨ n < s.column) :
    (s.indentTo n).text = s.text ++ '\n' :: List.replicate n ' ' ∧ (s.indentTo n).Stands n := by
  have moved : s.indentTo n = s.breakLine.indentTo n := by
    have breaks : (!s.indented || decide (n < s.column) || (s.column == n && !s.spaced)) = true := by
      rcases movable with fresh | far <;> simp [*]
    simp [indentTo, breaks, breakLine]
  obtain ⟨text, stands⟩ := indentTo_of_stands (s := s.breakLine) breakLine_stands (Nat.zero_le n)
  rw [moved, text]
  simpa using stands

theorem foldl_breakLine {α : Type} (items : List α) :
    (items.foldl (fun s _ => s.breakLine) s).text =
        s.text ++ List.replicate items.length '\n' ∧
      (s.Stands 0 ∨ items ≠ [] → (items.foldl (fun s _ => s.breakLine) s).Stands 0) := by
  induction items generalizing s with
  | nil => simp
  | cons a items ih =>
    obtain ⟨text, stands⟩ := ih (s := s.breakLine)
    simp only [List.foldl_cons, text]
    exact ⟨by simp [List.replicate_succ], fun _ => stands (.inl breakLine_stands)⟩

end Sheet

/-! Runs. -/

section runs

variable {r : Run} {cs : List Char} {c : Char} {p : Char → Char → Bool}

structure Run.Even (r : Run) : Prop where
  filled : r.text ≠ []
  kind : ∀ c ∈ r.text, Run.kindOf c = r.kind

theorem flatMap_runs (cs : List Char) : (runs cs).flatMap Run.text = cs := by
  induction cs with
  | nil => rfl
  | cons c rest ih =>
    rw [runs]
    cases parts : runs rest with
    | nil => rw [parts] at ih; simpa using ih
    | cons r rs =>
      rw [parts] at ih
      dsimp only
      split <;> simpa using ih

theorem even_of_mem_runs (mem : r ∈ runs cs) : r.Even := by
  induction cs generalizing r with
  | nil => simp [runs] at mem
  | cons c rest ih =>
    have single : Run.Even ⟨Run.kindOf c, [c]⟩ := ⟨by simp, by simp⟩
    rw [runs] at mem
    cases parts : runs rest with
    | nil =>
      rw [parts] at mem
      rw [List.mem_singleton.mp mem]
      exact single
    | cons first rs =>
      rw [parts] at mem ih
      have before := ih List.mem_cons_self
      dsimp only at mem
      split at mem
      next same =>
        rcases List.mem_cons.mp mem with rfl | mem
        · exact ⟨by simp, List.forall_mem_cons.mpr ⟨same.symm, before.kind⟩⟩
        · exact ih (List.mem_cons_of_mem _ mem)
      next =>
        rcases List.mem_cons.mp mem with rfl | mem
        · exact single
        · exact ih mem

theorem kindOf_eq_spaces : Run.kindOf c = .spaces ↔ c = ' ' := by
  unfold Run.kindOf
  split
  · simpa
  · split <;> simp_all

theorem kindOf_eq_breaks : Run.kindOf c = .breaks ↔ c = '\n' := by
  unfold Run.kindOf
  split
  · simp_all
  · split <;> simp_all

theorem kindOf_eq_word : Run.kindOf c = .word ↔ c ≠ ' ' ∧ c ≠ '\n' := by
  unfold Run.kindOf
  split
  · simp_all
  · split <;> simp_all

theorem Run.Even.eq_replicate (even : r.Even) (all : ∀ d, Run.kindOf d = r.kind → d = c) :
    ∃ k, r.text = List.replicate (k + 1) c := by
  obtain ⟨k, length⟩ := Nat.exists_eq_succ_of_ne_zero (List.length_pos_iff.mpr even.filled).ne'
  exact ⟨k, List.eq_replicate_iff.mpr ⟨length, fun d mem => all d (even.kind d mem)⟩⟩

theorem Run.Even.spaces (even : r.Even) (kind : r.kind = .spaces) :
    ∃ k, r.text = List.replicate (k + 1) ' ' :=
  even.eq_replicate fun _ same => kindOf_eq_spaces.mp (same.trans kind)

theorem Run.Even.breaks (even : r.Even) (kind : r.kind = .breaks) :
    ∃ k, r.text = List.replicate (k + 1) '\n' :=
  even.eq_replicate fun _ same => kindOf_eq_breaks.mp (same.trans kind)

theorem Run.Even.word (even : r.Even) (kind : r.kind = .word) :
    ∃ c cs, r.text = c :: cs ∧ ∀ c ∈ r.text, c ≠ ' ' ∧ c ≠ '\n' := by
  obtain ⟨c, cs, text⟩ := List.exists_cons_of_ne_nil even.filled
  exact ⟨c, cs, text, fun d mem => kindOf_eq_word.mp ((even.kind d mem).trans kind)⟩

def Alternates (a b : Run) : Prop := a.kind = .word ↔ b.kind ≠ .word

theorem isChain_runs (clear : Clear cs) (before : spaceBeforeBreak cs = false)
    (after : spaceAfterBreak cs = false) : (runs cs).IsChain Alternates := by
  induction cs with
  | nil => exact .nil
  | cons c rest ih =>
    cases rest with
    | nil => exact .singleton _
    | cons d rest =>
      obtain ⟨verbatim, clear⟩ := clear_cons.mp clear
      have next : isVerbatim d = true := (clear_cons.mp clear).1
      simp only [spaceBeforeBreak, spaceAfterBreak, anyAdjacent, Bool.or_eq_false_iff] at before after
      have chain := ih clear before.2 after.2
      have text := flatMap_runs (d :: rest)
      rw [runs]
      cases parts : runs (d :: rest) with
      | nil => exact .singleton _
      | cons r rs =>
        rw [parts] at chain text
        dsimp only
        split
        next =>
          have moves {b : Run} (own : Alternates r b) : Alternates ⟨r.kind, c :: r.text⟩ b := own
          exact chain.imp_head moves
        next other =>
          refine .cons_cons ?_ chain
          have even : r.Even := even_of_mem_runs (parts ▸ List.mem_cons_self)
          obtain ⟨e, es, own⟩ := List.exists_cons_of_ne_nil even.filled
          rw [List.flatMap_cons, own] at text
          obtain rfl : e = d := (List.cons.inj text).1
          have kind : Run.kindOf e = r.kind := even.kind e (own ▸ List.mem_cons_self)
          rw [← kind] at other
          have first : c = ' ' → e ≠ '\n' := by
            simpa [isTextBreak_of_verbatim next] using before.1
          have second : c = '\n' → e ≠ ' ' := by
            simpa [isTextBreak_of_verbatim verbatim] using after.1
          by_cases space : c = ' '
          · simp_all [Alternates, ← kind, Run.kindOf]
          by_cases feed : c = '\n'
          · simp_all [Alternates, ← kind, Run.kindOf]
          · have own : Run.kindOf c = .word := kindOf_eq_word.mpr ⟨space, feed⟩
            exact ⟨fun _ word => other (kind.trans (word.trans own.symm)), fun _ => own⟩

/-- What parts words is followed by a word or by nothing. -/
theorem word_of_alternates {rs : List Run} (chain : (r :: rs).IsChain Alternates)
    (other : r.kind ≠ .word) : ∀ b ∈ rs.head?, b.kind = .word := by
  intro b mem
  have next : Alternates r b := chain.rel_head? mem
  by_contra parts
  exact other (next.mpr parts)

theorem head_of_alternates {rs : List Run} (even : ∀ r ∈ rs, r.Even)
    (chain : (r :: rs).IsChain Alternates) (other : r.kind ≠ .word) :
    ∀ c ∈ (rs.flatMap Run.text).head?, c ≠ ' ' ∧ c ≠ '\n' := by
  cases rs with
  | nil => simp
  | cons b rs =>
    obtain ⟨c, cs, text, visible⟩ :=
      (even b List.mem_cons_self).word (word_of_alternates chain other b rfl)
    simpa [text] using visible c (text ▸ List.mem_cons_self)

end runs

end OverlayBuild.Yaml

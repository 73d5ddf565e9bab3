import Mathlib.Data.List.TakeWhile
import OverlayBuild.Text.Basic

/-! Characters, and lines and pieces of text, put together and taken apart. -/
namespace OverlayBuild.Text

variable {p : Char → Bool} {x separator : Char} {cs : List Char}

theorem toNat_lt_limit {c : Char} : c.toNat < 0x110000 := by
  rcases c.valid with low | high
  · exact Nat.lt_trans low (by decide)
  · exact high.2

/-- The pieces with the separator behind each are the whole with one more separator. -/
theorem flatMap_splitAt (separator : Char) (cs : List Char) :
    (splitAt separator cs).flatMap (· ++ [separator]) = cs ++ [separator] := by
  induction cs with
  | nil => rfl
  | cons c rest ih =>
    rw [splitAt]
    split
    next same => simp [ih, same]
    next =>
      obtain ⟨piece, pieces, parts⟩ := List.exists_cons_of_ne_nil (splitAt_ne_nil separator rest)
      rw [parts] at ih ⊢
      simpa using ih

theorem splitAt_append (apart : separator ∉ cs) (rest : List Char) :
    splitAt separator (cs ++ separator :: rest) = cs :: splitAt separator rest := by
  induction cs with
  | nil => simp [splitAt]
  | cons c cs ih =>
    obtain ⟨other, apart⟩ := not_or.mp (mt List.mem_cons.mpr apart)
    rw [List.cons_append, splitAt, if_neg fun same => other same.symm, ih apart]

/-- Lines with a break behind each are told by their breaks. -/
theorem splitAt_flatMap {lines : List (List Char)} (apart : ∀ l ∈ lines, separator ∉ l) :
    splitAt separator (lines.flatMap (· ++ [separator])) = lines ++ [[]] := by
  induction lines with
  | nil => rfl
  | cons l lines ih =>
    obtain ⟨first, later⟩ := List.forall_mem_cons.mp apart
    rw [List.flatMap_cons, List.append_assoc, List.singleton_append, splitAt_append first, ih later,
      List.cons_append]

theorem exists_joinWith (separator piece : List Char) (pieces : List (List Char)) :
    ∃ more, joinWith separator (piece :: pieces) = piece ++ more := by
  cases pieces with
  | nil => exact ⟨[], (List.append_nil piece).symm⟩
  | cons next pieces => exact ⟨_, List.append_assoc piece _ _⟩

theorem flatten_intersperse (separator piece : List Char) (pieces : List (List Char)) :
    ((piece :: pieces).intersperse separator).flatten = piece ++ pieces.flatMap (separator ++ ·) := by
  induction pieces generalizing piece with
  | nil => simp
  | cons next pieces ih =>
    rw [List.intersperse_cons_cons, List.flatten_cons, List.flatten_cons, ih, List.flatMap_cons,
      List.append_assoc]

theorem dropEndWhile_append (keep : p x = false) (drop : ∀ c ∈ cs, p c = true)
    (front : List Char) : dropEndWhile p (front ++ x :: cs) = front ++ [x] := by
  have dropped : List.dropWhile p (cs.reverse ++ x :: front.reverse) = x :: front.reverse := by
    rw [List.dropWhile_append_of_pos fun c mem => drop c (List.mem_reverse.mp mem)]
    simp [keep]
  simp [dropEndWhile, dropped]

/-- What is dropped at the end satisfies `p`, and the last character that is kept does not. -/
theorem exists_dropEndWhile (p : Char → Bool) (cs : List Char) :
    ∃ back, cs = dropEndWhile p cs ++ back ∧ (∀ c ∈ back, p c = true) ∧
      ∀ c ∈ (dropEndWhile p cs).getLast?, p c = false := by
  refine ⟨(cs.reverse.takeWhile p).reverse, ?_, fun c mem => ?_, fun c last => ?_⟩
  · rw [dropEndWhile, ← List.reverse_append, List.takeWhile_append_dropWhile, List.reverse_reverse]
  · exact List.mem_takeWhile_imp (List.mem_reverse.mp mem)
  · rw [dropEndWhile, List.getLast?_reverse] at last
    simpa [Option.mem_def.mp last] using List.head?_dropWhile_not p cs.reverse

end OverlayBuild.Text

import Mathlib.Data.List.Basic
import Mathlib.Data.List.Induction
import Mathlib.Data.List.TakeDrop
import Mathlib.Data.List.TakeWhile
import OverlayBuild.Number.Reading
import OverlayBuild.Proofs.Number.Text

/-! The numerals that are written are read back, as long as they have no more digits than are
read. -/
namespace OverlayBuild.Number

open Text

variable {n d : Nat} {cs : List Char} {p : Char → Bool}

theorem dropWhile_of_none (none : ∀ c ∈ cs, p c = false) : cs.dropWhile p = cs := by
  cases cs with
  | nil => rfl
  | cons c cs => exact List.dropWhile_cons_of_neg (by simp [none c List.mem_cons_self])

theorem trimBlanks_of_none (none : ∀ c ∈ cs, isNumberBlank c = false) : trimBlanks cs = cs := by
  rw [trimBlanks, dropWhile_of_none none, dropEndWhile,
    dropWhile_of_none fun c mem => none c (List.mem_reverse.mp mem), List.reverse_reverse]

theorem dropBaseMark_ten : dropBaseMark 10 cs = cs := by
  unfold dropBaseMark
  split <;> simp

theorem separated_of_digits (after : Bool) (digits : ∀ c ∈ cs, c.isDigit = true) :
    separated p after cs = true := by
  induction cs generalizing after with
  | nil => rfl
  | cons c cs ih =>
    obtain ⟨own, digits⟩ := List.forall_mem_cons.mp digits
    have bare : c ≠ '_' := by rintro rfl; contradiction
    unfold separated
    split
    · rfl
    · exact absurd (List.cons.inj ‹_›).1 bare
    · obtain ⟨rfl, rfl⟩ := List.cons.inj ‹_›
      exact ih _ digits

/-- How a digit is read. -/
theorem digitChar_read (small : d < 10) :
    digitOf? 10 (digitChar d) = some d ∧ isNumberBlank (digitChar d) = false := by
  have all : ∀ d < 10,
      digitOf? 10 (digitChar d) = some d ∧ isNumberBlank (digitChar d) = false := by decide
  exact all d small

theorem readInteger_decimal (short : (digits 10 n).length ≤ maxDigits) :
    readInteger 10 (decimal n) = .ok (n : Int) := by
  have small {d : Nat} (mem : d ∈ digits 10 n) : d < 10 := lt_of_mem_digits (by decide) mem
  have blanks : ∀ c ∈ decimal n, isNumberBlank c = false :=
    List.forall_mem_map.mpr fun d mem => (digitChar_read (small mem)).2
  have unsigned : takeSign (decimal n) = (false, decimal n) := by
    unfold takeSign
    split
    next same => exact absurd same decimal_ne_minus
    next same =>
      have digit : ('+').isDigit = true := isDigit_of_mem_decimal (n := n) (same ▸ List.mem_cons_self)
      contradiction
    next => rfl
  have run : (decimal n).span (fun c => (digitOf? 10 c).isSome || c == '_') = (decimal n, []) := by
    have all : ∀ c ∈ decimal n, ((digitOf? 10 c).isSome || c == '_') = true :=
      List.forall_mem_map.mpr fun d mem => by simp [(digitChar_read (small mem)).1]
    rw [List.span_eq_takeWhile_dropWhile, List.takeWhile_eq_self_iff.mpr all,
      List.dropWhile_eq_nil_iff.mpr all]
  have values : (decimal n).filterMap (digitOf? 10) = digits 10 n := by
    rw [decimal, List.filterMap_map]
    calc (digits 10 n).filterMap (digitOf? 10 ∘ digitChar)
        = (digits 10 n).filterMap some :=
          List.filterMap_congr fun d mem => (digitChar_read (small mem)).1
      _ = digits 10 n := List.filterMap_some
  have counted : separated (fun c => (digitOf? 10 c).isSome) false (decimal n) = true :=
    separated_of_digits false fun c mem => isDigit_of_mem_decimal mem
  have fits : ¬ maxDigits < (digits 10 n).length := Nat.not_lt.mpr short
  rw [readInteger, trimBlanks_of_none blanks, unsigned]
  simp only [dropBaseMark_ten, run, values, counted, fits, digits_ne_nil, ofDigits_digits]
  rfl

theorem ofDigits_lt {base : Nat} {ds : List Nat} (small : ∀ d ∈ ds, d < base) :
    ofDigits base ds < base ^ ds.length := by
  induction ds using List.reverseRecOn with
  | nil => exact Nat.one_pos
  | append_singleton ds d ih =>
    obtain ⟨small, last⟩ := List.forall_mem_append.mp small
    have own : d < base := last d List.mem_cons_self
    rw [ofDigits_append, List.length_append, List.length_singleton]
    calc ofDigits base ds * base + d
        < ofDigits base ds * base + base := Nat.add_lt_add_left own _
      _ = (ofDigits base ds + 1) * base := (Nat.succ_mul _ _).symm
      _ ≤ base ^ ds.length * base := Nat.mul_le_mul_right base (ih small)
      _ = base ^ (ds.length + 1) := (Nat.pow_succ ..).symm

theorem lt_of_digitOf? {base : Nat} {c : Char} (digit : digitOf? base c = some d) : d < base := by
  obtain ⟨-, small⟩ := Option.filter_eq_some_iff.mp digit
  exact of_decide_eq_true small

/-- An integer that is read has no more digits than are written out. -/
theorem natAbs_lt_of_readInteger {i : Int} (read : readInteger 10 cs = .ok i) :
    i.natAbs < 10 ^ maxDigits := by
  have bounded (run : List Char) (short : ¬ maxDigits < (run.filterMap (digitOf? 10)).length) :
      ofDigits 10 (run.filterMap (digitOf? 10)) < 10 ^ maxDigits := by
    have small : ∀ d ∈ run.filterMap (digitOf? 10), d < 10 := by
      intro d mem
      obtain ⟨c, -, digit⟩ := List.mem_filterMap.mp mem
      exact lt_of_digitOf? digit
    exact Nat.lt_of_lt_of_le (ofDigits_lt small)
      (Nat.pow_le_pow_right (by decide) (Nat.le_of_not_lt short))
  unfold readInteger at read
  dsimp only at read
  split at read
  · contradiction
  split at read
  · contradiction
  rename_i short
  split at read
  · contradiction
  obtain rfl := Except.ok.inj read
  have fits := bounded _ fun long => short ⟨rfl, long⟩
  split
  · rwa [Int.natAbs_neg, Int.natAbs_natCast]
  · rwa [Int.natAbs_natCast]

end OverlayBuild.Number

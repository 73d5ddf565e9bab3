import OverlayBuild.Proofs.Number.Reading
import OverlayBuild.Yaml.Scalar
import OverlayBuild.Yaml.Style

/-! Integers as scalars: their numerals stand without quotes, are told from text by their form
alone, and give the integer back. -/
namespace OverlayBuild.Yaml

open Text

variable {n : Nat} {i : Int} {c : Char} {cs : List Char}

structure Plainest (c : Char) : Prop where
  verbatim : isVerbatim c = true
  edge : isEdge c = false
  blank : isBlankOrEnd c = false
  leading : c ∉ leadingIndicators
  mark : c ≠ ':' ∧ c ≠ '#' ∧ c ≠ '?' ∧ c ≠ '_' ∧ c ≠ '.' ∧ c ≠ '+'

theorem plainest_of_mem_decimal (mem : c ∈ decimal n) : Plainest c ∧ c ≠ '-' := by
  obtain ⟨d, digit, rfl⟩ := List.mem_map.mp mem
  have all : ∀ d < 10, (isVerbatim (digitChar d) = true ∧ isEdge (digitChar d) = false ∧
      isBlankOrEnd (digitChar d) = false ∧ digitChar d ∉ leadingIndicators) ∧
      (digitChar d ≠ ':' ∧ digitChar d ≠ '#' ∧ digitChar d ≠ '?' ∧ digitChar d ≠ '_' ∧
        digitChar d ≠ '.' ∧ digitChar d ≠ '+') ∧ digitChar d ≠ '-' := by decide
  obtain ⟨⟨verbatim, edge, blank, leading⟩, mark, minus⟩ :=
    all d (lt_of_mem_digits (by decide) digit)
  exact ⟨⟨verbatim, edge, blank, leading, mark⟩, minus⟩

theorem plainest_of_mem_integer (mem : c ∈ integer i) : Plainest c := by
  cases i with
  | ofNat n => exact (plainest_of_mem_decimal mem).1
  | negSucc n =>
    rcases List.mem_cons.mp mem with rfl | mem
    · exact ⟨by decide, by decide, by decide, by decide, by decide⟩
    · exact (plainest_of_mem_decimal mem).1

theorem anyAdjacent_of_forall {p : Char → Char → Bool} (none : ∀ a ∈ cs, ∀ b ∈ cs, p a b = false) :
    anyAdjacent p cs = false := by
  induction cs with
  | nil => rfl
  | cons a cs ih =>
    cases cs with
    | nil => rfl
    | cons b cs =>
      have later := ih fun a first b second =>
        none a (List.mem_cons_of_mem _ first) b (List.mem_cons_of_mem _ second)
      simp [anyAdjacent, later, none a List.mem_cons_self b (by simp)]

theorem holdsIndicator_of_plainest (plain : ∀ c ∈ cs, Plainest c) : holdsIndicator cs = false := by
  induction cs with
  | nil => rfl
  | cons a cs ih =>
    cases cs with
    | nil => rfl
    | cons b cs =>
      obtain ⟨colon, hash, -⟩ := (plain b (by simp)).mark
      have later := ih fun c mem => plain c (List.mem_cons_of_mem _ mem)
      simp [holdsIndicator, later, colon, hash]

theorem startsWithIndicator_cons (minus : c ≠ '-') (point : c ≠ '.') :
    startsWithIndicator (c :: cs) = (leadingIndicators.contains c ||
      ((c == '?' || c == ':' || c == '-') && isBlankOrEnd (cs.headD sentinel))) := by
  unfold startsWithIndicator
  split
  · exact absurd (List.cons.inj ‹_›).1 minus
  · exact absurd (List.cons.inj ‹_›).1 point
  · obtain ⟨rfl, rfl⟩ := List.cons.inj ‹_›
    rfl
  · contradiction

/-- The numeral of an integer can stand without quotes. -/
theorem fitsPlain_integer : fitsPlain (integer i) = true := by
  have plain : ∀ c ∈ integer i, Plainest c := fun c => plainest_of_mem_integer
  have breaks : ∀ c ∈ integer i, isTextBreak c = false := fun c mem =>
    (Bool.or_eq_false_iff.mp (plain c mem).edge).2
  have spaces : ∀ c ∈ integer i, (c == ' ') = false := fun c mem =>
    (Bool.or_eq_false_iff.mp (plain c mem).edge).1
  have single : fitsSingle (integer i) = true := by
    have before : spaceBeforeBreak (integer i) = false :=
      anyAdjacent_of_forall fun a first b _ => by simp [spaces a first]
    have after : spaceAfterBreak (integer i) = false :=
      anyAdjacent_of_forall fun a first b _ => by simp [breaks a first]
    have clear : (integer i).all isVerbatim = true :=
      List.all_eq_true.mpr fun c mem => (plain c mem).verbatim
    simp [fitsSingle, before, after, clear]
  have line : hasBreak (integer i) = false := by simpa [hasBreak] using breaks
  have first : (integer i).head?.any isEdge = false := by
    cases own : (integer i).head? with
    | none => rfl
    | some c => simpa using (plain c (List.mem_of_head? own)).edge
  have last : (integer i).getLast?.any isEdge = false := by
    cases own : (integer i).getLast? with
    | none => rfl
    | some c => simpa using (plain c (List.mem_of_getLast? own)).edge
  have starts : startsWithIndicator (integer i) = false := by
    cases i with
    | ofNat n =>
      obtain ⟨c, cs, same⟩ := List.exists_cons_of_ne_nil (decimal_ne_nil (n := n))
      obtain ⟨own, minus⟩ := plainest_of_mem_decimal (n := n) (same ▸ List.mem_cons_self)
      rw [integer, same, startsWithIndicator_cons minus own.mark.2.2.2.2.1]
      simp [own.leading, own.mark, minus]
    | negSucc n =>
      obtain ⟨c, cs, same⟩ := List.exists_cons_of_ne_nil (decimal_ne_nil (n := n + 1))
      obtain ⟨own, minus⟩ := plainest_of_mem_decimal (n := n + 1) (same ▸ List.mem_cons_self)
      have leading : '-' ∉ leadingIndicators := by decide
      rw [integer, same, startsWithIndicator]
      · simp [leading, own.blank]
      · exact fun _ _ other => minus (List.cons.inj other).1
      · exact fun _ point => absurd point (by decide)
  simp [fitsPlain, single, line, first, last, starts, holdsIndicator_of_plainest plain]

/-! The tag. -/

/-- An integer is a sign and a numeral. -/
theorem integer_eq : integer i = (if i < 0 then ['-'] else []) ++ decimal i.natAbs := by
  cases i with
  | ofNat n => rfl
  | negSucc n => rw [integer, if_pos (Int.negSucc_lt_zero n)]; rfl

theorem dropSign_integer : dropSign (integer i) = decimal i.natAbs := by
  obtain ⟨c, cs, same⟩ := List.exists_cons_of_ne_nil (decimal_ne_nil (n := i.natAbs))
  obtain ⟨own, minus⟩ := plainest_of_mem_decimal (n := i.natAbs) (same ▸ List.mem_cons_self)
  rw [integer_eq]
  split
  · rfl
  · rw [List.nil_append, same]
    unfold dropSign
    split
    · exact absurd (List.cons.inj ‹_›).1 minus
    · exact absurd (List.cons.inj ‹_›).1 own.mark.2.2.2.2.2
    · rfl

theorem dropWhile_digits (digits : ∀ c ∈ cs, c.isDigit = true) :
    cs.dropWhile isDigitOrUnderscore = [] :=
  List.dropWhile_eq_nil_iff.mpr fun c mem => by simp [isDigitOrUnderscore, digits c mem]

theorem skipSixties_nil : skipSixties [] = (0, []) := by unfold skipSixties; rfl

theorem ne_ofList_of_mem {w : String} (numeric : ∀ c ∈ cs, c.isDigit = true ∨ c = '-')
    (other : w.toList.any (fun c => !c.isDigit && c != '-') = true) : String.ofList cs ≠ w := by
  rintro rfl
  obtain ⟨c, mem, own⟩ := List.any_eq_true.mp other
  obtain ⟨digit, minus⟩ : c.isDigit = false ∧ c ≠ '-' := by simpa using own
  rw [String.toList_ofList] at mem
  rcases numeric c mem with own | own
  · rw [own] at digit
    contradiction
  · exact minus own

theorem isFloat_integer : isFloat (integer i) = false := by
  have digits : ∀ c ∈ decimal i.natAbs, c.isDigit = true := fun c => isDigit_of_mem_decimal
  obtain ⟨c, cs, same⟩ := List.exists_cons_of_ne_nil (decimal_ne_nil (n := i.natAbs))
  have pointed : isPointed (decimal i.natAbs) = false := by
    rw [same] at digits ⊢
    simp only [isPointed, dropWhile_digits digits, skipSixties_nil, Bool.and_false]
  have leading : isLeadingPoint (integer i) = false := by
    unfold isLeadingPoint
    split
    next own =>
      have point := plainest_of_mem_integer (i := i) (own ▸ List.mem_cons_self)
      exact absurd rfl point.mark.2.2.2.2.1
    next => rfl
  have infinite : infinities.contains (String.ofList (decimal i.natAbs)) = false := by
    have other : ∀ w ∈ infinities, w.toList.any (fun c => !c.isDigit && c != '-') = true := by decide
    simpa using fun mem => ne_ofList_of_mem (fun c mem => .inl (digits c mem)) (other _ mem) rfl
  have undefined : nans.contains (String.ofList (integer i)) = false := by
    have other : ∀ w ∈ nans, w.toList.any (fun c => !c.isDigit && c != '-') = true := by decide
    simpa using fun mem => ne_ofList_of_mem (fun c => mem_integer) (other _ mem) rfl
  rw [isFloat, dropSign_integer, pointed, leading, infinite, undefined]
  rfl

theorem isInt_integer : isInt (integer i) = true := by
  rw [isInt, dropSign_integer]
  rcases decimal_cases i.natAbs with ⟨zero, -⟩ | ⟨c, cs, same, other⟩
  · rw [zero]
    rfl
  · have digits : ∀ c ∈ decimal i.natAbs, c.isDigit = true := fun c => isDigit_of_mem_decimal
    rw [same] at digits ⊢
    obtain ⟨own, later⟩ := List.forall_mem_cons.mp digits
    split
    · exact absurd (List.cons.inj ‹_›).1 other
    · exact absurd (List.cons.inj ‹_›).1 other
    · exact absurd (List.cons.inj ‹_›).1 other
    · exact absurd (List.cons.inj ‹_›).1 other
    · obtain ⟨rfl, rfl⟩ := List.cons.inj ‹_›
      simp [own, dropWhile_digits later, skipSixties_nil]
    · contradiction

/-- The numeral of an integer is taken for nothing else. -/
theorem tagOf_integer (schema : Schema) : schema.tagOf (String.ofList (integer i)) = Tag.int := by
  have word : boolWords.contains (String.ofList (integer i)) = false := by
    have other : ∀ w ∈ boolWords, w.toList.any (fun c => !c.isDigit && c != '-') = true := by decide
    simpa using fun mem => ne_ofList_of_mem (fun c => mem_integer) (other _ mem) rfl
  have line : (integer i).getLast? ≠ some '\n' := fun feed =>
    absurd (plainest_of_mem_integer (List.mem_of_getLast? feed)).edge (by decide)
  rw [Schema.tagOf, String.toList_ofList]
  simp only [integer_ne_nil, withoutBreak, line, if_false, Schema.tagOfLine, word, isFloat_integer,
    isInt_integer]
  rfl

/-! The value. -/

theorem filter_integer : (integer i).filter (· != '_') = integer i :=
  List.filter_eq_self.mpr fun c mem => by simpa using (plainest_of_mem_integer mem).mark.2.2.2.1

theorem splitSign_integer :
    splitSign (integer i) = .ok (decide (i < 0), decimal i.natAbs) := by
  obtain ⟨c, cs, same⟩ := List.exists_cons_of_ne_nil (decimal_ne_nil (n := i.natAbs))
  obtain ⟨own, minus⟩ := plainest_of_mem_decimal (n := i.natAbs) (same ▸ List.mem_cons_self)
  rw [integer_eq]
  split
  next negative => simp [splitSign, negative]
  next positive =>
    rw [List.nil_append, same]
    unfold splitSign
    split
    · contradiction
    · exact absurd (List.cons.inj ‹_›).1 minus
    · exact absurd (List.cons.inj ‹_›).1 own.mark.2.2.2.2.2
    · simp [positive]

/-- An integer of not too many digits is read back from its numeral. -/
theorem intValue_integer (small : i.natAbs < 10 ^ Number.maxDigits) :
    intValue (integer i) = .ok i := by
  have short : (digits 10 i.natAbs).length ≤ Number.maxDigits := by
    obtain ⟨width, same⟩ : ∃ width, Number.maxDigits = width + 1 := ⟨_, rfl⟩
    rw [same] at small ⊢
    exact length_digits_le small
  have read := Number.readInteger_decimal short
  have whole : (if i < 0 then -(i.natAbs : Int) else i.natAbs) = i := by split <;> omega
  rw [intValue, filter_integer, splitSign_integer]
  rcases decimal_cases i.natAbs with ⟨zero, none⟩ | ⟨c, cs, same, other⟩
  · rw [zero]
    simp only [bind, Except.bind, pure, Except.pure, decide_eq_true_eq]
    rw [none] at whole
    exact congrArg Except.ok whole
  · have colon : (c :: cs).contains ':' = false := by
      have plain : ∀ c ∈ decimal i.natAbs, c ≠ ':' := fun c mem =>
        (plainest_of_mem_decimal mem).1.mark.1
      rw [same] at plain
      simpa using fun mem => plain _ mem rfl
    rw [same] at read ⊢
    simp only [bind, Except.bind, pure, Except.pure, decide_eq_true_eq]
    split
    · exact absurd ‹c :: cs = []› (List.cons_ne_nil c cs)
    · exact absurd (List.cons.inj ‹_›).1 other
    · exact absurd (List.cons.inj ‹_›).1 other
    · exact absurd (List.cons.inj ‹_›).1 other
    · exact absurd (List.cons.inj ‹_›).1 other
    · simp only [colon, readInt, read, Except.mapError]
      exact congrArg Except.ok whole

end OverlayBuild.Yaml

import OverlayBuild.Proofs.Number.Reading
import OverlayBuild.Proofs.Text

/-! What spells an integer. The grammar of numerals has blanks, a sign, and decimal digits of any
script with single underscores between them; a text is read as an integer exactly where the grammar
has it, and as the integer that it spells there. The numerals that are written are among them. -/
namespace OverlayBuild.Number

open Text

/-- Decimal digits of any script with their values, and single underscores between them. -/
inductive Digits : List Char → List Nat → Prop where
  | last {c : Char} {d : Nat} (digit : digitValue? c = some d) : Digits [c] [d]
  | next {c : Char} {d : Nat} {cs : List Char} {ds : List Nat} (digit : digitValue? c = some d)
      (rest : Digits cs ds) : Digits (c :: cs) (d :: ds)
  | parted {c : Char} {d : Nat} {cs : List Char} {ds : List Nat} (digit : digitValue? c = some d)
      (rest : Digits cs ds) : Digits (c :: '_' :: cs) (d :: ds)

inductive Signed : List Char → List Char → Bool → Prop where
  | bare (body : List Char) : Signed body body false
  | plus (body : List Char) : Signed ('+' :: body) body false
  | minus (body : List Char) : Signed ('-' :: body) body true

def signed (negative : Bool) (n : Nat) : Int := if negative then -n else n

/-- A text that spells an integer: blanks around a sign and digits, not too many of them. -/
inductive Numeral : List Char → Int → Prop where
  | intro {front word back body : List Char} {negative : Bool} {ds : List Nat}
      (before : ∀ c ∈ front, isNumberBlank c = true) (after : ∀ c ∈ back, isNumberBlank c = true)
      (signed : Signed word body negative) (digits : Digits body ds)
      (short : ds.length ≤ maxDigits) :
      Numeral (front ++ word ++ back) (Number.signed negative (ofDigits 10 ds))

variable {c : Char} {d : Nat} {cs word body front back : List Char} {ds : List Nat}
  {negative : Bool} {n : Int}

/-! Digits. -/

theorem exists_zero (digit : digitValue? c = some d) :
    ∃ z ∈ zeros, c.toNat = z + d ∧ d < 10 := by
  obtain ⟨z, found, rfl⟩ := Option.map_eq_some_iff.mp digit
  have mem := List.mem_of_find?_eq_some found
  have inside := List.find?_some found
  simp only [Bool.and_eq_true, decide_eq_true_eq] at inside
  exact ⟨z, mem, by omega, by omega⟩

theorem digitValue?_of_ascii (low : 0x30 ≤ c.toNat) (high : c.toNat ≤ 0x39) :
    digitValue? c = some (c.toNat - 0x30) := by
  have first : zeros.find? (fun z => z ≤ c.toNat && c.toNat < z + 10) = some 0x30 := by
    apply List.find?_cons_of_pos
    simp only [Bool.and_eq_true, decide_eq_true_eq]
    omega
  rw [digitValue?, first, Option.map_some]

theorem digitValue?_of_letter (low : 0x39 < c.toNat) (high : c.toNat < 0x660) :
    digitValue? c = none := by
  have apart : ∀ z ∈ zeros, z = 0x30 ∨ 0x660 ≤ z := by decide
  by_contra digit
  obtain ⟨d, digit⟩ := Option.ne_none_iff_exists'.mp digit
  obtain ⟨z, mem, place, small⟩ := exists_zero digit
  rcases apart z mem with ascii | other <;> omega

/-- To base ten the letters are no digits. -/
theorem digitOf?_ten : digitOf? 10 = digitValue? := by
  funext c
  have le (a b : Char) : a ≤ b ↔ a.toNat ≤ b.toNat := Iff.rfl
  rw [digitOf?, hexValue?]
  simp only [le]
  split
  next ascii =>
    obtain ⟨low, high⟩ : 0x30 ≤ c.toNat ∧ c.toNat ≤ 0x39 := ascii
    have small : c.toNat - 0x30 < 10 := by omega
    simp [digitValue?_of_ascii low high, Option.filter, small]
  split
  next lower =>
    obtain ⟨low, high⟩ : 0x61 ≤ c.toNat ∧ c.toNat ≤ 0x66 := lower
    have large : ¬ c.toNat - 0x57 < 10 := by omega
    simp [digitValue?_of_letter (c := c) (by omega) (by omega), Option.filter, large]
  split
  next upper =>
    obtain ⟨low, high⟩ : 0x41 ≤ c.toNat ∧ c.toNat ≤ 0x46 := upper
    have large : ¬ c.toNat - 0x37 < 10 := by omega
    simp [digitValue?_of_letter (c := c) (by omega) (by omega), Option.filter, large]
  next =>
    cases digit : digitValue? c with
    | none => rfl
    | some d =>
      obtain ⟨-, -, -, small⟩ := exists_zero digit
      simp [Option.filter, small]

theorem ne_of_digit {mark : Char} (digit : digitValue? c = some d) (other : digitValue? mark = none) :
    c ≠ mark := by
  rintro rfl
  rw [other] at digit
  contradiction

/-- The digits of each script lie between the blanks. -/
theorem not_blank_of_digit (digit : digitValue? c = some d) : isNumberBlank c = false := by
  have apart : ∀ z ∈ zeros, z = 0x30 ∨ 0x660 ≤ z ∧ z + 10 ≤ 0x1680 ∨
      0x1681 ≤ z ∧ z + 10 ≤ 0x2000 ∨ 0x3001 ≤ z := by decide
  obtain ⟨z, mem, place, small⟩ := exists_zero digit
  have range := apart z mem
  have solid : isBlank c = false := by
    simp only [isBlank, Bool.or_eq_false_iff, Bool.and_eq_false_iff, decide_eq_false_iff_not,
      beq_eq_false_iff_ne]
    omega
  rw [isNumberBlank, solid, Bool.false_and]

/-- The characters of digits. -/
theorem Digits.each (digits : Digits cs ds) : ∀ c ∈ cs, c = '_' ∨ ∃ d, digitValue? c = some d := by
  induction digits with
  | last digit => exact List.forall_mem_singleton.mpr (.inr ⟨_, digit⟩)
  | next digit _ ih => exact List.forall_mem_cons.mpr ⟨.inr ⟨_, digit⟩, ih⟩
  | parted digit _ ih =>
    exact List.forall_mem_cons.mpr ⟨.inr ⟨_, digit⟩, List.forall_mem_cons.mpr ⟨.inl rfl, ih⟩⟩

theorem Digits.head (digits : Digits cs ds) :
    ∃ c d rest, cs = c :: rest ∧ digitValue? c = some d := by
  cases digits with
  | last digit | next digit _ | parted digit _ => exact ⟨_, _, _, rfl, digit⟩

theorem Digits.values (digits : Digits cs ds) : cs.filterMap digitValue? = ds ∧ ds ≠ [] := by
  induction digits with
  | last digit => simp [digit]
  | next digit _ ih => simp [digit, ih.1]
  | parted digit _ ih =>
    have mark : digitValue? '_' = none := by decide
    simp [digit, mark, ih.1]

theorem separated_cons {p : Char → Bool} (other : c ≠ '_') (after : Bool) :
    separated p after (c :: cs) = separated p (p c) cs := by
  rw [separated]
  exact fun same => other same

theorem Digits.separated (digits : Digits cs ds) (after : Bool) :
    separated (fun c => (digitValue? c).isSome) after cs = true := by
  have other {c : Char} {d : Nat} (digit : digitValue? c = some d) : c ≠ '_' :=
    ne_of_digit digit (by decide)
  induction digits generalizing after with
  | last digit => rw [separated_cons (other digit), Number.separated]
  | next digit _ ih => rw [separated_cons (other digit), ih]
  | parted digit rest ih =>
    obtain ⟨e, value, cs, rfl, first⟩ := rest.head
    rw [separated_cons (other digit), Number.separated, ih]
    simp [digit, first]

/-- Between digits that are separated, and after a digit, single underscores stand. -/
theorem digits_of_separated (each : ∀ c ∈ cs, c = '_' ∨ ∃ d, digitValue? c = some d) :
    (separated (fun c => (digitValue? c).isSome) true cs = true → ∀ c d, digitValue? c = some d →
      Digits (c :: cs) (d :: cs.filterMap digitValue?)) ∧
    (separated (fun c => (digitValue? c).isSome) false cs = true → cs ≠ [] →
      Digits cs (cs.filterMap digitValue?)) := by
  have mark : digitValue? '_' = none := by decide
  induction cs with
  | nil => exact ⟨fun _ c d digit => .last digit, fun _ some => absurd rfl some⟩
  | cons e cs ih =>
    obtain ⟨own, each⟩ := List.forall_mem_cons.mp each
    obtain ⟨behind, ahead⟩ := ih each
    rcases own with rfl | ⟨value, first⟩
    · rw [List.filterMap_cons_none mark]
      constructor
      · intro parted c d digit
        rw [separated] at parted
        simp only [Bool.true_and, Bool.and_eq_true] at parted
        obtain ⟨starts, parted⟩ := parted
        refine .parted digit (ahead parted ?_)
        rintro rfl
        contradiction
      · intro parted
        rw [separated] at parted
        simp at parted
    · have step (after : Bool) : separated (fun c => (digitValue? c).isSome) after (e :: cs) =
          separated (fun c => (digitValue? c).isSome) true cs := by
        rw [separated_cons (ne_of_digit first mark), first, Option.isSome_some]
      rw [List.filterMap_cons_some first, step, step]
      exact ⟨fun parted c d digit => .next digit (behind parted e value first),
        fun parted _ => behind parted e value first⟩

/-! Blanks and signs. -/

theorem exists_trimBlanks (cs : List Char) : ∃ front back, cs = front ++ trimBlanks cs ++ back ∧
    (∀ c ∈ front, isNumberBlank c = true) ∧ ∀ c ∈ back, isNumberBlank c = true := by
  obtain ⟨back, rest, blank, -⟩ := exists_dropEndWhile isNumberBlank (cs.dropWhile isNumberBlank)
  refine ⟨cs.takeWhile isNumberBlank, back, ?_, fun c mem => List.mem_takeWhile_imp mem, blank⟩
  rw [trimBlanks, List.append_assoc, ← rest, List.takeWhile_append_dropWhile]

theorem trimBlanks_around (before : ∀ c ∈ front, isNumberBlank c = true)
    (after : ∀ c ∈ back, isNumberBlank c = true) (solid : ∀ c ∈ word, isNumberBlank c = false)
    (some : word ≠ []) : trimBlanks (front ++ word ++ back) = word := by
  obtain ⟨c, rest, rfl⟩ := List.exists_cons_of_ne_nil some
  have first : isNumberBlank c = false := solid c List.mem_cons_self
  have started : (c :: rest ++ back).dropWhile isNumberBlank = c :: rest ++ back := by
    rw [List.cons_append, List.dropWhile_cons_of_neg (by simp [first])]
  have ended : ((c :: rest).reverse).dropWhile isNumberBlank = (c :: rest).reverse :=
    dropWhile_of_none fun c mem => solid c (List.mem_reverse.mp mem)
  rw [trimBlanks, List.append_assoc, List.dropWhile_append_of_pos before, started, dropEndWhile,
    List.reverse_append, List.dropWhile_append_of_pos fun c mem => after c (List.mem_reverse.mp mem),
    ended, List.reverse_reverse]

theorem takeSign_signed (cs : List Char) : Signed cs (takeSign cs).2 (takeSign cs).1 := by
  unfold takeSign
  split
  · exact .minus _
  · exact .plus _
  · exact .bare _

theorem Signed.takeSign (signed : Signed word body negative) (digits : Digits body ds) :
    takeSign word = (negative, body) := by
  obtain ⟨c, d, rest, rfl, digit⟩ := digits.head
  cases signed with
  | minus | plus => rfl
  | bare =>
    unfold Number.takeSign
    split
    next same =>
      obtain ⟨rfl, -⟩ := List.cons.inj same
      exact absurd rfl (ne_of_digit digit (by decide))
    next same =>
      obtain ⟨rfl, -⟩ := List.cons.inj same
      exact absurd rfl (ne_of_digit digit (by decide))
    next => rfl

theorem Signed.solid (signed : Signed word body negative) (digits : Digits body ds) :
    word ≠ [] ∧ ∀ c ∈ word, isNumberBlank c = false := by
  have own : ∀ c ∈ body, isNumberBlank c = false := by
    intro c mem
    rcases digits.each c mem with rfl | ⟨d, digit⟩
    · decide
    · exact not_blank_of_digit digit
  obtain ⟨c, d, rest, rfl, -⟩ := digits.head
  cases signed with
  | bare => exact ⟨List.cons_ne_nil _ _, own⟩
  | plus | minus => exact ⟨List.cons_ne_nil _ _, List.forall_mem_cons.mpr ⟨by decide, own⟩⟩

/-- What is left between the blanks and after the sign is read where it has digits, not too many of
them, and nothing else but underscores that part them. -/
theorem readInteger_eq_ok_iff_of_signed (signed : takeSign (trimBlanks cs) = (negative, body)) :
    readInteger 10 cs = .ok n ↔
      (∀ c ∈ body, c = '_' ∨ ∃ d, digitValue? c = some d) ∧
      separated (fun c => (digitValue? c).isSome) false body = true ∧
      (body.filterMap digitValue?).length ≤ maxDigits ∧ body.filterMap digitValue? ≠ [] ∧
      Number.signed negative (ofDigits 10 (body.filterMap digitValue?)) = n := by
  have inside (c : Char) :
      (c = '_' ∨ ∃ d, digitValue? c = some d) ↔ ((digitValue? c).isSome || c == '_') = true := by
    rw [Bool.or_eq_true, Option.isSome_iff_exists, beq_iff_eq, or_comm]
  simp only [inside]
  rw [readInteger, signed, Number.signed]
  simp only [digitOf?_ten, dropBaseMark_ten, List.span_eq_takeWhile_dropWhile]
  by_cases all : ∀ c ∈ body, ((digitValue? c).isSome || c == '_') = true
  · rw [List.takeWhile_eq_self_iff.mpr all, List.dropWhile_eq_nil_iff.mpr all]
    grind
  · have rest : body.dropWhile (fun c => (digitValue? c).isSome || c == '_') ≠ [] :=
      fun nothing => all (List.dropWhile_eq_nil_iff.mp nothing)
    grind

/-- A text is read as the integer that it spells, and as none where it is no numeral. -/
theorem readInteger_eq_ok_iff : readInteger 10 cs = .ok n ↔ Numeral cs n := by
  constructor
  · intro read
    obtain ⟨front, back, whole, before, after⟩ := exists_trimBlanks cs
    have signed := takeSign_signed (trimBlanks cs)
    cases parts : takeSign (trimBlanks cs) with
    | mk negative body =>
      rw [parts] at signed
      obtain ⟨each, parted, short, several, rfl⟩ := (readInteger_eq_ok_iff_of_signed parts).mp read
      have some : body ≠ [] := by
        rintro rfl
        contradiction
      rw [whole]
      exact .intro before after signed ((digits_of_separated each).2 parted some) short
  · rintro ⟨before, after, signed, digits, short⟩
    obtain ⟨some, solid⟩ := signed.solid digits
    obtain ⟨values, several⟩ := digits.values
    have parts := (congrArg takeSign (trimBlanks_around before after solid some)).trans
      (signed.takeSign digits)
    rw [readInteger_eq_ok_iff_of_signed parts, values]
    exact ⟨digits.each, digits.separated false, short, several, rfl⟩

/-! The numerals that are written. -/

theorem digits_map_digitChar (small : ∀ d ∈ ds, d < 10) (some : ds ≠ []) :
    Digits (ds.map digitChar) ds := by
  induction ds with
  | nil => contradiction
  | cons d ds ih =>
    obtain ⟨own, small⟩ := List.forall_mem_cons.mp small
    have digit : digitValue? (digitChar d) = .some d := by
      rw [← digitOf?_ten]
      exact (digitChar_read own).1
    cases ds with
    | nil => exact .last digit
    | cons e ds => exact .next digit (ih small (List.cons_ne_nil e ds))

/-- An integer that is not too long is spelled by the numeral that is written for it. -/
theorem numeral_integer (short : n.natAbs < 10 ^ maxDigits) : Numeral (integer n) n := by
  have written {m : Nat} (fits : m < 10 ^ maxDigits) :
      Digits (decimal m) (digits 10 m) ∧ (digits 10 m).length ≤ maxDigits := by
    have small : ∀ d ∈ digits 10 m, d < 10 := fun d mem => lt_of_mem_digits (by decide) mem
    have width : maxDigits = 4299 + 1 := rfl
    rw [width] at fits ⊢
    exact ⟨digits_map_digitChar small (digits_ne_nil 10 m), length_digits_le fits⟩
  cases n with
  | ofNat m =>
    obtain ⟨spelled, fits⟩ := written short
    have numeral : Numeral ([] ++ decimal m ++ []) (signed false (ofDigits 10 (digits 10 m))) :=
      .intro nofun nofun (.bare _) spelled fits
    rwa [ofDigits_digits, List.nil_append, List.append_nil] at numeral
  | negSucc m =>
    obtain ⟨spelled, fits⟩ := written (m := m + 1) short
    have numeral : Numeral ([] ++ '-' :: decimal (m + 1) ++ [])
        (signed true (ofDigits 10 (digits 10 (m + 1)))) :=
      .intro nofun nofun (.minus _) spelled fits
    rwa [ofDigits_digits, List.nil_append, List.append_nil] at numeral

end OverlayBuild.Number

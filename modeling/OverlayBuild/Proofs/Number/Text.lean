import Mathlib.Algebra.Group.Nat.Defs
import OverlayBuild.Number.Shortest

/-! The characters of numbers. An integer has digits after at most a sign, and its text tells
which integer it is. A finite floating point number always shows a point or an exponent, so
that its text is that of no integer. -/
namespace OverlayBuild

namespace Text

variable {n m d : Nat} {c : Char}

def isNumeric (c : Char) : Bool := c.isDigit || c = '-' || c = '+' || c = '.' || c = 'e'

theorem digitChar_spec (small : d < 10) :
    (digitChar d).isDigit = true ∧ (digitChar d).toNat - 0x30 = d := by
  have all : ∀ d < 10, (digitChar d).isDigit = true ∧ (digitChar d).toNat - 0x30 = d := by decide
  exact all d small

theorem isDigit_of_mem_decimal (mem : c ∈ decimal n) : c.isDigit = true := by
  obtain ⟨d, digit, rfl⟩ := List.mem_map.mp mem
  exact (digitChar_spec (lt_of_mem_digits (by decide) digit)).1

theorem decimal_ne_nil : decimal n ≠ [] := by simp [decimal, digits_ne_nil]

/-- The digits of a numeral are read off its characters. -/
theorem map_decimal : (decimal n).map (fun c => c.toNat - 0x30) = digits 10 n := by
  rw [decimal, List.map_map]
  exact List.map_congr_left (fun d mem => (digitChar_spec (lt_of_mem_digits (by decide) mem)).2)
    |>.trans (List.map_id _)

theorem decimal_inj : decimal n = decimal m ↔ n = m := by
  refine ⟨fun same => ?_, fun same => same ▸ rfl⟩
  rw [← ofDigits_digits 10 n, ← ofDigits_digits 10 m, ← map_decimal, ← map_decimal, same]

theorem decimal_ne_minus {cs : List Char} : decimal n ≠ '-' :: cs := by
  intro same
  have digit : ('-').isDigit = true := isDigit_of_mem_decimal (n := n) (same ▸ List.mem_cons_self)
  contradiction

theorem integer_inj {i j : Int} : integer i = integer j ↔ i = j := by
  refine ⟨fun same => ?_, fun same => same ▸ rfl⟩
  cases i <;> cases j <;> simp only [integer, List.cons.injEq, true_and, decimal_inj] at same
  · rw [same]
  · exact absurd same decimal_ne_minus
  · exact absurd same.symm decimal_ne_minus
  · rw [Nat.succ.inj same]

/-- Nothing but digits after at most a minus sign. -/
theorem mem_integer {i : Int} (mem : c ∈ integer i) : c.isDigit = true ∨ c = '-' := by
  cases i with
  | ofNat n => exact .inl (isDigit_of_mem_decimal mem)
  | negSucc n => exact (List.mem_cons.mp mem).symm.imp_left isDigit_of_mem_decimal

theorem integer_ne_nil {i : Int} : integer i ≠ [] := by
  cases i with
  | ofNat n => exact decimal_ne_nil
  | negSucc n => exact List.cons_ne_nil _ _

theorem isNumeric_of_isDigit (digit : c.isDigit = true) : isNumeric c = true := by
  simp [isNumeric, digit]

theorem isNumeric_of_mem_integer {i : Int} (mem : c ∈ integer i) : isNumeric c = true := by
  rcases mem_integer mem with digit | rfl
  · exact isNumeric_of_isDigit digit
  · rfl

theorem length_digits_le {base width : Nat} (small : n < base ^ (width + 1)) :
    (digits base n).length ≤ width + 1 := by
  induction width generalizing n with
  | zero =>
    rw [digits, if_pos (.inl (by simpa using small))]
    simp
  | succ width ih =>
    rw [digits]
    split
    · simp
    · have less : n / base < base ^ (width + 1) :=
        Nat.div_lt_of_lt_mul (by rwa [Nat.mul_comm, ← Nat.pow_succ])
      rw [List.length_append, List.length_singleton]
      exact Nat.succ_le_succ (ih less)

theorem ofDigits_zeros (base k : Nat) (ds : List Nat) :
    ofDigits base (List.replicate k 0 ++ ds) = ofDigits base ds := by
  induction k with
  | zero => rfl
  | succ k ih => simpa [ofDigits, List.replicate_succ] using ih

/-- A number filled up to a count of hexadecimal digits, and how the digits are read back. -/
theorem zeroFill_spec {shown : Nat → Char} (zero : shown 0 = '0') {width : Nat}
    (small : n < 16 ^ (width + 1)) :
    ∃ ds, zeroFill (width + 1) ((digits 16 n).map shown) = ds.map shown ∧ ds.length = width + 1 ∧
      (∀ d ∈ ds, d < 16) ∧ ofDigits 16 ds = n := by
  have fits := length_digits_le small
  refine ⟨List.replicate (width + 1 - (digits 16 n).length) 0 ++ digits 16 n, ?_, ?_, ?_, ?_⟩
  · rw [zeroFill, List.map_append, List.map_replicate, List.length_map, zero]
  · rw [List.length_append, List.length_replicate]
    omega
  · intro d mem
    rcases List.mem_append.mp mem with zero | digit
    · rw [List.eq_of_mem_replicate zero]
      decide
    · exact lt_of_mem_digits (by decide) digit
  · rw [ofDigits_zeros, ofDigits_digits]

theorem fixedHex_spec {width : Nat} (small : n < 16 ^ (width + 1)) :
    ∃ ds, fixedHex (width + 1) n = ds.map digitChar ∧ ds.length = width + 1 ∧
      (∀ d ∈ ds, d < 16) ∧ ofDigits 16 ds = n :=
  zeroFill_spec (by decide) small

theorem fixedUpperHex_spec {width : Nat} (small : n < 16 ^ (width + 1)) :
    ∃ ds, fixedUpperHex (width + 1) n = ds.map upperDigitChar ∧ ds.length = width + 1 ∧
      (∀ d ∈ ds, d < 16) ∧ ofDigits 16 ds = n :=
  zeroFill_spec (by decide) small

/-- No numeral but that of zero starts with a zero. -/
theorem head_digits_ne_zero (base : Nat) (positive : 0 < n) : (digits base n).head? ≠ some 0 := by
  fun_induction digits base n with
  | case1 => simpa using Nat.ne_of_gt positive
  | case2 n large ih =>
    obtain ⟨d, ds, same⟩ := List.exists_cons_of_ne_nil (digits_ne_nil base (n / base))
    rw [same, List.cons_append, List.head?_cons, ← List.head?_cons (l := ds), ← same]
    exact ih (Nat.div_pos (by omega) (by omega))

theorem decimal_cases (n : Nat) :
    decimal n = ['0'] ∧ n = 0 ∨ ∃ c cs, decimal n = c :: cs ∧ c ≠ '0' := by
  rcases Nat.eq_zero_or_pos n with rfl | positive
  · exact .inl ⟨by simp [decimal, digits, digitChar], rfl⟩
  · obtain ⟨d, ds, same⟩ := List.exists_cons_of_ne_nil (digits_ne_nil 10 n)
    have first : d ≠ 0 := by simpa [same] using head_digits_ne_zero 10 positive
    have small : d < 10 := lt_of_mem_digits (by decide) (same ▸ List.mem_cons_self)
    have shown : ∀ d < 10, d ≠ 0 → digitChar d ≠ '0' := by decide
    exact .inr ⟨_, _, by rw [decimal, same, List.map_cons], shown d small first⟩

theorem hexValue?_digitChar : ∀ d < 16, hexValue? (digitChar d) = some d := by decide

theorem hexValue?_upperDigitChar : ∀ d < 16, hexValue? (upperDigitChar d) = some d := by decide

end Text

namespace Binary64

open Text

variable {x : Binary64} {c : Char} {cs front back digits : List Char} {point : Int}

def IsFinite : Binary64 → Prop
  | .finite _ _ _ => True
  | _ => False

/-- A text of digits, signs, points and exponents that could not be that of an integer. -/
structure Pointed (cs : List Char) : Prop where
  numeric : ∀ c ∈ cs, isNumeric c = true
  pointed : ∃ c ∈ cs, c = '.' ∨ c = 'e'

theorem Pointed.ne_integer {i : Int} (pointed : Pointed cs) : cs ≠ integer i := by
  rintro rfl
  obtain ⟨c, mem, mark⟩ := pointed.pointed
  rcases mem_integer mem with digit | rfl
  · rcases mark with rfl | rfl <;> contradiction
  · simp at mark

/-- Numeric texts around a point or an exponent. -/
theorem Pointed.around (front : List Char) (before : ∀ c ∈ front, isNumeric c = true)
    (mark : c = '.' ∨ c = 'e') (after : ∀ c ∈ back, isNumeric c = true) :
    Pointed (front ++ c :: back) where
  numeric := by
    have own : isNumeric c = true := by rcases mark with rfl | rfl <;> rfl
    exact List.forall_mem_append.mpr ⟨before, List.forall_mem_cons.mpr ⟨own, after⟩⟩
  pointed := ⟨c, List.mem_append_right _ List.mem_cons_self, mark⟩

theorem isDigit_of_mem_digits {d : Decimal} (mem : c ∈ d.digits) : c.isDigit = true := by
  have inside : c ∈ (decimal d.coefficient).reverse :=
    (List.dropWhile_suffix _).subset (List.mem_reverse.mp mem)
  exact isDigit_of_mem_decimal (List.mem_reverse.mp inside)

theorem isNumeric_of_mem_zeros {k : Nat} (mem : c ∈ List.replicate k '0') :
    isNumeric c = true := by
  rw [List.eq_of_mem_replicate mem]
  rfl

theorem layout_pointed (numeric : ∀ c ∈ digits, isNumeric c = true) :
    Pointed (layout digits point) := by
  have zeros {k : Nat} (c : Char) (mem : c ∈ List.replicate k '0') : isNumeric c = true :=
    isNumeric_of_mem_zeros mem
  unfold layout
  dsimp only
  split
  · split
    · -- Zeros between the point and the digits.
      exact .around ['0'] (by simp [isNumeric]) (.inl rfl)
        (List.forall_mem_append.mpr ⟨zeros, numeric⟩)
    · split
      · -- Zeros between the digits and the point.
        exact .around _ (List.forall_mem_append.mpr ⟨numeric, zeros⟩) (.inl rfl)
          (by simp [isNumeric])
      · exact .around _ (fun c mem => numeric c (List.mem_of_mem_take mem)) (.inl rfl)
          fun c mem => numeric c (List.mem_of_mem_drop mem)
  · refine .around _ ?_ (.inr rfl) (List.forall_mem_cons.mpr ⟨by split <;> rfl, ?_⟩)
    · -- The digits, with a point after the first where there are more.
      split
      · obtain ⟨first, others⟩ := List.forall_mem_cons.mp numeric
        exact List.forall_mem_cons.mpr ⟨first, List.forall_mem_cons.mpr ⟨rfl, others⟩⟩
      · exact numeric
    · exact List.forall_mem_append.mpr
        ⟨zeros, fun c mem => isNumeric_of_isDigit (isDigit_of_mem_decimal mem)⟩

/-- The text of a finite number shows that it is no integer. -/
theorem text_pointed (finite : x.IsFinite) : Pointed x.text := by
  cases x with
  | nan => exact finite.elim
  | infinite negative => exact finite.elim
  | finite negative m e =>
    have size : Pointed (if m = 0 then ['0', '.', '0'] else
        layout (shortest m e).digits
          ((decimal (shortest m e).coefficient).length + (shortest m e).exponent)) := by
      split
      · exact .around ['0'] (by simp [isNumeric]) (.inl rfl) (by simp [isNumeric])
      · exact layout_pointed fun c mem => isNumeric_of_isDigit (isDigit_of_mem_digits mem)
    rw [text]
    cases negative with
    | true =>
      exact ⟨List.forall_mem_cons.mpr ⟨rfl, size.numeric⟩,
        size.pointed.imp fun c found => ⟨List.mem_cons_of_mem _ found.1, found.2⟩⟩
    | false => exact size

theorem IsFinite.of_text {y : Binary64} (finite : x.IsFinite) (same : x.text = y.text) :
    y.IsFinite := by
  obtain ⟨c, mem, mark⟩ := (text_pointed finite).pointed
  rw [same] at mem
  cases y with
  | finite negative m e => trivial
  | nan => rcases mark with rfl | rfl <;> simp [text] at mem
  | infinite negative => cases negative <;> rcases mark with rfl | rfl <;> simp [text] at mem

end Binary64

end OverlayBuild

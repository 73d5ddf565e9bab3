/-! Numerals: the digits of natural numbers and the text of integers. -/
namespace OverlayBuild.Text

/-- The digits of `n` to the given base, most significant first, without leading
zeros. A base below two has no digits to carry, so the number stands as one digit. -/
def digits (base n : Nat) : List Nat :=
  if n < base ∨ base < 2 then [n] else digits base (n / base) ++ [n % base]
termination_by n
decreasing_by exact Nat.div_lt_self (by omega) (by omega)

def ofDigits (base : Nat) (ds : List Nat) : Nat := ds.foldl (fun n d => n * base + d) 0

theorem ofDigits_append (base : Nat) (ds : List Nat) (d : Nat) :
    ofDigits base (ds ++ [d]) = ofDigits base ds * base + d := by
  simp [ofDigits]

@[simp] theorem ofDigits_digits (base n : Nat) : ofDigits base (digits base n) = n := by
  fun_induction digits base n with
  | case1 => simp [ofDigits]
  | case2 n _ ih => rw [ofDigits_append, ih, Nat.mul_comm, Nat.div_add_mod]

theorem digits_ne_nil (base n : Nat) : digits base n ≠ [] := by
  rw [digits]; split <;> simp

theorem lt_of_mem_digits {base n d : Nat} (two : 2 ≤ base) (mem : d ∈ digits base n) :
    d < base := by
  fun_induction digits base n with
  | case1 n h => simp at mem; omega
  | case2 n h ih =>
    rcases List.mem_append.1 mem with h | h
    · exact ih h
    · rw [List.mem_singleton.1 h]; exact Nat.mod_lt _ (by omega)

/-- Lower case, for bases up to sixteen. -/
def digitChar (d : Nat) : Char := Char.ofNat (if d < 10 then 0x30 + d else 0x57 + d)

def upperDigitChar (d : Nat) : Char := Char.ofNat (if d < 10 then 0x30 + d else 0x37 + d)

def decimal (n : Nat) : List Char := (digits 10 n).map digitChar

def integer : Int → List Char
  | .ofNat n => decimal n
  | .negSucc n => '-' :: decimal (n + 1)

def zeroFill (width : Nat) (cs : List Char) : List Char :=
  List.replicate (width - cs.length) '0' ++ cs

def fixedDecimal (width n : Nat) : List Char := zeroFill width (decimal n)

def fixedHex (width n : Nat) : List Char := zeroFill width ((digits 16 n).map digitChar)

def fixedUpperHex (width n : Nat) : List Char :=
  zeroFill width ((digits 16 n).map upperDigitChar)

def hexValue? (c : Char) : Option Nat :=
  if '0' ≤ c ∧ c ≤ '9' then some (c.toNat - 0x30)
  else if 'a' ≤ c ∧ c ≤ 'f' then some (c.toNat - 0x57)
  else if 'A' ≤ c ∧ c ≤ 'F' then some (c.toNat - 0x37)
  else none

end OverlayBuild.Text

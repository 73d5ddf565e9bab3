/-! Binary floating point numbers of 64 bits as exact values: a sign, an integer of at
most 53 bits and a power of two. `ofRatio` rounds a fraction to the nearest of them,
ties to the even integer, and every operation is the exact result so rounded. -/
namespace OverlayBuild

inductive Binary64 where
  | nan
  | infinite (negative : Bool)
  /-- The value `mantissa * 2 ^ exponent`, negated when `negative`. -/
  | finite (negative : Bool) (mantissa : Nat) (exponent : Int)
  deriving DecidableEq, Repr

namespace Binary64

/-- The exponent of the numbers below the smallest normal one. -/
def minExponent : Int := -1074

def maxExponent : Int := 971

def zero : Binary64 := .finite false 0 minExponent

/-- The integer nearest to `num / den`; of two equally near, the even one. -/
def roundDiv (num den : Nat) : Nat :=
  let q := num / den
  let r := num % den
  if 2 * r < den then q else if den < 2 * r then q + 1 else q + q % 2

/-- `base ^ exponent`; one where the exponent is negative. -/
def power (base : Nat) (exponent : Int) : Nat := base.pow exponent.toNat

/-- `num / den` is at least `2 ^ floorLog2 num den` and less than twice that. -/
def floorLog2 (num den : Nat) : Int :=
  let guess : Int := (num.log2 : Int) - (den.log2 : Int)
  if den * power 2 guess ≤ num * power 2 (-guess) then guess else guess - 1

def ofRatio (negative : Bool) (num den : Nat) : Binary64 :=
  if num = 0 ∨ den = 0 then .finite negative 0 minExponent else
  let e := max minExponent (floorLog2 num den - 52)
  let m := roundDiv (num * power 2 (-e)) (den * power 2 e)
  let (m, e) := if m = power 2 53 then (power 2 52, e + 1) else (m, e)
  if maxExponent < e then .infinite negative else .finite negative m e

def ofInt (n : Int) : Binary64 := ofRatio (n < 0) n.natAbs 1

/-- The number nearest to `coefficient * 10 ^ exponent`. Numbers past either end of the
range are settled by their count of digits, before any large power is taken. -/
def ofDecimal (negative : Bool) (coefficient : Nat) (digitCount : Nat) (exponent : Int) :
    Binary64 :=
  if coefficient = 0 then .finite negative 0 minExponent
  else if 400 < (digitCount : Int) + exponent then .infinite negative
  else if (digitCount : Int) + exponent < -400 then .finite negative 0 minExponent
  else ofRatio negative (coefficient * power 10 exponent) (power 10 (-exponent))

def isZero : Binary64 → Bool
  | .finite _ m _ => m == 0
  | _ => false

/-- Numerator and positive denominator of a finite number. -/
def toRatio? : Binary64 → Option (Int × Nat)
  | .finite negative m e =>
    let n : Int := m * power 2 e
    some (if negative then -n else n, power 2 (-e))
  | _ => none

def truncate? (x : Binary64) : Option Int := x.toRatio?.map fun r => r.1.tdiv r.2

def neg : Binary64 → Binary64
  | .nan => .nan
  | .infinite negative => .infinite (!negative)
  | .finite negative m e => .finite (!negative) m e

/-- The sum, rounded; a zero sum is negative only when both terms are. -/
def add : Binary64 → Binary64 → Binary64
  | .nan, _ | _, .nan => .nan
  | .infinite a, .infinite b => if a = b then .infinite a else .nan
  | .infinite a, _ | _, .infinite a => .infinite a
  | .finite s m e, .finite t n f =>
    let low := min e f
    let a : Int := m * power 2 (e - low)
    let b : Int := n * power 2 (f - low)
    let sum := (if s then -a else a) + (if t then -b else b)
    if sum = 0 then .finite (s && t) 0 minExponent
    else ofRatio (sum < 0) (sum.natAbs * power 2 low) (power 2 (-low))

def mul : Binary64 → Binary64 → Binary64
  | .nan, _ | _, .nan => .nan
  | .infinite a, .infinite b => .infinite (a != b)
  | .infinite a, .finite b m _ | .finite b m _, .infinite a =>
    if m = 0 then .nan else .infinite (a != b)
  | .finite s m e, .finite t n f =>
    ofRatio (s != t) (m * n * power 2 (e + f)) (power 2 (-(e + f)))

/-- What a number is compared by: its exact value, or its place outside the reals. -/
inductive Exact where
  | nan
  | below
  | finite (num : Int) (den : Nat)
  | above
  deriving DecidableEq, Repr

def exact (x : Binary64) : Exact :=
  match x with
  | .nan => .nan
  | .infinite negative => if negative then .below else .above
  | .finite negative m e =>
    let n : Int := m * power 2 e
    .finite (if negative then -n else n) (power 2 (-e))

def Exact.compare? : Exact → Exact → Option Ordering
  | .nan, _ | _, .nan => none
  | .below, .below | .above, .above => some .eq
  | .below, _ | _, .above => some .lt
  | .above, _ | _, .below => some .gt
  | .finite a b, .finite c d => some (compare (a * d) (c * b))

end OverlayBuild.Binary64

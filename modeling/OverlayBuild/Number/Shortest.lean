import OverlayBuild.Number.Binary64
import OverlayBuild.Text.Numeral

/-! The decimal text of binary floating point numbers: the fewest digits that read
back as the same number, and of those the nearest to it. -/
namespace OverlayBuild.Binary64

/-- A positive decimal `coefficient * 10 ^ exponent`. -/
structure Decimal where
  coefficient : Nat
  exponent : Int

/-- Bounds of the reals that round to `m * 2 ^ e`, as numerators over `scale`; the
bounds themselves round to it when `m` is even. Below a power of two the numbers
stand twice as close. -/
structure Interval where
  low : Nat
  value : Nat
  high : Nat
  scale : Nat
  closed : Bool

def interval (m : Nat) (e : Int) : Interval :=
  let unit := power 2 e
  let below := if m = power 2 52 ∧ minExponent < e then 1 else 2
  ⟨(4 * m - below) * unit, 4 * m * unit, (4 * m + 2) * unit, 4 * power 2 (-e), m % 2 == 0⟩

def Interval.contains (i : Interval) (num den : Nat) : Bool :=
  let below := i.low * den
  let above := i.high * den
  let point := num * i.scale
  if i.closed then below ≤ point && point ≤ above else below < point && point < above

/-- A decimal of the grid of multiples of `10 ^ k` inside the interval, the nearest to
its value; a tie goes to the even coefficient. -/
def Interval.onGrid? (i : Interval) (k : Int) : Option Decimal :=
  let up := power 10 k
  let down := power 10 (-k)
  let floor := i.value * down / (i.scale * up)
  let inside (c : Nat) : Bool := i.contains (c * up) down
  let distance (c : Nat) : Nat :=
    let point := c * up * i.scale
    let value := i.value * down
    if point ≤ value then value - point else point - value
  match inside floor && floor != 0, inside (floor + 1) with
  | true, true =>
    let a := distance floor
    let b := distance (floor + 1)
    some ⟨if a < b then floor else if b < a then floor + 1 else floor + floor % 2, k⟩
  | true, false => some ⟨floor, k⟩
  | false, true => some ⟨floor + 1, k⟩
  | false, false => none

/-- The number of the last grid that is tried: 17 digits always suffice. -/
def gridFrom (i : Interval) : Int :=
  let decimals : Int :=
    if i.scale ≤ i.value then ((Text.digits 10 (i.value / i.scale)).length : Int)
    else -((Text.digits 10 (i.scale / i.value)).length : Int) + 2
  decimals

def Interval.firstHit (i : Interval) (k : Int) : Nat → Decimal
  | 0 => ⟨i.value / i.scale, 0⟩
  | fuel + 1 => (i.onGrid? k).getD (i.firstHit (k - 1) fuel)

def shortest (m : Nat) (e : Int) : Decimal :=
  let i := interval m e
  i.firstHit (gridFrom i) 20

/-- The text of a positive decimal whose point stands after `point` of the digits:
positional from 10⁻⁴ up to 10¹⁶, else with one digit before the point and an exponent
of two digits or more. -/
def layout (digits : List Char) (point : Int) : List Char :=
  let count : Int := digits.length
  if -4 < point ∧ point ≤ 16 then
    if point ≤ 0 then '0' :: '.' :: List.replicate (-point).toNat '0' ++ digits
    else if count ≤ point then digits ++ List.replicate (point - count).toNat '0' ++ ['.', '0']
    else digits.take point.toNat ++ '.' :: digits.drop point.toNat
  else
    let exponent := point - 1
    let mantissa := match digits with
      | d :: f :: rest => d :: '.' :: f :: rest
      | ds => ds
    mantissa ++ 'e' :: (if exponent < 0 then '-' else '+')
      :: Text.fixedDecimal 2 exponent.natAbs

/-- Digits without the zeros at their end, which only place the point. -/
def Decimal.digits (d : Decimal) : List Char :=
  let all := Text.decimal d.coefficient
  (all.reverse.dropWhile (· == '0')).reverse

def text : Binary64 → List Char
  | .nan => ['n', 'a', 'n']
  | .infinite negative => (if negative then ['-'] else []) ++ ['i', 'n', 'f']
  | .finite negative m e =>
    (if negative then ['-'] else []) ++
      if m = 0 then ['0', '.', '0'] else
      let d := shortest m e
      layout d.digits ((Text.decimal d.coefficient).length + d.exponent)

end OverlayBuild.Binary64

import OverlayBuild.Text.Numeral

/-! Reading base 64 leniently: characters outside the alphabet are passed over, and the
padding that completes a group of four ends the text. -/
namespace OverlayBuild.Text.Base64

inductive Fault where
  /-- One character is left over after the given count of characters. -/
  | leftOver (count : Nat)
  | padding
  deriving DecidableEq, Repr

def value? (c : Char) : Option Nat :=
  if 'A' ≤ c ∧ c ≤ 'Z' then some (c.toNat - 0x41)
  else if 'a' ≤ c ∧ c ≤ 'z' then some (c.toNat - 0x61 + 26)
  else if '0' ≤ c ∧ c ≤ '9' then some (c.toNat - 0x30 + 52)
  else if c = '+' then some 62
  else if c = '/' then some 63
  else none

def groupBytes : List Nat → List UInt8
  | [a, b] => [UInt8.ofNat (a * 4 + b / 16)]
  | [a, b, c] => [UInt8.ofNat (a * 4 + b / 16), UInt8.ofNat (b % 16 * 16 + c / 4)]
  | [a, b, c, d] => [UInt8.ofNat (a * 4 + b / 16), UInt8.ofNat (b % 16 * 16 + c / 4),
      UInt8.ofNat (c % 4 * 64 + d)]
  | _ => []

/-- Decodes from a place where `done` whole groups and the values `group` of an unfinished
one, with `pads` signs of padding behind them, were read. -/
def decodeFrom (done : Nat) (group : List Nat) (pads : Nat) :
    List Char → Except Fault (List UInt8)
  | [] =>
    match group with
    | [] => .ok []
    | [_] => .error (.leftOver (done * 4 + 1))
    | _ => .error .padding
  | c :: rest =>
    if c = '=' then
      if 2 ≤ group.length ∧ 4 ≤ group.length + pads + 1 then .ok (groupBytes group)
      else decodeFrom done group (if 2 ≤ group.length then pads + 1 else pads) rest
    else match value? c with
      | none => decodeFrom done group pads rest
      | some v =>
        if group.length = 3 then
          (decodeFrom (done + 1) [] 0 rest).map (groupBytes (group ++ [v]) ++ ·)
        else decodeFrom done (group ++ [v]) 0 rest

def decode (cs : List Char) : Except Fault (List UInt8) := decodeFrom 0 [] 0 cs

end OverlayBuild.Text.Base64

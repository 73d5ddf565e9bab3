import OverlayBuild.Text.Numeral

/-! UTF-8: the bytes of text, and strict decoding that says at which bytes and why it
stopped. -/
namespace OverlayBuild.Text.Utf8

inductive Reason where
  | invalidStart
  | invalidContinuation
  | unexpectedEnd
  deriving DecidableEq, Repr

def Reason.text : Reason → String
  | .invalidStart => "invalid start byte"
  | .invalidContinuation => "invalid continuation byte"
  | .unexpectedEnd => "unexpected end of data"

/-- A maximal ill-formed sequence: where it starts, its first byte and its length. -/
structure Malformed where
  position : Nat
  first : UInt8
  length : Nat
  reason : Reason
  deriving DecidableEq, Repr

def Malformed.message (m : Malformed) : String :=
  let place :=
    if m.length = 1 then
      "byte 0x" ++ String.ofList (fixedHex 2 m.first.toNat) ++ " in position "
        ++ String.ofList (decimal m.position)
    else
      "bytes in position " ++ String.ofList (decimal m.position) ++ "-"
        ++ String.ofList (decimal (m.position + m.length - 1))
  "'utf-8' codec can't decode " ++ place ++ ": " ++ m.reason.text

/-- The character of a code point. Half a surrogate pair is none; a character of the last private
plane stands for it. -/
def ofCodePoint (n : Nat) : Char :=
  if 0xd800 ≤ n ∧ n < 0xe000 then Char.ofNat (n + 0x100000) else Char.ofNat n

/-- Whether a character stands for half a surrogate pair, which no file can hold. -/
def isHalf (c : Char) : Bool := 0x10d800 ≤ c.toNat && c.toNat < 0x10e000

def codePoint (c : Char) : Nat := if isHalf c then c.toNat - 0x100000 else c.toNat

theorem ofCodePoint_toNat (c : Char) : ofCodePoint c.toNat = c := by
  have valid : c.toNat < 0xd800 ∨ 0xdfff < c.toNat ∧ c.toNat < 0x110000 := c.valid
  rw [ofCodePoint, if_neg (by omega), Char.ofNat_toNat]

def encodeChar (c : Char) : List UInt8 :=
  let n := c.toNat
  let tail (unit : Nat) : UInt8 := UInt8.ofNat (0x80 + n / unit % 64)
  if n < 0x80 then [UInt8.ofNat n]
  else if n < 0x800 then [UInt8.ofNat (0xc0 + n / 64), tail 1]
  else if n < 0x10000 then [UInt8.ofNat (0xe0 + n / 0x1000), tail 64, tail 1]
  else [UInt8.ofNat (0xf0 + n / 0x40000), tail 0x1000, tail 64, tail 1]

def encode (cs : List Char) : List UInt8 := cs.flatMap encodeChar

/-- How a sequence goes on after its first byte: how many bytes follow, the bits that
the first byte carries, and the bounds of the second byte, which keep out overlong
forms, surrogates and numbers past the last code point. -/
structure Lead where
  following : Nat
  bits : Nat
  low : Nat
  high : Nat

def lead? (b : UInt8) : Option Lead :=
  let n := b.toNat
  if n < 0x80 then some ⟨0, n, 0x80, 0xbf⟩
  else if n < 0xc2 then none
  else if n < 0xe0 then some ⟨1, n - 0xc0, 0x80, 0xbf⟩
  else if n = 0xe0 then some ⟨2, 0, 0xa0, 0xbf⟩
  else if n = 0xed then some ⟨2, 13, 0x80, 0x9f⟩
  else if n < 0xf0 then some ⟨2, n - 0xe0, 0x80, 0xbf⟩
  else if n = 0xf0 then some ⟨3, 0, 0x90, 0xbf⟩
  else if n < 0xf4 then some ⟨3, n - 0xf0, 0x80, 0xbf⟩
  else if n = 0xf4 then some ⟨3, 4, 0x80, 0x8f⟩
  else none

/-- The code point of a sequence whose first bytes are read, and the bytes after it;
or how many bytes were well formed and why the next was not. -/
def follow (following bits low high seen : Nat) :
    List UInt8 → Except (Nat × Reason) (Nat × List UInt8)
  | bytes => match following, bytes with
    | 0, bytes => .ok (bits, bytes)
    | _ + 1, [] => .error (seen, .unexpectedEnd)
    | k + 1, b :: rest =>
      if low ≤ b.toNat ∧ b.toNat ≤ high then
        follow k (bits * 64 + (b.toNat - 0x80)) 0x80 0xbf (seen + 1) rest
      else .error (seen, .invalidContinuation)

theorem follow_length {k bits low high seen : Nat} {bytes rest : List UInt8} {n : Nat}
    (h : follow k bits low high seen bytes = .ok (n, rest)) : rest.length ≤ bytes.length := by
  induction k generalizing bits low high seen bytes with
  | zero => unfold follow at h; simp at h; simp [h.2]
  | succ k ih =>
    unfold follow at h
    cases bytes with
    | nil => simp at h
    | cons b tail =>
      simp only at h
      split at h
      · have := ih h; simp; omega
      · simp at h

def decodeAt (position : Nat) (bytes : List UInt8) : Except Malformed (List Char) :=
  match bytes with
  | [] => .ok []
  | b :: rest =>
    match lead? b with
    | none => .error ⟨position, b, 1, .invalidStart⟩
    | some lead =>
      match h : follow lead.following lead.bits lead.low lead.high 1 rest with
      | .error (seen, reason) => .error ⟨position, b, seen, reason⟩
      | .ok (n, after) => (decodeAt (position + lead.following + 1) after).map (Char.ofNat n :: ·)
termination_by bytes.length
decreasing_by have := follow_length h; simp; omega

def decode (bytes : List UInt8) : Except Malformed (List Char) := decodeAt 0 bytes

end OverlayBuild.Text.Utf8

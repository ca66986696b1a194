import Fakecloud.Lib.Text
import Mathlib.Tactic.Common

/-!
# Bytes, UTF-8 and hexadecimal

Bytes are lists of `UInt8`.  `utf8` encodes a text, `utf8Lossy` decodes bytes the way Rust's
`from_utf8_lossy` does: every maximal piece of a sequence that cannot be completed becomes one
replacement character.
-/

namespace Text

abbrev Bytes := List UInt8

/-! ## Encoding -/

def utf8Char (c : Char) : Bytes :=
  let v := c.toNat
  if v < 0x80 then [UInt8.ofNat v]
  else if v < 0x800 then [UInt8.ofNat (0xC0 + v / 64), UInt8.ofNat (0x80 + v % 64)]
  else if v < 0x10000 then
    [UInt8.ofNat (0xE0 + v / 4096), UInt8.ofNat (0x80 + v / 64 % 64), UInt8.ofNat (0x80 + v % 64)]
  else
    [UInt8.ofNat (0xF0 + v / 262144), UInt8.ofNat (0x80 + v / 4096 % 64),
      UInt8.ofNat (0x80 + v / 64 % 64), UInt8.ofNat (0x80 + v % 64)]

def utf8 (s : Str) : Bytes := s.flatMap utf8Char

/-! ## Lossy decoding -/

def isContinuation (b : ℕ) : Bool := 0x80 ≤ b && b < 0xC0

/-- The second bytes that may follow the first byte of a sequence of three. -/
def secondOfThree (b b₁ : ℕ) : Bool :=
  if b = 0xE0 then 0xA0 ≤ b₁ && b₁ < 0xC0
  else if b = 0xED then 0x80 ≤ b₁ && b₁ < 0xA0
  else isContinuation b₁

/-- The second bytes that may follow the first byte of a sequence of four. -/
def secondOfFour (b b₁ : ℕ) : Bool :=
  if b = 0xF0 then 0x90 ≤ b₁ && b₁ < 0xC0
  else if b = 0xF4 then 0x80 ≤ b₁ && b₁ < 0x90
  else isContinuation b₁

def replacement : Char := Char.ofNat 0xFFFD

/-- The character that starts at byte `b`, and how many of the bytes behind it belong to it. -/
def utf8Step (b b₁ b₂ b₃ : ℕ) : Char × ℕ :=
  if b < 0x80 then (Char.ofNat b, 0)
  else if 0xC2 ≤ b ∧ b < 0xE0 then
    if isContinuation b₁ then (Char.ofNat ((b - 0xC0) * 64 + (b₁ - 0x80)), 1)
    else (replacement, 0)
  else if 0xE0 ≤ b ∧ b < 0xF0 then
    if secondOfThree b b₁ then
      if isContinuation b₂ then
        (Char.ofNat ((b - 0xE0) * 4096 + (b₁ - 0x80) * 64 + (b₂ - 0x80)), 2)
      else (replacement, 1)
    else (replacement, 0)
  else if 0xF0 ≤ b ∧ b < 0xF5 then
    if secondOfFour b b₁ then
      if isContinuation b₂ then
        if isContinuation b₃ then
          (Char.ofNat ((b - 0xF0) * 262144 + (b₁ - 0x80) * 4096 + (b₂ - 0x80) * 64 + (b₃ - 0x80)), 3)
        else (replacement, 2)
      else (replacement, 1)
    else (replacement, 0)
  else (replacement, 0)

def byteAt (bs : Bytes) (i : ℕ) : ℕ := ((bs[i]?).map UInt8.toNat).getD 0

/-- The loop of `utf8Lossy`; the counter is what is left of the character just read. -/
def lossyFrom : ℕ → Bytes → Str
  | _, [] => []
  | k + 1, _ :: rest => lossyFrom k rest
  | 0, b :: rest =>
    let step := utf8Step b.toNat (byteAt rest 0) (byteAt rest 1) (byteAt rest 2)
    step.1 :: lossyFrom step.2 rest

/-- `String::from_utf8_lossy`. -/
def utf8Lossy (bs : Bytes) : Str := lossyFrom 0 bs

/-! ## Hexadecimal -/

def hexDigit (n : ℕ) : Char := if n < 10 then Char.ofNat (48 + n) else Char.ofNat (87 + n)

/-- Lowercase hexadecimal, two digits for a byte. -/
def hex (bs : Bytes) : Str := bs.flatMap fun b => [hexDigit (b.toNat / 16), hexDigit (b.toNat % 16)]

end Text

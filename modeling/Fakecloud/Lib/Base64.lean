import Fakecloud.Lib.Bytes

/-!
# Base64

The standard alphabet, with its padding and without stray bits at the end.
-/

namespace Text

def base64Val (c : Char) : Option ℕ :=
  if 'A' ≤ c ∧ c ≤ 'Z' then some (c.toNat - 65)
  else if 'a' ≤ c ∧ c ≤ 'z' then some (c.toNat - 71)
  else if c.isDigit then some (c.toNat + 4)
  else if c = '+' then some 62
  else if c = '/' then some 63
  else none

def base64Last (a b c d : Char) : Option Bytes := do
  let x ← base64Val a
  let y ← base64Val b
  if d = '=' then
    if c = '=' then
      if y % 16 = 0 then some [UInt8.ofNat (4 * x + y / 16)] else none
    else
      let z ← base64Val c
      if z % 4 = 0 then some [UInt8.ofNat (4 * x + y / 16), UInt8.ofNat (16 * (y % 16) + z / 4)]
      else none
  else
    let z ← base64Val c
    let w ← base64Val d
    some [UInt8.ofNat (4 * x + y / 16), UInt8.ofNat (16 * (y % 16) + z / 4),
      UInt8.ofNat (64 * (z % 4) + w)]

def base64Decode : Str → Option Bytes
  | [] => some []
  | [a, b, c, d] => base64Last a b c d
  | a :: b :: c :: d :: rest =>
    if d = '=' then none
    else do
      let bytes ← base64Last a b c d
      let more ← base64Decode rest
      some (bytes ++ more)
  | _ => none

example : base64Decode "aGk=" = some [104, 105] := by decide

end Text

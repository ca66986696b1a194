import Fakecloud.Lib.Bytes

/-!
# Percent-encoding

`percentDecode` decodes the escapes of a text and reads the bytes as UTF-8, lossily; an escape
without two hexadecimal digits stays as it is.  `percentEncode` escapes every byte that is not kept.
-/

namespace Text

def hexVal (c : Char) : Option ℕ :=
  if '0' ≤ c ∧ c ≤ '9' then some (c.toNat - 48)
  else if 'a' ≤ c ∧ c ≤ 'f' then some (c.toNat - 87)
  else if 'A' ≤ c ∧ c ≤ 'F' then some (c.toNat - 55)
  else none

/-- `from_str_radix` with radix 16 for an unsigned type with values below `bound`. -/
def parseHex (bound : ℕ) (s : Str) : Option ℕ :=
  let digits := (s.dropPrefix? ['+']).getD s
  if digits.isEmpty || !digits.all isHexDigit then none
  else some (digits.foldl (fun n c => 16 * n + (hexVal c).getD 0) 0) |>.filter (· < bound)

/-- The bytes of a text with escapes. -/
def percentBytes : Str → Bytes
  | '%' :: h :: l :: rest =>
    match hexVal h, hexVal l with
    | some a, some b => UInt8.ofNat (16 * a + b) :: percentBytes rest
    | _, _ => 0x25 :: percentBytes (h :: l :: rest)
  | c :: rest => utf8Char c ++ percentBytes rest
  | [] => []

def percentDecode (s : Str) : Str := utf8Lossy (percentBytes s)

/-! ## Encoding -/

def upperDigit (n : ℕ) : Char := if n < 10 then Char.ofNat (48 + n) else Char.ofNat (55 + n)

def encodeByte (keep : UInt8 → Bool) (b : UInt8) : Str :=
  if keep b then [Char.ofNat b.toNat] else ['%', upperDigit (b.toNat / 16), upperDigit (b.toNat % 16)]

/-- The UTF-8 bytes of a text, each one that is not kept written as an escape. -/
def percentEncode (keep : UInt8 → Bool) (s : Str) : Str := (utf8 s).flatMap (encodeByte keep)

end Text

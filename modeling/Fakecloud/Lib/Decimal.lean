import Fakecloud.Lib.Digits

/-!
# Decimal numbers with leading zeros

The text of a number in at least so many digits, as `format!` writes it with a zero-padded width.  The
text determines the number.
-/

namespace Text

open List Nat

/-- A number in at least `width` digits. -/
def zeroPad (width n : ℕ) : Str :=
  ((Nat.digits 10 n ++ List.replicate (width - (Nat.digits 10 n).length) 0).map Nat.digitChar).reverse

def decimalText (n : ℕ) : Str := zeroPad 1 n

theorem padded_lt {width n d : ℕ}
    (h : d ∈ digits 10 n ++ replicate (width - (digits 10 n).length) 0) : d < 10 := by
  rcases mem_append.mp h with h | h
  · exact digits_lt_base (by norm_num) h
  · rw [eq_of_mem_replicate h]
    norm_num

theorem digitsValue_zeroPad (width n : ℕ) : digitsValue (zeroPad width n) = n := by
  refine (digitsValue_digitsText fun _ => padded_lt).trans ?_
  rw [ofDigits_append_replicate_zero, ofDigits_digits]

theorem all_isDigit_zeroPad (width n : ℕ) : (zeroPad width n).all Char.isDigit :=
  all_isDigit_digitsText fun _ => padded_lt

theorem zeroPad_injective (width : ℕ) : Function.Injective (zeroPad width) := by
  intro m n h
  rw [← digitsValue_zeroPad width m, h, digitsValue_zeroPad]

theorem isDigit_of_mem_zeroPad {width n : ℕ} {c : Char} (h : c ∈ zeroPad width n) : c.isDigit :=
  all_eq_true.mp (all_isDigit_zeroPad width n) c h

theorem not_mem_zeroPad {c : Char} (hc : c.isDigit = false) (width n : ℕ) : c ∉ zeroPad width n := by
  intro h
  rw [isDigit_of_mem_zeroPad h] at hc
  cases hc

theorem length_zeroPad {width n : ℕ} (h : n < 10 ^ width) : (zeroPad width n).length = width := by
  have hl := (digits_length_le_iff (by norm_num) n).mpr h
  simp only [zeroPad, length_reverse, length_map, length_append, length_replicate]
  omega

theorem parseUnsigned_zeroPad {width n bound : ℕ} (h : n < bound) :
    parseUnsigned bound (zeroPad (width + 1) n) = some n := by
  refine parseUnsigned_of_parseDigits (parseDigits_eq_some.mpr
    ⟨fun hn => ?_, all_isDigit_zeroPad _ _, digitsValue_zeroPad _ _⟩) h
  have hl := congrArg length hn
  simp only [zeroPad, length_reverse, length_map, length_append, length_replicate, length_nil] at hl
  omega

end Text

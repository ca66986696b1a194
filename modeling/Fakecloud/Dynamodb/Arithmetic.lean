import Fakecloud.Dynamodb.Literal

/-!
# Adding and subtracting numbers

`decimalAddSub` works on the decimal digits of two literals.  Numbers whose leading digit is too far from the
decimal point are refused; on the others the result is the exact sum or difference, in plain digits.
-/

namespace Fakecloud.Dynamodb

open Text List Option Char ParsedNumber Digits

/-! ## The code -/

/-- The digits before and after the decimal point. -/
abbrev Magnitude := Str × Str

def normalizeDecimal (s : Str) : Option (Bool × Magnitude) :=
  (parseNumber s).bind fun p => if p.expandable then some (p.neg, p.expand) else none

def compareMagnitude (a b : Magnitude) : Ordering :=
  (compare a.1.length b.1.length).then ((compare a.1 b.1).then (compare a.2 b.2))

def padFrac (frac : Str) (len : ℕ) : Str := frac ++ List.replicate (len - frac.length) '0'

def splitAtFrac (digits : Str) (fracLen : ℕ) : Magnitude :=
  if digits.length ≤ fracLen then ([], List.replicate (fracLen - digits.length) '0' ++ digits)
  else (digits.take (digits.length - fracLen), digits.drop (digits.length - fracLen))

def addDigitStrings (a b : Str) : Str :=
  digitsText (Digits.addCarry 10 (max a.length b.length) (digitsOf a) (digitsOf b) 0)

/-- Leading zeros, except for the last digit. -/
def dropZeros : Str → Str
  | '0' :: c :: s => dropZeros (c :: s)
  | s => s

def subDigitStrings (a b : Str) : Str :=
    dropZeros (digitsText (Digits.subBorrow 10 (digitsOf a) (digitsOf b) 0))

/-- Two magnitudes as integers in one unit, the result with the point put back. -/
def onDigits (op : Str → Str → Str) (a b : Magnitude) : Magnitude :=
  let flen := max a.2.length b.2.length
  splitAtFrac (op (a.1 ++ padFrac a.2 flen) (b.1 ++ padFrac b.2 flen)) flen

def addMagnitude : Magnitude → Magnitude → Magnitude := onDigits addDigitStrings

def subMagnitude : Magnitude → Magnitude → Magnitude := onDigits subDigitStrings

def formatDecimal (neg : Bool) (int frac : Str) : Str :=
  let intT := int.dropWhile (· == '0')
  let fracT := frac.rdropWhile (· == '0')
  let isZero := intT.isEmpty && fracT.isEmpty
  signText (neg && !isZero) ++ (if intT.isEmpty then ['0'] else intT) ++ fracText fracT

def addSigned (aNeg : Bool) (a : Magnitude) (bNeg : Bool) (b : Magnitude) : Bool × Magnitude :=
  if aNeg = bNeg then (aNeg, addMagnitude a b)
  else match compareMagnitude a b with
    | .eq => (false, ([], []))
    | .gt => (aNeg, subMagnitude a b)
    | .lt => (bNeg, subMagnitude b a)

def decimalAddSub (a b : Str) (isAdd : Bool) : Option Str :=
  (normalizeDecimal a).bind fun (aNeg, aMag) =>
    (normalizeDecimal b).map fun (bNeg, bMag) =>
      let (neg, mag) := addSigned aNeg aMag (if isAdd then bNeg else !bNeg) bMag
      formatDecimal neg mag.1 mag.2

/-! ## Values of magnitudes -/

def magnitudeValue (a : Magnitude) : ℚ := digitsValue (a.1 ++ a.2) / 10 ^ a.2.length

def DigitsOnly (a : Magnitude) : Prop := a.1.all Char.isDigit ∧ a.2.all Char.isDigit

/-- No zero in front, none behind. -/
structure Trimmed (a : Magnitude) : Prop where
  digits : DigitsOnly a
  head : a.1.head? ≠ some '0'
  last : a.2.getLast? ≠ some '0'

theorem magnitudeValue_eq (a : Magnitude) : magnitudeValue a = digitsValue a.1 + fraction a.2 := by
  rw [magnitudeValue, digitsValue_append, fraction]
  push_cast
  field_simp

variable {s t : Str} {a b : Magnitude} {p : ParsedNumber} {neg : Bool} {L : Literal}

theorem all_append : (s ++ t).all isDigit ↔ s.all isDigit ∧ t.all isDigit := by
  rw [List.all_append, Bool.and_eq_true]

theorem all_replicate_zero (n : ℕ) : (replicate n '0').all isDigit := by
  rw [all_replicate]
  cases n <;> rfl

theorem magnitudeValue_splitAtFrac (digits : Str) (fracLen : ℕ) :
    magnitudeValue (splitAtFrac digits fracLen) = digitsValue digits / 10 ^ fracLen := by
  unfold splitAtFrac
  split_ifs with hle
  · have hl : fracLen - digits.length + digits.length = fracLen := by omega
    rw [magnitudeValue, nil_append, digitsValue_append, length_append, length_replicate, hl]
    simp
  · have hl : (digits.drop (digits.length - fracLen)).length = fracLen := by
      rw [length_drop]
      omega
    rw [magnitudeValue, take_append_drop, hl]

theorem digitsOnly_splitAtFrac {digits : Str} (h : digits.all isDigit) (fracLen : ℕ) :
    DigitsOnly (splitAtFrac digits fracLen) := by
  unfold splitAtFrac
  split_ifs
  · exact ⟨rfl, all_append.mpr ⟨all_replicate_zero _, h⟩⟩
  · exact all_append.mp (by rwa [take_append_drop])

theorem digitsValue_padFrac (a : Magnitude) {len : ℕ} (h : a.2.length ≤ len) :
    (digitsValue (a.1 ++ padFrac a.2 len) : ℚ) = magnitudeValue a * 10 ^ len := by
  obtain ⟨n, rfl⟩ := Nat.exists_eq_add_of_le h
  rw [padFrac, ← append_assoc, digitsValue_append, magnitudeValue, pow_add]
  field_simp
  simp

theorem all_padFrac (h : DigitsOnly a) (len : ℕ) : (a.1 ++ padFrac a.2 len).all isDigit :=
  all_append.mpr ⟨h.1, all_append.mpr ⟨h.2, all_replicate_zero _⟩⟩

theorem onDigits_spec {op : Str → Str → Str} {f : ℚ → ℚ → ℚ} (hf : ∀ x y c : ℚ, f (x * c) (y * c) = f x y * c)
    (hop : ∀ s t : Str, s.all isDigit → t.all isDigit →
      (∀ c : ℚ, 0 < c → (digitsValue s : ℚ) = magnitudeValue a * c → (digitsValue t : ℚ) =
        magnitudeValue b * c →
        (digitsValue (op s t) : ℚ) = f (digitsValue s) (digitsValue t)) ∧ (op s t).all isDigit)
    (ha : DigitsOnly a) (hb : DigitsOnly b) :
    magnitudeValue (onDigits op a b) = f (magnitudeValue a) (magnitudeValue b) ∧
      DigitsOnly (onDigits op a b) := by
  unfold onDigits
  set len := max a.2.length b.2.length
  have hv := digitsValue_padFrac a (le_max_left a.2.length b.2.length)
  have hv' := digitsValue_padFrac b (le_max_right a.2.length b.2.length)
  have hp : (0 : ℚ) < 10 ^ len := by positivity
  obtain ⟨hs, hal⟩ := hop _ _ (all_padFrac ha len) (all_padFrac hb len)
  refine ⟨?_, digitsOnly_splitAtFrac hal len⟩
  rw [magnitudeValue_splitAtFrac, hs _ hp hv hv', hv, hv', hf, mul_div_assoc, div_self hp.ne', mul_one]

/-! ## The digit strings -/

theorem addDigitStrings_spec (hs : s.all isDigit) (ht : t.all isDigit) :
    digitsValue (addDigitStrings s t) = digitsValue s + digitsValue t ∧
      (addDigitStrings s t).all isDigit := by
  have hlt : ∀ d ∈ addCarry 10 (max s.length t.length) (digitsOf s) (digitsOf t) 0, d < 10 :=
    addCarry_lt (by norm_num) _ (digitsOf_lt hs) (digitsOf_lt ht) (Nat.zero_le 1)
  refine ⟨?_, all_isDigit_digitsText hlt⟩
  rw [addDigitStrings, digitsValue_digitsText hlt, ofDigits_addCarry, digitsValue_eq_ofDigits,
    digitsValue_eq_ofDigits, Nat.add_zero]
  · rw [length_digitsOf]
    exact le_max_left _ _
  · rw [length_digitsOf]
    exact le_max_right _ _

theorem dropZeros_spec (s : Str) :
    digitsValue (dropZeros s) = digitsValue s ∧ (s.all isDigit → (dropZeros s).all isDigit) := by
  induction s using dropZeros.induct with
  | case1 c s ih =>
    rw [dropZeros]
    constructor
    · rw [ih.1, digitsValue_cons '0']
      simp
    · intro h
      rw [all_cons, Bool.and_eq_true] at h
      exact ih.2 h.2
  | case2 s h =>
    rw [dropZeros]
    · exact ⟨rfl, id⟩
    · exact h

theorem subDigitStrings_spec (hs : s.all isDigit) (ht : t.all isDigit)
    (hle : digitsValue t ≤ digitsValue s) :
    digitsValue (subDigitStrings s t) + digitsValue t = digitsValue s := by
  rw [digitsValue_eq_ofDigits t, digitsValue_eq_ofDigits s] at *
  have hlt : ∀ d ∈ subBorrow 10 (digitsOf s) (digitsOf t) 0, d < 10 := subBorrow_lt (digitsOf_lt hs) 0
  have hv := ofDigits_subBorrow (digitsOf_lt hs) (digitsOf_lt ht) (Nat.zero_le 1) hle
  rwa [← digitsValue_digitsText hlt, ← (dropZeros_spec _).1] at hv

theorem addMagnitude_spec (ha : DigitsOnly a) (hb : DigitsOnly b) :
    magnitudeValue (addMagnitude a b) = magnitudeValue a + magnitudeValue b ∧
      DigitsOnly (addMagnitude a b) := by
  refine onDigits_spec (fun x y c => (add_mul x y c).symm) (fun s t hs ht => ?_) ha hb
  obtain ⟨hv, hal⟩ := addDigitStrings_spec hs ht
  exact ⟨fun _ _ _ _ => by exact_mod_cast hv, hal⟩

theorem subMagnitude_spec (ha : DigitsOnly a) (hb : DigitsOnly b)
    (hle : magnitudeValue b ≤ magnitudeValue a) :
    magnitudeValue (subMagnitude a b) = magnitudeValue a - magnitudeValue b ∧
      DigitsOnly (subMagnitude a b) := by
  refine onDigits_spec (fun x y c => (sub_mul x y c).symm) (fun s t hs ht => ?_) ha hb
  refine ⟨fun c hc hsv htv =>
    ?_, (dropZeros_spec _).2 (all_isDigit_digitsText (subBorrow_lt (digitsOf_lt hs) 0))⟩
  have hle' : digitsValue t ≤ digitsValue s := by
    have : (digitsValue t : ℚ) ≤ digitsValue s := by
      rw [hsv, htv]
      exact mul_le_mul_of_nonneg_right hle hc.le
    exact_mod_cast this
  rw [eq_sub_iff_add_eq]
  exact_mod_cast subDigitStrings_spec hs ht hle'

/-! ## Comparing magnitudes -/

/-- A smaller whole part outweighs the fraction. -/
theorem magnitudeValue_lt (ha : DigitsOnly a) (hlt : digitsValue a.1 < digitsValue b.1) :
    magnitudeValue a < magnitudeValue b := by
  have hs : (digitsValue a.1 : ℚ) + 1 ≤ digitsValue b.1 := by exact_mod_cast hlt
  have := fraction_lt_one ha.2
  have := fraction_nonneg b.2
  rw [magnitudeValue_eq, magnitudeValue_eq]
  linarith

theorem digitsValue_lt_of_length (hs : s.all isDigit) (ht : t.all isDigit)
    (hh : t.head? ≠ some '0') (hlt : s.length < t.length) : digitsValue s < digitsValue t := by
  rcases t with _ | ⟨c, t⟩
  · cases hlt
  · rw [all_cons, Bool.and_eq_true] at ht
    have hp : 10 ^ s.length ≤ 10 ^ t.length := Nat.pow_le_pow_right (by norm_num) (Nat.lt_succ_iff.mp hlt)
    exact (digitsValue_lt hs).trans_le (hp.trans (le_digitsValue ht.1 fun h => hh (by rw [h]; rfl)))

theorem compareMagnitude_eq (ha : Trimmed a) (hb : Trimmed b) :
    compareMagnitude a b = compare (magnitudeValue a) (magnitudeValue b) := by
  have hd {s : Str} (h : s.all isDigit) : ∀ c ∈ s, c.isDigit := all_eq_true.mp h
  unfold compareMagnitude
  rcases lt_trichotomy a.1.length b.1.length with hlt | heq | hgt
  · have := digitsValue_lt_of_length ha.digits.1 hb.digits.1 hb.head hlt
    rw [compare_lt_iff_lt.mpr hlt, compare_lt_iff_lt.mpr (magnitudeValue_lt ha.digits this)]
    rfl
  · rw [compare_eq_iff_eq.mpr heq, Ordering.eq_then, compare_digitsValue ha.digits.1 hb.digits.1 heq]
    rcases lt_trichotomy (digitsValue a.1) (digitsValue b.1) with hlt | heq | hgt
    · rw [compare_lt_iff_lt.mpr hlt, compare_lt_iff_lt.mpr (magnitudeValue_lt ha.digits hlt)]
      rfl
    · rw [compare_eq_iff_eq.mpr heq, Ordering.eq_then,
        compare_fraction (hd ha.digits.2) (hd hb.digits.2) ha.last hb.last, magnitudeValue_eq,
        magnitudeValue_eq, heq]
      rcases lt_trichotomy (fraction a.2) (fraction b.2) with h | h | h
      · rw [compare_lt_iff_lt.mpr h, compare_lt_iff_lt.mpr (by linarith)]
      · rw [h, compare_eq_iff_eq.mpr rfl, compare_eq_iff_eq.mpr rfl]
      · rw [compare_gt_iff_gt.mpr h, compare_gt_iff_gt.mpr (by linarith)]
    · rw [compare_gt_iff_gt.mpr hgt, compare_gt_iff_gt.mpr (magnitudeValue_lt hb.digits hgt)]
      rfl
  · have := digitsValue_lt_of_length hb.digits.1 ha.digits.1 ha.head hgt
    rw [compare_gt_iff_gt.mpr hgt, compare_gt_iff_gt.mpr (magnitudeValue_lt hb.digits this)]
    rfl

theorem Trimmed.eq_of_value_eq (ha : Trimmed a) (hb : Trimmed b)
    (h : magnitudeValue a = magnitudeValue b) : a = b := by
  have heq : compareMagnitude a b = .eq := by rw [compareMagnitude_eq ha hb, compare_eq_iff_eq, h]
  simp only [compareMagnitude, Ordering.then_eq_eq, Std.LawfulEqCmp.compare_eq_iff_eq] at heq
  exact Prod.ext heq.2.1 heq.2.2

theorem addSigned_spec (aNeg bNeg : Bool) (ha : Trimmed a) (hb : Trimmed b) :
    signed (addSigned aNeg a bNeg b).1 (magnitudeValue (addSigned aNeg a bNeg b).2) =
        signed aNeg (magnitudeValue a) + signed bNeg (magnitudeValue b) ∧
      DigitsOnly (addSigned aNeg a bNeg b).2 := by
  have hc := compareMagnitude_eq ha hb
  unfold addSigned
  split_ifs with hs
  · obtain ⟨hv, hd⟩ := addMagnitude_spec ha.digits hb.digits
    refine ⟨?_, hd⟩
    subst hs
    cases aNeg
    · simp [signed, hv]
    · simp only [signed, hv, if_true]
      ring
  · obtain rfl : bNeg = !aNeg := by cases aNeg <;> simp_all
    split
    · next heq =>
      rw [hc, compare_eq_iff_eq] at heq
      refine ⟨?_, rfl, rfl⟩
      rw [heq]
      cases aNeg <;> simp [signed, magnitudeValue]
    · next heq =>
      rw [hc, compare_gt_iff_gt] at heq
      obtain ⟨hv, hd⟩ := subMagnitude_spec ha.digits hb.digits heq.le
      refine ⟨?_, hd⟩
      cases aNeg <;> simp [signed, hv] <;> ring
    · next heq =>
      rw [hc, compare_lt_iff_lt] at heq
      obtain ⟨hv, hd⟩ := subMagnitude_spec hb.digits ha.digits heq.le
      refine ⟨?_, hd⟩
      cases aNeg <;> simp [signed, hv] <;> ring

/-! ## Plain digits -/

def plainText (neg : Bool) (a : Magnitude) : Str :=
  signText neg ++ (if a.1.isEmpty then ['0'] else a.1) ++ fracText a.2

/-- No insignificant zeros, and no negative zero. -/
structure PlainForm (neg : Bool) (a : Magnitude) (text : Str) : Prop where
  trimmed : Trimmed a
  sign : neg = true → magnitudeValue a ≠ 0
  text_eq : text = plainText neg a

theorem digitsValue_whole (a : Magnitude) :
    digitsValue ((if a.1.isEmpty then ['0'] else a.1) ++ a.2) = digitsValue (a.1 ++ a.2) := by
  split_ifs with h
  · rw [List.isEmpty_iff.mp h, singleton_append, digitsValue_cons]
    simp
  · rfl

theorem plainText_writes (neg : Bool) (ha : DigitsOnly a) :
    ∃ L : Literal, L.Writes (plainText neg a) ∧ L.exp = 0 ∧ L.value = signed neg (magnitudeValue a) := by
  have hal : (if a.1.isEmpty then ['0'] else a.1).all isDigit := by
    split_ifs
    · rfl
    · exact ha.1
  have hne : (if a.1.isEmpty then ['0'] else a.1) ≠ [] := by
    split_ifs with h
    · simp
    · simpa using h
  refine ⟨_, writes_plain neg hal ha.2 hne, rfl, ?_⟩
  rw [Literal.value, magnitudeValue, digitsValue_whole, zero_sub, zpow_neg, zpow_natCast, div_eq_mul_inv]

theorem head_take (h : s.head? ≠ some '0') (n : ℕ) : (s.take n).head? ≠ some '0' := by
  rcases s with _ | ⟨c, s⟩
  · simp
  · cases n <;> simp_all

theorem last_drop (h : s.getLast? ≠ some '0') (n : ℕ) : (s.drop n).getLast? ≠ some '0' := by
  rw [getLast?_drop]
  split_ifs
  · exact nofun
  · exact h

theorem trimmed_expand (hp : p.Normal) : Trimmed p.expand := by
  have hd : DigitsOnly p.expand := by
    obtain ⟨hi, hf⟩ := all_isDigit_expand hp
    refine ⟨?_, hf⟩
    split_ifs at hi with he
    · rw [List.isEmpty_iff.mp he]
      rfl
    · exact hi
  refine ⟨hd, ?_, ?_⟩
  · unfold expand
    split_ifs with hz
    · exact nofun
    · exact nofun
    · rw [head?_append_of_ne_nil _ fun h => hz (List.isEmpty_iff.mpr h)]
      exact hp.head
    · exact head_take hp.head _
  · unfold expand
    split_ifs with hz
    · exact nofun
    · rw [getLast?_append_of_ne_nil _ fun h => hz (List.isEmpty_iff.mpr h)]
      exact hp.last
    · exact nofun
    · exact last_drop hp.last _

theorem signed_injective (neg : Bool) : Function.Injective (signed neg) := by
  cases neg
  · exact fun _ _ h => h
  · exact neg_injective

theorem magnitudeValue_expand (hp : p.Normal) : magnitudeValue p.expand = p.magnitude := by
  by_cases hz : p.digits = []
  · have hzr : p.isZero = true := List.isEmpty_iff.mpr hz
    rw [magnitude_of_isZero hzr, expand, if_pos hzr]
    simp [magnitudeValue]
  · have hv := value_ofParts p.neg (if p.expand.1.isEmpty then ['0'] else p.expand.1) p.expand.2 0
    rw [ofParts_expand hp hz, digitsValue_whole, zero_sub, zpow_neg] at hv
    exact (signed_injective p.neg hv).symm

theorem fraction_rdropWhile (s : Str) : fraction (s.rdropWhile (· == '0')) = fraction s := by
  set tail := (s.reverse.takeWhile (· == '0')).reverse with ht
  have hct : s.rdropWhile (· == '0') ++ tail = s := by
    rw [rdropWhile, ← reverse_append, takeWhile_append_dropWhile, reverse_reverse]
  have hz : tail = replicate tail.length '0' :=
    eq_replicate_iff.mpr ⟨rfl, fun c hc => by simpa using mem_takeWhile_imp (mem_reverse.mp hc)⟩
  have hv : digitsValue s = digitsValue (s.rdropWhile (· == '0')) * 10 ^ tail.length := by
    conv_lhs => rw [← hct, hz]
    rw [digitsValue_append, digitsValue_replicate_zero, length_replicate, Nat.add_zero]
  have hl : s.length = (s.rdropWhile (· == '0')).length + tail.length := by
    rw [← length_append, hct]
  rw [fraction, fraction, hv, hl, pow_add]
  push_cast
  field_simp

theorem digitsValue_dropWhile (s : Str) : digitsValue (s.dropWhile (· == '0')) = digitsValue s := by
  induction s with
  | nil => rfl
  | cons c s ih =>
    by_cases hc : c = '0'
    · subst hc
      rw [dropWhile_cons_of_pos rfl, ih, digitsValue_cons]
      simp
    · rw [dropWhile_cons_of_neg (by simpa using hc)]

theorem trimmed_format (ha : DigitsOnly a) :
    Trimmed (a.1.dropWhile (· == '0'), a.2.rdropWhile (· == '0')) := by
  have hsb {s t : Str} (h : ∀ c ∈ t, c ∈ s) (hs : s.all isDigit) : t.all isDigit :=
    all_eq_true.mpr fun c hc => all_eq_true.mp hs c (h c hc)
  have hp := rdropWhile_prefix (· == '0') a.2
  refine ⟨⟨hsb (fun c hc => (dropWhile_sublist _).subset hc) ha.1, hsb (fun c hc => hp.subset hc) ha.2⟩,
    fun hh => ?_, fun hl => ?_⟩
  · have := head?_dropWhile_not (· == '0') a.1
    rw [hh] at this
    simp at this
  · have hne : a.2.rdropWhile (· == '0') ≠ [] := by
      rintro h
      rw [h] at hl
      cases hl
    have := rdropWhile_last_not (· == '0') a.2 hne
    rw [getLast?_eq_some_getLast hne, some.injEq] at hl
    simp [hl] at this

theorem magnitudeValue_format (a : Magnitude) :
    magnitudeValue (a.1.dropWhile (· == '0'), a.2.rdropWhile (· == '0')) = magnitudeValue a := by
  rw [magnitudeValue_eq, magnitudeValue_eq, digitsValue_dropWhile, fraction_rdropWhile]

theorem Trimmed.value_eq_zero_iff (ha : Trimmed a) :
    magnitudeValue a = 0 ↔ (a.1.isEmpty && a.2.isEmpty) = true := by
  have hn : Trimmed ([], []) := ⟨⟨rfl, rfl⟩, nofun, nofun⟩
  have hz : magnitudeValue ([], []) = 0 := by simp [magnitudeValue]
  rw [Bool.and_eq_true, List.isEmpty_iff, List.isEmpty_iff]
  constructor
  · intro h
    rw [← hz] at h
    rw [ha.eq_of_value_eq hn h]
    exact ⟨rfl, rfl⟩
  · intro h
    rw [show a = ([], []) from Prod.ext h.1 h.2, hz]

theorem formatDecimal_spec (neg : Bool) (ha : DigitsOnly a) :
    ∃ neg' b, PlainForm neg' b (formatDecimal neg a.1 a.2) ∧
      signed neg' (magnitudeValue b) = signed neg (magnitudeValue a) := by
  have ht := trimmed_format ha
  have hv := magnitudeValue_format a
  have hz := ht.value_eq_zero_iff
  set b : Magnitude := (a.1.dropWhile (· == '0'), a.2.rdropWhile (· == '0'))
  refine ⟨neg && !(b.1.isEmpty && b.2.isEmpty), b, ⟨ht, ?_, rfl⟩, ?_⟩
  · intro hn h
    rw [hz.mp h] at hn
    simp at hn
  · by_cases hb : (b.1.isEmpty && b.2.isEmpty) = true
    · rw [← hv, hz.mpr hb]
      cases neg <;> simp [signed]
    · simp [hb, hv]

/-! ## The result -/

/-- The leading digit stands at most 1024 places before or behind the decimal point. -/
def Near (q : ℚ) : Prop := q = 0 ∨ 10 ^ (-1025 : ℤ) ≤ |q| ∧ |q| < 10 ^ (1024 : ℤ)

theorem abs_value : |p.value| = p.magnitude := by
  have hn : 0 ≤ p.magnitude := by
    have := fraction_nonneg p.digits
    unfold magnitude
    positivity
  rw [value, ← magnitude, signed]
  split_ifs
  · rw [abs_neg, abs_of_nonneg hn]
  · exact abs_of_nonneg hn

theorem expandable_iff (hp : p.Normal) : p.expandable = true ↔ Near p.value := by
  have ha := abs_value (p := p)
  rw [expandable, Bool.or_eq_true, decide_eq_true_eq, maxExpandedPoint]
  rcases hz : p.isZero with _ | _
  · obtain ⟨hl, hh⟩ := hp.magnitude_bounds hz
    have hps := hp.magnitude_pos hz
    have hne : p.value ≠ 0 := by
      rw [← abs_pos, ha]
      exact hps
    rw [Near, ha]
    simp only [Bool.false_eq_true, false_or, hne]
    constructor
    · intro hpn
      exact ⟨(zpow_le_zpow_right₀ (by norm_num) (by omega)).trans hl,
        hh.trans_le (zpow_le_zpow_right₀ (by norm_num) (by omega))⟩
    · rintro ⟨hge, hlt⟩
      have h1 : (-1025) < p.point := (zpow_lt_zpow_iff_right₀ (by norm_num)).mp
        (hge.trans_lt hh)
      have h2 : p.point - 1 < 1024 := (zpow_lt_zpow_iff_right₀ (by norm_num)).mp
        (hl.trans_lt hlt)
      omega
  · have hzr : p.value = 0 := by rw [← abs_eq_zero, ha, magnitude_of_isZero hz]
    simp [Near, hzr]

/-- A text in plain form is its own canonical text, while it is short enough. -/
theorem canonicalNumber_plainForm {r : Str} (h : PlainForm neg a r) :
    canonicalNumber r = some r ↔ Near (signed neg (magnitudeValue a)) := by
  obtain ⟨L, hw, hexp, hv⟩ := plainText_writes neg h.trimmed.digits
  rw [← h.text_eq] at hw
  have hp := parseNumber_of_writes hw
  set p := ofParts L.neg L.int L.frac (saturate L.exp)
  have hpn := parseNumber_normal hp
  have hpv : p.value = signed neg (magnitudeValue a) := (value_of_writes hw hp (by simp [hexp])).trans hv
  rw [canonicalNumber, hp, map_some, some.injEq, ← hpv, ← expandable_iff hpn]
  constructor
  · -- a text in scientific form has an exponent mark, a text in plain form has none
    intro hr
    by_contra he
    have hm : 'E' ∈ p.render := by
      rw [render, if_neg he]
      simp
    rw [hr, h.text_eq, plainText] at hm
    have hd {s : Str} (hs : s.all isDigit) : 'E' ∉ s := not_mem_of_digits rfl hs
    have hf := hd h.trimmed.digits.2
    have hi := hd h.trimmed.digits.1
    simp only [signText, fracText, mem_append] at hm
    rcases hm with (hm | hm) | hm
    · split_ifs at hm <;> simp at hm
    · split_ifs at hm
      · simp at hm
      · exact hi hm
    · split_ifs at hm
      · cases hm
      · rcases mem_cons.mp hm with hdt | hm
        · cases hdt
        · exact hf hm
  · intro he
    have hmg : p.magnitude = magnitudeValue a := by
      have hn : 0 ≤ magnitudeValue a := by
        unfold magnitudeValue
        positivity
      rw [← abs_value, hpv, signed]
      split_ifs
      · rw [abs_neg, abs_of_nonneg hn]
      · exact abs_of_nonneg hn
    have hex : p.expand = a :=
      (trimmed_expand hpn).eq_of_value_eq h.trimmed (by rw [magnitudeValue_expand hpn, hmg])
    have hsg : p.neg = neg := by
      rcases hz : p.isZero with _ | _
      · have hps := hpn.magnitude_pos hz
        rw [value, ← magnitude] at hpv
        rcases hpne : p.neg with _ | _ <;> rcases neg with _ | _ <;> rw [hpne] at hpv <;>
          simp [signed] at hpv ⊢ <;> linarith
      · rw [(hpn.zero (List.isEmpty_iff.mp hz)).1]
        rcases neg with _ | _
        · rfl
        · exact absurd (hmg ▸ magnitude_of_isZero hz) (h.sign rfl)
    rw [render, if_pos he, h.text_eq, ← hex, ← hsg]
    rfl

theorem point_ofParts {int frac : Str} (neg : Bool) (exp : ℤ)
    (hz : (ofParts neg int frac exp).isZero = false) :
    ∃ shift : ℤ, -frac.length < shift ∧ shift ≤ int.length ∧
      ∀ e, (ofParts neg int frac e).isZero = false ∧ (ofParts neg int frac e).point = shift + e := by
  set significant := (int ++ frac).dropWhile (· == '0') with hs
  have hne : ¬ (significant.rdropWhile (· == '0')).isEmpty = true := by
    intro h
    rw [ofParts, ← hs] at hz
    simp [h, isZero] at hz
  have hp : 0 < significant.length := by
    rw [length_pos_iff]
    intro hn
    rw [hn] at hne
    exact hne rfl
  have hle : significant.length ≤ int.length + frac.length := by
    rw [← length_append]
    exact (dropWhile_sublist _).length_le
  refine ⟨int.length - ((int ++ frac).length - significant.length : ℕ), ?_, ?_, fun e => ?_⟩
  · rw [length_append]
    omega
  · omega
  · rw [ofParts, ← hs]
    simp only [hne, Bool.false_eq_true, if_false]
    exact ⟨by simpa [isZero] using hne, trivial⟩

theorem near_reading (hL : L.Writes s) (hs : s.length < 2 ^ 62)
    (hp : parseNumber s = some p) : (Near p.value ↔ Near L.value) ∧ (Near p.value → p.value = L.value) := by
  by_cases hex : L.exp.natAbs < 2 ^ 63
  · have hv := value_of_writes hL hp hex
    exact ⟨by rw [hv], fun _ => hv⟩
  · have hl := length_le_of_writes hL
    have hpn := parseNumber_normal hp
    rw [parseNumber_of_writes hL, some.injEq] at hp
    obtain ⟨-, -, -, -, -, hi, hf, -⟩ := hL
    next neg int frac exp front back sign point mark =>
    have hqn : (ofParts neg int frac exp).Normal := ofParts_normal hi hf
    have hqv : (ofParts neg int frac exp).value = (⟨neg, int, frac, exp⟩ : Literal).value :=
      value_ofParts _ _ _ _
    dsimp only at hp hex hl
    rcases hz : p.isZero with _ | _
    · rw [← hp] at hz
      obtain ⟨shift, hlw, hh, hpo⟩ := point_ofParts neg _ hz
      have hst : (saturate exp).natAbs = 2 ^ 63 - 1 := by
        unfold saturate clampI64
        split_ifs <;> rfl
      have hfr {e : ℤ} (he : 2 ^ 63 - 1 ≤ e.natAbs) : ¬ (ofParts neg int frac e).expandable = true := by
        obtain ⟨hez, hep⟩ := hpo e
        rw [expandable, hez, maxExpandedPoint]
        simp only [Bool.false_or, decide_eq_true_eq]
        omega
      have hpf : ¬ Near p.value := by
        rw [← expandable_iff hpn, ← hp]
        exact hfr (by omega)
      have hq : ¬ Near (ofParts neg int frac exp).value := by
        rw [← expandable_iff hqn]
        exact hfr (by omega)
      rw [← hqv]
      exact ⟨iff_of_false hpf hq, fun h => absurd h hpf⟩
    · -- zero is read as zero, whatever its exponent
      have hpz : p.value = 0 := by rw [← abs_eq_zero, abs_value, magnitude_of_isZero hz]
      have hLz : (⟨neg, int, frac, exp⟩ : Literal).value = 0 := by
        rcases hqz : (ofParts neg int frac exp).isZero with _ | _
        · obtain ⟨shift, -, -, hpo⟩ := point_ofParts neg _ hqz
          rw [← hp, (hpo _).1] at hz
          cases hz
        · rw [← hqv, ← abs_eq_zero, abs_value, magnitude_of_isZero hqz]
      rw [hpz, hLz]
      exact ⟨Iff.rfl, fun _ => rfl⟩

theorem isSome_normalizeDecimal (hs : s.length < 2 ^ 62) :
    (normalizeDecimal s).isSome = true ↔ ∃ L : Literal, L.Writes s ∧ Near L.value := by
  rcases hp : parseNumber s with _ | p
  · rw [normalizeDecimal, hp]
    refine iff_of_false (by simp) ?_
    rintro ⟨L, hL, -⟩
    rw [parseNumber_of_writes hL] at hp
    cases hp
  · rw [normalizeDecimal, hp, bind_some]
    have hi := expandable_iff (parseNumber_normal hp)
    obtain ⟨L, hL⟩ := exists_writes hp
    split_ifs with he
    · refine iff_of_true rfl ⟨L, hL, ?_⟩
      exact (near_reading hL hs hp).1.mp (hi.mp he)
    · refine iff_of_false (by simp) ?_
      rintro ⟨M, hM, hn⟩
      exact he (hi.mpr ((near_reading hM hs hp).1.mpr hn))

theorem normalizeDecimal_eq_some (hs : s.length < 2 ^ 62) (hL : L.Writes s)
    (h : normalizeDecimal s = some (neg, a)) :
    Trimmed a ∧ signed neg (magnitudeValue a) = L.value := by
  obtain ⟨p, hp, h⟩ := bind_eq_some_iff.mp h
  have hpn := parseNumber_normal hp
  split_ifs at h with he
  cases h
  refine ⟨trimmed_expand hpn, ?_⟩
  rw [magnitudeValue_expand hpn]
  exact (near_reading hL hs hp).2 ((expandable_iff hpn).mp he)

/-- **Exact decimal arithmetic.**  Two texts can be added or subtracted exactly when they are literals of
numbers whose leading digits stand within 1024 places of the point.  The result is in plain form and denotes
the exact sum or difference; it is its own canonical text exactly when its leading digit stands within 1024
places, too. -/
theorem decimalAddSub_exact {x y : Str} (hx : x.length < 2 ^ 62) (hy : y.length < 2 ^ 62) (isAdd : Bool) :
    (decimalAddSub x y isAdd = none ↔
      ¬ ((∃ L : Literal, L.Writes x ∧ Near L.value) ∧ ∃ M : Literal, M.Writes y ∧ Near M.value)) ∧
    ∀ (L M : Literal) (r : Str), L.Writes x → M.Writes y → decimalAddSub x y isAdd = some r →
      (∃ N : Literal, N.Writes r ∧ N.value = if isAdd then L.value + M.value else L.value - M.value) ∧
      (∃ neg a, PlainForm neg a r) ∧
      (canonicalNumber r = some r ↔ Near (if isAdd then L.value + M.value else L.value - M.value)) := by
  refine ⟨?_, fun L M r hL hM hr => ?_⟩
  · rw [← isSome_normalizeDecimal hx, ← isSome_normalizeDecimal hy, decimalAddSub]
    rcases normalizeDecimal x with _ | _
    · simp
    · rcases normalizeDecimal y with _ | _ <;> simp
  · obtain ⟨⟨aNeg, a⟩, ha, hr⟩ := bind_eq_some_iff.mp hr
    obtain ⟨⟨bNeg, b⟩, hb, hr⟩ := map_eq_some_iff.mp hr
    obtain ⟨hat, hav⟩ := normalizeDecimal_eq_some hx hL ha
    obtain ⟨hbt, hbv⟩ := normalizeDecimal_eq_some hy hM hb
    obtain ⟨hs, hd⟩ := addSigned_spec aNeg (if isAdd then bNeg else !bNeg) hat hbt
    obtain ⟨neg, c, hp, hv⟩ := formatDecimal_spec (addSigned aNeg a (if isAdd then bNeg else !bNeg) b).1 hd
    dsimp only at hr
    rw [hr] at hp
    have hrs : signed neg (magnitudeValue c) = if isAdd then L.value + M.value else L.value - M.value := by
      rw [hv, hs, hav, ← hbv]
      cases isAdd <;> cases bNeg <;> simp [signed, sub_eq_add_neg]
    obtain ⟨N, hN, -, hNv⟩ := plainText_writes neg hp.trimmed.digits
    rw [← hp.text_eq] at hN
    refine ⟨⟨N, hN, hNv.trans hrs⟩, ⟨neg, c, hp⟩, ?_⟩
    rw [← hrs]
    exact canonicalNumber_plainForm hp

theorem decimalAddSub_exact_tenths :
    ∃ N : Literal, N.Writes "0.3" ∧ N.value = 3 / 10 := by
  have hx : (⟨false, ['0'], ['1'], 0⟩ : Literal).Writes "0.1" := writes_plain false rfl rfl (by simp)
  have hy : (⟨false, ['2'], [], -1⟩ : Literal).Writes "2E-1" :=
    writes_unpadded .none .none (exponentOf_showInt (-1)) rfl rfl (by simp)
  obtain ⟨N, hN, hv⟩ := ((decimalAddSub_exact (x := "0.1") (by decide) (by decide)
    true).2 _ _ "0.3" hx hy (by decide +kernel)).1
  refine ⟨N, hN, hv.trans ?_⟩
  simp [Literal.value, signed, digitsValue]
  norm_num

/-- The sum of two numbers that can be added may be too large for its canonical text to be in plain digits. -/
theorem sum_not_canonical :
    decimalAddSub "9E1023".toList "9E1023".toList true = some ('1' :: '8' :: List.replicate 1023 '0') ∧
      canonicalNumber ('1' :: '8' :: List.replicate 1023 '0') = some "1.8E1024".toList ∧
      canonicalNumber ('1' :: '8' :: List.replicate 1023 '0') ≠
        some ('1' :: '8' :: List.replicate 1023 '0') := by
  have hc : canonicalNumber ('1' :: '8' :: replicate 1023 '0') = some "1.8E1024".toList := by
    decide +kernel
  refine ⟨by decide +kernel, hc, fun h => ?_⟩
  rw [hc, some.injEq] at h
  have hl := congrArg List.length h
  rw [length_cons, length_cons, length_replicate] at hl
  revert hl
  decide

end Fakecloud.Dynamodb

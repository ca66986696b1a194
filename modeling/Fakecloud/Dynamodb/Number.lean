import Fakecloud.Lib.Digits
import Mathlib.Tactic

/-!
# Numbers

A DynamoDB Number is a decimal literal.  `parseNumber` decomposes it without expanding its exponent,
`canonicalNumber` writes the decomposition back so that literals of one value share one text, and
`compareNumberStrings` orders literals by value.  `Literal.Writes` is the grammar of literals; it says
nothing about how they are read.

The exponent of a literal is read with saturation at the bounds of `i64`, while the position of the
decimal point is not bounded, so `parse_render` has a side condition: the text written for a number
is read back as that number when its scientific exponent is an `i64` (`ParsedNumber.InRange`).
-/

namespace Fakecloud.Dynamodb

open Text List Option Nat

/-- The value `(-1)^neg * 0.<digits> * 10^point`. -/
structure ParsedNumber where
  neg : Bool
  digits : Str
  point : ℤ
deriving DecidableEq

namespace ParsedNumber

def isZero (p : ParsedNumber) : Bool := p.digits.isEmpty

def maxExpandedPoint : ℕ := 1024

def expandable (p : ParsedNumber) : Bool := p.isZero || p.point.natAbs ≤ maxExpandedPoint

/-- The digits before and after the decimal point. -/
def expand (p : ParsedNumber) : Str × Str :=
  if p.isZero then ([], [])
  else if p.point ≤ 0 then ([], List.replicate (-p.point).toNat '0' ++ p.digits)
  else if p.digits.length ≤ p.point then
    (p.digits ++ List.replicate (p.point - p.digits.length).toNat '0', [])
  else (p.digits.take p.point.toNat, p.digits.drop p.point.toNat)

def cmpMagnitude (p q : ParsedNumber) : Ordering :=
  match p.isZero, q.isZero with
  | true, true => .eq
  | true, false => .lt
  | false, true => .gt
  | false, false => (compare p.point q.point).then (compare p.digits q.digits)

/-- Sign first, then magnitude. -/
def cmp (p q : ParsedNumber) : Ordering :=
  match p.neg, q.neg with
  | true, false => .lt
  | false, true => .gt
  | true, true => (p.cmpMagnitude q).swap
  | false, false => p.cmpMagnitude q

end ParsedNumber

/-! ## Reading a literal -/

/-- A magnitude past `i64` saturates. -/
def clampI64 (n : ℕ) : ℤ := if n < 2 ^ 63 then n else 2 ^ 63 - 1

/-- A minus, and the text behind the sign. -/
def splitSign : Str → Bool × Str
  | '-' :: rest => (true, rest)
  | '+' :: rest => (false, rest)
  | s => (false, s)

def parseExponent (e : Str) : Option ℤ :=
  let (neg, digits) := splitSign e
  (parseDigits digits).map fun n => if neg then -clampI64 n else clampI64 n

def isExponentMark (c : Char) : Bool := c == 'e' || c == 'E'

/-- The decomposition of `<int>.<frac>` times ten to the power `exp`. -/
def ofParts (neg : Bool) (int frac : Str) (exp : ℤ) : ParsedNumber :=
  let all := int ++ frac
  let significant := all.dropWhile (· == '0')
  let leading := all.length - significant.length
  let digits := significant.rdropWhile (· == '0')
  if digits.isEmpty then ⟨false, [], 0⟩ else ⟨neg, digits, int.length - leading + exp⟩

/-- `<int>.<frac>`, where one of the parts may be left out. -/
def parseMantissa (neg : Bool) (mantissa : Str) (exp : ℤ) : Option ParsedNumber :=
  let (int, frac) := (splitOnce '.' mantissa).getD (mantissa, [])
  if int.isEmpty && frac.isEmpty then none
  else if int.all Char.isDigit && frac.all Char.isDigit then some (ofParts neg int frac exp)
  else none

def parseUnsignedNumber (neg : Bool) (rest : Str) : Option ParsedNumber :=
  let mantissa := rest.takeWhile fun c => !isExponentMark c
  match rest.dropWhile fun c => !isExponentMark c with
  | [] => parseMantissa neg mantissa 0
  | _ :: e => (parseExponent e).bind (parseMantissa neg mantissa)

def parseNumber (s : Str) : Option ParsedNumber :=
  let s := trim s
  if s.isEmpty then none
  else
    let (neg, rest) := splitSign s
    parseUnsignedNumber neg rest

def isValidNumber (s : Str) : Bool := (parseNumber s).isSome

def compareNumberStrings (x y : Str) : Ordering :=
  match parseNumber x, parseNumber y with
  | some p, some q => p.cmp q
  | _, _ => .eq

/-! ## Writing a number -/

/-- `Display` of an integer. -/
def showInt (n : ℤ) : Str := (if n < 0 then ['-'] else []) ++ Nat.toDigits 10 n.natAbs

def signText (neg : Bool) : Str := if neg then ['-'] else []

/-- A fractional part with its point, if there is one. -/
def fracText (frac : Str) : Str := if frac.isEmpty then [] else '.' :: frac

/-- Plain decimal digits, or scientific form for a number too long to expand. -/
def ParsedNumber.render (p : ParsedNumber) : Str :=
  if p.expandable then
    let (int, frac) := p.expand
    signText p.neg ++ (if int.isEmpty then ['0'] else int) ++ fracText frac
  else
    signText p.neg ++ p.digits.take 1 ++ fracText (p.digits.drop 1) ++ 'E' :: showInt (p.point - 1)

def canonicalNumber (s : Str) : Option Str := (parseNumber s).map ParsedNumber.render

/-! ## Normal forms -/

/-- No insignificant zeros, and zero in its one form. -/
structure ParsedNumber.Normal (p : ParsedNumber) : Prop where
  digit : ∀ c ∈ p.digits, c.isDigit
  head : p.digits.head? ≠ some '0'
  last : p.digits.getLast? ≠ some '0'
  zero : p.digits = [] → p.neg = false ∧ p.point = 0

/-- The exponent of the number in scientific notation is an `i64`, up to its sign. -/
def ParsedNumber.InRange (p : ParsedNumber) : Prop := (p.point - 1).natAbs < 2 ^ 63

instance (p : ParsedNumber) : Decidable p.InRange := inferInstanceAs (Decidable (_ < _))

variable {neg : Bool} {exp : ℤ}

theorem ofParts_normal {int frac : Str} (hi : int.all Char.isDigit)
    (hf : frac.all Char.isDigit) : (ofParts neg int frac exp).Normal := by
  unfold ofParts
  dsimp only
  set significant := (int ++ frac).dropWhile (· == '0') with hsg
  split
  · exact ⟨by simp, by simp, by simp, by simp⟩
  · next hne =>
    have hp := rdropWhile_prefix (· == '0') significant
    have hs : ∀ c ∈ significant.rdropWhile (· == '0'), c ∈ int ++ frac := fun c hc =>
      (dropWhile_sublist _).subset (hp.subset hc)
    refine ⟨fun c hc => ?_, ?_, ?_, fun h => absurd (isEmpty_iff.mpr h) hne⟩
    · rcases mem_append.mp (hs c hc) with hc | hc
      · exact all_eq_true.mp hi c hc
      · exact all_eq_true.mp hf c hc
    · -- what is left of the front after the zeros at the end are gone
      obtain ⟨tail, ht⟩ := rdropWhile_prefix (· == '0') significant
      intro hh
      have hsig0 : significant.head? = some '0' := by
        rw [← ht, head?_append, hh]
        rfl
      have := head?_dropWhile_not (· == '0') (int ++ frac)
      rw [hsig0] at this
      simp at this
    · intro hl
      have := rdropWhile_last_not (· == '0') significant
        (fun h => hne (isEmpty_iff.mpr h))
      rw [getLast?_eq_some_getLast (fun h => hne (isEmpty_iff.mpr h)), some.injEq] at hl
      simp [hl] at this

variable {p q : ParsedNumber} {s ds : Str} {c : Char}

theorem parseMantissa_normal {m : Str}
    (h : parseMantissa neg m exp = some p) : p.Normal := by
  unfold parseMantissa at h
  dsimp only at h
  split at h
  · cases h
  · split at h
    · next ha =>
      rw [Bool.and_eq_true] at ha
      rw [← some.inj h]
      exact ofParts_normal ha.1 ha.2
    · cases h

theorem parseUnsignedNumber_normal {rest : Str}
    (h : parseUnsignedNumber neg rest = some p) : p.Normal := by
  unfold parseUnsignedNumber at h
  split at h
  · exact parseMantissa_normal h
  · obtain ⟨exp, -, hm⟩ := bind_eq_some_iff.mp h
    exact parseMantissa_normal hm

theorem parseNumber_normal (h : parseNumber s = some p) : p.Normal := by
  unfold parseNumber at h
  dsimp only at h
  split at h
  · cases h
  · exact parseUnsignedNumber_normal h

/-! ## Literals -/

structure Literal where
  neg : Bool
  int : Str
  frac : Str
  exp : ℤ

inductive SignOf : Bool → Str → Prop
  | none : SignOf false []
  | plus : SignOf false ['+']
  | minus : SignOf true ['-']

/-- The fractional digits, behind a point. -/
inductive PointOf : Str → Str → Prop
  | none : PointOf [] []
  | point (frac : Str) : PointOf frac ('.' :: frac)

inductive ExponentOf : ℤ → Str → Prop
  | none : ExponentOf 0 []
  | mark {c : Char} {neg : Bool} {sign ds : Str} (hc : isExponentMark c) (hsign : SignOf neg sign)
      (hne : ds ≠ []) (hds : ds.all Char.isDigit) :
      ExponentOf (if neg then -(digitsValue ds : ℤ) else digitsValue ds) (c :: (sign ++ ds))

/-- A text of a literal, which may have white space around it. -/
inductive Literal.Writes : Literal → Str → Prop
  | mk {neg : Bool} {int frac : Str} {exp : ℤ} {front back sign point mark : Str}
      (hfront : front.all isWhitespace) (hback : back.all isWhitespace) (hsign : SignOf neg sign)
      (hpoint : PointOf frac point) (hmark : ExponentOf exp mark) (hint : int.all Char.isDigit)
      (hfrac : frac.all Char.isDigit) (hne : int ++ frac ≠ []) :
      Literal.Writes ⟨neg, int, frac, exp⟩ (front ++ (sign ++ (int ++ (point ++ mark))) ++ back)

variable {front sign int frac point mark : Str} {L : Literal}

theorem not_mem_of_digits (hc : c.isDigit = false)
    (h : s.all Char.isDigit) : c ∉ s := fun hm => by
  have := all_eq_true.mp h c hm
  rw [hc] at this
  cases this

theorem not_exponentMark_of_digit {c : Char} (h : c.isDigit) : isExponentMark c = false := by
  simp only [isExponentMark, Bool.or_eq_false_iff, beq_eq_false_iff_ne]
  constructor
  · rintro rfl
    simp at h
  · rintro rfl
    simp at h

/-- Where an exponent past `i64` is cut off. -/
def saturate (n : ℤ) : ℤ := if n < 0 then -clampI64 n.natAbs else clampI64 n.natAbs

theorem saturate_eq_self {n : ℤ} (h : n.natAbs < 2 ^ 63) : saturate n = n := by
  unfold saturate clampI64
  split
  · next hn => rw [Int.ofNat_natAbs_of_nonpos hn.le, neg_neg]
  · next hn => exact Int.natAbs_of_nonneg (not_lt.mp hn)

theorem isWhitespace_of_isDigit (h : c.isDigit) : isWhitespace c = false := by
  have hd : 48 ≤ c.toNat ∧ c.toNat ≤ 57 := by
    simp only [Char.isDigit, Bool.and_eq_true, decide_eq_true_eq] at h
    exact h
  simp only [isWhitespace, Bool.or_eq_false_iff, Bool.and_eq_false_iff, decide_eq_false_iff_not,
    beq_eq_false_iff_ne]
  omega

theorem dropWhile_append_of_front {p : Char → Bool} (hf : front.all p)
    (hs : ∀ c ∈ s.head?, p c = false) : (front ++ s).dropWhile p = s := by
  rw [dropWhile_append_of_pos fun c hc => all_eq_true.mp hf c hc]
  cases s with
  | nil => rfl
  | cons c s =>
    simp [hs c rfl]

theorem trim_padded {back : Str} (hf : front.all isWhitespace) (hb : back.all isWhitespace)
    (hs : ∀ c ∈ s, isWhitespace c = false) : trim (front ++ s ++ back) = s := by
  by_cases hne : s = []
  · subst hne
    rw [trim, append_nil, dropWhile_eq_nil_iff.mpr]
    · rfl
    · intro c hc
      rcases mem_append.mp hc with hc | hc
      · exact all_eq_true.mp hf c hc
      · exact all_eq_true.mp hb c hc
  · have hfr : ∀ c ∈ (s ++ back).head?, isWhitespace c = false := by
      intro c hc
      rw [head?_append_of_ne_nil _ hne] at hc
      exact hs c (mem_of_mem_head? hc)
    have hl : ∀ c ∈ s.reverse.head?, isWhitespace c = false := fun c hc =>
      hs c (mem_reverse.mp (mem_of_mem_head? hc))
    rw [trim, append_assoc, dropWhile_append_of_front hf hfr, rdropWhile,
      reverse_append, dropWhile_append_of_front (by simpa using hb) hl, reverse_reverse]

theorem splitSign_of_head (h : ∀ c ∈ s.head?, c ≠ '-' ∧ c ≠ '+') : splitSign s = (false, s) := by
  unfold splitSign
  split
  · exact absurd rfl (h '-' rfl).1
  · exact absurd rfl (h '+' rfl).2
  · rfl

theorem SignOf.splitSign (h : SignOf neg sign)
    (hs : ∀ c ∈ s.head?, c ≠ '-' ∧ c ≠ '+') : Dynamodb.splitSign (sign ++ s) = (neg, s) := by
  cases h with
  | none => exact splitSign_of_head hs
  | plus => rfl
  | minus => rfl

theorem SignOf.not_whitespace (h : SignOf neg sign) : ∀ c ∈ sign, isWhitespace c = false := by
  cases h <;> simp <;> rfl

theorem not_sign_of_isDigit (h : c.isDigit) : c ≠ '-' ∧ c ≠ '+' := by
  constructor <;> rintro rfl <;> cases h

theorem head_not_sign_of_digits (h : ds.all Char.isDigit) : ∀ c ∈ ds.head?, c ≠ '-' ∧ c ≠ '+' :=
  fun c hc => not_sign_of_isDigit (all_eq_true.mp h c (mem_of_mem_head? hc))

theorem saturate_neg_natCast (n : ℕ) : saturate (-n) = -clampI64 n := by
  rw [saturate, Int.natAbs_neg]
  split_ifs with hn
  · rfl
  · obtain rfl : n = 0 := by omega
    rfl

theorem parseExponent_eq (hs : SignOf neg sign) (hne : ds ≠ []) (hds : ds.all Char.isDigit) :
    parseExponent (sign ++ ds) = some (saturate (if neg then -(digitsValue ds : ℤ) else digitsValue ds)) := by
  rw [parseExponent, hs.splitSign (head_not_sign_of_digits hds)]
  simp only [parseDigits_eq_some.mpr ⟨hne, hds, rfl⟩]
  cases neg
  · simp [saturate]
  · simp [saturate_neg_natCast]

section

variable (hp : PointOf frac point) (hi : int.all Char.isDigit) (hf : frac.all Char.isDigit)
include hp hi hf

theorem parseMantissa_eq (neg : Bool) (hne : int ++ frac ≠ []) :
    parseMantissa neg (int ++ point) exp = some (ofParts neg int frac exp) := by
  have hd : '.' ∉ int := not_mem_of_digits rfl hi
  have hc : (splitOnce '.' (int ++ point)).getD (int ++ point, []) = (int, frac) := by
    cases hp with
    | none =>
      rw [append_nil, splitOnce_eq_none.mpr hd]
      rfl
    | point =>
      rw [splitOnce_append hd]
      rfl
  have he : (int.isEmpty && frac.isEmpty) = false := by
    simpa using hne
  unfold parseMantissa
  rw [hc]
  simp only [he, hi, hf, Bool.and_self, if_true, Bool.false_eq_true, if_false]

theorem PointOf.not_mark : ∀ c ∈ int ++ point, (!isExponentMark c) = true := by
  have hd {s : Str} (hs : s.all Char.isDigit) {c : Char} (hc : c ∈ s) : (!isExponentMark c) = true := by
    rw [not_exponentMark_of_digit (all_eq_true.mp hs c hc)]
    rfl
  intro c hc
  rcases mem_append.mp hc with hc | hc
  · exact hd hi hc
  · cases hp with
    | none => cases hc
    | point =>
      rcases mem_cons.mp hc with rfl | hc
      · rfl
      · exact hd hf hc

theorem parseUnsignedNumber_eq (neg : Bool) (hm : ExponentOf exp mark) (hne : int ++ frac ≠ []) :
    parseUnsignedNumber neg (int ++ point ++ mark) = some (ofParts neg int frac (saturate exp)) := by
  have hn := hp.not_mark hi hf
  unfold parseUnsignedNumber
  rw [takeWhile_append_of_pos hn, dropWhile_append_of_pos hn]
  cases hm with
  | none =>
    rw [show saturate 0 = 0 from rfl]
    simpa using parseMantissa_eq hp hi hf neg hne
  | @mark c eneg sign ds hc hs hds ha =>
    rw [takeWhile_cons_of_neg (by simp [hc]), dropWhile_cons_of_neg (by simp [hc]), append_nil]
    dsimp only
    rw [parseExponent_eq hs hds ha]
    exact parseMantissa_eq hp hi hf neg hne

end

theorem head_not_sign (hp : PointOf frac point) (hi : int.all Char.isDigit)
    (hne : int ++ frac ≠ []) : ∀ c ∈ (int ++ point ++ mark).head?, c ≠ '-' ∧ c ≠ '+' := by
  intro c hc
  cases int with
  | cons d int =>
    obtain rfl : d = c := by simpa using hc
    exact not_sign_of_isDigit (all_eq_true.mp hi d mem_cons_self)
  | nil =>
    cases hp with
    | none => exact absurd rfl hne
    | point =>
      obtain rfl : '.' = c := by simpa using hc
      decide

theorem not_whitespace_of_mark (h : ExponentOf exp mark) : ∀ c ∈ mark, isWhitespace c = false := by
  intro c hc
  cases h with
  | none => cases hc
  | @mark e eneg sign ds he hs hds ha =>
    rcases mem_cons.mp hc with rfl | hc
    · simp only [isExponentMark, Bool.or_eq_true, beq_iff_eq] at he
      rcases he with rfl | rfl <;> rfl
    · rcases mem_append.mp hc with hc | hc
      · exact hs.not_whitespace c hc
      · exact isWhitespace_of_isDigit (all_eq_true.mp ha c hc)

theorem not_whitespace_of_point (h : PointOf frac point) (hf : frac.all Char.isDigit) :
    ∀ c ∈ point, isWhitespace c = false := by
  intro c hc
  cases h with
  | none => cases hc
  | point =>
    rcases mem_cons.mp hc with rfl | hc
    · rfl
    · exact isWhitespace_of_isDigit (all_eq_true.mp hf c hc)

/-- A literal is read as its parts, the exponent with saturation. -/
theorem parseNumber_of_writes (h : L.Writes s) :
    parseNumber s = some (ofParts L.neg L.int L.frac (saturate L.exp)) := by
  obtain ⟨hfr, hb, hs, hp, hm, hi, hf, hne⟩ := h
  next neg int frac exp front back sign point mark =>
  have ht : trim (front ++ (sign ++ (int ++ (point ++ mark))) ++ back) = sign ++
    (int ++ (point ++ mark)) := by
    refine trim_padded hfr hb fun c hc => ?_
    simp only [mem_append] at hc
    rcases hc with hc | hc | hc | hc
    · exact hs.not_whitespace c hc
    · exact isWhitespace_of_isDigit (all_eq_true.mp hi c hc)
    · exact not_whitespace_of_point hp hf c hc
    · exact not_whitespace_of_mark hm c hc
  have he : (sign ++ (int ++ (point ++ mark))).isEmpty = false := by
    rw [Bool.eq_false_iff]
    intro h
    simp only [List.isEmpty_iff, append_eq_nil_iff] at h
    obtain ⟨-, rfl, rfl, -⟩ := h
    cases hp
    exact hne rfl
  rw [parseNumber, ht]
  simp only [he]
  rw [← append_assoc int, hs.splitSign (head_not_sign hp hi hne)]
  exact parseUnsignedNumber_eq hp hi hf neg hm hne

/-! ## Reading back what was written -/

open ParsedNumber

theorem dropWhile_zeros (h : ds.head? ≠ some '0') (n : ℕ) :
    (replicate n '0' ++ ds).dropWhile (· == '0') = ds := by
  refine dropWhile_append_of_front (by simp) fun c hc => ?_
  rw [beq_eq_false_iff_ne]
  rintro rfl
  exact h hc

theorem rdropWhile_zeros (h : ds.getLast? ≠ some '0') (n : ℕ) :
    (ds ++ replicate n '0').rdropWhile (· == '0') = ds := by
  rw [rdropWhile, reverse_append, reverse_replicate, dropWhile_zeros (by rwa [head?_reverse]),
    reverse_reverse]

theorem ofParts_padded (hp : p.Normal) (hne : p.digits ≠ []) {int frac : Str}
    {m n : ℕ} (h : int ++ frac = replicate m '0' ++ (p.digits ++ replicate n '0'))
    (exp : ℤ) : ofParts p.neg int frac exp = ⟨p.neg, p.digits, int.length - m + exp⟩ := by
  have hh : (p.digits ++ replicate n '0').head? ≠ some '0' := by
    rw [head?_append_of_ne_nil _ hne]
    exact hp.head
  unfold ofParts
  dsimp only
  rw [h, dropWhile_zeros hh, rdropWhile_zeros hp.last, if_neg (by simpa using hne)]
  simp

theorem digitsValue_toDigits (n : ℕ) :
    digitsValue (toDigits 10 n) = n := ofDigitChars_toDigits (by omega) (by omega)

theorem all_isDigit_toDigits (n : ℕ) : (toDigits 10 n).all Char.isDigit :=
  all_eq_true.mpr fun _ => isDigit_of_mem_toDigits (by decide) (by decide)

theorem expand_digits (p : ParsedNumber) : (∀ c ∈ p.expand.1, c ∈ p.digits ∨ c = '0') ∧
    ∀ c ∈ p.expand.2, c ∈ p.digits ∨ c = '0' := by
  have hp : ∀ n, ∀ c ∈ replicate n '0', c ∈ p.digits ∨ c = '0' := fun n c hc =>
    .inr (eq_of_mem_replicate hc)
  unfold expand
  split_ifs
  · exact ⟨nofun, nofun⟩
  · exact ⟨nofun, fun c hc => (mem_append.mp hc).elim (hp _ c) .inl⟩
  · exact ⟨fun c hc => (mem_append.mp hc).elim .inl (hp _ c), nofun⟩
  · exact ⟨fun c hc => .inl (mem_of_mem_take hc), fun c hc => .inl (mem_of_mem_drop hc)⟩

theorem signOf_signText (neg : Bool) : SignOf neg (signText neg) := by
  cases neg
  · exact .none
  · exact .minus

theorem pointOf_fracText (frac : Str) : PointOf frac (fracText frac) := by
  unfold fracText
  split_ifs with h
  · rw [List.isEmpty_iff.mp h]
    exact .none
  · exact .point frac

theorem writes_unpadded (hs : SignOf neg sign)
    (hp : PointOf frac point) (hm : ExponentOf exp mark) (hi : int.all Char.isDigit)
    (hf : frac.all Char.isDigit) (hne : int ≠ []) :
    (⟨neg, int, frac, exp⟩ : Literal).Writes (sign ++ int ++ point ++ mark) := by
  have h : (⟨neg, int, frac, exp⟩ : Literal).Writes ([] ++ (sign ++ (int ++ (point ++ mark))) ++ []) :=
    .mk rfl rfl hs hp hm hi hf (by simp [hne])
  simpa using h

theorem writes_plain (neg : Bool) (hi : int.all Char.isDigit) (hf : frac.all Char.isDigit)
    (hne : int ≠ []) : (⟨neg, int, frac, 0⟩ : Literal).Writes (signText neg ++ int ++ fracText frac) := by
  simpa using writes_unpadded (signOf_signText neg) (pointOf_fracText frac) .none hi hf hne

theorem exponentOf_showInt (n : ℤ) : ExponentOf n ('E' :: showInt n) := by
  have ha := all_isDigit_toDigits n.natAbs
  unfold showInt
  split_ifs with hn
  · have h := ExponentOf.mark (c := 'E') rfl .minus toDigits_ne_nil ha
    rw [digitsValue_toDigits] at h
    rwa [show n = -n.natAbs by omega, Int.natAbs_neg]
  · have h := ExponentOf.mark (c := 'E') rfl .none toDigits_ne_nil ha
    rw [digitsValue_toDigits] at h
    rwa [show n = n.natAbs by omega]

/-- The literal that is written for a number. -/
def ParsedNumber.literal (p : ParsedNumber) : Literal :=
  if p.expandable then ⟨p.neg, if p.expand.1.isEmpty then ['0'] else p.expand.1, p.expand.2, 0⟩
  else ⟨p.neg, p.digits.take 1, p.digits.drop 1, p.point - 1⟩

theorem digits_ne_nil (he : ¬ p.expandable) : p.digits ≠ [] := fun h => he (by simp [expandable, isZero, h])

theorem showInt_injective : Function.Injective showInt := by
  intro m n h
  have ha {a b : ℕ} (hab : toDigits 10 a = toDigits 10 b) : a = b := by
    rw [← digitsValue_toDigits a, hab, digitsValue_toDigits]
  have hs {a b : ℕ} : '-' :: toDigits 10 a ≠ toDigits 10 b := fun hab =>
    not_mem_of_digits rfl (all_isDigit_toDigits b) (hab ▸ mem_cons_self)
  unfold showInt at h
  split at h <;> split at h
  · have := ha (cons.inj h).2
    omega
  · exact absurd h hs
  · exact absurd h.symm hs
  · have := ha h
    omega

section

variable (hp : p.Normal)
include hp

theorem ofParts_expand (hne : p.digits ≠ []) :
    ofParts p.neg (if p.expand.1.isEmpty then ['0'] else p.expand.1) p.expand.2 0 = p := by
  have hpr : ∀ {int frac : Str} {m n : ℕ}, int ++ frac = replicate m '0' ++ (p.digits ++ replicate n '0') →
      int.length - m = p.point → ofParts p.neg int frac 0 = p := by
    intro int frac m n h hpn
    rw [ofParts_padded hp hne h 0, hpn, add_zero]
  have hz : ¬ p.isZero := by simpa [isZero] using hne
  unfold expand
  rw [if_neg hz]
  by_cases hps : p.point ≤ 0
  · -- all digits stand behind the point
    rw [if_pos hps]
    refine hpr (m := (-p.point).toNat + 1) (n := 0) (by simp [replicate_succ]) ?_
    simp only [isEmpty_nil, if_true, length_singleton]
    omega
  · rw [if_neg hps]
    by_cases hl : (p.digits.length : ℤ) ≤ p.point
    · -- all digits stand before the point
      rw [if_pos hl]
      rw [if_neg (by simp [hne])]
      refine hpr (m := 0) (n := (p.point - p.digits.length).toNat) (by simp) ?_
      rw [length_append, length_replicate]
      omega
    · -- the point cuts the digits
      rw [if_neg hl]
      dsimp only
      have ht : (p.digits.take p.point.toNat).length = p.point.toNat := by
        rw [length_take]
        omega
      rw [if_neg (by rw [isEmpty_iff_length_eq_zero]; omega)]
      refine hpr (m := 0) (n := 0) (by simp) ?_
      omega

theorem all_isDigit_expand :
    (if p.expand.1.isEmpty then ['0'] else p.expand.1).all Char.isDigit ∧ p.expand.2.all Char.isDigit := by
  have hd {s : Str} (hs : ∀ c ∈ s, c ∈ p.digits ∨ c = '0') : s.all Char.isDigit := by
    rw [List.all_eq_true]
    intro c hc
    rcases hs c hc with h | rfl
    · exact hp.digit c h
    · rfl
  refine ⟨?_, hd (expand_digits p).2⟩
  split_ifs
  · rfl
  · exact hd (expand_digits p).1

theorem literal_writes : p.literal.Writes p.render := by
  unfold literal render
  by_cases he : p.expandable
  · obtain ⟨hi, hf⟩ := all_isDigit_expand hp
    rw [if_pos he, if_pos he]
    refine writes_plain p.neg hi hf ?_
    split_ifs with h
    · simp
    · simpa using h
  · rw [if_neg he, if_neg he]
    refine writes_unpadded (signOf_signText p.neg) (pointOf_fracText _) (exponentOf_showInt _) ?_ ?_
      (by simpa using digits_ne_nil he)
    · exact all_eq_true.mpr fun c hc => hp.digit c (mem_of_mem_take hc)
    · exact all_eq_true.mpr fun c hc => hp.digit c (mem_of_mem_drop hc)

theorem ofParts_scientific (hne : p.digits ≠ []) (exp : ℤ) :
    ofParts p.neg (p.digits.take 1) (p.digits.drop 1) exp = ⟨p.neg, p.digits, 1 + exp⟩ := by
  have hct : p.digits.take 1 ++ p.digits.drop 1 = replicate 0 '0' ++ (p.digits ++ replicate 0 '0') := by
    rw [take_append_drop]
    simp
  have ho : (p.digits.take 1).length = 1 := by
    have := length_pos_iff.mpr hne
    rw [length_take]
    omega
  rw [ofParts_padded hp hne hct, ho]
  simp

theorem ofParts_literal : ofParts p.literal.neg p.literal.int p.literal.frac p.literal.exp = p := by
  unfold literal
  by_cases he : p.expandable
  · rw [if_pos he]
    by_cases hz : p.digits = []
    · obtain ⟨hn, hpn⟩ := hp.zero hz
      obtain ⟨neg, digits, point⟩ := p
      subst hz hn hpn
      rfl
    · exact ofParts_expand hp hz
  · rw [if_neg he]
    refine (ofParts_scientific hp (digits_ne_nil he) _).trans ?_
    rw [add_sub_cancel]

/-- **Reading back.**  The text of a number is read as the number, its exponent cut off where the
text is in scientific form. -/
theorem parse_render_saturate : parseNumber p.render =
      some (if p.expandable then p else { p with point := 1 + saturate (p.point - 1) }) := by
  have hl := ofParts_literal hp
  rw [parseNumber_of_writes (literal_writes hp)]
  unfold literal at hl ⊢
  by_cases he : p.expandable
  · rw [if_pos he] at hl
    rw [if_pos he, if_pos he]
    exact congrArg some hl
  · rw [if_neg he, if_neg he]
    exact congrArg some (ofParts_scientific hp (digits_ne_nil he) _)

theorem isSome_parse_render : (parseNumber p.render).isSome := by
  rw [parse_render_saturate hp]
  rfl

theorem parse_render (hr : p.InRange) : parseNumber p.render = some p := by
  rw [parse_render_saturate hp]
  split
  · rfl
  · rw [saturate_eq_self hr, add_sub_cancel]

theorem not_mem_render (he : p.expandable) : 'E' ∉ p.render := by
  have hin : ∀ {s : Str}, (∀ c ∈ s, c ∈ p.digits ∨ c = '0') → 'E' ∉ s := by
    intro s hs hm
    rcases hs 'E' hm with h | h
    · have := hp.digit 'E' h
      simp at this
    · cases h
  rw [render, if_pos he]
  simp only [mem_append, not_or]
  refine ⟨⟨?_, ?_⟩, ?_⟩
  · unfold signText
    split <;> simp
  · split
    · simp
    · exact hin (expand_digits p).1
  · unfold fracText
    split
    · simp
    · rw [mem_cons, not_or]
      exact ⟨by decide, hin (expand_digits p).2⟩

/-- **Canonical.**  A number is determined by its text. -/
theorem render_injective (hq : q.Normal) (h : p.render = q.render) : p = q := by
  have hr : parseNumber p.render = parseNumber q.render := by rw [h]
  have hm : ∀ {r : ParsedNumber}, r.expandable = false → 'E' ∈ r.render := by
    intro r he
    simp [render, he]
  rw [parse_render_saturate hp, parse_render_saturate hq, some.injEq] at hr
  rcases hpe : p.expandable with _ | _ <;> rcases hqe : q.expandable with _ | _
  · -- the exponents are written in full
    simp only [hpe, hqe, Bool.false_eq_true, if_false, mk.injEq] at hr
    obtain ⟨hn, hd, -⟩ := hr
    simp only [render, hpe, hqe, hn, hd] at h
    have hpn := showInt_injective (cons.inj (append_cancel_left h)).2
    obtain ⟨neg, digits, point⟩ := p
    obtain ⟨neg', digits', point'⟩ := q
    simp only [mk.injEq] at hn hd hpn ⊢
    exact ⟨hn, hd, by omega⟩
  · exact absurd (h ▸ hm hpe) (not_mem_render hq hqe)
  · exact absurd (h ▸ hm hqe) (not_mem_render hp hpe)
  · simpa only [hpe, hqe, if_true] using hr

end

/-! ## The order -/

theorem cmpMagnitude_eq_iff (hp : p.Normal) (hq : q.Normal) :
    p.cmpMagnitude q = .eq ↔ p.digits = q.digits ∧ p.point = q.point := by
  have hz : ∀ {r : ParsedNumber}, r.isZero = true ↔ r.digits = [] := by
    simp [isZero]
  unfold cmpMagnitude
  rcases hpz : p.isZero with _ | _ <;> rcases hqz : q.isZero with _ | _
  · rw [Ordering.then_eq_eq, Std.LawfulEqCmp.compare_eq_iff_eq, Std.LawfulEqCmp.compare_eq_iff_eq]
    exact and_comm
  · simp only [reduceCtorEq, false_iff, not_and]
    intro h
    rw [hz.mp hqz, ← hz, hpz] at h
    cases h
  · simp only [reduceCtorEq, false_iff, not_and]
    intro h
    rw [hz.mp hpz, eq_comm, ← hz, hqz] at h
    cases h
  · simp [hz.mp hpz, hz.mp hqz, (hp.zero (hz.mp hpz)).2, (hq.zero (hz.mp hqz)).2]

theorem cmp_eq_iff (hp : p.Normal) (hq : q.Normal) : p.cmp q = .eq ↔ p = q := by
  have he : p = q ↔ p.neg = q.neg ∧ p.digits = q.digits ∧ p.point = q.point := by
    obtain ⟨neg, digits, point⟩ := p
    obtain ⟨neg', digits', point'⟩ := q
    simp
  have hm := cmpMagnitude_eq_iff hp hq
  rw [he]
  unfold ParsedNumber.cmp
  rcases hpn : p.neg with _ | _ <;> rcases hqn : q.neg with _ | _
  · simpa using hm
  · simp
  · simp
  · simpa using hm

instance : Std.TransCmp ParsedNumber.cmpMagnitude where
  eq_swap {p q} := by
    unfold ParsedNumber.cmpMagnitude
    rcases p.isZero with _ | _ <;> rcases q.isZero with _ | _
    · dsimp only
      rw [Ordering.swap_then, ← Std.OrientedCmp.eq_swap, ← Std.OrientedCmp.eq_swap]
    · rfl
    · rfl
    · rfl
  isLE_trans {p q r} h₁ h₂ := by
    unfold ParsedNumber.cmpMagnitude at *
    rcases hp : p.isZero with _ | _ <;> rcases hq : q.isZero with _ | _ <;>
      rcases hr : r.isZero with _ | _ <;> simp only [hp, hq, hr] at h₁ h₂ ⊢ <;>
      first | rfl | cases h₁ | cases h₂ | skip
    have hl : Std.TransCmp
        (compareLex (compareOn ParsedNumber.point) (compareOn ParsedNumber.digits)) := inferInstance
    exact hl.isLE_trans h₁ h₂

instance : Std.TransCmp ParsedNumber.cmp where
  eq_swap {p q} := by
    have hs : p.cmpMagnitude q = (q.cmpMagnitude p).swap := Std.OrientedCmp.eq_swap
    unfold ParsedNumber.cmp
    rcases p.neg with _ | _ <;> rcases q.neg with _ | _
    · exact hs
    · rfl
    · rfl
    · exact congrArg Ordering.swap hs
  isLE_trans {p q r} h₁ h₂ := by
    have hs : ∀ a b : ParsedNumber, (a.cmpMagnitude b).swap = b.cmpMagnitude a := fun _ _ =>
      Std.OrientedCmp.eq_swap.symm
    unfold ParsedNumber.cmp at *
    rcases hp : p.neg with _ | _ <;> rcases hq : q.neg with _ | _ <;>
      rcases hr : r.neg with _ | _ <;> rw [hp, hq] at h₁ <;> rw [hq, hr] at h₂ <;> dsimp only at *
    · exact Std.TransCmp.isLE_trans h₁ h₂
    · cases h₂
    · cases h₁
    · cases h₁
    · rfl
    · cases h₂
    · rfl
    · rw [hs] at h₁ h₂ ⊢
      exact Std.TransCmp.isLE_trans h₂ h₁

end Fakecloud.Dynamodb

import Fakecloud.Dynamodb.Number

/-!
# The rational that a number literal denotes

`parseNumber` accepts exactly the literals, its decomposition has their value up to the saturation of
exponents, and the comparison of decompositions is the order of their values.
-/

namespace Fakecloud.Dynamodb

open Text List Option ParsedNumber

def signed (neg : Bool) (q : ℚ) : ℚ := if neg then -q else q

def Literal.value (L : Literal) : ℚ :=
  signed L.neg (digitsValue (L.int ++ L.frac) * 10 ^ (L.exp - L.frac.length))

variable {c : Char} {s ds : Str} {neg : Bool} {exp : ℤ} {L : Literal}
  {q : ParsedNumber} {p : ParsedNumber}

/-! ## What is read is a literal -/

theorem exists_trim (s : Str) :
    ∃ front back : Str, front.all isWhitespace ∧ back.all isWhitespace ∧ s = front ++ trim s ++ back := by
  set rest := s.dropWhile isWhitespace
  refine ⟨s.takeWhile isWhitespace, (rest.reverse.takeWhile isWhitespace).reverse, ?_, ?_, ?_⟩
  · exact all_eq_true.mpr fun c hc => mem_takeWhile_imp hc
  · exact all_eq_true.mpr fun c hc => mem_takeWhile_imp (mem_reverse.mp hc)
  · have hb : trim s ++ (rest.reverse.takeWhile isWhitespace).reverse = rest := by
      rw [trim, rdropWhile, ← reverse_append, takeWhile_append_dropWhile, reverse_reverse]
    rw [append_assoc, hb, takeWhile_append_dropWhile]

theorem exists_sign (s : Str) : ∃ sign, SignOf (splitSign s).1 sign ∧ s = sign ++ (splitSign s).2 := by
  unfold splitSign
  split
  · exact ⟨['-'], .minus, rfl⟩
  · exact ⟨['+'], .plus, rfl⟩
  · exact ⟨[], .none, rfl⟩

theorem exists_exponentOf {e : Str} {n : ℤ} (hc : isExponentMark c) (h : parseExponent e = some n) :
    ∃ exp, ExponentOf exp (c :: e) := by
  obtain ⟨sign, hs, he⟩ := exists_sign e
  obtain ⟨m, hd, -⟩ := map_eq_some_iff.mp h
  rw [parseDigits] at hd
  split_ifs at hd with hds
  simp only [not_or, not_not] at hds
  rw [he]
  exact ⟨_, .mark hc hs hds.1 hds.2⟩

theorem exists_pointOf {m : Str} (h : parseMantissa neg m exp = some p) :
    ∃ int frac point, m = int ++ point ∧ PointOf frac point ∧ int.all Char.isDigit ∧ frac.all Char.isDigit ∧
      int ++ frac ≠ [] := by
  have hp {int frac : Str} (he : ¬ (int.isEmpty && frac.isEmpty) = true)
      (hd : (int.all Char.isDigit && frac.all Char.isDigit) = true) :
      int.all Char.isDigit ∧ frac.all Char.isDigit ∧ int ++ frac ≠ [] := by
    rw [Bool.and_eq_true] at hd
    exact ⟨hd.1, hd.2, by simpa using he⟩
  unfold parseMantissa at h
  rcases hc : splitOnce '.' m with _ | ⟨int, frac⟩
  · rw [hc] at h
    dsimp only at h
    split_ifs at h with he hd
    exact ⟨m, [], [], by simp, .none, hp he hd⟩
  · rw [hc] at h
    dsimp only at h
    split_ifs at h with he hd
    exact ⟨int, frac, '.' :: frac, (splitOnce_eq_some hc).1, .point frac, hp he hd⟩

theorem exists_writes (h : parseNumber s = some p) : ∃ L : Literal, L.Writes s := by
  obtain ⟨front, back, hf, hb, hs⟩ := exists_trim s
  rw [parseNumber] at h
  dsimp only at h
  split_ifs at h
  obtain ⟨sign, hsg, ht⟩ := exists_sign (trim s)
  set rest := (splitSign (trim s)).2 with hr
  rw [parseUnsignedNumber] at h
  have hct : rest.takeWhile (fun c => !isExponentMark c) ++ rest.dropWhile (fun c => !isExponentMark c) =
      rest := takeWhile_append_dropWhile
  obtain ⟨exp, mark, hmr, m, hm, e, hmn⟩ : ∃ exp mark, ExponentOf exp mark ∧
      ∃ m, rest = m ++ mark ∧ ∃ e, parseMantissa (splitSign (trim s)).1 m e = some p := by
    split at h
    · next hd =>
      rw [hd] at hct
      exact ⟨0, [], .none, _, hct.symm, 0, h⟩
    · next c e hd =>
      obtain ⟨n, hn, hmn⟩ := bind_eq_some_iff.mp h
      have hc : isExponentMark c := by
        have hh := head?_dropWhile_not (fun c => !isExponentMark c) rest
        rw [hd] at hh
        simpa using hh
      obtain ⟨exp, he⟩ := exists_exponentOf hc hn
      rw [hd] at hct
      exact ⟨exp, c :: e, he, _, hct.symm, n, hmn⟩
  obtain ⟨int, frac, point, rfl, hp, hi, hfr, hne⟩ := exists_pointOf hmn
  have htx : s = front ++ (sign ++ (int ++ (point ++ mark))) ++ back := by
    rw [hs, ht, hm, append_assoc int]
  refine ⟨⟨(splitSign (trim s)).1, int, frac, exp⟩, ?_⟩
  generalize (splitSign (trim s)).1 = neg at hsg
  rw [htx]
  exact .mk hf hb hsg hp hmr hi hfr hne

/-! ## The value of a decomposition -/

def fraction (ds : Str) : ℚ := digitsValue ds / 10 ^ ds.length

def ParsedNumber.value (p : ParsedNumber) : ℚ := signed p.neg (fraction p.digits * 10 ^ p.point)

theorem exists_zeros (all : Str) :
    ∃ n, all = replicate (all.length - (all.dropWhile (· == '0')).length) '0' ++
      ((all.dropWhile (· == '0')).rdropWhile (· == '0') ++ replicate n '0') := by
  have hz (s : Str) : s.takeWhile (· == '0') = replicate (s.takeWhile (· == '0')).length '0' :=
    eq_replicate_iff.mpr ⟨rfl, fun c hc => by simpa using mem_takeWhile_imp hc⟩
  set significant := all.dropWhile (· == '0') with hs
  have hf : all.takeWhile (· == '0') = replicate (all.length - significant.length) '0' := by
    have hl := congrArg List.length (takeWhile_append_dropWhile (p := (· == '0')) (l := all))
    rw [length_append, ← hs] at hl
    rw [hz all]
    congr 1
    omega
  have hb : significant.rdropWhile (· == '0') ++ (significant.reverse.takeWhile (· == '0')).reverse =
      significant := by
    rw [rdropWhile, ← reverse_append, takeWhile_append_dropWhile, reverse_reverse]
  refine ⟨(significant.reverse.takeWhile (· == '0')).length, ?_⟩
  rw [← hf, ← reverse_replicate, ← hz, hb, takeWhile_append_dropWhile]

theorem value_ofParts (neg : Bool) (int frac : Str) (exp : ℤ) : (ofParts neg int frac exp).value =
      signed neg (digitsValue (int ++ frac) * 10 ^ (exp - frac.length)) := by
  obtain ⟨n, ha⟩ := exists_zeros (int ++ frac)
  unfold ofParts
  dsimp only
  set significant := (int ++ frac).dropWhile (· == '0')
  set leading := (int ++ frac).length - significant.length
  set digits := significant.rdropWhile (· == '0')
  have hv : digitsValue (int ++ frac) = digitsValue digits * 10 ^ n := by
    rw [ha, digitsValue_append, digitsValue_append]
    simp
  have hl : int.length + frac.length = leading + (digits.length + n) := by
    have := congrArg List.length ha
    simpa only [length_append, length_replicate] using this
  rw [hv]
  split_ifs with he
  · rw [List.isEmpty_iff.mp he]
    simp [value, fraction, signed]
  · simp only [value, fraction]
    have h10 : (10 : ℚ) ≠ 0 := by norm_num
    have hex : int.length - leading + exp = n + (exp - frac.length) + digits.length := by omega
    rw [hex, zpow_add₀ h10, zpow_add₀ h10, zpow_natCast, zpow_natCast]
    push_cast
    field_simp

theorem value_of_writes (hL : L.Writes s)
    (hp : parseNumber s = some p) (he : L.exp.natAbs < 2 ^ 63) : p.value = L.value := by
  rw [parseNumber_of_writes hL, some.injEq, saturate_eq_self he] at hp
  rw [← hp, value_ofParts]
  rfl

/-! ## The order -/

def digitVal (c : Char) : ℕ := c.toNat - 48

theorem fraction_cons (c : Char) (ds : Str) : fraction (c :: ds) = (digitVal c + fraction ds) / 10 := by
  rw [fraction, fraction, digitsValue_cons, length_cons, pow_succ, digitVal]
  push_cast
  field_simp

theorem fraction_nonneg (ds : Str) : 0 ≤ fraction ds := by
  unfold fraction
  positivity

theorem fraction_lt_one (h : ds.all Char.isDigit) : fraction ds < 1 := by
  rw [fraction, div_lt_one (by positivity)]
  exact_mod_cast digitsValue_lt h

theorem fraction_pos (hne : ds ≠ []) (hd : ∀ c ∈ ds, c.isDigit) (hl : ds.getLast? ≠ some '0') :
    0 < fraction ds := by
  induction ds with
  | nil => exact absurd rfl hne
  | cons c ds ih =>
    rw [fraction_cons]
    rcases ds with _ | ⟨d, ds⟩
    · have hp : 0 < digitVal c := by
        have h48 := le_toNat_of_isDigit (hd c mem_cons_self)
        have hne : c.toNat ≠ 48 :=
          fun h => hl (by rw [Char.ext (UInt32.toNat_inj.mp h : c.val = '0'.val)]; rfl)
        unfold digitVal
        omega
      have := fraction_nonneg []
      positivity
    · have := ih (by simp) (fun x hx => hd x (mem_cons_of_mem c hx)) (by simpa using hl)
      positivity

/-- The lexical order of digits that do not end in a zero is the order of the fractions. -/
theorem compare_fraction {es : Str} (hds : ∀ c ∈ ds, c.isDigit) (hes : ∀ c ∈ es, c.isDigit)
    (hdl : ds.getLast? ≠ some '0') (hel : es.getLast? ≠ some '0') :
    compare ds es = compare (fraction ds) (fraction es) := by
  have ht {c : Char} {s : Str} (h : (c :: s).getLast? ≠ some '0') : s.getLast? ≠ some '0' := by
    rcases s with _ | ⟨d, s⟩
    · exact nofun
    · simpa using h
  have ha {s : Str} (h : ∀ c ∈ s, c.isDigit) : s.all Char.isDigit := all_eq_true.mpr h
  induction ds generalizing es with
  | nil =>
    rcases es with _ | ⟨e, es⟩
    · simp
    · rw [List.compare_nil_cons, eq_comm, compare_lt_iff_lt]
      exact (fraction_pos (by simp) hes hel).trans_eq' (by simp [fraction])
  | cons d ds ih =>
    rcases es with _ | ⟨e, es⟩
    · rw [List.compare_cons_nil, eq_comm, compare_gt_iff_gt]
      exact (fraction_pos (by simp) hds hdl).trans_eq' (by simp [fraction])
    · have hd : ∀ c ∈ ds, c.isDigit := fun c hc => hds c (mem_cons_of_mem d hc)
      have he : ∀ c ∈ es, c.isDigit := fun c hc => hes c (mem_cons_of_mem e hc)
      -- a smaller first digit outweighs what follows
      have hf {c c' : Char} {s s' : Str} (hc : c.isDigit) (hs : ∀ x ∈ s, x.isDigit)
          (hlt : c.toNat < c'.toNat) : fraction (c :: s) < fraction (c' :: s') := by
        have hv : (digitVal c : ℚ) + 1 ≤ digitVal c' := by
          have h48 := le_toNat_of_isDigit hc
          have : digitVal c + 1 ≤ digitVal c' := by
            unfold digitVal
            omega
          exact_mod_cast this
        have := fraction_lt_one (ha hs)
        have := fraction_nonneg s'
        rw [fraction_cons, fraction_cons]
        linarith
      rw [List.compare_cons_cons, compare_char]
      rcases lt_trichotomy d.toNat e.toNat with hlt | heq | hgt
      · rw [compare_lt_iff_lt.mpr hlt, compare_lt_iff_lt.mpr (hf (hds d mem_cons_self) hd hlt)]
        rfl
      · have hm : StrictMono fun q : ℚ => (digitVal e + q) / 10 := fun a b h => by
          dsimp only
          linarith
        rw [compare_eq_iff_eq.mpr heq, ih hd he (ht hdl) (ht hel), fraction_cons, fraction_cons,
          digitVal, heq, Ordering.eq_then]
        exact (compare_of_strictMono hm _ _).symm
      · rw [compare_gt_iff_gt.mpr hgt, compare_gt_iff_gt.mpr (hf (hes e mem_cons_self) he hgt)]
        rfl

def ParsedNumber.magnitude (p : ParsedNumber) : ℚ := fraction p.digits * 10 ^ p.point

theorem ParsedNumber.magnitude_of_isZero (h : p.isZero = true) : p.magnitude = 0 := by
  rw [magnitude, List.isEmpty_iff.mp h, fraction]
  simp

/-- The leading digit of a number is in its place. -/
theorem ParsedNumber.Normal.magnitude_bounds (hp : p.Normal) (hz : p.isZero = false) :
    10 ^ (p.point - 1) ≤ p.magnitude ∧ p.magnitude < 10 ^ p.point := by
  have h10 : (10 : ℚ) ≠ 0 := by norm_num
  have hpw : (0 : ℚ) < 10 ^ p.point := by positivity
  have ha : p.digits.all Char.isDigit := all_eq_true.mpr hp.digit
  obtain ⟨c, ds, hds⟩ := exists_cons_of_ne_nil fun h : p.digits = [] => by
    simp [isZero, h] at hz
  have hf : 1 / 10 ≤ fraction p.digits := by
    have hc : c.isDigit := hp.digit c (by simp [hds])
    have hne : c ≠ '0' := fun h => hp.head (by simp [hds, h])
    have hle : (10 : ℚ) ^ ds.length ≤ digitsValue (c :: ds) := by exact_mod_cast le_digitsValue hc hne
    rw [hds, fraction, length_cons, pow_succ, div_le_div_iff₀ (by norm_num) (by positivity)]
    linarith
  rw [zpow_sub_one₀ h10]
  constructor
  · rw [mul_comm]
    refine mul_le_mul_of_nonneg_right ?_ hpw.le
    rwa [inv_eq_one_div]
  · exact mul_lt_of_lt_one_left hpw (fraction_lt_one ha)

theorem ParsedNumber.Normal.magnitude_pos (hp : p.Normal) (hz : p.isZero = false) :
    0 < p.magnitude := lt_of_lt_of_le (by positivity) (hp.magnitude_bounds hz).1

theorem cmpMagnitude_eq_compare (hp : p.Normal) (hq : q.Normal) :
    p.cmpMagnitude q = compare p.magnitude q.magnitude := by
  -- a later leading digit means a smaller number
  have hpl {p q : ParsedNumber} (hp : p.Normal) (hq : q.Normal) (hpz : p.isZero = false)
      (hqz : q.isZero = false) (hlt : p.point < q.point) : p.magnitude < q.magnitude :=
    (hp.magnitude_bounds hpz).2.trans_le
      ((zpow_le_zpow_right₀ (by norm_num) (by omega)).trans (hq.magnitude_bounds hqz).1)
  unfold cmpMagnitude
  rcases hpz : p.isZero with _ | _ <;> rcases hqz : q.isZero with _ | _
  · rcases lt_trichotomy p.point q.point with hlt | heq | hgt
    · rw [compare_lt_iff_lt.mpr hlt, compare_lt_iff_lt.mpr (hpl hp hq hpz hqz hlt)]
      rfl
    · have hpw : (0 : ℚ) < 10 ^ q.point := by positivity
      rw [compare_eq_iff_eq.mpr heq, Ordering.eq_then, compare_fraction hp.digit hq.digit hp.last hq.last,
        magnitude, magnitude, heq]
      exact (compare_of_strictMono (strictMono_mul_right_of_pos hpw) _ _).symm
    · rw [compare_gt_iff_gt.mpr hgt, compare_gt_iff_gt.mpr (hpl hq hp hqz hpz hgt)]
      rfl
  · rw [magnitude_of_isZero hqz, compare_gt_iff_gt.mpr (hp.magnitude_pos hpz)]
  · rw [magnitude_of_isZero hpz, compare_lt_iff_lt.mpr (hq.magnitude_pos hqz)]
  · rw [magnitude_of_isZero hpz, magnitude_of_isZero hqz, compare_eq_iff_eq.mpr rfl]

theorem compare_neg (a b : ℚ) : compare (-a) (-b) = compare b a := by
  rw [← cmp_eq_compare, ← cmp_eq_compare]
  exact StrictAnti.cmp_map_eq (fun _ _ => neg_lt_neg) a b

theorem cmp_eq_compare (hp : p.Normal) (hq : q.Normal) : p.cmp q = compare p.value q.value := by
  have hng {r : ParsedNumber} (hr : r.Normal) (h : r.neg = true) : r.value < 0 := by
    have hz : r.isZero = false := by
      rw [Bool.eq_false_iff]
      intro hz
      rw [(hr.zero (List.isEmpty_iff.mp hz)).1] at h
      cases h
    have := hr.magnitude_pos hz
    rw [value, h]
    exact neg_lt_zero.mpr this
  have hn {r : ParsedNumber} (h : r.neg = false) : 0 ≤ r.value := by
    have := fraction_nonneg r.digits
    rw [value, h, signed, if_neg (by simp)]
    positivity
  have hm := cmpMagnitude_eq_compare hp hq
  unfold ParsedNumber.cmp
  rcases hpn : p.neg with _ | _ <;> rcases hqn : q.neg with _ | _
  · rw [hm, value, value, hpn, hqn]
    rfl
  · rw [compare_gt_iff_gt.mpr ((hng hq hqn).trans_le (hn hpn))]
  · rw [compare_lt_iff_lt.mpr ((hng hp hpn).trans_le (hn hqn))]
  · rw [hm, value, value, hpn, hqn, signed, signed, if_pos rfl, if_pos rfl, compare_neg]
    exact Std.OrientedCmp.eq_swap.symm

theorem eq_of_value_eq (hp : p.Normal) (hq : q.Normal) (h : p.value = q.value) : p = q := by
  rw [← cmp_eq_iff hp hq, cmp_eq_compare hp hq, compare_eq_iff_eq]
  exact h

/-! ## The canonical text -/

theorem render_writes (hp : p.Normal) : ∃ L : Literal, L.Writes p.render ∧ L.value = p.value := by
  refine ⟨p.literal, literal_writes hp, ?_⟩
  rw [Literal.value, ← value_ofParts, ofParts_literal hp]

/-- The exponent of a literal and the length of its text leave room in an `i64`. -/
def Literal.Comfortable (L : Literal) (s : Str) : Prop := L.exp.natAbs + s.length < 2 ^ 63

instance (L : Literal) (s : Str) : Decidable (L.Comfortable s) := inferInstanceAs (Decidable (_ < _))

theorem length_le_of_writes (h : L.Writes s) : L.int.length + L.frac.length ≤ s.length := by
  obtain ⟨-, -, -, hp, -, -, -, -⟩ := h
  next neg int frac exp front back sign point mark =>
  have hf : frac.length ≤ point.length := by
    cases hp with
    | none => exact le_rfl
    | point => simp
  simp only [length_append]
  omega

theorem inRange_of_comfortable (h : L.Writes s) (hc : L.Comfortable s) :
    (ofParts L.neg L.int L.frac L.exp).InRange := by
  have hl := length_le_of_writes h
  unfold Literal.Comfortable at hc
  unfold ofParts
  dsimp only
  set significant := (L.int ++ L.frac).dropWhile (· == '0')
  split_ifs with he
  · simp [InRange]
  · -- a digit other than zero is left, so not all digits are leading zeros
    have hp : 0 < significant.length := by
      rw [length_pos_iff]
      rintro hn
      rw [hn] at he
      exact he rfl
    have hle : significant.length ≤ L.int.length + L.frac.length := by
      rw [← length_append]
      exact (dropWhile_sublist _).length_le
    rw [InRange]
    simp only [length_append]
    omega

/-- **Numbers are rationals.**  The comparison of two literals is the order of the rationals that they denote,
their canonical texts are equal exactly when the rationals are, and a canonical text is its own canonical text
and denotes the same rational. -/
theorem number_strings_order {x y : Str} {L M : Literal} (hx : L.Writes x) (hy : M.Writes y)
    (hL : L.Comfortable x) (hM : M.Comfortable y) :
    compareNumberStrings x y = compare L.value M.value ∧
      (canonicalNumber x = canonicalNumber y ↔ L.value = M.value) ∧
      ∃ c, canonicalNumber x = some c ∧ canonicalNumber c = some c ∧
        ∃ N : Literal, N.Writes c ∧ N.value = L.value := by
  have hr {s : Str} {K : Literal} (hs : K.Writes s) (hK : K.Comfortable s) :
      ∃ p, parseNumber s = some p ∧ p.Normal ∧ p.InRange ∧ p.value = K.value := by
    have he : K.exp.natAbs < 2 ^ 63 := lt_of_le_of_lt (Nat.le_add_right _ _) hK
    have hp := parseNumber_of_writes hs
    rw [saturate_eq_self he] at hp
    exact ⟨_, hp, parseNumber_normal hp, inRange_of_comfortable hs hK, value_of_writes hs hp he⟩
  obtain ⟨p, hp, hpn, hpr, hpv⟩ := hr hx hL
  obtain ⟨q, hq, hqn, -, hqv⟩ := hr hy hM
  refine ⟨?_, ?_, p.render, ?_, ?_, ?_⟩
  · rw [compareNumberStrings, hp, hq, ← hpv, ← hqv]
    exact cmp_eq_compare hpn hqn
  · rw [canonicalNumber, canonicalNumber, hp, hq, map_some, map_some, some.injEq, ← hpv, ← hqv]
    constructor
    · intro h
      rw [render_injective hpn hqn h]
    · intro h
      rw [eq_of_value_eq hpn hqn h]
  · rw [canonicalNumber, hp, map_some]
  · rw [canonicalNumber, parse_render hpn hpr, map_some]
  · obtain ⟨N, hN, hNv⟩ := render_writes hpn
    exact ⟨N, hN, hNv.trans hpv⟩

/-- `1E2` and `99.9` differ by a tenth; `1E2` is written `100`. -/
theorem number_strings_order_hundred :
    compareNumberStrings "1E2" "99.9" = compare (100 : ℚ) (99.9 : ℚ) ∧
      canonicalNumber "1E2" ≠ canonicalNumber "99.9" := by
  have hx : (⟨false, ['1'], [], 2⟩ : Literal).Writes "1E2" :=
    writes_unpadded .none .none (exponentOf_showInt 2) rfl rfl (by simp)
  have hy : (⟨false, ['9', '9'], ['9'], 0⟩ : Literal).Writes "99.9" := writes_plain false rfl rfl (by simp)
  obtain ⟨hcm, hc, -⟩ := number_strings_order hx hy (by decide) (by decide)
  have hxv : (⟨false, ['1'], [], 2⟩ : Literal).value = 100 := by
    simp [Literal.value, signed, digitsValue]
    norm_num
  have hyv : (⟨false, ['9', '9'], ['9'], 0⟩ : Literal).value = 99.9 := by
    simp [Literal.value, signed, digitsValue]
    norm_num
  rw [hxv, hyv] at hcm hc
  exact ⟨hcm, fun h => absurd (hc.mp h) (by norm_num)⟩

end Fakecloud.Dynamodb

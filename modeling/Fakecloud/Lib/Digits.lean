import Fakecloud.Lib.Text
import Mathlib.Data.Nat.Digits.Lemmas
import Mathlib.Tactic.Linarith

/-!
# Digit strings

Schoolbook addition and subtraction of digit lists in a base, least significant digit first, and the number
that a text of decimal digits writes, most significant digit first.
-/

namespace Digits

open List Nat

variable {b : ℕ}

/-- The first `n` columns of an addition, and the carry behind them. -/
def addCarry (b : ℕ) : ℕ → List ℕ → List ℕ → ℕ → List ℕ
  | 0, _, _, carry => if 0 < carry then [carry] else []
  | n + 1, xs, ys, carry =>
    let column := xs.headD 0 + ys.headD 0 + carry
    column % b :: addCarry b n xs.tail ys.tail (column / b)

def subBorrow (b : ℕ) : List ℕ → List ℕ → ℕ → List ℕ
  | [], _, _ => []
  | x :: xs, ys, borrow =>
    let y := borrow + ys.headD 0
    if x < y then (x + b - y) :: subBorrow b xs ys.tail 1 else (x - y) :: subBorrow b xs ys.tail 0

theorem ofDigits_head_tail (xs : List ℕ) : ofDigits b xs = xs.headD 0 + b * ofDigits b xs.tail := by
  cases xs with
  | nil => simp
  | cons x xs => exact ofDigits_cons

variable {xs ys : List ℕ}

theorem headD_lt (hb : 0 < b) (h : ∀ x ∈ xs, x < b) : xs.headD 0 < b := by
  cases xs with
  | nil => exact hb
  | cons x xs => exact h x mem_cons_self

theorem ofDigits_addCarry (n : ℕ) (hx : xs.length ≤ n) (hy : ys.length ≤ n) (carry : ℕ) :
    ofDigits b (addCarry b n xs ys carry) = ofDigits b xs + ofDigits b ys + carry := by
  induction n generalizing xs ys carry with
  | zero =>
    obtain rfl := length_eq_zero_iff.mp (le_zero.mp hx)
    obtain rfl := length_eq_zero_iff.mp (le_zero.mp hy)
    rw [addCarry]
    split_ifs with hcr
    · simp
    · simp
      omega
  | succ n ih =>
    have ht {zs : List ℕ} (hz : zs.length ≤ n + 1) : zs.tail.length ≤ n := by
      rw [length_tail]
      omega
    rw [addCarry, ofDigits_cons, ih (ht hx) (ht hy), ofDigits_head_tail xs, ofDigits_head_tail ys]
    have hc := mod_add_div (xs.headD 0 + ys.headD 0 + carry) b
    linarith [mul_add b (ofDigits b xs.tail + ofDigits b ys.tail)
      ((xs.headD 0 + ys.headD 0 + carry) / b)]

theorem addCarry_lt (hb : 2 ≤ b) (n : ℕ) (hx : ∀ x ∈ xs, x < b) (hy : ∀ y ∈ ys, y < b)
    {carry : ℕ} (hcr : carry ≤ 1) : ∀ d ∈ addCarry b n xs ys carry, d < b := by
  induction n generalizing xs ys carry with
  | zero =>
    intro d hd
    rw [addCarry] at hd
    split_ifs at hd
    · rw [mem_singleton.mp hd]
      omega
    · cases hd
  | succ n ih =>
    have hc : xs.headD 0 + ys.headD 0 + carry < 2 * b := by
      have := headD_lt (by omega) hx
      have := headD_lt (by omega) hy
      omega
    intro d hd
    rcases mem_cons.mp hd with rfl | hd
    · exact mod_lt _ (by omega)
    · refine ih (fun x hx' => hx x (mem_of_mem_tail hx')) (fun y hy' => hy y (mem_of_mem_tail hy'))
        ?_ d hd
      exact Nat.lt_succ_iff.mp (Nat.div_lt_of_lt_mul (by omega))

theorem ofDigits_subBorrow (hx : ∀ x ∈ xs, x < b) (hy : ∀ y ∈ ys, y < b) {borrow : ℕ}
    (ho : borrow ≤ 1) (hle : ofDigits b ys + borrow ≤ ofDigits b xs) :
    ofDigits b (subBorrow b xs ys borrow) + (ofDigits b ys + borrow) = ofDigits b xs := by
  induction xs generalizing ys borrow with
  | nil =>
    rw [subBorrow]
    simp only [ofDigits_nil] at hle ⊢
    omega
  | cons x xs ih =>
    have hxb := hx x mem_cons_self
    have hyb := headD_lt (by omega) hy
    have ht : ∀ z ∈ xs, z < b := fun z hz => hx z (mem_cons_of_mem x hz)
    have hyt : ∀ y ∈ ys.tail, y < b := fun y hy' => hy y (mem_of_mem_tail hy')
    rw [subBorrow, ofDigits_head_tail ys, ofDigits_cons] at *
    set X := ofDigits b xs
    set Y := ofDigits b ys.tail
    split_ifs with hb
    · -- the column borrows, so the rest is larger by one at least
      have hr : Y + 1 ≤ X := by
        by_contra hlt
        have := mul_le_mul_left b (show X ≤ Y by omega)
        omega
      have := ih ht hyt le_rfl hr
      rw [ofDigits_cons]
      have hm : b * (ofDigits b (subBorrow b xs ys.tail 1) + (Y + 1)) = b * X := by rw [this]
      rw [mul_add, mul_add] at hm
      omega
    · have hr : Y + 0 ≤ X := by
        by_contra hlt
        have := mul_le_mul_left b (show X + 1 ≤ Y by omega)
        rw [mul_add] at this
        omega
      have := ih ht hyt (zero_le 1) hr
      rw [ofDigits_cons]
      have hm : b * (ofDigits b (subBorrow b xs ys.tail 0) + (Y + 0)) = b * X := by rw [this]
      rw [mul_add, add_zero] at hm
      omega

theorem subBorrow_lt (hx : ∀ x ∈ xs, x < b) (borrow : ℕ) : ∀ d ∈ subBorrow b xs ys borrow, d < b := by
  induction xs generalizing ys borrow with
  | nil => exact nofun
  | cons x xs ih =>
    have hxb := hx x mem_cons_self
    have ht : ∀ z ∈ xs, z < b := fun z hz => hx z (mem_cons_of_mem x hz)
    intro d hd
    rw [subBorrow] at hd
    split_ifs at hd with hb
    · rcases mem_cons.mp hd with rfl | hd
      · omega
      · exact ih ht 1 d hd
    · rcases mem_cons.mp hd with rfl | hd
      · omega
      · exact ih ht 0 d hd

end Digits

namespace Text

open List

/-- The number that decimal digits write. -/
def digitsValue (s : Str) : ℕ := s.foldl (fun n c => 10 * n + (c.toNat - 48)) 0

/-- The digits of a text, least significant first. -/
def digitsOf (s : Str) : List ℕ := s.reverse.map fun c => c.toNat - 48

theorem digitsValue_eq_ofDigits (s : Str) : digitsValue s = Nat.ofDigits 10 (digitsOf s) := by
  induction s using reverseRecOn with
  | nil => rfl
  | append_singleton s c ih =>
    rw [digitsValue, foldl_append, ← digitsValue, ih, digitsOf, digitsOf]
    simp [Nat.ofDigits_cons]
    omega

theorem length_digitsOf (s : Str) : (digitsOf s).length = s.length := by simp [digitsOf]

variable {c : Char} {s : Str} {ds : List ℕ}

theorem digitVal_lt (h : c.isDigit) : c.toNat - 48 < 10 := by
  simp only [Char.isDigit, Bool.and_eq_true, decide_eq_true_eq] at h
  have : c.toNat ≤ 57 := h.2
  omega

theorem digitsOf_lt (h : s.all Char.isDigit) : ∀ d ∈ digitsOf s, d < 10 := by
  intro d hd
  obtain ⟨c, hc, rfl⟩ := mem_map.mp hd
  exact digitVal_lt (all_eq_true.mp h c (mem_reverse.mp hc))

theorem digitsValue_append (s t : Str) :
    digitsValue (s ++ t) = digitsValue s * 10 ^ t.length + digitsValue t := by
  simp only [digitsValue_eq_ofDigits, digitsOf, reverse_append, map_append, Nat.ofDigits_append,
    length_map, length_reverse]
  ring

theorem digitsValue_cons (c : Char) (s : Str) :
    digitsValue (c :: s) = (c.toNat - 48) * 10 ^ s.length + digitsValue s := by
  rw [← singleton_append, digitsValue_append]
  simp [digitsValue]

@[simp] theorem digitsValue_nil : digitsValue [] = 0 := rfl

@[simp] theorem digitsValue_replicate_zero (n : ℕ) : digitsValue (replicate n '0') = 0 := by
  induction n with
  | zero => rfl
  | succ n ih =>
    rw [replicate_succ, digitsValue_cons, ih]
    exact zero_mul _

theorem digitsValue_lt (h : s.all Char.isDigit) : digitsValue s < 10 ^ s.length := by
  rw [digitsValue_eq_ofDigits, ← length_digitsOf s]
  exact Nat.ofDigits_lt_base_pow_length (by decide) (digitsOf_lt h)

theorem le_toNat_of_isDigit (h : c.isDigit) : 48 ≤ c.toNat := by
  simp only [Char.isDigit, Bool.and_eq_true, decide_eq_true_eq] at h
  exact h.1

theorem compare_char (c d : Char) : compare c d = compare c.toNat d.toNat := by
  have hlt : c < d ↔ c.toNat < d.toNat := Iff.rfl
  have heq : c = d ↔ c.toNat = d.toNat := ⟨fun h => h ▸ rfl, fun h => Char.ext (UInt32.toNat_inj.mp h)⟩
  change compareOfLessAndEq c d = compareOfLessAndEq c.toNat d.toNat
  simp only [compareOfLessAndEq, hlt, heq]

theorem le_digitsValue (hc : c.isDigit) (hne : c ≠ '0') : 10 ^ s.length ≤ digitsValue (c :: s) := by
  have hp : 1 ≤ c.toNat - 48 := by
    have h48 := le_toNat_of_isDigit hc
    have : c.toNat ≠ 48 := fun h => hne (Char.ext (UInt32.toNat_inj.mp h))
    omega
  rw [digitsValue_cons]
  have := Nat.mul_le_mul_right (10 ^ s.length) hp
  omega

theorem compare_of_strictMono {α β : Type*} [LinearOrder α] [LinearOrder β] {f : α → β}
    (h : StrictMono f) (a b : α) : compare (f a) (f b) = compare a b := by
  rw [← cmp_eq_compare, ← cmp_eq_compare, h.cmp_map_eq]

/-- Texts of the same length are compared like the numbers they write. -/
theorem compare_digitsValue {t : Str} (hs : s.all Char.isDigit) (ht : t.all Char.isDigit)
    (hl : s.length = t.length) : compare s t = compare (digitsValue s) (digitsValue t) := by
  induction s generalizing t with
  | nil =>
    obtain rfl := length_eq_zero_iff.mp hl.symm
    rfl
  | cons c s ih =>
    rcases t with _ | ⟨d, t⟩
    · cases hl
    · have hln : s.length = t.length := Nat.succ.inj hl
      rw [all_cons, Bool.and_eq_true] at hs ht
      have hsl := digitsValue_lt hs.2
      have htl := digitsValue_lt ht.2
      have hc := le_toNat_of_isDigit hs.1
      have hd := le_toNat_of_isDigit ht.1
      -- a smaller first digit outweighs what follows
      have hf {m n x y k : ℕ} (hlt : m < n) (hx : x < k) : m * k + x < n * k + y := by
        have := Nat.mul_le_mul_right k hlt
        rw [Nat.succ_mul] at this
        omega
      rw [List.compare_cons_cons, compare_char, digitsValue_cons, digitsValue_cons, hln]
      rw [hln] at hsl
      rcases lt_trichotomy c.toNat d.toNat with hlt | heq | hgt
      · rw [compare_lt_iff_lt.mpr hlt, compare_lt_iff_lt.mpr (hf (by omega) hsl)]
        rfl
      · have hm : StrictMono fun n => (d.toNat - 48) * 10 ^ t.length + n :=
          fun _ _ h => Nat.add_lt_add_left h _
        rw [compare_eq_iff_eq.mpr heq, Ordering.eq_then, ih hs.2 ht.2 hln, heq]
        exact (compare_of_strictMono hm _ _).symm
      · rw [compare_gt_iff_gt.mpr hgt, compare_gt_iff_gt.mpr (hf (by omega) htl)]
        rfl

def digitsText (ds : List ℕ) : Str := (ds.map Nat.digitChar).reverse

theorem digitsValue_digitsText (h : ∀ d ∈ ds, d < 10) : digitsValue (digitsText ds) = Nat.ofDigits 10 ds := by
  have hc : ∀ d < 10, (Nat.digitChar d).toNat - 48 = d := by decide
  have hm : digitsOf (digitsText ds) = ds := by
    rw [digitsOf, digitsText, reverse_reverse, map_map]
    exact (map_congr_left fun d hd => hc d (h d hd)).trans (map_id _)
  rw [digitsValue_eq_ofDigits, hm]

theorem all_isDigit_digitsText (h : ∀ d ∈ ds, d < 10) : (digitsText ds).all Char.isDigit := by
  have hch : ∀ d < 10, (Nat.digitChar d).isDigit := by decide
  rw [all_eq_true]
  intro c hc
  obtain ⟨d, hd, rfl⟩ := mem_map.mp (mem_reverse.mp hc)
  exact hch d (h d hd)

/-! ## Reading digits -/

section Parse

variable {s : Str} {n bound : ℕ}

theorem parseDigits_eq_some : parseDigits s = some n ↔ s ≠ [] ∧ s.all Char.isDigit ∧ digitsValue s = n := by
  rw [parseDigits]
  simp [digitsValue]
  tauto

theorem isDigit_of_parseDigits (h : parseDigits s = some n) {c : Char} (hc : c ∈ s) : c.isDigit :=
  all_eq_true.mp (parseDigits_eq_some.mp h).2.1 c hc

theorem parseDigits_lt (h : parseDigits s = some n) : n < 10 ^ s.length := by
  obtain ⟨-, hs, rfl⟩ := parseDigits_eq_some.mp h
  exact digitsValue_lt hs

/-- Digits are read as they are by every parser of integers. -/
theorem parseUnsigned_of_parseDigits (h : parseDigits s = some n) (hlt : n < bound) :
    parseUnsigned bound s = some n := by
  have hs : s.dropPrefix? ['+'] = none := by
    rcases s with _ | ⟨c, s⟩
    · rfl
    · have hc : c ≠ '+' := by
        rintro rfl
        exact absurd (isDigit_of_parseDigits h mem_cons_self) (by decide)
      simp [dropPrefix?, hc]
  rw [parseUnsigned, hs, Option.getD_none, h, Option.filter_some, if_pos (by simpa using hlt)]

end Parse

end Text

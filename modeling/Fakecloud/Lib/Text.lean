import Mathlib.Algebra.Group.Nat.Defs
import Mathlib.Data.Char
import Mathlib.Data.List.DropRight
import Mathlib.Data.List.Lex
import Mathlib.Data.Nat.Find

/-!
# Text as lists of characters

Strings are lists of Unicode scalar values.  The operations follow the string library of Rust:
`splitOnce`, `trim`, the comparisons that ignore ASCII case.  Splitting at every occurrence of a
character, and stripping a given text off the front, are `List.splitOn` and `List.dropPrefix?`.
-/

namespace Text

open List Option

/-- A string, as the list of its characters. -/
abbrev Str := List Char

instance : Coe String Str := ⟨String.toList⟩

instance : LawfulBEq Str := inferInstance

/-! ## Letter case -/

/-- `to_ascii_lowercase`. -/
def lower (s : Str) : Str := s.map Char.toLower

/-- `eq_ignore_ascii_case`. -/
def eqIgnoreCase (a b : Str) : Bool := lower a == lower b

/-- `is_ascii_hexdigit`. -/
def isHexDigit (c : Char) : Bool :=
  c.isDigit || ('a' ≤ c && c ≤ 'f') || ('A' ≤ c && c ≤ 'F')

/-! ## Cutting -/

/-- The text before and after the first occurrence of a character. -/
def splitOnce (c : Char) : Str → Option (Str × Str)
  | [] => none
  | x :: s => if x = c then some ([], s) else (splitOnce c s).map fun ab => (x :: ab.1, ab.2)

/-- The text before and after the last occurrence of a character. -/
def rsplitOnce (c : Char) (s : Str) : Option (Str × Str) :=
  (splitOnce c s.reverse).map fun ab => (ab.2.reverse, ab.1.reverse)

/-- The text up to and including the occurrence number `n` (from 0) of a character, and the rest. -/
def splitAfter (c : Char) : ℕ → Str → Option (Str × Str)
  | _, [] => none
  | 0, x :: s =>
    if x = c then some ([x], s) else (splitAfter c 0 s).map fun ab => (x :: ab.1, ab.2)
  | n + 1, x :: s =>
    (splitAfter c (if x = c then n else n + 1) s).map fun ab => (x :: ab.1, ab.2)

/-- White space of Unicode, which `trim` removes. -/
def isWhitespace (c : Char) : Bool :=
  let n := c.toNat
  (9 ≤ n && n ≤ 13) || n == 0x20 || n == 0x85 || n == 0xA0 || n == 0x1680 ||
    (0x2000 ≤ n && n ≤ 0x200A) || n == 0x2028 || n == 0x2029 || n == 0x202F || n == 0x205F ||
    n == 0x3000

def trim (s : Str) : Str := (s.dropWhile isWhitespace).rdropWhile isWhitespace

theorem mem_of_mem_trim {c : Char} {s : Str} (h : c ∈ trim s) : c ∈ s := by
  have hp := rdropWhile_prefix isWhitespace (s.dropWhile isWhitespace)
  exact (dropWhile_suffix isWhitespace).subset (hp.subset h)

theorem trim_eq_self {s : Str} (h : ∀ c ∈ s, isWhitespace c = false) : trim s = s := by
  have hf : s.dropWhile isWhitespace = s := by
    rcases s with _ | ⟨c, s⟩
    · rfl
    · simp [h c (by simp)]
  rw [trim, hf, rdropWhile_eq_self_iff]
  intro hne
  simp [h _ (getLast_mem hne)]

/-- `contains`, for a text. -/
def containsStr (s part : Str) : Bool := (s.dropInfix? part).isSome

section

variable {s part before after : Str}

theorem dropInfix?_eq_some : s.dropInfix? part = some (before, after) ↔
    s = before ++ (part ++ after) ∧ ∀ b a, s = b ++ (part ++ a) → before.length ≤ b.length := by
  rw [dropInfix?_eq_some_iff]
  constructor
  · rintro ⟨⟨i, hs, hi⟩, hf⟩
    rw [eq_of_beq hi, append_assoc] at hs
    exact ⟨hs, fun b a heq => hf b part a (by rw [heq, append_assoc]) (beq_self_eq_true _)⟩
  · rintro ⟨hs, hf⟩
    refine ⟨⟨part, by rw [hs, append_assoc], beq_self_eq_true _⟩, fun b i a heq hi => ?_⟩
    rw [eq_of_beq hi, append_assoc] at heq
    exact hf b a heq

open Classical in
theorem dropInfix?_eq_none (h : s.dropInfix? part = none) (b a : Str) :
    s ≠ b ++ (part ++ a) := by
  intro heq
  have he : ∃ n, ∃ b a : Str, b.length = n ∧ s = b ++ (part ++ a) := ⟨b.length, b, a, rfl, heq⟩
  obtain ⟨first, rest, hl, hs⟩ := Nat.find_spec he
  have hf : s.dropInfix? part = some (first, rest) :=
    dropInfix?_eq_some.mpr ⟨hs, fun b' a' heq' => hl ▸ Nat.find_min' he ⟨b', a', rfl, heq'⟩⟩
  exact absurd (h.symm.trans hf) (by simp)

end

/-- The loop of `replace`; the counter is what is left of an occurrence. -/
def replaceFrom (part by_ : Str) : ℕ → Str → Str
  | _, [] => []
  | k + 1, _ :: s => replaceFrom part by_ k s
  | 0, c :: s =>
    if part.isPrefixOf (c :: s) then by_ ++ replaceFrom part by_ (part.length - 1) s
    else c :: replaceFrom part by_ 0 s

/-- `replace`, for a non-empty text. -/
def replace (part by_ s : Str) : Str := replaceFrom part by_ 0 s

def splitWhitespace (s : Str) : List Str :=
  (s.splitOnP isWhitespace).filter fun w => !w.isEmpty

/-! ## Numbers -/

def parseDigits (s : Str) : Option ℕ :=
  if s = [] ∨ ¬ s.all Char.isDigit then none
  else some (s.foldl (fun n c => 10 * n + (c.toNat - 48)) 0)

/-- `str::parse` for an unsigned type with values below `bound`. -/
def parseUnsigned (bound : ℕ) (s : Str) : Option ℕ :=
  (parseDigits ((s.dropPrefix? ['+']).getD s)).filter (· < bound)

/-- `str::parse::<i64>`. -/
def parseI64 (s : Str) : Option ℤ :=
  match s with
  | '-' :: ds => ((parseDigits ds).filter (· ≤ 2 ^ 63)).map fun n => -(n : ℤ)
  | _ => (parseUnsigned (2 ^ 63) s).map fun n => (n : ℤ)

/-! ## Results -/

variable {ε α β : Type} {x : Except ε α} {b : β} {f : α → β} {l : List α}

/-- A computation that succeeds has succeeded in both of its parts. -/
theorem bind_eq_ok {f : α → Except ε β} : x >>= f = .ok b ↔ ∃ a, x = .ok a ∧ f a = .ok b := by
  rcases x with e | a
  · simp [bind, Except.bind]
  · simp [bind, Except.bind]

theorem map_eq_ok : x.map f = .ok b ↔ ∃ a, x = .ok a ∧ f a = b := by
  rcases x with e | a
  · simp [Except.map]
  · simp [Except.map]

theorem foldlM_invariant {σ : Type} {step : σ → α → Except ε σ} {inv : σ → Prop}
    (hst : ∀ a ∈ l, ∀ s s', inv s → step s a = .ok s' → inv s') {s s' : σ} (hs : inv s)
    (h : l.foldlM step s = .ok s') : inv s' := by
  induction l generalizing s with
  | nil =>
    cases h
    exact hs
  | cons a l ih =>
    obtain ⟨s₁, hf, h⟩ := bind_eq_ok.mp h
    exact ih (fun b hb => hst b (mem_cons_of_mem _ hb))
      (hst a mem_cons_self s s₁ hs hf) h

theorem elim_error_eq_ok {x : Option α} {e : ε} {a : α} :
    x.elim (.error e) .ok = (.ok a : Except ε α) ↔ x = some a := by
  rcases x with _ | b
  · simp
  · simp

theorem exists_of_toOption_map
    (h : x.toOption.map f = some b) : ∃ a, x = .ok a ∧ f a = b := by
  rcases x with e | a
  · cases h
  · exact ⟨a, rfl, by simpa [Except.toOption] using h⟩

theorem eq_ok_of_toOption {a : α} (h : x.toOption = some a) : x = .ok a := by
  rcases x with e | b
  · cases h
  · rw [some.inj h]

theorem forall₂_of_mapM_ok {f : α → Except ε β} {bs : List β} (h : l.mapM f = .ok bs) :
    Forall₂ (fun a b => f a = .ok b) l bs := by
  induction l generalizing bs with
  | nil =>
    cases h
    exact .nil
  | cons a l ih =>
    rw [mapM_cons] at h
    obtain ⟨b, hb, h⟩ := bind_eq_ok.mp h
    obtain ⟨cs, hc, h⟩ := bind_eq_ok.mp h
    cases h
    exact .cons hb (ih hc)

theorem mapM_eq_error_iff {f : α → Except ε β} :
    (∃ e, l.mapM f = .error e) ↔ ∃ a ∈ l, ∃ e, f a = .error e := by
  induction l with
  | nil => simp [pure, Except.pure]
  | cons a l ih =>
    rw [mapM_cons, exists_mem_cons_iff, ← ih]
    rcases f a with e | b
    · simp [bind, Except.bind]
    · rcases l.mapM f with e | bs
      · simp [bind, Except.bind]
      · simp [bind, Except.bind, pure, Except.pure]

theorem map_eq_error_iff : (∃ e, x.map f = .error e) ↔ ∃ e, x = .error e := by
  rcases x with e | a
  · simp [Except.map]
  · simp [Except.map]

/-! ## What a cut says about the text -/

section

variable {c : Char} {s a b : Str}

theorem splitOnce_eq_some (h : splitOnce c s = some (a, b)) : s = a ++ c :: b ∧ c ∉ a := by
  induction s generalizing a with
  | nil => simp [splitOnce] at h
  | cons x s ih =>
    unfold splitOnce at h
    split at h
    · next hx =>
      obtain ⟨rfl, rfl⟩ : [] = a ∧ s = b := by simpa using h
      simp [hx]
    · next hx =>
      obtain ⟨⟨a', b'⟩, hs, hab⟩ := map_eq_some_iff.mp h
      obtain ⟨rfl, rfl⟩ : x :: a' = a ∧ b' = b := by simpa using hab
      obtain ⟨rfl, hm⟩ := ih hs
      simpa [hm] using Ne.symm hx

theorem splitOnce_append (h : c ∉ a) : splitOnce c (a ++ c :: b) = some (a, b) := by
  induction a with
  | nil => simp [splitOnce]
  | cons x a ih =>
    rw [mem_cons, not_or] at h
    simp [splitOnce, Ne.symm h.1, ih h.2]

theorem splitAfter_eq_some {n : ℕ} {parts : Str × Str} (h : splitAfter c n s = some parts) :
    s = parts.1 ++ parts.2 := by
  induction s generalizing n parts with
  | nil => cases n <;> cases h
  | cons x s ih =>
    have hc : ∀ m, (splitAfter c m s).map (fun ab => (x :: ab.1, ab.2)) = some parts →
        x :: s = parts.1 ++ parts.2 := by
      intro m hm
      obtain ⟨ab, hab, rfl⟩ := map_eq_some_iff.mp hm
      rw [ih hab, cons_append]
    cases n with
    | zero =>
      rw [splitAfter] at h
      split_ifs at h with hx
      · cases h
        rfl
      · exact hc _ h
    | succ n =>
      exact hc _ h

theorem splitOnce_eq_none : splitOnce c s = none ↔ c ∉ s := by
  induction s with
  | nil => simp [splitOnce]
  | cons x s ih =>
    unfold splitOnce
    split
    · next hx => simp [hx]
    · next hx => simp [ih, Ne.symm hx]

end

/-- A text can be cut at the last occurrence of a character. -/
theorem append_cons_inj_right {c : Char} {a b x y : Str} (hx : c ∉ x) (hy : c ∉ y)
    (h : a ++ c :: x = b ++ c :: y) : a = b ∧ x = y := by
  have hr := congrArg reverse h
  simp only [reverse_append, reverse_cons, append_assoc, singleton_append] at hr
  have hc : splitOnce c (x.reverse ++ c :: a.reverse) = some (y.reverse, b.reverse) := by
    rw [hr]
    exact splitOnce_append (by simpa using hy)
  rw [splitOnce_append (by simpa using hx), some.injEq, Prod.mk.injEq] at hc
  exact ⟨reverse_injective hc.2, reverse_injective hc.1⟩

/-! ## Joining -/

section Joining

variable {c d : Char} {as : List Str}

theorem not_mem_join (hcd : d ≠ c) (h : ∀ a ∈ as, d ∉ a) : d ∉ intercalate [c] as := by
  induction as with
  | nil => simp [intercalate]
  | cons a rest ih =>
    rcases rest with _ | ⟨b, rest⟩
    · simpa [intercalate] using h a (by simp)
    · rw [intercalate_cons_of_ne_nil (by simp), append_assoc, singleton_append]
      have hr := ih fun a ha => h a (mem_cons_of_mem _ ha)
      simp only [mem_append, mem_cons, not_or]
      exact ⟨h a (by simp), hcd, hr⟩

theorem not_mem_of_mem_splitOn {a s : Str} (ha : a ∈ s.splitOn c) : c ∉ a := by
  induction s generalizing a with
  | nil =>
    obtain rfl : a = [] := by simpa using ha
    simp
  | cons x s ih =>
    rw [splitOn, splitOnP_cons_eq_if_modifyHead] at ha
    by_cases hx : (x == c) = true
    · rw [if_pos hx] at ha
      rcases mem_cons.mp ha with rfl | ha
      · simp
      · exact ih ha
    · rw [if_neg hx] at ha
      obtain ⟨head, tail, hs⟩ := exists_cons_of_ne_nil (splitOnP_ne_nil (· == c) s)
      rw [hs] at ha
      rcases mem_cons.mp ha with rfl | ha
      · have hh : c ∉ head := ih (by rw [splitOn, hs]; simp)
        simp only [mem_cons, not_or]
        exact ⟨fun h => hx (by simp [h]), hh⟩
      · exact ih (by rw [splitOn, hs]; exact mem_cons_of_mem _ ha)

end Joining

/-! ## Association lists -/

/-- With distinct keys a lookup finds exactly the entries. -/
theorem lookup_eq_some_iff [BEq α] [LawfulBEq α] {l : List (α × β)}
    (hn : (l.map Prod.fst).Nodup) {k : α} {v : β} : l.lookup k = some v ↔ (k, v) ∈ l := by
  induction l with
  | nil => simp
  | cons e l ih =>
    obtain ⟨k', v'⟩ := e
    simp only [map_cons, nodup_cons] at hn
    rw [lookup_cons]
    split
    · next heq =>
      obtain rfl : k = k' := by simpa using heq
      have ho : ∀ w, (k, w) ∉ l := fun w hw => hn.1 (mem_map_of_mem hw)
      simp [ho, eq_comm]
    · next hne =>
      have hne' : k ≠ k' := by simpa using hne
      simp [ih hn.2, hne']

end Text

import Mathlib.Data.List.Forall2
import Mathlib.Data.List.TakeWhile
import Mathlib.Tactic.Common
import Mathlib.Tactic.Ring

/-!
# Wildcard patterns and the two-pointer matcher

A pattern is a list of tokens.  `Tokens` says of each token which single characters it takes and
whether it is a *run* token, the wildcard for any run of characters.

* `Matches` is the language of a pattern: a run token stands for any run, every other token for one
  of the characters it takes.
* `twoPointer` is the iterative matcher with one backtracking point: on a mismatch it goes back to
  the last run token and lets its run grow by one character.  It asks whether the current token
  takes the current character *before* it asks whether the token is a run token.
* `Prefers` is the language that the matcher decides (`twoPointer_iff_prefers`): a run token that
  takes the next character as a single one stands for exactly that character.

The two languages agree when no run token of the pattern takes a character of the value
(`prefers_iff_matches`).
-/

namespace Glob

open List

variable {τ α : Type*}

/-- What the tokens of a pattern stand for. -/
structure Tokens (τ α : Type*) where
  /-- Token `t` takes the single character `x`. -/
  takes : τ → α → Bool
  /-- Token `t` is the wildcard for a run of characters. -/
  isRun : τ → Bool

variable (G : Tokens τ α)

/-! ## The two languages -/

/-- The language of a pattern: a run token stands for any run of characters, any other token for
one character that it takes. -/
inductive Matches : List τ → List α → Prop
  | nil : Matches [] []
  | one {t : τ} {x : α} {p : List τ} {v : List α} (hrun : G.isRun t = false)
      (htake : G.takes t x = true) (h : Matches p v) : Matches (t :: p) (x :: v)
  | run {t : τ} {p : List τ} (u : List α) {v : List α} (hrun : G.isRun t = true)
      (h : Matches p v) : Matches (t :: p) (u ++ v)

/-- The values with a parse in which a token that takes the next character takes exactly that
character, also when it is a run token; a run token stands for a run of any length only where the
next character is not one it takes. -/
inductive Prefers : List τ → List α → Prop
  | nil : Prefers [] []
  | one {t : τ} {x : α} {p : List τ} {v : List α} (htake : G.takes t x = true)
      (h : Prefers p v) : Prefers (t :: p) (x :: v)
  | run {t : τ} {p : List τ} {w v : List α} (hrun : G.isRun t = true)
      (hfirst : ∀ x ∈ w.head?, G.takes t x = false) (hsuf : v <:+ w) (h : Prefers p v) :
      Prefers (t :: p) w

variable {G} {v : List α} {p : List τ} {t : τ} {q : List τ} {w : List α}

theorem Prefers.matches (h : Prefers G p v) : Matches G p v := by
  induction h with
  | nil => exact .nil
  | @one t x p v ht _ ih =>
    by_cases hr : G.isRun t = true
    · exact .run [x] hr ih
    · exact .one (by simpa using hr) ht ih
  | run hr _ hs _ ih =>
    obtain ⟨u, rfl⟩ := hs
    exact .run u hr ih

theorem prefers_of_matches (h : Matches G p v)
    (hd : ∀ t ∈ p, G.isRun t = true → ∀ x ∈ v, G.takes t x = false) : Prefers G p v := by
  induction h with
  | nil => exact .nil
  | one _ htk _ ih =>
    refine .one htk (ih fun t ht hr x hx => ?_)
    exact hd t (.tail _ ht) hr x (.tail _ hx)
  | run u hrn _ ih =>
    refine .run hrn (fun x hx => ?_) (suffix_append u _) (ih fun t ht hr x hx => ?_)
    · exact hd _ mem_cons_self hrn x (mem_of_mem_head? hx)
    · exact hd t (.tail _ ht) hr x (mem_append_right u hx)

/-- When no run token of the pattern takes a character of the value, the parse preferred by the
matcher restricts nothing. -/
theorem prefers_iff_matches
    (hd : ∀ t ∈ p, G.isRun t = true → ∀ x ∈ v, G.takes t x = false) : Prefers G p v ↔ Matches G p v :=
  ⟨Prefers.matches, fun h => prefers_of_matches h hd⟩

theorem matches_map_iff {τ' : Type*} {G' : Tokens τ' α} {f : τ → τ'} (hrn : ∀ t, G'.isRun (f t) = G.isRun t)
    (htk : ∀ t x, G.isRun t = false → G'.takes (f t) x = G.takes t x) :
    Matches G' (p.map f) v ↔ Matches G p v := by
  constructor
  · intro h
    generalize hq : p.map f = q at h
    induction h generalizing p with
    | nil =>
      obtain rfl : p = [] := by simpa using hq
      exact .nil
    | one hr ht _ ih =>
      obtain ⟨t, p, rfl, rfl, rfl⟩ := map_eq_cons_iff.mp hq
      rw [hrn] at hr
      exact .one hr (by rwa [← htk t _ hr]) (ih rfl)
    | run u hr _ ih =>
      obtain ⟨t, p, rfl, rfl, rfl⟩ := map_eq_cons_iff.mp hq
      exact .run u (by rwa [← hrn]) (ih rfl)
  · intro h
    induction h with
    | nil => exact .nil
    | @one t x p v hr ht _ ih => exact .one (by rwa [hrn]) (by rwa [htk t x hr]) ih
    | run u hr _ ih => exact .run u (by rwa [hrn]) ih

/-- A value of two patterns behind each other is a value of the first and one of the second. -/
theorem matches_append : Matches G (p ++ q) w ↔ ∃ u v, w = u ++ v ∧ Matches G p u ∧ Matches G q v := by
  constructor
  · intro h
    induction p generalizing w with
    | nil => exact ⟨[], w, rfl, .nil, h⟩
    | cons t p ih =>
      cases h with
      | one hr ht h =>
        obtain ⟨u, v, rfl, hu, hv⟩ := ih h
        exact ⟨_ :: u, v, rfl, .one hr ht hu, hv⟩
      | run run hr h =>
        obtain ⟨u, v, rfl, hu, hv⟩ := ih h
        exact ⟨run ++ u, v, by simp, .run run hr hu, hv⟩
  · rintro ⟨u, v, rfl, hu, hv⟩
    induction hu with
    | nil => exact hv
    | one hr ht _ ih => exact .one hr ht ih
    | run run hr _ ih =>
      rw [append_assoc]
      exact .run run hr ih

theorem matches_map_of_takes {f : α → τ} (hrn : ∀ x, G.isRun (f x) = false)
    (ht : ∀ x y, G.takes (f x) y = true ↔ x = y) {u : List α} : Matches G (u.map f) v ↔ v = u := by
  constructor
  · intro h
    induction u generalizing v with
    | nil =>
      cases h
      rfl
    | cons x u ih =>
      cases h with
      | one _ htk h => rw [(ht x _).mp htk, ih h]
      | run _ hr _ => exact absurd hr (by simp [hrn])
  · rintro rfl
    induction v with
    | nil => exact .nil
    | cons x v ih => exact .one (hrn x) ((ht x x).mpr rfl) ih

/-! ### Reading a parse back -/

@[simp] theorem prefers_nil_left : Prefers G [] v ↔ v = [] := by
  constructor
  · rintro ⟨⟩; rfl
  · rintro rfl; exact .nil

theorem prefers_cons_of_takes {x : α}
    (ht : G.takes t x = true) : Prefers G (t :: p) (x :: v) ↔ Prefers G p v := by
  refine ⟨fun h => ?_, .one ht⟩
  cases h with
  | one _ h => exact h
  | run _ hf _ _ => simp [ht] at hf

theorem prefers_cons_of_not_takes (hf : ∀ x ∈ v.head?, G.takes t x = false) :
    Prefers G (t :: p) v ↔ G.isRun t = true ∧ ∃ w, w <:+ v ∧ Prefers G p w := by
  constructor
  · intro h
    cases h with
    | one ht _ => simp [ht] at hf
    | run hr _ hs h => exact ⟨hr, _, hs, h⟩
  · rintro ⟨hr, w, hs, h⟩
    exact .run hr hf hs h

/-- Whatever the first token stands for, the rest of the pattern matches a suffix of the value. -/
theorem Prefers.tail (h : Prefers G (t :: p) v) : ∃ w, w <:+ v ∧ Prefers G p w := by
  cases h with
  | one _ h => exact ⟨_, suffix_cons _ _, h⟩
  | run _ _ hs h => exact ⟨_, hs, h⟩

theorem prefers_empty : Prefers G p [] ↔ p.all G.isRun = true := by
  induction p with
  | nil => simp
  | cons t p ih =>
    rw [prefers_cons_of_not_takes (by simp)]
    simp [ih]

theorem prefers_append_of_forall₂
    (ht : List.Forall₂ (fun t x => G.takes t x = true) q w) :
    Prefers G (q ++ p) (w ++ v) ↔ Prefers G p v := by
  induction ht with
  | nil => rfl
  | cons htk _ ih => rw [cons_append, cons_append, prefers_cons_of_takes htk, ih]

/-- **A later start never gets ahead.**  If the tokens `q` take the characters `w` one by one and
the pattern `q ++ p` matches from some later place of `w ++ v`, then `p` matches from some place of
`v`: going back to an earlier run token cannot succeed where the last one fails. -/
theorem Prefers.of_suffix_append {u : List α} (ht : List.Forall₂ (fun t x => G.takes t x = true) q w)
    (hs : u <:+ w ++ v) (h : Prefers G (q ++ p) u) : ∃ u', u' <:+ v ∧ Prefers G p u' := by
  induction ht generalizing u with
  | nil => exact ⟨u, hs, h⟩
  | @cons t x q w htk _ ih =>
    rcases suffix_cons_iff.mp hs with rfl | hs
    · exact ih (suffix_refl _) ((prefers_cons_of_takes htk).mp h)
    · obtain ⟨u₁, hu₁, h₁⟩ := Prefers.tail h
      exact ih (hu₁.trans hs) h₁

/-! ## The matcher -/

/-- The variables of the matching loop.  The last run token seen and the place where its run
currently ends are both behind the two pointers. -/
structure Cursor where
  pi : ℕ
  vi : ℕ
  /-- Index of the last run token, and of the character after its run. -/
  star : Option (ℕ × ℕ)
  behind : ∀ s ∈ star, s.1 < pi ∧ s.2 ≤ vi

namespace Cursor

def start : Cursor := ⟨0, 0, none, by simp⟩

/-- The token takes the character: both pointers move on. -/
def advance (c : Cursor) : Cursor :=
  ⟨c.pi + 1, c.vi + 1, c.star, fun s hs => by have := c.behind s hs; omega⟩

/-- A run token, for now with an empty run. -/
def openRun (c : Cursor) : Cursor :=
  ⟨c.pi + 1, c.vi, some (c.pi, c.vi), fun s hs => by
    obtain rfl : (c.pi, c.vi) = s := by simpa using hs
    simp⟩

/-- Back to the last run token, whose run grows by one character. -/
def retry (s : ℕ × ℕ) : Cursor :=
  ⟨s.1 + 1, s.2 + 1, some (s.1, s.2 + 1), fun s' hs' => by
    obtain rfl : (s.1, s.2 + 1) = s' := by simpa using hs'
    simp⟩

/-- Bounds the rounds left for a pattern of length `m` and a value of length `n`.  Read as a number
with three digits in base `n + 1`: opening a run lowers the first digit, going back the second,
taking a character the third. -/
def rounds (m n : ℕ) (c : Cursor) : ℕ :=
  match c.star with
  | none => (m + 1) * (n + 1) * (n + 1) + (n - c.vi)
  | some s => ((m - s.1) * (n + 1) + (n - s.2)) * (n + 1) + (n - c.vi)

theorem digits_lt {a a' b n : ℕ} (ha : a < a') (hb : b < n) : a * n + b < a' * n :=
  calc a * n + b < a * n + n := by omega
    _ = (a + 1) * n := by ring
    _ ≤ a' * n := Nat.mul_le_mul_right n ha

variable {c : Cursor}

theorem rounds_advance {m n : ℕ} (hv : c.vi < n) : c.advance.rounds m n < c.rounds m n := by
  obtain ⟨pi, vi, star, behind⟩ := c
  simp only [rounds, advance] at hv ⊢
  cases star <;> simp only <;> omega

theorem rounds_openRun {m n : ℕ} (hp : c.pi < m) : c.openRun.rounds m n < c.rounds m n := by
  have hd : n - c.vi < n + 1 := by omega
  unfold rounds openRun
  cases hs : c.star with
  | none =>
    exact Nat.lt_add_right _ (digits_lt (digits_lt (by omega) hd) hd)
  | some s =>
    obtain ⟨hs₁, -⟩ := c.behind s hs
    exact Nat.lt_add_right _ (digits_lt (Nat.lt_add_right _ (digits_lt (by omega) hd)) hd)

theorem rounds_retry {m n : ℕ} {s : ℕ × ℕ} (hs : c.star = some s) (hv : c.vi < n) :
    (retry s).rounds m n < c.rounds m n := by
  obtain ⟨-, hs₂⟩ := c.behind s hs
  simp only [rounds, hs]
  exact Nat.lt_add_right _ (digits_lt (Nat.add_lt_add_left (by omega) _) (by omega))

end Cursor

/-- The loop: as long as characters are left, take one, open a run, or go back to the last run;
afterwards only run tokens may be left over. -/
def twoPointerFrom (G : Tokens τ α) (p : List τ) (v : List α) (c : Cursor) : Bool :=
  if hv : c.vi < v.length then
    if hp : c.pi < p.length then
      if G.takes p[c.pi] v[c.vi] then
        twoPointerFrom G p v c.advance
      else if G.isRun p[c.pi] then
        twoPointerFrom G p v c.openRun
      else
        match hs : c.star with
        | some s => twoPointerFrom G p v (.retry s)
        | none => false
    else
      match hs : c.star with
      | some s => twoPointerFrom G p v (.retry s)
      | none => false
  else
    ((p.drop c.pi).dropWhile G.isRun).isEmpty
termination_by c.rounds p.length v.length
decreasing_by
  · exact Cursor.rounds_advance hv
  · exact Cursor.rounds_openRun hp
  · exact Cursor.rounds_retry hs hv
  · exact Cursor.rounds_retry hs hv

/-- The matcher, from the start of the pattern and of the value. -/
def twoPointer (G : Tokens τ α) (p : List τ) (v : List α) : Bool :=
  twoPointerFrom G p v .start

/-! ### What the loop decides -/

/-- The tokens after the last run token have taken the characters after its run, one by one. -/
def InStep (G : Tokens τ α) (p : List τ) (v : List α) (c : Cursor) : Prop :=
  ∀ s ∈ c.star, ∃ q w, p.drop (s.1 + 1) = q ++ p.drop c.pi ∧ v.drop s.2 = w ++ v.drop c.vi ∧
    List.Forall₂ (fun t x => G.takes t x = true) q w

/-- What the loop has to find out: with no run token so far, whether the rest of the pattern matches
the rest of the value; after a run token, whether the pattern behind it matches from some place at
or after the end of its run. -/
def Open (G : Tokens τ α) (p : List τ) (v : List α) (c : Cursor) : Prop :=
  match c.star with
  | none => Prefers G (p.drop c.pi) (v.drop c.vi)
  | some s => ∃ w, w <:+ v.drop s.2 ∧ Prefers G (p.drop (s.1 + 1)) w

section Step

variable {p : List τ} {v : List α} {c : Cursor}

theorem open_of_prefers (hst : InStep G p v c)
    (h : Prefers G (p.drop c.pi) (v.drop c.vi)) : Open G p v c := by
  unfold Open
  split
  · exact h
  · next s hs =>
    obtain ⟨q, w, hq, hw, ht⟩ := hst s hs
    refine ⟨v.drop s.2, suffix_refl _, ?_⟩
    rw [hq, hw]
    exact (prefers_append_of_forall₂ ht).mpr h

/-- If anything is left to find, the current rest of the pattern matches from the current place of
the value or from a later one. -/
theorem Open.exists_suffix (hst : InStep G p v c) (h : Open G p v c) :
    ∃ w, w <:+ v.drop c.vi ∧ Prefers G (p.drop c.pi) w := by
  unfold Open at h
  split at h
  · exact ⟨_, suffix_refl _, h⟩
  · next s hs =>
    obtain ⟨q, w, hq, hw, ht⟩ := hst s hs
    obtain ⟨u, hu, hp⟩ := h
    rw [hw] at hu
    rw [hq] at hp
    exact Prefers.of_suffix_append ht hu hp

theorem inStep_openRun : InStep G p v c.openRun := by
  intro s hs
  obtain rfl : (c.pi, c.vi) = s := by simpa [Cursor.openRun] using hs
  exact ⟨[], [], rfl, rfl, .nil⟩

theorem inStep_retry (s : ℕ × ℕ) : InStep G p v (.retry s) := by
  intro s' hs'
  obtain rfl : (s.1, s.2 + 1) = s' := by simpa [Cursor.retry] using hs'
  exact ⟨[], [], rfl, rfl, .nil⟩

theorem not_takes_head (hv : c.vi < v.length) {t : τ} (ht : ¬ G.takes t v[c.vi] = true) :
    ∀ x ∈ (v.drop c.vi).head?, G.takes t x = false := by
  rw [drop_eq_getElem_cons hv, head?_cons]
  simpa using ht

section

variable (hp : c.pi < p.length) (hv : c.vi < v.length)
include hp hv

theorem open_advance (ht : G.takes p[c.pi] v[c.vi] = true) : Open G p v c.advance ↔ Open G p v c := by
  obtain ⟨pi, vi, star, behind⟩ := c
  cases star with
  | none =>
    show Prefers G (p.drop (pi + 1)) (v.drop (vi + 1)) ↔ Prefers G (p.drop pi) (v.drop vi)
    rw [drop_eq_getElem_cons hp, drop_eq_getElem_cons hv, prefers_cons_of_takes ht]
  | some s => rfl

theorem InStep.advance (hst : InStep G p v c) (htk : G.takes p[c.pi] v[c.vi] = true) :
    InStep G p v c.advance := by
  intro s hs
  obtain ⟨q, w, hq, hw, ht⟩ := hst s hs
  refine ⟨q ++ [p[c.pi]], w ++ [v[c.vi]], ?_, ?_, rel_append ht (by simpa using htk)⟩
  · rw [hq]
    simp [Cursor.advance]
  · rw [hw]
    simp [Cursor.advance]

theorem not_prefers_of_mismatch (ht : ¬ G.takes p[c.pi] v[c.vi] = true) (hr : ¬ G.isRun p[c.pi] = true) :
    ¬ Prefers G (p.drop c.pi) (v.drop c.vi) := by
  rw [drop_eq_getElem_cons hp, prefers_cons_of_not_takes (not_takes_head hv ht)]
  exact fun h => hr h.1

theorem open_openRun (hs : InStep G p v c) (ht : ¬ G.takes p[c.pi] v[c.vi] = true)
    (hr : G.isRun p[c.pi] = true) : Open G p v c.openRun ↔ Open G p v c := by
  constructor
  · rintro ⟨w, hw, h⟩
    refine open_of_prefers hs ?_
    rw [drop_eq_getElem_cons hp, prefers_cons_of_not_takes (not_takes_head hv ht)]
    exact ⟨hr, w, hw, h⟩
  · intro h
    obtain ⟨w, hw, hpr⟩ := h.exists_suffix hs
    rw [drop_eq_getElem_cons hp] at hpr
    obtain ⟨w', hw', hpr'⟩ := hpr.tail
    exact ⟨w', hw'.trans hw, hpr'⟩

end

theorem open_retry {s : ℕ × ℕ} (hs : c.star = some s) (hst : InStep G p v c)
    (hv : c.vi < v.length) (hm : ¬ Prefers G (p.drop c.pi) (v.drop c.vi)) :
    Open G p v (.retry s) ↔ Open G p v c := by
  obtain ⟨-, hs₂⟩ := c.behind s hs
  have hlt : s.2 < v.length := by omega
  simp only [Open, hs]
  rw [drop_eq_getElem_cons hlt]
  constructor
  · rintro ⟨w, hw, h⟩
    exact ⟨w, hw.trans (suffix_cons _ _), h⟩
  · rintro ⟨w, hw, h⟩
    rcases suffix_cons_iff.mp hw with rfl | hw
    -- the run as it stands fails: it would make the rest match here
    · obtain ⟨q, w, hq, hw, ht⟩ := hst s hs
      rw [← drop_eq_getElem_cons hlt, hq, hw, prefers_append_of_forall₂ ht] at h
      exact absurd h hm
    · exact ⟨w, hw, h⟩

theorem not_prefers_of_pattern_end (hp : ¬ c.pi < p.length) (hv : c.vi < v.length) :
    ¬ Prefers G (p.drop c.pi) (v.drop c.vi) := by
  rw [drop_eq_nil_of_le (by omega), prefers_nil_left, drop_eq_nil_iff]
  omega

theorem open_iff_of_value_end (hs : InStep G p v c) (hv : ¬ c.vi < v.length) :
    ((p.drop c.pi).dropWhile G.isRun).isEmpty = true ↔ Open G p v c := by
  have hn : v.drop c.vi = [] := drop_eq_nil_of_le (by omega)
  have ha : ((p.drop c.pi).dropWhile G.isRun).isEmpty = true ↔ Prefers G (p.drop c.pi) [] := by
    simp [prefers_empty]
  rw [ha]
  constructor
  · intro h
    exact open_of_prefers hs (by rwa [hn])
  · intro h
    obtain ⟨w, hw, hp⟩ := h.exists_suffix hs
    rw [hn, suffix_nil] at hw
    rwa [hw] at hp

end Step

/-- **The loop decides what is open.** -/
theorem twoPointerFrom_iff (p : List τ) (v : List α) (c : Cursor) (hst : InStep G p v c) :
    twoPointerFrom G p v c = true ↔ Open G p v c := by
  fun_induction twoPointerFrom G p v c with
  | case1 c hv hp ht ih =>
    rw [ih (hst.advance hp hv ht), open_advance hp hv ht]
  | case2 c hv hp ht hr ih =>
    rw [ih inStep_openRun, open_openRun hp hv hst ht hr]
  | case3 c hv hp ht hr s hs ih =>
    rw [ih (inStep_retry s), open_retry hs hst hv (not_prefers_of_mismatch hp hv ht hr)]
  | case4 c hv hp ht hr hs =>
    simpa [Open, hs] using not_prefers_of_mismatch hp hv ht hr
  | case5 c hv hp s hs ih =>
    rw [ih (inStep_retry s), open_retry hs hst hv (not_prefers_of_pattern_end hp hv)]
  | case6 c hv hp hs =>
    simpa [Open, hs] using not_prefers_of_pattern_end hp hv
  | case7 c hv => exact open_iff_of_value_end hst hv

/-- **The language of the two-pointer matcher.** -/
theorem twoPointer_iff_prefers (p : List τ) (v : List α) : twoPointer G p v = true ↔ Prefers G p v := by
  unfold twoPointer
  rw [twoPointerFrom_iff p v .start (by simp [InStep, Cursor.start])]
  simp [Open, Cursor.start]

theorem twoPointer_iff_matches
    (hd : ∀ t ∈ p, G.isRun t = true → ∀ x ∈ v, G.takes t x = false) :
    twoPointer G p v = true ↔ Matches G p v := by
  rw [twoPointer_iff_prefers, prefers_iff_matches hd]

end Glob

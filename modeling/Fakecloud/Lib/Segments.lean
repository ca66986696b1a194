import Mathlib.Data.List.Chain
import Mathlib.Data.List.Sort
import Mathlib.Tactic

/-!
# Ranges that follow each other

A range is a pair of its first and its last number.  `Tiles a rs b` says that the ranges `rs` follow each
other without gap from `a` up to the number before `b`.

* `Tiles.countP` — each number is in exactly one of them;
* `Tiles.filter_inside` — the ranges of a finer tiling inside a range of a coarser one tile it;
* `cutAt` — the tiling with given first numbers.

A list of ranges that covers every number of an interval once, in whatever order, is described by counting
(`Partitions`).
-/

namespace Segments

open List Prod

def covers (h : ℕ) (r : ℕ × ℕ) : Bool := r.1 ≤ h && h ≤ r.2

def inside (r t : ℕ × ℕ) : Bool := t.1 ≤ r.1 && r.2 ≤ t.2

theorem covers_iff {h : ℕ} {r : ℕ × ℕ} : covers h r ↔ r.1 ≤ h ∧ h ≤ r.2 := by
  simp [covers]

theorem count_join {a b c : ℕ} (hab : a ≤ b) (hbc : b + 1 ≤ c) (n : ℕ) : (if covers n (a, c) then 1 else 0) =
      (if covers n (a, b) then 1 else 0) + if covers n (b + 1, c) then 1 else 0 := by
  simp only [covers_iff]
  split_ifs <;> omega

inductive Tiles : ℕ → List (ℕ × ℕ) → ℕ → Prop
  | nil (a : ℕ) : Tiles a [] a
  | cons {a c b : ℕ} {rs : List (ℕ × ℕ)} (hle : a ≤ c) (h : Tiles (c + 1) rs b) :
      Tiles a ((a, c) :: rs) b

namespace Tiles

variable {a b x : ℕ} {rs ts : List (ℕ × ℕ)} {t : ℕ × ℕ}

theorem le (h : Tiles a rs b) : a ≤ b := by
  induction h with
  | nil => exact le_rfl
  | cons hle _ ih => omega

theorem length_pos (h : Tiles a rs b) (hlt : a < b) : 0 < rs.length := by
  cases h with
  | nil => exact absurd hlt (lt_irrefl _)
  | cons => exact Nat.succ_pos _

theorem bounds (h : Tiles a rs b) : ∀ r ∈ rs, a ≤ r.1 ∧ r.1 ≤ r.2 ∧ r.2 < b := by
  induction h with
  | nil => simp
  | @cons a c b rs hle h ih =>
    have hcb := h.le
    refine forall_mem_cons.mpr ⟨⟨le_rfl, hle, by omega⟩, fun r hr => ?_⟩
    obtain ⟨h₁, h₂, h₃⟩ := ih r hr
    exact ⟨by omega, h₂, h₃⟩

theorem append (h : Tiles a rs x) (h' : Tiles x ts b) : Tiles a (rs ++ ts) b := by
  induction h with
  | nil => exact h'
  | cons hle _ ih => exact .cons hle (ih h')

/-- **Each number is in one of the ranges.** -/
theorem countP (h : Tiles a rs b) (n : ℕ) : rs.countP (covers n) = if a ≤ n ∧ n < b then 1 else 0 := by
  induction h with
  | nil a =>
    rw [if_neg (by omega)]
    rfl
  | @cons a c b rs hle h ih =>
    have hcb := h.le
    rw [countP_cons, ih]
    by_cases hn : a ≤ n ∧ n ≤ c
    · rw [if_neg (by omega), if_pos (covers_iff.mpr hn), if_pos (by omega)]
    · rw [if_neg fun hc => hn (covers_iff.mp hc)]
      by_cases hn' : c + 1 ≤ n ∧ n < b
      · rw [if_pos hn', if_pos (by omega)]
      · rw [if_neg hn', if_neg (by omega)]

theorem split (h : Tiles a rs b) (hx : x ∈ rs.map fst ∨ x = b) :
    ∃ r₁ r₂, rs = r₁ ++ r₂ ∧ Tiles a r₁ x ∧ Tiles x r₂ b := by
  induction h with
  | nil a =>
    rcases hx with hx | rfl
    · cases hx
    · exact ⟨[], [], rfl, .nil _, .nil _⟩
  | @cons a c b rs hle h ih =>
    by_cases hxa : x = a
    · subst hxa
      exact ⟨[], _, rfl, .nil _, .cons hle h⟩
    · have hx' : x ∈ rs.map fst ∨ x = b := by
        rcases hx with hx | hx
        · rw [map_cons, mem_cons] at hx
          exact .inl (hx.resolve_left hxa)
        · exact .inr hx
      obtain ⟨r₁, r₂, rfl, h₁, h₂⟩ := ih hx'
      exact ⟨(a, c) :: r₁, r₂, rfl, .cons hle h₁, h₂⟩

theorem filter_inside_self {lo hi : ℕ} (h : Tiles lo rs (hi + 1)) :
    (rs.filter fun r => inside r (lo, hi)) = rs := by
  refine filter_eq_self.mpr fun r hr => ?_
  have := h.bounds r hr
  simp only [inside, Bool.and_eq_true, decide_eq_true_eq]
  omega

theorem filter_inside_nil (h : Tiles a rs b) (ho : b ≤ t.1 ∨ t.2 < a) :
    (rs.filter fun r => inside r t) = [] := by
  refine filter_eq_nil_iff.mpr fun r hr => ?_
  have := h.bounds r hr
  simp only [inside, Bool.and_eq_true, decide_eq_true_eq]
  omega

theorem mem_starts_right {c : ℕ} {r₁ r₂ : List (ℕ × ℕ)} (h : Tiles a r₁ c) (hc : c ≤ x)
    (hx : x ∈ (r₁ ++ r₂).map fst) : x ∈ r₂.map fst := by
  rw [map_append, mem_append] at hx
  refine hx.resolve_left fun hm => ?_
  obtain ⟨r, hr, rfl⟩ := mem_map.mp hm
  have := h.bounds r hr
  omega

/-- What lies in a range between two cuts tiles it. -/
theorem filter_inside {lo hi : ℕ} (h : Tiles a rs b) (hlo : lo ∈ rs.map fst ∨ lo = b)
    (hle : lo ≤ hi) (hhi : hi + 1 ∈ rs.map fst ∨ hi + 1 = b) :
    Tiles lo (rs.filter fun r => inside r (lo, hi)) (hi + 1) := by
  obtain ⟨r₁, r₂, rfl, h₁, h₂⟩ := h.split hlo
  obtain ⟨r₂, r₃, rfl, h₂, h₃⟩ := h₂.split (hhi.imp_left (h₁.mem_starts_right (by omega)))
  rw [filter_append, filter_append, h₁.filter_inside_nil (.inl le_rfl),
    h₂.filter_inside_self, h₃.filter_inside_nil (.inr (by omega)), append_nil]
  exact h₂

theorem mem_starts (h : Tiles a ts b) (ht : t ∈ ts) : t.2 + 1 ∈ ts.map fst ∨ t.2 + 1 = b := by
  induction h with
  | nil => cases ht
  | @cons a c b ts hle h ih =>
    rcases mem_cons.mp ht with rfl | ht
    · cases h with
      | nil => exact .inr rfl
      | cons => exact .inl (by simp)
    · exact (ih ht).imp_left fun hm => mem_cons_of_mem _ hm

/-- **A finer tiling is made of what lies in the ranges of a coarser one.** -/
theorem length_eq_sum (h : Tiles a rs b) (ht : Tiles a ts b) (hs : ∀ t ∈ ts, t.1 ∈ rs.map fst) :
    rs.length = (ts.map fun t => (rs.filter fun r => inside r t).length).sum := by
  induction ht generalizing rs with
  | nil =>
    cases h with
    | nil => rfl
    | cons hle h =>
      have := h.le
      omega
  | @cons a c b ts hle ht ih =>
    have hc : c + 1 ∈ rs.map fst ∨ c + 1 = b := by
      cases ht with
      | nil => exact .inr rfl
      | @cons _ c' => exact .inl (hs (c + 1, c') (by simp))
    obtain ⟨r₁, r₂, rfl, h₁, h₂⟩ := h.split hc
    have hf : ((r₁ ++ r₂).filter fun r => inside r (a, c)) = r₁ := by
      rw [filter_append, h₁.filter_inside_self, h₂.filter_inside_nil (.inr (by simp)), append_nil]
    have hr : ∀ t ∈ ts, (r₁ ++ r₂).filter (fun r => inside r t) = r₂.filter fun r => inside r t :=
      fun t htm => by
      rw [filter_append, h₁.filter_inside_nil (.inl (ht.bounds t htm).1), nil_append]
    have hs' : ∀ t ∈ ts, t.1 ∈ r₂.map fst := fun t htm =>
      h₁.mem_starts_right (ht.bounds t htm).1 (hs t (mem_cons_of_mem _ htm))
    have hsm : (ts.map fun t => ((r₁ ++ r₂).filter fun r => inside r t).length) =
        ts.map fun t => (r₂.filter fun r => inside r t).length := map_congr_left fun t htm => by rw [hr t htm]
    rw [map_cons, sum_cons, hf, length_append, ih h₂ hs', hsm]

end Tiles

/-! ## Tilings from their cuts -/

/-- The ranges that start at the cuts; the last one ends at `m`. -/
def cutAt (m : ℕ) : List ℕ → List (ℕ × ℕ)
  | [] => []
  | [c] => [(c, m)]
  | c :: d :: cuts => (c, d - 1) :: cutAt m (d :: cuts)

theorem starts_cutAt (m : ℕ) (cuts : List ℕ) : (cutAt m cuts).map fst = cuts := by
  induction cuts using cutAt.induct with
  | case1 => rfl
  | case2 => rfl
  | case3 c d cuts ih => rw [cutAt, map_cons, ih]

theorem tiles_cutAt {m c : ℕ} {cuts : List ℕ} (hs : (c :: cuts).Pairwise (· < ·))
    (hle : ∀ x ∈ c :: cuts, x ≤ m) : Tiles c (cutAt m (c :: cuts)) (m + 1) := by
  induction cuts generalizing c with
  | nil => exact .cons (hle c (by simp)) (.nil _)
  | cons d cuts ih =>
    obtain ⟨hlt, hr⟩ := pairwise_cons.mp hs
    have hcd := hlt d (by simp)
    have ht := ih hr fun x hx => hle x (mem_cons_of_mem _ hx)
    refine .cons (by omega) ?_
    rwa [show d - 1 + 1 = d by omega]

/-- The ranges between the values of an increasing function. -/
theorem tiles_range {f : ℕ → ℕ} (n : ℕ) (hf : ∀ i < n, f i < f (i + 1)) :
    Tiles (f 0) ((List.range n).map fun i => (f i, f (i + 1) - 1)) (f n) := by
  induction n with
  | zero => exact .nil _
  | succ n ih =>
    rw [range_succ, map_append]
    refine (ih fun i hi => hf i (by omega)).append ?_
    have hlt := hf n (by omega)
    refine .cons (by omega) ?_
    rw [show f (n + 1) - 1 + 1 = f (n + 1) by omega]
    exact .nil _

/-! ## Ranges in any order -/

/-- Every number up to `m` is in one of the ranges, and no other number is. -/
def Partitions (m : ℕ) (rs : List (ℕ × ℕ)) : Prop :=
  ∀ n, rs.countP (covers n) = if n ≤ m then 1 else 0

namespace Partitions

variable {m : ℕ} {rs : List (ℕ × ℕ)} {n : ℕ} {r : ℕ × ℕ}

section

variable (h : Partitions m rs)
include h

theorem exists_covers (hn : n ≤ m) : ∃ r ∈ rs, covers n r := by
  have hc := h n
  rw [if_pos hn] at hc
  exact countP_pos_iff.mp (by omega)

theorem pairwise : rs.Pairwise fun r r' => ∀ n, ¬ (covers n r ∧ covers n r') := by
  have hle : ∀ n, rs.countP (covers n) ≤ 1 := fun n => by
    rw [h n]
    split <;> omega
  clear h
  induction rs with
  | nil => exact .nil
  | cons r rs ih =>
    refine pairwise_cons.mpr ⟨fun r' hr' n hn => ?_, ih fun n => ?_⟩
    · have hc := hle n
      rw [countP_cons_of_pos hn.1] at hc
      have hp : 0 < rs.countP (covers n) := countP_pos_iff.mpr ⟨r', hr', hn.2⟩
      omega
    · have hc := hle n
      rw [countP_cons] at hc
      omega

theorem le_of_covers (hr : r ∈ rs) (hn : covers n r) : n ≤ m := by
  by_contra hm
  have hc := h n
  rw [if_neg hm] at hc
  exact countP_eq_zero.mp hc r hr hn

theorem eq_of_covers {r' : ℕ × ℕ} (hr : r ∈ rs) (hr' : r' ∈ rs)
    (hn : covers n r) (hn' : covers n r') : r = r' := by
  by_contra hne
  have hs : Std.Symm fun r r' : ℕ × ℕ => ∀ n, ¬ (covers n r ∧ covers n r') :=
    ⟨fun _ _ hd n hc => hd n ⟨hc.2, hc.1⟩⟩
  exact h.pairwise.forall hr hr' hne n ⟨hn, hn'⟩

/-- **A range in which no other one starts lies in the one that has its first number.** -/
theorem inside_of_no_start {lo hi : ℕ} (hhi : hi ≤ m) (hr : r ∈ rs)
    (hlo : covers lo r) (hs : ∀ r' ∈ rs, ¬ (lo < r'.1 ∧ r'.1 ≤ hi)) : hi ≤ r.2 := by
  by_contra hlt
  have hlo' := covers_iff.mp hlo
  -- the number after the range is in another one, which cannot start there
  obtain ⟨r', hr', hc⟩ := h.exists_covers (show r.2 + 1 ≤ m by omega)
  have hc' := covers_iff.mp hc
  have hn := hs r' hr'
  have hb : covers r.2 r' := covers_iff.mpr ⟨by omega, by omega⟩
  obtain rfl := h.eq_of_covers hr hr' (covers_iff.mpr ⟨by omega, le_rfl⟩) hb
  omega

end

end Partitions

theorem Tiles.partitions {m : ℕ} {rs : List (ℕ × ℕ)} (h : Tiles 0 rs (m + 1)) : Partitions m rs := by
  intro n
  rw [h.countP n]
  exact if_congr (by omega) rfl rfl

end Segments

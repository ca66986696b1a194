import Mathlib.Data.Finset.Sort
import Mathlib.Data.List.Sort
import Mathlib.Data.Fintype.Card
import Mathlib.Logic.Relation
import Mathlib.Order.WellFounded

/-!
# Kahn's algorithm

Nodes `0, …, n - 1`, each with the nodes that it comes after.  A node is ready when nothing that it comes
after is missing from the order; the least ready node is placed next.  What a cycle keeps back is appended in
the end.
-/

namespace Kahn

open List

/-! ## Closed orders -/

section Closed

variable {α : Type} (after : α → α → Prop)

/-- Every element of the list stands after what it has to come after. -/
inductive Closed : List α → Prop
  | nil : Closed []
  | snoc {order : List α} {a : α} : Closed order → (∀ b, after a b → b ∈ order) → Closed (order ++ [a])

variable {after} {order l l' : List α} {a b : α}

theorem Closed.mem (h : Closed after order) (heq : order = l ++ a :: l') (hb : after a b) : b ∈ l := by
  induction h generalizing l' with
  | nil => simp at heq
  | snoc hc hl ih =>
    obtain ⟨as, rfl, has⟩ | ⟨bs, ho, hbs⟩ := append_eq_append_iff.mp heq
    · obtain ⟨rfl, hik⟩ | ⟨-, hn⟩ := singleton_eq_append_iff.mp has
      · obtain rfl := (List.cons.inj hik).1
        rw [append_nil]
        exact hl b hb
      · simp at hn
    · cases bs with
      | nil =>
        obtain rfl := (List.cons.inj hbs).1
        rw [append_nil] at ho
        exact ho ▸ hl b hb
      | cons c bs =>
        obtain rfl := (List.cons.inj hbs).1
        exact ih ho

theorem Closed.append (h : Closed after l)
    (hn : ∀ u a v, l' = u ++ a :: v → ∀ b, after a b → b ∈ l ++ u) : Closed after (l ++ l') := by
  induction l' using reverseRecOn with
  | nil => simpa using h
  | append_singleton l' a ih =>
    rw [← append_assoc]
    refine .snoc (ih fun u a' v heq b hb => ?_) (hn l' a [] rfl)
    exact hn u a' (v ++ [a]) (by simp [heq]) b hb

end Closed

/-! ## The algorithm -/

structure State where
  ready : List ℕ
  indeg : ℕ → ℕ
  order : List ℕ

variable (n : ℕ) (deps : ℕ → List ℕ)

/-- The nodes that come after one. -/
def dependents (j : ℕ) : List ℕ := (List.range n).filter fun i => j ∈ deps i

/-- A node has one less to wait for. -/
def release (s : State) (j : ℕ) : State where
  ready := if s.indeg j - 1 = 0 then s.ready.orderedInsert (· ≤ ·) j else s.ready
  indeg := Function.update s.indeg j (s.indeg j - 1)
  order := s.order

def place (i : ℕ) (s : State) : State :=
  (dependents n deps i).foldl release { s with order := s.order ++ [i] }

def loop : ℕ → State → State
  | 0, s => s
  | fuel + 1, s =>
    match s.ready with
    | [] => s
    | i :: ready => loop fuel (place n deps i { s with ready })

def initial : State where
  ready := (List.range n).filter fun i => (deps i).length = 0
  indeg i := (deps i).length
  order := []

def sort : List ℕ :=
  let order := (loop n deps n (initial n deps)).order
  if order.length ≠ n then order ++ (List.range n).filter fun i => i ∉ order else order

/-! ## Placing a node -/

section Release

variable {s : State} {js : List ℕ} {k : ℕ}

@[simp] theorem foldl_release_order : (js.foldl release s).order = s.order := by
  induction js generalizing s with
  | nil => rfl
  | cons j js ih => exact ih

theorem foldl_release_indeg (hn : js.Nodup) :
    (js.foldl release s).indeg k = if k ∈ js then s.indeg k - 1 else s.indeg k := by
  induction js generalizing s with
  | nil => rfl
  | cons j js ih =>
    obtain ⟨hj, hn⟩ := nodup_cons.mp hn
    rw [foldl_cons, ih hn]
    by_cases hk : k = j
    · subst hk
      simp [hj, release]
    · simp [hk, release]

theorem mem_foldl_release_ready (hn : js.Nodup) :
    k ∈ (js.foldl release s).ready ↔ k ∈ s.ready ∨ k ∈ js ∧ s.indeg k - 1 = 0 := by
  induction js generalizing s with
  | nil => simp
  | cons j js ih =>
    obtain ⟨hj, hn⟩ := nodup_cons.mp hn
    rw [foldl_cons, ih hn]
    by_cases hk : k = j
    · subst hk
      by_cases hz : s.indeg k - 1 = 0 <;> simp [hj, release, hz]
    · by_cases hz : s.indeg j - 1 = 0 <;> simp [hk, release, hz]

theorem nodup_foldl_release_ready (hn : js.Nodup) (hr : s.ready.Nodup) (hnw : ∀ j ∈ js, j ∉ s.ready) :
    (js.foldl release s).ready.Nodup := by
  induction js generalizing s with
  | nil => exact hr
  | cons j js ih =>
    obtain ⟨hj, hn⟩ := nodup_cons.mp hn
    have hot := hnw j mem_cons_self
    refine ih hn ?_ fun k hk hm => ?_
    · dsimp only [release]
      split_ifs
      · exact (perm_orderedInsert (· ≤ ·) j s.ready).nodup_iff.mpr (nodup_cons.mpr ⟨hot, hr⟩)
      · exact hr
    · have hne : k ≠ j := fun heq => hj (heq ▸ hk)
      have ho := hnw k (mem_cons_of_mem j hk)
      dsimp only [release] at hm
      split_ifs at hm
      · rw [mem_orderedInsert] at hm
        exact hm.elim hne ho
      · exact ho hm

end Release

/-! ## The loop -/

structure Graph : Prop where
  nodup : ∀ i, (deps i).Nodup
  lt : ∀ i, ∀ d ∈ deps i, d < n

structure Invariant (s : State) : Prop where
  nodup : (s.order ++ s.ready).Nodup
  lt : ∀ i ∈ s.order ++ s.ready, i < n
  indeg : ∀ i < n, s.indeg i = ((deps i).filter fun d => d ∉ s.order).length
  ready : ∀ i < n, i ∈ s.order ++ s.ready ↔ ∀ d ∈ deps i, d ∈ s.order
  closed : Closed (fun i d => d ∈ deps i) s.order

variable {n deps} {s : State} {i : ℕ} {ready : List ℕ}

variable (n deps) in
theorem Invariant.initial : Invariant n deps (initial n deps) where
  nodup := nodup_range.filter _
  lt i hi := by simpa using mem_of_mem_filter hi
  indeg i _ := by simp [Kahn.initial]
  ready i hi := by simp [Kahn.initial, hi, eq_nil_iff_forall_not_mem]
  closed := .nil

theorem nodup_dependents (i : ℕ) : (dependents n deps i).Nodup := nodup_range.filter _

theorem mem_dependents {k : ℕ} : k ∈ dependents n deps i ↔ k < n ∧ i ∈ deps k := by
  simp [dependents]

/-! ## Ties -/

variable (n deps) in
/-- The ready nodes are sorted, and every node was the least that could stand at its place. -/
structure Eager (s : State) : Prop where
  sorted : s.ready.Pairwise (· ≤ ·)
  least : ∀ l i l', s.order = l ++ i :: l' → ∀ k < n, k ∉ l → (∀ d ∈ deps k, d ∈ l) → i ≤ k

theorem sorted_foldl_release {js : List ℕ} (h : s.ready.Pairwise (· ≤ ·)) :
    (js.foldl release s).ready.Pairwise (· ≤ ·) := by
  induction js generalizing s with
  | nil => exact h
  | cons j js ih =>
    refine ih ?_
    dsimp only [release]
    split_ifs
    · exact h.orderedInsert j _
    · exact h

theorem Eager.place (he : Eager n deps s) (h : Invariant n deps s) (hr : s.ready = i :: ready) :
    Eager n deps (place n deps i { s with ready }) := by
  have hs := he.sorted
  rw [hr, pairwise_cons] at hs
  refine ⟨sorted_foldl_release hs.2, fun l j l' heq k hk hkl hd => ?_⟩
  rw [Kahn.place, foldl_release_order] at heq
  rcases eq_nil_or_concat l' with rfl | ⟨l', z, rfl⟩
  · obtain ⟨rfl, hj⟩ := append_inj' heq rfl
    obtain rfl : i = j := by simpa using hj
    -- the node is ready as well
    have hm := (h.ready k hk).mpr hd
    rw [hr, mem_append, mem_cons] at hm
    obtain hm | rfl | hm := hm
    · exact absurd hm hkl
    · exact le_rfl
    · exact hs.1 k hm
  · have hc : s.order ++ [i] = (l ++ j :: l') ++ [z] := by simpa using heq
    exact he.least l j l' (append_inj' hc rfl).1 k hk hkl hd

section

variable (hg : Graph n deps)
include hg

theorem length_filter_snoc {order : List ℕ} (hi : i ∉ order) (k : ℕ) :
    ((deps k).filter fun d => d ∉ order ++ [i]).length =
      if i ∈ deps k then ((deps k).filter fun d => d ∉ order).length - 1
      else ((deps k).filter fun d => d ∉ order).length := by
  have hs : ((deps k).filter fun d => d ∉ order ++ [i]) = ((deps k).filter fun d => d ∉ order).erase i := by
    rw [((hg.nodup k).filter _).erase_eq_filter, filter_filter]
    refine filter_congr fun d _ => ?_
    rw [Bool.eq_iff_iff]
    simp [and_comm]
  rw [hs]
  split_ifs with hm
  · exact length_erase_of_mem (mem_filter.mpr ⟨hm, by simpa using hi⟩)
  · rw [erase_of_not_mem fun h => hm (mem_of_mem_filter h)]

theorem Invariant.place (h : Invariant n deps s)
    (hrd : s.ready = i :: ready) : Invariant n deps (place n deps i { s with ready }) := by
  have hn := h.nodup
  have hlt := h.lt
  have hw := h.ready
  rw [hrd] at hn hlt hw
  have hot : i ∉ s.order := fun hmm => (nodup_append.mp hn).2.2 i hmm i mem_cons_self rfl
  have hi : ∀ d ∈ deps i, d ∈ s.order := (hw i (hlt i (by simp))).mp (by simp)
  -- a node that waits for `i` is neither placed nor ready
  have hdp : ∀ k ∈ dependents n deps i, k ∉ s.order ++ i :: ready := by
    intro k hk hmm
    obtain ⟨hkn, hik⟩ := mem_dependents.mp hk
    exact hot ((hw k hkn).mp hmm i hik)
  have hmm : ∀ k, k ∈ (Kahn.place n deps i { s with ready }).ready ↔
      k ∈ ready ∨ k ∈ dependents n deps i ∧ s.indeg k - 1 = 0 := fun k =>
    mem_foldl_release_ready (nodup_dependents i)
  have ho : (Kahn.place n deps i { s with ready }).order = s.order ++ [i] := foldl_release_order
  have hal : ∀ k, k ∈ s.order ++ [i] ++ (Kahn.place n deps i { s with ready }).ready ↔
      k ∈ s.order ++ i :: ready ∨ k ∈ dependents n deps i ∧ s.indeg k - 1 = 0 := fun k => by
    simp [hmm, or_assoc]
  rw [append_cons] at hn
  obtain ⟨hp, hr, hds⟩ := nodup_append.mp hn
  refine ⟨?_, fun k hk => ?_, fun k hk => ?_, fun k hk => ?_, ho ▸ h.closed.snoc hi⟩
  · have hnw : ∀ k ∈ dependents n deps i, k ∉ ready := fun k hk hmm => hdp k hk (by simp [hmm])
    rw [ho]
    refine nodup_append.mpr ⟨hp, nodup_foldl_release_ready (nodup_dependents i) hr hnw, ?_⟩
    rintro a ha _ hb rfl
    obtain hol | ⟨hde, -⟩ := (hmm a).mp hb
    · exact hds a ha a hol rfl
    · exact hdp a hde (by rw [append_cons]; exact mem_append_left _ ha)
  · rw [ho, hal] at hk
    obtain hk | ⟨hk, -⟩ := hk
    · exact hlt k hk
    · exact (mem_dependents.mp hk).1
  · rw [ho, length_filter_snoc hg hot, ← h.indeg k hk]
    refine (foldl_release_indeg (nodup_dependents i)).trans ?_
    simp only [mem_dependents, hk, true_and]
  · rw [ho, hal, hw k hk]
    by_cases hik : i ∈ deps k
    · -- `k` is ready once nothing but `i` is missing for it
      have hnn := length_filter_snoc hg hot k
      rw [if_pos hik, ← h.indeg k hk] at hnn
      rw [← hnn, length_eq_zero_iff, filter_eq_nil_iff]
      simp only [mem_dependents, hk, hik, true_and, decide_not, Bool.not_eq_true',
        decide_eq_false_iff_not, not_not]
      exact or_iff_right_of_imp fun h d hd => mem_append_left _ (h d hd)
    · have hne : ∀ d ∈ deps k, d ≠ i := fun d hd heq => hik (heq ▸ hd)
      rw [or_iff_left fun hde => hik (mem_dependents.mp hde.1).2]
      exact forall₂_congr fun d hd => by simp [hne d hd]

theorem Invariant.loop (fuel : ℕ) (h : Invariant n deps s) : Invariant n deps (loop n deps fuel s) := by
  induction fuel generalizing s with
  | zero => exact h
  | succ fuel ih =>
    rw [Kahn.loop]
    split
    · exact h
    · next i ready hr => exact ih (h.place hg hr)

/-- With a step for each node that is missing, the loop ends because nothing is ready. -/
theorem loop_ready (fuel : ℕ) (h : Invariant n deps s)
    (hf : n ≤ s.order.length + fuel) : (loop n deps fuel s).ready = [] := by
  induction fuel generalizing s with
  | zero =>
    have hl : (s.order ++ s.ready).length ≤ n := by
      simpa using (h.nodup.subperm fun i hi => mem_range.mpr (h.lt i hi)).length_le
    rw [length_append] at hl
    exact length_eq_zero_iff.mp (show s.ready.length = 0 by omega)
  | succ fuel ih =>
    rw [Kahn.loop]
    split
    · next hr => exact hr
    · next i ready hr =>
      refine ih (h.place hg hr) ?_
      have ho : (Kahn.place n deps i { s with ready }).order = s.order ++ [i] := foldl_release_order
      rw [ho, length_append, length_singleton]
      omega

theorem Eager.loop (fuel : ℕ) (he : Eager n deps s) (h : Invariant n deps s) :
    Eager n deps (loop n deps fuel s) := by
  induction fuel generalizing s with
  | zero => exact he
  | succ fuel ih =>
    rw [Kahn.loop]
    split
    · exact he
    · next i ready hr => exact ih (he.place h hr) (h.place hg hr)

/-! ## The order -/

theorem sort_perm : (sort n deps).Perm (List.range n) := by
  have h := (Invariant.initial n deps).loop hg n
  have hn := (nodup_append.mp h.nodup).1
  have hlt : ∀ i ∈ (loop n deps n (initial n deps)).order, i < n := fun i hi => h.lt i (by simp [hi])
  rw [sort]
  split_ifs with hl
  · refine (perm_ext_iff_of_nodup ?_ nodup_range).mpr fun i => ?_
    · refine nodup_append.mpr ⟨hn, nodup_range.filter _, fun a ha b hb hab => ?_⟩
      exact absurd (hab ▸ ha) (by simpa using (mem_filter.mp hb).2)
    · by_cases hi : i ∈ (loop n deps n (initial n deps)).order
      · simpa [hi] using hlt i hi
      · simp [hi]
  · refine (hn.subperm fun i hi => mem_range.mpr (hlt i hi)).perm_of_length_le ?_
    rw [length_range, not_not.mp hl]

variable (ha : ∀ i, ¬ Relation.TransGen (fun a b => b ∈ deps a) i i)
include ha

/-- Without a cycle the loop places every node. -/
theorem sort_eq_order : sort n deps = (loop n deps n (initial n deps)).order := by
  have h := (Invariant.initial n deps).loop hg n
  have hr := loop_ready hg n (Invariant.initial n deps) (by simp [initial])
  let below (b a : Fin n) : Prop := Relation.TransGen (fun a b => b ∈ deps a) a.1 b.1
  have : Std.Irrefl below := ⟨fun i => ha i⟩
  -- what nothing is missing for would be ready, so by induction along the graph all nodes are placed
  have hal : ∀ i : Fin n, i.1 ∈ (loop n deps n (initial n deps)).order := by
    intro i
    induction i using (Finite.wellFounded_of_trans_of_irrefl below).induction with
    | h i ih =>
      have hp := (h.ready i.1 i.2).mpr fun d hd => ih ⟨d, hg.lt i.1 d hd⟩ (.single hd)
      rwa [hr, append_nil] at hp
  have hl : n ≤ (loop n deps n (initial n deps)).order.length := by
    have hs := nodup_range.subperm fun i hi => hal ⟨i, mem_range.mp hi⟩
    simpa using hs.length_le
  have hle : (loop n deps n (initial n deps)).order.length ≤ n := by
    have hs := (nodup_append.mp h.nodup).1.subperm fun i hi => mem_range.mpr (h.lt i (by simp [hi]))
    simpa using hs.length_le
  rw [sort, if_neg (not_not.mpr (le_antisymm hle hl))]

theorem sort_closed : Closed (fun i d => d ∈ deps i) (sort n deps) := by
  rw [sort_eq_order hg ha]
  exact ((Invariant.initial n deps).loop hg n).closed

/-- Ties are broken by number. -/
theorem sort_least {l l' : List ℕ} (heq : sort n deps = l ++ i :: l') {k : ℕ} (hk : k < n) (hkl : k ∉ l)
    (hd : ∀ d ∈ deps k, d ∈ l) : i ≤ k := by
  rw [sort_eq_order hg ha] at heq
  have he : Eager n deps (initial n deps) :=
    ⟨pairwise_le_range.filter _, fun l i l' heq => by simp [initial] at heq⟩
  exact (he.loop hg n (.initial n deps)).least l i l' heq k hk hkl hd

end

end Kahn

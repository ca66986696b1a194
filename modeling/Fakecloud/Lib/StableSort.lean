import Mathlib.Data.List.Sort
import Mathlib.Tactic

/-!
# Stable sorting by a comparison

Elements that compare equal keep the order they came in.  Where the comparison is a total preorder
this determines the result, so that it does not matter which stable algorithm is used.
-/

namespace StableSort

open Std List

variable {α : Type} {cmp : α → α → Ordering}

def stableSort (cmp : α → α → Ordering) (l : List α) : List α :=
  l.insertionSort fun a b => (cmp a b).isLE

theorem stableSort_perm (cmp : α → α → Ordering) (l : List α) :
    (stableSort cmp l).Perm l := perm_insertionSort _ l

variable {l : List α} {a b : α} {earlier : α → α → Prop} {cmp' : α → α → Ordering}

@[simp] theorem mem_stableSort : a ∈ stableSort cmp l ↔ a ∈ l := (stableSort_perm cmp l).mem_iff

/-- Below, or equal and earlier. -/
def Before (cmp : α → α → Ordering) (earlier : α → α → Prop) (a b : α) : Prop :=
  cmp a b = .lt ∨ cmp a b = .eq ∧ earlier a b

theorem Before.isLE (h : Before cmp earlier a b) : (cmp a b).isLE := by
  rcases h with h | ⟨h, -⟩ <;> simp [h]

theorem before_of_isLE (h : (cmp a b).isLE)
    (he : earlier a b) : Before cmp earlier a b := by
  rcases hc : cmp a b with _ | _ | _
  · exact .inl hc
  · exact .inr ⟨hc, he⟩
  · rw [hc] at h
    cases h

theorem Before.trans [TransCmp cmp] (ht : ∀ a b c, earlier a b → earlier b c → earlier a c) {c : α}
    (hab : Before cmp earlier a b) (hbc : Before cmp earlier b c) : Before cmp earlier a c := by
  rcases hab with hab | ⟨hab, heb⟩
  · exact .inl (TransCmp.lt_of_lt_of_isLE hab hbc.isLE)
  · rcases hbc with hbc | ⟨hbc, he⟩
    · exact .inl (TransCmp.lt_of_eq_of_lt hab hbc)
    · exact .inr ⟨TransCmp.eq_trans hab hbc, ht a b c heb he⟩

theorem orderedInsert_before [TransCmp cmp] (hl : l.Pairwise (Before cmp earlier))
    (ha : ∀ b ∈ l, earlier a b) :
    (l.orderedInsert (fun a b => (cmp a b).isLE) a).Pairwise (Before cmp earlier) := by
  induction l with
  | nil => exact pairwise_singleton _ _
  | cons b l ih =>
    obtain ⟨hb, hl'⟩ := pairwise_cons.mp hl
    rw [orderedInsert_cons]
    split
    · next hle =>
      refine pairwise_cons.mpr ⟨fun c hc => ?_, hl⟩
      refine before_of_isLE ?_ (ha c hc)
      rcases mem_cons.mp hc with rfl | hc
      · exact hle
      · exact TransCmp.isLE_trans hle (hb c hc).isLE
    · next hn =>
      refine pairwise_cons.mpr
        ⟨fun c hc => ?_, ih hl' fun c hc => ha c (mem_cons_of_mem _ hc)⟩
      rcases (mem_orderedInsert _).mp hc with rfl | hc
      · have hgt : cmp c b = .gt := by
          cases hcb : cmp c b <;> simp [hcb] at hn ⊢
        exact .inl (OrientedCmp.lt_of_gt hgt)
      · exact hb c hc

/-- **Order and stability** together. -/
theorem stableSort_before [TransCmp cmp]
    (h : l.Pairwise earlier) : (stableSort cmp l).Pairwise (Before cmp earlier) := by
  induction l with
  | nil => exact .nil
  | cons a l ih =>
    obtain ⟨ha, hl⟩ := pairwise_cons.mp h
    refine orderedInsert_before (ih hl) fun b hb => ha b ?_
    exact mem_stableSort.mp hb

theorem orderedInsert_congr (h : ∀ b ∈ l, cmp a b = cmp' a b) :
    l.orderedInsert (fun a b => (cmp a b).isLE) a =
      l.orderedInsert (fun a b => (cmp' a b).isLE) a := by
  induction l with
  | nil => rfl
  | cons b l ih =>
    rw [orderedInsert_cons, orderedInsert_cons, h b mem_cons_self, ih fun c hc => h c (mem_cons_of_mem _ hc)]

theorem stableSort_congr
    (h : ∀ a ∈ l, ∀ b ∈ l, cmp a b = cmp' a b) : stableSort cmp l = stableSort cmp' l := by
  induction l with
  | nil => rfl
  | cons a l ih =>
    have hl := ih fun b hb c hc => h b (mem_cons_of_mem _ hb) c (mem_cons_of_mem _ hc)
    unfold stableSort at hl ⊢
    rw [insertionSort_cons, insertionSort_cons, ← hl]
    refine orderedInsert_congr fun b hb => h a mem_cons_self b (mem_cons_of_mem _ ?_)
    exact (mem_insertionSort _).mp hb

/-- A list that is strictly increasing already is the sorted one of each of its arrangements. -/
theorem stableSort_eq_of_perm [TransCmp cmp] {sorted : List α} (hp : sorted.Perm l)
    (hs : sorted.Pairwise fun a b => cmp a b = .lt) : stableSort cmp l = sorted := by
  have hlt : sorted.Pairwise fun a b => (cmp a b).isLE := hs.imp fun h => by simp [h]
  have hle : (stableSort cmp l).Pairwise fun a b => (cmp a b).isLE :=
    (stableSort_before (pairwise_of_forall fun _ _ => trivial)).imp Before.isLE
  refine List.Perm.eq_of_pairwise (fun a b ha hb hab hba => ?_) hle hlt
    ((stableSort_perm cmp l).trans hp.symm)
  -- two elements that are below one another are one, since the list is strict
  by_contra hne
  have ha' : a ∈ sorted := hp.mem_iff.mpr (mem_stableSort.mp ha)
  have hsy : Std.Symm fun a b => cmp a b ≠ .eq := ⟨fun _ _ h h' => h (OrientedCmp.eq_symm h')⟩
  have hst : sorted.Pairwise fun a b => cmp a b ≠ .eq := hs.imp fun h h' => by simp [h] at h'
  exact hst.forall ha' hb hne (OrientedCmp.isLE_antisymm hab hba)

end StableSort

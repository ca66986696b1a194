import Mathlib.Data.List.Basic
import Mathlib.Tactic

/-!
# Parent links

A node has at most one parent.  A loop climbs from a node until it meets the root or a node without a
parent; on a cycle it never stops.
-/

namespace Ancestry

variable {α : Type}

/-- The nodes that the loop passes and whether it ends at the root; `none` when it needs more steps. -/
def climb [DecidableEq α] (root : α) (parent : α → Option α) : ℕ → α → Option (List α × Bool)
  | 0, _ => none
  | n + 1, x =>
    if x = root then some ([x], true)
    else match parent x with
      | none => some ([x], false)
      | some p => (climb root parent n p).map fun r => (x :: r.1, r.2)

/-- The nodes from `x` up to the root. -/
inductive Chain (root : α) (parent : α → Option α) : α → List α → Prop
  | root : Chain root parent root [root]
  | up {x p : α} {l : List α} : x ≠ root → parent x = some p → Chain root parent p l →
    Chain root parent x (x :: l)

variable {root : α} {parent parent' : α → Option α} {x : α} {l : List α}

theorem Chain.climb [DecidableEq α] (h : Chain root parent x l) {n : ℕ} (hn : l.length ≤ n) :
    climb root parent n x = some (l, true) := by
  induction h generalizing n with
  | root =>
    obtain ⟨m, rfl⟩ := Nat.exists_eq_add_of_le' hn
    simp [Ancestry.climb]
  | up hne hp _ ih =>
    obtain ⟨m, rfl⟩ := Nat.exists_eq_add_of_le' (Nat.one_le_of_lt hn)
    rw [Ancestry.climb, if_neg hne, hp]
    simp only [ih (Nat.le_of_succ_le_succ hn), Option.map_some]

/-- A change of the links that keeps those along the chain keeps the chain. -/
theorem Chain.congr (h : Chain root parent x l)
    (hs : ∀ y ∈ l, ∀ p, parent y = some p → parent' y = some p) : Chain root parent' x l := by
  induction h with
  | root => exact .root
  | up hne hp _ ih =>
    refine .up hne (hs _ List.mem_cons_self _ hp) (ih fun y hy => ?_)
    exact hs y (List.mem_cons_of_mem _ hy)

theorem Chain.child (h : Chain root parent x l) {y : α} (hy : y ∈ l) : y = x ∨ ∃ z, parent z = some y := by
  induction h with
  | root => exact .inl (List.mem_singleton.mp hy)
  | @up x p l _ hp _ ih =>
    rcases List.mem_cons.mp hy with rfl | hy
    · exact .inl rfl
    · rcases ih hy with rfl | ⟨z, hz⟩
      · exact .inr ⟨x, hp⟩
      · exact .inr ⟨z, hz⟩

/-- Links from all nodes lead to the root. -/
def Rooted (root : α) (parent : α → Option α) : Prop :=
  ∀ x p, parent x = some p → ∃ l, Chain root parent x l

theorem Rooted.chain (h : Rooted root parent) (hx : x = root ∨ (parent x).isSome) :
    ∃ l, Chain root parent x l := by
  rcases hx with rfl | hx
  · exact ⟨_, .root⟩
  · obtain ⟨p, hp⟩ := Option.isSome_iff_exists.mp hx
    exact h x p hp

theorem Rooted.insert (h : Rooted root parent) {p : α} (hn : parent x = none)
    (hp : p = root ∨ (parent p).isSome) (hx : parent' x = some p)
    (ho : ∀ y, y ≠ x → parent' y = parent y) : Rooted root parent' := by
  have hk : ∀ {y l}, Chain root parent y l → Chain root parent' y l := by
    intro y l hc
    refine hc.congr fun z _ q hz => ?_
    have hne : z ≠ x := by
      rintro rfl
      rw [hn] at hz
      cases hz
    rw [ho z hne, hz]
  intro y q hy
  by_cases hyx : y = x
  · subst hyx
    by_cases hr : y = root
    · rw [hr]
      exact ⟨_, .root⟩
    · obtain ⟨l, hl⟩ := h.chain hp
      exact ⟨_, .up hr hx (hk hl)⟩
  · rw [ho y hyx] at hy
    obtain ⟨l, hl⟩ := h y q hy
    exact ⟨l, hk hl⟩

/-- Chains that survive the removal of a node without children. -/
theorem Chain.erase (h : Chain root parent x l) {leaf : α} (hx : x ≠ leaf)
    (hl : ∀ z, parent z ≠ some leaf) (ho : ∀ y, y ≠ leaf → parent' y = parent y) : Chain root parent' x l :=
  h.congr fun y hy p hp => by
    have hne : y ≠ leaf := by
      rintro rfl
      rcases h.child hy with rfl | ⟨z, hz⟩
      · exact hx rfl
      · exact hl z hz
    rw [ho y hne, hp]

theorem Rooted.erase (h : Rooted root parent) {leaf : α} (hlf : ∀ z, parent z ≠ some leaf)
    (hg : parent' leaf = none) (ho : ∀ y, y ≠ leaf → parent' y = parent y) : Rooted root parent' := by
  intro y q hy
  by_cases hyl : y = leaf
  · rw [hyl, hg] at hy
    cases hy
  · rw [ho y hyl] at hy
    obtain ⟨l, hl⟩ := h y q hy
    exact ⟨l, hl.erase hyl hlf ho⟩

end Ancestry

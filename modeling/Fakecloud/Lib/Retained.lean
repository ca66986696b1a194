import Mathlib.Data.List.Basic
import Mathlib.Tactic

/-!
# Reading a list whose front is taken off

A reader holds an index into a window of a growing list.  The window loses a prefix from time to time, and
the index is moved by as much, never below zero.

* `Thinned` — a list with some elements left out, each for a reason;
* `drop_trimmed` — what the reader loses when the front is taken off lies in what is taken off.
-/

namespace Retained

open List

variable {α : Type} {p q : α → Prop} {out out' l l' : List α}

/-- `Thinned p out l`: the list `out` is `l` without some elements that have `p`. -/
inductive Thinned (p : α → Prop) : List α → List α → Prop
  | nil : Thinned p [] []
  | keep {a : α} {out l : List α} (h : Thinned p out l) : Thinned p (a :: out) (a :: l)
  | skip {a : α} {out l : List α} (ha : p a) (h : Thinned p out l) : Thinned p out (a :: l)

namespace Thinned

theorem refl : ∀ l : List α, Thinned p l l
  | [] => .nil
  | _ :: l => .keep (refl l)

theorem skipAll : ∀ {l : List α}, (∀ a ∈ l, p a) → Thinned p [] l
  | [], _ => .nil
  | _ :: _, h => .skip (h _ mem_cons_self) (skipAll fun a ha => h a (mem_cons_of_mem _ ha))

theorem append (h : Thinned p out l) (h' : Thinned p out' l') : Thinned p (out ++ out') (l ++ l') := by
  induction h with
  | nil => exact h'
  | keep _ ih => exact .keep ih
  | skip ha _ ih => exact .skip ha ih

theorem mono (h : Thinned p out l) (hpq : ∀ a, p a → q a) : Thinned q out l := by
  induction h with
  | nil => exact .nil
  | keep _ ih => exact .keep ih
  | skip ha _ ih => exact .skip (hpq _ ha) ih

theorem append_skip (h : Thinned p out l) (hs : ∀ a ∈ l', p a) : Thinned p out (l ++ l') := by
  have := h.append (skipAll hs)
  rwa [append_nil] at this

end Thinned

/-- **The front is taken off**: of what lies ahead of an index, a part of the front is lost. -/
theorem drop_trimmed (w : List α) (i t : ℕ) : w.drop i = (w.take t).drop i ++ (w.drop t).drop (i - t) := by
  by_cases h : i ≤ t
  · rw [Nat.sub_eq_zero_of_le h]
    calc w.drop i = ((w.take t) ++ w.drop t).drop i := by rw [take_append_drop]
      _ = (w.take t).drop i ++ (w.drop t).drop (i - (w.take t).length) := drop_append
      _ = (w.take t).drop i ++ w.drop t := by
        by_cases ht : t ≤ w.length
        · rw [length_take_of_le ht, Nat.sub_eq_zero_of_le h, drop_zero]
        · rw [drop_eq_nil_of_le (show w.length ≤ t by omega), drop_nil]
  · have hn : (w.take t).drop i = [] := drop_eq_nil_of_le (by rw [length_take]; omega)
    rw [hn, drop_drop]
    congr 1
    omega

end Retained

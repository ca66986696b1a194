import Mathlib.Data.List.Nodup
import Mathlib.Tactic.Common

/-!
# Versions of one thing

A stack of versions with one version for each id.  Writing a version takes the place of the one with its
id and puts it on top; removing takes the version of an id away.

* `replay_put`: what is written is there at the end, unless its id is written or removed later.
-/

/-- The versions from the oldest to the latest. -/
@[ext]
structure Versions {α ι : Type} (ident : α → ι) where
  entries : List α
  nodup : (entries.map ident).Nodup

namespace Versions

open List Option

variable {α ι : Type} [DecidableEq ι] {ident : α → ι}

def empty : Versions ident := ⟨[], .nil⟩

def get (v : Versions ident) (i : ι) : Option α := v.entries.find? fun a => ident a = i

def erase (v : Versions ident) (i : ι) : Versions ident where
  entries := v.entries.filter fun a => ident a ≠ i
  nodup := v.nodup.sublist ((List.filter_sublist).map ident)

def put (v : Versions ident) (a : α) : Versions ident where
  entries := (v.erase (ident a)).entries ++ [a]
  nodup := by
    rw [List.map_append, List.map_singleton, List.nodup_append]
    refine ⟨(v.erase (ident a)).nodup, List.nodup_singleton _, ?_⟩
    rintro i hi j hj rfl
    obtain ⟨b, hb, rfl⟩ := List.mem_map.mp hi
    rw [List.mem_singleton] at hj
    simpa [hj] using (List.mem_filter.mp hb).2

variable {v : Versions ident} {a : α} {i j : ι}

@[simp] theorem entries_erase (v : Versions ident) (i : ι) :
    (v.erase i).entries = v.entries.filter fun a => ident a ≠ i := rfl

@[simp] theorem entries_put (v : Versions ident) (a : α) :
    (v.put a).entries = (v.entries.filter fun b => ident b ≠ ident a) ++ [a] := rfl

theorem entries_put_of_fresh (h : ∀ b ∈ v.entries, ident b ≠ ident a) :
    (v.put a).entries = v.entries ++ [a] := by
  rw [entries_put, filter_eq_self.mpr (by simpa using h)]

theorem get_eq_some : v.get i = some a ↔ a ∈ v.entries ∧ ident a = i := by
  refine ⟨fun h => ⟨mem_of_find?_eq_some h, by simpa using find?_some h⟩, ?_⟩
  rintro ⟨ha, rfl⟩
  obtain ⟨b, hb⟩ : ∃ b, v.entries.find? (fun b => ident b = ident a) = some b :=
    isSome_iff_exists.mp (find?_isSome.mpr ⟨a, ha, by simp⟩)
  have hi : ident b = ident a := by simpa using find?_some hb
  rw [get, hb, inj_on_of_nodup_map v.nodup (mem_of_find?_eq_some hb) ha hi]

theorem find?_and (v : Versions ident) (i : ι) (q : α → Bool) :
    v.entries.find? (fun a => ident a = i && q a) = (v.get i).filter q := by
  ext a
  simp only [filter_eq_some_iff, get_eq_some]
  constructor
  · intro h
    have hi := find?_some h
    simp only [Bool.and_eq_true, decide_eq_true_eq] at hi
    exact ⟨⟨mem_of_find?_eq_some h, hi.1⟩, hi.2⟩
  · rintro ⟨⟨ha, rfl⟩, hq⟩
    obtain ⟨b, hb⟩ : ∃ b, v.entries.find? (fun b => ident b = ident a && q b) = some b :=
      isSome_iff_exists.mp (find?_isSome.mpr ⟨a, ha, by simp [hq]⟩)
    have hid := find?_some hb
    simp only [Bool.and_eq_true, decide_eq_true_eq] at hid
    rw [hb, inj_on_of_nodup_map v.nodup (mem_of_find?_eq_some hb) ha hid.1]

theorem get_erase_of_ne (h : i ≠ j) : (v.erase j).get i = v.get i := by
  ext a
  rw [get_eq_some, get_eq_some]
  simp only [erase, mem_filter, decide_not, Bool.not_eq_true', decide_eq_false_iff_not]
  refine ⟨fun ⟨ha, hi⟩ => ⟨ha.1, hi⟩, fun ⟨ha, hi⟩ => ⟨⟨ha, ?_⟩, hi⟩⟩
  rw [hi]
  exact h

theorem get_put_of_ne (h : ident a ≠ i) : (v.put a).get i = v.get i := by
  rw [← get_erase_of_ne (v := v) h.symm]
  simp [h, get]

/-! ## Histories -/

inductive Op (α ι : Type)
  | put (a : α)
  | erase (i : ι)

variable (ident) in
/-- The id that an operation is about. -/
def Op.target : Op α ι → ι
  | .put a => ident a
  | .erase i => i

def apply (v : Versions ident) : Op α ι → Versions ident
  | .put a => v.put a
  | .erase i => v.erase i

def replay (v : Versions ident) (ops : List (Op α ι)) : Versions ident := ops.foldl apply v

theorem get_apply_of_ne {op : Op α ι} (h : op.target ident ≠ i) : (v.apply op).get i = v.get i := by
  cases op with
  | put a => exact get_put_of_ne h
  | erase j => exact get_erase_of_ne (Ne.symm h)

theorem get_replay_of_ne {ops : List (Op α ι)} (h : ∀ op ∈ ops, op.target ident ≠ i) :
    (v.replay ops).get i = v.get i := by
  induction ops generalizing v with
  | nil => rfl
  | cons op ops ih =>
    rw [forall_mem_cons] at h
    exact (ih h.2).trans (get_apply_of_ne h.1)

/-- A version that is written stays, as long as nothing later is about its id. -/
theorem replay_put {before later : List (Op α ι)} (h : ∀ op ∈ later, op.target ident ≠ ident a) :
    (v.replay (before ++ .put a :: later)).get (ident a) = some a := by
  rw [replay, foldl_append]
  exact (get_replay_of_ne h).trans (get_eq_some.mpr ⟨mem_append_right _ (mem_singleton_self a), rfl⟩)

end Versions

import Mathlib.Data.List.Basic
import Mathlib.Data.List.Nodup
import Mathlib.Tactic

/-!
# Paging through a set that changes

A client reads a set page by page, in the order of its elements.  Each page is a first part of what is
there above the cursor, and the next cursor is the page's last element.  The set may be another one
for every page.

A walk returns its elements in strictly increasing order (`Walk.sorted`), and when it has ended every
element that was there for each page has been returned (`Walk.complete`).
-/

namespace Paging

open List

variable {α : Type} {lt : α → α → Prop}

/-- Behind the cursor; everything is when there is none. -/
def Above (lt : α → α → Prop) : Option α → α → Prop
  | none, _ => True
  | some cursor, k => lt cursor k

/-- A page and the next cursor, over the elements that are there. -/
inductive IsPage (lt : α → α → Prop) (there : α → Prop) (cursor : Option α) :
    List α → Option α → Prop
  | last {page : List α} (sorted : page.Pairwise lt)
      (mem : ∀ k, k ∈ page ↔ there k ∧ Above lt cursor k) : IsPage lt there cursor page none
  | more {front rest : List α} {d : α} (sorted : (front ++ d :: rest).Pairwise lt)
      (mem : ∀ k, k ∈ front ++ d :: rest ↔ there k ∧ Above lt cursor k) :
      IsPage lt there cursor (front ++ [d]) (some d)

/-- Page after page, each over what is there for it: what was returned, and whether the end was
reached. -/
inductive Walk (lt : α → α → Prop) : Option α → List (α → Prop) → List α → Bool → Prop
  | stop (cursor : Option α) : Walk lt cursor [] [] false
  | last {cursor : Option α} {there : α → Prop} {page : List α}
      (h : IsPage lt there cursor page none) : Walk lt cursor [there] page true
  | more {cursor : Option α} {there : α → Prop} {page : List α} {d : α} {later : List (α → Prop)}
      {returned : List α} {ended : Bool} (h : IsPage lt there cursor page (some d))
      (hlater : Walk lt (some d) later returned ended) :
      Walk lt cursor (there :: later) (page ++ returned) ended

section

variable {there : α → Prop} {cursor next : Option α} {page returned : List α}
  {sets : List (α → Prop)} {ended : Bool}

theorem IsPage.spec (h : IsPage lt there cursor page next) :
    page.Pairwise lt ∧ ∀ k ∈ page, there k ∧ Above lt cursor k := by
  cases h with
  | last hs hm => exact ⟨hs, fun k hk => (hm k).mp hk⟩
  | @more front rest d hs hm =>
    have hsb : (front ++ [d]).Sublist (front ++ d :: rest) :=
      (List.Sublist.refl front).append (singleton_sublist.mpr mem_cons_self)
    exact ⟨hs.sublist hsb, fun k hk => (hm k).mp (hsb.subset hk)⟩

variable {d k x : α} {all : List α}

/-- What a page with another behind it leaves is above its last element, and the page is not above
it. -/
theorem IsPage.cut (h : IsPage lt there cursor page (some d)) :
    (k ∈ page → k = d ∨ lt k d) ∧ (there k → Above lt cursor k → k ∈ page ∨ lt d k) := by
  cases h with
  | @more front rest _ hs hm =>
    obtain ⟨-, hd, hf⟩ := pairwise_append.mp hs
    refine ⟨fun hk => ?_, fun ht ha => ?_⟩
    · rcases mem_append.mp hk with hk | hk
      · exact .inr (hf k hk d mem_cons_self)
      · exact .inl (mem_singleton.mp hk)
    · rcases mem_append.mp ((hm k).mpr ⟨ht, ha⟩) with hk | hk
      · exact .inl (mem_append_left _ hk)
      · rcases mem_cons.mp hk with rfl | hk
        · exact .inl (mem_append_right _ mem_cons_self)
        · exact .inr (rel_of_pairwise_cons hd hk)

theorem IsPage.cursor_mem (h : IsPage lt there cursor page (some d)) : d ∈ page := by
  cases h with
  | more => exact mem_append_right _ mem_cons_self

theorem isPage_take {n : ℕ} (hs : all.Pairwise lt)
    (hm : ∀ k, k ∈ all ↔ there k ∧ Above lt cursor k) (hp : all ≠ [] → 0 < n) :
    IsPage lt there cursor (all.take n) (if n < all.length then (all.take n).getLast? else none) := by
  split
  · next hn =>
    have hne : all ≠ [] := ne_nil_of_length_pos (by omega)
    obtain ⟨m, rfl⟩ : ∃ m, n = m + 1 := ⟨n - 1, by have := hp hne; omega⟩
    have ht : all.take (m + 1) = all.take m ++ [all[m]] := take_succ_eq_append_getElem (by omega)
    have hsp : all = all.take m ++ all[m] :: all.drop (m + 1) := by
      rw [← drop_eq_getElem_cons (by omega), take_append_drop]
    rw [ht, getLast?_concat]
    rw [hsp] at hs
    rw [hsp] at hm
    exact .more hs hm
  · rw [take_of_length_le (by omega)]
    exact .last hs hm

/-- **No element twice**: a walk goes up from its cursor. -/
theorem Walk.sorted (ht : ∀ a b c, lt a b → lt b c → lt a c)
    (h : Walk lt cursor sets returned ended) : returned.Pairwise lt ∧ ∀ k ∈ returned, Above lt cursor k := by
  induction h with
  | stop => exact ⟨.nil, nofun⟩
  | last h => exact ⟨h.spec.1, fun k hk => (h.spec.2 k hk).2⟩
  | @more cursor there page d later returned ended h _ ih =>
    have hab : Above lt cursor d := (h.spec.2 d h.cursor_mem).2
    refine ⟨pairwise_append.mpr ⟨h.spec.1, ih.1, fun a ha b hb => ?_⟩, fun k hk => ?_⟩
    · have hb' : lt d b := ih.2 b hb
      rcases h.cut.1 ha with rfl | ha'
      · exact hb'
      · exact ht a d b ha' hb'
    · rcases mem_append.mp hk with hk | hk
      · exact (h.spec.2 k hk).2
      · cases cursor with
        | none => trivial
        | some c => exact ht c d k hab (ih.2 k hk)

/-- **No element left out**: what is there for every page of a walk that ended was returned. -/
theorem Walk.complete (h : Walk lt cursor sets returned true)
    (hth : ∀ there ∈ sets, there k) (ha : Above lt cursor k) : k ∈ returned := by
  generalize he : true = ended at h
  induction h with
  | stop => cases he
  | last h =>
    cases h with
    | last hs hm => exact (hm k).mpr ⟨hth _ mem_cons_self, ha⟩
  | @more cursor there page d later returned ended h _ ih =>
    rcases h.cut.2 (hth _ mem_cons_self) ha with hk | hk
    · exact mem_append_left _ hk
    · exact mem_append_right _
        (ih (fun there ht => hth there (mem_cons_of_mem _ ht)) hk he)

/-- **Progress**: a walk that has not ended has returned an element for every page. -/
theorem Walk.progress (h : Walk lt cursor sets returned false) : sets.length ≤ returned.length := by
  generalize he : false = ended at h
  induction h with
  | stop => exact le_rfl
  | last => cases he
  | more h _ ih =>
    have := length_pos_of_mem h.cursor_mem
    have := ih he
    rw [length_cons, length_append]
    omega

/-! ## Resuming -/

theorem mem_drop_iff_lt (hs : all.Pairwise lt) (hi : ∀ a, ¬ lt a a)
    (ht : ∀ a b c, lt a b → lt b c → lt a c) {pos : ℕ} {c : α} (hp : all[pos]? = some c) :
    x ∈ all.drop (pos + 1) ↔ x ∈ all ∧ lt c x := by
  obtain ⟨hlt, hc⟩ := List.getElem?_eq_some_iff.mp hp
  have hsp : all = all.take pos ++ c :: all.drop (pos + 1) := by
    rw [← hc, ← drop_eq_getElem_cons hlt, take_append_drop]
  rw [hsp] at hs
  obtain ⟨-, hb, hf⟩ := pairwise_append.mp hs
  constructor
  · intro hx
    exact ⟨mem_of_mem_drop hx, rel_of_pairwise_cons hb hx⟩
  · rintro ⟨hx, hcx⟩
    rw [hsp] at hx
    rcases mem_append.mp hx with hx | hx
    · exact absurd (ht c x c hcx (hf x hx c mem_cons_self)) (hi c)
    · rcases mem_cons.mp hx with rfl | hx
      · exact absurd hcx (hi x)
      · exact hx

/-- What is dropped from a list in which a property holds up to some element. -/
theorem mem_dropWhile_iff {p : α → Bool}
    (h : all.Pairwise fun a b => p b → p a) : x ∈ all.dropWhile p ↔ x ∈ all ∧ p x = false := by
  induction all with
  | nil => simp
  | cons a all ih =>
    obtain ⟨ha, hal⟩ := pairwise_cons.mp h
    rw [dropWhile_cons]
    split
    · next hpa =>
      rw [ih hal, mem_cons]
      constructor
      · rintro ⟨hx, hpx⟩
        exact ⟨.inr hx, hpx⟩
      · rintro ⟨rfl | hx, hpx⟩
        · rw [hpa] at hpx
          cases hpx
        · exact ⟨hx, hpx⟩
    · next hpa =>
      refine ⟨fun hx => ⟨hx, ?_⟩, fun hx => hx.1⟩
      rcases mem_cons.mp hx with rfl | hx
      · exact Bool.eq_false_iff.mpr hpa
      · exact Bool.eq_false_iff.mpr fun hpx => hpa (ha x hx hpx)

end

end Paging

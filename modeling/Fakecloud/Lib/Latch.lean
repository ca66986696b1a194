import Mathlib.Data.List.Pairwise
import Mathlib.Tactic

/-!
# Latches

A latch remembers, for each key, the value it was last offered.  An offer passes when its value differs
from the remembered one.  Latches are used to let something happen once per period: the value names the
period.

* `passed` — the offers that pass, `after` — what the latch remembers then;
* `filter_passed` — the offers of one key do not see the others;
* `filter_passedOne` — of the offers of one slot at most the first passes, and it does unless the last
  offer before the slot had its value;
* `once_iff` — when everything that is offered passes exactly once per slot.
-/

namespace Latch

open List Option

section Keys

variable {α κ ν : Type} [DecidableEq κ] [DecidableEq ν] (key : α → κ) (val : α → ν)

def offer (m : κ → Option ν) (a : α) : κ → Option ν := Function.update m (key a) (some (val a))

def passed (m : κ → Option ν) : List α → List α
  | [] => []
  | a :: l =>
    if m (key a) = some (val a) then passed m l else a :: passed (offer key val m a) l

def after (m : κ → Option ν) (l : List α) : κ → Option ν := l.foldl (offer key val) m

def passedOne (val : α → ν) (last : Option ν) : List α → List α
  | [] => []
  | a :: l =>
    if last = some (val a) then passedOne val last l else a :: passedOne val (some (val a)) l

variable {key val} {m : κ → Option ν}

omit [DecidableEq ν] in
theorem offer_of_eq {a : α} (h : m (key a) = some (val a)) : offer key val m a = m := by
  rw [offer, ← h, Function.update_eq_self]

theorem passed_append (l l' : List α) :
    passed key val m (l ++ l') = passed key val m l ++ passed key val (after key val m l) l' := by
  induction l generalizing m with
  | nil => rfl
  | cons a l ih =>
    rw [cons_append, passed, passed, after, foldl_cons]
    split
    · next h =>
      rw [ih, offer_of_eq h]
      rfl
    · rw [ih]
      rfl

/-- **The offers of one key do not see the others.** -/
theorem filter_passed (k : κ) (l : List α) : (passed key val m l).filter (fun a => key a = k) =
      passedOne val (m k) (l.filter fun a => key a = k) := by
  induction l generalizing m with
  | nil => rfl
  | cons a l ih =>
    rw [passed]
    by_cases hk : key a = k
    · rw [filter_cons_of_pos (by simpa using hk), passedOne, hk]
      split
      · rw [ih]
      · rw [filter_cons_of_pos (by simpa using hk), ih, offer, hk, Function.update_self]
    · rw [filter_cons_of_neg (by simpa using hk)]
      split
      · rw [ih]
      · rw [filter_cons_of_neg (by simpa using hk), ih, offer, Function.update_of_ne (Ne.symm hk)]

omit [DecidableEq κ] in
theorem passedOne_sublist (last : Option ν) (l : List α) : (passedOne val last l).Sublist l := by
  induction l generalizing last with
  | nil => exact .slnil
  | cons a l ih =>
    rw [passedOne]
    split
    · exact (ih _).cons a
    · exact (ih _).cons_cons a

end Keys

/-! ## Slots -/

section Slots

variable {α ν ρ σ : Type} [DecidableEq ν] [LinearOrder σ] {val : α → ν} {slot : α → σ} {l : List α} {s : σ}

/-- The value that is remembered when the first offer of a slot comes. -/
def before (val : α → ν) (slot : α → σ) (s : σ) (last : Option ν) (l : List α) : Option ν :=
  ((l.filter fun a => slot a < s).getLast?.map val).or last

omit [DecidableEq ν] in
theorem before_cons_lt {a : α} (h : slot a < s) (last : Option ν) :
    before val slot s last (a :: l) = before val slot s (some (val a)) l := by
  rw [before, before, filter_cons_of_pos (by simpa using h)]
  rcases hl : l.filter fun a => slot a < s with _ | ⟨b, l'⟩
  · rfl
  · simp [getLast?_cons]

omit [DecidableEq ν] in
theorem before_of_le (h : ∀ a ∈ l, s ≤ slot a) (last : Option ν) : before val slot s last l = last := by
  have hn : l.filter (fun a => slot a < s) = [] := filter_eq_nil_iff.mpr fun a ha => by
    simpa using h a ha
  rw [before, hn]
  rfl

/-- **Of the offers of a slot at most the first passes**, and it does unless its value is remembered
from before. -/
theorem filter_passedOne (hv : ∀ a b, slot a = slot b → val a = val b)
    (hs : l.Pairwise fun a b => slot a ≤ slot b) (s : σ) (last : Option ν) :
    (passedOne val last l).filter (fun a => slot a = s) =
      (l.filter fun a => slot a = s).head?.toList.filter fun a =>
        before val slot s last l ≠ some (val a) := by
  induction l generalizing last with
  | nil => rfl
  | cons a l ih =>
    obtain ⟨hf, hr⟩ := pairwise_cons.mp hs
    rcases lt_trichotomy (slot a) s with hlt | heq | hgt
    · -- an earlier slot: its offer is what is remembered
      rw [passedOne, before_cons_lt hlt, filter_cons_of_neg (by simpa using hlt.ne)]
      split
      · next h => rw [ih hr, h]
      · rw [filter_cons_of_neg (by simpa using hlt.ne), ih hr]
    · -- the first of the slot: nothing of the slot passes after it
      have hge : ∀ b ∈ l, s ≤ slot b := fun b hb => heq ▸ hf b hb
      have hn : (passedOne val (some (val a)) l).filter (fun b => slot b = s) = [] := by
        rw [ih hr, before_of_le hge, filter_eq_nil_iff]
        intro b hb
        have hm := mem_of_mem_head? (Option.mem_toList.mp hb)
        have hsl : slot b = s := by simpa using (mem_filter.mp hm).2
        simp [hv b a (hsl.trans heq.symm)]
      have ha : ∀ b ∈ a :: l, s ≤ slot b := forall_mem_cons.mpr ⟨heq.ge, hge⟩
      rw [passedOne, before_of_le ha, filter_cons_of_pos (by simpa using heq)]
      split
      · next h => simp [h, hn]
      · next h => simp [h, heq, hn]
    · -- past the slot
      have hgt' : ∀ b ∈ a :: l, slot b ≠ s := forall_mem_cons.mpr
        ⟨hgt.ne', fun b hb => (hgt.trans_le (hf b hb)).ne'⟩
      have hl : (a :: l).filter (fun b => slot b = s) = [] :=
        filter_eq_nil_iff.mpr fun b hb => by simpa using hgt' b hb
      have hp : (passedOne val last (a :: l)).filter (fun b => slot b = s) = [] :=
        filter_eq_nil_iff.mpr fun b hb => by
          simpa using hgt' b ((passedOne_sublist last _).subset hb)
      rw [hl, hp]
      rfl

omit [DecidableEq ν] in
/-- The remembered value is the one of the nearest slot before. -/
theorem before_eq_some_iff (hv : ∀ a b, slot a = slot b → val a = val b)
    (hs : l.Pairwise fun a b => slot a ≤ slot b) {v : ν} : before val slot s none l = some v ↔
      ∃ a ∈ l, slot a < s ∧ (∀ c ∈ l, slot a < slot c → s ≤ slot c) ∧ val a = v := by
  rw [before, Option.or_none, map_eq_some_iff]
  constructor
  · rintro ⟨a, hl, rfl⟩
    obtain ⟨front, hf⟩ := getLast?_eq_some_iff.mp hl
    have hm : a ∈ l.filter fun a => slot a < s := by simp [hf]
    have hsl : slot a < s := by simpa using (mem_filter.mp hm).2
    refine ⟨a, mem_of_mem_filter hm, hsl, fun c hc hac => ?_, rfl⟩
    by_contra hcs
    have hc' : c ∈ front ++ [a] := hf ▸ mem_filter.mpr ⟨hc, by simpa using hcs⟩
    rcases mem_append.mp hc' with hc' | hc'
    · have hp := hs.sublist (filter_sublist (p := fun a => slot a < s))
      rw [hf, pairwise_append] at hp
      exact absurd (hp.2.2 c hc' a (mem_singleton_self a)) (not_le.mpr hac)
    · rw [mem_singleton.mp hc'] at hac
      exact lt_irrefl _ hac
  · rintro ⟨a, ha, hsl, hn, rfl⟩
    have hm : a ∈ l.filter fun a => slot a < s := mem_filter.mpr ⟨ha, by simpa using hsl⟩
    obtain ⟨b, hl⟩ := isSome_iff_exists.mp
      (getLast?_isSome.mpr (ne_nil_of_mem hm))
    obtain ⟨front, hf⟩ := getLast?_eq_some_iff.mp hl
    have hb : b ∈ l.filter fun a => slot a < s := by simp [hf]
    obtain ⟨hbl, hbs⟩ := mem_filter.mp hb
    refine ⟨b, hl, hv b a (le_antisymm ?_ ?_)⟩
    · by_contra hab
      exact absurd (hn b hbl (not_le.mp hab)) (by simpa using hbs)
    · rw [hf] at hm
      rcases mem_append.mp hm with hm | hm
      · have hp := hs.sublist (filter_sublist (p := fun a => slot a < s))
        rw [hf, pairwise_append] at hp
        exact hp.2.2 a hm b (mem_singleton_self b)
      · rw [mem_singleton.mp hm]

variable (who : α → ρ) [DecidableEq ρ]

/-- Each of those who offer in a slot passes once in it. -/
def Once (slot : α → σ) (l out : List α) : Prop :=
  ∀ r s, (out.filter fun a => slot a = s).countP (fun a => who a = r) =
    if ∃ a ∈ l, who a = r ∧ slot a = s then 1 else 0

/-- One slot: whoever offers is the one who offers first, and the first one passes. -/
theorem countP_head_iff {p : α → Bool} {F : List α}
    (hF : l.filter (fun a => slot a = s) = F) : (∀ r, (F.head?.toList.filter p).countP (fun a => who a = r) =
        if ∃ a ∈ l, who a = r ∧ slot a = s then 1 else 0) ↔
      ∀ b ∈ F.head?, p b ∧ ∀ a ∈ l, slot a = s → who a = who b := by
  have hm : ∀ a, a ∈ F ↔ a ∈ l ∧ slot a = s := fun a => by rw [← hF]; simp
  rcases F with _ | ⟨b, F⟩
  · have hn : ∀ r, ¬ ∃ a ∈ l, who a = r ∧ slot a = s := fun r ⟨a, ha, _, hs⟩ => by
      simpa using (hm a).mpr ⟨ha, hs⟩
    simp [hn]
  · have hb := (hm b).mp mem_cons_self
    have hw : ∃ a ∈ l, who a = who b ∧ slot a = s := ⟨b, hb.1, rfl, hb.2⟩
    simp only [head?_cons, Option.toList_some, Option.mem_some, forall_eq']
    constructor
    · intro h
      have hp : p b := by
        by_contra hp
        have := h (who b)
        rw [filter_cons_of_neg (by simpa using hp), if_pos hw] at this
        simp at this
      refine ⟨hp, fun a ha hs => ?_⟩
      have := h (who a)
      rw [filter_cons_of_pos hp, if_pos ⟨a, ha, rfl, hs⟩] at this
      by_contra hne
      simp [Ne.symm hne] at this
    · rintro ⟨hp, hsm⟩ r
      rw [filter_cons_of_pos hp]
      by_cases hr : who b = r
      · subst hr
        rw [if_pos hw]
        simp
      · rw [if_neg fun ⟨a, ha, har, hs⟩ => hr ((hsm a ha hs).symm.trans har)]
        simp [hr]

/-- **Each one passes once per slot exactly when** no two offer in one slot and neighbouring slots have
different values. -/
theorem once_iff (hvl : ∀ a b, slot a = slot b → val a = val b)
    (hsr : l.Pairwise fun a b => slot a ≤ slot b) : Once who slot l (passedOne val none l) ↔
      (∀ a ∈ l, ∀ b ∈ l, slot a = slot b → who a = who b) ∧
        ∀ a ∈ l, ∀ b ∈ l, slot a < slot b → (∀ c ∈ l, slot a < slot c → slot b ≤ slot c) → val a ≠ val b := by
  have hsl : Once who slot l (passedOne val none l) ↔ ∀ s, ∀ b ∈ (l.filter fun a => slot a = s).head?,
        before val slot s none l ≠ some (val b) ∧ ∀ a ∈ l, slot a = s → who a = who b := by
    rw [Once, forall_comm]
    refine forall_congr' fun s => ?_
    rw [filter_passedOne hvl hsr, countP_head_iff who rfl]
    simp
  rw [hsl]
  constructor
  · intro h
    have hh : ∀ b ∈ l, ∃ b', b' ∈ (l.filter fun a => slot a = slot b).head? ∧ slot b' = slot b :=
      fun b hb => by
      have hne : l.filter (fun a => slot a = slot b) ≠ [] := ne_nil_of_mem (mem_filter.mpr ⟨hb, by simp⟩)
      obtain ⟨b', hb'⟩ := isSome_iff_exists.mp (isSome_head?.mpr hne)
      have hs := (mem_filter.mp (mem_of_mem_head? hb')).2
      exact ⟨b', hb', by simpa using hs⟩
    constructor
    · intro a ha b hb hab
      obtain ⟨b', hb', -⟩ := hh b hb
      have hsm := (h (slot b) b' hb').2
      rw [hsm a ha hab, hsm b hb rfl]
    · intro a ha b hb hlt hn hv
      obtain ⟨b', hb', hs⟩ := hh b hb
      refine (h (slot b) b' hb').1 ((before_eq_some_iff hvl hsr).mpr ?_)
      exact ⟨a, ha, hlt, hn, hv.trans (hvl b b' hs.symm)⟩
  · rintro ⟨hw, hn⟩ s b hb
    obtain ⟨hbl, hbs⟩ := mem_filter.mp (mem_of_mem_head? hb)
    obtain rfl : slot b = s := by simpa using hbs
    refine ⟨fun hbf => ?_, fun a ha hs => hw a ha b hbl hs⟩
    obtain ⟨a, ha, hlt, hnr, hv⟩ := (before_eq_some_iff hvl hsr).mp hbf
    exact hn a ha b hbl hlt hnr hv

end Slots

end Latch

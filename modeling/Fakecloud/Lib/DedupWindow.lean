import Mathlib.Data.List.Nodup
import Mathlib.Tactic

/-!
# Deduplication within a window of time

A cache remembers the result of a send under its key for some time, and a send whose key is remembered
repeats that result.  `Run` are the runs of sends with times that do not decrease, some of which may
bypass the cache; `Run.once_iff` says which pairs of sends with one key are deduplicated.
-/

namespace DedupWindow

open List Option Function

variable {K V : Type} [DecidableEq K]

/-- A result, and when it is forgotten. -/
structure Entry (V : Type) where
  value : V
  expiry : ℤ

abbrev Cache (K V : Type) := K → Option (Entry V)

def Cache.liveAt (c : Cache K V) (now : ℤ) : Cache K V :=
  fun k => (c k).filter fun e => decide (now < e.expiry)

omit [DecidableEq K] in
theorem Cache.liveAt_eq_some {c : Cache K V} {now : ℤ} {k : K} {e : Entry V} :
    c.liveAt now k = some e ↔ c k = some e ∧ now < e.expiry := by
  simp [liveAt]

/-- A send: whether it goes through the cache, the entry of its key that had not expired, whether it
stored something new, and its result. -/
structure Sent (K V : Type) where
  at_ : ℤ
  key : K
  checked : Bool
  live : Option (Entry V)
  stored : Bool
  value : V

variable (window : ℤ) in
/-- Runs of sends from a time and a cache on. -/
inductive Run : ℤ → Cache K V → List (Sent K V) → Prop
  | nil (start : ℤ) (c : Cache K V) : Run start c []
  | quiet {start now : ℤ} {c c' : Cache K V} {log : List (Sent K V)} (hnow : start ≤ now)
    (hcache : c' = c ∨ c' = c.liveAt now) (hrest : Run now c' log) : Run start c log
  | repeated {start now : ℤ} {c : Cache K V} {log : List (Sent K V)} {k : K} {e : Entry V}
    (hnow : start ≤ now) (hlive : c.liveAt now k = some e) (hrest : Run now (c.liveAt now) log) :
    Run start c (⟨now, k, true, some e, false, e.value⟩ :: log)
  | stored {start now : ℤ} {c : Cache K V} {log : List (Sent K V)} {k : K} {v : V}
    (hnow : start ≤ now) (hlive : c.liveAt now k = none)
    (hrest : Run now (Function.update (c.liveAt now) k (some ⟨v, now + window⟩)) log) :
    Run start c (⟨now, k, true, none, true, v⟩ :: log)
  | bypassed {start now : ℤ} {c : Cache K V} {log : List (Sent K V)} (k : K) {v : V}
    (hnow : start ≤ now) (hrest : Run now c log) :
    Run start c (⟨now, k, false, c.liveAt now k, true, v⟩ :: log)

def drawn (log : List (Sent K V)) : List V := (log.filter Sent.stored).map Sent.value

structure Fresh (c : Cache K V) (log : List (Sent K V)) : Prop where
  nodup : (drawn log).Nodup
  cache : ∀ k e, c k = some e → e.value ∉ drawn log

/-- The second of two sends repeats the first. -/
structure Once (a b : Sent K V) : Prop where
  stored : ¬ (a.stored ∧ b.stored)
  checked : b.checked
  value : b.value = a.value

namespace Run

variable {window start : ℤ} {c : Cache K V} {log : List (Sent K V)} {k : K} {e : Entry V} {b a : Sent K V}

theorem start_le (h : Run window start c log) : ∀ b ∈ log, start ≤ b.at_ := by
  induction h with
  | nil => nofun
  | quiet hn _ _ ih => exact fun b hb => hn.trans (ih b hb)
  | repeated hn _ _ ih => exact forall_mem_cons.mpr ⟨hn, fun b hb => hn.trans (ih b hb)⟩
  | stored hn _ _ ih => exact forall_mem_cons.mpr ⟨hn, fun b hb => hn.trans (ih b hb)⟩
  | bypassed _ hn _ ih => exact forall_mem_cons.mpr ⟨hn, fun b hb => hn.trans (ih b hb)⟩

open Cache

theorem live_lt (h : Run window start c log) : ∀ b ∈ log, ∀ e, b.live = some e → b.at_ < e.expiry := by
  induction h with
  | nil => nofun
  | quiet _ _ _ ih => exact ih
  | repeated _ hl _ ih =>
    refine forall_mem_cons.mpr ⟨fun e he => ?_, ih⟩
    rw [← some.inj he]
    exact (liveAt_eq_some.mp hl).2
  | stored _ _ _ ih => exact forall_mem_cons.mpr ⟨nofun, ih⟩
  | bypassed _ _ _ ih =>
    exact forall_mem_cons.mpr ⟨fun e he => (liveAt_eq_some.mp he).2, ih⟩

/-- **An entry is repeated until it expires.** -/
theorem repeats (h : Run window start c log) (hk : c k = some e) (hb : b ∈ log)
    (hky : b.key = k) (hc : b.checked) (hat : b.at_ < e.expiry) : b.stored = false ∧ b.value = e.value := by
  have hkp : ∀ {now : ℤ} {c : Cache K V}, now ≤ b.at_ → c k = some e → c.liveAt now k = some e :=
    fun hle hk => liveAt_eq_some.mpr ⟨hk, hle.trans_lt hat⟩
  induction h with
  | nil => cases hb
  | quiet hn hcc hr ih =>
    refine ih ?_ hb
    rcases hcc with rfl | rfl
    · exact hk
    · exact hkp (hr.start_le b hb) hk
  | @repeated _ _ _ _ k' e' hn hl hr ih =>
    rcases mem_cons.mp hb with rfl | hb
    · obtain rfl : k' = k := hky
      have heq := (liveAt_eq_some.mp hl).1.symm.trans hk
      exact ⟨rfl, congrArg Entry.value (some.inj heq)⟩
    · exact ih (hkp (hr.start_le b hb) hk) hb
  | @stored _ now c _ k' _ hn hl hr ih =>
    rcases mem_cons.mp hb with rfl | hb
    · obtain rfl : k' = k := hky
      rw [hkp (le_refl _) hk] at hl
      cases hl
    · -- another key is stored: this one is live
      have hl' := hkp (hr.start_le b hb) hk
      have hne : k ≠ k' := by
        rintro rfl
        rw [hl'] at hl
        cases hl
      exact ih (by rw [update_of_ne hne, hl']) hb
  | bypassed k' hn hr ih =>
    rcases mem_cons.mp hb with rfl | hb
    · cases hc
    · exact ih hk hb

omit [DecidableEq K] in
theorem drawn_cons_of_stored (h : a.stored) (log : List (Sent K V)) :
    drawn (a :: log) = a.value :: drawn log := by
  rw [drawn, filter_cons_of_pos h]
  rfl

omit [DecidableEq K] in
theorem drawn_cons_of_not (h : a.stored = false) (log : List (Sent K V)) : drawn (a :: log) = drawn log := by
  rw [drawn, filter_cons_of_neg (by simp [h])]
  rfl

/-- Where a result comes from: from the entry that there was, or it is new. -/
theorem origin (h : Run window start c log) (hb : b ∈ log) :
    (∃ e, c b.key = some e ∧ b.live = some e ∧ b.value = e.value) ∨ b.value ∈ drawn log := by
  have hl : ∀ {now : ℤ} {c : Cache K V}, (∃ e, c.liveAt now b.key = some e ∧ b.live = some e ∧
      b.value = e.value) → ∃ e, c b.key = some e ∧ b.live = some e ∧ b.value = e.value := by
    rintro now c ⟨e, he, hr⟩
    exact ⟨e, (liveAt_eq_some.mp he).1, hr⟩
  induction h with
  | nil => cases hb
  | quiet hn hc hr ih =>
    rcases ih hb with h | h
    · rcases hc with rfl | rfl
      · exact .inl h
      · exact .inl (hl h)
    · exact .inr h
  | repeated hn hlv hr ih =>
    rcases mem_cons.mp hb with rfl | hb
    · exact .inl ⟨_, (liveAt_eq_some.mp hlv).1, rfl, rfl⟩
    · exact (ih hb).imp_left hl
  | @stored _ now c _ k' v hn hlv hr ih =>
    rcases mem_cons.mp hb with rfl | hb
    · exact .inr mem_cons_self
    · rcases ih hb with ⟨e, he, hbe, hv⟩ | h
      · by_cases hk : b.key = k'
        · rw [hk, update_self] at he
          rw [hv, ← some.inj he]
          exact .inr mem_cons_self
        · rw [update_of_ne hk] at he
          exact .inl (hl ⟨e, he, hbe, hv⟩)
      · exact .inr (mem_cons_of_mem _ h)
  | bypassed k' hn hr ih =>
    rcases mem_cons.mp hb with rfl | hb
    · exact .inr mem_cons_self
    · exact (ih hb).imp_right (mem_cons_of_mem _)

omit [DecidableEq K] in
theorem fresh_of_subset {c' : Cache K V} (h : Fresh c log)
    (hs : ∀ k e, c' k = some e → c k = some e) :
    Fresh c' log := ⟨h.nodup, fun k e he => h.cache k e (hs k e he)⟩

theorem once_iff (h : Run window start c log) (hf : Fresh c log) :
    log.Pairwise fun a b => a.key = b.key → b.at_ - a.at_ < window →
      (Once a b ↔ a.checked ∧ b.checked ∧ ∀ e, a.live = some e → b.at_ < e.expiry) := by
  have hsb : ∀ {now : ℤ} {c : Cache K V} (k : K) (e : Entry V),
      c.liveAt now k = some e → c k = some e := fun k e he => (liveAt_eq_some.mp he).1
  induction h with
  | nil => exact .nil
  | quiet hno hcc hr ih =>
    refine ih ?_
    rcases hcc with rfl | rfl
    · exact hf
    · exact fresh_of_subset hf hsb
  | @repeated _ now c log k e hno hk hr ih =>
    have htl : Fresh c log := ⟨hf.nodup, hf.cache⟩
    refine pairwise_cons.mpr ⟨fun b hb hky _ => ?_, ih (fresh_of_subset htl hsb)⟩
    constructor
    · intro ho
      refine ⟨rfl, ho.checked, fun e' he' => ?_⟩
      obtain rfl : e = e' := some.inj he'
      -- its result is not new, so that the entry was there at the second send
      rcases hr.origin hb with ⟨e', ht, hb', -⟩ | hnw
      · rw [← hky, hk] at ht
        exact hr.live_lt b hb e (ht ▸ hb')
      · rw [ho.value] at hnw
        exact absurd hnw (htl.cache k e (hsb k e hk))
    · rintro ⟨-, hc, hat⟩
      obtain ⟨hs, hv⟩ := hr.repeats hk hb hky.symm hc (hat e rfl)
      exact ⟨by simp, hc, hv⟩
  | @stored _ now c log k v hno hk hr ih =>
    obtain ⟨hn, hcc⟩ := hf
    have hnx : Fresh (update (c.liveAt now) k (some ⟨v, now + window⟩)) log := by
      refine ⟨(nodup_cons.mp hn).2, fun k' e he => ?_⟩
      by_cases hky : k' = k
      · rw [hky, update_self] at he
        rw [← some.inj he]
        exact (nodup_cons.mp hn).1
      · rw [update_of_ne hky] at he
        exact fun hm => hcc k' e (hsb k' e he) (mem_cons_of_mem _ hm)
    refine pairwise_cons.mpr ⟨fun b hb hky hat => ?_, ih hnx⟩
    constructor
    · exact fun ho => ⟨rfl, ho.checked, nofun⟩
    · rintro ⟨-, hc, -⟩
      have hw : b.at_ < now + window := by
        dsimp only at hat
        omega
      obtain ⟨hs, hv⟩ := hr.repeats (update_self _ _ _) hb hky.symm hc hw
      exact ⟨by simp [hs], hc, hv⟩
  | @bypassed _ now c log k v hno hr ih =>
    obtain ⟨hn, hcc⟩ := hf
    have hnx : Fresh c log := ⟨(nodup_cons.mp hn).2, fun k' e he hm => hcc k' e he (mem_cons_of_mem _ hm)⟩
    refine pairwise_cons.mpr ⟨fun b hb _ _ => iff_of_false (fun ho => ?_) (by simp), ih hnx⟩
    -- the result of the first is in no cache and is not drawn again
    rcases hr.origin hb with ⟨e, ht, -, hv⟩ | hnw
    · refine hcc b.key e ht ?_
      rw [← hv, ho.value]
      exact mem_cons_self
    · rw [ho.value] at hnw
      exact (nodup_cons.mp hn).1 hnw

end Run

end DedupWindow

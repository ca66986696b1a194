import Mathlib.Data.List.Basic
import Mathlib.Data.List.Perm.Basic
import Mathlib.Tactic

/-!
# Maps ordered by a comparison

The entries of an ordered map in the order of their keys.  Keys that compare equal are one key to the
map, whether or not they are equal.
-/

/-- Entries in strictly increasing order of their keys. -/
structure OrdMap (α β : Type) (cmp : α → α → Ordering) where
  entries : List (α × β)
  sorted : entries.Pairwise fun a b => cmp a.1 b.1 = .lt

namespace OrdMap

open Std List Option ReflCmp LawfulEqCmp OrientedCmp

variable {α β : Type} {cmp : α → α → Ordering}

def empty : OrdMap α β cmp := ⟨[], .nil⟩

def get (m : OrdMap α β cmp) (k : α) : Option β :=
  (m.entries.find? fun e => cmp k e.1 == .eq).map Prod.snd

/-- An entry at its place; the value of a key that is there is replaced. -/
def insertEntry (cmp : α → α → Ordering) (k : α) (v : β) : List (α × β) → List (α × β)
  | [] => [(k, v)]
  | e :: m =>
    match cmp k e.1 with
    | .lt => (k, v) :: e :: m
    | .eq => (e.1, v) :: m
    | .gt => e :: insertEntry cmp k v m

def after (m : OrdMap α β cmp) (k : α) : List (α × β) :=
  m.entries.filter fun e => cmp k e.1 == .lt

variable {k k' : α} {v : β} {e e' : α × β} {γ : Type} {f : β → β} {p : α × β → Bool} {l : List (α × β)}
  (m : OrdMap α β cmp)

theorem mem_insertEntry {m : List (α × β)}
    (h : e ∈ insertEntry cmp k v m) : e.1 = k ∨ ∃ e' ∈ m, e.1 = e'.1 := by
  induction m with
  | nil => exact .inl (by rw [mem_singleton.mp h])
  | cons x m ih =>
    unfold insertEntry at h
    split at h
    · rcases mem_cons.mp h with rfl | h
      · exact .inl rfl
      · exact .inr ⟨e, h, rfl⟩
    · rcases mem_cons.mp h with rfl | h
      · exact .inr ⟨x, mem_cons_self, rfl⟩
      · exact .inr ⟨e, mem_cons_of_mem _ h, rfl⟩
    · rcases mem_cons.mp h with rfl | h
      · exact .inr ⟨e, mem_cons_self, rfl⟩
      · rcases ih h with h | ⟨e', he', h⟩
        · exact .inl h
        · exact .inr ⟨e', mem_cons_of_mem _ he', h⟩

section Ordered

variable [TransCmp cmp]

theorem sorted_insertEntry (k : α) (v : β) {m : List (α × β)} (h : m.Pairwise fun a b => cmp a.1 b.1 = .lt) :
    (insertEntry cmp k v m).Pairwise fun a b => cmp a.1 b.1 = .lt := by
  induction m with
  | nil => exact pairwise_singleton _ _
  | cons x m ih =>
    rw [pairwise_cons] at h
    unfold insertEntry
    split
    · next hlt =>
      rw [pairwise_cons, pairwise_cons]
      refine ⟨fun e he => ?_, h⟩
      rcases mem_cons.mp he with rfl | he
      · exact hlt
      · exact TransCmp.lt_trans hlt (h.1 e he)
    · exact pairwise_cons.mpr ⟨h.1, h.2⟩
    · next hgt =>
      rw [pairwise_cons]
      refine ⟨fun e he => ?_, ih h.2⟩
      rcases mem_insertEntry he with hk | ⟨e', he', hk⟩
      · rw [hk]
        exact lt_of_gt hgt
      · rw [hk]
        exact h.1 e' he'

def insert (m : OrdMap α β cmp) (k : α) (v : β) : OrdMap α β cmp :=
  ⟨insertEntry cmp k v m.entries, sorted_insertEntry k v m.sorted⟩

def erase (m : OrdMap α β cmp) (k : α) : OrdMap α β cmp :=
  ⟨m.entries.filter fun e => cmp k e.1 != .eq, m.sorted.sublist List.filter_sublist⟩

theorem cmp_ne_eq (he : e ∈ m.entries) (he' : e' ∈ m.entries)
    (hne : e ≠ e') : cmp e.1 e'.1 ≠ .eq := by
  have : Std.Symm fun a b : α × β => cmp a.1 b.1 ≠ .eq := ⟨fun _ _ h h' => h (eq_symm h')⟩
  have hp : m.entries.Pairwise fun a b => cmp a.1 b.1 ≠ .eq := m.sorted.imp fun h h' => by simp [h] at h'
  exact hp.forall he he' hne

theorem eq_of_cmp_eq (he : e ∈ m.entries)
    (he' : e' ∈ m.entries) (h : cmp k e.1 = .eq) (h' : cmp k e'.1 = .eq) : e = e' := by
  by_contra hne
  exact m.cmp_ne_eq he he' hne (TransCmp.eq_trans (eq_symm h) h')

theorem get_eq_some : m.get k = some v ↔ ∃ k', (k', v) ∈ m.entries ∧ cmp k k' = .eq := by
  constructor
  · intro h
    obtain ⟨⟨k', v'⟩, hf, rfl⟩ := map_eq_some_iff.mp h
    exact ⟨k', mem_of_find?_eq_some hf, by simpa using find?_some hf⟩
  · rintro ⟨k', hm, hk⟩
    have hs : (m.entries.find? fun e => cmp k e.1 == .eq).isSome :=
      find?_isSome.mpr ⟨_, hm, by simpa using hk⟩
    obtain ⟨e, he⟩ := isSome_iff_exists.mp hs
    have : e = (k', v) := m.eq_of_cmp_eq (mem_of_find?_eq_some he) hm
      (by simpa using find?_some he) hk
    rw [get, he, this]
    rfl

omit [TransCmp cmp] in
theorem get_eq_none : m.get k = none ↔ ∀ e ∈ m.entries, cmp k e.1 ≠ .eq := by
  simp [get]

theorem insert_perm {m : OrdMap α β cmp} (v : β) (h : m.get k = none) :
    (m.insert k v).entries.Perm ((k, v) :: m.entries) := by
  have hn := m.get_eq_none.mp h
  change (insertEntry cmp k v m.entries).Perm _
  generalize m.entries = l at hn
  induction l with
  | nil => exact .refl _
  | cons e l ih =>
    unfold insertEntry
    split
    · exact .refl _
    · next heq => exact absurd heq (hn e mem_cons_self)
    · have := ih fun e he => hn e (mem_cons_of_mem _ he)
      exact (this.cons e).trans (.swap _ _ _)

theorem erase_perm {m : OrdMap α β cmp} (hmm : (k', v) ∈ m.entries)
    (hk : cmp k k' = .eq) : m.entries.Perm ((k', v) :: (m.erase k).entries) := by
  have ho : ∀ e ∈ m.entries, e ≠ (k', v) → cmp k e.1 ≠ .eq := fun e he hne h =>
    hne (m.eq_of_cmp_eq he hmm h hk)
  have hn : m.entries.Nodup := m.sorted.imp fun {a b} h hab => by
    have hs : cmp b.1 b.1 = .eq := compare_self
    rw [hab, hs] at h
    cases h
  obtain ⟨l₁, l₂, hl⟩ := append_of_mem hmm
  change m.entries.Perm ((k', v) :: m.entries.filter fun e => cmp k e.1 != .eq)
  rw [hl] at ho hn ⊢
  have hm := nodup_middle.mp hn
  rw [nodup_cons, mem_append, not_or] at hm
  have hkp : ∀ e ∈ l₁ ++ l₂, (cmp k e.1 != .eq) = true := fun e he => by
    have hne : e ≠ (k', v) := by
      rintro rfl
      exact (mem_append.mp he).elim hm.1.1 hm.1.2
    have hin : e ∈ l₁ ++ (k', v) :: l₂ := by
      rcases mem_append.mp he with he | he
      · exact mem_append_left _ he
      · exact mem_append_right _ (mem_cons_of_mem _ he)
    simpa using ho e hin hne
  have hf : (l₁ ++ (k', v) :: l₂).filter (fun e => cmp k e.1 != .eq) = l₁ ++ l₂ := by
    rw [filter_append, filter_cons_of_neg (by simp [hk]), ← filter_append, filter_eq_self.mpr hkp]
  rw [hf]
  exact perm_middle

/-! ## Looking up after a change -/

def retain (m : OrdMap α β cmp) (p : β → Bool) : OrdMap α β cmp :=
  ⟨m.entries.filter fun e => p e.2, m.sorted.sublist List.filter_sublist⟩

theorem get_retain (p : β → Bool) (k : α) : (m.retain p).get k = (m.get k).filter p := by
  rcases hg : m.get k with _ | v
  · rw [Option.filter_none, get_eq_none]
    intro e he
    exact m.get_eq_none.mp hg e (mem_of_mem_filter he)
  · obtain ⟨k', hm, hk⟩ := m.get_eq_some.mp hg
    by_cases hp : p v
    · rw [filter_some_pos hp, get_eq_some]
      exact ⟨k', mem_filter.mpr ⟨hm, hp⟩, hk⟩
    · rw [Option.filter_some_neg (by simpa using hp), get_eq_none]
      intro e he hke
      obtain ⟨he, hpe⟩ := mem_filter.mp he
      rw [m.eq_of_cmp_eq he hm hke hk] at hpe
      exact hp hpe

theorem get_of_get_erase {m : OrdMap α β cmp} (h : (m.erase k).get k' = some v) : m.get k' = some v := by
  obtain ⟨k'', hm, hk⟩ := (m.erase k).get_eq_some.mp h
  exact m.get_eq_some.mpr ⟨k'', mem_of_mem_filter hm, hk⟩

theorem mem_insert_self (k : α) (v : β) : ∃ k', (k', v) ∈ (m.insert k v).entries ∧ cmp k k' = .eq := by
  change ∃ k', (k', v) ∈ insertEntry cmp k v m.entries ∧ cmp k k' = .eq
  generalize m.entries = l
  induction l with
  | nil => exact ⟨k, mem_singleton_self _, compare_self⟩
  | cons e l ih =>
    unfold insertEntry
    split
    · exact ⟨k, mem_cons_self, compare_self⟩
    · next heq => exact ⟨e.1, mem_cons_self, heq⟩
    · obtain ⟨k', hm, hk⟩ := ih
      exact ⟨k', mem_cons_of_mem _ hm, hk⟩

theorem mem_insert_of_ne (v : β) (hne : cmp k e.1 ≠ .eq) : e ∈ (m.insert k v).entries ↔ e ∈ m.entries := by
  change e ∈ insertEntry cmp k v m.entries ↔ _
  have hs : ∀ k', cmp k k' = .eq → e ≠ (k', v) := by
    rintro k' hk rfl
    exact hne hk
  generalize m.entries = l
  induction l with
  | nil => simp [insertEntry, hs k compare_self]
  | cons x l ih =>
    unfold insertEntry
    split
    · rw [mem_cons, or_iff_right (hs k compare_self)]
    · next heq =>
      have hx : e ≠ x := by
        rintro rfl
        exact hne heq
      rw [mem_cons, mem_cons, or_iff_right (hs x.1 heq), or_iff_right hx]
    · rw [mem_cons, mem_cons]
      exact or_congr_right ih

theorem get_insert_self (k : α) (v : β) : (m.insert k v).get k = some v :=
  (m.insert k v).get_eq_some.mpr (m.mem_insert_self k v)

theorem get_insert_of_ne (v : β) (hne : cmp k k' ≠ .eq) : (m.insert k v).get k' = m.get k' := by
  ext w
  rw [get_eq_some, get_eq_some]
  refine exists_congr fun k'' => and_congr_left fun hk'' => m.mem_insert_of_ne v ?_
  exact fun h => hne (TransCmp.eq_trans h (eq_symm hk''))

theorem get_insert [LawfulEqCmp cmp] [DecidableEq α] (k k' : α) (v : β) :
    (m.insert k v).get k' = if k' = k then some v else m.get k' := by
  split_ifs with h
  · rw [h, get_insert_self]
  · exact m.get_insert_of_ne v fun heq => h (eq_of_compare heq).symm

theorem mem_entries [LawfulEqCmp cmp] {m : OrdMap α β cmp} : (k, v) ∈ m.entries ↔ m.get k = some v := by
  rw [get_eq_some]
  refine ⟨fun h => ⟨k, h, compare_self⟩, ?_⟩
  rintro ⟨k', hm, hk⟩
  rwa [eq_of_compare hk]

theorem get_erase [LawfulEqCmp cmp] [DecidableEq α] (k k' : α) :
    (m.erase k).get k' = if k' = k then none else m.get k' := by
  split_ifs with h
  · rw [get_eq_none]
    intro e he heq
    rw [h] at heq
    simpa [heq] using (mem_filter.mp he).2
  · ext v
    refine ⟨get_of_get_erase, fun hg => ?_⟩
    refine mem_entries.mp (mem_filter.mpr ⟨mem_entries.mpr hg, ?_⟩)
    simpa [LawfulEqCmp.compare_eq_iff_eq] using fun heq => h heq.symm

def put (m : OrdMap α β cmp) (k : α) : Option β → OrdMap α β cmp
  | some v => m.insert k v
  | none => m.erase k

theorem get_put [LawfulEqCmp cmp] [DecidableEq α] (k k' : α) (v : Option β) :
    (m.put k v).get k' = if k' = k then v else m.get k' := by
  cases v with
  | some v => exact m.get_insert k k' v
  | none => exact m.get_erase k k'

end Ordered

/-! ## Changing a value -/

/-- The value of the first entry that passes a test, changed. -/
def adjustEntries (p : α × β → Bool) (f : β → β) : List (α × β) → List (α × β)
  | [] => []
  | e :: m => if p e then (e.1, f e.2) :: m else e :: adjustEntries p f m

theorem keys_adjustEntries (p : α × β → Bool) (f : β → β) (m : List (α × β)) :
    (adjustEntries p f m).map Prod.fst = m.map Prod.fst := by
  induction m with
  | nil => rfl
  | cons e m ih =>
    unfold adjustEntries
    split
    · rfl
    · rw [map_cons, map_cons, ih]

theorem values_adjustEntries (h : β → γ) (p : α × β → Bool) (hf : ∀ v, h (f v) = h v) (m : List (α × β)) :
    (adjustEntries p f m).map (fun e => h e.2) = m.map fun e => h e.2 := by
  induction m with
  | nil => rfl
  | cons e m ih =>
    unfold adjustEntries
    split
    · rw [map_cons, map_cons, hf]
    · rw [map_cons, map_cons, ih]

def adjust (m : OrdMap α β cmp) (p : α × β → Bool) (f : β → β) : OrdMap α β cmp where
  entries := adjustEntries p f m.entries
  sorted := by
    rw [← List.pairwise_map (R := fun a b => cmp a b = .lt), keys_adjustEntries, List.pairwise_map]
    exact m.sorted

def modify (m : OrdMap α β cmp) (k : α) (f : β → β) : OrdMap α β cmp :=
  m.adjust (fun e => cmp k e.1 == .eq) f

/-- A lookup sees of a change what the change does to the value. -/
theorem get_modify_bind (k k' : α) {g : β → Option γ}
    (hf : ∀ v, g (f v) = g v) : ((m.modify k f).get k').bind g = (m.get k').bind g := by
  change (((adjustEntries _ f m.entries).find? _).map Prod.snd).bind g = _
  rw [get]
  generalize m.entries = l
  induction l with
  | nil => rfl
  | cons e l ih =>
    unfold adjustEntries
    by_cases hk' : cmp k' e.1 = .eq
    · split
      · simp [hk', hf]
      · simp [hk']
    · split
      · simp [hk']
      · rw [find?_cons_of_neg (by simpa using hk'), ih, find?_cons_of_neg (by simpa using hk')]

/-- A test that only the entry of a key passes finds the key. -/
theorem adjust_eq_modify (f : β → β)
    (hp : ∀ e ∈ m.entries, p e = (cmp k e.1 == .eq)) : m.adjust p f = m.modify k f := by
  have hc : ∀ {l : List (α × β)}, (∀ e ∈ l, p e = (cmp k e.1 == .eq)) →
      adjustEntries p f l = adjustEntries (fun e => cmp k e.1 == .eq) f l := by
    intro l hl
    induction l with
    | nil => rfl
    | cons e l ih =>
      rw [adjustEntries, adjustEntries, hl e mem_cons_self, ih fun e' he' => hl e' (mem_cons_of_mem _ he')]
  rw [modify, adjust, adjust]
  simp only [hc hp]

theorem get_modify [LawfulEqCmp cmp] [DecidableEq α] (k k' : α) (f : β → β) :
    (m.modify k f).get k' = if k' = k then (m.get k').map f else m.get k' := by
  change ((adjustEntries _ f m.entries).find? _).map Prod.snd = _
  rw [get]
  generalize m.entries = l
  induction l with
  | nil => simp [adjustEntries]
  | cons e l ih =>
    have heq {a b : α} : (cmp a b == .eq) = true ↔ a = b := by
      rw [beq_iff_eq, LawfulEqCmp.compare_eq_iff_eq]
    unfold adjustEntries
    by_cases hk : k = e.1 <;> by_cases hk' : k' = e.1
    · rw [if_pos (heq.mpr hk), find?_cons_of_pos (by exact heq.mpr hk'),
        find?_cons_of_pos (by exact heq.mpr hk'), if_pos (hk'.trans hk.symm)]
      rfl
    · rw [if_pos (heq.mpr hk), find?_cons_of_neg (by exact heq.not.mpr hk'),
        find?_cons_of_neg (by exact heq.not.mpr hk'), if_neg (hk ▸ hk')]
    · rw [if_neg (heq.not.mpr hk), find?_cons_of_pos (by exact heq.mpr hk'),
        find?_cons_of_pos (by exact heq.mpr hk'), if_neg fun h : k' = k => hk (h ▸ hk')]
    · rw [if_neg (heq.not.mpr hk), find?_cons_of_neg (by exact heq.not.mpr hk'),
        find?_cons_of_neg (by exact heq.not.mpr hk'), ih]

/-- Every value changed, as its key says. -/
def mapValues (m : OrdMap α β cmp) (f : α → β → β) : OrdMap α β cmp where
  entries := m.entries.map fun e => (e.1, f e.1 e.2)
  sorted := by
    rw [List.pairwise_map]
    exact m.sorted

theorem get_mapValues [LawfulEqCmp cmp] (f : α → β → β) (k : α) :
    (m.mapValues f).get k = (m.get k).map (f k) := by
  change ((m.entries.map fun e => (e.1, f e.1 e.2)).find? _).map Prod.snd = _
  rw [get]
  generalize m.entries = l
  induction l with
  | nil => rfl
  | cons e l ih =>
    by_cases hk : cmp k e.1 = .eq
    · rw [map_cons, find?_cons_of_pos (by simpa using hk), find?_cons_of_pos (by simpa using hk),
        eq_of_compare hk]
      rfl
    · rw [map_cons, find?_cons_of_neg (by simpa using hk), ih, find?_cons_of_neg (by simpa using hk)]

def keys (m : OrdMap α β cmp) : List α := m.entries.map Prod.fst

theorem keys_modify (k : α) (f : β → β) : (m.modify k f).keys = m.keys := keys_adjustEntries _ f m.entries

theorem mem_keys_of_get [TransCmp cmp] [LawfulEqCmp cmp] {m : OrdMap α β cmp}
    (h : m.get k = some v) : k ∈ m.keys := by
  obtain ⟨k', hm, hk⟩ := m.get_eq_some.mp h
  rw [eq_of_compare hk]
  exact mem_map_of_mem hm

/-- The change is at the first entry that passes. -/
theorem adjustEntries_append (f : β → β) (h : l.find? p = some e) : ∃ l₁ l₂, l = l₁ ++ e :: l₂ ∧
    l₁.find? p = none ∧ adjustEntries p f l = l₁ ++ (e.1, f e.2) :: l₂ := by
  induction l with
  | nil => cases h
  | cons x l ih =>
    unfold adjustEntries
    by_cases hx : p x
    · rw [find?_cons_of_pos hx] at h
      obtain rfl := some.inj h
      exact ⟨[], l, rfl, rfl, if_pos hx⟩
    · rw [find?_cons_of_neg hx] at h
      obtain ⟨l₁, l₂, hl, hn, ha⟩ := ih h
      refine ⟨x :: l₁, l₂, congrArg _ hl, (find?_cons_of_neg hx).trans hn, ?_⟩
      rw [if_neg hx, ha, cons_append]

theorem mem_adjust (f : β → β)
    (h : m.entries.find? p = some e) : (e.1, f e.2) ∈ (m.adjust p f).entries := by
  obtain ⟨l₁, l₂, -, -, ha⟩ := adjustEntries_append f h
  change _ ∈ adjustEntries p f m.entries
  rw [ha]
  exact mem_append_right _ mem_cons_self

/-- **One value of a sum is exchanged.** -/
theorem sum_adjust [AddCommMonoid γ] (g : β → γ) (m : OrdMap α β cmp) (f : β → β)
    (h : m.entries.find? p = some e) :
    ((m.adjust p f).entries.map fun e => g e.2).sum + g e.2 =
      (m.entries.map fun e => g e.2).sum + g (f e.2) := by
  obtain ⟨l₁, l₂, hl, -, ha⟩ := adjustEntries_append f h
  change ((adjustEntries p f m.entries).map fun e => g e.2).sum + _ = _
  rw [ha, hl]
  simp only [map_append, map_cons, sum_append, sum_cons]
  abel

end OrdMap

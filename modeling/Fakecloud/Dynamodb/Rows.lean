import Fakecloud.Dynamodb.KeyIndex
import Fakecloud.Lib.KeyedList

/-!
# What the operations do to the rows

In a consistent table every operation on single rows is the one on its list of rows, by key: a put
writes over the first row of its key or behind all others, a removal takes the first row of its key,
an update writes over the row it was asked for.  The rest of a table is its settings, which they leave
alone, and its history, to which they add at most one entry.
-/

namespace Fakecloud.Dynamodb

open List Option TableItems KeyedList KeyNames

theorem KeyNames.isKeyOf_eq {names : KeyNames} {item key : Item} (hi : names.Sound item)
    (hky : names.Sound key) (hs : (names.encode key).isSome) :
    names.isKeyOf key item = decide (names.encode item = names.encode key) := by
  obtain ⟨k, hk⟩ := isSome_iff_exists.mp hs
  rw [Bool.eq_iff_iff, isKeyOf_iff hi hky, decide_eq_true_eq, hk]
  constructor
  · rintro ⟨k', hk', hk''⟩
    rw [hk', ← hk'']
  · intro h
    exact ⟨k, h, rfl⟩

namespace DynamoTable

def rows (t : DynamoTable) : List Item := t.items.toVec

def lookup (t : DynamoTable) (key : Item) : Option Item := (t.findItemIndex key).bind t.items.get

/-! ## Settings -/

/-- What the operations on rows leave alone. -/
structure SameSettings (t t' : DynamoTable) : Prop where
  keySchema : t'.keySchema = t.keySchema
  attributeDefinitions : t'.attributeDefinitions = t.attributeDefinitions
  gsi : t'.gsi = t.gsi
  lsi : t'.lsi = t.lsi
  pitrEnabled : t'.pitrEnabled = t.pitrEnabled
  enabledAt : t'.pitrHistory.enabledAt = t.pitrHistory.enabledAt
  streamEnabled : t'.streamEnabled = t.streamEnabled
  streamViewType : t'.streamViewType = t.streamViewType
  streamRecords : t'.streamRecords = t.streamRecords

theorem SameSettings.refl (t : DynamoTable) :
    SameSettings t t := ⟨rfl, rfl, rfl, rfl, rfl, rfl, rfl, rfl, rfl⟩

theorem SameSettings.trans {t₁ t₂ t₃ : DynamoTable} (h : SameSettings t₁ t₂)
    (h' : SameSettings t₂ t₃) : SameSettings t₁ t₃ :=
  ⟨h'.keySchema.trans h.keySchema, h'.attributeDefinitions.trans h.attributeDefinitions,
    h'.gsi.trans h.gsi, h'.lsi.trans h.lsi, h'.pitrEnabled.trans h.pitrEnabled,
    h'.enabledAt.trans h.enabledAt, h'.streamEnabled.trans h.streamEnabled,
    h'.streamViewType.trans h.streamViewType, h'.streamRecords.trans h.streamRecords⟩

theorem SameSettings.update {t u : DynamoTable} (h : SameSettings t u) (items : TableItems)
    (index : KeyIndex) (count size : ℤ) :
    SameSettings t { u with items, keyIndex := index, itemCount := count, sizeBytes := size } :=
  ⟨h.keySchema, h.attributeDefinitions, h.gsi, h.lsi, h.pitrEnabled, h.enabledAt, h.streamEnabled,
    h.streamViewType, h.streamRecords⟩

section

variable (t : DynamoTable)

theorem logChange_settings (item : Item) : SameSettings t (t.logChange item) := by
  unfold logChange
  split
  · exact ⟨rfl, rfl, rfl, rfl, rfl, rfl, rfl, rfl, rfl⟩
  · exact .refl t

theorem logChange_history (item : Item) : (t.logChange item).pitrHistory = t.pitrHistory := by
  unfold logChange
  split <;> rfl

theorem ensureKeyIndex_settings : SameSettings t t.ensureKeyIndex := by
  unfold ensureKeyIndex
  split
  · exact .refl t
  · exact ⟨rfl, rfl, rfl, rfl, rfl, rfl, rfl, rfl, rfl⟩

theorem ensureKeyIndex_history : t.ensureKeyIndex.pitrHistory = t.pitrHistory := by
  unfold ensureKeyIndex
  split <;> rfl

theorem recordChange_settings (o n : Option Item) (now : ℤ) : SameSettings t (t.recordChange o n now) := by
  unfold recordChange
  split
  · split
    · exact .refl t
    · exact ⟨rfl, rfl, rfl, rfl, rfl, rfl, rfl, rfl, rfl⟩
  · exact .refl t

theorem logRow_settings (id : ItemId) : SameSettings t (t.logRow id) := by
  unfold logRow
  split
  · split
    · exact logChange_settings t _
    · exact .refl t
  · exact .refl t

theorem logRow_history (id : ItemId) : (t.logRow id).pitrHistory = t.pitrHistory := by
  unfold logRow
  split
  · split
    · exact logChange_history t _
    · rfl
  · rfl

end

/-! ## History -/

/-- The start of the recovery window. -/
def cutoff (t : DynamoTable) (now : ℤ) : ℤ := (t.earliestRestorable now).getD now

/-- One more entry at most, with the next number; of the others only some from before the recovery
window are gone. -/
structure Recorded (t t' : DynamoTable) (now : ℤ) : Prop where
  nextSeq : t.pitrHistory.nextSeq ≤ t'.pitrHistory.nextSeq
  changes : ∃ gone kept new, t.pitrHistory.changes = gone ++ kept ∧
    t'.pitrHistory.changes = kept ++ new ∧ (∀ c ∈ gone, c.at_ < t.cutoff now) ∧
    ∀ c ∈ new, t.pitrHistory.nextSeq ≤ c.seq ∧ c.seq < t'.pitrHistory.nextSeq

theorem Recorded.of_eq {t t' : DynamoTable} (h : t'.pitrHistory = t.pitrHistory) (now : ℤ) :
    Recorded t t' now := by
  refine ⟨by rw [h], [], t.pitrHistory.changes, [], rfl, by rw [h, append_nil], nofun, nofun⟩

theorem recordChange_recorded (t : DynamoTable) (o n : Option Item) (now : ℤ) :
    Recorded t (t.recordChange o n now) now := by
  unfold recordChange
  split
  · split
    · exact .of_eq rfl now
    · refine ⟨Nat.le_succ _, t.pitrHistory.changes.takeWhile fun c => c.at_ < t.cutoff now,
        t.pitrHistory.changes.dropWhile fun c => c.at_ < t.cutoff now, [_],
        takeWhile_append_dropWhile.symm, rfl, fun c hc => ?_, fun c hc => ?_⟩
      · simpa using mem_takeWhile_imp hc
      · rw [mem_singleton.mp hc]
        exact ⟨le_rfl, Nat.lt_succ_self _⟩
  · exact .of_eq rfl now

variable {now : ℤ}

/-- Only the history counts, and where the window starts. -/
theorem Recorded.congr {t t' u u' : DynamoTable} (h : Recorded u u' now)
    (hu : u.pitrHistory = t.pitrHistory) (he : u.pitrEnabled = t.pitrEnabled)
    (hu' : t'.pitrHistory = u'.pitrHistory) : Recorded t t' now := by
  have hc : u.cutoff now = t.cutoff now := by
    simp only [cutoff, earliestRestorable, hu, he]
  obtain ⟨hs, gone, kept, new, ho, hn, hg, hn'⟩ := h
  rw [hu, ← hu'] at hs hn'
  rw [hu] at ho
  rw [← hu'] at hn
  rw [hc] at hg
  exact ⟨hs, gone, kept, new, ho, hn, hg, hn'⟩

/-- Every entry has a number that was given out. -/
def NumberedHistory (t : DynamoTable) : Prop :=
  ∀ c ∈ t.pitrHistory.changes, c.seq < t.pitrHistory.nextSeq

/-- The entries with numbers below `marker`, from `cut` on. -/
def windowed (t : DynamoTable) (marker : ℕ) (cut : ℤ) : List ItemChange :=
  t.pitrHistory.changes.filter fun c => decide (c.seq < marker) && decide (cut ≤ c.at_)

/-- What a write until `now` keeps: the settings, and of the history everything inside the recovery
window that was there before. -/
structure Evolved (t t' : DynamoTable) (now : ℤ) : Prop where
  settings : SameSettings t t'
  nextSeq : t.pitrHistory.nextSeq ≤ t'.pitrHistory.nextSeq
  numbered : t.NumberedHistory → t'.NumberedHistory
  window : ∀ marker cut, marker ≤ t.pitrHistory.nextSeq → t.cutoff now ≤ cut →
    t'.windowed marker cut = t.windowed marker cut

theorem SameSettings.cutoff_eq {t t' : DynamoTable} (h : SameSettings t t') (now : ℤ) :
    t'.cutoff now = t.cutoff now := by
  simp only [cutoff, earliestRestorable, h.pitrEnabled, h.enabledAt]

theorem wholeSeconds_mono {a b : ℤ} (h : a ≤ b) : wholeSeconds a ≤ wholeSeconds b := by
  have ha : wholeSeconds a = 1000000000 * (a / 1000000000) := by unfold wholeSeconds; omega
  have hb : wholeSeconds b = 1000000000 * (b / 1000000000) := by unfold wholeSeconds; omega
  omega

theorem cutoff_mono (t : DynamoTable) {now' : ℤ} (h : now ≤ now') : t.cutoff now ≤ t.cutoff now' := by
  unfold cutoff earliestRestorable
  split
  · refine wholeSeconds_mono (max_le_max ?_ (by omega))
    rcases t.pitrHistory.enabledAt with _ | enabled
    · exact h
    · exact le_rfl
  · exact h

theorem Evolved.refl (t : DynamoTable) (now : ℤ) :
    Evolved t t now := ⟨.refl t, le_rfl, id, fun _ _ _ _ => rfl⟩

theorem Evolved.trans {t₁ t₂ t₃ : DynamoTable} (h : Evolved t₁ t₂ now)
    (h' : Evolved t₂ t₃ now) : Evolved t₁ t₃ now := by
  refine ⟨h.settings.trans h'.settings, h.nextSeq.trans h'.nextSeq, h'.numbered ∘ h.numbered, ?_⟩
  intro marker cut hm hc
  rw [h'.window marker cut (hm.trans h.nextSeq) (h.settings.cutoff_eq now ▸ hc), h.window marker cut hm hc]

theorem Evolved.mono {t t' : DynamoTable} {now' : ℤ} (h : Evolved t t' now) (hn : now ≤ now') :
    Evolved t t' now' := ⟨h.settings, h.nextSeq, h.numbered, fun marker cut hm hc =>
    h.window marker cut hm ((t.cutoff_mono hn).trans hc)⟩

theorem Recorded.evolved {t t' : DynamoTable} (h : Recorded t t' now)
    (hs : SameSettings t t') : Evolved t t' now := by
  obtain ⟨hsq, gone, kept, new, ho, hnw, hg, hnw'⟩ := h
  refine ⟨hs, hsq, fun hn c hc => ?_, fun marker cut hm hct => ?_⟩
  · rcases mem_append.mp (hnw ▸ hc) with hc | hc
    · exact (hn c (ho ▸ mem_append_right _ hc)).trans_le hsq
    · exact (hnw' c hc).2
  · -- what is gone is too old, what is new has a later number
    have ho' : (gone.filter fun c => decide (c.seq < marker) && decide (cut ≤ c.at_)) = [] := by
      refine filter_eq_nil_iff.mpr fun c hc => ?_
      have := hg c hc
      simp only [Bool.and_eq_true, decide_eq_true_eq]
      omega
    have hnn : (new.filter fun c => decide (c.seq < marker) && decide (cut ≤ c.at_)) = [] := by
      refine filter_eq_nil_iff.mpr fun c hc => ?_
      have := (hnw' c hc).1
      simp only [Bool.and_eq_true, decide_eq_true_eq]
      omega
    rw [windowed, windowed, ho, hnw, filter_append, filter_append, ho', hnn, append_nil, nil_append]

/-! ## Lookups -/

section Rows

variable {t t' : DynamoTable} {id : ItemId} {item old key : Item} {now : ℤ} {removed : Option Item}

theorem Consistent.sound_of_mem (h : t.Consistent) (hi : item ∈ t.rows) : t.keyNames.Sound item := by
  obtain ⟨r, hr, rfl⟩ := mem_map.mp hi
  exact h.sound r hr

theorem scan_split (h : t.findItemIndexScan key = some id) : ∃ front old behind,
    t.items.rows = front ++ (id, old) :: behind ∧
    (∀ r ∈ front, t.keyNames.isKeyOf key r.2 = false) ∧ t.keyNames.isKeyOf key old := by
  obtain ⟨⟨id', old⟩, hfn, rfl⟩ := map_eq_some_iff.mp h
  obtain ⟨ho, front, behind, hrw, hf⟩ := find?_eq_some_iff_append.mp hfn
  exact ⟨front, old, behind, hrw, fun r hr => by simpa using hf r hr, ho⟩

theorem scan_of_split {front behind : List (ItemId × Item)}
    (hr : t.items.rows = front ++ (id, item) :: behind)
    (hf : ∀ r ∈ front, t.keyNames.isKeyOf key r.2 = false) (hi : t.keyNames.isKeyOf key item) :
    t.findItemIndexScan key = some id := by
  rw [findItemIndexScan, hr, find?_append, find?_eq_none.mpr (by simpa using hf),
    find?_cons_of_pos (by simpa using hi)]
  rfl

theorem exists_of_find (h : t.findItemIndex key = some id) : ∃ old, t.items.get id = some old := by
  have hs : t.findItemIndexScan key = some id → ∃ old, t.items.get id = some old := by
    intro hs
    obtain ⟨front, old, behind, hr, -, -⟩ := scan_split hs
    exact ⟨old, get_eq_some.mpr (hr ▸ mem_append_right _ mem_cons_self)⟩
  unfold findItemIndex at h
  split at h
  · split at h
    · exact hs h
    split at h
    · cases h
    split at h
    · cases h
    split at h
    · next hg =>
      obtain ⟨old, ho, -⟩ := bind_eq_some_iff.mp hg
      exact ⟨old, some.inj h ▸ ho⟩
    · exact hs h
  · exact hs h

section

variable (h : t.Consistent)
include h

theorem Consistent.lookup_eq_find (hk : t.keyNames.Sound key) :
    t.lookup key = t.rows.find? (t.keyNames.isKeyOf key) := by
  rw [lookup, h.find_eq_scan hk, rows, toVec, find?_map]
  rcases hs : t.findItemIndexScan key with _ | id
  · have := (Option.map_eq_none_iff.mp hs)
    exact (Option.map_eq_none_iff.mpr this).symm
  · obtain ⟨⟨id', old⟩, hf, rfl⟩ := map_eq_some_iff.mp hs
    rw [bind_some, get_eq_some.mpr (mem_of_find?_eq_some hf)]
    exact (congrArg (Option.map Prod.snd) hf).symm

theorem Consistent.same_rows (h' : t'.Consistent) (hr : t'.rows = t.rows)
    (hn : t'.keyNames = t.keyNames) : t'.itemCount = t.itemCount ∧ t'.sizeBytes = t.sizeBytes ∧
    ∀ key, t.keyNames.Sound key → t'.lookup key = t.lookup key := by
  have hs : ∀ u : DynamoTable, totalSize u.items.rows =
      (u.rows.map fun item => (itemSize item : ℤ)).sum := fun u => by
    rw [rows, toVec, List.map_map]
    rfl
  have hc : ∀ u : DynamoTable, u.items.len = u.rows.length := fun u => by
    rw [rows, toVec, length_map]
    rfl
  refine ⟨?_, ?_, fun key hk => ?_⟩
  · rw [h.count, h'.count, hc, hc, hr]
  · rw [h.size, h'.size, hs, hs, hr]
  · rw [h.lookup_eq_find hk, h'.lookup_eq_find (hn ▸ hk), hr, hn]

theorem Consistent.lookup_ensure (hk : t.keyNames.Sound key) :
    t.ensureKeyIndex.lookup key = t.lookup key := by
  have hr : t.ensureKeyIndex.rows = t.rows := by rw [rows, rows, ensureKeyIndex_items]
  exact (h.same_rows h.ensure hr (keyNames_congr ensureKeyIndex_keySchema)).2.2 key hk

variable (hk : t.keyNames.Sound key) (hs : (t.encodeKey key).isSome)
include hk hs

theorem Consistent.rows_split (hsc : t.findItemIndexScan key = some id) :
    ∃ front old behind, t.rows = front ++ old :: behind ∧ t.items.get id = some old ∧
      (∀ item ∈ front, t.encodeKey item ≠ t.encodeKey key) ∧ t.encodeKey old = t.encodeKey key ∧
      (∀ item, (t.items.set id item).toVec = front ++ item :: behind) ∧
      (t.items.remove id).toVec = front ++ behind := by
  obtain ⟨front, old, behind, hrw, hf, ho⟩ := scan_split hsc
  obtain ⟨hst, hrm⟩ := rows_of_split hrw
  have hm : ∀ r ∈ front ++ (id, old) :: behind, t.keyNames.Sound r.2 := fun r hr =>
    h.sound r (hrw ▸ hr)
  have hc : (id, old) ∈ front ++ (id, old) :: behind := mem_append_right _ mem_cons_self
  refine ⟨front.map Prod.snd, old, behind.map Prod.snd, ?_, ?_, ?_, ?_, fun item => ?_, ?_⟩
  · rw [rows, toVec, hrw, map_append, map_cons]
  · exact get_eq_some.mpr (hrw ▸ hc)
  · intro item hi
    obtain ⟨r, hr, rfl⟩ := mem_map.mp hi
    have hne := hf r hr
    rw [isKeyOf_eq (hm r (mem_append_left _ hr)) hk hs] at hne
    exact of_decide_eq_false hne
  · rw [isKeyOf_eq (hm _ hc) hk hs] at ho
    exact of_decide_eq_true ho
  · rw [toVec, hst, map_append, map_cons]
  · rw [toVec, hrm, map_append]

theorem Consistent.absent (hsc : t.findItemIndexScan key = none) :
    ∀ item ∈ t.rows, t.encodeKey item ≠ t.encodeKey key := by
  intro item hi
  obtain ⟨r, hr, rfl⟩ := mem_map.mp hi
  have hne := findItemIndexScan_eq_none.mp hsc r hr
  rw [isKeyOf_eq (h.sound r hr) hk hs] at hne
  exact of_decide_eq_false hne

/-- **A lookup finds the first row with its key.** -/
theorem Consistent.lookup_eq : t.lookup key = first t.encodeKey (t.encodeKey key) t.rows := by
  rw [lookup, h.find_eq_scan hk, first]
  rcases hsc : t.findItemIndexScan key with _ | id
  · have ha := h.absent hk hs hsc
    exact (find?_eq_none.mpr (by simpa using ha)).symm
  · obtain ⟨front, old, behind, hr, hg, hf, ho, -, -⟩ := h.rows_split hk hs hsc
    rw [bind_some, hg, hr, find?_append,
      find?_eq_none.mpr (by simpa using hf), Option.none_or, find?_cons_of_pos (by simpa using ho)]

end

/-! ## Single rows -/

theorem encodeKey_congr (h : t'.keySchema = t.keySchema) : t'.encodeKey = t.encodeKey := by
  funext item
  rw [encodeKey, keyNames_congr h]
  rfl

/-- The table that `put_item_at_key` works on: logged, and with its index. -/
theorem logged_facts (t : DynamoTable) (item : Item) : SameSettings t (t.logChange item).ensureKeyIndex ∧
    (t.logChange item).ensureKeyIndex.pitrHistory = t.pitrHistory ∧
    (t.logChange item).ensureKeyIndex.items = t.items := by
  refine ⟨(logChange_settings t item).trans (ensureKeyIndex_settings _), ?_, by simp⟩
  rw [ensureKeyIndex_history, logChange_history]

theorem put_settings (t : DynamoTable) (item : Item) (now : ℤ) :
    SameSettings t (t.putItemAtKey item now).1 ∧ Recorded t (t.putItemAtKey item now).1 now := by
  obtain ⟨hu, hh, -⟩ := logged_facts t item
  unfold putItemAtKey
  generalize (t.logChange item).ensureKeyIndex = u at hu hh
  dsimp only
  split
  · split
    · have hr := recordChange_settings u (u.items.get ‹_›) (some item) now
      exact ⟨(hu.trans hr).update _ _ _ _, (recordChange_recorded u _ _ now).congr hh hu.pitrEnabled rfl⟩
    · refine ⟨hu.update _ _ _ _, .of_eq ?_ now⟩
      exact hh
  · have hr := recordChange_settings u none (some item) now
    exact ⟨(hu.trans hr).update _ _ _ _, (recordChange_recorded u _ _ now).congr hh hu.pitrEnabled rfl⟩

theorem recorded_items (u : DynamoTable) (o n : Option Item) (now : ℤ) :
    (if u.pitrEnabled then u.recordChange o n now else u).items = u.items := (recorded_same u o n now).items

theorem put_cases (t : DynamoTable) (item : Item) (now : ℤ) :
    ((t.logChange item).ensureKeyIndex.findItemIndex item = none ∧
      (t.putItemAtKey item now).1.items = t.items.push item ∧
      (t.putItemAtKey item now).2 = (t.items.nextId, false)) ∨
    ∃ id, (t.logChange item).ensureKeyIndex.findItemIndex item = some id ∧
      (t.putItemAtKey item now).1.items = t.items.set id item ∧ (t.putItemAtKey item now).2 = (id, true) := by
  obtain ⟨-, -, hi⟩ := logged_facts t item
  unfold putItemAtKey
  generalize (t.logChange item).ensureKeyIndex = u at hi ⊢
  dsimp only
  rcases u.findItemIndex item with _ | id
  · refine .inl ⟨rfl, ?_, ?_⟩
    · simp only [recordChange_items, hi]
    · simp only [recordChange_items, hi]
  · refine .inr ⟨id, rfl, ?_, rfl⟩
    simp only [recorded_items, hi]

theorem put_get (t : DynamoTable) (item : Item) (now : ℤ) :
    (t.putItemAtKey item now).1.items.get (t.putItemAtKey item now).2.1 = some item := by
  rcases put_cases t item now with ⟨-, hi, hid⟩ | ⟨id, hf, hi, hid⟩
  · rw [hi, hid]
    exact get_eq_some.mpr (mem_append_right _ mem_cons_self)
  · obtain ⟨old, ho⟩ := exists_of_find hf
    rw [(logged_facts t item).2.2] at ho
    rw [hi, hid]
    exact get_set ho item

theorem Consistent.logged_find (h : t.Consistent) (hit : t.keyNames.Sound item) :
    (t.logChange item).ensureKeyIndex.findItemIndex item = t.findItemIndexScan item := by
  obtain ⟨hu, -, hi⟩ := logged_facts t item
  have hl : (t.logChange item).Consistent := h.congr ⟨by simp, by simp, by simp, by simp, by simp⟩
  have hn := keyNames_congr hu.keySchema
  rw [hl.ensure.find_eq_scan (hn ▸ hit), findItemIndexScan, findItemIndexScan, hi, hn]

/-- **A put** writes over the first row of its key, or behind all others; the id is that of the row. -/
theorem Consistent.put_rows (h : t.Consistent) (hi : t.keyNames.Sound item)
    (hsm : (t.encodeKey item).isSome) (now : ℤ) :
    (t.putItemAtKey item now).1.rows = upsert t.encodeKey item t.rows ∧
    (t.putItemAtKey item now).1.findItemIndexScan item = some (t.putItemAtKey item now).2.1 := by
  have hsl : t.keyNames.isKeyOf item item := (isKeyOf_eq hi hi hsm).trans (decide_eq_true rfl)
  have hn := keyNames_congr (put_settings t item now).1.keySchema
  rw [rows]
  rcases put_cases t item now with ⟨hfn, hit, hid⟩ | ⟨id, hfn, hit, hid⟩
  · -- a new row, at the end
    have hs : t.findItemIndexScan item = none := (h.logged_find hi).symm.trans hfn
    have hr : (t.putItemAtKey item now).1.items.rows = t.items.rows ++ [(t.items.nextId, item)] := by
      rw [hit]
      rfl
    rw [hid]
    refine ⟨?_, scan_of_split hr ?_ (hn ▸ hsl)⟩
    · rw [upsert_absent (h.absent hi hsm hs), toVec, hr, map_append]
      rfl
    · rw [hn]
      exact findItemIndexScan_eq_none.mp hs
  · have hs : t.findItemIndexScan item = some id := (h.logged_find hi).symm.trans hfn
    obtain ⟨front, old, behind, hr, hf, -⟩ := scan_split hs
    obtain ⟨front', old', behind', hv, -, hf', ho', hst', -⟩ := h.rows_split hi hsm hs
    have hr' := (rows_of_split hr).1 item
    rw [← hit] at hr'
    rw [hid]
    refine ⟨?_, scan_of_split hr' (hn ▸ hf) (hn ▸ hsl)⟩
    rw [hit, hv, upsert_split hf' ho']
    exact hst' item

theorem removeAt_settings {removed : Item} (h : t.removeItemAt id now = some (t', removed)) :
    SameSettings t t' ∧ Recorded t t' now ∧ t.items.get id = some removed ∧ t'.items = t.items.remove id := by
  obtain ⟨old, ho, heq⟩ := map_eq_some_iff.mp h
  obtain ⟨rfl, rfl⟩ := Prod.mk.inj heq
  have hrm : SameSettings t { t with items := t.items.remove id } := (SameSettings.refl t).update _ _ _ _
  have hr := recordChange_recorded { t with items := t.items.remove id } (some old) none now
  have hs := hrm.trans
    (recordChange_settings { t with items := t.items.remove id } (some old) none now)
  refine ⟨?_, ?_, ho, ?_⟩
  · exact (hs.update _ _ _ _).trans (logChange_settings _ _)
  · refine hr.congr rfl rfl ?_
    rw [logChange_history]
    rfl
  · rw [logChange_items]
    exact recordChange_items _ _ _ _

theorem removeByKey_evolved (t : DynamoTable) (key : Item) (now : ℤ) :
    ∃ t' removed, t.removeItemByKey key now = some (t', removed) ∧ Evolved t t' now := by
  have hrd : Evolved t t.ensureKeyIndex now :=
    (Recorded.of_eq (ensureKeyIndex_history t) now).evolved (ensureKeyIndex_settings t)
  unfold removeItemByKey
  dsimp only
  rcases hf : t.ensureKeyIndex.findItemIndex key with _ | id
  · exact ⟨_, none, rfl, hrd⟩
  · obtain ⟨old, ho⟩ := exists_of_find hf
    obtain ⟨⟨t', removed⟩, hr⟩ : ∃ r, t.ensureKeyIndex.removeItemAt id now = some r := by
      rw [removeItemAt, ho]
      exact ⟨_, rfl⟩
    obtain ⟨hs, hrc, -, -⟩ := removeAt_settings hr
    exact ⟨t', some removed, by simp [hr], hrd.trans (hrc.evolved hs)⟩

theorem removeByKey_settings (h : t.removeItemByKey key now = some (t', removed)) : SameSettings t t' := by
  obtain ⟨u, removed', hu, he⟩ := removeByKey_evolved t key now
  rw [h] at hu
  exact (Prod.mk.inj (some.inj hu)).1 ▸ he.settings

/-- **A removal** takes the first row of its key. -/
theorem Consistent.removeByKey_rows (h : t.Consistent) (hk : t.keyNames.Sound key)
    (hsm : (t.encodeKey key).isSome)
    (hr : t.removeItemByKey key now = some (t', removed)) :
    t'.rows = erase t.encodeKey (t.encodeKey key) t.rows ∧
    removed = first t.encodeKey (t.encodeKey key) t.rows := by
  have hl := h.lookup_eq hk hsm
  rw [lookup, h.find_eq_scan hk] at hl
  have hi : t.ensureKeyIndex.items = t.items := ensureKeyIndex_items
  have hfn : t.ensureKeyIndex.findItemIndex key = t.findItemIndexScan key := by
    have hn := keyNames_congr (ensureKeyIndex_settings t).keySchema
    rw [h.ensure.find_eq_scan (hn ▸ hk), findItemIndexScan, findItemIndexScan, hi, hn]
  unfold removeItemByKey at hr
  dsimp only at hr
  rw [hfn] at hr
  rcases hs : t.findItemIndexScan key with _ | id
  · rw [hs] at hl
    rw [hs] at hr
    obtain ⟨rfl, rfl⟩ := Prod.mk.inj (some.inj hr)
    rw [erase_absent (h.absent hk hsm hs), rows, hi]
    exact ⟨rfl, hl⟩
  · obtain ⟨front, old, behind, hv, hge, hf, ho, -, hg⟩ := h.rows_split hk hsm hs
    rw [hs, bind_some, hge] at hl
    rw [hs] at hr
    obtain ⟨⟨u, row⟩, hrw, heq⟩ := map_eq_some_iff.mp hr
    obtain ⟨rfl, rfl⟩ := Prod.mk.inj heq
    obtain ⟨-, -, hgt, hi'⟩ := removeAt_settings hrw
    rw [hi, hge] at hgt
    refine ⟨?_, hgt ▸ hl⟩
    rw [rows, hi', hi, hg, hv, erase_split hf ho]

/-- An update of a row that is there.  One that fails leaves the table as it was. -/
theorem updateAt_cases {ε : Type} (f : Item → Item × Except ε Unit) (hg : t.items.get id = some old)
    (now : ℤ) : (∀ e, (f old).2 = .error e → t.updateItemAt id f now = some (t, .error e)) ∧
    ((f old).2 = .ok () → ∃ t', t.updateItemAt id f now = some (t', .ok ()) ∧
      t'.items = t.items.set id (f old).1 ∧ Evolved t t' now) := by
  rcases hf : f old with ⟨row, result⟩
  refine ⟨fun e he => ?_, fun hok => ?_⟩
  · simp only [updateItemAt, hg, map_some, hf]
    rw [show result = .error e from he, set_self hg]
  · obtain rfl : result = .ok () := hok
    have hi : SameSettings t { t with items := t.items.set id row } := (SameSettings.refl t).update _ _ _ _
    -- the row is stored, recorded, and settled in statistics, index and log
    obtain ⟨u, hu, hut, hus, hur⟩ : ∃ u, u = (if t.pitrEnabled then
          { t with items := t.items.set id row }.recordChange (some old) (some row) now
          else { t with items := t.items.set id row }) ∧
        u.items = t.items.set id row ∧ SameSettings t u ∧ Recorded t u now := by
      refine ⟨_, rfl, ?_, ?_, ?_⟩
      · exact recorded_items { t with items := t.items.set id row } _ _ now
      · split
        · exact hi.trans (recordChange_settings _ _ _ _)
        · exact hi
      · split
        · exact (recordChange_recorded { t with items := t.items.set id row } (some old) (some row)
            now).congr rfl rfl rfl
        · refine .of_eq ?_ now
          rfl
    have hs : (u.syncItemAt id (t.snapshotItemAt id)).items = u.items ∧
        SameSettings u (u.syncItemAt id (t.snapshotItemAt id)) ∧
        (u.syncItemAt id (t.snapshotItemAt id)).pitrHistory = u.pitrHistory := by
      unfold syncItemAt
      split
      · exact ⟨rfl, .refl u, rfl⟩
      · exact ⟨rfl, (SameSettings.refl u).update _ _ _ _, rfl⟩
    have hfn : t.updateItemAt id f now =
      some ((u.syncItemAt id (t.snapshotItemAt id)).logRow id, .ok ()) := by
      simp only [updateItemAt, hg, map_some, hf, hu]
    have hr : Recorded t ((u.syncItemAt id (t.snapshotItemAt id)).logRow id) now := by
      refine hur.congr rfl rfl ?_
      rw [logRow_history, hs.2.2]
    refine ⟨_, hfn, ?_, hr.evolved
      ((hus.trans hs.2.1).trans (logRow_settings _ id))⟩
    rw [(logRow_same _ id).items, hs.1, hut]

/-- **Other rows for all.**  The history is cut back to where it was. -/
theorem replaceItems_settings (t : DynamoTable) (items : List Item) :
    SameSettings t (t.replaceItems items) ∧ (t.replaceItems items).pitrHistory = t.pitrHistory ∧
    (t.replaceItems items).rows = items := by
  have hf (l : List Item) : SameSettings t (l.foldl logChange t) ∧
      (l.foldl logChange t).pitrHistory = t.pitrHistory := by
    refine foldlRecOn (motive := fun u => SameSettings t u ∧ u.pitrHistory = t.pitrHistory) l _
      ⟨.refl t, rfl⟩ ?_
    intro u ⟨hs, hh⟩ item _
    exact ⟨hs.trans (logChange_settings u item), (logChange_history u item).trans hh⟩
  obtain ⟨u, hu, hus, huh⟩ : ∃ u, u = (if t.changeLog.trackers > 0 then
      (t.items.toVec ++ items).foldl logChange t else t) ∧ SameSettings t u ∧ u.pitrHistory =
        t.pitrHistory := by
    refine ⟨_, rfl, ?_⟩
    split
    · exact hf _
    · exact ⟨.refl t, rfl⟩
  have hr : t.replaceItems items = { u with items := .new items }.recalculateStats := by
    rw [hu]
    rfl
  rw [hr]
  exact ⟨hus.update _ _ _ _, huh, rows_new items⟩

theorem discardChangesSince_settings (t : DynamoTable) (marker : ℕ) :
    SameSettings t (t.discardChangesSince marker) ∧ (t.discardChangesSince marker).rows = t.rows :=
  ⟨⟨rfl, rfl, rfl, rfl, rfl, rfl, rfl, rfl, rfl⟩, rfl⟩

/-- **Writing and reading by key.**  A put is found, a removal returns what was found, and other
keys keep theirs. -/
theorem lookup_written (hr : t.Reached)
    (hx : ∀ x ∈ [item, key], t.keyNames.Sound x ∧ (t.encodeKey x).isSome) :
    ((t.putItemAtKey item now).1.lookup key =
      if t.encodeKey item = t.encodeKey key then some item else t.lookup key) ∧
    ∀ t' old, t.removeItemByKey item now = some (t', old) → old = t.lookup item ∧
      (t.encodeKey item ≠ t.encodeKey key → t'.lookup key = t.lookup key) := by
  have h := hr.consistent
  obtain ⟨⟨hi, hs⟩, hk, hks⟩ := by simpa using hx
  have hl (u : DynamoTable) (hu : u.Consistent) (hc : u.keySchema = t.keySchema) :
      u.lookup key = (rowsAt t.encodeKey (t.encodeKey key) u.rows).head? := by
    have he := encodeKey_congr hc
    rw [hu.lookup_eq (keyNames_congr hc ▸ hk) (he ▸ hks), he, first_eq_head?]
  rw [hl t h rfl]
  refine ⟨?_, fun t' old hr => ?_⟩
  · rw [hl _ (h.put hi) (put_settings ..).1.keySchema, (h.put_rows hi hs now).1, rowsAt_upsert]
    split <;> rfl
  · obtain ⟨hrw, hrm⟩ := h.removeByKey_rows hi hs hr
    refine ⟨hrm.trans (h.lookup_eq hi hs).symm, fun hne => ?_⟩
    rw [hl _ (h.removeByKey hr) (removeByKey_settings hr).keySchema, hrw, rowsAt_erase, if_neg hne]

open Example in
theorem lookup_written_one : (table.putItemAtKey (row "1") 0).1.lookup (row "1.0") = some (row "1") :=
  (lookup_written (table_loaded.reached nofun) (by decide +kernel)).1.trans (if_pos (by decide +kernel))

end Rows

end DynamoTable

end Fakecloud.Dynamodb

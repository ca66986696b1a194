import Fakecloud.Dynamodb.StreamLog

/-!
# Updates that fail

`UpdateItem` on a key that no row has inserts a row first and takes it out again when the update fails.  Rows,
lookups, statistics and stream are then as they were; the history of point-in-time recovery has an entry for
the insertion and one for the removal.
-/

namespace Fakecloud.Dynamodb.DynamoTable

open Option

variable {t t' : DynamoTable} {key item : Item} {id : ItemId} {now : ℤ}

/-- **A table on which a call has left no trace.** -/
structure Untouched (t t' : DynamoTable) : Prop where
  rows : t'.rows = t.rows
  lookup : ∀ key, t.keyNames.Sound key → t'.lookup key = t.lookup key
  itemCount : t'.itemCount = t.itemCount
  sizeBytes : t'.sizeBytes = t.sizeBytes
  changes : t'.pitrHistory.changes = t.pitrHistory.changes
  streamRecords : t'.streamRecords = t.streamRecords

theorem Wrote.untouched (hw : Wrote t t' []) (h : t.Consistent) (hs : SameSettings t t')
    (hc : t'.pitrHistory.changes = t.pitrHistory.changes) : Untouched t t' := by
  obtain ⟨hcn, hsz, hl⟩ := h.same_rows hw.consistent hw.rows (keyNames_congr hw.keySchema)
  exact ⟨hw.rows, hl, hcn, hsz, hc, hs.streamRecords⟩

/-! ## History -/

theorem put_history_off (h : t.pitrEnabled = false) :
    (t.putItemAtKey item now).1.pitrHistory = t.pitrHistory := by
  obtain ⟨hs, hh, -⟩ := logged_facts t item
  have ho := hs.pitrEnabled.trans h
  unfold putItemAtKey
  dsimp only
  split
  · simp [ho, hh]
  · simp [recordChange, ho, hh]

theorem removeAt_history {removed : Item} (hr : t.removeItemAt id now = some (t', removed)) :
    (t.pitrEnabled = false → t'.pitrHistory = t.pitrHistory) ∧
    (t.pitrEnabled = true → ∃ c ∈ t'.pitrHistory.changes, c.seq = t.pitrHistory.nextSeq) := by
  obtain ⟨old, -, heq⟩ := map_eq_some_iff.mp hr
  obtain ⟨rfl, -⟩ := Prod.mk.inj heq
  rw [logChange_history]
  refine ⟨fun h => ?_, fun h => ?_⟩
  · simp [indexRemove, recordChange, h]
  · simp [indexRemove, recordChange, h]

/-! ## The failure of an update -/

variable {checks : WriteChecks} {condition : Option Item → Except ServiceError Unit}
variable {f : Item → Item × Except ServiceError Unit} {e : ServiceError}

/-- What an update that fails late has done: nothing to a row that was there, an insertion and a removal to
one that was not. -/
theorem updateItem_error (hv : t.validateKeyAttributesInKey key = .ok ())
    (hch : checks.update t.ensureKeyIndex key = .ok ())
    (hc : condition (t.ensureKeyIndex.lookup key) = .ok ())
    (hrn : t.updateItem checks key condition f now = some (t', .error e)) :
    (t' = t.ensureKeyIndex ∧ (t.ensureKeyIndex.findItemIndex key).isSome) ∨
    (t.ensureKeyIndex.findItemIndex key = none ∧ ∃ removed,
      (t.ensureKeyIndex.putItemAtKey (normalizeItemNumbers key) now).1.removeItemAt
        (t.ensureKeyIndex.putItemAtKey (normalizeItemNumbers key) now).2.1 now = some (t', removed)) := by
  unfold updateItem at hrn
  rw [hv] at hrn
  dsimp only at hrn
  rw [hch, hc] at hrn
  obtain ⟨-, row, hrw⟩ := rowFor_evolved t.ensureKeyIndex key now
  rcases ho : t.ensureKeyIndex.rowFor (t.ensureKeyIndex.findItemIndex key) key now with ⟨u, id⟩
  obtain ⟨hfl, hs⟩ := updateAt_cases f hrw now
  rcases hr : (f row).2 with e' | ⟨⟨⟩⟩
  · rw [hfl e' hr] at hrn
    rcases hf : t.ensureKeyIndex.findItemIndex key with _ | existing
    · rw [hf] at ho hrn
      obtain ⟨⟨t₁, removed⟩, hrm, heq⟩ := map_eq_some_iff.mp hrn
      obtain ⟨rfl, -⟩ := Prod.mk.inj heq
      exact .inr ⟨rfl, removed, hrm⟩
    · rw [hf] at ho hrn
      obtain ⟨rfl, -⟩ := Prod.mk.inj (some.inj hrn)
      exact .inl ⟨rfl, rfl⟩
  · obtain ⟨v, hu, -, -⟩ := hs hr
    rw [hu] at hrn
    obtain ⟨new, -, heq⟩ := map_eq_some_iff.mp hrn
    cases (Prod.mk.inj heq).2

/-- **A rejected update leaves no trace**, unless recovery records the row that it inserts and takes out. -/
theorem failed_update_untouched_iff (h : t.Consistent) (hnumbered : t.NumberedHistory)
    (hkey : t.keyNames.Scalar key) (hvalid : t.validateKeyAttributesInKey key = .ok ())
    (hchecks : checks.update t.ensureKeyIndex key = .ok ())
    (hcondition : condition (t.ensureKeyIndex.lookup key) = .ok ())
    (hrun : t.updateItem checks key condition f now = some (t', .error e)) :
    Untouched t t' ↔ t.pitrEnabled = false ∨ (t.lookup key).isSome := by
  have hr := ensureKeyIndex_settings t
  have hh := ensureKeyIndex_history t
  have he : Untouched t t.ensureKeyIndex := h.wrote_ensure.untouched h hr (by rw [hh])
  have hkey' : t.ensureKeyIndex.keyNames.Scalar key := keyNames_congr hr.keySchema ▸ hkey
  rw [← he.lookup key hkey.sound, lookup]
  rcases updateItem_error hvalid hchecks hcondition hrun with ⟨rfl, hsm⟩ | ⟨hn, removed, hrm⟩
  · obtain ⟨id, hid⟩ := isSome_iff_exists.mp hsm
    obtain ⟨old, ho⟩ := exists_of_find hid
    exact iff_of_true he (.inr (by rw [hid, bind_some, ho]; rfl))
  · obtain ⟨hw, hs⟩ := remove_inserted h.ensure hkey' hn hrm
    obtain ⟨hpt, hrc⟩ := put_settings t.ensureKeyIndex (normalizeItemNumbers key) now
    obtain ⟨hof, hon⟩ := removeAt_history hrm
    have hp := hpt.pitrEnabled.trans hr.pitrEnabled
    rw [hn]
    refine ⟨fun hun => .inl ?_, fun hcn => ?_⟩
    · -- the removal has an entry with a number that the history has not had
      by_contra hen
      obtain ⟨c, hc, hsq⟩ := hon (hp.trans (by simpa using hen))
      rw [hun.changes] at hc
      have := hnumbered c hc
      have := hrc.nextSeq
      rw [hh] at this
      omega
    · have hd : t.pitrEnabled = false := by simpa using hcn
      refine (h.wrote_ensure.append hw).untouched h (hr.trans hs) ?_
      rw [hof (hp.trans hd), put_history_off (hr.pitrEnabled.trans hd), hh]

namespace Example

open Dynamodb.Example

def refuse : Item → Item × Except ServiceError Unit := fun item => (item, .error (validationError []))

/-- **Two entries for a row that never was.** -/
theorem failed_insert_recorded : ∃ t',
    updateItem { table with pitrEnabled := true } noWriteChecks (row "1") always refuse 0 =
      some (t', .error (validationError [])) ∧
    ¬ Untouched { table with pitrEnabled := true } t' := by
  have he : (updateItem { table with pitrEnabled := true } noWriteChecks (row "1") always refuse 0).map
      (fun answer => (answer.1.pitrHistory.changes.length, answer.2)) =
        some (2, .error (validationError [])) := by
    decide +kernel
  obtain ⟨⟨t', result⟩, hr, heq⟩ := map_eq_some_iff.mp he
  obtain ⟨hl, rfl⟩ := Prod.mk.inj heq
  refine ⟨t', hr, fun h => ?_⟩
  rw [h.changes] at hl
  cases hl

theorem failed_update_untouched_absent : ∃ t',
    updateItem table noWriteChecks (row "1") always refuse 0 = some (t', .error (validationError [])) ∧
    Untouched table t' := by
  have he : (updateItem table noWriteChecks (row "1") always refuse 0).map Prod.snd =
      some (.error (validationError [])) := by
    decide +kernel
  obtain ⟨⟨t', result⟩, hr, rfl⟩ := map_eq_some_iff.mp he
  have hc : table.Consistent := ⟨nofun, rfl, rfl, .unbuilt⟩
  have hn : table.NumberedHistory := nofun
  exact ⟨t', hr, (failed_update_untouched_iff hc hn (by decide +kernel) (by decide +kernel)
    rfl rfl hr).mpr (.inl rfl)⟩

end Example

end Fakecloud.Dynamodb.DynamoTable

import Fakecloud.Dynamodb.Table

/-!
# The key index refines the linear scan

`IndexOf` says what an index is of some rows: it was kept against their number, and when it is built
it has exactly one entry for every row with a key.  Every operation on a table takes an index of its
rows to an index of its new rows, and keeps the cached count and size those of the rows
(`Consistent`).  In a consistent table the lookup through the index is the linear scan
(`Consistent.find_eq_scan`).

The operations are covered for rows whose key values are `Sound`.  `Example.lost_row` shows what
happens otherwise.
-/

namespace Fakecloud.Dynamodb

open Text List Option Prod

/-! ## Rows by their ids -/

namespace TableItems

variable {items : TableItems} {id : ItemId} {item : Item}

theorem nodup_ids (items : TableItems) : (items.rows.map fst).Nodup := by
  rw [List.Nodup, pairwise_map]
  exact items.increasing.imp fun h => Nat.ne_of_lt h

theorem get_eq_some : items.get id = some item ↔ (id, item) ∈ items.rows := lookup_eq_some_iff items.nodup_ids

theorem rows_of_split {before behind : List (ItemId × Item)}
    (hrw : items.rows = before ++ (id, item) :: behind) :
    (∀ item', (items.set id item').rows = before ++ (id, item') :: behind) ∧
    (items.remove id).rows = before ++ behind := by
  have hn := items.nodup_ids
  rw [hrw, map_append, map_cons, nodup_middle, nodup_cons, mem_append, not_or] at hn
  have hbf : ∀ r ∈ before, r.1 ≠ id := fun r hr h =>
    hn.1.1 (mem_map.mpr ⟨r, hr, h⟩)
  have hb : ∀ r ∈ behind, r.1 ≠ id := fun r hr h =>
    hn.1.2 (mem_map.mpr ⟨r, hr, h⟩)
  refine ⟨fun item' => ?_, ?_⟩
  · have hm : ∀ l : List (ItemId × Item), (∀ r ∈ l, r.1 ≠ id) →
        l.map (fun r => if r.1 = id then (r.1, item') else r) = l := by
      intro l hl
      rw [map_congr_left fun r hr => if_neg (hl r hr), List.map_id']
    change items.rows.map _ = _
    rw [hrw, map_append, map_cons, hm before hbf, hm behind hb, if_pos rfl]
  · have hf : ∀ l : List (ItemId × Item), (∀ r ∈ l, r.1 ≠ id) →
      l.filter (fun r => r.1 != id) = l := fun l hl =>
      filter_eq_self.mpr fun r hr => by simpa using hl r hr
    change items.rows.filter _ = _
    rw [hrw, filter_append, filter_cons_of_neg (by simp), hf before hbf, hf behind hb]

/-- A row with what stands before and behind it, and what other values of the row and its removal
make of them. -/
theorem split_row (h : items.get id = some item) :
    ∃ before behind, items.rows = before ++ (id, item) :: behind ∧
    (∀ item', (items.set id item').rows = before ++ (id, item') :: behind) ∧
    (items.remove id).rows = before ++ behind := by
  obtain ⟨before, behind, hr⟩ := append_of_mem (get_eq_some.mp h)
  exact ⟨before, behind, hr, rows_of_split hr⟩

theorem get_set (h : items.get id = some item) (item' : Item) : (items.set id item').get id = some item' := by
  obtain ⟨before, behind, -, hs, -⟩ := split_row h
  rw [get_eq_some, hs]
  exact mem_append_right _ mem_cons_self

theorem rows_new (list : List Item) : (TableItems.new list).rows.map snd = list := by
  have hf : ∀ (l : List Item) (items : TableItems),
      ((l.foldl push items).rows.map snd) = items.rows.map snd ++ l := by
    intro l
    induction l with
    | nil => simp
    | cons x l ih =>
      intro items
      rw [foldl_cons, ih]
      simp [push]
  simpa [new, empty] using hf list empty

def totalSize (rows : List (ItemId × Item)) : ℤ := (rows.map fun r => (itemSize r.2 : ℤ)).sum

end TableItems

open TableItems (totalSize)

/-! ## What an index is of some rows -/

def keyedRows (names : KeyNames) (rows : List (ItemId × Item)) : List (RowKey × ItemId) :=
  rows.filterMap fun r => (names.encode r.2).map fun k => (k, r.1)

/-- Kept against the number of rows, with one entry for every row that has a key. -/
structure IndexOf (names : KeyNames) (rows : List (ItemId × Item)) (index : KeyIndex) : Prop where
  count : ∀ n, index.rows = some n → n = rows.length
  entries : ∀ ids n, index = .built ids n → ids.entries.Perm (keyedRows names rows)

section Index

variable {names : KeyNames} {rows before behind : List (ItemId × Item)} {index : KeyIndex}
  {id : ItemId} {item item' : Item} {k : RowKey} {ids : OrdMap RowKey ItemId RowKey.cmp}

theorem keyedRows_some (h : names.encode item = some k) :
    (keyedRows names (before ++ (id, item) :: behind)).Perm
      ((k, id) :: keyedRows names (before ++ behind)) := by
  simp only [keyedRows, filterMap_append, filterMap_cons, h]
  exact perm_middle

theorem keyedRows_none (h : names.encode item = none) :
    keyedRows names (before ++ (id, item) :: behind) = keyedRows names (before ++ behind) := by
  simp [keyedRows, h]

theorem mem_keyedRows : (k, id) ∈ keyedRows names rows ↔
    ∃ item, (id, item) ∈ rows ∧ names.encode item = some k := by
  simp only [keyedRows, mem_filterMap, map_eq_some_iff, mk.injEq]
  constructor
  · rintro ⟨⟨_, item⟩, hm, k', hk', rfl, rfl⟩
    exact ⟨item, hm, hk'⟩
  · rintro ⟨item, hm, hk⟩
    exact ⟨(id, item), hm, k, hk, rfl, rfl⟩

theorem IndexOf.unbuilt : IndexOf names rows .unbuilt := ⟨nofun, nofun⟩

theorem IndexOf.ambiguous {n : ℕ} (hn : n = rows.length) : IndexOf names rows (.ambiguous n) :=
  ⟨fun _ h => (some.inj h).symm.trans hn, nofun⟩

theorem IndexOf.built {n : ℕ} (hn : n = rows.length)
    (h : ids.entries.Perm (keyedRows names rows)) : IndexOf names rows (.built ids n) := by
  refine ⟨fun _ h => (some.inj h).symm.trans hn, ?_⟩
  rintro _ _ ⟨⟩
  exact h

theorem buildIndex_perm {acc : OrdMap RowKey ItemId RowKey.cmp}
    (h : DynamoTable.buildIndex names rows acc = some ids) :
    ids.entries.Perm (acc.entries ++ keyedRows names rows) := by
  induction rows generalizing acc with
  | nil =>
    rw [← some.inj h]
    simp [keyedRows]
  | cons r rows ih =>
    obtain ⟨id, item⟩ := r
    unfold DynamoTable.buildIndex at h
    split at h
    · next hk =>
      rw [show keyedRows names ((id, item) :: rows) = _ from @keyedRows_none names [] rows id item hk]
      exact ih h
    · next k hk =>
      split at h
      · next hg =>
        refine (ih h).trans ?_
        refine ((OrdMap.insert_perm id hg).append_right _).trans ?_
        exact perm_middle.symm.trans ((@keyedRows_some names [] rows id item k hk).symm.append_left _)
      · cases h

theorem IndexOf.rebuild (names : KeyNames) (rows : List (ItemId × Item)) :
    IndexOf names rows (match DynamoTable.buildIndex names rows .empty with
      | none => .ambiguous rows.length
      | some ids => .built ids rows.length) := by
  split
  · exact .ambiguous rfl
  · next ids h => exact .built rfl (by simpa [OrdMap.empty] using buildIndex_perm h)

/-- **A row at the end.**  Its key is not in the index. -/
theorem IndexOf.push (h : IndexOf names rows index)
    (hn : ∀ k, names.encode item = some k → ∀ ids n, index = .built ids n → ids.get k = none) :
    IndexOf names (rows ++ [(id, item)])
      ((index.record (names.encode item) id).mapRows (· + 1)) := by
  have hl : rows.length + 1 = (rows ++ [(id, item)]).length := by simp
  cases index with
  | unbuilt =>
    rcases names.encode item with _ | k
    · exact .unbuilt
    · exact .unbuilt
  | ambiguous n =>
    obtain rfl := h.count n rfl
    rcases names.encode item with _ | k
    · exact .ambiguous hl
    · exact .ambiguous hl
  | built ids n =>
    obtain rfl := h.count n rfl
    have he := h.entries ids _ rfl
    rcases hk : names.encode item with _ | k
    · rw [← append_nil rows, ← keyedRows_none hk] at he
      exact .built hl he
    · rw [← append_nil rows] at he
      exact .built hl (((OrdMap.insert_perm id (hn k hk ids _ rfl)).trans (he.cons _)).trans
        (keyedRows_some hk).symm)

theorem erase_perm_keyedRows
    (h : ids.entries.Perm (keyedRows names (before ++ (id, item) :: behind)))
    (hk : names.encode item = some k) :
    ids.get k = some id ∧ (ids.erase k).entries.Perm (keyedRows names (before ++ behind)) := by
  have hs : RowKey.cmp k k = .eq := Std.ReflCmp.compare_self
  have hmm : (k, id) ∈ ids.entries :=
    h.mem_iff.mpr (mem_keyedRows.mpr ⟨item, mem_append_right _ mem_cons_self, hk⟩)
  refine ⟨ids.get_eq_some.mpr ⟨k, hmm, hs⟩, ?_⟩
  exact ((OrdMap.erase_perm hmm hs).symm.trans (h.trans (keyedRows_some hk))).cons_inv

theorem IndexOf.remove (h : IndexOf names (before ++ (id, item) :: behind) index) :
    IndexOf names (before ++ behind)
      ((index.forget (names.encode item) id).mapRows (· - 1)) := by
  have hl : (before ++ (id, item) :: behind).length - 1 = (before ++ behind).length := by
    simp
  cases index with
  | unbuilt =>
    rcases names.encode item with _ | k
    · exact .unbuilt
    · exact .unbuilt
  | ambiguous n =>
    obtain rfl := h.count n rfl
    rcases names.encode item with _ | k
    · exact .ambiguous hl
    · exact .ambiguous hl
  | built ids n =>
    obtain rfl := h.count n rfl
    have he := h.entries ids _ rfl
    rcases hk : names.encode item with _ | k
    · rw [keyedRows_none hk] at he
      exact .built hl he
    · obtain ⟨hg, hp⟩ := erase_perm_keyedRows he hk
      simp only [KeyIndex.forget, hg]
      exact .built hl hp

theorem IndexOf.move (h : IndexOf names (before ++ (id, item) :: behind) index) :
    IndexOf names (before ++ (id, item') :: behind)
      (index.move (names.encode item) (names.encode item') id) := by
  have hl : (before ++ (id, item) :: behind).length = (before ++ (id, item') :: behind).length := by
    simp
  unfold KeyIndex.move
  split
  · -- the key is the one the row had
    next hs =>
    refine ⟨fun n hn => hl ▸ h.count n hn, fun ids n hn => ?_⟩
    have hr : keyedRows names (before ++ (id, item') :: behind) =
        keyedRows names (before ++ (id, item) :: behind) := by
      simp [keyedRows, hs, filterMap_cons]
    exact hr ▸ h.entries ids n hn
  · next hc =>
    cases index with
    | unbuilt => exact .unbuilt
    | ambiguous n =>
      obtain rfl := h.count n rfl
      exact .ambiguous hl
    | built ids n =>
      obtain rfl := h.count n rfl
      have he := h.entries ids _ rfl
      dsimp only
      have ho : (KeyIndex.withoutKey ids (names.encode item)).entries.Perm
          (keyedRows names (before ++ behind)) := by
        rcases hk : names.encode item with _ | k
        · rwa [keyedRows_none hk] at he
        · exact (erase_perm_keyedRows he hk).2
      generalize KeyIndex.withoutKey ids (names.encode item) = rest at ho ⊢
      rcases hk : names.encode item' with _ | k
      · rw [← keyedRows_none hk] at ho
        exact .built hl ho
      · dsimp only
        split
        · exact .ambiguous hl
        · next hg =>
          have hi := OrdMap.insert_perm id (show rest.get k = none by simpa using hg)
          exact .built hl ((hi.trans (ho.cons _)).trans (keyedRows_some hk).symm)

end Index

/-! ## Consistent tables -/

namespace DynamoTable

def SoundRows (t : DynamoTable) : Prop := ∀ r ∈ t.items.rows, t.keyNames.Sound r.2

/-- **The invariant**: count, size and index are those of the rows. -/
structure Consistent (t : DynamoTable) : Prop where
  sound : t.SoundRows
  count : t.itemCount = t.items.len
  size : t.sizeBytes = totalSize t.items.rows
  index : IndexOf t.keyNames t.items.rows t.keyIndex

/-! ### What the bookkeeping leaves alone -/

section Frame

variable (t : DynamoTable) (item : Item) (o n : Option Item) (now : ℤ)

@[simp] theorem logChange_items : (t.logChange item).items = t.items := by
  unfold logChange; split <;> rfl

@[simp] theorem logChange_keySchema : (t.logChange item).keySchema = t.keySchema := by
  unfold logChange; split <;> rfl

@[simp] theorem logChange_keyIndex : (t.logChange item).keyIndex = t.keyIndex := by
  unfold logChange; split <;> rfl

@[simp] theorem logChange_itemCount : (t.logChange item).itemCount = t.itemCount := by
  unfold logChange; split <;> rfl

@[simp] theorem logChange_sizeBytes : (t.logChange item).sizeBytes = t.sizeBytes := by
  unfold logChange; split <;> rfl

@[simp] theorem recordChange_items : (t.recordChange o n now).items = t.items := by
  unfold recordChange; split
  · split <;> rfl
  · rfl

@[simp] theorem recordChange_keySchema : (t.recordChange o n now).keySchema = t.keySchema := by
  unfold recordChange; split
  · split <;> rfl
  · rfl

@[simp] theorem recordChange_keyIndex : (t.recordChange o n now).keyIndex = t.keyIndex := by
  unfold recordChange; split
  · split <;> rfl
  · rfl

@[simp] theorem recordChange_itemCount : (t.recordChange o n now).itemCount = t.itemCount := by
  unfold recordChange; split
  · split <;> rfl
  · rfl

@[simp] theorem recordChange_sizeBytes : (t.recordChange o n now).sizeBytes = t.sizeBytes := by
  unfold recordChange; split
  · split <;> rfl
  · rfl

end Frame

structure SameContents (t t' : DynamoTable) : Prop where
  items : t'.items = t.items
  keySchema : t'.keySchema = t.keySchema
  keyIndex : t'.keyIndex = t.keyIndex
  itemCount : t'.itemCount = t.itemCount
  sizeBytes : t'.sizeBytes = t.sizeBytes

section Steps

variable {t t' : DynamoTable} {id : ItemId} {item old key : Item} {now : ℤ} {removed : List Item}

theorem keyNames_congr (h : t'.keySchema = t.keySchema) : t'.keyNames = t.keyNames := by
  simp [keyNames, hashKeyName, rangeKeyName, h]

theorem Consistent.congr (h : t.Consistent) (hs : SameContents t t') : t'.Consistent := by
  have hn := keyNames_congr hs.keySchema
  refine ⟨?_, ?_, ?_, ?_⟩
  · rw [SoundRows, hs.items, hn]
    exact h.sound
  · rw [hs.itemCount, hs.items]
    exact h.count
  · rw [hs.sizeBytes, hs.items]
    exact h.size
  · rw [hn, hs.items, hs.keyIndex]
    exact h.index

/-! ### Lookups -/

theorem findItemIndexScan_eq_none :
    t.findItemIndexScan key = none ↔ ∀ r ∈ t.items.rows, t.keyNames.isKeyOf key r.2 = false := by
  simp [findItemIndexScan]

/-- **Refinement.**  The lookup through the index is the linear scan. -/
theorem Consistent.find_eq_scan (h : t.Consistent) (hke : t.keyNames.Sound key) :
    t.findItemIndex key = t.findItemIndexScan key := by
  unfold findItemIndex
  split
  · next ids n hi =>
    have hrw : n = t.items.len := h.index.count n (by rw [hi]; rfl)
    have he := h.index.entries ids n hi
    -- a row with the key has an entry
    have hen : ∀ r ∈ t.items.rows, t.keyNames.isKeyOf key r.2 →
        ∃ k, t.encodeKey key = some k ∧ (k, r.1) ∈ ids.entries := fun r hr hky => by
      obtain ⟨k, hk, hk'⟩ := (KeyNames.isKeyOf_iff (h.sound r hr) hke).mp hky
      exact ⟨k, hk', he.mem_iff.mpr (mem_keyedRows.mpr ⟨r.2, hr, hk⟩)⟩
    rw [if_neg (by simpa using hrw)]
    split
    · next hn =>
      refine (findItemIndexScan_eq_none.mpr fun r hr => Bool.eq_false_iff.mpr fun hky => ?_).symm
      obtain ⟨k, hk, -⟩ := hen r hr hky
      rw [hn] at hk
      cases hk
    · next encoded hk =>
      split
      · next hg =>
        refine (findItemIndexScan_eq_none.mpr fun r hr => Bool.eq_false_iff.mpr fun hky => ?_).symm
        obtain ⟨k, hk', hm⟩ := hen r hr hky
        obtain rfl := some.inj (hk.symm.trans hk')
        exact ids.get_eq_none.mp hg _ hm Std.ReflCmp.compare_self
      · next id hg =>
        split
        · -- the entry is that of a row with the key, and there is no other
          next hro =>
          obtain ⟨item, hit, hki⟩ := bind_eq_some_iff.mp hro
          have hm := TableItems.get_eq_some.mp hit
          have hs : RowKey.cmp encoded encoded = .eq := Std.ReflCmp.compare_self
          have hf : (t.items.rows.find? fun r => t.keyNames.isKeyOf key r.2).isSome :=
            find?_isSome.mpr
              ⟨(id, item), hm, (KeyNames.isKeyOf_iff (h.sound _ hm) hke).mpr ⟨encoded, hki, hk⟩⟩
          obtain ⟨r, hr⟩ := isSome_iff_exists.mp hf
          obtain ⟨k, hk', hmr⟩ := hen r (mem_of_find?_eq_some hr) (by simpa using find?_some hr)
          obtain rfl := some.inj (hk.symm.trans hk')
          have := ids.eq_of_cmp_eq (he.mem_iff.mpr (mem_keyedRows.mpr ⟨item, hm, hki⟩)) hmr hs hs
          rw [findItemIndexScan, hr, map_some, (Prod.mk.inj this).2]
        · rfl
  · rfl

/-! ### Rows -/

theorem Consistent.rebuild (hs : t.SoundRows) (hc : t.itemCount = t.items.len)
    (hsz : t.sizeBytes = totalSize t.items.rows) : t.rebuildKeyIndex.Consistent := ⟨hs, hc, hsz, .rebuild _ _⟩

theorem Consistent.ensure (h : t.Consistent) : t.ensureKeyIndex.Consistent := by
  unfold ensureKeyIndex
  split
  · exact h
  · exact .rebuild h.sound h.count h.size

@[simp] theorem ensureKeyIndex_keySchema : t.ensureKeyIndex.keySchema = t.keySchema := by
  unfold ensureKeyIndex; split <;> rfl

@[simp] theorem ensureKeyIndex_items : t.ensureKeyIndex.items = t.items := by
  unfold ensureKeyIndex; split <;> rfl

@[simp] theorem logRow_same (t : DynamoTable) (id : ItemId) : SameContents t (t.logRow id) := by
  unfold logRow
  split
  · split
    · exact ⟨by simp, by simp, by simp, by simp, by simp⟩
    · exact ⟨rfl, rfl, rfl, rfl, rfl⟩
  · exact ⟨rfl, rfl, rfl, rfl, rfl⟩

theorem recorded_same (u : DynamoTable) (o n : Option Item) (now : ℤ) :
    SameContents u (if u.pitrEnabled then u.recordChange o n now else u) := by
  split
  · exact ⟨by simp, by simp, by simp, by simp, by simp⟩
  · exact ⟨rfl, rfl, rfl, rfl, rfl⟩

theorem set_self (h : t.items.get id = some old) : t.items.set id old = t.items := by
  obtain ⟨before, behind, hr, hst, -⟩ := TableItems.split_row h
  have hs : (t.items.set id old).rows = t.items.rows := by rw [hst, hr]
  simp only [TableItems.set] at hs ⊢
  simp [hs]

theorem Consistent.replace {items : List Item} (hi : ∀ item ∈ items, t.keyNames.Sound item) :
    (t.replaceItems items).Consistent := by
  set u := if t.changeLog.trackers > 0 then (t.items.toVec ++ items).foldl logChange t else t with hu
  have hn : u.keyNames = t.keyNames := by
    refine keyNames_congr ?_
    rw [hu]
    split
    · exact foldlRecOn (motive := (DynamoTable.keySchema · = t.keySchema)) _ _ rfl
        fun v hv _ _ => (logChange_keySchema ..).trans hv
    · rfl
  refine .rebuild (fun r hr => ?_) rfl ?_
  · have hm : r.2 ∈ (TableItems.new items).rows.map snd := mem_map_of_mem hr
    rw [TableItems.rows_new] at hm
    exact hn ▸ hi r.2 hm
  · simp [TableItems.toVec, totalSize, Function.comp_def]

section

variable (h : t.Consistent)
include h

theorem Consistent.push (hi : t.keyNames.Sound item) (hn : t.findItemIndexScan item = none) :
    Consistent { t with
      items := t.items.push item
      itemCount := t.itemCount + 1
      sizeBytes := t.sizeBytes + itemSize item
      keyIndex := (t.keyIndex.record (t.encodeKey item) t.items.nextId).mapRows (· + 1) } := by
  refine ⟨?_, ?_, ?_, ?_⟩
  · intro r hr
    rcases mem_append.mp hr with hr | hr
    · exact h.sound r hr
    · rw [mem_singleton.mp hr]
      exact hi
  · simp [h.count, TableItems.push, TableItems.len]
  · simp [h.size, TableItems.push, totalSize]
  · refine h.index.push fun k hk ids n hin => ids.get_eq_none.mpr fun e he heq => ?_
    -- the entry would be that of a row with the key
    obtain ⟨old, hm, ho⟩ := mem_keyedRows.mp ((h.index.entries ids n hin).mem_iff.mp he)
    have hke : k = e.1 := RowKey.eq_of_cmp_eq (KeyNames.encode_faithful hi hk)
      (KeyNames.encode_faithful (h.sound _ hm) ho) heq
    have hky := (KeyNames.isKeyOf_iff (h.sound _ hm) hi).mpr ⟨k, hke ▸ ho, hk⟩
    rw [findItemIndexScan_eq_none.mp hn _ hm] at hky
    cases hky

theorem Consistent.set (hg : t.items.get id = some old) (hit : t.keyNames.Sound item) : Consistent { t with
      items := t.items.set id item
      sizeBytes := t.sizeBytes + (itemSize item - itemSize old)
      keyIndex := t.keyIndex.move (t.encodeKey old) (t.encodeKey item) id } := by
  obtain ⟨before, behind, hrw, hs, -⟩ := TableItems.split_row hg
  refine ⟨?_, ?_, ?_, ?_⟩
  · intro r hr
    rw [hs] at hr
    rcases mem_append.mp hr with hr | hr
    · exact h.sound r (by rw [hrw]; exact mem_append_left _ hr)
    · rcases mem_cons.mp hr with rfl | hr
      · exact hit
      · exact h.sound r (by rw [hrw]; exact mem_append_right _ (mem_cons_of_mem _ hr))
  · rw [h.count]
    simp [TableItems.len, hs, hrw]
  · rw [h.size]
    simp only [hs, hrw, totalSize, map_append, map_cons, sum_append, sum_cons]
    ring
  · have hi := h.index
    rw [hrw] at hi
    rw [hs]
    exact hi.move

theorem Consistent.remove (hg : t.items.get id = some old) : Consistent { t with
      items := t.items.remove id
      itemCount := t.itemCount - 1
      sizeBytes := t.sizeBytes - itemSize old
      keyIndex := (t.keyIndex.forget (t.encodeKey old) id).mapRows (· - 1) } := by
  obtain ⟨before, behind, hrw, -, hrm⟩ := TableItems.split_row hg
  refine ⟨fun r hr => h.sound r (mem_of_mem_filter hr), ?_, ?_, ?_⟩
  · rw [h.count]
    simp only [TableItems.len, hrm, hrw, length_append, length_cons]
    omega
  · rw [h.size]
    simp only [hrm, hrw, totalSize, map_append, map_cons, sum_append, sum_cons]
    ring
  · have hi := h.index
    rw [hrw] at hi
    rw [hrm]
    exact hi.remove

/-! ### Operations -/

theorem Consistent.put (hi : t.keyNames.Sound item) : (t.putItemAtKey item now).1.Consistent := by
  have hl : (t.logChange item).Consistent := h.congr ⟨by simp, by simp, by simp, by simp, by simp⟩
  have hr := hl.ensure
  have hn : (t.logChange item).ensureKeyIndex.keyNames = t.keyNames := keyNames_congr (by simp)
  have hs : (t.logChange item).ensureKeyIndex.keyNames.Sound item := hn ▸ hi
  unfold putItemAtKey
  generalize (t.logChange item).ensureKeyIndex = u at hr hs ⊢
  dsimp only
  split
  · next id hf =>
    rw [hr.find_eq_scan hs] at hf
    obtain ⟨⟨id, old⟩, hfd, rfl⟩ := map_eq_some_iff.mp hf
    have ho := TableItems.get_eq_some.mpr (mem_of_find?_eq_some hfd)
    have hky := find?_some hfd
    obtain ⟨k, hk, hk'⟩ := (KeyNames.isKeyOf_iff
      (hr.sound _ (TableItems.get_eq_some.mp ho)) hs).mp hky
    -- the row keeps its key, so the index stays as it is
    have hm : u.keyIndex.move (u.encodeKey old) (u.encodeKey item) id = u.keyIndex :=
      if_pos (hk'.trans hk.symm)
    refine (hr.set ho hs).congr ?_
    split
    · exact ⟨by simp, by simp, by simp [hm], by simp, by simp [ho]; ring⟩
    · exact ⟨by simp, by simp, by simp [hm], by simp, by simp [ho]; ring⟩
  · next hf =>
    rw [hr.find_eq_scan hs] at hf
    refine (hr.push hs hf).congr ⟨by simp, by simp, ?_, by simp, by simp⟩
    have hke : (u.recordChange none (some item) now).encodeKey item = u.encodeKey item := by
      rw [encodeKey, keyNames_congr (recordChange_keySchema _ _ _ _)]
      rfl
    simp [hke]

theorem Consistent.removeAt {removed : Item}
    (hr : t.removeItemAt id now = some (t', removed)) : t'.Consistent ∧ t'.keySchema = t.keySchema := by
  obtain ⟨old, ho, heq⟩ := map_eq_some_iff.mp hr
  obtain ⟨rfl, rfl⟩ := Prod.mk.inj heq
  refine ⟨(h.remove ho).congr ⟨?_, ?_, ?_, ?_, ?_⟩, ?_⟩
  · simp [indexRemove]
  · simp [indexRemove]
  · have hk : ∀ u : DynamoTable, u.keySchema = t.keySchema → u.encodeKey old = t.encodeKey old := by
      intro u hu
      rw [encodeKey, keyNames_congr hu]
      rfl
    simp only [logChange_keyIndex, indexRemove, recordChange_keyIndex]
    rw [hk _ (by simp)]
  · simp [indexRemove]
  · simp [indexRemove]
  · simp [indexRemove]

theorem Consistent.removeByKey {removed : Option Item}
    (hr : t.removeItemByKey key now = some (t', removed)) : t'.Consistent := by
  unfold removeItemByKey at hr
  dsimp only at hr
  split at hr
  · obtain ⟨rfl, -⟩ := Prod.mk.inj (some.inj hr)
    exact h.ensure
  · obtain ⟨⟨u, item⟩, hu, heq⟩ := map_eq_some_iff.mp hr
    obtain ⟨rfl, -⟩ := Prod.mk.inj heq
    exact (h.ensure.removeAt hu).1

theorem Consistent.settle (hg : t.items.get id = some old)
    (hi : t.keyNames.Sound item) {u : DynamoTable}
    (hu : SameContents { t with items := t.items.set id item } u) :
    ((u.syncItemAt id (t.snapshotItemAt id)).logRow id).Consistent := by
  refine (h.set hg hi).congr ?_
  have hl := logRow_same (u.syncItemAt id (t.snapshotItemAt id)) id
  have hr : u.items.get id = some item := by
    rw [hu.items]
    exact TableItems.get_set hg item
  have hk : u.encodeKey item = t.encodeKey item := by
    rw [encodeKey, keyNames_congr hu.keySchema]
    rfl
  have hs : SameContents { t with
      items := t.items.set id item
      sizeBytes := t.sizeBytes + (itemSize item - itemSize old)
      keyIndex := t.keyIndex.move (t.encodeKey old) (t.encodeKey item) id }
      (u.syncItemAt id (t.snapshotItemAt id)) := by
    rw [snapshotItemAt, hg, syncItemAt, hr]
    exact ⟨hu.items, hu.keySchema, by simp [hu.keyIndex, hk], hu.itemCount, by
      simp [hu.sizeBytes]⟩
  exact ⟨hl.items.trans hs.items, hl.keySchema.trans hs.keySchema,
    hl.keyIndex.trans hs.keyIndex, hl.itemCount.trans hs.itemCount, hl.sizeBytes.trans hs.sizeBytes⟩

theorem Consistent.updateAt {ε : Type} {f : Item → Item × Except ε Unit}
    {result : Except ε Unit}
    (hf : ∀ item, t.items.get id = some item → (f item).2.isOk → t.keyNames.Sound (f item).1)
    (hr : t.updateItemAt id f now = some (t', result)) : t'.Consistent := by
  obtain ⟨old, ho, heq⟩ := map_eq_some_iff.mp hr
  have hs := hf old ho
  rcases hfo : f old with ⟨row, _ | ⟨⟨⟩⟩⟩
  · -- the row is put back
    rw [hfo] at heq
    obtain ⟨rfl, -⟩ := Prod.mk.inj heq
    rw [set_self ho]
    exact h
  · rw [hfo] at heq hs
    obtain ⟨rfl, -⟩ := Prod.mk.inj heq
    exact h.settle ho (hs rfl) (recorded_same _ _ _ _)

theorem Consistent.mutateAt {f : Item → Item}
    (hf : ∀ item, t.items.get id = some item → t.keyNames.Sound (f item))
    (hr : t.mutateItemAt id f now = some t') : t'.Consistent := by
  obtain ⟨old, ho, rfl⟩ := map_eq_some_iff.mp hr
  exact h.settle ho (hf old ho) (recorded_same _ _ _ _)

theorem Consistent.removeAll {ids : List ItemId}
    (hr : DynamoTable.removeAll now ids t = some (t', removed)) : t'.Consistent := by
  induction ids generalizing t removed with
  | nil =>
    obtain ⟨rfl, -⟩ := Prod.mk.inj (some.inj hr)
    exact h
  | cons id ids ih =>
    simp only [DynamoTable.removeAll, Option.bind_eq_bind, bind_eq_some_iff] at hr
    obtain ⟨⟨u, item⟩, hu, ⟨v, rest⟩, hv, heq⟩ := hr
    obtain ⟨rfl, -⟩ := Prod.mk.inj (some.inj heq)
    exact ih (h.removeAt hu).1 hv

theorem Consistent.removeWhere {remove : ItemId → Item → Bool}
    (hr : t.removeItemsWhere remove now = some (t', removed)) : t'.Consistent := by
  obtain ⟨⟨u, gone⟩, hu, heq⟩ := map_eq_some_iff.mp hr
  have hu' := h.removeAll hu
  dsimp only at heq
  split at heq
  · split at heq
    · obtain ⟨rfl, -⟩ := Prod.mk.inj heq
      exact hu'
    · obtain ⟨rfl, -⟩ := Prod.mk.inj heq
      exact .rebuild hu'.sound hu'.count hu'.size
  · obtain ⟨rfl, -⟩ := Prod.mk.inj heq
    exact hu'

end

end Steps

end DynamoTable

/-! ## Runs -/

/-- The operations on a table.  A closure is what it leaves of a row, and whether it failed. -/
inductive TableOp (ε : Type)
  | put (item : Item)
  | removeByKey (key : Item)
  | removeAt (id : ItemId)
  | updateAt (id : ItemId) (f : Item → Item × Except ε Unit)
  | mutateAt (id : ItemId) (f : Item → Item)
  | replace (items : List Item)
  | removeWhere (remove : ItemId → Item → Bool)

namespace TableOp

variable {ε : Type}

/-- The table after an operation, unless it panics. -/
def run (now : ℤ) (t : DynamoTable) : TableOp ε → Option DynamoTable
  | put item => some (t.putItemAtKey item now).1
  | removeByKey key => (t.removeItemByKey key now).map Prod.fst
  | removeAt id => (t.removeItemAt id now).map Prod.fst
  | updateAt id f => (t.updateItemAt id f now).map Prod.fst
  | mutateAt id f => t.mutateItemAt id f now
  | replace items => some (t.replaceItems items)
  | removeWhere remove => (t.removeItemsWhere remove now).map Prod.fst

/-- The rows that an operation writes have well-behaved key values. -/
def Sound (t : DynamoTable) : TableOp ε → Prop
  | put item => t.keyNames.Sound item
  | updateAt id f =>
    ∀ item ∈ t.items.get id, (f item).2.isOk → t.keyNames.Sound (f item).1
  | mutateAt id f => ∀ item ∈ t.items.get id, t.keyNames.Sound (f item)
  | replace items => ∀ item ∈ items, t.keyNames.Sound item
  | removeByKey _ | removeAt _ | removeWhere _ => True

/-- Operations one after the other, each at its time. -/
def runAll : List (TableOp ε × ℤ) → DynamoTable → Option DynamoTable
  | [], t => some t
  | (op, now) :: ops, t => (op.run now t).bind (runAll ops)

/-- Every operation of a run writes well-behaved rows. -/
def SoundRun : List (TableOp ε × ℤ) → DynamoTable → Prop
  | [], _ => True
  | (op, now) :: ops, t => op.Sound t ∧ ∀ t', op.run now t = some t' → SoundRun ops t'

variable {t t' : DynamoTable} {now : ℤ}

/-- **Step.**  Every operation keeps a table consistent. -/
theorem consistent_of_run {op : TableOp ε} (h : t.Consistent) (hop : op.Sound t)
    (hr : op.run now t = some t') : t'.Consistent := by
  cases op with
  | put item =>
    obtain rfl := some.inj hr
    exact h.put hop
  | removeByKey key =>
    obtain ⟨⟨u, removed⟩, hu, rfl⟩ := map_eq_some_iff.mp hr
    exact h.removeByKey hu
  | removeAt id =>
    obtain ⟨⟨u, removed⟩, hu, rfl⟩ := map_eq_some_iff.mp hr
    exact (h.removeAt hu).1
  | updateAt id f =>
    obtain ⟨⟨u, result⟩, hu, rfl⟩ := map_eq_some_iff.mp hr
    exact h.updateAt hop hu
  | mutateAt id f => exact h.mutateAt hop hr
  | replace items =>
    obtain rfl := some.inj hr
    exact .replace hop
  | removeWhere remove =>
    obtain ⟨⟨u, removed⟩, hu, rfl⟩ := map_eq_some_iff.mp hr
    exact h.removeWhere hu

theorem consistent_of_runAll {ops : List (TableOp ε × ℤ)} (h : t.Consistent)
    (ho : SoundRun ops t) (hr : runAll ops t = some t') : t'.Consistent := by
  induction ops generalizing t with
  | nil =>
    obtain rfl := some.inj hr
    exact h
  | cons step ops ih =>
    obtain ⟨u, hu, hrs⟩ := bind_eq_some_iff.mp hr
    exact ih (consistent_of_run h ho.1 hu) (ho.2 u hu) hrs

end TableOp

/-- A table over any rows, as it is created or loaded: its index is not built yet. -/
structure DynamoTable.Loaded (t : DynamoTable) : Prop where
  count : t.itemCount = t.items.len
  size : t.sizeBytes = totalSize t.items.rows
  index : t.keyIndex = .unbuilt

variable {t : DynamoTable}

theorem DynamoTable.Loaded.consistent (h : t.Loaded) (hr : t.SoundRows) : t.Consistent :=
  ⟨hr, h.count, h.size, h.index ▸ .unbuilt⟩

/-- A table as some run leaves it, over well-behaved rows. -/
def DynamoTable.Reached (t : DynamoTable) : Prop :=
  ∃ (t₀ : DynamoTable) (ops : List (TableOp Unit × ℤ)), t₀.Loaded ∧ t₀.SoundRows ∧
    TableOp.SoundRun ops t₀ ∧ TableOp.runAll ops t₀ = some t

theorem DynamoTable.Reached.consistent (h : t.Reached) : t.Consistent := by
  obtain ⟨t₀, ops, hl, hr, ho, hrn⟩ := h
  exact TableOp.consistent_of_runAll (hl.consistent hr) ho hrn

theorem DynamoTable.Loaded.reached (h : t.Loaded) (hr : t.SoundRows) :
    t.Reached := ⟨t, [], h, hr, trivial, rfl⟩

/-- **The index answers as the scan would, after every run**, from any rows: whatever was put,
removed, updated, replaced and swept, with closures that fail or move a row onto another row's key.
Count and size are those of the rows, and a built index has one entry for every row with a key. -/
theorem index_refines_scan {ε : Type} {t₀ t : DynamoTable} {ops : List (TableOp ε × ℤ)}
    (hloaded : t₀.Loaded) (hrows : t₀.SoundRows) (hops : TableOp.SoundRun ops t₀)
    (hrun : TableOp.runAll ops t₀ = some t) :
    (∀ key, t.keyNames.Sound key → t.findItemIndex key = t.findItemIndexScan key) ∧
    t.itemCount = t.items.len ∧
    t.sizeBytes = totalSize t.items.rows ∧
    ∀ ids n, t.keyIndex = .built ids n → ids.entries.Perm (keyedRows t.keyNames t.items.rows) := by
  have h := TableOp.consistent_of_runAll (hloaded.consistent hrows) hops hrun
  exact ⟨fun key hk => h.find_eq_scan hk, h.count, h.size, h.index.entries⟩

namespace Example

/-- A table with partition key `p` and sort key `s`, and no rows. -/
def table : DynamoTable where
  name := ['t']
  arn := []
  keySchema := [⟨['p'], .hash⟩, ⟨['s'], .range⟩]
  attributeDefinitions := [⟨['p'], ['S']⟩, ⟨['s'], ['N']⟩]
  items := .empty
  keyIndex := .unbuilt
  gsi := []
  lsi := []
  itemCount := 0
  sizeBytes := 0
  pitrEnabled := false
  pitrHistory := ⟨none, [], 0⟩
  streamEnabled := false
  streamViewType := none
  streamRecords := []
  changeLog := ⟨0, []⟩

theorem table_loaded : table.Loaded := ⟨rfl, rfl, rfl⟩

def row (number : String) : Item :=
  AList.insert ['s'] (.obj [(['N'], .str number.toList)])
    (AList.insert ['p'] (.obj [(['S'], .str ['x'])]) ∅)

/-- `1E9223372036854775807` and ten times it. -/
def low : Item := row "1e9223372036854775807"

def high : Item := row "10e9223372036854775807"

/-- Both rows are written and the larger one is deleted. -/
def deleteHigh : List (TableOp Unit × ℤ) := [(.put low, 0), (.put high, 1), (.removeByKey high, 2)]

/-- **A row is lost to lookups.**  The canonical text of the larger number is read back as the
smaller one, so the two rows share one entry of the index, and the deletion takes it along. -/
theorem lost_row : table.Loaded ∧ table.SoundRows ∧
    ∃ t, TableOp.runAll deleteHigh table = some t ∧
      t.findItemIndex low = none ∧ t.findItemIndexScan low = some 0 := by
  refine ⟨table_loaded, nofun, ?_⟩
  have he : (TableOp.runAll deleteHigh table).map
      (fun t => (t.findItemIndex low, t.findItemIndexScan low)) = some (none, some 0) := by
    decide +kernel
  obtain ⟨t, ht, hf⟩ := map_eq_some_iff.mp he
  exact ⟨t, ht, (mk.inj hf).1, (mk.inj hf).2⟩

/-- Two rows, of which one is moved onto the other's key, and a sweep that takes one of them. -/
def collideAndSweep : List (TableOp Unit × ℤ) :=
  [(.put (row "1"), 0), (.put (row "2"), 1), (.mutateAt 0 fun _ => row "2.0", 2),
    (.updateAt 1 (fun _ => (row "3", .error ())), 3), (.removeWhere fun id _ => id == 0, 4)]

theorem collideAndSweep_sound : TableOp.SoundRun collideAndSweep table := by
  have hs : ∀ t : DynamoTable, t.keyNames = ⟨['p'], some ['s']⟩ →
      ∀ number ∈ ["1", "2", "2.0"], t.keyNames.Sound (row number) := by
    intro t ht
    rw [ht]
    decide +kernel
  refine ⟨hs _ rfl "1" (by simp), fun t₁ h₁ => ?_⟩
  obtain rfl := some.inj h₁
  refine ⟨hs _ rfl "2" (by simp), fun t₂ h₂ => ?_⟩
  obtain rfl := some.inj h₂
  refine ⟨fun _ _ => hs _ rfl "2.0" (by simp), fun t₃ h₃ => ?_⟩
  exact ⟨fun _ _ h => (by cases h), fun t₄ h₄ => ⟨trivial, fun _ _ => trivial⟩⟩

end Example

open Example

theorem index_refines_scan_collide : ∃ t, TableOp.runAll Example.collideAndSweep Example.table = some t ∧
    t.findItemIndex (Example.row "2") = t.findItemIndexScan (Example.row "2") ∧
    t.findItemIndex (Example.row "2") = some 1 := by
  have he : (TableOp.runAll collideAndSweep table).map
      (fun t => (t.findItemIndex (row "2"), decide (t.keyNames.Sound (row "2")))) = some (some 1, true) := by
    decide +kernel
  obtain ⟨t, ht, hf⟩ := map_eq_some_iff.mp he
  have ha := index_refines_scan table_loaded nofun collideAndSweep_sound ht
  exact ⟨t, ht, ha.1 _ (of_decide_eq_true (mk.inj hf).2), (mk.inj hf).1⟩

end Fakecloud.Dynamodb

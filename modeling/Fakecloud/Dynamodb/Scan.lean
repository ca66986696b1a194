import Fakecloud.Dynamodb.Page
import Fakecloud.Lib.StableSort

/-!
# Scan

Scan returns the rows in the order of their encoded keys, page by page; `ExclusiveStartKey` names a
place in that order, not a row.  The order is walked on the key index where that covers every row and
comes from a sort otherwise, and the two give the same rows (`rowsAfter_eq`).

A scan is followed over tables that may be different ones for each page.  Where the rows have
well-behaved keys no two rows compare equal, and each row that is there for every page is returned
exactly once.  `Example.lost_page` shows two rows whose keys compare equal.
-/

namespace Fakecloud.Dynamodb

open Text Paging StableSort List Option DynamoTable RowKey Example ReadPage KeyNames

/-! ## The rows in order -/

def cmpScanOrder : Option RowKey → Option RowKey → Ordering
  | some a, some b => a.cmp b
  | some _, none => .lt
  | none, some _ => .gt
  | none, none => .eq

instance : Std.TransCmp cmpScanOrder where
  eq_swap {a b} := by
    rcases a with _ | a <;> rcases b with _ | b
    · rfl
    · rfl
    · rfl
    · have hs : RowKey.cmp a b = (RowKey.cmp b a).swap := Std.OrientedCmp.eq_swap
      exact hs
  isLE_trans {a b c} h₁ h₂ := by
    rcases c with _ | c
    · rcases a with _ | a <;> rfl
    rcases b with _ | b
    · cases h₂
    rcases a with _ | a
    · cases h₁
    have h₁' : (RowKey.cmp a b).isLE := h₁
    have h₂' : (RowKey.cmp b c).isLE := h₂
    have hac : (RowKey.cmp a c).isLE := Std.TransCmp.isLE_trans h₁' h₂'
    exact hac

namespace DynamoTable

variable (t : DynamoTable)

def sortedRows : List (Option RowKey × Item) :=
  stableSort (fun a b => cmpScanOrder a.1 b.1)
    (t.items.rows.map fun r => (t.encodeKey r.2, r.2))

def behind (start : Option RowKey) (key : Option RowKey) : Bool :=
  match start, key with
  | some start, some key => key.cmp start == .gt
  | _, _ => true

def sortedRowsAfter (start : Option RowKey) : List Item :=
  (t.sortedRows.filter fun r => behind start r.1).map Prod.snd

def entriesAfter (ids : OrdMap RowKey ItemId RowKey.cmp) : Option RowKey → List (RowKey × ItemId)
  | some k => ids.after k
  | none => ids.entries

def indexRowsAfter (ids : OrdMap RowKey ItemId RowKey.cmp) (start : Option RowKey) : List Item :=
  (entriesAfter ids start).filterMap fun e => t.items.get e.2

/-- The rows behind an encoded key: off the index, if that covers every row. -/
def rowsAfter (start : Option RowKey) : List Item :=
  match t.keyIndex with
  | .built ids rows =>
    if rows = t.items.len ∧ ids.entries.length = t.items.len then t.indexRowsAfter ids start
    else t.sortedRowsAfter start
  | _ => t.sortedRowsAfter start

def scanRowsAfter : Option Item → List Item
  | none => t.rowsAfter none
  | some key =>
    match t.encodeKey key with
    | none => []
    | some k => t.rowsAfter (some k)

end DynamoTable

/-! ## The request -/

structure ScanRequest where
  indexName : Option Str
  consistentRead : Bool
  segment : Option ℤ
  totalSegments : Option ℤ
  limit : Option ℤ
  exclusiveStartKey : Option Item
  /-- What the filter expression says of a row, on an index of its projection. -/
  filter : Option (Item → Bool)

def maxTotalSegments : ℤ := 1000000

def outOfBounds (value : ℤ) (field relation : String) (bound : ℤ) : Str :=
  "Value '" ++ showInt value ++ "' at '" ++ field.toList ++
    "' failed to satisfy constraint: Member must have value " ++ relation.toList ++
    " than or equal to " ++ showInt bound

namespace ScanRequest

variable (req : ScanRequest)

def violations : List Str :=
  ((req.limit.filter (· < 1)).map fun l => outOfBounds l "limit" "greater" 1).toList ++
  ((req.segment.filter (· < 0)).map fun s => outOfBounds s "segment" "greater" 0).toList ++
  (match req.totalSegments with
    | some t =>
      if t < 1 then [outOfBounds t "totalSegments" "greater" 1]
      else if maxTotalSegments < t then [outOfBounds t "totalSegments" "less" maxTotalSegments]
      else []
    | none => [])

end ScanRequest

def frameworkValidationError (errors : List Str) : ServiceError :=
  validationError (showInt errors.length ++
    (if errors.length = 1 then " validation error detected: ".toList
      else " validation errors detected: ".toList) ++ List.intercalate "; ".toList errors)

namespace ScanRequest

variable (req : ScanRequest)

/-- `Segment` and `TotalSegments`, which come together. -/
def segments : Except ServiceError (Option (ℕ × ℕ)) :=
  match req.segment.map Int.toNat, req.totalSegments.map Int.toNat with
  | some _, none => .error (validationError ("The TotalSegments parameter is required but was not " ++
      "present in the request when Segment parameter is present").toList)
  | none, some _ => .error (validationError ("The Segment parameter is required but was not present " ++
      "in the request when parameter TotalSegments is present").toList)
  | some segment, some total =>
    if total ≤ segment then
      .error (validationError (("The Segment parameter is zero-based and must be less than parameter " ++
        "TotalSegments: Segment: ").toList ++ showInt segment ++
        " is not less than TotalSegments: " ++ showInt total))
    else .ok (some (segment, total))
  | none, none => .ok none

end ScanRequest

def SecondaryIndex.keyAttributes (index : SecondaryIndex) : List Str :=
  index.keySchema.map KeySchemaElement.attributeName

/-- The index that a read names; a global one has no consistent reads. -/
def DynamoTable.findIndex (t : DynamoTable) (name : Str) (consistentRead : Bool) :
    Except ServiceError SecondaryIndex :=
  match t.gsi.find? fun g => g.indexName = name with
  | some g =>
    if consistentRead then .error (validationError
      "Consistent reads are not supported on global secondary indexes")
    else .ok g
  | none =>
    match t.lsi.find? fun l => l.indexName = name with
    | some l => .ok l
    | none => .error (validationError
        ("The table does not have the specified index: " ++ name))

/-- What a request asks for once it has been checked. -/
structure ScanPlan where
  limit : Option ℕ
  segment : Option (ℕ × ℕ)
  indexKeys : List Str

/-- The checks of a request apart from its starting key. -/
def ScanRequest.plan (req : ScanRequest) (t : DynamoTable) : Except ServiceError ScanPlan := do
  if req.violations ≠ [] then throw (frameworkValidationError req.violations)
  let segment ← req.segments
  let indexKeys ← match req.indexName with
    | some name => SecondaryIndex.keyAttributes <$> t.findIndex name req.consistentRead
    | none => pure []
  pure { limit := req.limit.map Int.toNat, segment, indexKeys }

def ScanRequest.keeps (req : ScanRequest) (item : Item) : Bool := req.filter.all (· item)

/-! ## A page -/

/-- The segment of a row, by a hash of the text of its partition key. -/
def segmentOf (hasher : Str → ℕ) (names : KeyNames) (total : ℕ) (item : Item) : ℕ :=
  hasher (((item.lookup names.hash).map Json.write).getD []) % total

/-- Whether a row is looked at: it is in the index, and in the segment. -/
def ScanPlan.covers (plan : ScanPlan) (hasher : Str → ℕ) (names : KeyNames) (item : Item) : Bool :=
  (plan.indexKeys.all fun k => (item.lookup k).isSome) &&
    match plan.segment with
    | some (segment, total) => segmentOf hasher names total item == segment
    | none => true

/-- The loop of a page: the rows examined, and whether others are left. -/
def examine (limit : Option ℕ) : List Item → List Item → ℕ → List Item × Bool
  | [], matched, _ => (matched, false)
  | item :: candidates, matched, bytes =>
    if pageFull limit (matched.length + 1) (bytes + itemSize item) then
      (matched ++ [item], !candidates.isEmpty)
    else examine limit candidates (matched ++ [item]) (bytes + itemSize item)

/-- The key of the last row of a page: the table's, with that of the index. -/
def lastKey (names : KeyNames) (indexKeys : List Str) (item : Item) : Item :=
  copyAttributes item (extractKeyForSchema item names) indexKeys

def scan (hasher : Str → ℕ) (t : DynamoTable) (req : ScanRequest) : Except ServiceError ReadPage := do
  let plan ← req.plan t
  if req.exclusiveStartKey.any fun esk => !t.startKeyMatchesSchema esk plan.indexKeys then
    throw (validationError ("The provided starting key is invalid: The provided key element does not " ++
      "match the schema").toList)
  let candidates := (t.scanRowsAfter req.exclusiveStartKey).filter (plan.covers hasher t.keyNames)
  let (matched, hasMore) := examine plan.limit candidates [] 0
  pure
    { examined := matched
      items := matched.filter req.keeps
      lastEvaluatedKey :=
        if hasMore then matched.getLast?.map (lastKey t.keyNames plan.indexKeys) else none }

/-- Page after page, each from the table of its time and with a limit of its own. -/
def scanPages (hasher : Str → ℕ) (req : ScanRequest) (served : List (DynamoTable × Option ℤ))
    (start : Option Item) : Except ServiceError (List ReadPage) :=
  followPages (fun now start => scan hasher now.1 { req with limit := now.2, exclusiveStartKey := start })
    served start

/-! ## The walk and the sort -/

section Order

variable {t : DynamoTable} {ids : OrdMap RowKey ItemId RowKey.cmp} {n : ℕ}

instance : Std.TransCmp fun a b : Option RowKey × Item => cmpScanOrder a.1 b.1 :=
  transCmp_comap Prod.fst

def entryRows (t : DynamoTable) (entries : List (RowKey × ItemId)) : List (Option RowKey × Item) :=
  entries.filterMap fun e => (t.items.get e.2).map fun item => (some e.1, item)

theorem keyed_of_cover (h : IndexOf t.keyNames t.items.rows t.keyIndex)
    (hi : t.keyIndex = .built ids n) (hl : ids.entries.length = t.items.len) :
    ∀ r ∈ t.items.rows, (t.encodeKey r.2).isSome := by
  have hp := h.entries ids n hi
  rw [hp.length_eq, keyedRows, length_filterMap_eq_countP, TableItems.len, countP_eq_length] at hl
  intro r hr
  have := hl r hr
  rw [isSome_map] at this
  exact this

theorem entryRows_perm (h : IndexOf t.keyNames t.items.rows t.keyIndex)
    (hi : t.keyIndex = .built ids n) (hl : ids.entries.length = t.items.len) :
    (entryRows t ids.entries).Perm (t.items.rows.map fun r => (t.encodeKey r.2, r.2)) := by
  have hky := keyed_of_cover h hi hl
  refine ((h.entries ids n hi).filterMap _).trans (.of_eq ?_)
  rw [keyedRows, filterMap_filterMap, ← filterMap_eq_map]
  refine filterMap_congr fun r hr => ?_
  obtain ⟨k, hk⟩ := isSome_iff_exists.mp (hky r hr)
  have hg : t.items.get r.1 = some r.2 := TableItems.get_eq_some.mpr hr
  have hk' : t.keyNames.encode r.2 = some k := hk
  simp [hk, hk', hg]

theorem entryRows_sorted (ids : OrdMap RowKey ItemId cmp) :
    (entryRows t ids.entries).Pairwise fun a b => cmpScanOrder a.1 b.1 = .lt := by
  refine ids.sorted.filterMap _ fun e e' hlt a ha b hb => ?_
  obtain ⟨_, -, rfl⟩ := map_eq_some_iff.mp ha
  obtain ⟨_, -, rfl⟩ := map_eq_some_iff.mp hb
  exact hlt

theorem indexRowsAfter_eq (start : Option RowKey) : t.indexRowsAfter ids start =
      ((entryRows t ids.entries).filter fun r => behind start r.1).map Prod.snd := by
  have ha : entriesAfter ids start = ids.entries.filter fun e => behind start (some e.1) := by
    rcases start with _ | k
    · simp [entriesAfter, behind]
    · refine filter_congr fun e _ => ?_
      have hs : cmp k e.1 = (cmp e.1 k).swap := Std.OrientedCmp.eq_swap
      rw [hs, behind]
      cases cmp e.1 k <;> rfl
  rw [indexRowsAfter, ha, entryRows, filter_filterMap, map_filterMap, filterMap_filter]
  refine filterMap_congr fun e _ => ?_
  rcases t.items.get e.2 with _ | item
  · simp
  · by_cases hb : behind start (some e.1) <;> simp [hb]

/-- **The walk on the index and the sort give the same rows.** -/
theorem DynamoTable.Consistent.rowsAfter_eq (h : t.Consistent) (start : Option RowKey) :
    t.rowsAfter start = t.sortedRowsAfter start := by
  unfold rowsAfter
  split
  · next ids n hi =>
    split
    · next hc =>
      have hs : t.sortedRows = entryRows t ids.entries :=
        stableSort_eq_of_perm (entryRows_perm h.index hi hc.2) (entryRows_sorted ids)
      rw [indexRowsAfter_eq, sortedRowsAfter, hs]
    · rfl
  · rfl

end Order

/-! ## One page -/

theorem examine_eq (limit : Option ℕ) (rows matched : List Item) (bytes : ℕ) :
    examine limit rows matched bytes =
      (matched ++ rows.take (pageLoop limit rows matched.length bytes - matched.length),
        decide (pageLoop limit rows matched.length bytes - matched.length < rows.length)) := by
  induction rows generalizing matched bytes with
  | nil => simp [examine]
  | cons item rows ih =>
    unfold examine pageLoop
    split
    · rcases rows with _ | ⟨next, rows⟩ <;> simp
    · rw [ih]
      have hl : (matched ++ [item]).length = matched.length + 1 := by simp
      rw [hl]
      have := pageLoop_bounds limit rows (matched.length + 1) (bytes + itemSize item)
      generalize pageLoop limit rows (matched.length + 1) (bytes + itemSize item) = m at this ⊢
      obtain ⟨j, rfl⟩ : ∃ j, m = matched.length + 1 + j := ⟨m - (matched.length + 1), by omega⟩
      have hj : matched.length + 1 + j - matched.length = j + 1 := by omega
      rw [hj]
      simp

theorem examine_nil (limit : Option ℕ) (rows : List Item) : examine limit rows [] 0 =
      (rows.take (pageLength rows limit), decide (pageLength rows limit < rows.length)) := by
  have h := examine_eq limit rows [] 0
  exact h

def schemaNames (schema : List KeySchemaElement) : KeyNames :=
  ⟨(schemaAttribute schema .hash).getD [], schemaAttribute schema .range⟩

/-- A row has its key, and the attributes of an index that it has are of their types. -/
structure DynamoTable.WellKeyed (t : DynamoTable) (indexKeys : List Str) (item : Item) : Prop where
  key : ∀ a ∈ t.tableKeys, t.hasTyped item a
  index : ∀ a ∈ indexKeys, (item.lookup a).isSome → t.hasTyped item a

/-- **What a page is served from**: a table that some run left, of a given schema, whose rows have
keys of the declared types, no two of them the same. -/
structure DynamoTable.Ready (t : DynamoTable) (schema : List KeySchemaElement)
    (definitions : List AttributeDefinition) (indexKeys : List Str) : Prop where
  reached : t.Reached
  keySchema : t.keySchema = schema
  attributeDefinitions : t.attributeDefinitions = definitions
  names : t.tableKeys.Nodup
  keyed : ∀ r ∈ t.items.rows, t.WellKeyed indexKeys r.2
  distinct : t.items.rows.Pairwise fun a b => t.keyNames.isKeyOf a.2 b.2 = false

def KeyLt (a b : Option RowKey) : Prop := cmpScanOrder a b = .lt

theorem behind_iff (start key : Option RowKey) : behind start key ↔ Above KeyLt (start.map some) key := by
  rcases start with _ | s
  · simp [behind, Above]
  · rcases key with _ | k
    · simp [behind, Above, KeyLt, cmpScanOrder]
    · have hs : cmp s k = (cmp k s).swap := Std.OrientedCmp.eq_swap
      simp only [behind, map_some, Above, KeyLt, cmpScanOrder, hs]
      cases cmp k s <;> decide

section Page

variable {t : DynamoTable} {schema : List KeySchemaElement} {definitions : List AttributeDefinition}
  {indexKeys : List Str}

theorem mem_sortedRows {r : Option RowKey × Item} :
    r ∈ t.sortedRows ↔ ∃ id, (id, r.2) ∈ t.items.rows ∧ r.1 = t.encodeKey r.2 := by
  rw [sortedRows, mem_stableSort, List.mem_map]
  constructor
  · rintro ⟨⟨id, item⟩, hm, rfl⟩
    exact ⟨id, hm, rfl⟩
  · rintro ⟨id, hm, hk⟩
    exact ⟨_, hm, Prod.ext hk.symm rfl⟩

section

variable (h : t.Ready schema definitions indexKeys)
include h

theorem DynamoTable.Ready.keyNames_eq : t.keyNames = schemaNames schema := by
  rw [← h.keySchema]
  rfl

theorem DynamoTable.Ready.isSome {r : ItemId × Item} (hr : r ∈ t.items.rows) : (t.encodeKey r.2).isSome := by
  have hk := isSome_of_hasTyped ((h.keyed r hr).key t.hashKeyName mem_cons_self)
  obtain ⟨v, hv⟩ : ∃ v, r.2.lookup t.keyNames.hash = some v := isSome_iff_exists.mp hk
  rw [encodeKey, encode_of_lookup hv]
  rfl

theorem DynamoTable.Ready.pairwise_ne :
    t.items.rows.Pairwise fun a b => cmpScanOrder (t.encodeKey a.2) (t.encodeKey b.2) ≠ .eq := by
  have hs := h.reached.consistent.sound
  refine List.Pairwise.imp_of_mem ?_ h.distinct
  intro a b ha hb hne heq
  obtain ⟨k, hk⟩ := isSome_iff_exists.mp (h.isSome ha)
  obtain ⟨l, hl⟩ := isSome_iff_exists.mp (h.isSome hb)
  rw [hk, hl] at heq
  have hkl : k = l := eq_of_cmp_eq (encode_faithful (hs a ha) hk)
    (encode_faithful (hs b hb) hl) heq
  have := (isKeyOf_iff (hs b hb) (hs a ha)).mpr ⟨l, hl, hkl ▸ hk⟩
  rw [hne] at this
  cases this

theorem DynamoTable.Ready.sortedRows_lt : t.sortedRows.Pairwise fun a b => KeyLt a.1 b.1 := by
  have hne : (t.items.rows.map fun r => (t.encodeKey r.2, r.2)).Pairwise
      fun a b => cmpScanOrder a.1 b.1 ≠ .eq := pairwise_map.mpr h.pairwise_ne
  refine (stableSort_before hne).imp fun hb => ?_
  rcases hb with hlt | ⟨heq, hne⟩
  · exact hlt
  · exact absurd heq hne

theorem DynamoTable.Ready.rowsAfter_spec (start : Option RowKey) :
    (t.rowsAfter start).Pairwise (fun a b => KeyLt (t.encodeKey a) (t.encodeKey b)) ∧
    ∀ item, item ∈ t.rowsAfter start ↔
      (∃ id, (id, item) ∈ t.items.rows) ∧ Above KeyLt (start.map some) (t.encodeKey item) := by
  rw [h.reached.consistent.rowsAfter_eq]
  refine ⟨?_, fun item => ?_⟩
  · rw [sortedRowsAfter, pairwise_map]
    refine (h.sortedRows_lt.sublist filter_sublist).imp_of_mem fun {a b} ha hb hab => ?_
    obtain ⟨_, -, ha'⟩ := mem_sortedRows.mp (mem_of_mem_filter ha)
    obtain ⟨_, -, hb'⟩ := mem_sortedRows.mp (mem_of_mem_filter hb)
    rw [← ha', ← hb']
    exact hab
  · rw [sortedRowsAfter, List.mem_map, ← behind_iff]
    constructor
    · rintro ⟨r, hr, rfl⟩
      obtain ⟨hr, hbh⟩ := mem_filter.mp hr
      obtain ⟨id, hm, hk⟩ := mem_sortedRows.mp hr
      exact ⟨⟨id, hm⟩, hk ▸ hbh⟩
    · rintro ⟨⟨id, hm⟩, hbh⟩
      exact ⟨(t.encodeKey item, item), mem_filter.mpr ⟨mem_sortedRows.mpr ⟨id, hm, rfl⟩, hbh⟩, rfl⟩

theorem DynamoTable.Ready.eq_of_encode {r r' : ItemId × Item} (hr : r ∈ t.items.rows)
    (hr' : r' ∈ t.items.rows) (heq : t.encodeKey r.2 = t.encodeKey r'.2) : r = r' := by
  have : Std.Symm fun a b : ItemId × Item =>
      cmpScanOrder (t.encodeKey a.2) (t.encodeKey b.2) ≠ .eq :=
    ⟨fun _ _ hne h' => hne (Std.OrientedCmp.eq_symm h')⟩
  by_contra hne
  refine h.pairwise_ne.forall hr hr' hne ?_
  rw [heq]
  exact Std.ReflCmp.compare_self

end

/-! ### The key that a page hands out -/

theorem lastKey_eq (t : DynamoTable) (indexKeys : List Str) (item : Item) :
    lastKey t.keyNames indexKeys item = copyAttributes item ∅ (t.tableKeys ++ indexKeys) := by
  rw [copyAttributes, foldl_append]
  rfl

theorem encodeKey_lastKey (t : DynamoTable) (indexKeys : List Str) (item : Item) :
    t.encodeKey (lastKey t.keyNames indexKeys item) = t.encodeKey item := by
  have hl : ∀ a ∈ t.tableKeys, (lastKey t.keyNames indexKeys item).lookup a = item.lookup a := by
    intro a ha
    rw [lastKey_eq, lookup_copyAttributes]
    rcases hv : item.lookup a with _ | v
    · simp
    · simp [ha]
  have hh := hl t.keyNames.hash mem_cons_self
  rw [encodeKey, encodeKey, encode, encode, hh]
  rcases hr : t.keyNames.range with _ | rk
  · rfl
  · have hm : rk ∈ t.tableKeys := by
      refine mem_cons_of_mem _ ?_
      rw [show t.rangeKeyName = some rk from hr]
      exact mem_singleton.mpr rfl
    simp [hl rk hm]

/-- A starting key that is accepted and names a place. -/
def Resumes (t : DynamoTable) (indexKeys : List Str) (start : Option Item) : Prop :=
  ∀ key ∈ start, t.startKeyMatchesSchema key indexKeys ∧ (t.encodeKey key).isSome

theorem Resumes.congr {t' : DynamoTable} {start : Option Item} (h : Resumes t indexKeys start)
    (hs : t'.keySchema = t.keySchema)
    (hd : t'.attributeDefinitions = t.attributeDefinitions) : Resumes t' indexKeys start := by
  have ht : t'.hasTyped = t.hasTyped := by
    funext item a
    simp only [hasTyped, typedAs, declaredType, hd]
  intro key hk
  obtain ⟨ha, hsm⟩ := h key hk
  refine ⟨?_, ?_⟩
  · unfold startKeyMatchesSchema requiredKeys tableKeys
      hashKeyName rangeKeyName at ha ⊢
    rw [ht, hs]
    exact ha
  · rw [encodeKey, keyNames_congr hs]
    exact hsm

def CoveredAt (t : DynamoTable) (covers : Item → Bool) (k : Option RowKey) : Prop :=
  ∃ r ∈ t.items.rows, t.encodeKey r.2 = k ∧ covers r.2

/-- **Step.**  A request with a good starting key is answered with a page, and with a good starting
key if there is more. -/
theorem scan_step (hasher : Str → ℕ) (req : ScanRequest) (plan : ScanPlan)
    (h : t.Ready schema definitions plan.indexKeys) (hp : req.plan t = .ok plan)
    (hs : Resumes t plan.indexKeys req.exclusiveStartKey) :
    ∃ page, scan hasher t req = .ok page ∧ page.items = page.examined.filter req.keeps ∧
      (∀ item ∈ page.examined, ∃ id, (id, item) ∈ t.items.rows) ∧
      IsPage KeyLt (CoveredAt t (plan.covers hasher t.keyNames))
        (req.exclusiveStartKey.map t.encodeKey) (page.examined.map t.encodeKey)
        (page.lastEvaluatedKey.map t.encodeKey) ∧ Resumes t plan.indexKeys page.lastEvaluatedKey := by
  -- the rows behind the starting key, which is accepted
  obtain ⟨start, hrw, hcr, hac⟩ : ∃ start, t.scanRowsAfter req.exclusiveStartKey = t.rowsAfter start ∧
      start.map some = req.exclusiveStartKey.map t.encodeKey ∧
      (req.exclusiveStartKey.any fun esk => !t.startKeyMatchesSchema esk plan.indexKeys) = false := by
    rcases he : req.exclusiveStartKey with _ | esk
    · exact ⟨none, rfl, rfl, rfl⟩
    · obtain ⟨ha, hk⟩ := hs esk he
      obtain ⟨k, hk⟩ := isSome_iff_exists.mp hk
      exact ⟨some k, by simp [scanRowsAfter, hk], by simp [hk], by simp [ha]⟩
  obtain ⟨hsr, hm⟩ := h.rowsAfter_spec start
  rw [hcr] at hm
  set candidates := (t.rowsAfter start).filter (plan.covers hasher t.keyNames) with hcn
  set n := pageLength candidates plan.limit with hn
  have hro : ∀ item ∈ candidates.take n,
      (∃ id, (id, item) ∈ t.items.rows) ∧ plan.covers hasher t.keyNames item := fun item hi => by
    obtain ⟨hi, hc⟩ := mem_filter.mp (mem_of_mem_take hi)
    exact ⟨((hm item).mp hi).1, hc⟩
  refine ⟨⟨candidates.take n, (candidates.take n).filter req.keeps,
    if n < candidates.length then
      (candidates.take n).getLast?.map (lastKey t.keyNames plan.indexKeys) else none⟩,
    ?_, rfl, fun item hi => (hro item hi).1, ?_, ?_⟩
  · unfold scan
    rw [hp]
    simp only [hac, hrw, examine_nil, decide_eq_true_eq, bind, Except.bind]
    rfl
  · have hky : ∀ k, k ∈ candidates.map t.encodeKey ↔ CoveredAt t (plan.covers hasher t.keyNames) k ∧
          Above KeyLt (req.exclusiveStartKey.map t.encodeKey) k := by
      intro k
      rw [List.mem_map]
      constructor
      · rintro ⟨item, hi, rfl⟩
        obtain ⟨hi, hc⟩ := mem_filter.mp hi
        obtain ⟨⟨id, hid⟩, hab⟩ := (hm item).mp hi
        exact ⟨⟨_, hid, rfl, hc⟩, hab⟩
      · rintro ⟨⟨r, hr, rfl, hc⟩, hab⟩
        exact ⟨r.2, mem_filter.mpr ⟨(hm r.2).mpr ⟨⟨r.1, hr⟩, hab⟩, hc⟩, rfl⟩
    have hps : candidates.map t.encodeKey ≠ [] → 0 < n := fun hne =>
      pageLength_pos (fun hnl => hne (by rw [hnl]; rfl)) plan.limit
    have hpg := isPage_take (pairwise_map.mpr (hsr.sublist filter_sublist)) hky hps
    convert hpg using 1
    · rw [map_take]
    · rw [length_map]
      split
      · rw [← map_take, getLast?_map, Option.map_map]
        congr 1
        funext item
        exact encodeKey_lastKey t plan.indexKeys item
      · rfl
  · intro key hke
    split at hke
    · obtain ⟨item, hi, rfl⟩ := map_eq_some_iff.mp hke
      obtain ⟨⟨id, hid⟩, hc⟩ := hro item (mem_of_getLast? hi)
      refine ⟨?_, ?_⟩
      · rw [lastKey_eq]
        refine startKeyMatchesSchema_of_row h.names (fun a ha => ?_) fun a => ?_
        · rcases mem_requiredKeys.mp ha with ha | ha
          · exact (h.keyed _ hid).key a ha
          · have hal : plan.indexKeys.all fun k => (item.lookup k).isSome := (Bool.and_eq_true_iff.mp hc).1
            exact (h.keyed _ hid).index a ha (all_eq_true.mp hal a ha)
        · rw [mem_append, mem_requiredKeys]
      · rw [encodeKey_lastKey]
        exact h.isSome hid
    · cases hke

end Page

/-! ## Following `LastEvaluatedKey` -/

section Run

variable {hasher : Str → ℕ} {req : ScanRequest} {plan : ScanPlan} {schema : List KeySchemaElement}
  {definitions : List AttributeDefinition} {served : List (DynamoTable × Option ℤ)}

/-- **Run.**  The pages are a walk over the keys of the tables they were served from. -/
theorem scanPages_walk (hrd : ∀ s ∈ served, s.1.Ready schema definitions plan.indexKeys)
    (hp : ∀ s ∈ served, ∃ limit, ({ req with limit := s.2 }).plan s.1 = .ok { plan with limit }) :
    ∃ pages ended, scanPages hasher req served none = .ok pages ∧ Walk KeyLt none
        ((served.take pages.length).map fun s =>
          CoveredAt s.1 (plan.covers hasher (schemaNames schema)))
        ((pages.flatMap examined).map (schemaNames schema).encode) ended ∧
      (ended = true ↔ Finished pages) ∧ (ended = false → pages.length = served.length) ∧
      ∀ page ∈ pages, ∃ s ∈ served.take pages.length, page.items = page.examined.filter req.keeps ∧
        ∀ item ∈ page.examined, ∃ id, (id, item) ∈ s.1.items.rows := by
  -- the tables that are left meet the assumptions, and accept the starting key
  let inv : List (DynamoTable × Option ℤ) → Option Item → Option (Option RowKey) → Prop :=
    fun rest start cursor => (∀ s ∈ rest, s ∈ served ∧ Resumes s.1 plan.indexKeys start) ∧
      cursor = start.map (schemaNames schema).encode
  have hin : inv served none none := ⟨fun s hs => ⟨hs, nofun⟩, rfl⟩
  refine followPages_walk ?_ hin
  rintro now later start cursor ⟨hrs, rfl⟩
  obtain ⟨hnw, hst⟩ := hrs now mem_cons_self
  have ht := hrd now hnw
  obtain ⟨l, hl⟩ := hp now hnw
  obtain ⟨page, hpg, hit, hrw, hi, hr⟩ :=
    scan_step hasher { req with limit := now.2, exclusiveStartKey := start } { plan with limit := l }
      ht hl hst
  have hn : now.1.keyNames = schemaNames schema := ht.keyNames_eq
  have he : now.1.encodeKey = (schemaNames schema).encode := by
    rw [← hn]
    rfl
  rw [he, hn] at hi
  refine ⟨page, _, hpg, ⟨hit, hrw⟩, hi, ?_⟩
  rcases hls : page.lastEvaluatedKey with _ | key
  · exact .inl ⟨rfl, rfl⟩
  · rw [hls] at hr
    refine .inr ⟨key, _, rfl, rfl, fun s hs => ?_, rfl⟩
    obtain ⟨hs, -⟩ := hrs s (mem_cons_of_mem _ hs)
    have hs' := hrd s hs
    exact ⟨hs, hr.congr (hs'.keySchema.trans ht.keySchema.symm)
      (hs'.attributeDefinitions.trans ht.attributeDefinitions.symm)⟩

theorem sound_of_served {n : ℕ} {item : Item} (hr : ∀ s ∈ served, s.1.Ready schema definitions plan.indexKeys)
    (h : ∃ s ∈ served.take n, ∃ id, (id, item) ∈ s.1.items.rows) : (schemaNames schema).Sound item := by
  obtain ⟨s, hs, id, hid⟩ := h
  have ht := hr s (mem_of_mem_take hs)
  rw [← ht.keyNames_eq]
  exact ht.reached.consistent.sound _ hid

end Run

theorem existsUnique_segment (plan : ScanPlan) (hasher : Str → ℕ) (names : KeyNames) {total : ℕ}
    (ht : total ≠ 0) {item : Item}
    (hi : plan.indexKeys.all fun k => (item.lookup k).isSome) : ∃! segment, segment < total ∧
      ({ plan with segment := some (segment, total) } : ScanPlan).covers hasher names item := by
  refine ⟨segmentOf hasher names total item, ⟨Nat.mod_lt _ (Nat.pos_of_ne_zero ht), ?_⟩, ?_⟩
  · simp [ScanPlan.covers, hi]
  · rintro segment ⟨-, hc⟩
    have hs := (Bool.and_eq_true_iff.mp hc).2
    exact (beq_iff_eq.mp hs).symm

/-- **A scan returns every row once.**  A client follows `LastEvaluatedKey`; for each page the table is
whatever some run made of it, over rows with well-behaved, distinct keys.  Each request is answered.
No two rows that were read have one key, and once the last page has been read, every row that was
there for each page, in the index and the segment and kept by the filter, has been returned.  While
the end is not reached every page reads a row.  The index and the sort give the same rows, and each
row is in one segment. -/
theorem scan_returns_each_row_once (hasher : Str → ℕ) (req : ScanRequest) (plan : ScanPlan)
    {schema : List KeySchemaElement} {definitions : List AttributeDefinition}
    {served : List (DynamoTable × Option ℤ)}
    (hready : ∀ s ∈ served, s.1.Ready schema definitions plan.indexKeys)
    (hplan : ∀ s ∈ served, ∃ limit, ({ req with limit := s.2 }).plan s.1 = .ok { plan with limit }) :
    (∃ pages, scanPages hasher req served none = .ok pages ∧
      (pages.flatMap examined).Pairwise
        (fun a b => (schemaNames schema).isKeyOf a b = false) ∧
      (∀ page ∈ pages, page.items = page.examined.filter req.keeps) ∧
      (Finished pages → ∀ key, (schemaNames schema).Sound key →
        (∀ s ∈ served.take pages.length, ∃ r ∈ s.1.items.rows,
          (schemaNames schema).isKeyOf key r.2 ∧ plan.covers hasher (schemaNames schema) r.2 ∧
            req.keeps r.2) →
        ∃ item ∈ pages.flatMap items, (schemaNames schema).isKeyOf key item) ∧
      (¬ Finished pages → pages.length = served.length ∧
        pages.length ≤ (pages.flatMap examined).length)) ∧
    (∀ s ∈ served, ∀ start, s.1.rowsAfter start = s.1.sortedRowsAfter start) ∧
    ∀ total ≠ 0, ∀ item : Item, (plan.indexKeys.all fun k => (item.lookup k).isSome) →
      ∃! segment, segment < total ∧ ({ plan with segment := some (segment, total) } : ScanPlan).covers
        hasher (schemaNames schema) item := by
  refine ⟨?_, fun s hs start => (hready s hs).reached.consistent.rowsAfter_eq start,
    fun total htt item hin => existsUnique_segment plan hasher _ htt hin⟩
  obtain ⟨pages, ended, hpg, hw, hf, hal, hsr⟩ := scanPages_walk hready hplan
  have hkp : ∀ page ∈ pages, page.items = page.examined.filter req.keeps := fun page hp => by
    obtain ⟨-, -, hit, -⟩ := hsr page hp
    exact hit
  have hfr : ∀ item ∈ pages.flatMap examined,
      ∃ s ∈ served.take pages.length, ∃ id, (id, item) ∈ s.1.items.rows := fun item hi => by
    obtain ⟨page, hp, hi⟩ := mem_flatMap.mp hi
    obtain ⟨s, hs, -, hrw⟩ := hsr page hp
    exact ⟨s, hs, hrw item hi⟩
  have hsn : ∀ item ∈ pages.flatMap examined, (schemaNames schema).Sound item :=
    fun item hi => sound_of_served hready (hfr item hi)
  refine ⟨pages, hpg, ?_, hkp, ?_, ?_⟩
  · have hso := pairwise_map.mp (hw.sorted fun _ _ _ => Std.TransCmp.lt_trans).1
    refine hso.imp_of_mem fun {a b} ha hb hlt => Bool.eq_false_iff.mpr fun hky => ?_
    obtain ⟨k, hk, hk'⟩ := (isKeyOf_iff (hsn b hb) (hsn a ha)).mp hky
    have hsl : cmpScanOrder (some k) (some k) = .eq := Std.ReflCmp.compare_self
    rw [KeyLt, hk, hk', hsl] at hlt
    cases hlt
  · intro hen key hkey hth
    obtain rfl : ended = true := hf.mpr hen
    -- a row with the key has its encoding
    have he : ∀ s ∈ served.take pages.length, ∀ r ∈ s.1.items.rows, (schemaNames schema).isKeyOf key r.2 →
        (schemaNames schema).encode r.2 = (schemaNames schema).encode key := by
      intro s hs r hr hky
      obtain ⟨k, hk, hk'⟩ := (isKeyOf_iff (sound_of_served hready ⟨s, hs, r.1, hr⟩) hkey).mp hky
      rw [hk, hk']
    have hc : ∀ there ∈ (served.take pages.length).map fun s =>
        CoveredAt s.1 (plan.covers hasher (schemaNames schema)), there ((schemaNames schema).encode key) := by
      intro there hst
      obtain ⟨s, hs, rfl⟩ := mem_map.mp hst
      obtain ⟨r, hr, hky, hcv, -⟩ := hth s hs
      refine ⟨r, hr, ?_, hcv⟩
      rw [encodeKey, (hready s (mem_of_mem_take hs)).keyNames_eq]
      exact he s hs r hr hky
    obtain ⟨item, hi, heq⟩ := mem_map.mp (hw.complete hc trivial)
    -- the row that was read is the one that the filter keeps
    obtain ⟨s, hs, id, hid⟩ := hfr item hi
    obtain ⟨r, hr, hky, -, hke⟩ := hth s hs
    have ht := hready s (mem_of_mem_take hs)
    have hsm : r = (id, item) := by
      refine ht.eq_of_encode hr hid ?_
      rw [encodeKey, encodeKey, ht.keyNames_eq, heq]
      exact he s hs r hr hky
    subst hsm
    obtain ⟨page, hp, hex⟩ := mem_flatMap.mp hi
    refine ⟨item, mem_flatMap.mpr ⟨page, hp, ?_⟩, hky⟩
    rw [hkp page hp]
    exact mem_filter.mpr ⟨hex, hke⟩
  · intro hn
    obtain rfl : ended = false := Bool.eq_false_iff.mpr fun h => hn (hf.mp h)
    have := hw.progress
    rw [length_map, length_map, hal rfl, take_length] at this
    exact ⟨hal rfl, (hal rfl).symm ▸ this⟩

namespace Example

def holding (rows : List Item) : DynamoTable :=
  { table with
    items := .new rows
    itemCount := rows.length
    sizeBytes := TableItems.totalSize (TableItems.new rows).rows }

theorem holding_loaded (rows : List Item) : (holding rows).Loaded := by
  refine ⟨?_, rfl, rfl⟩
  have hl := congrArg List.length (TableItems.rows_new rows)
  rw [length_map] at hl
  exact congrArg Nat.cast hl.symm

def wholeTable : ScanRequest where
  indexName := none
  consistentRead := false
  segment := none
  totalSegments := none
  limit := none
  exclusiveStartKey := none
  filter := none

/-- **A row is lost between pages.**  The keys of the two rows compare equal, so behind the first of
them there is nothing left. -/
theorem lost_page : (holding [low, high]).Loaded ∧
    (holding [low, high]).keyNames.isKeyOf low high = false ∧
    ∃ pages, scanPages (fun _ => 0) wholeTable
        [(holding [low, high], some 1), (holding [low, high], some 1)] none = .ok pages ∧
      Finished pages ∧
      (1, high) ∈ (holding [low, high]).items.rows ∧
      ∀ item ∈ pages.flatMap ReadPage.items,
        (holding [low, high]).keyNames.isKeyOf high item = false := by
  refine ⟨holding_loaded _, by decide +kernel, ?_⟩
  have he : (scanPages (fun _ => 0) wholeTable
      [(holding [low, high], some 1), (holding [low, high], some 1)] none).toOption.map
      (fun pages => (pages.getLast?.map fun page => page.lastEvaluatedKey.isNone,
        (pages.flatMap items).all fun item =>
          (holding [low, high]).keyNames.isKeyOf high item == false)) = some (some true, true) := by
    decide +kernel
  obtain ⟨pages, hp, hf⟩ := exists_of_toOption_map he
  obtain ⟨hl, hn⟩ := Prod.mk.inj hf
  refine ⟨pages, hp, finished_of_last hl, .tail _ (.head _), fun item hi => ?_⟩
  simpa using all_eq_true.mp hn item hi

/-- Between two pages the row of the cursor is deleted and another row is written. -/
def changing : List (DynamoTable × Option ℤ) :=
  [(holding [row "3", row "1"], some 1), (holding [row "3", row "2"], none)]

theorem changing_ready : ∀ s ∈ changing, s.1.Ready table.keySchema table.attributeDefinitions [] := by
  have hrd : ∀ rows : List Item, (∀ r ∈ (holding rows).items.rows, table.keyNames.Sound r.2) →
      (∀ r ∈ (holding rows).items.rows, ∀ a ∈ table.tableKeys, table.hasTyped r.2 a) →
      (holding rows).items.rows.Pairwise (fun a b => table.keyNames.isKeyOf a.2 b.2 = false) →
      (holding rows).Ready table.keySchema table.attributeDefinitions [] :=
    fun rows hsn hk hd => ⟨(holding_loaded rows).reached hsn, rfl, rfl, by
      change table.tableKeys.Nodup
      decide +kernel, fun r hr => ⟨hk r hr, nofun⟩, hd⟩
  intro s hs
  simp only [changing, mem_cons, not_mem_nil, or_false] at hs
  rcases hs with rfl | rfl
  · exact hrd _ (by decide +kernel) (by decide +kernel) (by decide +kernel)
  · exact hrd _ (by decide +kernel) (by decide +kernel) (by decide +kernel)

end Example

/-- A scan over a changing table returns the row that stays. -/
theorem scan_returns_each_row_once_changing :
    ∃ pages, scanPages (fun _ => 0) Example.wholeTable Example.changing none = .ok pages ∧
      ∃ item ∈ pages.flatMap ReadPage.items,
        (schemaNames Example.table.keySchema).isKeyOf (Example.row "3.0") item := by
  have he : (scanPages (fun _ => 0) wholeTable changing none).toOption.map
      (fun pages => (pages.length, pages.getLast?.map fun page => page.lastEvaluatedKey.isNone)) =
      some (2, some true) := by
    decide +kernel
  obtain ⟨pages, hp, hfc⟩ := exists_of_toOption_map he
  obtain ⟨hl, hls⟩ := Prod.mk.inj hfc
  obtain ⟨⟨pages', hp', -, -, hc, -⟩, -⟩ := scan_returns_each_row_once (fun _ => 0)
    wholeTable ⟨none, none, []⟩ changing_ready (by
      intro s hs
      simp only [changing, mem_cons, not_mem_nil, or_false] at hs
      rcases hs with rfl | rfl
      · exact ⟨some 1, rfl⟩
      · exact ⟨none, rfl⟩)
  obtain rfl : pages = pages' := Except.ok.inj (hp.symm.trans hp')
  refine ⟨pages, hp, hc (finished_of_last hls) (row "3.0") (by decide +kernel) ?_⟩
  rw [hl]
  decide +kernel

end Fakecloud.Dynamodb

import Fakecloud.Dynamodb.Transact

/-!
# The stream of a table

The calls that write rows (PutItem, DeleteItem, UpdateItem, BatchWriteItem, TransactWriteItems) and the
stream records that they leave.  A stream describes a run when every call has added one record for
each row it wrote, and none for another; the records, replayed on the rows at the start, then give the
rows at the end.

Two calls do not describe what they do: BatchWriteItem adds no records, and UpdateItem takes the row
that an insert starts from, which has the key attributes only, for the row before the change.
-/

namespace Fakecloud.Dynamodb

open Text KeyedList List Option DynamoTable RowChange Function

inductive WriteRequest
  | put (item : Item)
  | delete (key : Item)

/-- The checks that are not modelled: on an item that is put, on an update, on the lengths of a batch,
and those of transactions. -/
structure WriteChecks where
  put : DynamoTable → Item → Except ServiceError Unit
  update : DynamoTable → Item → Except ServiceError Unit
  batch : List (TableId × List WriteRequest) → Except ServiceError Unit
  transact : TransactChecks

/-! ## Calls on one row -/

namespace DynamoTable

variable (t : DynamoTable)

def keyValueSize (ty : Str) (v : AttributeValue) : ℕ :=
  let raw := ((v.field ty).bind Json.asStr).getD []
  if ty = ['B'] then ((base64Decode raw).map List.length).getD (utf8 raw).length
  else (utf8 raw).length

def checkKeyType (attrs : Item) (name : Str) : Except ServiceError Unit :=
  match attrs.lookup name, t.declaredType name with
  | some v, some expected =>
    if valueType v ≠ some expected then
      .error (validationError ("One or more parameter values were invalid: Type mismatch for key " ++ name ++
        " expected: " ++ expected ++ " actual: " ++
        attributeTypeTag v))
    else if isEmptyScalar v expected then
      .error (validationError ("One or more parameter values are not valid. The AttributeValue for a key attribute cannot contain an empty " ++ emptyKind expected ++ " value. Key: " ++
        name))
    else if name = t.hashKeyName ∧ 2048 < keyValueSize expected v then
      .error (validationError "One or more parameter values were invalid: Size of hashkey has exceeded the maximum size limit of2048 bytes")
    else if name ≠ t.hashKeyName ∧ 1024 < keyValueSize expected v then
      .error (validationError "One or more parameter values were invalid: Aggregated size of all range keys has exceeded the size limit of 1024 bytes")
    else .ok ()
  | _, _ => .ok ()

def validateKeyInItem (item : Item) : Except ServiceError Unit := do
  rejectSome (t.missingItemKeyError item)
  t.tableKeys.forM (t.checkKeyType item)

def validateKeyAttributesInKey (key : Item) : Except ServiceError Unit := do
  rejectWhen (!t.keyMatchesSchema key) keySchemaMismatch
  t.tableKeys.forM (t.checkKeyType key)

def publish (record : Option StreamRecord) (now : ℤ) : DynamoTable :=
  match record with
  | some r => t.addStreamRecord r now
  | none => t

/-- A table after a call, and whether that succeeded. -/
abbrev Answer := DynamoTable × Except ServiceError Unit

def putItem (checks : WriteChecks) (raw : Item) (condition : Option Item → Except ServiceError Unit)
    (now : ℤ) : Answer :=
  match t.validateKeyInItem raw, checks.put t raw with
  | .error e, _ => (t, .error e)
  | .ok (), .error e => (t, .error e)
  | .ok (), .ok () =>
    let item := normalizeItemNumbers raw
    let t := t.ensureKeyIndex
    let old := t.lookup (t.extractKey item)
    match condition old with
    | .error e => (t, .error e)
    | .ok () =>
      let captured := if t.streamEnabled then old else none
      let event := if old.isSome then .modify else .insert
      let t := (t.putItemAtKey item now).1
      let record := t.generateStreamRecord event (t.extractKey item) captured (some item) now
      (if t.streamEnabled then t.publish record now else t, .ok ())

def deleteItem (key : Item) (condition : Option Item → Except ServiceError Unit) (now : ℤ) : Option Answer :=
  match t.validateKeyAttributesInKey key with
  | .error e => some (t, .error e)
  | .ok () =>
    let t := t.ensureKeyIndex
    let existing := t.lookup key
    match condition existing with
    | .error e => some (t, .error e)
    | .ok () =>
      match existing with
      | none => some (t, .ok ())
      | some old =>
        -- the record comes before the removal
        let record := t.generateStreamRecord .remove key (some old) none now
        let t := if t.streamEnabled then t.publish record now else t
        (t.removeItemByKey key now).map fun (t, _) => (t, .ok ())

def updateItem (checks : WriteChecks) (key : Item) (condition : Option Item → Except ServiceError Unit)
    (f : Item → Item × Except ServiceError Unit) (now : ℤ) : Option Answer :=
  match t.validateKeyAttributesInKey key with
  | .error e => some (t, .error e)
  | .ok () =>
    let t := t.ensureKeyIndex
    match checks.update t key, condition (t.lookup key) with
    | .error e, _ => some (t, .error e)
    | .ok (), .error e => some (t, .error e)
    | .ok (), .ok () =>
      let existing := t.findItemIndex key
      let (t, id) := t.rowFor existing key now
      -- the row that an insert starts from is there by now
      let captured := if t.streamEnabled then t.items.get id else none
      (t.updateItemAt id f now).bind fun (t, result) =>
        match result with
        | .error e =>
          if existing.isNone then (t.removeItemAt id now).map fun (t, _) => (t, .error e)
          else some (t, .error e)
        | .ok () =>
          (t.items.get id).map fun new =>
            let event := if existing.isSome then .modify else .insert
            let record := t.generateStreamRecord event key captured (some new) now
            (if t.streamEnabled then t.publish record now else t, .ok ())

end DynamoTable

/-! ## Batches -/

namespace WriteRequest

def key (t : DynamoTable) : WriteRequest → Item
  | put item => t.extractKey (normalizeItemNumbers item)
  | delete key => key

def validate (checks : WriteChecks) (t : DynamoTable) : WriteRequest → Except ServiceError Unit
  | put item => do
    rejectSome (t.emptyTableKeyError item)
    rejectWhen (t.itemKeyTypeMismatch item).isSome DynamoTable.keySchemaMismatch
    t.validateKeyInItem item
    checks.put t item
  | delete key => do
    rejectSome (t.emptyTableKeyError key)
    rejectWhen (!t.keyMatchesSchema key) DynamoTable.keySchemaMismatch

def apply (t : DynamoTable) (now : ℤ) : WriteRequest → Option DynamoTable
  | put item => some (t.putItemAtKey (normalizeItemNumbers item) now).1
  | delete key => (t.removeItemByKey key now).map Prod.fst

end WriteRequest

/-- The requests for one table, each valid and each for another row. -/
def validateRequests (checks : WriteChecks) (t : DynamoTable) :
    List Item → List WriteRequest → Except ServiceError Unit
  | _, [] => .ok ()
  | seen, w :: requests => do
    w.validate checks t
    rejectWhen (seen.any fun k => t.keysEqual k (w.key t))
      "Provided list of item keys contains duplicates"
    validateRequests checks t (seen ++ [w.key t]) requests

def validateBatch (checks : WriteChecks) (ts : Tables) (batch : List (TableId × List WriteRequest)) :
    Except ServiceError Unit := do
  checks.batch batch
  batch.forM fun entry => do
    let t ← getDataTable ts entry.1
    validateRequests checks t [] entry.2

def applyRequests (now : ℤ) : List WriteRequest → DynamoTable → Option DynamoTable
  | [], t => some t
  | w :: requests, t => (w.apply t now).bind (applyRequests now requests)

def applyBatch (now : ℤ) : List (TableId × List WriteRequest) → Tables → Option Tables
  | [], ts => some ts
  | (id, requests) :: batch, ts =>
    match ts id with
    | none => some ts
    | some t => (applyRequests now requests t).bind fun t =>
      applyBatch now batch (Function.update ts id (some t))

/-! ## Calls -/

inductive WriteCall
  | putItem (table : TableId) (item : Item) (condition : Option Item → Except ServiceError Unit)
  | deleteItem (table : TableId) (key : Item) (condition : Option Item → Except ServiceError Unit)
  | updateItem (table : TableId) (key : Item) (condition : Option Item → Except ServiceError Unit)
    (apply : Item → Item × Except ServiceError Unit)
  | batchWriteItem (batch : List (TableId × List WriteRequest))
  | transactWriteItems (items : List TransactItem)

def onTable (ts : Tables) (id : TableId) (f : DynamoTable → Option DynamoTable.Answer) : Option Tables :=
  match ts id with
  | none => some ts
  | some t => (f t).map fun answer => Function.update ts id (some answer.1)

namespace WriteCall

/-- The tables after a call, whether it succeeds or fails; no result when an operation panics. -/
def run (checks : WriteChecks) (ts : Tables) (now : ℤ) : WriteCall → Option Tables
  | putItem id item condition => onTable ts id fun t => some (t.putItem checks item condition now)
  | deleteItem id key condition => onTable ts id fun t => t.deleteItem key condition now
  | updateItem id key condition f => onTable ts id fun t => t.updateItem checks key condition f now
  | batchWriteItem batch =>
    match validateBatch checks ts batch with
    | .error _ => some ts
    | .ok () => applyBatch now batch ts
  | transactWriteItems items =>
    (Dynamodb.transactWriteItems checks.transact ts items now).map Prod.fst

end WriteCall

def runCalls (checks : WriteChecks) : List (WriteCall × ℤ) → Tables → Option Tables
  | [], ts => some ts
  | (call, now) :: calls, ts => (call.run checks ts now).bind (runCalls checks calls)

/-! ## Records that describe changes -/

/-- A record on the rows: what is inserted or modified is written, what is removed goes. -/
def replayRecord (encode : Item → Option RowKey) (rows : List Item) (r : StreamRecord) : List Item :=
  match r.eventName, r.newImage with
  | .remove, _ => erase encode (encode r.keys) rows
  | _, some item => upsert encode item rows
  | _, none => rows

def replay (encode : Item → Option RowKey) (records : List StreamRecord) (rows : List Item) : List Item :=
  records.foldl (replayRecord encode) rows

def retained (now : ℤ) (records emitted : List StreamRecord) : List StreamRecord :=
  emitted.foldl (fun rs r => (rs ++ [r]).filter fun r => now - streamRetention < r.timestamp) records

/-- **The records of a call describe it**: one for each row that was created, replaced or removed, with
its key, the event and the images that the view type shows. -/
structure Described (view : StreamViewType) (now : ℤ) (t t' : DynamoTable)
    (emitted : List StreamRecord) : Prop where
  appended : t'.streamRecords = retained now t.streamRecords emitted
  once : (emitted.map fun r => t.encodeKey r.keys).Nodup
  changed : ∀ k, rowsAt t.encodeKey k t'.rows ≠ rowsAt t.encodeKey k t.rows →
    ∃ r ∈ emitted, t.encodeKey r.keys = k
  images : ∀ r ∈ emitted, ∃ c : RowChange, r = c.record view ∧ (c.old.isSome ∨ c.new.isSome) ∧
    c.old = first t.encodeKey (t.encodeKey r.keys) t.rows ∧
    rowsAt t.encodeKey (t.encodeKey r.keys) t'.rows =
      c.new.toList ++ (rowsAt t.encodeKey (t.encodeKey r.keys) t.rows).tail
  replayed : view = .newAndOldImages → replay t.encodeKey emitted t.rows = t'.rows

/-- Records with both images are as good as the changes. -/
theorem replay_records (encode : Item → Option RowKey) {cs : List RowChange}
    (hcs : ∀ c ∈ cs, c.old.isSome ∨ c.new.isSome) (rows : List Item) :
    replay encode (cs.map (record .newAndOldImages)) rows =
      applyAll encode (cs.map (toChange encode)) rows := by
  induction cs generalizing rows with
  | nil => rfl
  | cons c cs ih =>
    have hs : replayRecord encode rows (c.record .newAndOldImages) =
      (c.toChange encode).apply encode rows := by
      obtain ⟨keys, old, new, at_⟩ := c
      rcases old with _ | old <;> rcases new with _ | new
      · exact absurd (hcs _ mem_cons_self) (by simp)
      · rfl
      · rfl
      · rfl
    change replay encode _ (replayRecord encode rows (c.record .newAndOldImages)) = _
    rw [hs]
    exact ih (fun d hd => hcs d (mem_cons_of_mem _ hd)) _

section Describe

variable {view : StreamViewType} {now : ℤ} {t t' u : DynamoTable} {cs : List RowChange}

/-- **Changes of different rows, each with its record.** -/
theorem described_of_wrote (hw : Wrote t t' cs)
    (hd : (cs.map (toChange t.encodeKey)).Pairwise fun a b => a.key ≠ b.key)
    (hcs : ∀ c ∈ cs, c.old.isSome ∨ c.new.isSome)
    (ha : t'.streamRecords = retained now t.streamRecords (cs.map (record view))) :
    Described view now t t' (cs.map (record view)) := by
  obtain ⟨hal, hf⟩ := applyAll_rowsAt hw.fit hd
  rw [← hw.rows] at hal hf
  refine ⟨ha, ?_, fun k hk => ?_, fun r hr => ?_, ?_⟩
  · rw [List.map_map, nodup_iff_pairwise_ne, pairwise_map]
    have hne := pairwise_map.mp hd
    exact hne
  · -- a key with no change has its rows
    by_contra hn
    refine hk (hf k fun c hc heq => hn ?_)
    obtain ⟨row, hrw, rfl⟩ := mem_map.mp hc
    exact ⟨row.record view, mem_map_of_mem hrw, heq⟩
  · obtain ⟨c, hc, rfl⟩ := mem_map.mp hr
    obtain ⟨ho, hnw⟩ := hal _ (mem_map_of_mem hc)
    exact ⟨c, rfl, hcs c hc, ho, hnw⟩
  · rintro rfl
    rw [replay_records t.encodeKey hcs, hw.rows]

structure Streaming (view : StreamViewType) (t : DynamoTable) : Prop where
  consistent : t.Consistent
  enabled : t.streamEnabled = true
  viewType : t.streamViewType = some view

/-- What a call leaves: a table with that stream, and records that describe the call. -/
structure Logged (view : StreamViewType) (now : ℤ) (t t' : DynamoTable)
    (emitted : List StreamRecord) : Prop where
  streaming : Streaming view t'
  keySchema : t'.keySchema = t.keySchema
  described : Described view now t t' emitted

section

variable (h : Streaming view t)
include h

theorem Streaming.recordOf_eq (c : RowChange) : t.recordOf c = some (c.record view) := by
  simp [recordOf, generateStreamRecord, h.enabled, h.viewType, record]

theorem Streaming.of_settings (hs : SameSettings t u) (hu : u.Consistent) : Streaming view u :=
  ⟨hu, hs.streamEnabled.trans h.enabled, hs.streamViewType.trans h.viewType⟩

theorem Streaming.logged_nil (hs : SameSettings t u)
    (hw : Wrote t u []) : Logged view now t u [] :=
  ⟨h.of_settings hs hw.consistent, hw.keySchema, described_of_wrote hw .nil nofun hs.streamRecords⟩

theorem Streaming.logged_refl : Logged view now t t [] := h.logged_nil (.refl t) h.consistent.wrote_nil

theorem Streaming.logged_ensure : Logged view now t t.ensureKeyIndex [] :=
  h.logged_nil (ensureKeyIndex_settings t) h.consistent.wrote_ensure

theorem Streaming.logged_addAll (hs : SameSettings t u) (hw : Wrote t u cs)
    (hd : (cs.map (toChange t.encodeKey)).Pairwise fun a b => a.key ≠ b.key)
    (hcs : ∀ c ∈ cs, c.old.isSome ∨ c.new.isSome) : Logged view now t ((cs.map (record view)).foldl
      (fun t record => t.addStreamRecord record now) u) (cs.map (record view)) := by
  have hf : ∀ (records : List StreamRecord) (v : DynamoTable),
      (records.foldl (fun t record => t.addStreamRecord record now) v).streamRecords =
        retained now v.streamRecords records ∧
      (records.foldl (fun t record => t.addStreamRecord record now) v).streamEnabled = v.streamEnabled ∧
      (records.foldl (fun t record => t.addStreamRecord record now) v).streamViewType = v.streamViewType := by
    intro records
    induction records with
    | nil => exact fun v => ⟨rfl, rfl, rfl⟩
    | cons r records ih => exact fun v => ih (v.addStreamRecord r now)
  obtain ⟨hr, he, hv⟩ := hf (cs.map (record view)) u
  have hw' := hw.congr (addAll_same u (cs.map (record view)) now)
  refine ⟨⟨hw'.consistent, ?_, ?_⟩, hw'.keySchema, described_of_wrote hw' hd hcs ?_⟩
  · exact he.trans (hs.streamEnabled.trans h.enabled)
  · exact hv.trans (hs.streamViewType.trans h.viewType)
  · rw [hr, hs.streamRecords]

theorem Streaming.logged_one (hs : SameSettings t u) {c : RowChange}
    (hw : Wrote t u [c]) (hc : c.old.isSome ∨ c.new.isSome) :
    Logged view now t (u.addStreamRecord (c.record view) now) [c.record view] :=
  h.logged_addAll hs hw (pairwise_singleton _ _) fun d hd => by
    rw [mem_singleton.mp hd]
    exact hc

end

end Describe

/-! ## Calls on one row describe what they do -/

namespace DynamoTable

section Calls

variable {view : StreamViewType} {now : ℤ} {t t' : DynamoTable} {raw key : Item}
  {condition : Option Item → Except ServiceError Unit}
  {checks : WriteChecks}

theorem exists_deleteItem (t : DynamoTable) (key : Item)
    (condition : Option Item → Except ServiceError Unit) (now : ℤ) :
    ∃ answer, t.deleteItem key condition now = some answer := by
  unfold deleteItem
  split
  · exact ⟨_, rfl⟩
  dsimp only
  split
  · exact ⟨_, rfl⟩
  split
  · exact ⟨_, rfl⟩
  · generalize (if t.ensureKeyIndex.streamEnabled then _ else _) = u
    obtain ⟨t', removed, hr, -⟩ := removeByKey_evolved u key now
    exact ⟨_, by rw [hr]; rfl⟩

theorem exists_updateItem (checks : WriteChecks) (t : DynamoTable) (key : Item)
    (condition : Option Item → Except ServiceError Unit)
    (f : Item → Item × Except ServiceError Unit) (now : ℤ) :
    ∃ answer, t.updateItem checks key condition f now = some answer := by
  unfold updateItem
  split
  · exact ⟨_, rfl⟩
  dsimp only
  split
  · exact ⟨_, rfl⟩
  · exact ⟨_, rfl⟩
  · obtain ⟨-, row, hrw⟩ := rowFor_evolved t.ensureKeyIndex key now
    obtain ⟨hf, hs⟩ := updateAt_cases f hrw now
    rcases hr : (f row).2 with e | ⟨⟨⟩⟩
    · rw [hf e hr, bind_some]
      dsimp only
      split
      · rw [removeItemAt, hrw]
        exact ⟨_, rfl⟩
      · exact ⟨_, rfl⟩
    · obtain ⟨v, hu, hi, -⟩ := hs hr
      rw [hu, bind_some]
      rw [hi, TableItems.get_set hrw]
      exact ⟨_, rfl⟩

theorem putItem_logged (h : Streaming view t) (hrw : t.keyNames.Scalar raw) :
    ∃ emitted, Logged view now t (t.putItem checks raw condition now).1 emitted := by
  have hr := ensureKeyIndex_settings t
  have hn := keyNames_congr hr.keySchema
  have hs := h.of_settings hr h.consistent.ensure
  unfold putItem
  split
  · exact ⟨[], h.logged_refl⟩
  · exact ⟨[], h.logged_refl⟩
  · dsimp only
    generalize hc : condition (t.ensureKeyIndex.lookup _) = answer
    rcases answer with e | ⟨⟨⟩⟩
    · exact ⟨[], h.logged_ensure⟩
    · have hp := (put_settings t.ensureKeyIndex (normalizeItemNumbers raw) now).1
      have hw := hs.consistent.put_wrote (hn ▸ hrw) now
      have hu := hs.of_settings hp hw.consistent
      have hk : (t.ensureKeyIndex.putItemAtKey (normalizeItemNumbers raw) now).1.extractKey
          (normalizeItemNumbers raw) = t.ensureKeyIndex.extractKey (normalizeItemNumbers raw) := by
        rw [extractKey, extractKey, keyNames_congr hp.keySchema]
      rw [if_pos hs.enabled, if_pos hu.enabled, hk, recordOf_written, hu.recordOf_eq]
      exact ⟨_, h.logged_one (hr.trans hp) (h.consistent.wrote_ensure.append hw) (.inr rfl)⟩

theorem deleteItem_logged (h : Streaming view t) (hk : t.keyNames.Scalar key) :
    ∃ t' result emitted, t.deleteItem key condition now = some (t', result) ∧
      Logged view now t t' emitted := by
  have hrd := ensureKeyIndex_settings t
  have hs := h.of_settings hrd h.consistent.ensure
  unfold deleteItem
  split
  · exact ⟨t, _, [], rfl, h.logged_refl⟩
  · dsimp only
    rcases hcn : condition (t.ensureKeyIndex.lookup key) with e | ⟨⟨⟩⟩
    · exact ⟨_, _, [], rfl, h.logged_ensure⟩
    rcases ho : t.ensureKeyIndex.lookup key with _ | old
    · exact ⟨_, _, [], rfl, h.logged_ensure⟩
    · -- the row is removed from the table that has the record
      obtain ⟨u, hu⟩ : ∃ u, u = t.ensureKeyIndex.addStreamRecord
          ((⟨key, some old, none, now⟩ : RowChange).record view) now := ⟨_, rfl⟩
      have hp : (if t.ensureKeyIndex.streamEnabled then t.ensureKeyIndex.publish
          (t.ensureKeyIndex.generateStreamRecord .remove key (some old) none now) now
          else t.ensureKeyIndex) = u := by
        have hrc := hs.recordOf_eq ⟨key, some old, none, now⟩
        change t.ensureKeyIndex.generateStreamRecord .remove key (some old) none now = _ at hrc
        rw [if_pos hs.enabled, hrc, hu]
        rfl
      obtain ⟨t', removed, hrm, he⟩ := removeByKey_evolved u key now
      have hsm : SameContents t.ensureKeyIndex u := hu ▸ addStreamRecord_same _ _ _
      have ha : Wrote t.ensureKeyIndex u [] := hs.consistent.wrote_nil.congr hsm
      have hl : u.lookup key = some old := by
        rw [← ho, hu]
        rfl
      have hr := ha.consistent.remove_wrote
        (keyNames_congr (hsm.keySchema.trans hrd.keySchema) ▸ hk) hrm
      rw [hl] at hr
      have hw : Wrote t t' [⟨key, some old, none, now⟩] := h.consistent.wrote_ensure.append (ha.append hr)
      have hre : t'.streamRecords = retained now t.streamRecords
          ([(⟨key, some old, none, now⟩)].map (record view)) := by
        rw [he.settings.streamRecords, hu, ← hrd.streamRecords]
        rfl
      have hd := described_of_wrote hw (pairwise_singleton _ _)
        (fun c hc => .inl (by rw [mem_singleton.mp hc]; rfl)) hre
      refine ⟨t', .ok (), _, ?_, ⟨hw.consistent, ?_, ?_⟩, hw.keySchema, hd⟩
      · dsimp only
        rw [hp, hrm]
        rfl
      · rw [he.settings.streamEnabled, hu]
        exact hs.enabled
      · rw [he.settings.streamViewType, hu]
        exact hs.viewType

/-- The row that a failed insert has put goes, and nothing else. -/
theorem remove_inserted (h : t.Consistent) (hk : t.keyNames.Scalar key)
    (hfn : t.findItemIndex key = none) {removed : Item}
    (hrm : (t.putItemAtKey (normalizeItemNumbers key) now).1.removeItemAt
      (t.putItemAtKey (normalizeItemNumbers key) now).2.1 now = some (t', removed)) :
    Wrote t t' [] ∧ SameSettings t t' := by
  obtain ⟨hs, he⟩ := hk.normalize
  obtain ⟨hst, -, -, hi⟩ := removeAt_settings hrm
  have hpt := (put_settings t (normalizeItemNumbers key) now).1
  have hc : (t.putItemAtKey (normalizeItemNumbers key) now).1.Consistent := h.put hs.sound
  have hsc : t.findItemIndexScan (normalizeItemNumbers key) = none := by
    rw [h.scan_congr hk.sound hs.sound hk.isSome_encode he, ← h.find_eq_scan hk.sound]
    exact hfn
  have ha := hpt.trans hst
  refine ⟨⟨(hc.removeAt hrm).1, ha.keySchema, trivial, ?_⟩, ha⟩
  rcases put_cases t (normalizeItemNumbers key) now with ⟨-, hp, hid⟩ | ⟨id, hf, -, -⟩
  · change t'.items.toVec = t.items.toVec
    have hrw : ((t.items.push (normalizeItemNumbers key)).remove t.items.nextId).rows = t.items.rows := by
      change (t.items.rows ++ [(t.items.nextId, normalizeItemNumbers key)]).filter
        (fun r => r.1 != t.items.nextId) = t.items.rows
      have hb : t.items.rows.filter (fun r => r.1 != t.items.nextId) = t.items.rows := by
        refine filter_eq_self.mpr fun r hr => ?_
        exact bne_iff_ne.mpr (t.items.below r hr).ne
      rw [filter_append, hb]
      simp
    rw [hi, hp, hid, TableItems.toVec, hrw]
    rfl
  · rw [h.logged_find hs.sound, hsc] at hf
    cases hf

theorem updateItem_logged {f : Item → Item × Except ServiceError Unit}
    (h : Streaming view t) (hk : t.keyNames.Scalar key) (hf : KeepsKey t.keyNames f)
    (hi : view.showsOld → (t.lookup key).isSome) :
    ∃ t' result emitted, t.updateItem checks key condition f now = some (t', result) ∧
      Logged view now t t' emitted := by
  have hr := ensureKeyIndex_settings t
  have hn := keyNames_congr hr.keySchema
  have hst := h.of_settings hr h.consistent.ensure
  have hl := h.consistent.lookup_ensure hk.sound
  have hk' : t.ensureKeyIndex.keyNames.Scalar key := hn ▸ hk
  unfold updateItem
  split
  · exact ⟨t, _, [], rfl, h.logged_refl⟩
  · dsimp only
    split
    · exact ⟨_, _, [], rfl, h.logged_ensure⟩
    · exact ⟨_, _, [], rfl, h.logged_ensure⟩
    · obtain ⟨hop, row, hrw⟩ := rowFor_evolved t.ensureKeyIndex key now
      rcases ho : t.ensureKeyIndex.rowFor (t.ensureKeyIndex.findItemIndex key) key now with ⟨u, id⟩
      rw [ho] at hop hrw
      obtain ⟨hfl, hsc⟩ := updateAt_cases f hrw now
      rcases hrs : (f row).2 with e | ⟨⟨⟩⟩
      · -- the row stays as it was, or goes if it was put for this update
        rw [hfl e hrs]
        rcases hfn : t.ensureKeyIndex.findItemIndex key with _ | existing
        · rw [hfn] at ho
          obtain ⟨rfl, rfl⟩ := Prod.mk.inj ho
          obtain ⟨⟨t', removed⟩, hrm⟩ : ∃ r,
              (t.ensureKeyIndex.putItemAtKey (normalizeItemNumbers key) now).1.removeItemAt
                (t.ensureKeyIndex.putItemAtKey (normalizeItemNumbers key) now).2.1 now = some r := by
            rw [removeItemAt, hrw]
            exact ⟨_, rfl⟩
          obtain ⟨hw, hs⟩ := remove_inserted hst.consistent hk' hfn hrm
          refine ⟨t', .error e, [], ?_, h.logged_nil (hr.trans hs)
            (h.consistent.wrote_ensure.append hw)⟩
          simp [hrm]
        · rw [hfn] at ho
          obtain ⟨rfl, rfl⟩ := Prod.mk.inj ho
          exact ⟨_, .error e, [], by simp, h.logged_ensure⟩
      · obtain ⟨v, hup, -, he⟩ := hsc hrs
        obtain ⟨hg, hw⟩ := hst.consistent.update_wrote hk' (hn ▸ hf) ho hup
        have hs := (hr.trans hop.settings).trans he.settings
        have hv := h.of_settings hs hw.consistent
        have hu : u.streamEnabled = true := hop.settings.streamEnabled.trans hst.enabled
        -- the image before the change is shown only of a row that was there
        have hrc : ∀ new, v.generateStreamRecord
            (if (t.ensureKeyIndex.findItemIndex key).isSome then .modify else .insert) key
            (some row) (some new) now =
              some ((⟨key, t.ensureKeyIndex.lookup key, some new, now⟩ : RowChange).record view) := by
          intro new
          rw [← hv.recordOf_eq, ← recordOf_written]
          rcases hfn : t.ensureKeyIndex.findItemIndex key with _ | existing
          · have hnn : t.ensureKeyIndex.lookup key = none := by rw [lookup, hfn]; rfl
            have hsh : view.showsOld = false := by
              by_contra hsh
              have := hi (by simpa using hsh)
              rw [← hl, hnn] at this
              cases this
            simp [hnn, generateStreamRecord, hv.viewType, hsh, imageIf]
          · rw [hfn] at ho
            obtain ⟨rfl, rfl⟩ := Prod.mk.inj ho
            have hsm : t.ensureKeyIndex.lookup key = some row := by
              rw [lookup, hfn]
              exact hrw
            rw [hsm]
            rfl
        rw [hup, bind_some]
        rw [hg, map_some, if_pos hu, hrw, hrc, if_pos hv.enabled]
        exact ⟨_, _, _, rfl, h.logged_one hs (h.consistent.wrote_ensure.append hw) (.inr rfl)⟩

end Calls

end DynamoTable

/-! ## Batches and transactions -/

def WriteRequest.Void (t : DynamoTable) : WriteRequest → Prop
  | put _ => False
  | delete key => t.keyNames.Scalar key ∧ t.lookup key = none

section Several

variable {view : StreamViewType} {now : ℤ} {ts ts' : Tables} {id : TableId} {t : DynamoTable}
  {items : List TransactItem}

theorem WriteRequest.exists_apply (w : WriteRequest) (t : DynamoTable) (now : ℤ) :
    ∃ t', w.apply t now = some t' := by
  cases w with
  | put item => exact ⟨_, rfl⟩
  | delete key =>
    obtain ⟨t', removed, hr, -⟩ := removeByKey_evolved t key now
    exact ⟨t', by rw [apply, hr]; rfl⟩

theorem exists_applyRequests (now : ℤ) (requests : List WriteRequest) (t : DynamoTable) :
    ∃ t', applyRequests now requests t = some t' := by
  induction requests generalizing t with
  | nil => exact ⟨t, rfl⟩
  | cons w requests ih =>
    obtain ⟨u, hu⟩ := w.exists_apply t now
    obtain ⟨t', ht'⟩ := ih u
    exact ⟨t', by rw [applyRequests, hu]; exact ht'⟩

theorem exists_applyBatch (now : ℤ) (batch : List (TableId × List WriteRequest)) (ts : Tables) :
    ∃ ts', applyBatch now batch ts = some ts' := by
  induction batch generalizing ts with
  | nil => exact ⟨ts, rfl⟩
  | cons entry batch ih =>
    obtain ⟨id, requests⟩ := entry
    rw [applyBatch]
    rcases ts id with _ | t
    · exact ⟨ts, rfl⟩
    · obtain ⟨t', ht'⟩ := exists_applyRequests now requests t
      obtain ⟨ts', hts'⟩ := ih (update ts id (some t'))
      exact ⟨ts', by dsimp only; rw [ht']; exact hts'⟩

theorem WriteRequest.Void.of_wrote {w : WriteRequest} {u : DynamoTable} (hw : w.Void t) (h : t.Consistent)
    (hwr : Wrote t u []) : w.Void u := by
  have hn := keyNames_congr hwr.keySchema
  cases w with
  | put item => exact hw
  | delete key =>
    refine ⟨hn ▸ hw.1, ?_⟩
    rw [(h.same_rows hwr.consistent hwr.rows hn).2.2 key hw.1.sound]
    exact hw.2

/-- Nothing is removed from a table by deletes of rows that are not there. -/
theorem applyRequests_void {requests : List WriteRequest} {t' : DynamoTable} (h : t.Consistent)
    (hv : ∀ w ∈ requests, w.Void t) (ha : applyRequests now requests t = some t') :
    Wrote t t' [] ∧ SameSettings t t' := by
  induction requests generalizing t with
  | nil =>
    rw [← some.inj ha]
    exact ⟨h.wrote_nil, .refl t⟩
  | cons w requests ih =>
    obtain ⟨u, hu, hrs⟩ := bind_eq_some_iff.mp ha
    have hw := hv w mem_cons_self
    cases w with
    | put item => exact hw.elim
    | delete key =>
      obtain ⟨⟨u', removed⟩, hr, rfl⟩ := map_eq_some_iff.mp hu
      have hwr := h.remove_wrote hw.1 hr
      rw [hw.2] at hwr
      have hs := removeByKey_settings hr
      have hv' : ∀ w ∈ requests, w.Void u' := fun w hw => (hv w (mem_cons_of_mem _ hw)).of_wrote h hwr
      obtain ⟨hwr', hs'⟩ := ih hwr.consistent hv' hrs
      exact ⟨hwr.append hwr', hs.trans hs'⟩

theorem applyBatch_void {batch : List (TableId × List WriteRequest)} (ht : ts id = some t)
    (h : t.Consistent) (hv : ∀ entry ∈ batch, entry.1 = id → ∀ w ∈ entry.2, w.Void t)
    (ha : applyBatch now batch ts = some ts') :
    ∃ t', ts' id = some t' ∧ Wrote t t' [] ∧ SameSettings t t' := by
  induction batch generalizing ts t with
  | nil =>
    rw [← some.inj ha]
    exact ⟨t, ht, h.wrote_nil, .refl t⟩
  | cons entry batch ih =>
    obtain ⟨id', requests⟩ := entry
    rw [applyBatch] at ha
    rcases hu : ts id' with _ | u
    · rw [hu] at ha
      rw [← some.inj ha]
      exact ⟨t, ht, h.wrote_nil, .refl t⟩
    rw [hu] at ha
    obtain ⟨u', hu', hr⟩ := bind_eq_some_iff.mp ha
    by_cases hid : id' = id
    · subst hid
      obtain rfl : t = u := some.inj (ht.symm.trans hu)
      obtain ⟨hwr, hs⟩ := applyRequests_void h (hv _ mem_cons_self rfl) hu'
      have hv' : ∀ entry ∈ batch, entry.1 = id' → ∀ w ∈ entry.2, w.Void u' := fun entry he hid w hw =>
        (hv entry (mem_cons_of_mem _ he) hid w hw).of_wrote h hwr
      obtain ⟨t', ht', hwr', hs'⟩ := ih (update_self _ _ _) hwr.consistent hv' hr
      exact ⟨t', ht', hwr.append hwr', hs.trans hs'⟩
    · have ho : update ts id' (some u') id = some t := by
        rw [update_of_ne (Ne.symm hid)]
        exact ht
      exact ih ho h (fun entry he => hv entry (mem_cons_of_mem _ he)) hr

theorem changesOn_isSome {c : RowChange} (hc : c ∈ changesOn id t items) : c.old.isSome ∨ c.new.isSome := by
  obtain ⟨i, -, hci⟩ := mem_filterMap.mp hc
  rcases hi : i.action with raw | key | ⟨key, f⟩ | key <;> rw [hi] at hci
  · rw [← some.inj hci]
    exact .inr rfl
  · obtain ⟨old, -, rfl⟩ := map_eq_some_iff.mp hci
    exact .inl rfl
  · rw [← some.inj hci]
    exact .inr rfl
  · cases hci

theorem transact_logged {checks : TransactChecks} (h : Streaming view t)
    (ht : ts id = some t) (htm : ∀ i ∈ items, i.at_ ≤ now)
    (hp : ∀ i ∈ items, i.table = id → i.action.Proper t.keyNames) :
    ∃ ts' t' emitted, (transactWriteItems checks ts items now).map Prod.fst = some ts' ∧
      ts' id = some t' ∧ Logged view now t t' emitted := by
  obtain ⟨ts', outcome, hrn, hr⟩ := transactWriteItems_result checks ts items now
  rw [hrn]
  by_cases ho : outcome = .committed
  · subst ho
    obtain ⟨hd, u, hw, hs, hts'⟩ := hr.of_committed ht h.consistent hp
    have hrc : (changesOn id t items).filterMap t.recordOf = (changesOn id t items).map (record view) := by
      rw [← filterMap_eq_map]
      exact filterMap_congr fun c _ => h.recordOf_eq c
    rw [hrc] at hts'
    exact ⟨ts', _, _, rfl, hts', h.logged_addAll hs hw (distinct_changes hp hd)
      fun c hc => changesOn_isSome hc⟩
  · rcases hr.of_failed ho htm id with hsm | ⟨-, t', u, ht', hu, hb⟩
    · exact ⟨ts', t, [], rfl, hsm.trans ht, h.logged_refl⟩
    · obtain rfl : t = t' := some.inj (ht.symm.trans ht')
      obtain ⟨hcn, hs, hrw⟩ := h.consistent.putBack_facts hu
      exact ⟨ts', _, [], rfl, hb, h.logged_nil hs ⟨hcn, hs.keySchema, trivial, hrw⟩⟩

end Several

/-! ## Runs -/

namespace WriteCall

/-- **The calls that describe what they do to a table**: their keys are scalar and stay, an update is of
a row that is there if the view type shows the image before, and a batch writes nothing. -/
def Faithful (id : TableId) (view : StreamViewType) (now : ℤ) (t : DynamoTable) : WriteCall → Prop
  | putItem table item _ => table = id → t.keyNames.Scalar item
  | deleteItem table key _ => table = id → t.keyNames.Scalar key
  | updateItem table key _ f => table = id → t.keyNames.Scalar key ∧
    DynamoTable.KeepsKey t.keyNames f ∧ (view.showsOld → (t.lookup key).isSome)
  | batchWriteItem batch => ∀ entry ∈ batch, entry.1 = id → ∀ w ∈ entry.2, w.Void t
  | transactWriteItems items => ∀ i ∈ items, i.at_ ≤ now ∧
    (i.table = id → i.action.Proper t.keyNames)

end WriteCall

theorem onTable_of_ne {ts : Tables} {id table : TableId} {t : DynamoTable}
    {f : DynamoTable → Option Answer} (hf : ∀ u, ∃ answer, f u = some answer)
    (ht : ts id = some t) (hne : table ≠ id) : ∃ ts', onTable ts table f = some ts' ∧ ts' id = some t := by
  unfold onTable
  rcases ts table with _ | u
  · exact ⟨ts, rfl, ht⟩
  · obtain ⟨answer, ha⟩ := hf u
    refine ⟨update ts table (some answer.1), by dsimp only; rw [ha]; rfl, ?_⟩
    rw [update_of_ne (Ne.symm hne)]
    exact ht

section Runs

variable {checks : WriteChecks} {id : TableId} {view : StreamViewType} {ts : Tables}
  {t : DynamoTable} {now : ℤ}

theorem onTable_logged {f : DynamoTable → Option Answer} (ht : ts id = some t)
    (hf : ∃ t' result emitted, f t = some (t', result) ∧ Logged view now t t' emitted) :
    ∃ ts' t' emitted, onTable ts id f = some ts' ∧ ts' id = some t' ∧ Logged view now t t' emitted := by
  obtain ⟨t', result, emitted, hr, hl⟩ := hf
  refine ⟨update ts id (some t'), t', emitted, ?_, update_self _ _ _, hl⟩
  rw [onTable, ht]
  dsimp only
  rw [hr]
  rfl

/-- **Step.**  A faithful call describes what it does to the table. -/
theorem WriteCall.run_logged {call : WriteCall} (h : Streaming view t) (ht : ts id = some t)
    (hc : call.Faithful id view now t) : ∃ ts' t' emitted, call.run checks ts now = some ts' ∧
      ts' id = some t' ∧ Logged view now t t' emitted := by
  have ho : ∀ {table : TableId} {f : DynamoTable → Option Answer},
      (∀ u, ∃ answer, f u = some answer) → table ≠ id →
      ∃ ts' t' emitted, onTable ts table f = some ts' ∧ ts' id = some t' ∧ Logged view now t t' emitted := by
    intro table f hf hne
    obtain ⟨ts', hr, ht'⟩ := onTable_of_ne hf ht hne
    exact ⟨ts', t, [], hr, ht', h.logged_refl⟩
  cases call with
  | putItem table item condition =>
    by_cases hid : table = id
    · subst hid
      obtain ⟨emitted, hl⟩ := putItem_logged h (hc rfl)
      exact onTable_logged ht ⟨_, _, emitted, rfl, hl⟩
    · exact ho (fun u => ⟨_, rfl⟩) hid
  | deleteItem table key condition =>
    by_cases hid : table = id
    · subst hid
      exact onTable_logged ht (deleteItem_logged h (hc rfl))
    · exact ho (fun u => u.exists_deleteItem key condition now) hid
  | updateItem table key condition f =>
    by_cases hid : table = id
    · subst hid
      obtain ⟨hky, hk, hin⟩ := hc rfl
      exact onTable_logged ht (updateItem_logged h hky hk hin)
    · exact ho (fun u => u.exists_updateItem checks key condition f now) hid
  | batchWriteItem batch =>
    rw [run]
    rcases validateBatch checks ts batch with e | ⟨⟨⟩⟩
    · exact ⟨ts, t, [], rfl, ht, h.logged_refl⟩
    · obtain ⟨ts', hr⟩ := exists_applyBatch now batch ts
      obtain ⟨t', ht', hw, hs⟩ := applyBatch_void ht h.consistent hc hr
      exact ⟨ts', t', [], hr, ht', h.logged_nil hs hw⟩
  | transactWriteItems items =>
    exact transact_logged h ht (fun i hi => (hc i hi).1) fun i hi => (hc i hi).2

variable (checks id view) in
def FaithfulRun : List (WriteCall × ℤ) → Tables → Prop
  | [], _ => True
  | (call, now) :: calls, ts => (∀ t, ts id = some t → call.Faithful id view now t) ∧
    ∀ ts', call.run checks ts now = some ts' → FaithfulRun calls ts'

variable (checks id view) in
/-- A run, with the records of the table in it: those of each call describe that call. -/
inductive RunLog : List (WriteCall × ℤ) → Tables → List StreamRecord → Tables → Prop
  | nil (ts : Tables) : RunLog [] ts [] ts
  | cons {call : WriteCall} {now : ℤ} {calls : List (WriteCall × ℤ)} {ts ts₁ ts₂ : Tables}
    {t t₁ : DynamoTable} {emitted log : List StreamRecord} (hrun : call.run checks ts now = some ts₁)
    (ht : ts id = some t) (ht₁ : ts₁ id = some t₁) (hcall : Described view now t t₁ emitted)
    (hrest : RunLog calls ts₁ log ts₂) : RunLog ((call, now) :: calls) ts (emitted ++ log) ts₂

/-- **The stream describes the run.**  Every call adds exactly one record for each row that it creates,
replaces or removes, and the records with both images, replayed on the rows at the start, give the
rows at the end. -/
theorem stream_describes_run {calls : List (WriteCall × ℤ)} (ht : ts id = some t)
    (h : Streaming view t) (hcalls : FaithfulRun checks id view calls ts) :
    ∃ ts' t' log, runCalls checks calls ts = some ts' ∧ ts' id = some t' ∧
      RunLog checks id view calls ts log ts' ∧
      (view = .newAndOldImages → replay t.encodeKey log t.rows = t'.rows) := by
  induction calls generalizing ts t with
  | nil => exact ⟨ts, t, [], rfl, ht, .nil ts, fun _ => rfl⟩
  | cons step calls ih =>
    obtain ⟨call, now⟩ := step
    obtain ⟨ts₁, t₁, emitted, hrn, ht₁, hl⟩ := call.run_logged h ht (hcalls.1 t ht)
    obtain ⟨ts', t', log, hrs, ht', hlg, hr⟩ := ih ht₁ hl.streaming (hcalls.2 ts₁ hrn)
    refine ⟨ts', t', emitted ++ log, ?_, ht', .cons hrn ht ht₁ hl.described hlg, fun hv => ?_⟩
    · rw [runCalls, hrn]
      exact hrs
    · rw [replay, foldl_append, ← replay, ← replay, hl.described.replayed hv, ← encodeKey_congr hl.keySchema]
      exact hr hv

end Runs

namespace Example

def streamed : DynamoTable :=
  { table with streamEnabled := true, streamViewType := some .newAndOldImages }

def noWriteChecks : WriteChecks where
  put _ _ := .ok ()
  update _ _ := .ok ()
  batch _ := .ok ()
  transact := noChecks

def always : Option Item → Except ServiceError Unit := fun _ => .ok ()

def addAttribute : Item → Item × Except ServiceError Unit :=
  fun item => (item.insert ['v'] (.obj [(['S'], .str ['w'])]), .ok ())

/-- The number of rows and, of every record, the event and whether it has the image before. -/
def summary (ts : Tables) : Option (ℕ × List (EventName × Bool)) :=
  (ts tableId).map fun t =>
    (t.rows.length, t.streamRecords.map fun r => (r.eventName, r.oldImage.isSome))

/-- **Changes that the stream does not describe.**  A batch that puts a row leaves no record; an update
that inserts one leaves a record of an insert with an image before it. -/
theorem undescribed :
    (WriteCall.run noWriteChecks (only (some streamed)) 0
      (.batchWriteItem [(tableId, [.put (row "1")])])).bind summary = some (1, []) ∧
    (WriteCall.run noWriteChecks (only (some streamed)) 0
      (.updateItem tableId (row "1") always addAttribute)).bind summary =
        some (1, [(.insert, true)]) := by
  decide +kernel

/-- A put, an update of that row under another spelling of its key, and a transaction. -/
def threeCalls : List (WriteCall × ℤ) :=
  [(.putItem tableId (row "1") always, 0), (.updateItem tableId (row "1.0") always addAttribute, 1),
    (.transactWriteItems [⟨tableId, .put (row "2"), 2⟩, ⟨tableId, .delete (row "1e0"), 2⟩], 2)]

theorem threeCalls_faithful :
    FaithfulRun noWriteChecks tableId .newAndOldImages threeCalls (only (some streamed)) := by
  have hs : ∀ number ∈ ["1", "1.0", "2", "1e0"], table.keyNames.Scalar (row number) := by
    decide +kernel
  refine ⟨fun t ht _ => ?_, fun ts₁ h₁ => ⟨fun t ht _ => ?_, fun ts₂ h₂ =>
    ⟨fun t ht i hi => ?_, fun _ _ => trivial⟩⟩⟩
  · obtain rfl : streamed = t := some.inj ht
    exact hs "1" (by simp)
  · have hth : ((WriteCall.putItem tableId (row "1") always).run noWriteChecks
        (only (some streamed)) 0).bind (fun ts => (ts tableId).map fun t =>
          (t.keyNames, (t.lookup (row "1.0")).isSome)) = some (table.keyNames, true) := by
      decide +kernel
    rw [h₁, bind_some, ht, map_some, some.injEq, Prod.mk.injEq] at hth
    obtain ⟨hn, hth⟩ := hth
    refine ⟨hn ▸ hs "1.0" (by simp), fun item _ a ha => ?_, fun _ => hth⟩
    have hne : a ≠ ['v'] := by
      rintro rfl
      rw [hn] at ha
      revert ha
      decide
    exact AList.lookup_insert_ne hne
  · have hn : ((WriteCall.putItem tableId (row "1") always).run noWriteChecks
        (only (some streamed)) 0).bind (fun ts =>
          ((WriteCall.updateItem tableId (row "1.0") always addAttribute).run noWriteChecks ts 1).bind
            fun ts => (ts tableId).map keyNames) = some table.keyNames := by
      decide +kernel
    rw [h₁, bind_some, h₂, bind_some, ht, map_some, some.injEq] at hn
    rw [hn]
    fin_cases hi
    · exact ⟨le_refl _, fun _ => hs "2" (by simp)⟩
    · exact ⟨le_refl _, fun _ => hs "1e0" (by simp)⟩

end Example

theorem stream_describes_run_three : ∃ ts' t' log,
    runCalls Example.noWriteChecks Example.threeCalls (Example.only (some Example.streamed)) = some ts' ∧
    ts' Example.tableId = some t' ∧
    RunLog Example.noWriteChecks Example.tableId .newAndOldImages Example.threeCalls
      (Example.only (some Example.streamed)) log ts' ∧
    replay Example.streamed.encodeKey log Example.streamed.rows = t'.rows := by
  obtain ⟨ts', t', log, hrn, ht', hl, hr⟩ := stream_describes_run
    (t := Example.streamed) rfl ⟨⟨nofun, rfl, rfl, .unbuilt⟩, rfl, rfl⟩ Example.threeCalls_faithful
  exact ⟨ts', t', log, hrn, ht', hl, hr rfl⟩

end Fakecloud.Dynamodb

import Fakecloud.Dynamodb.Key
import Fakecloud.Lib.OrdMap

/-!
# Tables

A table's rows, the key index kept beside them and the cached statistics, with the operations that
change them.  `rows` is the truth; `findItemIndex` answers from the index where it can and from
`findItemIndexScan` otherwise.

A row's closure is given by the row it leaves and whether it failed.  An operation that panics has no
result.  Times are nanoseconds.
-/

namespace Fakecloud.Dynamodb

open Text

/-! ## Sizes -/

def numberSize (literal : Str) : ℕ :=
  match parseNumber literal with
  | none => (utf8 literal).length
  | some p =>
    if p.digits.isEmpty then 1
    else
      let firstPower := p.point - 1
      let lastPower := p.point - p.digits.length
      1 + (firstPower / 2 - lastPower / 2 + 1).toNat + p.neg.toNat

def binarySize (encoded : Str) : ℕ :=
  let len := (utf8 encoded).length
  if len % 4 = 0 ∧ encoded.all fun c => c.isAlphanum || c == '+' || c == '/' || c == '=' then
    len / 4 * 3 - (encoded.reverse.takeWhile (· == '=')).length
  else ((base64Decode encoded).map List.length).getD len

/-- What a value costs without its elements. -/
def flatSize (tag : Str) (inner : Json) : ℕ :=
  let strings := (inner.asArray.getD []).filterMap Json.asStr
  if tag = ['S'] then (inner.asStr.map fun s => (utf8 s).length).getD 0
  else if tag = ['N'] then (inner.asStr.map numberSize).getD 0
  else if tag = ['B'] then (inner.asStr.map binarySize).getD 0
  else if tag = "BOOL" ∨ tag = "NULL" then 1
  else if tag = ['S', 'S'] then (strings.map fun s => (utf8 s).length).sum
  else if tag = ['N', 'S'] then (strings.map numberSize).sum
  else if tag = ['B', 'S'] then (strings.map binarySize).sum
  else if tag = ['L'] ∨ tag = ['M'] then 3
  else 0

mutual

def attributeValueSize : AttributeValue → ℕ
  | .obj ((tag, inner) :: _) => flatSize tag inner + innerSize tag inner
  | _ => 0

def innerSize (tag : Str) : Json → ℕ
  | .arr items => if tag = ['L'] then elementsSize items else 0
  | .obj fields => if tag = ['M'] then fieldsSize fields else 0
  | _ => 0

def elementsSize : List Json → ℕ
  | [] => 0
  | x :: xs => 1 + attributeValueSize x + elementsSize xs

def fieldsSize : List (Str × Json) → ℕ
  | [] => 0
  | (name, x) :: fs => (utf8 name).length + 1 + attributeValueSize x + fieldsSize fs

end

def itemSize (item : Item) : ℕ :=
  (item.entries.map fun e => (utf8 e.1).length + attributeValueSize e.2).sum

/-! ## Rows -/

abbrev ItemId := ℕ

/-- The rows in storage order, each with its id; ids are not used again. -/
structure TableItems where
  rows : List (ItemId × Item)
  nextId : ℕ
  increasing : rows.Pairwise fun a b => a.1 < b.1
  below : ∀ r ∈ rows, r.1 < nextId

namespace TableItems

def empty : TableItems := ⟨[], 0, .nil, nofun⟩

def len (items : TableItems) : ℕ := items.rows.length

def toVec (items : TableItems) : List Item := items.rows.map Prod.snd

def get (items : TableItems) (id : ItemId) : Option Item := items.rows.lookup id

def push (items : TableItems) (item : Item) : TableItems where
  rows := items.rows ++ [(items.nextId, item)]
  nextId := items.nextId + 1
  increasing := by
    refine List.pairwise_append.mpr ⟨items.increasing, List.pairwise_singleton _ _, ?_⟩
    intro a ha b hb
    rw [List.mem_singleton.mp hb]
    exact items.below a ha
  below := by
    intro r hr
    rcases List.mem_append.mp hr with hr | hr
    · exact Nat.lt_succ_of_lt (items.below r hr)
    · rw [List.mem_singleton.mp hr]
      exact Nat.lt_succ_self _

def set (items : TableItems) (id : ItemId) (item : Item) : TableItems where
  rows := items.rows.map fun r => if r.1 = id then (r.1, item) else r
  nextId := items.nextId
  increasing := by
    rw [List.pairwise_map]
    refine items.increasing.imp fun {a b} h => ?_
    split_ifs <;> exact h
  below := by
    intro r hr
    obtain ⟨r', hr', rfl⟩ := List.mem_map.mp hr
    have := items.below r' hr'
    split_ifs <;> exact this

def remove (items : TableItems) (id : ItemId) : TableItems where
  rows := items.rows.filter fun r => r.1 != id
  nextId := items.nextId
  increasing := items.increasing.sublist List.filter_sublist
  below := fun r hr => items.below r (List.mem_of_mem_filter hr)

/-- Rows that become a table's contents. -/
def new (items : List Item) : TableItems := items.foldl push empty

end TableItems

/-! ## The table -/

inductive KeyType
  | hash
  | range
deriving DecidableEq

structure KeySchemaElement where
  attributeName : Str
  keyType : KeyType

/-- `keyIndex`: not built; built, with the number of rows it was kept against; or given up because
two rows have one key. -/
inductive KeyIndex
  | unbuilt
  | built (ids : OrdMap RowKey ItemId RowKey.cmp) (rows : ℕ)
  | ambiguous (rows : ℕ)

def KeyIndex.rows : KeyIndex → Option ℕ
  | .unbuilt => none
  | .built _ rows => some rows
  | .ambiguous rows => some rows

def KeyIndex.mapRows (f : ℕ → ℕ) : KeyIndex → KeyIndex
  | .unbuilt => .unbuilt
  | .built ids rows => .built ids (f rows)
  | .ambiguous rows => .ambiguous (f rows)

def KeyIndex.record (index : KeyIndex) (key : Option RowKey) (id : ItemId) : KeyIndex :=
  match key, index with
  | some k, .built ids rows => .built (ids.insert k id) rows
  | _, _ => index

/-- An entry for the key that records another row is left alone. -/
def KeyIndex.forget (index : KeyIndex) (key : Option RowKey) (id : ItemId) : KeyIndex :=
  match key, index with
  | some k, .built ids rows => if ids.get k = some id then .built (ids.erase k) rows else index
  | _, _ => index

def KeyIndex.withoutKey (ids : OrdMap RowKey ItemId RowKey.cmp) :
    Option RowKey → OrdMap RowKey ItemId RowKey.cmp
  | some old => ids.erase old
  | none => ids

/-- A row whose key has changed; given up when that leaves two rows under one key. -/
def KeyIndex.move (index : KeyIndex) (old new : Option RowKey) (id : ItemId) : KeyIndex :=
  if new = old then index
  else
    match index with
    | .built ids rows =>
      let ids := withoutKey ids old
      match new with
      | none => .built ids rows
      | some k => if (ids.get k).isSome then .ambiguous rows else .built (ids.insert k id) rows
    | _ => index

/-- A committed write in the history for point-in-time recovery. -/
structure ItemChange where
  seq : ℕ
  at_ : ℤ
  keys : List (Str × AttributeValue)
  oldImage : Option Item
  newImage : Option Item

structure PitrHistory where
  enabledAt : Option ℤ
  changes : List ItemChange
  nextSeq : ℕ

/-- The keys written while a replicated write is tracked. -/
structure ChangeLog where
  trackers : ℕ
  keys : List (List (Str × AttributeValue))

inductive StreamViewType
  | keysOnly
  | newImage
  | oldImage
  | newAndOldImages
  | other
deriving DecidableEq

inductive EventName
  | insert
  | modify
  | remove
deriving DecidableEq

structure StreamRecord where
  eventName : EventName
  keys : Item
  newImage : Option Item
  oldImage : Option Item
  timestamp : ℤ

structure SecondaryIndex where
  indexName : Str
  keySchema : List KeySchemaElement

structure AttributeDefinition where
  attributeName : Str
  attributeType : Str

structure DynamoTable where
  name : Str
  arn : Str
  keySchema : List KeySchemaElement
  attributeDefinitions : List AttributeDefinition
  items : TableItems
  keyIndex : KeyIndex
  gsi : List SecondaryIndex
  lsi : List SecondaryIndex
  itemCount : ℤ
  sizeBytes : ℤ
  pitrEnabled : Bool
  pitrHistory : PitrHistory
  streamEnabled : Bool
  streamViewType : Option StreamViewType
  streamRecords : List StreamRecord
  changeLog : ChangeLog

def schemaAttribute (schema : List KeySchemaElement) (role : KeyType) : Option Str :=
  (schema.find? fun k => k.keyType = role).map KeySchemaElement.attributeName

namespace DynamoTable

variable (t : DynamoTable)

def hashKeyName : Str := (schemaAttribute t.keySchema .hash).getD []

def rangeKeyName : Option Str := schemaAttribute t.keySchema .range

def keyNames : KeyNames := ⟨t.hashKeyName, t.rangeKeyName⟩

def encodeKey (item : Item) : Option RowKey := t.keyNames.encode item

/-! ### History and change log -/

def primaryKeyOf (item : Item) : List (Str × AttributeValue) :=
  t.keySchema.filterMap fun k =>
    (item.lookup k.attributeName).map fun v => (k.attributeName, v)

def logChange (item : Item) : DynamoTable :=
  if t.changeLog.trackers > 0 then
    { t with changeLog := { t.changeLog with keys := t.changeLog.keys ++ [t.primaryKeyOf item] } }
  else t

def wholeSeconds (time : ℤ) : ℤ := time - time % 1000000000

/-- `PITR_RETENTION_DAYS`, in nanoseconds. -/
def pitrRetention : ℤ := 35 * 86400 * 1000000000

def earliestRestorable (now : ℤ) : Option ℤ :=
  if t.pitrEnabled then
    some (wholeSeconds (max (t.pitrHistory.enabledAt.getD now) (now - pitrRetention)))
  else none

def recordChange (oldImage newImage : Option Item) (now : ℤ) : DynamoTable :=
  if t.pitrEnabled then
    match oldImage.or newImage with
    | none => t
    | some source =>
      let cutoff := (t.earliestRestorable now).getD now
      let change : ItemChange :=
        { seq := t.pitrHistory.nextSeq, at_ := now, keys := t.primaryKeyOf source, oldImage, newImage }
      { t with pitrHistory :=
          { t.pitrHistory with
            nextSeq := t.pitrHistory.nextSeq + 1
            changes := t.pitrHistory.changes.dropWhile (fun c => c.at_ < cutoff) ++ [change] } }
  else t

def changeMarker : ℕ := t.pitrHistory.nextSeq

def discardChangesSince (marker : ℕ) : DynamoTable :=
  { t with pitrHistory :=
      { t.pitrHistory with changes := t.pitrHistory.changes.filter fun c => c.seq < marker } }

/-! ### The key index -/

/-- The loop of `rebuild_key_index`: the index, or none at the first duplicate key. -/
def buildIndex (names : KeyNames) : List (ItemId × Item) → OrdMap RowKey ItemId RowKey.cmp →
    Option (OrdMap RowKey ItemId RowKey.cmp)
  | [], index => some index
  | (id, item) :: rows, index =>
    match names.encode item with
    | none => buildIndex names rows index
    | some k =>
      match index.get k with
      | none => buildIndex names rows (index.insert k id)
      | some _ => none

def rebuildKeyIndex : DynamoTable :=
  { t with keyIndex :=
      match buildIndex t.keyNames t.items.rows .empty with
      | none => .ambiguous t.items.len
      | some ids => .built ids t.items.len }

def ensureKeyIndex : DynamoTable :=
  if t.keyIndex.rows = some t.items.len then t else t.rebuildKeyIndex

def findItemIndexScan (key : Item) : Option ItemId :=
  (t.items.rows.find? fun r => t.keyNames.isKeyOf key r.2).map Prod.fst

def findItemIndex (key : Item) : Option ItemId :=
  match t.keyIndex with
  | .built ids rows =>
    if rows ≠ t.items.len then t.findItemIndexScan key
    else
      match t.encodeKey key with
      | none => none
      | some encoded =>
        match ids.get encoded with
        | none => none
        | some id =>
          -- answered from the rows when the recorded one does not carry this key
          if (t.items.get id).bind t.encodeKey = some encoded then some id
          else t.findItemIndexScan key
  | _ => t.findItemIndexScan key

/-! ### Single rows -/

def putItemAtKey (item : Item) (now : ℤ) : DynamoTable × ItemId × Bool :=
  let t := (t.logChange item).ensureKeyIndex
  match t.findItemIndex item with
  | some id =>
    let old := t.items.get id
    let t := if t.pitrEnabled then t.recordChange old (some item) now else t
    ({ t with
        sizeBytes := t.sizeBytes - (old.map itemSize).getD 0 + itemSize item
        items := t.items.set id item }, id, true)
  | none =>
    let t := t.recordChange none (some item) now
    let id := t.items.nextId
    ({ t with
        sizeBytes := t.sizeBytes + itemSize item
        itemCount := t.itemCount + 1
        items := t.items.push item
        keyIndex := (t.keyIndex.record (t.encodeKey item) id).mapRows (· + 1) }, id, false)

def indexRemove (item : Item) (id : ItemId) : DynamoTable :=
  { t with keyIndex := t.keyIndex.forget (t.encodeKey item) id }

/-- Panics when there is no such row. -/
def removeItemAt (id : ItemId) (now : ℤ) : Option (DynamoTable × Item) :=
  (t.items.get id).map fun removed =>
    let t := { t with items := t.items.remove id }
    let t := t.recordChange (some removed) none now
    let t := t.indexRemove removed id
    let t := { t with
      keyIndex := t.keyIndex.mapRows (· - 1)
      sizeBytes := t.sizeBytes - itemSize removed
      itemCount := t.itemCount - 1 }
    (t.logChange removed, removed)

def removeItemByKey (key : Item) (now : ℤ) : Option (DynamoTable × Option Item) :=
  let t := t.ensureKeyIndex
  match t.findItemIndex key with
  | none => some (t, none)
  | some id => (t.removeItemAt id now).map fun (t, removed) => (t, some removed)

/-! ### Mutations in place -/

/-- What a row contributed before it was mutated. -/
structure ItemSlot where
  size : ℤ
  key : Option RowKey

def snapshotItemAt (id : ItemId) : ItemSlot :=
  match t.items.get id with
  | some item => ⟨itemSize item, t.encodeKey item⟩
  | none => ⟨0, none⟩

def syncItemAt (id : ItemId) (before : ItemSlot) : DynamoTable :=
  match t.items.get id with
  | none => t
  | some item =>
    { t with
      sizeBytes := t.sizeBytes + (itemSize item - before.size)
      keyIndex := t.keyIndex.move before.key (t.encodeKey item) id }

/-- The row as it is now, in the change log of a tracked write. -/
def logRow (id : ItemId) : DynamoTable :=
  if t.changeLog.trackers > 0 then
    match t.items.get id with
    | some row => t.logChange row
    | none => t
  else t

/-- A closure that fails leaves the row as it was.  Panics when there is no such row. -/
def updateItemAt {ε : Type} (id : ItemId) (f : Item → Item × Except ε Unit) (now : ℤ) :
    Option (DynamoTable × Except ε Unit) :=
  let before := t.snapshotItemAt id
  (t.items.get id).map fun original =>
    match f original with
    | (row, .ok ()) =>
      let t := { t with items := t.items.set id row }
      let t := if t.pitrEnabled then t.recordChange (some original) (some row) now else t
      ((t.syncItemAt id before).logRow id, .ok ())
    | (_, .error e) => ({ t with items := t.items.set id original }, .error e)

/-- Panics when there is no such row. -/
def mutateItemAt (id : ItemId) (f : Item → Item) (now : ℤ) : Option DynamoTable :=
  let before := t.snapshotItemAt id
  (t.items.get id).map fun original =>
    let t := { t with items := t.items.set id (f original) }
    let t := if t.pitrEnabled then t.recordChange (some original) (some (f original)) now else t
    (t.syncItemAt id before).logRow id

/-! ### Bulk operations -/

def recalculateStats : DynamoTable :=
  let t := { t with
    itemCount := t.items.len
    sizeBytes := (t.items.toVec.map fun item => (itemSize item : ℤ)).sum }
  t.rebuildKeyIndex

def replaceItems (items : List Item) : DynamoTable :=
  let t := if t.changeLog.trackers > 0 then
      (t.items.toVec ++ items).foldl DynamoTable.logChange t
    else t
  { t with items := .new items }.recalculateStats

/-- The loop over the rows that were selected. -/
def removeAll (now : ℤ) : List ItemId → DynamoTable → Option (DynamoTable × List Item)
  | [], t => some (t, [])
  | id :: ids, t => do
    let (t, removed) ← t.removeItemAt id now
    let (t, rest) ← removeAll now ids t
    some (t, removed :: rest)

/-- `remove` is asked once for each row, in storage order. -/
def removeItemsWhere (remove : ItemId → Item → Bool) (now : ℤ) : Option (DynamoTable × List Item) :=
  let doomed := (t.items.rows.filter fun r => remove r.1 r.2).map Prod.fst
  (removeAll now doomed t).map fun (t, removed) =>
    -- the duplicates may be gone
    match t.keyIndex with
    | .ambiguous _ => if removed.isEmpty then (t, removed) else (t.rebuildKeyIndex, removed)
    | _ => (t, removed)

end DynamoTable

end Fakecloud.Dynamodb

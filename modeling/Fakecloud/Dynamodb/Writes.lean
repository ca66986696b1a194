import Fakecloud.Dynamodb.Page
import Fakecloud.Dynamodb.Rows

/-!
# What the writes share

The handlers that write rows bring the numbers of an item into the form that is stored, check that its
key fits the table, and describe every change by a stream record.  A key whose attributes are texts
under one tag, with numbers that can be read back (`KeyNames.Scalar`), is the same key in the stored
form.
-/

namespace Fakecloud.Dynamodb

open Text List Option KeyedList KeyNames SortKeyPart

/-! ## Numbers in the form that is stored -/

/-- A number in its canonical form; what is no number stays. -/
def canonicalMember : Json → Json
  | .str s => .str ((canonicalNumber s).getD s)
  | v => v

mutual

def normalizeValueNumbers : AttributeValue → AttributeValue
  | .obj fields => .obj (normalizeTagged fields)
  | v => v

def normalizeTagged : List (Str × Json) → List (Str × Json)
  | [] => []
  | (tag, inner) :: fields => (tag, normalizeInner tag inner) :: normalizeTagged fields

/-- What a tag tags: a number, a set of numbers, or values with numbers in them. -/
def normalizeInner (tag : Str) : Json → Json
  | .str s => if tag = ['N'] then canonicalMember (.str s) else .str s
  | .arr items =>
    if tag = ['N', 'S'] then .arr (items.map canonicalMember)
    else if tag = ['L'] then .arr (normalizeElements items)
    else .arr items
  | .obj fields => if tag = ['M'] then .obj (normalizeMembers fields) else .obj fields
  | v => v

def normalizeElements : List Json → List Json
  | [] => []
  | x :: xs => normalizeValueNumbers x :: normalizeElements xs

def normalizeMembers : List (Str × Json) → List (Str × Json)
  | [] => []
  | (name, x) :: fields => (name, normalizeValueNumbers x) :: normalizeMembers fields

end

def normalizeItemNumbers (item : Item) : Item where
  entries := item.entries.map fun e => ⟨e.1, normalizeValueNumbers e.2⟩
  nodupKeys := by
    have hkeys : (item.entries.map fun e => (⟨e.1, normalizeValueNumbers e.2⟩ :
        Sigma fun _ : Str => AttributeValue)).keys = item.entries.keys := by
      simp [List.keys, Function.comp_def]
    rw [List.NodupKeys, hkeys]
    exact item.nodupKeys

theorem lookup_normalizeItemNumbers (item : Item) (a : Str) :
    (normalizeItemNumbers item).lookup a = (item.lookup a).map normalizeValueNumbers :=
  @dlookup_map₂ Str _ (fun _ => AttributeValue) (fun _ => AttributeValue) item.entries
    (fun _ => normalizeValueNumbers) a

/-! ## Keys -/

def isScalar : AttributeValue → Bool
  | .obj [(_, .str _)] => true
  | _ => false

/-- **Scalar keys.**  Every key attribute is there, is a text under one tag, and if that is a number
its scientific exponent is an `i64`. -/
structure KeyNames.Scalar (names : KeyNames) (item : Item) : Prop where
  text : ∀ a ∈ names.attributes, (item.lookup a).any isScalar
  inRange : ∀ a ∈ names.attributes, ∀ v ∈ item.lookup a, ∀ p ∈ numberOf v, p.InRange

instance (names : KeyNames) (item : Item) : Decidable (names.Scalar item) :=
  decidable_of_iff ((∀ a ∈ names.attributes, (item.lookup a).any isScalar) ∧
      ∀ a ∈ names.attributes, ∀ v ∈ item.lookup a, ∀ p ∈ numberOf v, p.InRange)
    ⟨fun h => ⟨h.1, h.2⟩, fun h => ⟨h.text, h.inRange⟩⟩

variable {v : AttributeValue}

theorem exists_of_isScalar (h : isScalar v) : ∃ tag text, v = .obj [(tag, .str text)] := by
  unfold isScalar at h
  split at h
  · exact ⟨_, _, rfl⟩
  · cases h

theorem plain_of_isScalar (h : isScalar v) : v.plain := by
  obtain ⟨tag, text, rfl⟩ := exists_of_isScalar h
  rfl

theorem normalize_scalar (h : isScalar v) (hrn : ∀ p ∈ numberOf v, p.InRange) :
    isScalar (normalizeValueNumbers v) ∧ numberOf (normalizeValueNumbers v) = numberOf v ∧
    (numberOf v = none → normalizeValueNumbers v = v) := by
  obtain ⟨tag, text, rfl⟩ := exists_of_isScalar h
  by_cases hN : tag = ['N']
  · subst hN
    have hn : ∀ s : Str, numberOf (.obj [(['N'], .str s)]) = parseNumber s := fun _ => rfl
    rcases hp : parseNumber text with _ | p
    · have hs : normalizeValueNumbers (.obj [(['N'], .str text)]) = .obj [(['N'], .str text)] := by
        simp [normalizeValueNumbers, normalizeTagged, normalizeInner, canonicalMember, canonicalNumber, hp]
      rw [hs]
      exact ⟨rfl, rfl, fun _ => rfl⟩
    · have hr : normalizeValueNumbers (.obj [(['N'], .str text)]) = .obj [(['N'], .str p.render)] := by
        simp [normalizeValueNumbers, normalizeTagged, normalizeInner, canonicalMember, canonicalNumber, hp]
      rw [hr, hn, hn, hp, parse_render (parseNumber_normal hp) (hrn p hp)]
      exact ⟨rfl, rfl, by simp⟩
  · have hs : normalizeValueNumbers (.obj [(tag, .str text)]) = .obj [(tag, .str text)] := by
      simp [normalizeValueNumbers, normalizeTagged, normalizeInner, hN]
    rw [hs]
    exact ⟨rfl, rfl, fun _ => rfl⟩

/-- Scalars with one number, or that are equal, have one encoding of either kind. -/
theorem encode_eq_of_number {w : AttributeValue} (h : numberOf w = numberOf v)
    (hsm : numberOf v = none → w = v) :
    encodeKeyValue w = encodeKeyValue v ∧ ofValue w = ofValue v := by
  rcases hp : numberOf v with _ | p
  · rw [hsm hp]
    exact ⟨rfl, rfl⟩
  · rw [hp] at h
    obtain ⟨s, hs, hsr⟩ := ofValue_number hp
    obtain ⟨t, ht, htr⟩ := ofValue_number h
    refine ⟨by rw [encodeKeyValue_number h, encodeKeyValue_number hp], ?_⟩
    rw [hs, ht, number.injEq]
    exact Subtype.ext (htr.trans hsr.symm)

namespace KeyNames

variable {names : KeyNames} {item item' : Item}

theorem hash_mem_attributes : names.hash ∈ names.attributes := mem_cons_self

theorem range_mem_attributes {rk : Str} (h : rk ∈ names.range) : rk ∈ names.attributes :=
  mem_cons_of_mem _ (Option.mem_toList.mpr h)

theorem encode_congr (h : ∀ a ∈ names.attributes, item'.lookup a = item.lookup a) :
    names.encode item' = names.encode item := by
  have hs : (names.range.map fun rk => of (item'.lookup rk)) = names.range.map fun rk =>
    of (item.lookup rk) := by
    refine Option.map_congr fun rk hrk => ?_
    rw [h rk (range_mem_attributes hrk)]
  rw [encode, encode, h _ hash_mem_attributes, hs]

theorem Sound.congr (hs : names.Sound item)
    (h : ∀ a ∈ names.attributes, item'.lookup a = item.lookup a) : names.Sound item' := by
  refine ⟨?_, fun rk hrk => ?_, fun rk hrk => ?_⟩
  · rw [h _ hash_mem_attributes]
    exact hs.hash
  · rw [h rk (range_mem_attributes hrk)]
    exact hs.sort rk hrk
  · rw [h rk (range_mem_attributes hrk)]
    exact hs.inRange rk hrk

theorem Scalar.exists (h : names.Scalar item) {a : Str} (ha : a ∈ names.attributes) :
    ∃ v, item.lookup a = some v ∧ isScalar v := by
  have := h.text a ha
  rcases hv : item.lookup a with _ | v
  · rw [hv] at this
    cases this
  · rw [hv] at this
    exact ⟨v, rfl, this⟩

theorem Scalar.congr (hs : names.Scalar item)
    (h : ∀ a ∈ names.attributes, item'.lookup a = item.lookup a) : names.Scalar item' :=
  ⟨fun a ha => by rw [h a ha]; exact hs.text a ha, fun a ha => by rw [h a ha]; exact hs.inRange a ha⟩

theorem Scalar.sound (h : names.Scalar item) : names.Sound item := by
  have hp : ∀ a ∈ names.attributes, ∀ v ∈ item.lookup a, v.plain := by
    intro a ha v hv
    obtain ⟨w, hw, hs⟩ := h.exists ha
    rw [hw] at hv
    exact some.inj hv ▸ plain_of_isScalar hs
  exact ⟨hp _ hash_mem_attributes, fun rk hrk => hp rk (range_mem_attributes hrk),
    fun rk hrk => h.inRange rk (range_mem_attributes hrk)⟩

theorem Scalar.isSome_encode (h : names.Scalar item) : (names.encode item).isSome := by
  obtain ⟨v, hv, -⟩ := h.exists hash_mem_attributes
  rw [encode_of_lookup hv]
  rfl

/-- What is stored has the key that was asked for. -/
theorem Scalar.normalize (h : names.Scalar item) : names.Scalar (normalizeItemNumbers item) ∧
    names.encode (normalizeItemNumbers item) = names.encode item := by
  have hvl : ∀ a ∈ names.attributes, ∃ v w, item.lookup a = some v ∧
      (normalizeItemNumbers item).lookup a = some w ∧ isScalar w ∧ numberOf w = numberOf v ∧
      (numberOf v = none → w = v) := by
    intro a ha
    obtain ⟨v, hv, hs⟩ := h.exists ha
    refine ⟨v, normalizeValueNumbers v, hv, ?_, normalize_scalar hs (h.inRange a ha v hv)⟩
    rw [lookup_normalizeItemNumbers, hv]
    rfl
  refine ⟨⟨fun a ha => ?_, fun a ha => ?_⟩, ?_⟩
  · obtain ⟨v, w, -, hw, hs, -, -⟩ := hvl a ha
    rw [hw]
    exact hs
  · obtain ⟨v, w, hv, hw, -, hn, -⟩ := hvl a ha
    intro w' hw' p hp
    rw [hw] at hw'
    rw [← some.inj hw', hn] at hp
    exact h.inRange a ha v hv p hp
  · obtain ⟨v, w, hv, hw, -, hn, hsm⟩ := hvl _ hash_mem_attributes
    have hsr : (names.range.map fun rk =>
        of ((normalizeItemNumbers item).lookup rk)) = names.range.map fun rk => of (item.lookup rk) := by
      refine Option.map_congr fun rk hrk => ?_
      obtain ⟨v, w, hv, hw, -, hn, hsm⟩ := hvl rk (range_mem_attributes hrk)
      rw [hv, hw]
      exact (encode_eq_of_number hn hsm).2
    rw [encode_of_lookup hv, encode_of_lookup hw, hsr, (encode_eq_of_number hn hsm).1]

end KeyNames

/-! ### The checks on keys -/

namespace DynamoTable

variable (t : DynamoTable)

def extractKey (item : Item) : Item := extractKeyForSchema item t.keyNames

def keysEqual (a b : Item) : Bool :=
  if valuesEqual (a.lookup t.hashKeyName) (b.lookup t.hashKeyName) &&
      (a.lookup t.hashKeyName).isSome && (b.lookup t.hashKeyName).isSome then
    match t.rangeKeyName with
    | some rk => valuesEqual (a.lookup rk) (b.lookup rk)
    | none => true
  else false

/-- The tag of a value, `NULL` when it has none. -/
def attributeTypeTag (v : AttributeValue) : Str := (valueType v).getD "NULL"

def isEmptyScalar (v : AttributeValue) (expected : Str) : Bool :=
  (expected == ['S'] || expected == ['B']) && ((v.field expected).bind Json.asStr).any List.isEmpty

def emptyKind (attrType : Str) : Str := if attrType = ['B'] then "binary" else "string"

def emptyTableKeyError (attrs : Item) : Option ServiceError :=
  t.tableKeys.findSome? fun name => do
    let expected ← t.declaredType name
    let v ← attrs.lookup name
    if isEmptyScalar v expected then
      some (validationError ("One or more parameter values are not valid. The AttributeValue for a key attribute cannot contain an empty " ++ emptyKind expected ++ " value. Key: " ++
        name))
    else none

def keyMatchesSchema (key : Item) : Bool :=
  t.tableKeys.all (fun name =>
    match key.lookup name with
    | none => false
    | some v => (t.declaredType name).all fun expected => attributeTypeTag v == expected) &&
  key.keys.length == t.tableKeys.length

def keySchemaMismatch : Str := "The provided key element does not match the schema"

def missingItemKeyError (item : Item) : Option ServiceError :=
  (t.tableKeys.find? fun name => (item.lookup name).isNone).map fun name =>
    validationError ("One or more parameter values were invalid: Missing the key " ++ name ++
      " in the item")

def itemKeyTypeMismatch (item : Item) : Option Str :=
  t.tableKeys.findSome? fun name => do
    let expected ← t.declaredType name
    let v ← item.lookup name
    if attributeTypeTag v ≠ expected then
      some ("One or more parameter values were invalid: Type mismatch for key " ++ name ++
        " expected: " ++ expected ++ " actual: " ++ attributeTypeTag v)
    else none

variable {t}

theorem lookup_extractKey {item : Item} {a : Str} (ha : a ∈ t.keyNames.attributes) :
    (t.extractKey item).lookup a = item.lookup a := by
  rw [extractKey, extractKeyForSchema, lookup_copyAttributes]
  split
  · rfl
  · next h =>
    rcases hv : item.lookup a with _ | v
    · exact AList.lookup_empty a
    · exact absurd ⟨ha, by rw [hv]; rfl⟩ h

/-- **Keys are one exactly when their encodings are.** -/
theorem keysEqual_iff {a b : Item} (ha : t.keyNames.Sound a) (hb : t.keyNames.Sound b) :
    t.keysEqual a b ↔ ∃ k, t.encodeKey a = some k ∧ t.encodeKey b = some k := by
  have hk := isKeyOf_iff ha hb
  rw [isKeyOf] at hk
  unfold encodeKey
  rw [← hk]
  have hn : ∀ v : Option AttributeValue, (valuesEqual v none && v.isSome) = false := by
    rintro (_ | v) <;> rfl
  change (if valuesEqual (a.lookup t.keyNames.hash) (b.lookup t.keyNames.hash) &&
      (a.lookup t.keyNames.hash).isSome && (b.lookup t.keyNames.hash).isSome then _ else _) = true ↔ _
  rcases hv : b.lookup t.keyNames.hash with _ | v
  · simp only [hn, Bool.false_and, Bool.false_eq_true, if_false]
  · simp only [isSome_some, Bool.and_true]
    split
    · next h => simp only [h]; rfl
    · next h => simp [h]

/-! ## Stream records -/

end DynamoTable

namespace StreamViewType

def showsNew : StreamViewType → Bool
  | newImage | newAndOldImages => true
  | _ => false

def showsOld : StreamViewType → Bool
  | oldImage | newAndOldImages => true
  | _ => false

end StreamViewType

/-- An image that a view type shows, or does not. -/
def imageIf (shown : Bool) (image : Option Item) : Option Item := if shown then image else none

def streamRetention : ℤ := 24 * 3600 * 1000000000

namespace DynamoTable

def generateStreamRecord (t : DynamoTable) (eventName : EventName) (keys : Item)
    (oldImage newImage : Option Item) (now : ℤ) : Option StreamRecord :=
  if t.streamEnabled then
    t.streamViewType.map fun view =>
      { eventName, keys
        newImage := imageIf view.showsNew newImage
        oldImage := imageIf view.showsOld oldImage
        timestamp := now }
  else none

def addStreamRecord (t : DynamoTable) (record : StreamRecord) (now : ℤ) : DynamoTable :=
  { t with streamRecords :=
      (t.streamRecords ++ [record]).filter fun r => now - streamRetention < r.timestamp }

theorem addStreamRecord_same (t : DynamoTable) (record : StreamRecord) (now : ℤ) :
    SameContents t (t.addStreamRecord record now) := ⟨rfl, rfl, rfl, rfl, rfl⟩

/-! ## The row that an update works on -/

/-- The row that was found, or a new one with the key attributes only. -/
def rowFor (t : DynamoTable) (existing : Option ItemId) (key : Item) (now : ℤ) : DynamoTable × ItemId :=
  match existing with
  | some id => (t, id)
  | none =>
    let put := t.putItemAtKey (normalizeItemNumbers key) now
    (put.1, put.2.1)

theorem rowFor_evolved (t : DynamoTable) (key : Item) (now : ℤ) :
    Evolved t (t.rowFor (t.findItemIndex key) key now).1 now ∧
    ∃ row, (t.rowFor (t.findItemIndex key) key now).1.items.get
      (t.rowFor (t.findItemIndex key) key now).2 = some row := by
  rcases hf : t.findItemIndex key with _ | id
  · obtain ⟨hs, hr⟩ := put_settings t (normalizeItemNumbers key) now
    exact ⟨hr.evolved hs, _, put_get t _ now⟩
  · exact ⟨.refl t now, exists_of_find hf⟩

variable {t : DynamoTable}

theorem Consistent.scan_congr (h : t.Consistent) {a b : Item}
    (ha : t.keyNames.Sound a) (hb : t.keyNames.Sound b) (hs : (t.encodeKey a).isSome)
    (hab : t.encodeKey b = t.encodeKey a) : t.findItemIndexScan b = t.findItemIndexScan a := by
  have hs' : (t.encodeKey b).isSome := by
    rw [hab]
    exact hs
  unfold findItemIndexScan
  congr 1
  refine find?_congr fun r hr => ?_
  rw [isKeyOf_eq (h.sound r hr) ha hs, isKeyOf_eq (h.sound r hr) hb hs']
  change decide (t.encodeKey r.2 = t.encodeKey b) = decide (t.encodeKey r.2 = t.encodeKey a)
  rw [hab]

/-- **The row for an update** is the first of its key; writing it writes to the rows as they were. -/
theorem Consistent.rowFor_rows (h : t.Consistent) {key : Item}
    (hk : t.keyNames.Scalar key) (now : ℤ) : (t.rowFor (t.findItemIndex key) key now).1.Consistent ∧
    (t.rowFor (t.findItemIndex key) key now).1.findItemIndexScan key =
      some (t.rowFor (t.findItemIndex key) key now).2 ∧ (t.rowFor (t.findItemIndex key) key now).1.items.get
        (t.rowFor (t.findItemIndex key) key now).2 =
      some ((first t.encodeKey (t.encodeKey key) t.rows).getD (normalizeItemNumbers key)) ∧
    ∀ row, t.encodeKey row = t.encodeKey key →
      upsert t.encodeKey row (t.rowFor (t.findItemIndex key) key now).1.rows =
        upsert t.encodeKey row t.rows := by
  have hsm : (t.encodeKey key).isSome := hk.isSome_encode
  have hf := h.lookup_eq hk.sound hsm
  rw [lookup] at hf
  rcases hfn : t.findItemIndex key with _ | id
  · -- a new row
    rw [hfn] at hf
    obtain ⟨hsc, he⟩ := hk.normalize
    have he' : t.encodeKey (normalizeItemNumbers key) = t.encodeKey key := he
    obtain ⟨hr, hsca⟩ := h.put_rows hsc.sound (he'.symm ▸ hsm) now
    have hc : (t.putItemAtKey (normalizeItemNumbers key) now).1.Consistent := h.put hsc.sound
    have hs := (put_settings t (normalizeItemNumbers key) now).1.keySchema
    have hn := keyNames_congr hs
    refine ⟨hc, ?_, ?_, fun row hrw => ?_⟩
    · refine Eq.trans ?_ hsca
      refine hc.scan_congr (hn ▸ hsc.sound) (hn ▸ hk.sound) ?_ ?_
      · rw [encodeKey_congr hs, he']
        exact hsm
      · rw [encodeKey_congr hs, he']
    · rw [← hf]
      exact put_get t _ now
    · change upsert t.encodeKey row (t.putItemAtKey (normalizeItemNumbers key) now).1.rows = _
      rw [hr, upsert_upsert (he'.trans hrw.symm)]
  · obtain ⟨old, ho⟩ := exists_of_find hfn
    rw [hfn, bind_some, ho] at hf
    refine ⟨h, (h.find_eq_scan hk.sound).symm.trans hfn, ?_, fun row _ => rfl⟩
    rw [← hf]
    exact ho

/-! ## Changes of rows -/

end DynamoTable

/-- What one write does to the rows: the key it names, and the row before and after. -/
structure RowChange where
  keys : Item
  old : Option Item
  new : Option Item
  at_ : ℤ

namespace RowChange

def toChange (encode : Item → Option RowKey) (c : RowChange) : KeyedList.Change Item (Option RowKey) :=
  ⟨encode c.keys, c.old, c.new⟩

def eventName (c : RowChange) : EventName :=
  match c.old, c.new with
  | none, _ => .insert
  | some _, some _ => .modify
  | some _, none => .remove

def record (view : StreamViewType) (c : RowChange) : StreamRecord :=
  { eventName := c.eventName
    keys := c.keys
    newImage := imageIf view.showsNew c.new
    oldImage := imageIf view.showsOld c.old
    timestamp := c.at_ }

end RowChange

namespace DynamoTable

def recordOf (t : DynamoTable) (c : RowChange) : Option StreamRecord :=
  t.generateStreamRecord c.eventName c.keys c.old c.new c.at_

theorem recordOf_written (t : DynamoTable) (keys : Item) (old : Option Item) (new : Item) (now : ℤ) :
    t.generateStreamRecord (if old.isSome then .modify else .insert) keys old (some new) now =
      t.recordOf ⟨keys, old, some new, now⟩ := by
  rcases old with _ | old
  · rfl
  · rfl

/-- A table before and after some changes of its rows, one after the other. -/
structure Wrote (t t' : DynamoTable) (cs : List RowChange) : Prop where
  consistent : t'.Consistent
  keySchema : t'.keySchema = t.keySchema
  fit : KeyedList.FitAll t.encodeKey (cs.map (RowChange.toChange t.encodeKey)) t.rows
  rows : t'.rows = KeyedList.applyAll t.encodeKey (cs.map (RowChange.toChange t.encodeKey)) t.rows

variable {t : DynamoTable}

theorem Consistent.wrote_nil (h : t.Consistent) : Wrote t t [] := ⟨h, rfl, trivial, rfl⟩

theorem Consistent.wrote_ensure (h : t.Consistent) : Wrote t t.ensureKeyIndex [] :=
  ⟨h.ensure, ensureKeyIndex_keySchema, trivial, by rw [rows, ensureKeyIndex_items]; rfl⟩

theorem Wrote.append {t₁ t₂ t₃ : DynamoTable} {cs ds : List RowChange} (h : Wrote t₁ t₂ cs)
    (h' : Wrote t₂ t₃ ds) : Wrote t₁ t₃ (cs ++ ds) := by
  have he := encodeKey_congr h.keySchema
  refine ⟨h'.consistent, h'.keySchema.trans h.keySchema, ?_, ?_⟩
  · rw [map_append, fitAll_append, ← h.rows, ← he]
    exact ⟨he ▸ h.fit, h'.fit⟩
  · rw [map_append, applyAll, foldl_append, ← applyAll, ← applyAll, ← h.rows, ← he]
    exact h'.rows

theorem Wrote.congr {t' u : DynamoTable} {cs : List RowChange} (h : Wrote t t' cs)
    (hu : SameContents t' u) :
    Wrote t u cs := ⟨h.consistent.congr hu, hu.keySchema.trans h.keySchema, h.fit, by
    rw [← h.rows, DynamoTable.rows, DynamoTable.rows, hu.items]⟩

section Single

variable {t t' : DynamoTable} {key raw : Item} {now : ℤ}

theorem wrote_singleton {c : RowChange} (h : t.Consistent) (ht' : t'.Consistent)
    (hs : t'.keySchema = t.keySchema) (hk : t.keyNames.Sound c.keys)
    (hsm : (t.encodeKey c.keys).isSome) (ho : c.old = t.lookup c.keys)
    (hn : ∀ item ∈ c.new, t.encodeKey item = t.encodeKey c.keys)
    (hr : t'.rows = (c.toChange t.encodeKey).apply t.encodeKey t.rows) : Wrote t t' [c] :=
  ⟨ht', hs, ⟨⟨ho.trans (h.lookup_eq hk hsm), hn⟩, trivial⟩, hr⟩

theorem encodeKey_extractKey (t : DynamoTable) (item : Item) :
    t.encodeKey (t.extractKey item) = t.encodeKey item := encode_congr fun _ ha => lookup_extractKey ha

theorem scalar_extractKey {item : Item} (h : t.keyNames.Scalar item) :
    t.keyNames.Scalar (t.extractKey item) := h.congr fun _ ha => lookup_extractKey ha

theorem Consistent.put_wrote (h : t.Consistent) (hr : t.keyNames.Scalar raw) (now : ℤ) :
    Wrote t (t.putItemAtKey (normalizeItemNumbers raw) now).1
      [⟨t.extractKey (normalizeItemNumbers raw),
        t.lookup (t.extractKey (normalizeItemNumbers raw)), some (normalizeItemNumbers raw), now⟩] := by
  have hi := hr.normalize.1
  have he := encodeKey_extractKey t (normalizeItemNumbers raw)
  refine wrote_singleton h (h.put hi.sound) (put_settings t _ now).1.keySchema
    (scalar_extractKey hi).sound (scalar_extractKey hi).isSome_encode rfl ?_ ?_
  · intro item hm
    rw [← some.inj hm]
    exact he.symm
  · exact (h.put_rows hi.sound hi.isSome_encode now).1

theorem Consistent.remove_wrote (h : t.Consistent) (hk : t.keyNames.Scalar key)
    {removed : Option Item} (hr : t.removeItemByKey key now = some (t', removed)) :
    Wrote t t' ((t.lookup key).toList.map fun old => ⟨key, some old, none, now⟩) := by
  have hsm : (t.encodeKey key).isSome := hk.isSome_encode
  have hl := h.lookup_eq hk.sound hsm
  obtain ⟨hrw, -⟩ := h.removeByKey_rows hk.sound hsm hr
  have hs := (removeByKey_settings hr).keySchema
  rcases ho : t.lookup key with _ | old
  · -- there is no such row
    refine ⟨h.removeByKey hr, hs, trivial, ?_⟩
    rw [hl, first] at ho
    rw [hrw, erase_absent (by simpa using ho)]
    rfl
  · exact wrote_singleton h (h.removeByKey hr) hs hk.sound hsm ho.symm (by simp) hrw

def KeepsKey (names : KeyNames) (f : Item → Item × Except ServiceError Unit) : Prop :=
  ∀ row, (f row).2 = .ok () → ∀ a ∈ names.attributes, (f row).1.lookup a = row.lookup a

theorem Consistent.update_wrote (h : t.Consistent) (hky : t.keyNames.Scalar key)
    {f : Item → Item × Except ServiceError Unit} (hf : KeepsKey t.keyNames f) {u : DynamoTable}
    {id : ItemId} (ho : t.rowFor (t.findItemIndex key) key now = (u, id))
    (hup : u.updateItemAt id f now = some (t', .ok ())) :
    t'.items.get id = some (f ((t.lookup key).getD (normalizeItemNumbers key))).1 ∧
    Wrote t t' [⟨key, t.lookup key, some (f ((t.lookup key).getD (normalizeItemNumbers key))).1, now⟩] := by
  have hs : (t.encodeKey key).isSome := hky.isSome_encode
  have hl := h.lookup_eq hky.sound hs
  obtain ⟨hu, hsca, hg, hups⟩ := h.rowFor_rows hky now
  have he := (rowFor_evolved t key now).1
  rw [ho] at hu hsca hg hups he
  rw [← hl] at hg
  have hn := keyNames_congr he.settings.keySchema
  have hen := encodeKey_congr he.settings.keySchema
  -- the row before and after the update has the key
  have hrw : u.encodeKey ((t.lookup key).getD (normalizeItemNumbers key)) = u.encodeKey key ∧
      u.keyNames.Sound ((t.lookup key).getD (normalizeItemNumbers key)) := by
    have hol := hu.rows_split (hn ▸ hky.sound) (hen.symm ▸ hs) hsca
    obtain ⟨front, old, behind, hr, hg', -, hol, -, -⟩ := hol
    rw [hg, some.injEq] at hg'
    rw [hg']
    exact ⟨hol, hu.sound_of_mem (hr ▸ mem_append_right _ mem_cons_self)⟩
  obtain ⟨hfl, hsc⟩ := updateAt_cases f hg now
  generalize (t.lookup key).getD (normalizeItemNumbers key) = row at *
  have hok : (f row).2 = .ok () := by
    rcases hrs : (f row).2 with e | ⟨⟨⟩⟩
    · rw [hfl e hrs] at hup
      cases hup
    · rfl
  obtain ⟨t'', hup', hit, hls⟩ := hsc hok
  rw [hup] at hup'
  obtain ⟨rfl, -⟩ := hup'
  have hk := hf row hok
  have hnw : u.encodeKey (f row).1 = u.encodeKey key := (encode_congr (hn ▸ hk)).trans hrw.1
  refine ⟨by rw [hit]; exact TableItems.get_set hg _, ?_⟩
  refine wrote_singleton h ?_ (hls.settings.keySchema.trans he.settings.keySchema) hky.sound
    hs rfl ?_ ?_
  · refine hu.updateAt (fun item hi _ => ?_) hup
    rw [hg, some.injEq] at hi
    rw [← hi]
    exact hrw.2.congr (hn ▸ hk)
  · intro item hi
    rw [← some.inj hi, ← hen]
    exact hnw
  · obtain ⟨front, old, behind, hv, -, hf, ho, hst, -⟩ := hu.rows_split (hn ▸ hky.sound) (hen.symm ▸ hs) hsca
    refine .trans ?_ (hups _ (hen ▸ hnw))
    rw [← hen, rows, hit, hv, upsert_split (fun b hb => hnw ▸ hf b hb) (ho.trans hnw.symm)]
    exact hst _

end Single

theorem SameSettings.recordOf_eq {t' : DynamoTable} (h : SameSettings t t') (c : RowChange) :
    t'.recordOf c = t.recordOf c := by
  simp only [recordOf, generateStreamRecord, h.streamEnabled, h.streamViewType]

end DynamoTable

end Fakecloud.Dynamodb

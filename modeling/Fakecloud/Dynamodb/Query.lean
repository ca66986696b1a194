import Fakecloud.Dynamodb.Scan

/-!
# Query

Query returns the rows that satisfy its key condition in the order of the range key of the table or
index it reads, ties in storage order, forward or backward.  `ExclusiveStartKey` names a row: the page
resumes behind that row, or, when it has been deleted, behind every row of its range value.

A query is followed while rows are deleted between its pages.  Every row that stays is returned exactly
once, as long as each starting key names a row that is there or a range value that no matching row has
(`Undisturbed`).  `Example.lost_tie` shows what happens otherwise.
-/

namespace Fakecloud.Dynamodb

open Text Paging StableSort List Option Example DynamoTable KeyNames ReadPage

/-! ## The order of an index -/

def compareTagged (a b : Str × Json) : Ordering :=
  if a.1 = ['S'] ∧ b.1 = ['S'] then compare (a.2.asStr.getD []) (b.2.asStr.getD [])
  else if a.1 = ['N'] ∧ b.1 = ['N'] then
    compareNumberStrings (a.2.asStr.getD ['0']) (b.2.asStr.getD ['0'])
  else if a.1 = ['B'] ∧ b.1 = ['B'] then
    let x := a.2.asStr.getD []
    let y := b.2.asStr.getD []
    match base64Decode x, base64Decode y with
    | some p, some q => compare p q
    | _, _ => compare x y
  else .eq

def compareAttributeValues : Option AttributeValue → Option AttributeValue → Ordering
  | none, none => .eq
  | none, some _ => .lt
  | some _, none => .gt
  | some a, some b =>
    match attributeTypeAndValue a, attributeTypeAndValue b with
    | some a, some b => compareTagged a b
    | _, _ => .eq

inductive RangeValue
  | str (s : Str)
  | number (p : ParsedNumber)
  | binary (bytes : Bytes)

namespace RangeValue

inductive Kind
  | str
  | number
  | binary
deriving DecidableEq

def kind : RangeValue → Kind
  | str _ => .str
  | number _ => .number
  | binary _ => .binary

def ofTagged (tag text : Str) : Option RangeValue :=
  if tag = ['S'] then some (str text)
  else if tag = ['N'] then (parseNumber text).map number
  else if tag = ['B'] then (base64Decode text).map binary
  else none

/-- A string, a numeral, or base64. -/
def of (v : AttributeValue) : Option RangeValue :=
  (attributeTypeAndValue v).bind fun f => f.2.asStr.bind fun text => ofTagged f.1 text

def strPart : RangeValue → Str
  | str s => s
  | _ => []

def numberPart : RangeValue → ParsedNumber
  | number p => p
  | _ => ⟨false, [], 0⟩

def binaryPart : RangeValue → Bytes
  | binary bytes => bytes
  | _ => []

def cmp : RangeValue → RangeValue → Ordering :=
  compareLex (compareOn strPart)
    (compareLex (fun a b => a.numberPart.cmp b.numberPart) (compareOn binaryPart))

instance : Std.TransCmp RangeValue.cmp := by
  have hn : Std.TransCmp fun a b : RangeValue => a.numberPart.cmp b.numberPart :=
    transCmp_comap numberPart
  unfold RangeValue.cmp
  infer_instance

end RangeValue

def rangeValue (rk : Str) (item : Item) : Option RangeValue := (item.lookup rk).bind RangeValue.of

def rangeCmp (rk : Str) (a b : Item) : Ordering :=
  RangeValue.cmp ((rangeValue rk a).getD (.str [])) ((rangeValue rk b).getD (.str []))

instance (rk : Str) : Std.TransCmp (rangeCmp rk) :=
  transCmp_comap fun item => (rangeValue rk item).getD (.str [])

variable {v : RangeValue} {rk : Str} {item key : Item} {names : KeyNames}

theorem RangeValue.ofTagged_cases {tag text : Str} (h : ofTagged tag text = some v) :
    (tag = ['S'] ∧ v = .str text) ∨ (tag = ['N'] ∧ ∃ p, parseNumber text = some p ∧ v = .number p) ∨
    (tag = ['B'] ∧ ∃ bytes, base64Decode text = some bytes ∧ v = .binary bytes) := by
  unfold ofTagged at h
  split_ifs at h with hs hn hb
  · exact .inl ⟨hs, (some.inj h).symm⟩
  · obtain ⟨p, hp, rfl⟩ := map_eq_some_iff.mp h
    exact .inr (.inl ⟨hn, p, hp, rfl⟩)
  · obtain ⟨bytes, hby, rfl⟩ := map_eq_some_iff.mp h
    exact .inr (.inr ⟨hb, bytes, hby, rfl⟩)

theorem rangeValue_eq_some
    (h : rangeValue rk item = some v) : ∃ value tag inner text, item.lookup rk = some value ∧
      attributeTypeAndValue value = some (tag, inner) ∧ inner.asStr = some text ∧
      RangeValue.ofTagged tag text = some v := by
  obtain ⟨value, hv, h⟩ := bind_eq_some_iff.mp h
  obtain ⟨⟨tag, inner⟩, htg, h⟩ := bind_eq_some_iff.mp h
  obtain ⟨text, ht, h⟩ := bind_eq_some_iff.mp h
  exact ⟨value, tag, inner, text, hv, htg, ht, h⟩

/-- On range values of one type the comparison of attribute values is their order. -/
theorem compareAttributeValues_eq {a b : Item} {kind : RangeValue.Kind}
    (ha : (rangeValue rk a).map RangeValue.kind = some kind)
    (hb : (rangeValue rk b).map RangeValue.kind = some kind) :
    compareAttributeValues (a.lookup rk) (b.lookup rk) = rangeCmp rk a b := by
  obtain ⟨va, hva, hka⟩ := map_eq_some_iff.mp ha
  obtain ⟨vb, hvb, hkb⟩ := map_eq_some_iff.mp hb
  have hk : va.kind = vb.kind := hka.trans hkb.symm
  have hz : ParsedNumber.cmp ⟨false, [], 0⟩ ⟨false, [], 0⟩ = .eq := rfl
  rw [rangeCmp]
  obtain ⟨x, tx, ix, sx, hx, htx, hsx, hox⟩ := rangeValue_eq_some hva
  obtain ⟨y, ty, iy, sy, hy, hty, hsy, hoy⟩ := rangeValue_eq_some hvb
  simp only [compareAttributeValues, compareTagged]
  -- one case for each type; the types of the two are the same
  rcases RangeValue.ofTagged_cases hox with ⟨rfl, rfl⟩ | ⟨rfl, p, hp, rfl⟩ | ⟨rfl, p, hp, rfl⟩ <;>
    rcases RangeValue.ofTagged_cases hoy with ⟨rfl, rfl⟩ | ⟨rfl, q, hq, rfl⟩ | ⟨rfl, q, hq, rfl⟩ <;>
    first
    | (cases hk; done)
    | simp [RangeValue.cmp, compareLex, compareOn, RangeValue.strPart, RangeValue.numberPart,
        RangeValue.binaryPart, compareNumberStrings, *]

/-! ## The request -/

structure QueryRequest where
  indexName : Option Str
  consistentRead : Bool
  scanForward : Bool
  limit : Option ℤ
  exclusiveStartKey : Option Item
  keyCondition : Item → Bool
  /-- What the filter expression says of a row, on an index of its projection. -/
  filter : Option (Item → Bool)

/-- What a request asks for once it has been checked: the key attributes of the table or of the index
it reads. -/
structure QueryPlan where
  names : KeyNames
  limit : Option ℕ

namespace QueryRequest

variable (req : QueryRequest)

/-- The checks of a request apart from its starting key and its expressions. -/
def plan (t : DynamoTable) : Except ServiceError QueryPlan := do
  if req.limit.any (· < 1) then
    throw (frameworkValidationError [("Value at 'Limit' failed to satisfy constraint: Member must " ++
      "have value greater than or equal to 1").toList])
  let names ← match req.indexName with
    | some name => (fun index => schemaNames index.keySchema) <$> t.findIndex name req.consistentRead
    | none => pure t.keyNames
  pure ⟨names, req.limit.map Int.toNat⟩

/-- Whether a row is in the index, and satisfies the key condition. -/
def selects (names : KeyNames) (item : Item) : Bool :=
  (req.indexName.isNone || names.attributes.all fun k => (item.lookup k).isSome) &&
    req.keyCondition item

def keeps (item : Item) : Bool := req.filter.all (· item)

/-- Rows in the order of the index, in the direction of the query. -/
def inOrder (names : KeyNames) (rows : List Item) : List Item :=
  match names.range with
  | some rk =>
    let sorted := stableSort (fun a b => compareAttributeValues (a.lookup rk) (b.lookup rk)) rows
    if req.scanForward then sorted else sorted.reverse
  | none => rows

def matched (t : DynamoTable) (names : KeyNames) : List Item :=
  req.inOrder names (t.items.toVec.filter (req.selects names))

/-- An index with another key than the table's. -/
def isGsiQuery (t : DynamoTable) (names : KeyNames) : Bool :=
  req.indexName.isSome && (names.hash != t.hashKeyName || names.range != t.rangeKeyName)

end QueryRequest

/-! ## A page -/

def sameAttribute (item key : Item) (attr : Str) (whenMissing : Bool) : Bool :=
  match item.lookup attr, key.lookup attr with
  | some a, some b => a.same b
  | none, none => whenMissing
  | _, _ => false

def itemMatchesKey (item key : Item) (names : KeyNames) : Bool :=
  sameAttribute item key names.hash false &&
    match names.range with
    | some rk => sameAttribute item key rk true
    | none => true

namespace QueryRequest

variable (req : QueryRequest) (t : DynamoTable) (names : KeyNames)

def matchesStart (start item : Item) : Bool :=
  itemMatchesKey item start names && (!req.isGsiQuery t names || itemMatchesKey item start t.keyNames)

/-- The comparison of a row with the range value of the starting key, in the direction of the query. -/
def compareStart (rk : Str) (start item : Item) : Ordering :=
  let ord := compareAttributeValues (item.lookup rk) (start.lookup rk)
  if req.scanForward then ord else ord.swap

/-- The rows behind the starting key.  When its row is gone, the rows with a greater range value:
`partition_point` on rows that are sorted by it. -/
def resume (start : Item) (rows : List Item) : List Item :=
  match rows.findIdx? (req.matchesStart t names start) with
  | some pos => rows.drop (pos + 1)
  | none =>
    match names.range with
    | some rk => rows.dropWhile fun item => req.compareStart rk start item != .gt
    | none => rows

/-- The key of the last row of a page: that of the index, with the table's. -/
def pageKey (item : Item) : Item :=
  let key := extractKeyForSchema item names
  if req.isGsiQuery t names then copyAttributes item key t.tableKeys else key

end QueryRequest

def query (t : DynamoTable) (req : QueryRequest) : Except ServiceError ReadPage := do
  let plan ← req.plan t
  if req.indexName.isSome && req.exclusiveStartKey.any fun start =>
      (t.tableKeys ++ plan.names.attributes).any fun attr => (start.lookup attr).isNone then
    throw (validationError ("The provided starting key is invalid: The provided key element does not " ++
      "match the schema").toList)
  if req.exclusiveStartKey.any fun esk => !t.startKeyMatchesSchema esk plan.names.attributes then
    throw (validationError "The provided starting key is invalid")
  let matched := req.matched t plan.names
  let rest := match req.exclusiveStartKey with
    | some start => req.resume t plan.names start matched
    | none => matched
  let n := pageLength rest plan.limit
  pure
    { examined := rest.take n
      items := (rest.take n).filter req.keeps
      lastEvaluatedKey :=
        if n < rest.length then (rest.take n).getLast?.map (req.pageKey t plan.names) else none }

/-- Page after page, each from the table of its time and with a limit of its own. -/
def queryPages (req : QueryRequest) (served : List (DynamoTable × Option ℤ)) (start : Option Item) :
    Except ServiceError (List ReadPage) :=
  followPages (fun now start => query now.1 { req with limit := now.2, exclusiveStartKey := start })
    served start

/-! ## Rows and keys -/

theorem valuesEqual_of_same {a b : AttributeValue} (h : a.same b) : valuesEqual (some a) (some b) := by
  have hn : numberOf a = numberOf b := by
    rw [numberOf_eq, numberOf_eq, tagged_eq_of_same h]
  rw [valuesEqual_some, hn]
  rcases numberOf b with _ | p
  · exact h
  · have hs : p.cmp p = .eq := Std.ReflCmp.compare_self
    simp [hs]

theorem valuesEqual_comm (a b : Option AttributeValue) : valuesEqual a b = valuesEqual b a := by
  rcases a with _ | a <;> rcases b with _ | b
  · rfl
  · rfl
  · rfl
  · rw [valuesEqual_some, valuesEqual_some]
    have hs : a.same b = b.same a := by simp [Json.same, eq_comm]
    rcases numberOf a with _ | p <;> rcases numberOf b with _ | q
    · exact hs
    · exact hs
    · exact hs
    · have hsw : p.cmp q = (q.cmp p).swap := Std.OrientedCmp.eq_swap
      dsimp only
      rw [hsw]
      cases q.cmp p <;> rfl

theorem valuesEqual_of_sameAttribute {attr : Str} {whenMissing : Bool}
    (h : sameAttribute item key attr whenMissing) : valuesEqual (item.lookup attr) (key.lookup attr) := by
  unfold sameAttribute at h
  split at h
  · next ha hb =>
    rw [ha, hb]
    exact valuesEqual_of_same h
  · next ha hb =>
    rw [ha, hb]
    rfl
  · cases h

theorem isKeyOf_of_itemMatchesKey
    (h : itemMatchesKey item key names) : names.isKeyOf key item := by
  obtain ⟨hh, hr⟩ := Bool.and_eq_true_iff.mp h
  have hs : (item.lookup names.hash).isSome := by
    unfold sameAttribute at hh
    split at hh
    · next ha _ => rw [ha]; rfl
    · cases hh
    · cases hh
  rw [isKeyOf, valuesEqual_of_sameAttribute hh, hs]
  split
  · next rk hrk =>
    rw [hrk] at hr
    simp [valuesEqual_of_sameAttribute hr]
  · rfl

theorem isKeyOf_congr {key' : Item} (item : Item) (h : ∀ a ∈ names.attributes, key.lookup a = key'.lookup a) :
    names.isKeyOf key item = names.isKeyOf key' item := by
  have hh := h names.hash mem_cons_self
  rw [isKeyOf, isKeyOf, hh]
  rcases hr : names.range with _ | rk
  · rfl
  · have hrk : rk ∈ names.attributes := by simp [attributes, hr]
    simp [h rk hrk]

/-! ## The order of a query -/

def StoredBefore (rows : List Item) (a b : Item) : Prop := rows.idxOf a < rows.idxOf b

theorem pairwise_storedBefore {rows l : List Item} (hn : rows.Nodup) (h : l.Sublist rows) :
    l.Pairwise (StoredBefore rows) := by
  refine List.Pairwise.sublist h (pairwise_iff_getElem.mpr fun i j hi hj hij => ?_)
  rw [StoredBefore, hn.idxOf_getElem i hi, hn.idxOf_getElem j hj]
  exact hij

/-- The order in which a query returns rows: by range value in its direction, ties as they are
stored. -/
def QueryLt (req : QueryRequest) (names : KeyNames) (rows : List Item) (a b : Item) : Prop :=
  match names.range with
  | none => StoredBefore rows a b
  | some rk =>
    if req.scanForward then Before (rangeCmp rk) (StoredBefore rows) a b
    else Before (rangeCmp rk) (StoredBefore rows) b a

section Order

variable {req : QueryRequest} {names : KeyNames} {rows : List Item} {l : List Item}

theorem storedBefore_trans (a b c : Item) (h₁ : StoredBefore rows a b) (h₂ : StoredBefore rows b c) :
    StoredBefore rows a c := Nat.lt_trans h₁ h₂

theorem not_before_self (rk : Str) (a : Item) : ¬ Before (rangeCmp rk) (StoredBefore rows) a a := by
  have hs : rangeCmp rk a a = .eq := Std.ReflCmp.compare_self
  rintro (h | ⟨-, h⟩)
  · rw [hs] at h
    cases h
  · exact Nat.lt_irrefl _ h

theorem queryLt_irrefl (a : Item) : ¬ QueryLt req names rows a a := by
  unfold QueryLt
  split
  · exact Nat.lt_irrefl _
  · split <;> exact not_before_self _ a

theorem queryLt_trans (a b c : Item) :
    QueryLt req names rows a b → QueryLt req names rows b c → QueryLt req names rows a c := by
  unfold QueryLt
  rcases names.range with _ | rk
  · exact storedBefore_trans a b c
  · dsimp only
    split
    · exact fun h₁ h₂ => h₁.trans storedBefore_trans h₂
    · exact fun h₁ h₂ => h₂.trans storedBefore_trans h₁

def Comparable (req : QueryRequest) (names : KeyNames) (rows : List Item) : Prop :=
  ∀ rk ∈ names.range, ∃ kind, ∀ item ∈ rows, req.selects names item →
    (rangeValue rk item).map RangeValue.kind = some kind

theorem pairwise_inOrder (hn : rows.Nodup) (hsb : l.Sublist rows)
    (hc : Comparable req names rows) (hsl : ∀ item ∈ l, req.selects names item) :
    (req.inOrder names l).Pairwise (QueryLt req names rows) := by
  have hs := pairwise_storedBefore hn hsb
  unfold QueryRequest.inOrder QueryLt
  rcases hr : names.range with _ | rk
  · exact hs
  · obtain ⟨kind, hk⟩ := hc rk hr
    have hrw : ∀ item ∈ l, (rangeValue rk item).map RangeValue.kind = some kind := fun item hi =>
      hk item (hsb.subset hi) (hsl item hi)
    have hcn : stableSort (fun a b : Item => compareAttributeValues (a.lookup rk) (b.lookup rk)) l =
        stableSort (rangeCmp rk) l :=
      stableSort_congr fun a ha b hb => compareAttributeValues_eq (hrw a ha) (hrw b hb)
    have hsr : (stableSort (rangeCmp rk) l).Pairwise (Before (rangeCmp rk) (StoredBefore rows)) :=
      stableSort_before hs
    dsimp only
    rw [hcn]
    split
    · exact hsr
    · exact pairwise_reverse.mpr hsr

theorem mem_inOrder {item : Item} : item ∈ req.inOrder names l ↔ item ∈ l := by
  unfold QueryRequest.inOrder
  split
  · split <;> simp
  · rfl

end Order

/-! ## Deletions between pages -/

structure DeletedFrom (t₀ t : DynamoTable) : Prop where
  keySchema : t.keySchema = t₀.keySchema
  attributeDefinitions : t.attributeDefinitions = t₀.attributeDefinitions
  rows : t.items.toVec.Sublist t₀.items.toVec

/-- **What a query starts from**: a table whose rows have keys of the declared types, no two of them
the same, and range values that can be compared. -/
structure QueryReady (t₀ : DynamoTable) (req : QueryRequest) (names : KeyNames) : Prop where
  schema : t₀.tableKeys.Nodup
  keyed : ∀ item ∈ t₀.items.toVec, t₀.WellKeyed names.attributes item
  distinct : t₀.items.toVec.Pairwise fun a b => t₀.keyNames.isKeyOf a b = false
  comparable : Comparable req names t₀.items.toVec

/-- A starting key names a row of the query, or a range value that none of them has. -/
def Resumable (t : DynamoTable) (req : QueryRequest) (names : KeyNames) (start : Item) : Prop :=
  (∃ item ∈ t.items.toVec, req.selects names item ∧ req.matchesStart t names start item) ∨
  ∃ rk, names.range = some rk ∧ ∀ item ∈ t.items.toVec, req.selects names item →
    compareAttributeValues (item.lookup rk) (start.lookup rk) ≠ .eq

/-- Every starting key of a run meets the condition on the table it is used with. -/
def Undisturbed (req : QueryRequest) (names : KeyNames) : List (DynamoTable × Option ℤ) → Option Item → Prop
  | [], _ => True
  | (t, limit) :: later, start =>
    (∀ key ∈ start, Resumable t req names key) ∧
    ∀ page, query t { req with limit, exclusiveStartKey := start } = .ok page →
      page.lastEvaluatedKey.isSome → Undisturbed req names later page.lastEvaluatedKey

section Resume

variable {t₀ t : DynamoTable} {req : QueryRequest} {names : KeyNames} {c x : Item}

theorem isKeyOf_self {item : Item} (h : t₀.WellKeyed names.attributes item) :
    t₀.keyNames.isKeyOf item item := by
  have hh : (item.lookup t₀.keyNames.hash).isSome := isSome_of_hasTyped (h.key _ mem_cons_self)
  have hs : ∀ o : Option AttributeValue, valuesEqual o o := by
    rintro (_ | v)
    · rfl
    · exact valuesEqual_of_same (by simp [Json.same])
  rw [isKeyOf, hs, hh]
  split
  · simp [hs]
  · rfl

theorem isKeyOf_comm {item item' : Item} (hi : t₀.WellKeyed names.attributes item)
    (h : t₀.keyNames.isKeyOf item item') : t₀.keyNames.isKeyOf item' item := by
  have hs := isKeyOf_self hi
  unfold isKeyOf at h hs ⊢
  rw [valuesEqual_comm (item.lookup _)]
  rcases hr : t₀.keyNames.range with _ | rk
  · simp only [hr, Bool.and_true, Bool.and_eq_true] at h hs ⊢
    exact ⟨h.1, hs.2⟩
  · simp only [hr, Bool.and_eq_true] at h hs ⊢
    rw [valuesEqual_comm (item.lookup rk)]
    exact ⟨⟨h.1.1, hs.1.2⟩, h.2⟩

/-- Rows of one key are one row. -/
theorem QueryReady.eq_of_isKeyOf (h : QueryReady t₀ req names) (hc : c ∈ t₀.items.toVec)
    (hx : x ∈ t₀.items.toVec) (hk : t₀.keyNames.isKeyOf c x) : x = c := by
  have hs : t₀.items.toVec.Pairwise fun a b =>
      t₀.keyNames.isKeyOf a b = false ∧ t₀.keyNames.isKeyOf b a = false := by
    refine h.distinct.imp_of_mem fun {a b} ha hb hab => ⟨hab, Bool.eq_false_iff.mpr fun hba => ?_⟩
    rw [isKeyOf_comm (h.keyed b hb) hba] at hab
    cases hab
  have hf : Std.Symm fun a b : Item =>
      t₀.keyNames.isKeyOf a b = false ∧ t₀.keyNames.isKeyOf b a = false := ⟨fun _ _ h => ⟨h.2, h.1⟩⟩
  by_contra hne
  have := (hs.forall hc hx (Ne.symm hne)).1
  rw [hk] at this
  cases this

theorem QueryReady.nodup (h : QueryReady t₀ req names) : t₀.items.toVec.Nodup := by
  refine h.distinct.imp_of_mem fun {a b} ha _ hab heq => ?_
  subst heq
  rw [isKeyOf_self (h.keyed a ha)] at hab
  cases hab

/-! ### The starting key of a row -/

section

variable (hd : DeletedFrom t₀ t)
include hd

theorem DeletedFrom.keyNames : t.keyNames = t₀.keyNames := keyNames_congr hd.keySchema

theorem DeletedFrom.tableKeys : t.tableKeys = t₀.tableKeys := by
  have h := hd.keyNames
  exact congrArg attributes h

theorem DeletedFrom.isGsiQuery : req.isGsiQuery t names = req.isGsiQuery t₀ names := by
  have hh : t.hashKeyName = t₀.hashKeyName := congrArg hash hd.keyNames
  have hr : t.rangeKeyName = t₀.rangeKeyName := congrArg KeyNames.range hd.keyNames
  rw [QueryRequest.isGsiQuery, QueryRequest.isGsiQuery, hh, hr]

theorem DeletedFrom.pageKey (item : Item) : req.pageKey t names item = req.pageKey t₀ names item := by
  rw [QueryRequest.pageKey, QueryRequest.pageKey, hd.isGsiQuery, hd.tableKeys]

theorem DeletedFrom.matchesStart : req.matchesStart t names = req.matchesStart t₀ names := by
  funext start item
  rw [QueryRequest.matchesStart, QueryRequest.matchesStart, hd.isGsiQuery, hd.keyNames]

end

def ReadsBy (t : DynamoTable) (req : QueryRequest) (names : KeyNames) : Prop :=
  req.indexName = none → names = t.keyNames

theorem ReadsBy.names_eq (h : ReadsBy t₀ req names) (hg : req.isGsiQuery t₀ names = false) :
    names = t₀.keyNames := by
  rcases hi : req.indexName with _ | name
  · exact h hi
  · simp only [QueryRequest.isGsiQuery, hi, isSome_some, Bool.true_and,
      Bool.or_eq_false_iff, bne_eq_false_iff_eq] at hg
    exact KeyNames.mk.injEq .. ▸ ⟨hg.1, hg.2⟩

theorem pageKey_eq (hr : ReadsBy t₀ req names) :
    ∃ attrs, (∀ a, a ∈ attrs ↔ a ∈ t₀.requiredKeys names.attributes) ∧
    ∀ item, req.pageKey t₀ names item = copyAttributes item ∅ attrs := by
  unfold QueryRequest.pageKey
  rcases hg : req.isGsiQuery t₀ names with _ | _
  · refine ⟨names.attributes, fun a => ?_, fun item => rfl⟩
    rw [mem_requiredKeys, hr.names_eq hg]
    exact (or_self_iff).symm
  · refine ⟨names.attributes ++ t₀.tableKeys, fun a => ?_, fun item => ?_⟩
    · rw [mem_requiredKeys, mem_append, or_comm]
    · rw [copyAttributes, foldl_append]
      rfl

section

variable (h : QueryReady t₀ req names) (hr : ReadsBy t₀ req names) (hc : c ∈ t₀.items.toVec)
  (hs : req.selects names c)
include h hr hc hs

theorem QueryReady.keyed_of_selects : t₀.Keyed names.attributes c := by
  intro a ha
  have hk := h.keyed c hc
  rcases mem_requiredKeys.mp ha with ha | ha
  · exact hk.key a ha
  · rcases hi : req.indexName with _ | name
    · rw [hr hi] at ha
      exact hk.key a ha
    · have hal := (Bool.and_eq_true_iff.mp hs).1
      rw [hi] at hal
      exact hk.index a ha (all_eq_true.mp hal a ha)

theorem lookup_pageKey {a : Str} (ha : a ∈ t₀.requiredKeys names.attributes) :
    (req.pageKey t₀ names c).lookup a = c.lookup a := by
  obtain ⟨attrs, hat, hk⟩ := pageKey_eq hr
  rw [hk, lookup_copyAttributes,
    if_pos ⟨(hat a).mpr ha, isSome_of_hasTyped (h.keyed_of_selects hr hc hs a ha)⟩]

theorem eq_of_matchesStart (hx : x ∈ t₀.items.toVec)
    (hm : req.matchesStart t₀ names (req.pageKey t₀ names c) x) : x = c := by
  obtain ⟨hi, ht⟩ := Bool.and_eq_true_iff.mp hm
  have hk : itemMatchesKey x (req.pageKey t₀ names c) t₀.keyNames := by
    rcases hg : req.isGsiQuery t₀ names with _ | _
    · rw [hr.names_eq hg] at hi ⊢
      exact hi
    · simpa [hg] using ht
  have hsm : t₀.keyNames.isKeyOf (req.pageKey t₀ names c) x = t₀.keyNames.isKeyOf c x :=
    isKeyOf_congr x fun a ha => lookup_pageKey h hr hc hs (mem_requiredKeys.mpr (.inl ha))
  exact h.eq_of_isKeyOf hc hx (hsm ▸ isKeyOf_of_itemMatchesKey hk)

end

/-! ### Resuming -/

theorem mem_matched : x ∈ req.matched t names ↔ x ∈ t.items.toVec ∧ req.selects names x := by
  rw [QueryRequest.matched, mem_inOrder, mem_filter]

theorem QueryReady.pairwise_matched (h : QueryReady t₀ req names) (hd : DeletedFrom t₀ t) :
    (req.matched t names).Pairwise (QueryLt req names t₀.items.toVec) :=
  pairwise_inOrder h.nodup (filter_sublist.trans hd.rows) h.comparable
    fun _ hi => (mem_filter.mp hi).2

/-- Behind the range value of a row that no row shares. -/
theorem compareStart_iff {rk : Str} {start : Item} (hrk : names.range = some rk)
    (hc : compareAttributeValues (x.lookup rk) (start.lookup rk) = rangeCmp rk x c)
    (hne : rangeCmp rk x c ≠ .eq) :
    req.compareStart rk start x = .gt ↔ QueryLt req names t₀.items.toVec c x := by
  have hs : rangeCmp rk c x = (rangeCmp rk x c).swap := Std.OrientedCmp.eq_swap
  unfold QueryRequest.compareStart QueryLt Before
  rcases req.scanForward with _ | _
  · cases hxc : rangeCmp rk x c <;> simp_all
  · cases hxc : rangeCmp rk x c <;> simp_all

variable (h : QueryReady t₀ req names) (hd : DeletedFrom t₀ t) (hr : ReadsBy t₀ req names)
  (hc : c ∈ t₀.items.toVec) (hs : req.selects names c)
include h hd hr hc hs

/-- **A page resumes behind the row of its starting key**, when that key is resumable. -/
theorem resume_spec (hrs : Resumable t req names (req.pageKey t₀ names c)) :
    (req.resume t names (req.pageKey t₀ names c) (req.matched t names)).Pairwise
      (QueryLt req names t₀.items.toVec) ∧
    ∀ x, x ∈ req.resume t names (req.pageKey t₀ names c) (req.matched t names) ↔
      x ∈ req.matched t names ∧ QueryLt req names t₀.items.toVec c x := by
  have hp := h.pairwise_matched hd
  unfold QueryRequest.resume
  split
  · -- the row is there
    next pos hf =>
    obtain ⟨hlt, hm, -⟩ := findIdx?_eq_some_iff_getElem.mp hf
    have hmm : (req.matched t names)[pos] ∈ req.matched t names := getElem_mem hlt
    rw [hd.matchesStart] at hm
    have hrw := eq_of_matchesStart h hr hc hs (hd.rows.subset (mem_matched.mp hmm).1) hm
    refine ⟨hp.sublist (drop_sublist _ _), fun x => ?_⟩
    rw [mem_drop_iff_lt hp queryLt_irrefl queryLt_trans (List.getElem?_eq_some_iff.mpr ⟨hlt, hrw⟩)]
  · -- it is gone, and no row has its range value
    next hn =>
    have hno : ¬ ∃ item ∈ t.items.toVec, req.selects names item ∧
        req.matchesStart t names (req.pageKey t₀ names c) item := by
      rintro ⟨item, hi, hse, hm⟩
      have := findIdx?_eq_none_iff.mp hn item (mem_matched.mpr ⟨hi, hse⟩)
      rw [hm] at this
      cases this
    obtain ⟨rk, hrk, ht⟩ := hrs.resolve_left hno
    obtain ⟨kind, hk⟩ := h.comparable rk hrk
    have hst : (req.pageKey t₀ names c).lookup rk = c.lookup rk :=
      lookup_pageKey h hr hc hs (mem_requiredKeys.mpr (.inr (by simp [attributes, hrk])))
    have hcm : ∀ x ∈ req.matched t names,
        compareAttributeValues (x.lookup rk) ((req.pageKey t₀ names c).lookup rk) =
          rangeCmp rk x c := fun x hx => by
      obtain ⟨hx, hse⟩ := mem_matched.mp hx
      rw [hst]
      exact compareAttributeValues_eq (hk x (hd.rows.subset hx) hse) (hk c hc hs)
    have hbh : ∀ x ∈ req.matched t names, (req.compareStart rk (req.pageKey t₀ names c) x = .gt ↔
          QueryLt req names t₀.items.toVec c x) := fun x hx => by
      refine compareStart_iff hrk (hcm x hx) ?_
      rw [← hcm x hx]
      exact ht x (mem_matched.mp hx).1 (mem_matched.mp hx).2
    rw [hrk]
    refine ⟨hp.sublist (dropWhile_sublist _), fun x => ?_⟩
    rw [mem_dropWhile_iff (hp.imp_of_mem fun {a b} ha hb hab hpb => ?_)]
    · rw [bne_eq_false_iff_eq]
      exact and_congr_right (hbh x)
    · rw [bne_iff_ne] at hpb ⊢
      intro hgt
      exact hpb ((hbh b hb).mpr (queryLt_trans c a b ((hbh a ha).mp hgt) hab))

/-! ### Pages -/

/-- A key that a page hands out passes the checks of the next request. -/
theorem QueryReady.accepts :
    t.startKeyMatchesSchema (req.pageKey t₀ names c) names.attributes ∧
    ∀ a ∈ t.tableKeys ++ names.attributes, ((req.pageKey t₀ names c).lookup a).isNone = false := by
  have hk := h.keyed_of_selects hr hc hs
  refine ⟨?_, fun a ha => ?_⟩
  · obtain ⟨attrs, hat, hky⟩ := pageKey_eq hr
    rw [hky]
    have hac := startKeyMatchesSchema_of_row h.schema hk hat
    have ht : t.hasTyped = t₀.hasTyped := by
      funext item a
      simp only [hasTyped, typedAs, declaredType, hd.attributeDefinitions]
    rw [startKeyMatchesSchema, requiredKeys, hd.tableKeys, ht]
    exact hac
  · rw [hd.tableKeys, mem_append] at ha
    have hrq : a ∈ t₀.requiredKeys names.attributes := mem_requiredKeys.mpr ha
    rw [lookup_pageKey h hr hc hs hrq, Option.isNone_eq_false_iff]
    exact isSome_of_hasTyped (hk a hrq)

omit h hd hr hc hs

def StartsAt (t₀ : DynamoTable) (req : QueryRequest) (names : KeyNames) : Option Item → Option Item → Prop
  | none, none => True
  | some key, some c => c ∈ t₀.items.toVec ∧ req.selects names c ∧ key = req.pageKey t₀ names c
  | _, _ => False

/-- **Step.**  A request whose starting key is resumable is answered with a page. -/
theorem query_step (req : QueryRequest) (plan : QueryPlan) {cursor : Option Item}
    (h : QueryReady t₀ req plan.names)
    (hd : DeletedFrom t₀ t) (hrd : ReadsBy t₀ req plan.names) (hp : req.plan t = .ok plan)
    (hst : StartsAt t₀ req plan.names req.exclusiveStartKey cursor)
    (hr : ∀ key ∈ req.exclusiveStartKey, Resumable t req plan.names key) :
    ∃ page next, query t req = .ok page ∧ page.items = page.examined.filter req.keeps ∧
      IsPage (QueryLt req plan.names t₀.items.toVec) (· ∈ req.matched t plan.names) cursor
        page.examined next ∧
      StartsAt t₀ req plan.names page.lastEvaluatedKey next := by
  -- the rows behind the starting key, which passes the checks
  obtain ⟨rest, hrs, hsr, hmm, hh, hm⟩ : ∃ rest, rest = (match req.exclusiveStartKey with
        | some start => req.resume t plan.names start (req.matched t plan.names)
        | none => req.matched t plan.names) ∧
      rest.Pairwise (QueryLt req plan.names t₀.items.toVec) ∧
      (∀ x, x ∈ rest ↔ x ∈ req.matched t plan.names ∧
        Above (QueryLt req plan.names t₀.items.toVec) cursor x) ∧
      (req.exclusiveStartKey.any fun start =>
        (t.tableKeys ++ plan.names.attributes).any fun attr => (start.lookup attr).isNone) = false ∧
      (req.exclusiveStartKey.any fun esk => !t.startKeyMatchesSchema esk plan.names.attributes) = false := by
    rcases he : req.exclusiveStartKey with _ | key <;> rw [he] at hst <;>
      rcases cursor with _ | c
    · exact ⟨_, rfl, h.pairwise_matched hd, fun x => by simp [Above], rfl, rfl⟩
    · cases hst
    · cases hst
    · obtain ⟨hc, hs, rfl⟩ := hst
      have hsp := resume_spec h hd hrd hc hs (hr _ he)
      obtain ⟨ha, hn⟩ := h.accepts hd hrd hc hs
      refine ⟨_, rfl, hsp.1, hsp.2, List.any_eq_false.mpr fun a hm => ?_, by simp [ha]⟩
      rw [hn a hm]
      exact Bool.false_ne_true
  set n := pageLength rest plan.limit with hn
  have hpg := isPage_take (n := n) hsr hmm fun hne => pageLength_pos hne plan.limit
  refine ⟨⟨rest.take n, (rest.take n).filter req.keeps,
    if n < rest.length then (rest.take n).getLast?.map (req.pageKey t plan.names) else none⟩, _,
      ?_, rfl, hpg, ?_⟩
  · unfold query
    rw [hp]
    simp only [hh, hm, Bool.and_false, bind, Except.bind]
    rw [← hrs]
    rfl
  · split
    · rcases hl : (rest.take n).getLast? with _ | c
      · trivial
      · obtain ⟨hc, hs⟩ := mem_matched.mp ((hmm c).mp (mem_of_mem_take (mem_of_getLast? hl))).1
        exact ⟨hd.rows.subset hc, hs, hd.pageKey c⟩
    · trivial

end Resume

/-! ## Following `LastEvaluatedKey` -/

variable {req : QueryRequest}

theorem readsBy_of_plan {t : DynamoTable} {plan : QueryPlan}
    (h : req.plan t = .ok plan) : ReadsBy t req plan.names := by
  intro hi
  unfold QueryRequest.plan at h
  rw [hi] at h
  simp only [bind] at h
  split at h
  · cases h
  · cases h
    rfl

theorem compare_ne_gt_of_queryLt {rows : List Item}
    {a b : Item} (hc : Comparable req names rows) (hrk : names.range = some rk)
    (ha : a ∈ rows ∧ req.selects names a) (hb : b ∈ rows ∧ req.selects names b)
    (hlt : QueryLt req names rows a b) :
    (if req.scanForward then compareAttributeValues (a.lookup rk) (b.lookup rk)
      else compareAttributeValues (b.lookup rk) (a.lookup rk)) ≠ .gt := by
  obtain ⟨kind, hk⟩ := hc rk hrk
  have hka := hk a ha.1 ha.2
  have hkb := hk b hb.1 hb.2
  rw [compareAttributeValues_eq hka hkb, compareAttributeValues_eq hkb hka]
  simp only [QueryLt, hrk] at hlt
  split_ifs at hlt ⊢
  · exact fun hgt => by simpa [hgt] using hlt.isLE
  · exact fun hgt => by simpa [hgt] using hlt.isLE

/-- **Run.**  The pages are a walk over the rows of the tables they were served from. -/
theorem queryPages_walk {t₀ : DynamoTable} {served : List (DynamoTable × Option ℤ)}
    (hr : QueryReady t₀ req names)
    (hdl : ∀ s ∈ served, DeletedFrom t₀ s.1)
    (hpl : ∀ s ∈ served, ∃ limit, ({ req with limit := s.2 }).plan s.1 = .ok ⟨names, limit⟩)
    (hrn : Undisturbed req names served none) : ∃ pages ended, queryPages req served none = .ok pages ∧
      Walk (QueryLt req names t₀.items.toVec) none
        ((served.take pages.length).map fun s x => x ∈ req.matched s.1 names)
        ((pages.flatMap examined).map id) ended ∧
      (ended = true ↔ Finished pages) ∧ (ended = false → pages.length = served.length) ∧
      ∀ page ∈ pages, ∃ s ∈ served.take pages.length, page.items = page.examined.filter req.keeps ∧
        ∀ item ∈ page.examined, item ∈ t₀.items.toVec ∧ req.selects names item := by
  -- the tables that are left, with the starting key they are asked with
  let inv : List (DynamoTable × Option ℤ) → Option Item → Option Item → Prop :=
    fun rest start cursor => (∀ s ∈ rest, s ∈ served) ∧ Undisturbed req names rest start ∧
      StartsAt t₀ req names start cursor
  have hinv : inv served none none := ⟨fun s hs => hs, hrn, trivial⟩
  refine followPages_walk ?_ hinv
  rintro now later start cursor ⟨hrs, hu, hst⟩
  have hnw := hrs now mem_cons_self
  have hd := hdl now hnw
  obtain ⟨limit, hl⟩ := hpl now hnw
  have hrd : ReadsBy t₀ req names := fun hin => (readsBy_of_plan hl hin).trans hd.keyNames
  obtain ⟨page, next, hp, hit, hi, hn⟩ :=
    query_step { req with limit := now.2, exclusiveStartKey := start } ⟨names, limit⟩
      ⟨hr.schema, hr.keyed, hr.distinct, hr.comparable⟩ hd hrd hl hst hu.1
  refine ⟨page, next, hp, ⟨hit, fun item hite => ?_⟩, ?_, ?_⟩
  · obtain ⟨hm, hsl⟩ := mem_matched.mp (hi.spec.2 item hite).1
    exact ⟨hd.rows.subset hm, hsl⟩
  · rw [List.map_id]
    exact hi
  · rcases hls : page.lastEvaluatedKey with _ | key <;> rw [hls] at hn <;>
      rcases next with _ | d
    · exact .inl ⟨rfl, rfl⟩
    · cases hn
    · cases hn
    · refine .inr ⟨key, d, rfl, rfl, fun s hs => hrs s (mem_cons_of_mem _ hs), ?_, hn⟩
      have := hu.2 page hp (by rw [hls]; rfl)
      rw [hls] at this
      exact this

/-- **A query returns every row once.**  A client follows `LastEvaluatedKey` while rows are deleted
between the pages; each starting key names a row that is still there, or a range value that no row of
the query has.  Each request is answered.  No two rows that were read have one key, they come in the
order of the range key, and once the last page has been read every row of the query that was there for
each page and is kept by the filter has been returned.  While the end is not reached every page reads
a row. -/
theorem query_returns_each_row_once (req : QueryRequest) (names : KeyNames) {t₀ : DynamoTable}
    {served : List (DynamoTable × Option ℤ)} (hready : QueryReady t₀ req names)
    (hdeleted : ∀ s ∈ served, DeletedFrom t₀ s.1)
    (hplan : ∀ s ∈ served, ∃ limit, ({ req with limit := s.2 }).plan s.1 = .ok ⟨names, limit⟩)
    (hrun : Undisturbed req names served none) :
    ∃ pages, queryPages req served none = .ok pages ∧
      (pages.flatMap examined).Pairwise (fun a b => t₀.keyNames.isKeyOf a b = false) ∧
      (∀ rk ∈ names.range, (pages.flatMap examined).Pairwise fun a b =>
        (if req.scanForward then compareAttributeValues (a.lookup rk) (b.lookup rk)
          else compareAttributeValues (b.lookup rk) (a.lookup rk)) ≠ .gt) ∧
      (∀ page ∈ pages, page.items = page.examined.filter req.keeps) ∧
      (Finished pages → ∀ item, (∀ s ∈ served.take pages.length, item ∈ s.1.items.toVec) →
        req.selects names item → req.keeps item → item ∈ pages.flatMap items) ∧
      (¬ Finished pages → pages.length = served.length ∧
        pages.length ≤ (pages.flatMap examined).length) := by
  obtain ⟨pages, ended, hpg, hw, hf, hal, hse⟩ := queryPages_walk hready hdeleted hplan hrun
  rw [List.map_id] at hw
  have hr : ∀ item ∈ pages.flatMap examined, item ∈ t₀.items.toVec ∧ req.selects names item :=
    fun item hi => by
    obtain ⟨page, hp, hi⟩ := mem_flatMap.mp hi
    obtain ⟨s, hs, -, hr⟩ := hse page hp
    exact hr item hi
  have hk : ∀ page ∈ pages, page.items = page.examined.filter req.keeps := fun page hp => by
    obtain ⟨-, -, hit, -⟩ := hse page hp
    exact hit
  have hsr := (hw.sorted queryLt_trans).1
  refine ⟨pages, hpg, ?_, fun rk hrk => ?_, hk, fun he item ht hsl hkp => ?_, fun hn => ?_⟩
  · refine hsr.imp_of_mem fun {a b} ha hb hlt => Bool.eq_false_iff.mpr fun hky => ?_
    rw [hready.eq_of_isKeyOf (hr a ha).1 (hr b hb).1 hky] at hlt
    exact queryLt_irrefl a hlt
  · exact hsr.imp_of_mem fun {a b} ha hb hlt =>
      compare_ne_gt_of_queryLt hready.comparable hrk (hr a ha) (hr b hb) hlt
  · obtain rfl : ended = true := hf.mpr he
    have hc : ∀ there ∈ (served.take pages.length).map fun s x => x ∈ req.matched s.1 names, there item := by
      intro there hst
      obtain ⟨s, hs, rfl⟩ := mem_map.mp hst
      exact mem_matched.mpr ⟨ht s hs, hsl⟩
    obtain ⟨page, hp, hi⟩ := mem_flatMap.mp (hw.complete hc trivial)
    refine mem_flatMap.mpr ⟨page, hp, ?_⟩
    rw [hk page hp]
    exact mem_filter.mpr ⟨hi, hkp⟩
  · obtain rfl : ended = false := Bool.eq_false_iff.mpr fun h => hn (hf.mp h)
    have := hw.progress
    rw [length_map, hal rfl, take_length] at this
    exact ⟨hal rfl, (hal rfl).symm ▸ this⟩

namespace Example

def text (s : Str) : AttributeValue := .obj [(['S'], .str s)]

/-- A row of the indexed table: its key, and the range value it has in the index. -/
def indexed (p r : Str) : Item :=
  AList.insert ['p'] (text p) (AList.insert ['g'] (text ['x']) (AList.insert ['r'] (text r) ∅))

/-- A table with key `p` and an index by `g` and `r`. -/
def indexedTable (rows : List Item) : DynamoTable :=
  { table with
    keySchema := [⟨['p'], .hash⟩]
    attributeDefinitions := [⟨['p'], ['S']⟩, ⟨['g'], ['S']⟩, ⟨['r'], ['S']⟩]
    items := .new rows
    gsi := [⟨['i'], [⟨['g'], .hash⟩, ⟨['r'], .range⟩]⟩]
    itemCount := rows.length
    sizeBytes := TableItems.totalSize (TableItems.new rows).rows }

def indexNames : KeyNames := ⟨['g'], some ['r']⟩

/-- The rows with `x` for their `g`, off the index. -/
def byIndex : QueryRequest where
  indexName := some ['i']
  consistentRead := false
  scanForward := true
  limit := none
  exclusiveStartKey := none
  keyCondition := fun item => (item.lookup ['g']).any (Json.same (text ['x']))
  filter := none

def tied : DynamoTable := indexedTable [indexed ['a'] ['1'], indexed ['b'] ['1']]

/-- The first row is deleted once it has been returned. -/
def deleteTied : List (DynamoTable × Option ℤ) :=
  [(tied, some 1), (indexedTable [indexed ['b'] ['1']], none)]

theorem indexedTable_ready {rows : List Item}
    (hk : ∀ item ∈ rows, (∀ a ∈ (indexedTable rows).tableKeys, (indexedTable rows).hasTyped item a) ∧
      ∀ a ∈ indexNames.attributes, (indexedTable rows).hasTyped item a)
    (hd : rows.Pairwise fun a b => (indexedTable rows).keyNames.isKeyOf a b = false)
    (hc : ∀ item ∈ rows, (rangeValue ['r'] item).map RangeValue.kind = some .str) :
    QueryReady (indexedTable rows) byIndex indexNames := by
  have hr : (indexedTable rows).items.toVec = rows := TableItems.rows_new rows
  refine ⟨nodup_singleton _, ?_, ?_, ?_⟩
  · rw [hr]
    exact fun item hi => ⟨(hk item hi).1, fun a ha _ => (hk item hi).2 a ha⟩
  · rw [hr]
    exact hd
  · rw [hr]
    rintro rk ⟨⟩
    exact ⟨.str, fun item hi _ => hc item hi⟩

/-- **A row is lost with the row it ties with.**  The starting key names a deleted row, so that the
second page resumes behind every row of its range value. -/
theorem lost_tie : QueryReady tied byIndex indexNames ∧
    (∀ s ∈ deleteTied, DeletedFrom tied s.1 ∧ indexed ['b'] ['1'] ∈ s.1.items.toVec) ∧
    byIndex.selects indexNames (indexed ['b'] ['1']) ∧
    ∃ pages, queryPages byIndex deleteTied none = .ok pages ∧ Finished pages ∧
      ∀ item ∈ pages.flatMap ReadPage.items, tied.keyNames.isKeyOf (indexed ['b'] ['1']) item = false := by
  refine ⟨indexedTable_ready (by decide +kernel) (by decide +kernel) (by decide +kernel), ?_,
    by decide +kernel, ?_⟩
  · intro s hs
    simp only [deleteTied, mem_cons, not_mem_nil, or_false] at hs
    rcases hs with rfl | rfl
    · exact ⟨⟨rfl, rfl, .refl _⟩, .tail _ (.head _)⟩
    · exact ⟨⟨rfl, rfl, .cons _ (.refl _)⟩, .head _⟩
  have he : (queryPages byIndex deleteTied none).toOption.map
      (fun pages => (pages.getLast?.map fun page => page.lastEvaluatedKey.isNone,
        (pages.flatMap items).all fun item =>
          tied.keyNames.isKeyOf (indexed ['b'] ['1']) item == false)) = some (some true, true) := by
    decide +kernel
  obtain ⟨pages, hp, hf⟩ := exists_of_toOption_map he
  obtain ⟨hl, hn⟩ := Prod.mk.inj hf
  refine ⟨pages, hp, finished_of_last hl, fun item hi => ?_⟩
  simpa using all_eq_true.mp hn item hi

def apart : DynamoTable := indexedTable [indexed ['a'] ['1'], indexed ['b'] ['2']]

/-- The row of the cursor is deleted before the second page. -/
def deleteApart : List (DynamoTable × Option ℤ) :=
  [(apart, some 1), (indexedTable [indexed ['b'] ['2']], none)]

theorem deleteApart_undisturbed : Undisturbed byIndex indexNames deleteApart none := by
  refine ⟨nofun, fun page hp _ => ⟨fun key hk => .inr ⟨['r'], rfl, ?_⟩, fun _ _ _ => trivial⟩⟩
  have he : (query apart { byIndex with limit := some 1, exclusiveStartKey := none }).toOption.map
      (fun page => page.lastEvaluatedKey.bind fun key => key.lookup ['r']) = some (some (text ['1'])) := by
    decide +kernel
  obtain ⟨page', hp', hl⟩ := exists_of_toOption_map he
  obtain rfl : page = page' := Except.ok.inj (hp.symm.trans hp')
  rw [hk, bind_some] at hl
  rw [hl]
  decide +kernel

end Example

theorem query_returns_each_row_once_apart :
    ∃ pages, queryPages Example.byIndex Example.deleteApart none = .ok pages ∧
      Example.indexed ['b'] ['2'] ∈ pages.flatMap ReadPage.items := by
  have he : (queryPages byIndex deleteApart none).toOption.map
      (fun pages => (pages.length, pages.getLast?.map fun page => page.lastEvaluatedKey.isNone)) =
      some (2, some true) := by
    decide +kernel
  obtain ⟨pages, hp, hf⟩ := exists_of_toOption_map he
  obtain ⟨hln, hl⟩ := Prod.mk.inj hf
  have hsr : ∀ s ∈ deleteApart, DeletedFrom apart s.1 ∧
      (∃ limit, ({ byIndex with limit := s.2 }).plan s.1 = .ok ⟨indexNames, limit⟩) ∧
      indexed ['b'] ['2'] ∈ s.1.items.toVec := by
    intro s hs
    simp only [deleteApart, mem_cons, not_mem_nil, or_false] at hs
    rcases hs with rfl | rfl
    · exact ⟨⟨rfl, rfl, .refl _⟩, ⟨some 1, rfl⟩, .tail _ (.head _)⟩
    · exact ⟨⟨rfl, rfl, .cons _ (.refl _)⟩, ⟨none, rfl⟩, .head _⟩
  obtain ⟨pages', hp', -, -, -, hc, -⟩ := query_returns_each_row_once byIndex
    indexNames
    (indexedTable_ready (by decide +kernel) (by decide +kernel) (by decide +kernel))
      (fun s hs => (hsr s hs).1)
    (fun s hs => (hsr s hs).2.1) deleteApart_undisturbed
  obtain rfl : pages = pages' := Except.ok.inj (hp.symm.trans hp')
  refine ⟨pages, hp, hc (finished_of_last hl) _ (fun s hs => ?_)
    (by decide +kernel) rfl⟩
  exact (hsr s (mem_of_mem_take hs)).2.2

end Fakecloud.Dynamodb

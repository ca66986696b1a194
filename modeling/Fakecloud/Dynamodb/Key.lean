import Fakecloud.Dynamodb.Number
import Fakecloud.Lib.Base64
import Fakecloud.Lib.JsonText
import Mathlib.Data.List.AList

/-!
# Primary keys

Two attribute values are one key value when `valuesEqual` says so: numbers by value, everything else
as JSON.  The key index uses an encoding instead (`encodeKeyValue` for the partition key,
`SortKeyPart` for the sort key) and an order of encodings.  This module relates the three: encodings
are equal exactly when the values are, and encodings compare equal exactly when they are equal.

Both hold for the values that `KeyNames.Sound` describes and fail for the others: JSON has a minus
zero that equals zero and is written differently, and the canonical text of a number whose exponent
leaves `i64` is read back as another number.
-/

namespace Fakecloud.Dynamodb

open Text Option Json

/-- An attribute value, `{"S": "hello"}` for example. -/
abbrev AttributeValue := Json

/-- An item, or the key of one: its attributes by name. -/
abbrev Item := AList fun _ : Str => AttributeValue

def attributeTypeAndValue : AttributeValue → Option (Str × Json)
  | .obj [field] => some field
  | _ => none

/-- What the tag `N` tags, if that is the tag. -/
def numberTagged (v : AttributeValue) : Option Json :=
  match attributeTypeAndValue v with
  | some (tag, inner) => if tag = ['N'] then some inner else none
  | none => none

/-- Equality for keys: Numbers by value, the rest as JSON. -/
def valuesEqual : Option AttributeValue → Option AttributeValue → Bool
  | some a, some b =>
    match numberTagged a, numberTagged b with
    | some an, some bn =>
      let x := an.asStr.getD []
      let y := bn.asStr.getD []
      if isValidNumber x && isValidNumber y then compareNumberStrings x y == .eq else a.same b
    | _, _ => a.same b
  | none, none => true
  | _, _ => false

/-! ## The encodings -/

def writeEntries (first : Bool) : List (Str × Str) → Str
  | [] => ['\x7d']
  | (k, text) :: fs => Json.separator first ++ (Json.quote k ++ ':' :: (text ++ writeEntries false fs))

mutual

/-- The text of a value, its object keys sorted. -/
def writeCanonicalJson : Json → Str
  | .null => Json.write .null
  | .bool b => Json.write (.bool b)
  | .num text => Json.write (.num text)
  | .str s => Json.write (.str s)
  | .arr items => '[' :: canonicalItems true items
  | .obj fields => '\x7b' :: writeEntries true ((canonicalFields fields).insertionSort Json.ByName)

def canonicalItems (first : Bool) : List Json → Str
  | [] => [']']
  | x :: xs => Json.separator first ++ (writeCanonicalJson x ++ canonicalItems false xs)

def canonicalFields : List (Str × Json) → List (Str × Str)
  | [] => []
  | (k, v) :: fs => (k, writeCanonicalJson v) :: canonicalFields fs

end

def encodeKeyValue (v : AttributeValue) : Str :=
  match (numberTagged v).bind fun n => n.asStr.bind canonicalNumber with
  | some canon => 'N' :: ':' :: canon
  | none => 'X' :: ':' :: writeCanonicalJson v

abbrev NumberText := {s : Str // (parseNumber s).isSome}

/-- `canonical_number`, with what its result is. -/
def canonicalText (s : Str) : Option NumberText :=
  match h : parseNumber s with
  | some p => some ⟨p.render, isSome_parse_render (parseNumber_normal h)⟩
  | none => none

inductive SortKeyPart
  | missing
  | number (canon : NumberText)
  | str (s : Str)
  | binary (bytes : Bytes) (text : Str)
  | other (encoded : Str)
deriving DecidableEq

namespace SortKeyPart

/-- The part of a well-formed value, by its tag and the text it tags. -/
def ofTagged (tag : Str) (text : Option Str) : Option SortKeyPart :=
  if tag = ['N'] then (text.bind canonicalText).map number
  else if tag = ['S'] then text.map str
  else if tag = ['B'] then text.bind fun b => (base64Decode b).map fun bytes => binary bytes b
  else none

def ofValue (v : AttributeValue) : SortKeyPart :=
  ((attributeTypeAndValue v).bind fun f => ofTagged f.1 f.2.asStr).getD (other (encodeKeyValue v))

def of : Option AttributeValue → SortKeyPart
  | none => missing
  | some v => ofValue v

def rank : SortKeyPart → ℕ
  | missing => 0
  | number _ => 1
  | str _ => 2
  | binary _ _ => 3
  | other _ => 4

/-- Text is compared by its bytes, which is the order of its characters. -/
def cmp : SortKeyPart → SortKeyPart → Ordering
  | number a, number b => compareNumberStrings a.1 b.1
  | str a, str b => compare a b
  | other a, other b => compare a b
  | binary a s, binary b t => (compare a b).then (compare s t)
  | a, b => compare a.rank b.rank

end SortKeyPart

def fnv1a64 (bytes : Bytes) : UInt64 :=
  bytes.foldl (fun hash b => (hash ^^^ b.toUInt64) * 0x100000001b3) 0xcbf29ce484222325

/-- A row's primary key as the key index stores it. -/
structure RowKey where
  partitionHash : UInt64
  partition : Str
  /-- `none` when the table has no sort key. -/
  sort : Option SortKeyPart
deriving DecidableEq

/-- `None` comes first. -/
def cmpSort : Option SortKeyPart → Option SortKeyPart → Ordering
  | none, none => .eq
  | none, some _ => .lt
  | some _, none => .gt
  | some a, some b => a.cmp b

def RowKey.cmp : RowKey → RowKey → Ordering :=
  compareLex (compareOn RowKey.partitionHash)
    (compareLex (compareOn RowKey.partition) fun a b => cmpSort a.sort b.sort)

/-! ## The order is one -/

theorem transCmp_comap {α β : Type} {cmp : β → β → Ordering} [Std.TransCmp cmp] (f : α → β) :
    Std.TransCmp fun a b => cmp (f a) (f b) where
  eq_swap := Std.OrientedCmp.eq_swap
  isLE_trans h₁ h₂ := Std.TransCmp.isLE_trans h₁ h₂

def NumberText.value (a : NumberText) : ParsedNumber := (parseNumber a.1).get a.2

theorem NumberText.parse (a : NumberText) : parseNumber a.1 = some a.value := by
  simp [NumberText.value]

theorem compareNumberStrings_eq (a b : NumberText) : compareNumberStrings a.1 b.1 = a.value.cmp b.value := by
  simp [compareNumberStrings, a.parse, b.parse]

namespace SortKeyPart

def numberPart : SortKeyPart → ParsedNumber
  | number a => a.value
  | _ => ⟨false, [], 0⟩

def bytesPart : SortKeyPart → Bytes
  | binary bytes _ => bytes
  | _ => []

def textPart : SortKeyPart → Str
  | str s => s
  | binary _ s => s
  | other s => s
  | _ => []

/-- Parts compare by their kinds, and within one kind by their contents. -/
theorem cmp_eq (a b : SortKeyPart) :
    a.cmp b = compareLex (compareOn rank) (compareLex (fun a b => a.numberPart.cmp b.numberPart)
      (compareLex (compareOn bytesPart) (compareOn textPart))) a b := by
  have hz : ParsedNumber.cmp ⟨false, [], 0⟩ ⟨false, [], 0⟩ = .eq := rfl
  cases a <;> cases b <;>
    simp [cmp, compareLex, compareOn, rank, numberPart, bytesPart, textPart, hz,
      compareNumberStrings_eq, Nat.compare_eq_ite_lt]

instance : Std.TransCmp SortKeyPart.cmp := by
  have hn : Std.TransCmp fun a b : SortKeyPart => a.numberPart.cmp b.numberPart :=
    transCmp_comap numberPart
  have hc : SortKeyPart.cmp = compareLex (compareOn rank)
      (compareLex (fun a b => a.numberPart.cmp b.numberPart)
        (compareLex (compareOn bytesPart) (compareOn textPart))) :=
    funext fun a => funext fun b => cmp_eq a b
  rw [hc]
  infer_instance

end SortKeyPart

instance : Std.TransCmp cmpSort where
  eq_swap {a b} := by
    rcases a with _ | a <;> rcases b with _ | b
    · rfl
    · rfl
    · rfl
    · have hs : a.cmp b = (b.cmp a).swap := Std.OrientedCmp.eq_swap
      exact hs
  isLE_trans {a b c} h₁ h₂ := by
    rcases a with _ | a <;> rcases b with _ | b <;> rcases c with _ | c <;>
      first | rfl | cases h₁ | cases h₂ | skip
    have hc : Std.TransCmp SortKeyPart.cmp := inferInstance
    exact hc.isLE_trans h₁ h₂

instance : Std.TransCmp RowKey.cmp := by
  have hs : Std.TransCmp fun a b : RowKey => cmpSort a.sort b.sort := transCmp_comap RowKey.sort
  unfold RowKey.cmp
  infer_instance

/-! ## Equal values have equal encodings -/

def numberOf (v : AttributeValue) : Option ParsedNumber :=
  (numberTagged v).bind fun n => n.asStr.bind parseNumber

variable {v : AttributeValue} {p : ParsedNumber}

theorem encodeKeyValue_number (h : numberOf v = some p) : encodeKeyValue v = 'N' :: ':' :: p.render := by
  obtain ⟨n, hn, hp⟩ := bind_eq_some_iff.mp h
  obtain ⟨s, hs, hp⟩ := bind_eq_some_iff.mp hp
  simp [encodeKeyValue, hn, hs, canonicalNumber, hp]

theorem encodeKeyValue_other (h : numberOf v = none) :
    encodeKeyValue v = 'X' :: ':' :: writeCanonicalJson v := by
  have hnn : ((numberTagged v).bind fun n => n.asStr.bind canonicalNumber) = none := by
    rcases hn : numberTagged v with _ | n
    · rfl
    · rcases hs : n.asStr with _ | s
      · simp [hs]
      · have : parseNumber s = none := by simpa [numberOf, hn, hs] using h
        simp [hs, canonicalNumber, this]
  simp [encodeKeyValue, hnn]

theorem valuesEqual_some (a b : AttributeValue) : valuesEqual (some a) (some b) =
      match numberOf a, numberOf b with
      | some p, some q => p.cmp q == .eq
      | _, _ => a.same b := by
  have hv : ∀ n : Json, (n.asStr.bind parseNumber).isSome = isValidNumber (n.asStr.getD []) := by
    intro n
    rcases n.asStr with _ | s
    · rfl
    · rfl
  unfold valuesEqual numberOf
  dsimp only
  rcases numberTagged a with _ | an <;> rcases numberTagged b with _ | bn
  · rfl
  · rfl
  · rcases h : an.asStr.bind parseNumber with _ | p <;> simp [h]
  · dsimp only
    rw [← hv, ← hv, bind_some, bind_some]
    rcases an.asStr with _ | x <;> rcases bn.asStr with _ | y
    · rfl
    · rfl
    · rcases h : parseNumber x with _ | p <;> simp [h]
    · rcases hx : parseNumber x with _ | p <;> rcases hy : parseNumber y with _ | q <;>
        simp [hx, hy, compareNumberStrings]

theorem numberOf_normal (h : numberOf v = some p) : p.Normal := by
  obtain ⟨n, -, hp⟩ := bind_eq_some_iff.mp h
  obtain ⟨s, -, hp⟩ := bind_eq_some_iff.mp hp
  exact parseNumber_normal hp

/-! ### The form in which JSON is compared -/

theorem asStr_normalize (v : Json) : v.normalize.asStr = v.asStr := by
  cases v <;> rfl

theorem length_normalizeFields (fs : List (Str × Json)) : (normalizeFields fs).length = fs.length := by
  induction fs with
  | nil => rfl
  | cons f fs ih => simp [normalizeFields, ih]

/-- The tag of a value and the text it tags. -/
def tagged (v : AttributeValue) : Option (Str × Option Str) :=
  (attributeTypeAndValue v).map fun f => (f.1, f.2.asStr)

theorem tagged_normalize (v : AttributeValue) : tagged v.normalize = tagged v := by
  cases v with
  | obj fields =>
    rcases fields with _ | ⟨⟨k, x⟩, _ | ⟨g, fs⟩⟩
    · rfl
    · simp [tagged, attributeTypeAndValue, Json.normalize, Json.normalizeFields, asStr_normalize]
    · have hln : ((normalizeFields ((k, x) :: g :: fs)).insertionSort ByName).length = fs.length + 2 := by
        rw [List.length_insertionSort, length_normalizeFields]
        rfl
      rcases hl : (normalizeFields ((k, x) :: g :: fs)).insertionSort ByName with
        _ | ⟨f₁, _ | ⟨f₂, fs'⟩⟩
      · simp [hl] at hln
      · simp [hl] at hln
      · simp [tagged, attributeTypeAndValue, Json.normalize, hl]
  | _ => rfl

theorem tagged_eq_of_same {a b : AttributeValue} (h : a.same b) : tagged a = tagged b := by
  have h' : a.normalize = b.normalize := by simpa [same] using h
  rw [← tagged_normalize a, ← tagged_normalize b, h']

theorem numberOf_eq (v : AttributeValue) :
    numberOf v = (tagged v).bind fun f => if f.1 = ['N'] then f.2.bind parseNumber else none := by
  unfold numberOf numberTagged tagged
  rcases attributeTypeAndValue v with _ | ⟨tag, inner⟩
  · rfl
  · by_cases h : tag = ['N'] <;> simp [h]

open SortKeyPart

theorem ofValue_eq (v : AttributeValue) : ofValue v = ((tagged v).bind fun f => ofTagged f.1 f.2).getD
      (.other (encodeKeyValue v)) := by
  unfold ofValue tagged
  rcases attributeTypeAndValue v with _ | ⟨tag, inner⟩ <;> rfl

/-! ### The canonical text is the text of that form -/

theorem writeEntries_map (first : Bool) (fs : List (Str × Json)) :
    writeEntries first (fs.map fun f => (f.1, f.2.write)) = writeFields first fs := by
  induction fs generalizing first with
  | nil => rfl
  | cons f fs ih => simp [writeEntries, writeFields, ih]

mutual

theorem writeCanonicalJson_eq : ∀ v : Json, v.plain → writeCanonicalJson v = v.normalize.write
  | .null, _ => rfl
  | .bool _, _ => rfl
  | .num text, h => by
    have hne : text ≠ minusZero := by simp [plain] at h; exact h.2
    simp [writeCanonicalJson, Json.normalize, hne]
  | .str _, _ => rfl
  | .arr items, h => by
    rw [writeCanonicalJson, canonicalItems_eq true items h]
    rfl
  | .obj fields, h => by
    have hs := List.map_insertionSort ByName ByName
      (fun f : Str × Json => (f.1, f.2.write)) (normalizeFields fields) fun _ _ _ _ => Iff.rfl
    rw [writeCanonicalJson, canonicalFields_eq fields h, ← hs, writeEntries_map]
    rfl

theorem canonicalItems_eq : ∀ (first : Bool) (xs : List Json), plainItems xs →
    canonicalItems first xs = writeItems first (normalizeItems xs)
  | _, [], _ => rfl
  | first, x :: xs, h => by
    simp only [plainItems, Bool.and_eq_true] at h
    rw [canonicalItems, writeCanonicalJson_eq x h.1, canonicalItems_eq false xs h.2]
    rfl

theorem canonicalFields_eq : ∀ fs : List (Str × Json), plainFields fs →
    canonicalFields fs = (normalizeFields fs).map fun f => (f.1, f.2.write)
  | [], _ => rfl
  | (k, v) :: fs, h => by
    simp only [plainFields, Bool.and_eq_true] at h
    rw [canonicalFields, writeCanonicalJson_eq v h.1, canonicalFields_eq fs h.2]
    rfl

end

theorem plainFields_iff {fs : List (Str × Json)} : plainFields fs = true ↔ ∀ f ∈ fs, f.2.plain := by
  induction fs with
  | nil => simp [plainFields]
  | cons f fs ih => simp [plainFields, ih]

mutual

theorem plain_normalize : ∀ v : Json, v.plain → v.normalize.plain
  | .null, _ => rfl
  | .bool _, _ => rfl
  | .num text, h => by
    have hne : text ≠ minusZero := by simp [plain] at h; exact h.2
    simpa [Json.normalize, hne] using h
  | .str _, _ => rfl
  | .arr items, h => plainItems_normalize items h
  | .obj fields, h => by
    have hfl := plainFields_iff.mp (plainFields_normalize fields h)
    exact plainFields_iff.mpr fun f hf =>
      hfl f ((List.perm_insertionSort ByName _).mem_iff.mp hf)

theorem plainItems_normalize : ∀ xs : List Json, plainItems xs → plainItems (normalizeItems xs)
  | [], _ => rfl
  | x :: xs, h => by
    simp only [plainItems, Bool.and_eq_true] at h
    simp [normalizeItems, plainItems, plain_normalize x h.1, plainItems_normalize xs h.2]

theorem plainFields_normalize : ∀ fs : List (Str × Json), plainFields fs → plainFields (normalizeFields fs)
  | [], _ => rfl
  | (k, v) :: fs, h => by
    simp only [plainFields, Bool.and_eq_true] at h
    simp [normalizeFields, plainFields, plain_normalize v h.1, plainFields_normalize fs h.2]

end

theorem same_iff {a b : Json} (ha : a.plain) (hb : b.plain) :
    a.same b ↔ writeCanonicalJson a = writeCanonicalJson b := by
  rw [writeCanonicalJson_eq a ha, writeCanonicalJson_eq b hb, same, decide_eq_true_eq]
  exact ⟨fun h => by rw [h], write_injective (plain_normalize a ha) (plain_normalize b hb)⟩

/-! ### The two encodings -/

section Values

variable {a b : AttributeValue} {p : ParsedNumber}

/-- **Partition keys.**  Values are equal exactly when their encodings are. -/
theorem encodeKeyValue_eq_iff (ha : a.plain) (hb : b.plain) :
    encodeKeyValue a = encodeKeyValue b ↔ valuesEqual (some a) (some b) := by
  rw [valuesEqual_some]
  rcases hp : numberOf a with _ | p <;> rcases hq : numberOf b with _ | q
  · rw [encodeKeyValue_other hp, encodeKeyValue_other hq, same_iff ha hb]
    simp
  · -- a value that equals a number is the same number
    rw [encodeKeyValue_other hp, encodeKeyValue_number hq]
    simp only [List.cons.injEq, Char.reduceEq, false_and, false_iff]
    intro h
    rw [numberOf_eq, tagged_eq_of_same h, ← numberOf_eq, hq] at hp
    cases hp
  · rw [encodeKeyValue_number hp, encodeKeyValue_other hq]
    simp only [List.cons.injEq, Char.reduceEq, false_and, false_iff]
    intro h
    rw [numberOf_eq, ← tagged_eq_of_same h, ← numberOf_eq, hp] at hq
    cases hq
  · rw [encodeKeyValue_number hp, encodeKeyValue_number hq]
    simp only [List.cons.injEq, true_and, beq_iff_eq]
    rw [cmp_eq_iff (numberOf_normal hp) (numberOf_normal hq)]
    exact ⟨render_injective (numberOf_normal hp) (numberOf_normal hq), fun h => by rw [h]⟩

theorem canonicalText_eq {s : Str} (h : parseNumber s = some p) :
    ∃ t : NumberText, canonicalText s = some t ∧ t.1 = p.render := by
  unfold canonicalText
  split
  · next q hq =>
    rw [hq, some.injEq] at h
    exact ⟨_, rfl, congrArg ParsedNumber.render h⟩
  · next hq =>
    rw [hq] at h
    cases h

theorem canonicalText_eq_none {s : Str} (h : parseNumber s = none) : canonicalText s = none := by
  unfold canonicalText
  split
  · next q hq =>
    rw [hq] at h
    cases h
  · rfl

theorem ofValue_number (h : numberOf a = some p) :
    ∃ t : NumberText, ofValue a = .number t ∧ t.1 = p.render := by
  rw [numberOf_eq] at h
  obtain ⟨⟨tag, text⟩, htg, hp⟩ := bind_eq_some_iff.mp h
  dsimp only at hp
  split at hp
  · next hN =>
    obtain ⟨s, rfl, hs⟩ := bind_eq_some_iff.mp hp
    obtain ⟨t, ht, hr⟩ := canonicalText_eq hs
    exact ⟨t, by simp [ofValue_eq, htg, ofTagged, hN, ht], hr⟩
  · cases hp

theorem ofValue_other (h : numberOf a = none) : (∃ s, tagged a = some (['S'], some s) ∧ ofValue a = .str s) ∨
    (∃ bytes s, tagged a = some (['B'], some s) ∧ ofValue a = .binary bytes s) ∨
    ofValue a = .other (encodeKeyValue a) := by
  rw [ofValue_eq]
  rw [numberOf_eq] at h
  rcases ht : tagged a with _ | ⟨tag, text⟩
  · exact .inr (.inr rfl)
  rw [ht] at h
  by_cases hN : tag = ['N']
  · subst hN
    have : text.bind canonicalText = none := by
      rcases text with _ | s
      · rfl
      · exact canonicalText_eq_none (by simpa using h)
    refine .inr (.inr ?_)
    rw [bind_some, ofTagged, this]
    rfl
  by_cases hS : tag = ['S']
  · subst hS
    rcases text with _ | s
    · simp [ofTagged]
    · simp [ofTagged]
  by_cases hB : tag = ['B']
  · subst hB
    rcases text with _ | s
    · simp [ofTagged]
    · rcases hs : base64Decode s with _ | bytes
      · simp [ofTagged, hs]
      · simp [ofTagged, hs]
  · simp [ofTagged, hN, hS, hB]

theorem eq_of_tagged {v : AttributeValue} {tag s : Str} (h : tagged v = some (tag, some s)) :
    v = .obj [(tag, .str s)] := by
  obtain ⟨⟨k, x⟩, hf, hx⟩ := map_eq_some_iff.mp h
  have hv : v = .obj [(k, x)] := by
    unfold attributeTypeAndValue at hf
    split at hf
    · rw [some.injEq] at hf
      rw [hf]
    · cases hf
  simp only [Prod.mk.injEq] at hx
  have hs : x = .str s := by
    cases x <;> simp_all [asStr]
  rw [hv, hx.1, hs]

/-- **Sort keys.**  Values are equal exactly when their parts are. -/
theorem ofValue_eq_iff (ha : a.plain) (hb : b.plain) :
    ofValue a = ofValue b ↔ valuesEqual (some a) (some b) := by
  rw [← encodeKeyValue_eq_iff ha hb]
  constructor
  · intro h
    rcases hp : numberOf a with _ | p <;> rcases hq : numberOf b with _ | q
    · rcases ofValue_other hp with ⟨s, hs, ha⟩ | ⟨bytes, s, hs, ha⟩ | ha <;>
        rcases ofValue_other hq with ⟨t, ht, hb⟩ | ⟨bytes', t, ht, hb⟩ | hb <;>
        rw [ha, hb] at h <;> injection h
      · next hst => rw [eq_of_tagged hs, eq_of_tagged ht, hst]
      · next _ hst => rw [eq_of_tagged hs, eq_of_tagged ht, hst]
    · obtain ⟨t, ht, -⟩ := ofValue_number hq
      rcases ofValue_other hp with ⟨s, -, ha⟩ | ⟨bytes, s, -, ha⟩ | ha <;> rw [ha, ht] at h <;> cases h
    · obtain ⟨t, ht, -⟩ := ofValue_number hp
      rcases ofValue_other hq with ⟨s, -, hb⟩ | ⟨bytes, s, -, hb⟩ | hb <;> rw [hb, ht] at h <;> cases h
    · obtain ⟨t, ht, hrt⟩ := ofValue_number hp
      obtain ⟨u, hu, hru⟩ := ofValue_number hq
      rw [ht, hu, number.injEq] at h
      rw [encodeKeyValue_number hp, encodeKeyValue_number hq, ← hrt, ← hru, h]
  · intro h
    have he := (encodeKeyValue_eq_iff ha hb).mp h
    rw [valuesEqual_some] at he
    rcases hp : numberOf a with _ | p <;> rcases hq : numberOf b with _ | q <;>
      simp only [hp, hq] at he
    · rw [ofValue_eq, ofValue_eq, tagged_eq_of_same he, h]
    · rw [ofValue_eq, ofValue_eq, tagged_eq_of_same he, h]
    · rw [ofValue_eq, ofValue_eq, tagged_eq_of_same he, h]
    · obtain ⟨t, ht, hrt⟩ := ofValue_number hp
      obtain ⟨u, hu, hru⟩ := ofValue_number hq
      rw [encodeKeyValue_number hp, encodeKeyValue_number hq] at h
      rw [ht, hu, number.injEq]
      exact Subtype.ext (by rw [hrt, hru]; exact (List.cons.inj (List.cons.inj h).2).2)

end Values

/-! ## Encodings that compare equal -/

/-- The text of a number part is the text of the number it is read as. -/
def SortKeyPart.Faithful (part : SortKeyPart) : Prop := ∀ t, part = .number t → t.1 = t.value.render

theorem ofValue_faithful (h : ∀ p, numberOf v = some p → p.InRange) : (ofValue v).Faithful := by
  intro t ht
  rcases hp : numberOf v with _ | p
  · rcases ofValue_other hp with ⟨s, -, hv⟩ | ⟨bytes, s, -, hv⟩ | hv <;> rw [hv] at ht <;> cases ht
  · obtain ⟨u, hu, hru⟩ := ofValue_number hp
    rw [hu, number.injEq] at ht
    have hr := parse_render (numberOf_normal hp) (h p hp)
    rw [← hru, ht, t.parse, some.injEq] at hr
    rw [← ht, hru, ← hr, ht]

theorem SortKeyPart.eq_of_cmp_eq {a b : SortKeyPart} (ha : a.Faithful) (hb : b.Faithful)
    (h : a.cmp b = .eq) : a = b := by
  by_cases hr : a.rank = b.rank
  · cases a <;> cases b <;> try cases hr
    · rfl
    · next t u =>
      simp only [cmp, compareNumberStrings_eq] at h
      have hv := (cmp_eq_iff (parseNumber_normal t.parse) (parseNumber_normal u.parse)).mp h
      rw [number.injEq]
      exact Subtype.ext (by rw [ha t rfl, hb u rfl, hv])
    · simp only [cmp, Std.LawfulEqCmp.compare_eq_iff_eq] at h
      rw [h]
    · simp only [cmp, Ordering.then_eq_eq, Std.LawfulEqCmp.compare_eq_iff_eq] at h
      rw [h.1, h.2]
    · simp only [cmp, Std.LawfulEqCmp.compare_eq_iff_eq] at h
      rw [h]
  · rw [cmp_eq] at h
    simp only [compareLex, compareOn, Ordering.then_eq_eq, Std.LawfulEqCmp.compare_eq_iff_eq] at h
    exact absurd h.1 hr

def RowKey.Faithful (k : RowKey) : Prop := ∀ part ∈ k.sort, part.Faithful

theorem RowKey.eq_of_cmp_eq {k l : RowKey} (hk : k.Faithful) (hl : l.Faithful)
    (h : k.cmp l = .eq) : k = l := by
  obtain ⟨hash, partition, sort⟩ := k
  obtain ⟨hash', partition', sort'⟩ := l
  simp only [RowKey.cmp, compareLex, compareOn, Ordering.then_eq_eq, Std.LawfulEqCmp.compare_eq_iff_eq] at h
  obtain ⟨rfl, rfl, hs⟩ := h
  rcases sort with _ | a <;> rcases sort' with _ | b
  · rfl
  · cases hs
  · cases hs
  · rw [SortKeyPart.eq_of_cmp_eq (hk a rfl) (hl b rfl) hs]

/-! ## Keys of items -/

structure KeyNames where
  hash : Str
  range : Option Str
deriving DecidableEq

namespace KeyNames

def attributes (names : KeyNames) : List Str := names.hash :: names.range.toList

variable (names : KeyNames)

def encode (item : Item) : Option RowKey :=
  (item.lookup names.hash).map fun v =>
    let partition := encodeKeyValue v
    { partitionHash := fnv1a64 (utf8 partition)
      partition
      sort := names.range.map fun rk => SortKeyPart.of (item.lookup rk) }

/-- What the linear scan looks for. -/
def isKeyOf (key item : Item) : Bool :=
  valuesEqual (item.lookup names.hash) (key.lookup names.hash) &&
    (item.lookup names.hash).isSome &&
    match names.range with
    | some rk => valuesEqual (item.lookup rk) (key.lookup rk)
    | none => true

/-- **Well-behaved key values.**  No JSON number in a key value is minus zero, and the scientific
exponent of a Number that is a sort key is an `i64`. -/
structure Sound (item : Item) : Prop where
  hash : ∀ v ∈ item.lookup names.hash, v.plain
  sort : ∀ rk ∈ names.range, ∀ v ∈ item.lookup rk, v.plain
  inRange : ∀ rk ∈ names.range, ∀ v ∈ item.lookup rk, ∀ p ∈ numberOf v, p.InRange

instance (item : Item) : Decidable (names.Sound item) :=
  decidable_of_iff ((∀ v ∈ item.lookup names.hash, v.plain) ∧
      (∀ rk ∈ names.range, ∀ v ∈ item.lookup rk, v.plain) ∧
      ∀ rk ∈ names.range, ∀ v ∈ item.lookup rk, ∀ p ∈ numberOf v, p.InRange)
    ⟨fun h => ⟨h.1, h.2.1, h.2.2⟩, fun h => ⟨h.hash, h.sort, h.inRange⟩⟩

variable {names} {item key : Item}

theorem encode_faithful (h : names.Sound item) {k : RowKey} (hk : names.encode item = some k) :
    k.Faithful := by
  obtain ⟨v, -, rfl⟩ := map_eq_some_iff.mp hk
  intro part hp
  obtain ⟨rk, hrk, rfl⟩ := map_eq_some_iff.mp hp
  rcases hv : item.lookup rk with _ | v
  · exact nofun
  · exact ofValue_faithful (h.inRange rk hrk v hv)

theorem sortKeyPart_eq_iff {a b : Option AttributeValue} (ha : ∀ v ∈ a, v.plain)
    (hb : ∀ v ∈ b, v.plain) : of a = of b ↔ valuesEqual a b := by
  have hne : ∀ v : AttributeValue, ofValue v ≠ .missing := by
    intro v hv
    rcases hp : numberOf v with _ | p
    · rcases ofValue_other hp with ⟨s, -, h⟩ | ⟨bytes, s, -, h⟩ | h <;> rw [h] at hv <;> cases hv
    · obtain ⟨t, ht, -⟩ := ofValue_number hp
      rw [ht] at hv
      cases hv
  rcases a with _ | a <;> rcases b with _ | b
  · simp [valuesEqual]
  · simpa [of, valuesEqual] using (hne b).symm
  · simpa [of, valuesEqual] using hne a
  · exact ofValue_eq_iff (ha a rfl) (hb b rfl)

theorem encode_of_lookup {v : AttributeValue} (h : item.lookup names.hash = some v) : names.encode item = some
      { partitionHash := fnv1a64 (utf8 (encodeKeyValue v))
        partition := encodeKeyValue v
        sort := names.range.map fun rk => of (item.lookup rk) } := by
  simp [encode, h]

/-- **The scan and the encoding agree**: a row is the one a key names when both have one encoding. -/
theorem isKeyOf_iff (hit : names.Sound item) (hky : names.Sound key) :
    names.isKeyOf key item ↔ ∃ k, names.encode item = some k ∧ names.encode key = some k := by
  rcases hi : item.lookup names.hash with _ | v <;> rcases hk : key.lookup names.hash with _ | w
  · simp [isKeyOf, encode, hi]
  · simp [isKeyOf, encode, hi]
  · simp [isKeyOf, encode, hi, hk, valuesEqual]
  · have hh := encodeKeyValue_eq_iff (hit.hash v hi) (hky.hash w hk)
    rw [encode_of_lookup hi, encode_of_lookup hk, isKeyOf, hi, hk]
    rcases hr : names.range with _ | rk
    · simp only [← hh, isSome_some, Bool.and_true, map_none]
      constructor
      · intro h
        exact ⟨_, rfl, by rw [h]⟩
      · rintro ⟨k, hk₁, hk₂⟩
        rw [← hk₂, some.injEq, RowKey.mk.injEq] at hk₁
        exact hk₁.2.1
    · have hsr := sortKeyPart_eq_iff (hit.sort rk hr) (hky.sort rk hr)
      simp only [← hh, ← hsr, isSome_some, Bool.and_true, Bool.and_eq_true, map_some]
      constructor
      · rintro ⟨hv, hs⟩
        exact ⟨_, rfl, by rw [hv, hs]⟩
      · rintro ⟨k, hk₁, hk₂⟩
        rw [← hk₂, some.injEq, RowKey.mk.injEq, some.injEq] at hk₁
        exact hk₁.2

end KeyNames

end Fakecloud.Dynamodb

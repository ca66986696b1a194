import Fakecloud.Dynamodb.Literal
import Fakecloud.Dynamodb.Query

/-!
# The order of row keys

Key values have the types `S`, `N` and `B`.  Four notions over them are written apart: equality of values,
equality of their encodings, the order of the key index and the comparison that queries sort by.  On key
values whose numbers have exponents within `i64` they agree.
-/

namespace Fakecloud.Dynamodb

open Text Option SortKeyPart

inductive KeyTag
  | s | n | b
deriving DecidableEq

def KeyTag.text : KeyTag → Str
  | s => ['S']
  | n => ['N']
  | b => ['B']

def keyValue (tag : KeyTag) (text : Str) : AttributeValue := .obj [(tag.text, .str text)]

/-- A number whose exponent is well inside `i64`. -/
def ComfortableText (tag : KeyTag) (text : Str) : Prop :=
  tag = .n → ∀ L : Literal, L.Writes text → L.Comfortable text

def IsKeyValue (v : AttributeValue) : Prop := ∃ tag text, v = keyValue tag text ∧ ComfortableText tag text

/-- What a well-formed value of a type holds. -/
def WellFormed : KeyTag → Str → Prop
  | .s, _ => True
  | .n, text => ∃ L : Literal, L.Writes text
  | .b, text => (base64Decode text).isSome = true

def KeyNames.KeyTyped (names : KeyNames) (item : Item) : Prop :=
  ∀ attr ∈ names.attributes, ∃ v, item.lookup attr = some v ∧ IsKeyValue v

theorem tagged_keyValue (tag : KeyTag) (text : Str) :
    tagged (keyValue tag text) = some (tag.text, some text) := rfl

theorem numberOf_keyValue (tag : KeyTag) (text : Str) :
    numberOf (keyValue tag text) = if tag = .n then parseNumber text else none := by
  rw [numberOf_eq, tagged_keyValue]
  cases tag <;> simp [KeyTag.text]

variable {v : AttributeValue} {tag : KeyTag} {p : ParsedNumber} {names : KeyNames}

theorem IsKeyValue.plain (h : IsKeyValue v) : v.plain := by
  obtain ⟨tag, text, rfl, -⟩ := h
  rfl

theorem inRange_of_comfortableText {text : Str} (h : ComfortableText tag text)
    (hp : numberOf (keyValue tag text) = some p) : p.InRange := by
  rw [numberOf_keyValue] at hp
  split_ifs at hp with ht
  obtain ⟨L, hL⟩ := exists_writes hp
  have hc := h ht L hL
  have he : L.exp.natAbs < 2 ^ 63 := lt_of_le_of_lt (Nat.le_add_right _ _) hc
  rw [parseNumber_of_writes hL, saturate_eq_self he, some.injEq] at hp
  rw [← hp]
  exact inRange_of_comfortable hL hc

theorem IsKeyValue.inRange (h : IsKeyValue v) (hp : numberOf v = some p) : p.InRange := by
  obtain ⟨tag, text, rfl, hc⟩ := h
  exact inRange_of_comfortableText hc hp

theorem KeyNames.KeyTyped.sound {item : Item} (h : names.KeyTyped item) : names.Sound item := by
  have hvl {attr : Str} (ha : attr ∈ names.attributes) {v : AttributeValue} (hv : v ∈ item.lookup attr) :
      IsKeyValue v := by
    obtain ⟨w, hw, hk⟩ := h attr ha
    rw [hw, Option.mem_some_iff] at hv
    exact hv ▸ hk
  have hr {rk : Str} (hrk : rk ∈ names.range) : rk ∈ names.attributes :=
    List.mem_cons_of_mem _ (Option.mem_toList.mpr hrk)
  exact ⟨fun v hv => (hvl List.mem_cons_self hv).plain, fun rk hrk v hv => (hvl (hr hrk) hv).plain,
    fun rk hrk v hv p hp => (hvl (hr hrk) hv).inRange hp⟩

theorem KeyNames.encode_eq_iff {a b : Item} (ha : names.KeyTyped a) (hb : names.KeyTyped b) :
    names.encode a = names.encode b ↔ valuesEqual (a.lookup names.hash) (b.lookup names.hash) = true ∧
        ∀ rk ∈ names.range, valuesEqual (a.lookup rk) (b.lookup rk) = true := by
  obtain ⟨v, hv, -⟩ := ha names.hash List.mem_cons_self
  have hs := KeyNames.encode_of_lookup hv
  have hi := KeyNames.isKeyOf_iff ha.sound hb.sound
  have hsm : names.encode a = names.encode b ↔ ∃ k, names.encode a = some k ∧ names.encode b = some k :=
    ⟨fun h => ⟨_, hs, h ▸ hs⟩, fun ⟨k, hk, hk'⟩ => hk.trans hk'.symm⟩
  rw [hsm, ← hi, KeyNames.isKeyOf]
  simp only [hv]
  rcases names.range with _ | rk <;> simp

theorem IsKeyValue.faithful (h : IsKeyValue v) : (of (some v)).Faithful :=
  ofValue_faithful fun _ hp => h.inRange hp

theorem IsKeyValue.cmp_eq_iff {w : AttributeValue} (hv : IsKeyValue v) (hw : IsKeyValue w) :
    (of (some v)).cmp (of (some w)) = .eq ↔ of (some v) = of (some w) := by
  refine ⟨eq_of_cmp_eq hv.faithful hw.faithful, fun h => ?_⟩
  rw [h]
  exact Std.ReflCmp.compare_self

/-- The index and the queries order values of one type in the same way; the index goes on to compare the
base64 texts of equal bytes. -/
theorem cmp_keyValue {s t : Str} (hs : ComfortableText tag s) (ht : ComfortableText tag t)
    (hws : WellFormed tag s) (hwt : WellFormed tag t) :
    (of (some (keyValue tag s))).cmp (of (some (keyValue tag t))) =
      (compareAttributeValues (some (keyValue tag s)) (some (keyValue tag t))).then
        (if tag = .b then compare s t else .eq) := by
  cases tag with
  | s => exact (Ordering.then_eq).symm
  | n =>
    obtain ⟨L, hL⟩ := hws
    obtain ⟨M, hM⟩ := hwt
    have hps := parseNumber_of_writes hL
    have hpt := parseNumber_of_writes hM
    have hns : numberOf (keyValue .n s) = some _ := hps
    have hnt : numberOf (keyValue .n t) = some _ := hpt
    obtain ⟨u, hu, hur⟩ := ofValue_number hns
    obtain ⟨w, hw, hwr⟩ := ofValue_number hnt
    -- both compare the numbers that the texts are read as
    have hr {x : Str} {p : ParsedNumber} {z : NumberText} (hx : ComfortableText .n x)
        (hp : numberOf (keyValue .n x) = some p) (hz : z.1 = p.render) : z.value = p := by
      have hpr := parse_render (numberOf_normal hp) (inRange_of_comfortableText hx hp)
      rw [← hz, z.parse, some.injEq] at hpr
      exact hpr
    have hc : compareAttributeValues (some (keyValue .n s)) (some (keyValue .n t)) =
        compareNumberStrings s t := rfl
    rw [hc, compareNumberStrings, hps, hpt]
    simp only [SortKeyPart.of, hu, hw, SortKeyPart.cmp, compareNumberStrings_eq, hr hs hns hur,
      hr ht hnt hwr, reduceCtorEq, if_false, Ordering.then_eq]
  | b =>
    obtain ⟨p, hp⟩ := isSome_iff_exists.mp hws
    obtain ⟨q, hq⟩ := isSome_iff_exists.mp hwt
    have hpa {x : Str} {bytes : Bytes} (hx : base64Decode x = some bytes) :
        of (some (keyValue .b x)) = .binary bytes x := by
      simp [of, ofValue_eq, tagged_keyValue, KeyTag.text, ofTagged, hx]
    have hc : compareAttributeValues (some (keyValue .b s)) (some (keyValue .b t)) = compare p q := by
      simp [compareAttributeValues, keyValue, attributeTypeAndValue, compareTagged, KeyTag.text,
        Json.asStr, hp, hq]
    rw [hpa hp, hpa hq, hc]
    rfl

/-- **Row keys are coherent.**  On key values, encodings are equal exactly when the values of the hash key and
of the range key are; the order of parts is total and has equal parts only where it says so; and on
well-formed values of one type it is the comparison of attribute values, up to the spelling of base64. -/
theorem row_keys_coherent (names : KeyNames) :
    (∀ a b : Item, names.KeyTyped a → names.KeyTyped b →
      (names.encode a = names.encode b ↔
        valuesEqual (a.lookup names.hash) (b.lookup names.hash) = true ∧
          ∀ rk ∈ names.range, valuesEqual (a.lookup rk) (b.lookup rk) = true)) ∧
    (∀ x y : SortKeyPart, x.cmp y = (y.cmp x).swap) ∧
    (∀ x y z : SortKeyPart, (x.cmp y).isLE → (y.cmp z).isLE → (x.cmp z).isLE) ∧
    (∀ v w : AttributeValue, IsKeyValue v → IsKeyValue w →
      ((SortKeyPart.of (some v)).cmp (SortKeyPart.of (some w)) = .eq ↔
        SortKeyPart.of (some v) = SortKeyPart.of (some w))) ∧
    ∀ (tag : KeyTag) (s t : Str), ComfortableText tag s → ComfortableText tag t → WellFormed tag s →
      WellFormed tag t →
      (SortKeyPart.of (some (keyValue tag s))).cmp (SortKeyPart.of (some (keyValue tag t))) =
        (compareAttributeValues (some (keyValue tag s)) (some (keyValue tag t))).then
          (if tag = .b then compare s t else .eq) :=
  ⟨fun _ _ ha hb => KeyNames.encode_eq_iff ha hb, fun _ _ => Std.OrientedCmp.eq_swap,
    fun _ _ _ hxy hyz => Std.TransCmp.isLE_trans hxy hyz, fun _ _ hv hw => hv.cmp_eq_iff hw,
    fun _ _ _ hs ht hws hwt => cmp_keyValue hs ht hws hwt⟩

end Fakecloud.Dynamodb

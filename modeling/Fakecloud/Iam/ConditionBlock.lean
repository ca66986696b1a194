import Fakecloud.Iam.Condition
import Fakecloud.Lib.Json

/-!
# Reading condition blocks

`CompiledCondition::parse`: the JSON value of a `Condition` as a list of entries.  An operator that is not
known leaves an entry that fails an `Allow`.  What is malformed otherwise leaves nothing: a block that is
not an object, the operand of an operator that is not an object, and a value that is no scalar.
-/

namespace Fakecloud.Iam.Condition

open Text Fakecloud.Core List ParsedOperatorName CompiledCondition

/-! ## Parsing -/

def ConditionOperator.fromStr (name : Str) : Option ConditionOperator :=
  List.lookup name
    [("StringEquals", .stringEquals), ("StringNotEquals", .stringNotEquals),
      ("StringEqualsIgnoreCase", .stringEqualsIgnoreCase),
      ("StringNotEqualsIgnoreCase", .stringNotEqualsIgnoreCase),
      ("StringLike", .stringLike), ("StringNotLike", .stringNotLike),
      ("NumericEquals", .numericEquals), ("NumericNotEquals", .numericNotEquals),
      ("NumericLessThan", .numericLessThan),
      ("NumericLessThanEquals", .numericLessThanEquals),
      ("NumericGreaterThan", .numericGreaterThan),
      ("NumericGreaterThanEquals", .numericGreaterThanEquals),
      ("DateEquals", .dateEquals), ("DateNotEquals", .dateNotEquals),
      ("DateLessThan", .dateLessThan), ("DateLessThanEquals", .dateLessThanEquals),
      ("DateGreaterThan", .dateGreaterThan),
      ("DateGreaterThanEquals", .dateGreaterThanEquals), ("Bool", .bool),
      ("BinaryEquals", .binaryEquals), ("IpAddress", .ipAddress),
      ("NotIpAddress", .notIpAddress), ("ArnEquals", .arnEquals),
      ("ArnNotEquals", .arnNotEquals), ("ArnLike", .arnLike),
      ("ArnNotLike", .arnNotLike), ("Null", .null)]

/-- `ParsedOperatorName::parse`: a qualifier in front, `IfExists` behind. -/
def ParsedOperatorName.parse (raw : Str) : Option ParsedOperatorName :=
  let qualified : Qualifier × Str :=
    match raw.dropPrefix? "ForAllValues:" with
    | some s => (.forAllValues, s)
    | none => match raw.dropPrefix? "ForAnyValue:" with
      | some s => (.forAnyValue, s)
      | none => (.single, raw)
  let based : Str × Bool :=
    match qualified.2.dropSuffix? "IfExists" with
    | some s => (s, true)
    | none => (qualified.2, false)
  (ConditionOperator.fromStr based.1).map fun op => ⟨op, based.2, qualified.1⟩

def valueToString : Json → Option Str
  | .str s => some s
  | .bool b => some (if b then "true" else "false")
  | .num text => some text
  | _ => none

def coerceValueList : Json → List Str
  | .arr items => items.filterMap valueToString
  | value => (valueToString value).toList

def parseOperator (opName : Str) (keyMap : Json) : List ParsedCondition :=
  match ParsedOperatorName.parse opName with
  | none => [⟨⟨.null, false, .single⟩, unknownOperator ++ opName, [], false⟩]
  | some operator =>
    (keyMap.asObject.getD []).map fun kv => ⟨operator, kv.1, coerceValueList kv.2, false⟩

def CompiledCondition.parse (value : Json) : CompiledCondition :=
  ⟨(value.asObject.getD []).flatMap fun field => parseOperator field.1 field.2⟩

def CompiledCondition.withPolicyVariables (c : CompiledCondition) (enabled : Bool) : CompiledCondition :=
  ⟨c.entries.map fun entry => { entry with policyVariables := enabled }⟩

/-! ## Well-formed blocks -/

section

variable (F : Formats) (ctx : ConditionContext) (expands : Bool)

variable {F ctx expands}

end

/-- An object in which every known operator has an object. -/
def WellShaped (value : Json) : Prop :=
  ∃ fields, value = .obj fields ∧ ∀ field ∈ fields, (ParsedOperatorName.parse field.1).isSome →
    ∃ inner, field.2 = .obj inner

/-- The block itself, or one operator of it alone. -/
def IsPart (part value : Json) : Prop :=
  part = value ∨ ∃ fields, value = .obj fields ∧ ∃ field ∈ fields, part = .obj [field]

theorem WellShaped.part {part value : Json} (hw : WellShaped value) (hp : IsPart part value) :
    WellShaped part := by
  obtain rfl | ⟨fields, rfl, field, hf, rfl⟩ := hp
  · exact hw
  · obtain ⟨fields, hv, hw⟩ := hw
    cases hv
    refine ⟨[field], rfl, fun field' hf' => ?_⟩
    rw [mem_singleton.mp hf']
    exact hw field hf

end Fakecloud.Iam.Condition

import Fakecloud.Aws.Partition
import Fakecloud.Cloudformation.Cidr
import Fakecloud.Lib.JsonText
import Fakecloud.Lib.OrdMap

/-!
# CloudFormation: intrinsic functions

`resolve_refs_full` looks for one intrinsic after the other in an object, and goes on only with the values
that the first one needs.  It does not fail: what is not known yet is left in the properties as a placeholder.
-/

namespace Fakecloud.Cloudformation

open Text Aws

abbrev StrMap (β : Type) := OrdMap Str β compare

abbrev Params := StrMap Str

/-- What references are resolved with. -/
structure Known where
  parameters : Params
  physicalIds : StrMap Str
  attributes : StrMap (StrMap Str)
  imports : StrMap Str
  conditions : StrMap Bool
  /-- `serde_json::from_str` -/
  readJson : Str → Option Json
  encodeBase64 : Str → Str

/-- A string as it is, any other value as JSON. -/
def textOf : Json → Str
  | .str s => s
  | value => value.write

/-! ## Pseudo-parameters -/

def pseudoRefs : List Str :=
  ["AWS::AccountId", "AWS::NotificationARNs", "AWS::NoValue", "AWS::Partition", "AWS::Region",
    "AWS::StackId", "AWS::StackName", "AWS::URLSuffix"]

def noValueSentinelKey : Str := "__fakecloud_aws_no_value__"

def isNoValue : Json → Bool
  | .obj [(key, _)] => key = noValueSentinelKey
  | _ => false

mutual

def stripNoValue : Json → Json
  | .obj fields => if isNoValue (.obj fields) then .null else .obj (stripFields fields)
  | .arr items => .arr (stripItems items)
  | value => value

def stripFields : List (Str × Json) → List (Str × Json)
  | [] => []
  | (key, value) :: fields =>
    if isNoValue value then stripFields fields else (key, stripNoValue value) :: stripFields fields

def stripItems : List Json → List Json
  | [] => []
  | value :: items => if isNoValue value then stripItems items else stripNoValue value :: stripItems items

end

namespace Known

variable (K : Known)

/-- A list of strings, for `AWS::NotificationARNs`. -/
def readArns (raw : Str) : Option Json :=
  (K.readJson raw).filter fun value => value.asArray.any fun items => items.all fun v => v.asStr.isSome

def pseudoValue (name : Str) : Option Json :=
  if name = "AWS::NotificationARNs" then
    some (((K.parameters.get name).bind K.readArns).getD (.arr []))
  else
    match K.parameters.get name with
    | some value => some (.str value)
    | none =>
      let region := (K.parameters.get "AWS::Region").getD "us-east-1"
      if name = "AWS::Partition" then some (.str (partitionFor region))
      else if name = "AWS::URLSuffix" then some (.str (dnsSuffix (partitionFor region)))
      else if name = "AWS::Region" then some (.str region)
      else if name = "AWS::NoValue" then some (.obj [(noValueSentinelKey, .bool true)])
      else none

/-! ## Single intrinsics -/

def ref (name : Str) : Json :=
  if name ∈ pseudoRefs then (K.pseudoValue name).getD (.str name)
  else .str ((K.parameters.get name <|> K.physicalIds.get name).getD name)

end Known

def parseGetAtt : Json → Option (Str × Str)
  | .arr (id :: attr :: more) =>
    id.asStr.map fun id => (id, List.intercalate ['.'] ((attr :: more).map textOf))
  | .str s => splitOnce '.' s
  | _ => none

/-- The loop of `split`; the counter is what is left of a delimiter. -/
def splitFrom (part : Str) : ℕ → Str → List Str
  | _, [] => [[]]
  | k + 1, _ :: s => splitFrom part k s
  | 0, c :: s =>
    if part.isPrefixOf (c :: s) then [] :: splitFrom part (part.length - 1) s
    else (splitFrom part 0 s).modifyHead (c :: ·)

/-- `split`; the empty text stands between all characters. -/
def splitStr (part s : Str) : List Str :=
  if part = [] then [] :: s.map ([·]) ++ [[]] else splitFrom part 0 s

def length : Json → ℕ
  | .arr items => items.length
  | .str s => s.length
  | _ => 0

/-- A number or the text of one, as an unsigned integer below `bound`. -/
def unsigned (bound : ℕ) : Json → ℕ
  | .num text => (parseUnsigned (2 ^ 64) text).getD 0 % bound
  | .str s => (parseUnsigned bound s).getD 0
  | _ => 0

def availabilityZoneLetters (region : Str) : Str :=
  if region = "us-east-1" then "abcdef"
  else if region ∈ (["us-west-2", "ap-northeast-2", "ap-northeast-1"] : List Str) then "abcd"
  else if region = "ca-central-1" then "abd"
  else "abc"

/-- The text of an `Fn::Sub`, and the names of the variables that it comes with. -/
def subParts : Json → Option Str × List Str
  | .str text => (some text, [])
  | .arr items => (items.head?.bind Json.asStr, ((items[1]?.bind Json.asObject).getD []).map Prod.fst)
  | _ => (none, [])

def subToken (name : Str) : Str := '$' :: '\x7b' :: name ++ ['\x7d']

namespace Known

variable (K : Known)

def getAZs (argument : Json) : Json :=
  let region :=
    ([argument.asStr.getD [], (K.parameters.get "AWS::Region").getD []].find? (· ≠ [])).getD "us-east-1"
  .arr ((availabilityZoneLetters region).map fun letter => .str (region ++ [letter]))

/-- An attribute that is a list is known as its JSON text. -/
def select (index list : Json) : Json :=
  let items :=
    match list with
    | .arr items => some items
    | .str s => (K.readJson s).bind Json.asArray
    | _ => none
  (items.bind fun items => items[unsigned (2 ^ 64) index]?).getD .null

def substitute (result : Str) (e : Str × Str) : Str := replace (subToken e.1) e.2 result

/-- `Fn::Sub`: each replacement is made in the result of those before. -/
def sub (bindings : List (Str × Json)) (text : Str) : Str :=
  let extraVars : StrMap Str := bindings.foldl (fun m e => m.insert e.1 (textOf e.2)) .empty
  let pseudo := pseudoRefs.filterMap fun (name : Str) =>
    if name = "AWS::NoValue" then some (name, []) else (K.pseudoValue name).map fun value =>
      (name, textOf value)
  let attributes := K.attributes.entries.flatMap fun r => r.2.entries.map fun a => (r.1 ++ '.' :: a.1, a.2)
  replace "$\x7b!" "$\x7b" ((extraVars.entries ++ pseudo ++ K.parameters.entries ++ K.physicalIds.entries ++
    attributes).foldl substitute text)

/-- The first intrinsic of an object: its fields, these resolved one by one, and the variables
of `Fn::Sub`. -/
def intrinsic (fields resolved bindings : List (Str × Json)) : Option Json :=
  let arg (key : String) := fields.lookup key.toList
  let value (key : String) := resolved.lookup key.toList
  let args (key : String) :=
    match arg key, value key with
    | some (.arr args), some (.arr values) => some (args, values)
    | _, _ => none
  ((args "Fn::If").bind fun
    | ([name, _, _], [_, yes, no]) =>
      some (if (K.conditions.get (name.asStr.getD [])).getD false then yes else no)
    | _ => none) <|>
  ((arg "Ref").bind Json.asStr).map K.ref <|>
  (value "Fn::ImportValue").map (fun name => .str ((K.imports.get (textOf name)).getD [])) <|>
  ((arg "Fn::GetAtt").bind parseGetAtt).map (fun (id, attr) =>
    .str (((K.attributes.get id).bind fun attrs => attrs.get attr).getD (id ++ '.' :: attr))) <|>
  ((args "Fn::Join").bind fun
    | ([delimiter, .arr _], [_, .arr parts]) =>
      some (.str (List.intercalate (delimiter.asStr.getD []) (parts.map textOf)))
    | _ => none) <|>
  (value "Fn::Base64").map (fun v => .str (K.encodeBase64 (textOf v))) <|>
  (value "Fn::Length").map (fun v => .num (decimalText (length v))) <|>
  (value "Fn::ToJsonString").map (fun v => .str v.write) <|>
  ((args "Fn::Split").bind fun
    | ([delim, _], [_, source]) => some (.arr ((splitStr (delim.asStr.getD []) (textOf source)).map .str))
    | _ => none) <|>
  (value "Fn::GetAZs").map K.getAZs <|>
  ((args "Fn::Select").bind fun
    | (_, [index, list]) => some (K.select index list)
    | _ => none) <|>
  ((args "Fn::Cidr").bind fun
    | (_, [block, count, bits]) =>
      (computeCidrSubnets (textOf block) (unsigned (2 ^ 32) count) (unsigned (2 ^ 32) bits)).map
        fun subnets =>
        .arr (subnets.map .str)
    | _ => none) <|>
  ((arg "Fn::Sub").bind fun v => (subParts v).1).map fun text => .str (K.sub bindings text)

/-! ## Values -/

mutual

def resolveRefsFull : Json → Json
  | .obj fields =>
    let resolved := resolveFields fields
    (K.intrinsic fields resolved (resolveBindings fields)).getD (.obj resolved)
  | .arr items => .arr (resolveItems items)
  | value => value

def resolveFields : List (Str × Json) → List (Str × Json)
  | [] => []
  | (key, value) :: fields => (key, resolveRefsFull value) :: resolveFields fields

def resolveItems : List Json → List Json
  | [] => []
  | value :: items => resolveRefsFull value :: resolveItems items

/-- The variables of an `Fn::Sub` are no object of intrinsics. -/
def resolveBindings : List (Str × Json) → List (Str × Json)
  | [] => []
  | (key, value) :: fields => if key = "Fn::Sub" then subBindings value else resolveBindings fields

def subBindings : Json → List (Str × Json)
  | .arr (_ :: .obj bindings :: _) => resolveFields bindings
  | _ => []

end

end Known

end Fakecloud.Cloudformation

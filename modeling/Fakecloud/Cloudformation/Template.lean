import Fakecloud.Cloudformation.Intrinsics

/-!
# CloudFormation: templates

What the stack operations read from a template: its resources and outputs, with their references resolved,
default values of parameters, and the names of imported exports.
-/

namespace Fakecloud.Cloudformation

open Text

structure StackResource where
  logicalId : Str
  physicalId : Str
  resourceType : Str
  attributes : StrMap Str

structure StackOutput where
  key : Str
  value : Str
  description : Option Str
  exportName : Option Str
deriving DecidableEq

structure ResourceDefinition where
  logicalId : Str
  resourceType : Str
  properties : Json

structure ParsedTemplate where
  description : Option Str
  resources : List ResourceDefinition

def exportNames (outputs : List StackOutput) : List Str := outputs.filterMap StackOutput.exportName

/-! ## Resources and outputs -/

/-- What reading the text of a template rests on. -/
structure Templates where
  /-- the document in JSON or YAML -/
  parseTemplateBody : Str → Except Str Json
  isTemplateDocument : Str → Bool
  /-- `expand_for_each` and `expand_sam` -/
  expand : Params → Json → Except Str Json
  evaluateConditions : Json → Params → Except Str (StrMap Bool)
  /-- replaces `Fn::FindInMap`, by the `Mappings` of the document -/
  applyMappings : Json → Params → StrMap Bool → Json → Except Str Json
  readJson : Str → Option Json
  encodeBase64 : Str → Str

def physicalIdsOf (resources : List StackResource) : StrMap Str :=
  resources.foldl (fun m r => m.insert r.logicalId r.physicalId) .empty

def attributesOf (resources : List StackResource) : StrMap (StrMap Str) :=
  resources.foldl (fun m r => m.insert r.logicalId r.attributes) .empty

def propertiesOf (resource : Json) : Json := (resource.field "Properties").getD (.obj [])

/-- A condition that is not known does not hold. -/
def included (conditions : StrMap Bool) (value : Json) : Bool :=
  ((value.field "Condition").bind Json.asStr).all fun name => (conditions.get name).getD false

namespace Templates

variable (T : Templates) (templateBody : Str) (parameters : Params)

def known (physicalIds : StrMap Str) (attributes : StrMap (StrMap Str)) (imports : StrMap Str)
    (conditions : StrMap Bool) : Known :=
  ⟨parameters, physicalIds, attributes, imports, conditions, T.readJson, T.encodeBase64⟩

def document : Except Str Json := T.parseTemplateBody templateBody >>= T.expand parameters

/-- The resources of the document after its transforms. -/
def resources : Except Str (List (Str × Json)) := do
  let value ← T.document templateBody parameters
  ((value.field "Resources").bind Json.asObject).elim (.error "Template must contain a Resources section") .ok

/-- Properties before references are resolved, and the conditions. -/
def mapped (properties : Json) : Except Str (StrMap Bool × Json) := do
  let value ← T.document templateBody parameters
  let conditions ← T.evaluateConditions value parameters
  return (conditions, ← T.applyMappings value parameters conditions properties)

def prepared (logicalId : Str) : Except Str (StrMap Bool × Json) := do
  let resources ← T.resources templateBody parameters
  T.mapped templateBody parameters (propertiesOf ((resources.lookup logicalId).getD .null))

/-- `resolve_resource_properties_with_attrs`. -/
def resolve (definition : ResourceDefinition) (physicalIds : StrMap Str) (attributes : StrMap (StrMap Str))
    (imports : StrMap Str) : Except Str ResourceDefinition :=
  (T.prepared templateBody parameters definition.logicalId).map fun (conditions, properties) =>
    let K := T.known parameters physicalIds attributes imports conditions
    { definition with properties := stripNoValue (K.resolveRefsFull properties) }

def parseOutputs (template : Json) (resources : List StackResource) (imports : StrMap Str) :
    Except Str (List StackOutput) := do
  let template ← T.expand parameters template
  match (template.field "Outputs").bind Json.asObject with
  | none => return []
  | some outputs =>
    let conditions ← T.evaluateConditions template parameters
    let K := T.known parameters (physicalIdsOf resources) (attributesOf resources) imports conditions
    return (outputs.filter fun o => included conditions o.2).filterMap fun (id, body) =>
      (body.field "Value").map fun value => {
        key := id
        value := textOf (stripNoValue (K.resolveRefsFull value))
        description := (body.field "Description").bind Json.asStr
        exportName := ((body.field "Export").bind (Json.field "Name")).map fun name =>
          textOf (K.resolveRefsFull name) }

/-- One resource of the document. -/
def parseResource (resource : Str × Json) : Except Str ResourceDefinition := do
  let resourceType ← ((resource.2.field "Type").bind Json.asStr).elim
    (.error ("Resource " ++ resource.1 ++ " must have a Type property")) .ok
  let (conditions, properties) ← T.mapped templateBody parameters (propertiesOf resource.2)
  let K := T.known parameters .empty .empty .empty conditions
  return ⟨resource.1, resourceType, stripNoValue (K.resolveRefsFull properties)⟩

def parseTemplate : Except Str ParsedTemplate := do
  let value ← T.document templateBody parameters
  let conditions ← T.evaluateConditions value parameters
  let resources ← T.resources templateBody parameters
  let definitions ← (resources.filter fun r => included conditions r.2).mapM
    (T.parseResource templateBody parameters)
  let _ ← T.parseOutputs parameters value [] .empty
  return ⟨(value.field "Description").bind Json.asStr, definitions⟩

/-- What can fail does not see ids, attributes and imports. -/
def Resolves (logicalId : Str) : Prop := ∃ p, T.prepared templateBody parameters logicalId = .ok p

variable {T templateBody parameters} in
theorem Resolves.resolve_eq_ok {definition : ResourceDefinition}
    (h : T.Resolves templateBody parameters definition.logicalId) (physicalIds : StrMap Str)
    (attributes : StrMap (StrMap Str)) (imports : StrMap Str) :
    ∃ resolved, T.resolve templateBody parameters definition physicalIds attributes imports =
      .ok resolved := by
  obtain ⟨p, hp⟩ := h
  exact ⟨_, by rw [resolve, hp]; rfl⟩

/-- Documents without transforms, conditions and mappings. -/
def plain (parseTemplateBody : Str → Except Str Json) : Templates where
  parseTemplateBody := parseTemplateBody
  isTemplateDocument _ := true
  expand _ := .ok
  evaluateConditions _ _ := .ok .empty
  applyMappings _ _ _ := .ok
  readJson _ := none
  encodeBase64 := id

end Templates

/-! ## Parameters -/

/-- The default values that a template declares for parameters without a value. -/
def mergeParameterDefaults (T : Templates) (parameters : Params) (templateBody : Str) : Params :=
  match ((T.parseTemplateBody templateBody).toOption.bind (Json.field "Parameters")).bind Json.asObject with
  | none => parameters
  | some decls =>
    decls.foldl (fun parameters decl =>
      match parameters.get decl.1, decl.2.field "Default" with
      | none, some default => parameters.insert decl.1 (default.asStr.getD default.write)
      | _, _ => parameters) parameters

/-! ## Imported names -/

/-- The name in `Fn::ImportValue`, when the parameters determine it. -/
def staticImportName (parameters : Params) : Json → Option Str
  | .str s => some s
  | .obj fields =>
    match (fields.lookup "Ref".toList).bind Json.asStr, (fields.lookup "Fn::Sub".toList).bind Json.asStr with
    | some name, _ => parameters.get name
    | none, some text =>
      let result := parameters.entries.foldl
        (fun result e => replace ("$\x7b" ++ e.1 ++ "\x7d") e.2 result) text
      if containsStr result "$\x7b" then none else some result
    | none, none => none
  | _ => none

mutual

/-- `collect_imports_walk`. -/
def collectImports (parameters : Params) : Json → List Str
  | .obj fields => collectFieldImports parameters fields
  | .arr items => collectItemImports parameters items
  | _ => []

def collectFieldImports (parameters : Params) : List (Str × Json) → List Str
  | [] => []
  | (key, value) :: fields =>
    (if key = "Fn::ImportValue" then
      match staticImportName parameters value with
      | some name => [name]
      | none => collectImports parameters value
    else collectImports parameters value) ++ collectFieldImports parameters fields

def collectItemImports (parameters : Params) : List Json → List Str
  | [] => []
  | value :: items => collectImports parameters value ++ collectItemImports parameters items

end

def collectImportValueNames (template : Json) (parameters : Params) : List Str :=
  ((collectImports parameters template).insertionSort fun a b => compare a b ≠ .gt).dedup

end Fakecloud.Cloudformation

import Fakecloud.Cloudformation.Template

/-!
# CloudFormation: stacks, exports and imports

`CreateStack`, `UpdateStack` and `DeleteStack` of one account and region.  What the provisioner does is an
argument: the resources that a create ends with, and for an update a function that applies the new
definitions.  It also puts the child of a resource `AWS::CloudFormation::Stack` into the stack table, or takes
it away; children are left out here.
-/

namespace Fakecloud.Cloudformation

open Text Aws Option

structure ServiceError where
  code : Str
  message : Str
deriving DecidableEq

inductive StackStatus
  | reviewInProgress
  | createInProgress
  | createComplete
  | createFailed
  | updateInProgress
  | updateComplete
  | updateRollbackComplete
  | deleteComplete
deriving DecidableEq

structure Stack where
  name : Str
  stackId : Str
  template : Str
  status : StackStatus
  statusReason : Option Str
  resources : List StackResource
  parameters : Params
  description : Option Str
  notificationArns : List Str
  outputs : List StackOutput
  enableTerminationProtection : Bool

structure StackExport where
  value : Str
  exportingStackId : Str
  exportingStackName : Str
deriving DecidableEq

structure CloudFormationState where
  stackTable : StrMap Stack
  exports : StrMap StackExport
  imports : StrMap (List Str)

def Stack.live (stack : Stack) : Bool := stack.status ≠ .deleteComplete

def byId (stackId : Str) (e : Str × Stack) : Bool := e.2.stackId = stackId

/-- The entry that a stack name or id stands for. -/
def refersTo (stackRef : Str) : Str × Stack → Bool :=
  if "arn:".toList.isPrefixOf stackRef then byId stackRef else fun e => e.1 = stackRef

def liveStackIn (stackTable : StrMap Stack) (stackRef : Str) : Option Stack :=
  ((stackTable.entries.find? (refersTo stackRef)).map Prod.snd).filter Stack.live

def CloudFormationState.liveStack (s : CloudFormationState) (stackRef : Str) : Option Stack :=
  liveStackIn s.stackTable stackRef

/-! ## Exports and imports -/

def collectAccountImports (s : CloudFormationState) (skipStack : Option Str) : StrMap StackExport :=
  match skipStack with
  | none => s.exports
  | some skip => s.exports.retain fun e => skip ≠ e.exportingStackName ∧ skip ≠ e.exportingStackId

def exportValues (exports : StrMap StackExport) : StrMap Str where
  entries := exports.entries.map fun e => (e.1, e.2.value)
  sorted := by
    rw [List.pairwise_map]
    exact exports.sorted

def validateImportValues (T : Templates) (s : CloudFormationState) (stackName templateBody : Str)
    (parameters : Params) : Except ServiceError (List Str) :=
  match T.parseTemplateBody templateBody with
  | .error _ => .ok []
  | .ok value =>
    let names := collectImportValueNames value parameters
    let known := collectAccountImports s (some stackName)
    match names.find? fun n => (known.get n).isNone with
    | some n => .error ⟨"InsufficientCapabilitiesException",
        "No export named " ++ n ++ " found."⟩
    | none => .ok names

def dropExportsImports (s : CloudFormationState) (stackName : Str) : CloudFormationState :=
  { s with
    exports := s.exports.retain fun e => e.exportingStackName ≠ stackName
    imports := (s.imports.mapValues fun _ names => names.filter (· ≠ stackName)).retain fun names =>
      !names.isEmpty }

def registerExport (stackId stackName : Str) (exports : StrMap StackExport) (o : StackOutput) :
    StrMap StackExport :=
  match o.exportName with
  | none => exports
  | some name => exports.insert name ⟨o.value, stackId, stackName⟩

def registerImport (stackName : Str) (imports : StrMap (List Str)) (name : Str) : StrMap (List Str) :=
  let entry := (imports.get name).getD []
  imports.insert name (if stackName ∈ entry then entry else entry ++ [stackName])

def syncExportsImports (s : CloudFormationState) (stackId stackName : Str) (outputs : List StackOutput)
    (importedNames : List Str) : CloudFormationState :=
  let s := dropExportsImports s stackName
  { s with
    exports := outputs.foldl (registerExport stackId stackName) s.exports
    imports := importedNames.foldl (registerImport stackName) s.imports }

def resolveTemplateOutputs (T : Templates) (s : CloudFormationState) (templateBody : Str)
    (parameters : Params) (resources : List StackResource) : List StackOutput :=
  match T.parseTemplateBody templateBody with
  | .error _ => []
  | .ok value =>
    match (value.field "Resources").bind Json.asObject with
    | none => []
    | some _ =>
      match T.parseOutputs parameters value resources (exportValues (collectAccountImports s none)) with
      | .ok outputs => outputs
      | .error _ => []

def ensureExportUniqueness (s : CloudFormationState) (stackName : Str) (outputs : List StackOutput) :
    Except ServiceError Unit :=
  let existing := collectAccountImports s (some stackName)
  match (exportNames outputs).find? fun name => (existing.get name).isSome with
  | some name => .error ⟨"AlreadyExistsException",
      "Export with name " ++ name ++ " is already exported by another stack"⟩
  | none => .ok ()

/-! ## Parameters -/

structure Env where
  region : Str
  accountId : Str

inductive StackRef
  | name
  | id
deriving DecidableEq

def stackDoesNotExist (stackRef : Str) : ServiceError :=
  ⟨"ValidationError", "Stack with id " ++ stackRef ++ " does not exist"⟩

def resolveStackRef (env : Env) (stackRef : Str) : Except ServiceError StackRef :=
  match arnResource stackRef "cloudformation" with
  | none => .ok .name
  | some resource =>
    let local? := (splitOnce ':' resource).any fun parts =>
      parts.1 = env.region ∧ (splitOnce ':' parts.2).any fun parts =>
        parts.1 = env.accountId ∧ "stack/".toList.isPrefixOf parts.2
    if local? then .ok .id else .error (stackDoesNotExist stackRef)

def arnsText (arns : List Str) : Str := (Json.arr (arns.map Json.str)).write

def insertMissing (parameters : Params) (e : Str × Str) : Params :=
  match parameters.get e.1 with
  | some _ => parameters
  | none => parameters.insert e.1 e.2

def seedParameters (env : Env) (stackId stackName : Str) (arns : List Str) (parameters : Params) : Params :=
  ([("AWS::Region".toList, env.region), ("AWS::AccountId".toList, env.accountId),
    ("AWS::StackId", stackId), ("AWS::StackName", stackName),
    ("AWS::Partition", partitionFor env.region),
    ("AWS::URLSuffix", dnsSuffix (partitionFor env.region))].foldl insertMissing
      parameters).insert "AWS::NotificationARNs" (arnsText arns)

def stackIdOf (env : Env) (stackName uuid : Str) : Str :=
  "arn:" ++ (partitionFor env.region ++ ':' :: ("cloudformation" ++ ([':'] ++
    (env.region ++ ":" ++ env.accountId ++ ":stack/" ++ stackName ++ "/" ++
      uuid))))

def isBlank (text : Str) : Bool := (trim text).isEmpty

def emptyTemplate : ParsedTemplate := ⟨none, []⟩

/-- A text that is no template document stands for the empty template. -/
def parsedOrEmpty (T : Templates) (templateBody : Str) (parameters : Params) :
    Except ServiceError ParsedTemplate :=
  match T.parseTemplate templateBody parameters with
  | .ok parsed => .ok parsed
  | .error e =>
    if T.isTemplateDocument templateBody then .error ⟨"ValidationError", e⟩ else .ok emptyTemplate

/-! ## CreateStack -/

structure CreateStackInput where
  stackName : Str
  templateBody : Str
  /-- What a `TemplateURL` that looks like one resolves to. -/
  templateUrl : Option (Except Str Str)
  parameters : Params
  notificationArns : List Str
  enableTerminationProtection : Bool

/-- The stack in its terminal status. -/
def finishCreateStack (T : Templates) (s : CloudFormationState) (stack : Stack)
    (importedNames : List Str) (provisioned : Except Str (List StackResource)) : CloudFormationState :=
  let failed reason := { s with
    stackTable := s.stackTable.modify stack.name fun st =>
      { st with status := .createFailed, statusReason := some reason } }
  match provisioned with
  | .error reason => failed reason
  | .ok resources =>
    let outputs := resolveTemplateOutputs T s stack.template stack.parameters resources
    match ensureExportUniqueness s stack.name outputs with
    | .error e => failed e.message
    | .ok () =>
      let s := { s with
        stackTable := s.stackTable.modify stack.name fun st =>
          { st with
            status := .createComplete
            statusReason := none
            resources := resources
            outputs := outputs } }
      syncExportsImports s stack.stackId stack.name outputs importedNames

/-- `CreateStack` for a name; an id is refused. -/
def createStack (T : Templates) (env : Env) (s : CloudFormationState) (input : CreateStackInput)
    (uuid : Str) (provisioned : Except Str (List StackResource)) :
    CloudFormationState × Except ServiceError Str :=
  let refused e := (s, .error e)
  match resolveStackRef env input.stackName with
  | .error e => refused e
  | .ok .id =>
    match s.liveStack input.stackName with
    | some existing => refused ⟨"AlreadyExistsException",
        "Stack [".toList ++ existing.name ++ "] already exists".toList⟩
    | none => refused (stackDoesNotExist input.stackName)
  | .ok .name =>
    if ((s.stackTable.get input.stackName).filter Stack.live).isSome then
      refused ⟨"AlreadyExistsException",
        "Stack [".toList ++ input.stackName ++ "] already exists".toList⟩
    else
    match (if isBlank input.templateBody then input.templateUrl else none).getD
      (.ok input.templateBody) with
    | .error e => refused ⟨"ValidationError", e⟩
    | .ok templateBody =>
      let stackId := stackIdOf env input.stackName uuid
      let parameters := seedParameters env stackId input.stackName input.notificationArns
        (mergeParameterDefaults T input.parameters templateBody)
      match parsedOrEmpty T templateBody parameters with
      | .error e => refused e
      | .ok parsed =>
        match validateImportValues T s input.stackName templateBody parameters with
        | .error e => refused e
        | .ok importedNames =>
          let stack : Stack := ⟨input.stackName, stackId, templateBody, .createInProgress, none, [],
            parameters, parsed.description, input.notificationArns, [],
            input.enableTerminationProtection⟩
          let s := { s with stackTable := s.stackTable.insert input.stackName stack }
          (finishCreateStack T s stack importedNames provisioned, .ok stackId)

/-! ## UpdateStack -/

inductive ResourceChangeAction
  | create
  | update
  | delete
deriving DecidableEq

structure ResourceChange where
  action : ResourceChangeAction
  logicalId : Str
  physicalId : Str
  resourceType : Str
deriving DecidableEq

/-- What an update of the resources leaves: the list, what was done, and why it stopped. -/
structure Applied where
  resources : List StackResource
  changes : List ResourceChange
  failure : Option Str

/-- The provisioner's part: the stack, the new definitions, the template, the parameters, the imports. -/
abbrev Apply := Stack → List ResourceDefinition → Str → Params → StrMap Str → Applied

structure UpdateStackInput where
  stackName : Str
  templateBody : Str
  templateUrl : Option (Except Str Str)
  parameters : Params
  /-- The parameters with `UsePreviousValue` and without a value. -/
  previousValues : List Str
  notificationArns : List Str

structure UpdateResult where
  state : CloudFormationState
  result : Except ServiceError Str
  changes : List ResourceChange

/-- Previous values of parameters; the first one that there is none for is an error. -/
def refillUsePreviousValues (previous parameters : Params) : List Str → Except ServiceError Params
  | [] => .ok parameters
  | key :: keys =>
    match previous.get key with
    | some value => refillUsePreviousValues previous (parameters.insert key value) keys
    | none => .error ⟨"ValidationError",
        "Parameter " ++ key ++ " does not exist in the stack"⟩

def effectiveInput (T : Templates) (found : Option Stack) (input : UpdateStackInput) :
    Except ServiceError (Str × Params) := do
  let previous := (found.map Stack.parameters).getD .empty
  let parameters ← refillUsePreviousValues previous
    (mergeParameterDefaults T input.parameters input.templateBody) input.previousValues
  if isBlank input.templateBody then
    match input.templateUrl.getD (.ok ((found.map Stack.template).getD [])) with
    | .error e => .error ⟨"ValidationError", e⟩
    | .ok templateBody => .ok (templateBody, mergeParameterDefaults T parameters templateBody)
  else .ok (input.templateBody, parameters)

def liveById (stackId : Str) (e : Str × Stack) : Bool := byId stackId e && e.2.live

/-- The stack with the new template, in the status that the provisioner's result gives. -/
def updatedStack (stack : Stack) (input : UpdateStackInput) (templateBody : Str) (parameters : Params)
    (parsed : ParsedTemplate) (applied : Applied) : Stack :=
  { stack with
    template := templateBody
    status := if applied.failure.isSome then .updateRollbackComplete else .updateComplete
    statusReason := applied.failure
    resources := applied.resources
    parameters := parameters
    description := parsed.description
    notificationArns :=
      if input.notificationArns.isEmpty then stack.notificationArns else input.notificationArns
    outputs := if applied.failure.isSome then stack.outputs else [] }

/-- The stack after export names have collided: what is restored, and what is not. -/
def restoredStack (stack : Stack) (e : ServiceError) (updated : Stack) : Stack :=
  { updated with
    status := .updateRollbackComplete
    statusReason := some e.message
    template := stack.template
    parameters := stack.parameters
    resources := stack.resources }

def applyUpdate (T : Templates) (apply : Apply) (s : CloudFormationState) (stack : Stack)
    (owner : Str) (input : UpdateStackInput) (templateBody : Str) (parameters : Params)
    (parsed : ParsedTemplate) (importedNames : List Str) : UpdateResult :=
  let imports := exportValues (collectAccountImports s (some input.stackName))
  let applied := apply stack parsed.resources templateBody parameters imports
  let updated := updatedStack stack input templateBody parameters parsed applied
  let s := { s with stackTable := s.stackTable.adjust (refersTo input.stackName) fun _ => updated }
  match applied.failure with
  | some e => ⟨s, .error ⟨"InsufficientCapabilitiesException", e⟩, applied.changes⟩
  | none =>
    let outputs := resolveTemplateOutputs T s templateBody parameters applied.resources
    match ensureExportUniqueness s owner outputs with
    | .error e =>
      let restored := restoredStack stack e
      ⟨{ s with stackTable := s.stackTable.adjust (liveById stack.stackId) restored }, .error e,
        applied.changes⟩
    | .ok () =>
      let s := { s with
        stackTable := s.stackTable.adjust (liveById stack.stackId) fun st => { st with outputs := outputs } }
      ⟨syncExportsImports s stack.stackId owner outputs importedNames, .ok stack.stackId,
        applied.changes⟩

/-- An update without a template: only parameters and notification ARNs are taken over. -/
def metadataUpdate (input : UpdateStackInput) (parameters : Params) (stack : Stack) : Stack :=
  { stack with
    parameters := if parameters.entries.isEmpty then stack.parameters else parameters
    notificationArns :=
      if input.notificationArns.isEmpty then stack.notificationArns else input.notificationArns
    status := .updateComplete
    statusReason := none }

def ownerName (found : Option Stack) (input : UpdateStackInput) : Str :=
  let name := (found.map Stack.name).getD []
  if name.isEmpty then input.stackName else name

def updateParameters (env : Env) (s : CloudFormationState) (found : Option Stack)
    (input : UpdateStackInput) (parameters : Params) : Params :=
  let foundId := (found.map Stack.stackId).getD []
  let arns := if input.notificationArns.isEmpty then
      ((s.stackTable.entries.find? (byId foundId)).map fun e => e.2.notificationArns).getD []
    else input.notificationArns
  seedParameters env foundId (ownerName found input) arns parameters

def checkUpdate (T : Templates) (s : CloudFormationState) (owner : Str) (input : UpdateStackInput)
    (templateBody : Str) (parameters : Params) : Except ServiceError (ParsedTemplate × List Str) := do
  let parsed ← parsedOrEmpty T templateBody parameters
  let importedNames ← validateImportValues T s input.stackName templateBody parameters
  ensureExportUniqueness s owner (resolveTemplateOutputs T s templateBody parameters [])
  pure (parsed, importedNames)

/-- `UpdateStack`; a stack that is not there is reported as updated. -/
def updateStack (T : Templates) (env : Env) (apply : Apply) (s : CloudFormationState)
    (input : UpdateStackInput) (uuid : Str) : UpdateResult :=
  let found := s.liveStack input.stackName
  let foundId := (found.map Stack.stackId).getD []
  let refused e : UpdateResult := ⟨s, .error e, []⟩
  match effectiveInput T found input with
  | .error e => refused e
  | .ok (templateBody, parameters) =>
    if !foundId.isEmpty ∧ s.stackTable.entries.any fun e =>
        byId foundId e ∧ e.2.status = .reviewInProgress then
      refused ⟨"ValidationError", "Stack [" ++ input.stackName ++
        "] is in REVIEW_IN_PROGRESS state and can not be updated."⟩
    else if isBlank templateBody ∧ !foundId.isEmpty ∧ s.stackTable.entries.any fun e =>
        byId foundId e ∧ (e.2.status = .createComplete ∨ e.2.status = .updateComplete) then
      ⟨{ s with stackTable := s.stackTable.adjust (byId foundId) (metadataUpdate input parameters) },
        .ok foundId, []⟩
    else
      let parameters := updateParameters env s found input parameters
      match checkUpdate T s (ownerName found input) input templateBody parameters with
      | .error e => refused e
      | .ok (parsed, importedNames) =>
        match found with
        | none =>
          ⟨s, .ok (if foundId.isEmpty then stackIdOf env input.stackName uuid else foundId), []⟩
        | some stack =>
          applyUpdate T apply s stack (ownerName found input) input templateBody parameters parsed
            importedNames

/-! ## DeleteStack -/

def consumersOf (s : CloudFormationState) (stackName name : Str) : List Str :=
  ((s.imports.get name).getD []).filter (· ≠ stackName)

def deleteStack (s : CloudFormationState) (stackRef : Str) : CloudFormationState × Except ServiceError Unit :=
  match s.liveStack stackRef with
  | none => (s, .ok ())
  | some stack =>
    if stack.enableTerminationProtection then
      (s, .error ⟨"ValidationError", "Stack [" ++ stack.name ++
        "] cannot be deleted while TerminationProtection is enabled"⟩)
    else
      let owned := (s.exports.entries.filter fun e => e.2.exportingStackName = stack.name).map Prod.fst
      match owned.find? fun name => !(consumersOf s stack.name name).isEmpty with
      | some name => (s, .error ⟨"TokenAlreadyExistsException", "Export " ++ name ++
          " cannot be deleted as it is in use by " ++
            List.intercalate ", " (consumersOf s stack.name name)⟩)
      | none =>
        let s := { s with
          stackTable := s.stackTable.adjust (byId stack.stackId) fun st =>
            { st with status := .deleteComplete, statusReason := none, resources := [], outputs := [] } }
        (dropExportsImports s stack.name, .ok ())

/-! ## What a request can do -/

section

variable {T : Templates} {env : Env} {s : CloudFormationState} {uuid : Str}

/-- A create is refused, or finishes a stack whose name is free and whose imports are there. -/
theorem createStack_cases (input : CreateStackInput) (provisioned : Except Str (List StackResource)) :
    (createStack T env s input uuid provisioned).1 = s ∨
      ∃ stack templateBody importedNames, stack.name = input.stackName ∧
        stack.stackId = stackIdOf env input.stackName uuid ∧ stack.status = .createInProgress ∧
        stack.outputs = [] ∧ resolveStackRef env stack.name = .ok .name ∧
        (s.stackTable.get stack.name).filter Stack.live = none ∧
        validateImportValues T s stack.name templateBody stack.parameters = .ok importedNames ∧
        (createStack T env s input uuid provisioned).1 =
          finishCreateStack T { s with stackTable := s.stackTable.insert stack.name stack } stack
            importedNames provisioned := by
  unfold createStack
  dsimp only
  split
  · exact .inl rfl
  · split <;> exact .inl rfl
  · next hr =>
    split
    · exact .inl rfl
    · next hf =>
      split
      · exact .inl rfl
      · split
        · exact .inl rfl
        · split
          · exact .inl rfl
          · next hi =>
            exact .inr ⟨_, _, _, rfl, rfl, rfl, rfl, hr, not_isSome_iff_eq_none.mp hf, hi, rfl⟩

/-- An update is refused, changes metadata only, or applies a template that has been checked. -/
theorem updateStack_cases (apply : Apply) (input : UpdateStackInput) :
    ((updateStack T env apply s input uuid).state = s ∧ (updateStack T env apply s input uuid).changes = []) ∨
      ∃ stack templateBody parameters, s.liveStack input.stackName = some stack ∧
        effectiveInput T (some stack) input = .ok (templateBody, parameters) ∧
        (((updateStack T env apply s input uuid).state =
            { s with stackTable :=
                s.stackTable.adjust (byId stack.stackId) (metadataUpdate input parameters) } ∧
            (updateStack T env apply s input uuid).changes = []) ∨ ∃ parsed importedNames,
            checkUpdate T s (ownerName (some stack) input) input templateBody
              (updateParameters env s (some stack) input parameters) = .ok (parsed, importedNames) ∧
            updateStack T env apply s input uuid =
              applyUpdate T apply s stack (ownerName (some stack) input) input templateBody
                (updateParameters env s (some stack) input parameters) parsed importedNames) := by
  unfold updateStack
  dsimp only
  generalize hf : s.liveStack input.stackName = found
  split
  · exact .inl ⟨rfl, rfl⟩
  · next templateBody parameters he =>
    split
    · exact .inl ⟨rfl, rfl⟩
    · split
      · next hm =>
        rcases found with _ | stack
        · exact absurd hm.2.1 (by simp)
        · exact .inr ⟨stack, templateBody, parameters, rfl, he, .inl ⟨rfl, rfl⟩⟩
      · split
        · exact .inl ⟨rfl, rfl⟩
        · next parsed importedNames hc =>
          rcases found with _ | stack
          · exact .inl ⟨rfl, rfl⟩
          · exact .inr ⟨stack, templateBody, parameters, rfl, he, .inr ⟨parsed, importedNames, hc, rfl⟩⟩

/-- An update that has passed the checks stops at a resource, meets an export of another stack, or is
complete. -/
theorem applyUpdate_cases (apply : Apply) (stack : Stack) (owner : Str) (input : UpdateStackInput)
    (templateBody : Str) (parameters : Params) (parsed : ParsedTemplate) (importedNames : List Str) :
    let applied := apply stack parsed.resources templateBody parameters
      (exportValues (collectAccountImports s (some input.stackName)))
    let updated := s.stackTable.adjust (refersTo input.stackName) fun _ =>
      updatedStack stack input templateBody parameters parsed applied
    let outputs := resolveTemplateOutputs T s templateBody parameters applied.resources
    let r := applyUpdate T apply s stack owner input templateBody parameters parsed importedNames
    r.changes = applied.changes ∧
      ((∃ e, applied.failure = some e ∧ r.state = { s with stackTable := updated }) ∨
        (applied.failure = none ∧ ∃ e, ensureExportUniqueness s owner outputs = .error e ∧ r.state = { s with
            stackTable := updated.adjust (liveById stack.stackId) (restoredStack stack e) }) ∨
        (applied.failure = none ∧ ensureExportUniqueness s owner outputs = .ok () ∧ r.state =
          syncExportsImports
            { s with
              stackTable := updated.adjust (liveById stack.stackId) fun st =>
                { st with outputs := outputs } }
            stack.stackId owner outputs importedNames)) := by
  intro applied updated outputs r
  have hr : r = applyUpdate T apply s stack owner input templateBody parameters parsed importedNames :=
    rfl
  unfold applyUpdate at hr
  dsimp only at hr
  split at hr
  · next e he => exact ⟨by rw [hr], .inl ⟨e, he, by rw [hr]⟩⟩
  · next he =>
    split at hr
    · next e hc => exact ⟨by rw [hr], .inr (.inl ⟨he, e, hc, by rw [hr]⟩)⟩
    · next hu => exact ⟨by rw [hr], .inr (.inr ⟨he, hu, by rw [hr]; rfl⟩)⟩

theorem deleteStack_cases (stackRef : Str) : (deleteStack s stackRef).1 = s ∨
      ∃ stack, s.liveStack stackRef = some stack ∧
        (∀ n e, s.exports.get n = some e → e.exportingStackName = stack.name →
          consumersOf s stack.name n = []) ∧ (deleteStack s stackRef).1 = dropExportsImports { s with
            stackTable := s.stackTable.adjust (byId stack.stackId) fun st =>
              { st with
                status := .deleteComplete
                statusReason := none
                resources := []
                outputs := [] } } stack.name := by
  unfold deleteStack
  split
  · exact .inl rfl
  · next stack hs =>
    split
    · exact .inl rfl
    · dsimp only
      split
      · exact .inl rfl
      · next hu =>
        refine .inr ⟨stack, hs, fun n e he ho => ?_, rfl⟩
        have hn : n ∈ (s.exports.entries.filter fun e => e.2.exportingStackName = stack.name).map
            Prod.fst :=
          List.mem_map.mpr ⟨(n, e), List.mem_filter.mpr ⟨OrdMap.mem_entries.mpr he, by simpa using ho⟩,
            rfl⟩
        simpa using List.find?_eq_none.mp hu n hn

theorem validateImportValues_ok {stackName templateBody : Str} {parameters : Params} {names : List Str}
    (h : validateImportValues T s stackName templateBody parameters = .ok names) {n : Str}
    (hn : n ∈ names) : ∃ e, s.exports.get n = some e ∧ stackName ≠ e.exportingStackName ∧
      stackName ≠ e.exportingStackId := by
  unfold validateImportValues at h
  split at h
  · cases h
    cases hn
  · dsimp only at h
    split at h
    · cases h
    · next hk =>
      cases h
      have hs := List.find?_eq_none.mp hk n hn
      rw [isNone_iff_eq_none, ← ne_eq, ne_none_iff_exists'] at hs
      obtain ⟨e, he⟩ := hs
      rw [collectAccountImports, OrdMap.get_retain, filter_eq_some_iff] at he
      exact ⟨e, he.1, by simpa using he.2⟩

theorem ensureExportUniqueness_ok {stackName : Str} {outputs : List StackOutput} :
    ensureExportUniqueness s stackName outputs = .ok () ↔ ∀ n ∈ exportNames outputs, ∀ e,
      s.exports.get n = some e → e.exportingStackName = stackName ∨ e.exportingStackId = stackName := by
  have hiff : ensureExportUniqueness s stackName outputs = .ok () ↔ (exportNames outputs).find? (fun name =>
      ((collectAccountImports s (some stackName)).get name).isSome) = none := by
    unfold ensureExportUniqueness
    dsimp only
    split <;> simp [*]
  rw [hiff, List.find?_eq_none]
  refine forall₂_congr fun n _ => ?_
  rw [collectAccountImports, OrdMap.get_retain]
  cases s.exports.get n with
  | none => simp
  | some e =>
    simp only [some.injEq, forall_eq', @eq_comm _ _ stackName]
    by_cases hn : stackName = e.exportingStackName <;> simp [hn, Option.filter]

end

end Fakecloud.Cloudformation

import Fakecloud.Iam.Condition

/-!
# The policy evaluator

`evaluator.rs`: one pass over the statements of a list of policies (`evaluateInnerScoped`), the
intersection of the identity policies with the optional boundary, session and service-control
layers, and the combination with a resource policy.
-/

namespace Fakecloud.Iam

open Text Fakecloud.Core Condition

/-! ## Parsed policies -/

inductive Effect
  | allow | deny
  deriving DecidableEq

inductive ActionMatch
  | action (patterns : List Str)
  | notAction (patterns : List Str)
  deriving DecidableEq

inductive ResourceMatch
  | resource (patterns : List Str)
  | notResource (patterns : List Str)
  /-- neither key was given -/
  | implicit
  deriving DecidableEq

/-- A single reference of a `Principal` element. -/
inductive PrincipalRef
  | anyAws
  | awsAccountRoot (account : Str)
  | awsArn (arn : Str)
  | service (service : Str)
  | federated (provider : Str)
  | canonicalUser (id : Str)
  deriving DecidableEq

inductive PrincipalPattern
  | none
  | principal (refs : List PrincipalRef)
  | notPrincipal (refs : List PrincipalRef)
  deriving DecidableEq

structure ParsedStatement where
  effect : Effect
  action : ActionMatch
  resource : ResourceMatch
  condition : Option CompiledCondition
  principal : PrincipalPattern
  /-- the policy has the version that expands policy variables -/
  expandsVariables : Bool
  deriving DecidableEq

structure PolicyDocument where
  statements : List ParsedStatement
  deriving DecidableEq

structure EvalRequest where
  principal : Principal
  action : Str
  resource : Str
  context : ConditionContext

/-! ## Matching a statement -/

/-- The plain glob matcher of actions and resources. -/
def globMatch (pattern value : Str) : Bool := Glob.twoPointer charTokens pattern value

/-- Action patterns are matched on both sides of the colon, without letter case. -/
def iamGlobMatch (pattern value : Str) (isAction : Bool) : Bool :=
  match isAction, splitOnce ':' pattern, splitOnce ':' value with
  | true, some (pSvc, pAct), some (vSvc, vAct) =>
    globMatch (lower pSvc) (lower vSvc) && globMatch (lower pAct) (lower vAct)
  | _, _, _ => globMatch pattern value

def actionMatches (action : ActionMatch) (requestAction : Str) : Bool :=
  match action with
  | .action patterns => patterns.any (iamGlobMatch · requestAction true)
  -- an empty `NotAction` matches nothing
  | .notAction patterns =>
    !patterns.isEmpty && patterns.all fun p => !iamGlobMatch p requestAction true

def resourceMatches (F : Formats) (statement : ParsedStatement) (requestResource : Str)
    (ctx : ConditionContext) : Bool :=
  let patternMatches := fun p =>
    if statement.expandsVariables && PolicyVariables.hasVariables p then
      (PolicyVariables.resourcePattern F ctx p).any (PolicyVariables.glob · requestResource false)
    else iamGlobMatch p requestResource false
  match statement.resource with
  | .resource patterns => patterns.any patternMatches
  | .notResource patterns => !patterns.isEmpty && patterns.all fun p => !patternMatches p
  | .implicit => true

def principalIsCanonicalUser (principal : Principal) (id : Str) : Bool :=
  !id.isEmpty && id.all isHexDigit && eqIgnoreCase principal.userId id

def principalIsFederated (principal : Principal) (provider : Str) : Bool :=
  principal.principalType == .federatedUser && principal.arn == provider

def arnDenotesService (arn service : Str) : Bool :=
  containsStr arn ("aws-service-role/" ++ service)

def principalIsService (principal : Principal) (service : Str) : Bool :=
  match principal.principalType with
  | .service => eqIgnoreCase principal.arn service
  | .assumedRole => arnDenotesService principal.arn service
  | _ => false

/-- One reference against the caller; `ignoreAccountWide` leaves out the references to a whole
account or to everyone. -/
def refMatches (principal : Principal) (ignoreAccountWide : Bool) : PrincipalRef → Bool
  | .anyAws => !ignoreAccountWide
  | .awsAccountRoot account => !ignoreAccountWide && principal.accountId == account
  | .awsArn arn => principal.arn == arn
  | .service service => principalIsService principal service
  | .federated provider => principalIsFederated principal provider
  | .canonicalUser id => principalIsCanonicalUser principal id

def principalMatchesScoped (refs : List PrincipalRef) (principal : Principal)
    (ignoreAccountWide : Bool) : Bool :=
  refs.any (refMatches principal ignoreAccountWide)

def principalMatches (refs : List PrincipalRef) (principal : Principal) : Bool :=
  principalMatchesScoped refs principal false

def principalGate (pattern : PrincipalPattern) (principal : Principal)
    (isResourcePolicy ignoreAccountWide : Bool) : Bool :=
  match pattern with
  | .none => !isResourcePolicy
  | .principal refs => principalMatchesScoped refs principal ignoreAccountWide
  -- no recognised reference: the statement does not apply
  | .notPrincipal refs => !refs.isEmpty && !principalMatches refs principal

/-- The four tests a statement has to pass before its effect counts. -/
def statementApplies (F : Formats) (request : EvalRequest)
    (isResourcePolicy ignoreAccountWide : Bool) (statement : ParsedStatement) : Bool :=
  principalGate statement.principal request.principal isResourcePolicy ignoreAccountWide &&
    actionMatches statement.action request.action &&
    resourceMatches F statement request.resource request.context &&
    statement.condition.all fun c =>
      c.matchesForEffect F request.context (statement.effect == .deny)

/-! ## Evaluation -/

/-- The loop over the statements; `allowed` remembers an `Allow` seen so far. -/
def scanStatements (F : Formats) (request : EvalRequest)
    (isResourcePolicy ignoreAccountWide : Bool) : List ParsedStatement → Bool → Decision
  | [], allowed => if allowed then .allow else .implicitDeny
  | statement :: rest, allowed =>
    if statementApplies F request isResourcePolicy ignoreAccountWide statement then
      match statement.effect with
      | .deny => .explicitDeny
      | .allow => scanStatements F request isResourcePolicy ignoreAccountWide rest true
    else scanStatements F request isResourcePolicy ignoreAccountWide rest allowed

def evaluateInnerScoped (F : Formats) (policies : List PolicyDocument) (request : EvalRequest)
    (isResourcePolicy ignoreAccountWide : Bool) : Decision :=
  scanStatements F request isResourcePolicy ignoreAccountWide
    (policies.flatMap PolicyDocument.statements) false

def evaluateInner (F : Formats) (policies : List PolicyDocument) (request : EvalRequest)
    (isResourcePolicy : Bool) : Decision :=
  evaluateInnerScoped F policies request isResourcePolicy false

/-- The loop over a chain of service control policies, each a gate of its own. -/
def scanScps (F : Formats) (request : EvalRequest) : List PolicyDocument → Bool → Decision
  | [], allAllow => if allAllow then .allow else .implicitDeny
  | doc :: rest, allAllow =>
    match evaluateInner F [doc] request false with
    | .explicitDeny => .explicitDeny
    | .allow => scanScps F request rest allAllow
    | .implicitDeny => scanScps F request rest false

def evaluateScpChain (F : Formats) (scps : List PolicyDocument) (request : EvalRequest) : Decision :=
  if scps.isEmpty then .implicitDeny else scanScps F request scps true

/-- Combine an identity-side decision with the layers that are present. -/
def intersectLayers (F : Formats) (identityDecision : Decision)
    (boundary session scps : Option (List PolicyDocument)) (request : EvalRequest) : Decision :=
  let scpDecision := scps.map fun docs => evaluateScpChain F docs request
  let boundaryDecision := boundary.map fun policies => evaluateInner F policies request false
  let sessionDecision := session.map fun policies => evaluateInner F policies request false
  if identityDecision = .explicitDeny then .explicitDeny
  else if scpDecision = some .explicitDeny then .explicitDeny
  else if boundaryDecision = some .explicitDeny then .explicitDeny
  else if sessionDecision = some .explicitDeny then .explicitDeny
  else if identityDecision.isAllow && boundaryDecision.all Decision.isAllow &&
      sessionDecision.all Decision.isAllow && scpDecision.all Decision.isAllow then .allow
  else .implicitDeny

def evaluateWithGatesAndScps (F : Formats) (identity : List PolicyDocument)
    (boundary session scps : Option (List PolicyDocument)) (request : EvalRequest) : Decision :=
  intersectLayers F (evaluateInner F identity request false) boundary session scps request

/-- Identity policies alone. -/
def evaluate (F : Formats) (policies : List PolicyDocument) (request : EvalRequest) : Decision :=
  evaluateWithGatesAndScps F policies none none none request

/-- A resource policy alone: the caller has no identity policies. -/
def evaluateResourcePolicyOnly (F : Formats) (policy : PolicyDocument) (request : EvalRequest) : Decision :=
  evaluateInner F [policy] request true

/-- A key policy decides for its account: it grants directly, or delegates to the identity side. -/
def evaluateKmsSameAccount (F : Formats) (keyPolicy : PolicyDocument) (identityGated : Decision)
    (request : EvalRequest) : Decision :=
  let full := evaluateInnerScoped F [keyPolicy] request true false
  if full = .explicitDeny then .explicitDeny
  else if evaluateInnerScoped F [keyPolicy] request true true = .allow then .allow
  else if full = .allow ∧ identityGated = .allow then .allow
  else .implicitDeny

/-- The action belongs to the `kms` service, in any letter case. -/
def isKms (action : Str) : Bool := (splitOnce ':' action).any fun sa => eqIgnoreCase sa.1 "kms"

/-- The decision of the resource policy; without one nothing is granted there. -/
def resourceDecision (F : Formats) (request : EvalRequest) : Option PolicyDocument → Decision
  | some policy => evaluateInner F [policy] request true
  | none => .implicitDeny

/-- Both sides have to grant when the accounts differ, either one otherwise. -/
def combineWithResource (F : Formats) (identityGated : Decision)
    (resourcePolicy : Option PolicyDocument) (request : EvalRequest) (sameAccount : Bool) : Decision :=
  let resource := resourceDecision F request resourcePolicy
  if resource = .explicitDeny then .explicitDeny
  else if (if sameAccount then identityGated.isAllow || resource.isAllow
      else identityGated.isAllow && resource.isAllow) then .allow
  else .implicitDeny

def evaluateWithResourcePolicyAndGatesAndScps (F : Formats) (identityPolicies : List PolicyDocument)
    (boundary session scps : Option (List PolicyDocument)) (resourcePolicy : Option PolicyDocument)
    (request : EvalRequest) (resourceAccountId : Str) : Decision :=
  let identityRaw := evaluateInner F identityPolicies request false
  if identityRaw = .explicitDeny then .explicitDeny
  else
    let identityGated := intersectLayers F identityRaw boundary session scps request
    if identityGated = .explicitDeny then .explicitDeny
    else
      let sameAccount := request.principal.accountId == resourceAccountId
      match resourcePolicy with
      | some policy =>
        if sameAccount && isKms request.action then
          evaluateKmsSameAccount F policy identityGated request
        else combineWithResource F identityGated (some policy) request sameAccount
      | none =>
        if sameAccount then identityGated
        else combineWithResource F identityGated none request sameAccount

end Fakecloud.Iam

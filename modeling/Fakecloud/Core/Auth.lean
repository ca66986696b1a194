import Fakecloud.Lib.Text

/-!
# Callers, IAM actions and the condition context

The authentication and authorization vocabulary of `fakecloud-core` (`auth.rs`): the principal a
credential resolves to, one IAM action on one resource, the reserved bypass access keys, and the
request context that the `Condition` blocks of a policy are evaluated against.

Dates, addresses and floating-point numbers enter the evaluation only through their text forms.
`Formats` is what the model takes of those libraries; every result holds for any choice of it.
Hash maps and ordered maps are association lists in iteration order.
-/

namespace Fakecloud.Core

open Text

inductive IpAddr
  | v4 (bits : BitVec 32)
  | v6 (bits : BitVec 128)
  deriving DecidableEq

/-- The text forms of dates, addresses and numbers.  A date is the number of nanoseconds since the
Unix epoch. -/
structure Formats where
  /-- `to_rfc3339_opts(SecondsFormat::Secs, true)` -/
  showDate : ℤ → Str
  /-- `DateTime::parse_from_rfc3339`, converted to UTC -/
  parseRfc3339 : Str → Option ℤ
  /-- `DateTime::from_timestamp(secs, 0)` -/
  fromTimestamp : ℤ → Option ℤ
  /-- `IpAddr::to_string` -/
  showIp : IpAddr → Str
  /-- `str::parse::<IpAddr>` -/
  parseIp : Str → Option IpAddr
  /-- The values of `f64` -/
  Number : Type
  /-- `str::parse::<f64>` -/
  parseNumber : Str → Option Number
  /-- `==` on `f64` -/
  numberEq : Number → Number → Bool
  /-- `<` on `f64` -/
  numberLt : Number → Number → Bool
  /-- `<=` on `f64` -/
  numberLe : Number → Number → Bool

def Formats.silent : Formats where
  showDate _ := []
  parseRfc3339 _ := none
  fromTimestamp _ := none
  showIp _ := []
  parseIp _ := none
  Number := Unit
  parseNumber _ := none
  numberEq _ _ := true
  numberLt _ _ := false
  numberLe _ _ := true

/-! ## Callers -/

inductive PrincipalType
  | user | assumedRole | federatedUser | root | unknown | service
  deriving DecidableEq

def PrincipalType.fromArn (arn : Str) : PrincipalType :=
  if List.isSuffixOf ":root" arn then .root
  else if containsStr arn ":user/" then .user
  else if containsStr arn ":assumed-role/" then .assumedRole
  else if containsStr arn ":federated-user/" then .federatedUser
  else .unknown

/-- Identity of the caller, once its credentials have been resolved. -/
structure Principal where
  arn : Str
  userId : Str
  accountId : Str
  principalType : PrincipalType
  sourceIdentity : Option Str
  tags : Option (List (Str × Str))
  deriving DecidableEq

/-- Root bypasses the evaluation of identity policies. -/
def Principal.isRoot (p : Principal) : Bool :=
  p.principalType == .root || List.isSuffixOf ":root" p.arn

structure ResolvedCredential where
  secretAccessKey : Str
  sessionToken : Option Str
  principal : Principal
  sessionPolicies : List Str
  mfaPresent : Bool
  tokenIssuedAt : Option ℤ
  federatedProvider : Option Str

/-- Access keys that begin with `test` skip signature verification and enforcement. -/
def isRootBypass (accessKeyId : Str) : Bool :=
  eqIgnoreCase ((trim accessKeyId).take 4) "test"

/-- The AWS-owned principal of a request that the server itself issues in process.  It travels beside
the request and is never read off the wire. -/
inductive InternalCaller
  /-- a service principal that acts for one of its resources -/
  | service (service sourceArn sourceAccount : Str)
  /-- an identity that a service owns outside every customer account -/
  | serviceOwned (arn : Str) (canonicalUserId : Option Str) (actingAccount : Str)
  deriving DecidableEq

namespace InternalCaller

/-- The principal the request is evaluated as; neither kind carries an account. -/
def principal : InternalCaller → Principal
  | service name _ _ => ⟨name, name, [], .service, none, none⟩
  | serviceOwned arn canonicalUserId _ =>
    ⟨arn, canonicalUserId.getD [], [], PrincipalType.fromArn arn, none, none⟩

/-- The customer account the request is made for. -/
def actingAccount : InternalCaller → Str
  | service _ _ sourceAccount => sourceAccount
  | serviceOwned _ _ acting => acting

def conditionKeys : InternalCaller → List (Str × List Str)
  | service name sourceArn sourceAccount =>
    [("aws:PrincipalIsAWSService", ["true"]), ("aws:PrincipalServiceName", [name]),
      ("aws:SourceAccount", [sourceAccount]), ("aws:SourceArn", [sourceArn])]
  | serviceOwned _ _ _ => [("aws:PrincipalIsAWSService", ["false"])]

end InternalCaller

inductive IamMode
  /-- policies are not evaluated -/
  | off
  /-- denials are logged and the request proceeds -/
  | soft
  /-- denials reject the request -/
  | strict
  deriving DecidableEq

def IamMode.isEnabled (m : IamMode) : Bool := m != .off

def IamMode.isStrict (m : IamMode) : Bool := m == .strict

/-! ## Actions and decisions -/

structure IamAction where
  service : Str
  action : Str
  resource : Str
  deriving DecidableEq

/-- The `service:Action` string that policies are matched against. -/
def IamAction.actionString (a : IamAction) : Str := a.service ++ ':' :: a.action

def IamAction.passRole (roleArn : Str) : IamAction := ⟨"iam", "PassRole", roleArn⟩

def IamAction.isPassRole (a : IamAction) : Bool := a.service == "iam" && a.action == "PassRole"

inductive Decision
  | allow | implicitDeny | explicitDeny
  deriving DecidableEq

def Decision.isAllow (d : Decision) : Bool := d == .allow

/-! ## The condition context -/

/-- Request-time values for the `Condition` blocks of policies. -/
structure ConditionContext where
  awsUsername : Option Str := none
  awsUserid : Option Str := none
  awsPrincipalArn : Option Str := none
  awsPrincipalAccount : Option Str := none
  awsPrincipalType : Option Str := none
  awsSourceIp : Option IpAddr := none
  awsCurrentTime : Option ℤ := none
  awsEpochTime : Option ℤ := none
  awsSecureTransport : Option Bool := none
  awsRequestedRegion : Option Str := none
  awsMfaPresent : Option Bool := none
  awsMfaAgeSeconds : Option ℤ := none
  awsCalledVia : List Str := []
  awsSourceVpce : Option Str := none
  awsSourceVpc : Option Str := none
  awsVpcSourceIp : Option IpAddr := none
  awsFederatedProvider : Option Str := none
  awsTokenIssueTime : Option ℤ := none
  serviceKeys : List (Str × List Str) := []
  resourceTags : Option (List (Str × Str)) := none
  requestTags : Option (List (Str × Str)) := none
  principalTags : Option (List (Str × Str)) := none

/-- Two names of one condition key: the part up to the first `/` compares without letter case, the
rest exactly. -/
def sameConditionKey (a b : Str) : Bool :=
  let cut := fun k : Str => k.span (· ≠ '/')
  eqIgnoreCase (cut a).1 (cut b).1 && (cut a).2 == (cut b).2

namespace ConditionContext

/-- The tag-based keys.  `none`: not such a key; `some none`: no value for it. -/
def tagged (ctx : ConditionContext) (key : Str) : Option (Option (List Str)) :=
  let low := lower key
  let tag := fun (tags : Option (List (Str × Str))) (n : ℕ) =>
    some ((tags.bind (List.lookup (key.drop n))).map fun v => [v])
  if List.isPrefixOf "aws:resourcetag/" low then tag ctx.resourceTags 16
  else if List.isPrefixOf "aws:requesttag/" low then tag ctx.requestTags 15
  else if List.isPrefixOf "aws:principaltag/" low then tag ctx.principalTags 17
  else if low == "aws:tagkeys" then some (ctx.requestTags.map fun tags => tags.map Prod.fst)
  else none

def showBool (b : Bool) : Str := if b then "true" else "false"

def showInt (n : ℤ) : Str := (toString n).toList

/-- The values with a field of their own. -/
def typed (F : Formats) (ctx : ConditionContext) (low : Str) : Option (List Str) :=
  let one := Option.map fun v : Str => [v]
  if low == "aws:username" then one ctx.awsUsername
  else if low == "aws:userid" then one ctx.awsUserid
  else if low == "aws:principalarn" then one ctx.awsPrincipalArn
  else if low == "aws:principalaccount" then one ctx.awsPrincipalAccount
  else if low == "aws:principaltype" then one ctx.awsPrincipalType
  else if low == "aws:sourceip" then one (ctx.awsSourceIp.map F.showIp)
  else if low == "aws:currenttime" then one (ctx.awsCurrentTime.map F.showDate)
  else if low == "aws:epochtime" then one (ctx.awsEpochTime.map showInt)
  else if low == "aws:securetransport" then one (ctx.awsSecureTransport.map showBool)
  else if low == "aws:requestedregion" then one ctx.awsRequestedRegion
  else if low == "aws:multifactorauthpresent" then one (ctx.awsMfaPresent.map showBool)
  else if low == "aws:multifactorauthage" then one (ctx.awsMfaAgeSeconds.map showInt)
  else if low == "aws:calledvia" then
    if ctx.awsCalledVia.isEmpty then none else some ctx.awsCalledVia
  else if low == "aws:sourcevpce" then one ctx.awsSourceVpce
  else if low == "aws:sourcevpc" then one ctx.awsSourceVpc
  else if low == "aws:vpcsourceip" then one (ctx.awsVpcSourceIp.map F.showIp)
  else if low == "aws:federatedprovider" then one ctx.awsFederatedProvider
  else if low == "aws:tokenissuetime" then one (ctx.awsTokenIssueTime.map F.showDate)
  else none

/-- The values of a condition key in the request; `none` when the key is not populated. -/
def lookup (F : Formats) (ctx : ConditionContext) (key : Str) : Option (List Str) :=
  let entry := fun same : Str → Bool => (ctx.serviceKeys.find? fun e => same e.1).map Prod.snd
  match ctx.tagged key with
  | some values => values <|> entry (sameConditionKey · key)
  | none =>
    ctx.typed F (lower key) <|> entry (· == lower key) <|> entry (eqIgnoreCase · key)

end ConditionContext

end Fakecloud.Core

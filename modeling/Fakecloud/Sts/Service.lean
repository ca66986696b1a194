import Fakecloud.Iam.Accounts
import Fakecloud.Iam.Evaluator

/-!
# The security token service

`sts_service/assume.rs` and `session.rs`: the handlers that mint temporary credentials.  A handler gets the
accounts, the request, the server's clock and the random parts of the credential, and returns the accounts
with the new credential in them.  What it replies besides the credential is left out.
-/

namespace Fakecloud.Sts

open Text Fakecloud.Core Fakecloud.Aws Fakecloud.Iam

/-! ## What the handlers read -/

structure StsCredentials where
  accessKeyId : Str
  secretAccessKey : Str
  sessionToken : Str

structure JwtClaims where
  iss : Option Str
  aud : List Str
  sub : Option Str
  /-- the `exp` claim, in seconds -/
  exp : Option ℤ
  amr : Option (List Str)

structure SamlClaims where
  issuer : Option Str
  audience : Option Str

/-- Parsers of documents and tokens, and the collaborators of the service. -/
structure Tools where
  formats : Formats
  parsePolicy : Str → PolicyDocument
  isJsonObject : Str → Bool
  /-- `verify_totp`: `none` when the seed is unknown -/
  verifyTotp : (seed code : Str) → (now : ℤ) → Option Bool
  decodeJwt : Str → Option JwtClaims
  extractSamlSessionName : Str → Option Str
  extractSamlClaims : Str → SamlClaims
  expectedSamlAudience : Str → Option Str
  debugAudience : Option Str → Str
  /-- `can_assume_root_into`, when an organization is wired in -/
  canAssumeRootInto : Option ((caller target : Str) → Bool)

/-! ## Checks -/

def require (ok : Bool) (rejection : Rejection) : Except Rejection Unit :=
  if ok then .ok () else .error rejection

@[simp] theorem require_eq_ok {ok : Bool} {rejection : Rejection} {u : Unit} :
    require ok rejection = .ok u ↔ ok = true := by
  unfold require
  split_ifs with h <;> simp [h]

def orReject {α : Type} (rejection : Rejection) (o : Option α) : Except Rejection α :=
  o.elim (.error rejection) .ok

@[simp] theorem orReject_eq_ok {α : Type} {rejection : Rejection} {o : Option α} {v : α} :
    orReject rejection o = .ok v ↔ o = some v := by
  cases o <;> simp [orReject]

def showNat (n : ℕ) : Str := (toString n).toList

def missingParameter (name : Str) : Rejection :=
  ⟨400, "MissingParameter", "The request must contain the parameter " ++ name⟩

def lengthMessage (field : Str) (min max : ℕ) : Str :=
  "Value at '" ++ field ++
    "' failed to satisfy constraint: Member must have length between " ++ showNat min ++
    " and " ++ showNat max

def validateStringLength (field value : Str) (min max : ℕ) : Except Rejection Unit :=
  require (decide (min ≤ (utf8 value).length) && decide ((utf8 value).length ≤ max))
    ⟨400, "ValidationError", lengthMessage field min max⟩

/-- `validate_optional_string_length`, which keeps the code of the JSON protocols. -/
def validateOptionalStringLength (field : Str) (value : Option Str) (min max : ℕ) : Except Rejection Unit :=
  require (value.all fun v => decide (min ≤ (utf8 v).length) && decide ((utf8 v).length ≤ max))
    ⟨400, "ValidationException", lengthMessage field min max⟩

def validateRange (field : Str) (value min max : ℤ) : Except Rejection Unit :=
  require (decide (min ≤ value) && decide (value ≤ max))
    ⟨400, "ValidationError", "Value '" ++ ConditionContext.showInt value ++ "' at '" ++ field ++
      "' failed to satisfy constraint: Member must have value between " ++
      ConditionContext.showInt min ++ " and " ++ ConditionContext.showInt max⟩

def validateSessionName (name : Str) : Except Rejection Unit :=
  require (name.all fun c => c.isAlphanum || c ∈ ['_', '+', '=', ',', '.', '@', '-'])
    ⟨400, "ValidationError", "1 validation error detected: Value '" ++ name ++
      ("' at 'roleSessionName' failed to satisfy constraint: Member must satisfy regular expression " ++
        "pattern: [\\w+=,.@-]*").toList⟩

def validateSessionPolicyJson (T : Tools) (policy : Option Str) : Except Rejection Unit :=
  require (policy.all T.isJsonObject)
    ⟨400, "MalformedPolicyDocument", "The policy is not in the valid JSON format."⟩

def notAnInteger (field value : Str) : Rejection :=
  ⟨400, "ValidationError", "Value '" ++ value ++ "' at '" ++ field ++
    "' failed to satisfy constraint: Member must be a valid integer"⟩

def validateInteger (req : AwsRequest) (parameter field : Str) (min max : ℤ) : Except Rejection Unit :=
  match req.queryParams.get parameter with
  | none => .ok ()
  | some raw => do
    let value ← orReject (notAnInteger field raw) (parseI64 raw)
    validateRange field value min max

def validateDuration (req : AwsRequest) (max : ℤ) : Except Rejection Unit :=
  validateInteger req "DurationSeconds" "durationSeconds" 900 max

/-- `minimum_session_token_size`: the size only pads the token. -/
def minimumSessionTokenSize (req : AwsRequest) : Except Rejection Unit :=
  validateInteger req "MinimumSessionTokenSize" "minimumSessionTokenSize" 0 4096

/-- `compute_expiration_at`, in nanoseconds. -/
def computeExpirationAt (req : AwsRequest) (now defaultDuration : ℤ) : Except Rejection ℤ := do
  let duration ← match req.queryParams.get "DurationSeconds" with
    | none => .ok defaultDuration
    | some raw => orReject (notAnInteger "durationSeconds" raw) (parseI64 raw)
  return now + duration * 1000000000

/-! ## Roles and accounts of ARNs -/

def extractAccountFromArn (arn : Str) : Option Str :=
  match arn.splitOn ':' with
  | _ :: _ :: _ :: _ :: account :: _ => if account.isEmpty then none else some account
  | _ => none

/-- `assumed_role_name`: the last segment. -/
def assumedRoleName (roleArn : Str) : Str := (roleArn.splitOn '/').getLastD []

/-- The text behind the first `:role/`. -/
def roleResource (arn : Str) : Option Str := (arn.dropInfix? ":role/").map Prod.snd

def roleForArn (s : IamState) (roleArn : Str) : Option Role :=
  (s.roles.get (assumedRoleName roleArn)).filter fun role =>
    (roleResource role.arn).isSome && roleResource role.arn == roleResource roleArn

def formatAssumedRoleArn (aPartition accountId roleName sessionName : Str) : Str :=
  "arn:" ++ aPartition ++ ":sts::" ++ accountId ++ ":assumed-role/" ++ roleName ++
    "/" ++ sessionName

def rootArn (aPartition accountId : Str) : Str :=
  "arn:" ++ aPartition ++ ":iam::" ++ accountId ++ ":root"

def targetAccount (req : AwsRequest) (roleArn : Str) : Str :=
  (extractAccountFromArn roleArn).getD req.accountId

/-! ## Session policies and devices -/

def managedDocument (s : IamState) (arn : Str) : Option Str :=
  ((s.policies.get arn).bind fun versions =>
    versions.find? PolicyVersion.isDefault <|> versions.head?).map PolicyVersion.document

/-- The numbered policy ARNs, up to the first gap. -/
def policyArns (req : AwsRequest) : List Str :=
  ((List.range 12).map fun i =>
    req.queryParams.get ("PolicyArns.member." ++ showNat (i + 1) ++ ".arn")).takeWhile
      Option.isSome |>.filterMap id

/-- `collect_session_policies`: a dangling ARN leaves an empty document, which grants nothing. -/
def collectSessionPolicies (req : AwsRequest) (s : IamState) : List Str :=
  (req.queryParams.get "Policy").toList ++ (policyArns req).map fun arn => (managedDocument s arn).getD []

def mfaDenied (message : Str) : Rejection := ⟨403, "AccessDenied", message⟩

def unknownDevice : Rejection :=
  mfaDenied ("MultiFactorAuthentication failed, unable to validate MFA code. Please verify your MFA " ++
    "serial number is valid and associated with this user.").toList

def ownsDevice (req : AwsRequest) (device : VirtualMfaDevice) : Bool :=
  match req.principal with
  | none => true
  | some p =>
    p.isRoot || (p.principalType == .user && device.user == some ((p.arn.splitOn '/').getLastD []))

/-- `verify_mfa`: whether the session carries multi-factor authentication. -/
def verifyMfa (T : Tools) (s : IamState) (req : AwsRequest) (now : ℤ) : Except Rejection Bool :=
  match (req.queryParams.get "SerialNumber").filter (· ≠ []),
      (req.queryParams.get "TokenCode").filter (· ≠ []) with
  | none, none => .ok false
  | some serial, some code => do
    let device ← orReject unknownDevice (s.virtualMfaDevices.get serial)
    require (ownsDevice req device) unknownDevice
    require (T.verifyTotp device.base32StringSeed code now != some false)
      (mfaDenied "MultiFactorAuthentication failed with invalid MFA one time pass code.")
    return true
  | _, _ => .error (mfaDenied ("MultiFactorAuthentication failed, must provide both MFA serial number " ++
      "and one time pass code.").toList)

/-! ## Minting -/

/-- A credential, the account that it is stored in, and the accounts with it. -/
structure Minted where
  storedIn : Str
  credential : StsTempCredential
  accounts : Accounts

def mint (a : Accounts) (creds : StsCredentials) (storedIn : Str)
    (credential : StsTempCredential) : Minted where
  storedIn
  credential
  accounts :=
    let s := a.stateOf storedIn
    a.set storedIn { s with stsTempCredentials := s.stsTempCredentials.insert creds.accessKeyId credential }

/-- `iam_action_for`: the resource that identity policies are asked about. -/
def reportedResource (req : AwsRequest) : Str :=
  if req.action = "AssumeRole" ∨ req.action = "AssumeRoleWithWebIdentity" ∨
      req.action = "AssumeRoleWithSAML" then (req.queryParams.get "RoleArn").getD ['*']
  else if req.action = "AssumeRoot" then (req.queryParams.get "TargetPrincipal").getD ['*']
  else ['*']

/-! ## AssumeRole -/

def rootPrincipal (req : AwsRequest) : Principal :=
  ⟨rootArn (partitionFor req.region) req.accountId, req.accountId, req.accountId, .root, none, none⟩

/-- The principal that a trust policy is asked about. -/
def trustCaller (req : AwsRequest) : Principal := req.principal.getD (rootPrincipal req)

def notAuthorized (callerArn action resource : Str) : Rejection :=
  ⟨403, "AccessDenied", "User: " ++ callerArn ++ " is not authorized to perform: " ++ action ++
    " on resource: " ++ resource⟩

/-- The context keys of the caller, and those that are set for one operation. -/
def trustContext (caller : Principal) (keys : List (Str × Str)) : ConditionContext where
  awsPrincipalArn := some caller.arn
  awsPrincipalAccount := some caller.accountId
  awsPrincipalType := some (principalTypeLabel caller.principalType)
  serviceKeys := keys.foldl (fun keys kv => insertKey kv.1 [kv.2] keys) []

def assumeRoleContext (req : AwsRequest) (sessionName : Str) (mfaPresent : Bool) : ConditionContext :=
  let optional := fun (key : Str) (value : Option Str) => (value.map fun v => (key, v)).toList
  { trustContext (trustCaller req)
      (optional "sts:externalid" (req.queryParams.get "ExternalId") ++
        [("sts:rolesessionname".toList, sessionName)] ++
        optional "sts:sourceidentity" (req.queryParams.get "SourceIdentity") ++
        [("aws:sourceaccount".toList, (trustCaller req).accountId)]) with
    awsMfaPresent := some mfaPresent }

def trusts (T : Tools) (role : Role) (request : EvalRequest) : Bool :=
  evaluateResourcePolicyOnly T.formats (T.parsePolicy role.assumeRolePolicyDocument) request == .allow

def trimStartMatches (part : Str) (s : Str) : Str :=
  match _h : s.dropPrefix? part with
  | some rest => if rest.length < s.length then trimStartMatches part rest else s
  | none => s
termination_by s.length

def linkedService (role : Role) : Str :=
  (trimStartMatches "/aws-service-role/" role.path).rdropWhile (· == '/')

def serviceLinkedAllows (req : AwsRequest) (role : Role) : Bool :=
  !List.isPrefixOf "/aws-service-role/" role.path ||
    req.principal.any fun p => arnDenotesService p.arn (linkedService role)

def serviceLinkedDenied (req : AwsRequest) (role : Role) (roleArn : Str) : Rejection :=
  ⟨403, "AccessDenied", (notAuthorized req.accountId "sts:AssumeRole" roleArn).message ++
    " because the role is a service-linked role for " ++ linkedService role⟩

def durationExceeded (role : Role) : Rejection :=
  ⟨400, "ValidationError", ("The requested DurationSeconds exceeds the MaxSessionDuration set for this " ++
    "role. The MaxSessionDuration for the role is ").toList ++
    ConditionContext.showInt role.maxSessionDuration ++ " seconds."⟩

def roleSession (req : AwsRequest) (creds : StsCredentials) (now expiration : ℤ)
    (accountId roleName roleId sessionName : Str) (sessionPolicies : List Str) (mfaPresent : Bool)
    (federatedProvider : Option Str) : StsTempCredential where
  secretAccessKey := creds.secretAccessKey
  sessionToken := creds.sessionToken
  principalArn := formatAssumedRoleArn (partitionFor req.region) accountId roleName sessionName
  userId := roleId ++ ":" ++ sessionName
  accountId
  expiration
  sessionPolicies
  mfaPresent
  issuedAt := now
  federatedProvider

variable (T : Tools) (a : Accounts) (req : AwsRequest) (now : ℤ) (creds : StsCredentials)

def assumeRole : Except Rejection Minted := do
  let roleArn ← orReject (missingParameter "RoleArn") (req.queryParams.get "RoleArn")
  validateStringLength "roleArn" roleArn 20 2048
  let sessionName ← orReject (missingParameter "RoleSessionName") (req.queryParams.get "RoleSessionName")
  validateStringLength "roleSessionName" sessionName 2 64
  validateSessionName sessionName
  validateDuration req 43200
  validateOptionalStringLength "externalId" (req.queryParams.get "ExternalId") 2 1224
  validateOptionalStringLength "policy" (req.queryParams.get "Policy") 1 2048
  validateSessionPolicyJson T (req.queryParams.get "Policy")
  validateOptionalStringLength "sourceIdentity" (req.queryParams.get "SourceIdentity") 2 64
  validateOptionalStringLength "serialNumber" (req.queryParams.get "SerialNumber") 9 256
  validateOptionalStringLength "tokenCode" (req.queryParams.get "TokenCode") 6 6
  let expiration ← computeExpirationAt req now 3600
  minimumSessionTokenSize req
  let a := a.create req.accountId
  let mfaPresent ← verifyMfa T (a.stateOf req.accountId) req now
  let accountId := targetAccount req roleArn
  let denied := notAuthorized (trustCaller req).arn "sts:AssumeRole" roleArn
  -- the account of the ARN is not created for the lookup
  let role ← orReject denied ((a.accounts.get accountId).bind fun s => roleForArn s roleArn)
  require (serviceLinkedAllows req role) (serviceLinkedDenied req role roleArn)
  require (trusts T role ⟨trustCaller req, "sts:AssumeRole", roleArn,
    assumeRoleContext req sessionName mfaPresent⟩) denied
  require (((req.queryParams.get "DurationSeconds").bind parseI64).all (· ≤ role.maxSessionDuration))
    (durationExceeded role)
  return mint a creds accountId (roleSession req creds now expiration accountId (assumedRoleName roleArn)
    role.roleId sessionName (collectSessionPolicies req (a.stateOf req.accountId)) mfaPresent none)

/-! ## AssumeRoleWithWebIdentity and AssumeRoleWithSAML -/

/-- An issuer without its scheme and trailing slashes. -/
def normalizeIssuer (value : Str) : Str :=
  ((value.dropPrefix? "https://" <|> value.dropPrefix? "http://").getD value).rdropWhile
    (· == '/')

def findOidcProvider (issuer : Str) : Option OidcProvider :=
  a.accounts.entries.findSome? fun entry =>
    (entry.2.oidcProviders.entries.find? fun p => normalizeIssuer p.2.url == normalizeIssuer issuer).map
      Prod.snd

def findSamlProvider (arn : Str) : Option SamlProvider :=
  a.accounts.entries.findSome? fun entry => entry.2.samlProviders.get arn

def federatedPrincipal (providerArn accountId : Str) : Principal :=
  ⟨providerArn, providerArn, accountId, .federatedUser, none, none⟩

def invalidIdentityToken (message : Str) : Rejection := ⟨400, "InvalidIdentityToken", message⟩

/-- The issuer of a token has to be registered, and one of its audiences listed there. -/
def checkIssuer (provider : Option OidcProvider) (jwt : Option JwtClaims) : Except Rejection Unit :=
  match jwt.bind fun claims => claims.iss.map fun iss => (claims, iss) with
  | none => .ok ()
  | some (claims, iss) => do
    let provider ← orReject (invalidIdentityToken
      ("No OpenIDConnect provider found in your account for issuer " ++ iss)) provider
    require (provider.clientIdList.isEmpty || claims.aud.any fun aud => aud ∈ provider.clientIdList)
      (invalidIdentityToken ("Incorrect token audience: not in client_id_list for provider " ++
        provider.arn))

def webProvider (provider : Option OidcProvider) (accountId : Str) : Str :=
  ((provider.map OidcProvider.arn) <|> req.queryParams.get "ProviderId").getD
    ("arn:" ++ partitionFor req.region ++ ":iam::" ++ accountId ++
      ":oidc-provider/web-identity")

def webIdentityContext (provider : Option OidcProvider) (jwt : Option JwtClaims)
    (accountId sessionName : Str) : ConditionContext :=
  let federated := webProvider req provider accountId
  let base := trustContext (federatedPrincipal federated accountId) [("sts:rolesessionname", sessionName)]
  let scope := (provider.map fun p => normalizeIssuer p.url) <|>
    (req.queryParams.get "ProviderId").map normalizeIssuer
  let claimed := scope.bind fun scope => jwt.map fun claims => (scope, claims)
  { base with
    awsFederatedProvider := some federated
    awsUserid := claimed.bind fun sc => sc.2.sub
    serviceKeys := match claimed with
      | none => base.serviceKeys
      | some (scope, claims) =>
        let keys := if claims.aud.isEmpty then base.serviceKeys
          else insertKey (scope ++ ":aud") claims.aud base.serviceKeys
        let keys := claims.sub.elim keys fun sub => insertKey (scope ++ ":sub") [sub] keys
        claims.amr.elim keys fun amr => insertKey (scope ++ ":amr") amr keys }

/-- The role id of the session: that of the role with this very ARN, else a random one. -/
def sessionRoleId (accountId roleArn generated : Str) : Str :=
  (((a.accounts.get accountId).bind fun s => roleForArn s roleArn).map Role.roleId).getD generated

def assumeRoleWithWebIdentity (generatedRoleId : Str) : Except Rejection Minted := do
  let roleArn ← orReject (missingParameter "RoleArn") (req.queryParams.get "RoleArn")
  validateStringLength "roleArn" roleArn 20 2048
  let sessionName ← orReject (missingParameter "RoleSessionName") (req.queryParams.get "RoleSessionName")
  validateStringLength "roleSessionName" sessionName 2 64
  validateSessionName sessionName
  let token ← orReject (missingParameter "WebIdentityToken") (req.queryParams.get "WebIdentityToken")
  validateStringLength "webIdentityToken" token 4 20000
  validateOptionalStringLength "policy" (req.queryParams.get "Policy") 1 2048
  validateSessionPolicyJson T (req.queryParams.get "Policy")
  validateOptionalStringLength "providerId" (req.queryParams.get "ProviderId") 4 2048
  validateDuration req 43200
  let expiration ← computeExpirationAt req now 3600
  minimumSessionTokenSize req
  let a := a.create req.accountId
  let accountId := targetAccount req roleArn
  let roleId := sessionRoleId a accountId roleArn generatedRoleId
  let jwt := T.decodeJwt token
  require ((jwt.bind JwtClaims.exp).all (timestamp now ≤ ·))
    ⟨400, "ExpiredTokenException", "The web identity token that was passed is expired."⟩
  let provider := (jwt.bind JwtClaims.iss).bind (findOidcProvider a)
  checkIssuer provider jwt
  let federated := webProvider req provider accountId
  let caller := federatedPrincipal federated accountId
  let denied := notAuthorized federated "sts:AssumeRoleWithWebIdentity" roleArn
  -- looked up by the last segment of the ARN alone
  let role ← orReject denied ((a.stateOf accountId).roles.get (assumedRoleName roleArn))
  require (trusts T role ⟨caller, "sts:AssumeRoleWithWebIdentity", roleArn,
    webIdentityContext req provider jwt accountId sessionName⟩) denied
  return mint a creds accountId (roleSession req creds now expiration accountId (assumedRoleName roleArn)
    roleId sessionName (collectSessionPolicies req (a.stateOf req.accountId)) false (some federated))

/-- A registered provider that declares an audience has to be the one of the assertion. -/
def checkSamlAudience (providerArn : Str) (claims : SamlClaims) :
    Except Rejection Unit :=
  match (findSamlProvider a providerArn).bind fun p =>
      (T.expectedSamlAudience p.samlMetadataDocument).map fun aud => (p, aud) with
  | none => .ok ()
  | some (provider, expected) =>
    require (claims.audience == some expected)
      (invalidIdentityToken ("SAML assertion audience " ++ T.debugAudience claims.audience ++
        " does not match the audience '" ++ expected ++ "' declared by SAML provider '" ++
        provider.arn ++ "'"))

def samlContext (providerArn accountId sessionName : Str) (claims : SamlClaims) : ConditionContext :=
  let optional := fun (key : Str) (value : Option Str) => (value.map fun v => (key, v)).toList
  { trustContext (federatedPrincipal providerArn accountId)
      (optional "saml:aud" claims.audience ++ optional "saml:iss" claims.issuer ++
        [("sts:rolesessionname".toList, sessionName)]) with
    awsFederatedProvider := some providerArn }

def assumeRoleWithSaml (generatedRoleId : Str) : Except Rejection Minted := do
  let roleArn ← orReject (missingParameter "RoleArn") (req.queryParams.get "RoleArn")
  validateStringLength "roleArn" roleArn 20 2048
  let providerArn ← orReject (missingParameter "PrincipalArn") (req.queryParams.get "PrincipalArn")
  validateStringLength "principalArn" providerArn 20 2048
  let assertion ← orReject (missingParameter "SAMLAssertion") (req.queryParams.get "SAMLAssertion")
  validateStringLength "sAMLAssertion" assertion 4 100000
  validateOptionalStringLength "policy" (req.queryParams.get "Policy") 1 2048
  validateSessionPolicyJson T (req.queryParams.get "Policy")
  validateDuration req 43200
  let expiration ← computeExpirationAt req now 3600
  let sessionName := (T.extractSamlSessionName assertion).getD "saml-session"
  validateSessionName sessionName
  let claims := T.extractSamlClaims assertion
  minimumSessionTokenSize req
  let a := a.create req.accountId
  let accountId := targetAccount req roleArn
  let roleId := sessionRoleId a accountId roleArn generatedRoleId
  checkSamlAudience T a providerArn claims
  let denied := notAuthorized providerArn "sts:AssumeRoleWithSAML" roleArn
  -- looked up by the last segment of the ARN alone
  let role ← orReject denied ((a.stateOf accountId).roles.get (assumedRoleName roleArn))
  require (trusts T role ⟨federatedPrincipal providerArn accountId, "sts:AssumeRoleWithSAML", roleArn,
    samlContext providerArn accountId sessionName claims⟩) denied
  return mint a creds accountId (roleSession req creds now expiration accountId (assumedRoleName roleArn)
    roleId sessionName (collectSessionPolicies req (a.stateOf req.accountId)) false (some providerArn))

/-! ## AssumeRoot -/

def assumeRootError (message : Str) : Rejection := ⟨400, "ExpiredTokenException", message⟩

def rootTarget (target : Str) : Str × Str :=
  if List.isPrefixOf "arn:" target then ((extractAccountFromArn target).getD a.defaultAccountId, target)
  else if (utf8 target).length = 12 ∧ target.all Char.isDigit then
    (target, rootArn (partitionFor req.region) target)
  else (a.defaultAccountId, rootArn (partitionFor req.region) a.defaultAccountId)

/-- Another account is only reached by an organization that permits it. -/
def rootAccess (account : Str) : Except Rejection Unit := do
  let own := decide (account = req.accountId)
  require (own || (a.accounts.get req.accountId).any IamState.organizationsRootSessions)
    ⟨403, "AccessDeniedException", ("AssumeRoot into another account requires centralized root access " ++
      "(RootSessions) to be enabled for the organization (EnableOrganizationsRootSessions).").toList⟩
  require (own || T.canAssumeRootInto.any fun permits => permits req.accountId account)
    ⟨403, "AccessDeniedException", ("AssumeRoot into another account is permitted only for the " ++
      "organization's management account (or a delegated administrator for centralized root access) " ++
      "targeting a member account of the same organization.").toList⟩

def plainSession (creds : StsCredentials) (now expiration : ℤ) (principalArn userId accountId : Str)
    (mfaPresent : Bool) : StsTempCredential where
  secretAccessKey := creds.secretAccessKey
  sessionToken := creds.sessionToken
  principalArn
  userId
  accountId
  expiration
  sessionPolicies := []
  mfaPresent
  issuedAt := now
  federatedProvider := none

def rootDuration : Except Rejection ℤ := do
  let seconds ← match req.queryParams.get "DurationSeconds" with
    | none => .ok 900
    | some raw =>
      orReject (assumeRootError "DurationSeconds must be between 0 and 900")
        ((parseI64 raw).filter fun v => 0 ≤ v ∧ v ≤ 900)
  return if seconds = 0 then 900 else seconds

def assumeRoot : Except Rejection Minted := do
  let target ← orReject (assumeRootError "TargetPrincipal is required")
    (req.queryParams.get "TargetPrincipal")
  require (decide (12 ≤ (utf8 target).length) && decide ((utf8 target).length ≤ 2048))
    (assumeRootError "TargetPrincipal must be 12..=2048 characters")
  require ((req.queryParams.get "TaskPolicyArn.arn").isSome || (req.queryParams.get "TaskPolicyArn").isSome)
    (assumeRootError "TaskPolicyArn is required")
  let duration ← rootDuration req
  let (account, arn) := rootTarget a req target
  rootAccess T a req account
  minimumSessionTokenSize req
  return mint a creds account (plainSession creds now (now + duration * 1000000000) arn account account false)

/-! ## GetSessionToken and GetDelegatedAccessToken -/

/-- `extract_access_key`: the key of the `Authorization` header. -/
def extractAccessKey : Option Str :=
  ((req.headers.getStr "authorization").bind parseSigv4).map SigV4Info.accessKey

/-- Whom a session token is for: the owner of the key in the header, else the account root. -/
def sessionOwner (s : IamState) (req : AwsRequest) (now : ℤ) : Str × Str × Str :=
  match (extractAccessKey req).bind (s.credentialSecret now) with
  | some l => (l.principalArn, l.userId, l.accountId)
  | none => (rootArn (partitionFor req.region) s.accountId, s.accountId, s.accountId)

def getSessionToken : Except Rejection Minted := do
  validateDuration req 129600
  validateOptionalStringLength "serialNumber" (req.queryParams.get "SerialNumber") 9 256
  validateOptionalStringLength "tokenCode" (req.queryParams.get "TokenCode") 6 6
  minimumSessionTokenSize req
  let expiration ← computeExpirationAt req now 43200
  let s := a.stateOf req.accountId
  let mfaPresent ← verifyMfa T s req now
  let (arn, userId, accountId) := sessionOwner s req now
  return mint a creds req.accountId (plainSession creds now expiration arn userId accountId mfaPresent)

def getDelegatedAccessToken : Except Rejection Minted := do
  let _ ← orReject ⟨400, "ExpiredTradeInTokenException", "TradeInToken is required"⟩
    (req.queryParams.get "TradeInToken")
  let accountId := (req.principal.map Principal.accountId).getD a.defaultAccountId
  let arn := (req.principal.map Principal.arn).getD (rootArn (partitionFor req.region) accountId)
  return mint a creds accountId
    (plainSession creds now (now + 3600 * 1000000000) arn accountId accountId false)

end Fakecloud.Sts

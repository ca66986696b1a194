import Fakecloud.Core.Dispatch
import Fakecloud.Lib.OrdMap
import Fakecloud.Aws.Partition

/-!
# The accounts of IAM

`state.rs` and `credential_resolver.rs`: users with their access keys, roles, managed policies and
identity providers of each account, the temporary credentials that STS has issued, and how an access key
id resolves to a credential.  Roles and users are stored under their names.
-/

namespace Fakecloud.Iam

open Text Fakecloud.Core Fakecloud.Aws

abbrev StrMap (β : Type) := OrdMap Str β compare

structure User where
  arn : Str
  userId : Str
  tags : List (Str × Str)

structure AccessKey where
  accessKeyId : Str
  secretAccessKey : Str
  userName : Str
  status : Str

structure Role where
  roleId : Str
  arn : Str
  path : Str
  assumeRolePolicyDocument : Str
  maxSessionDuration : ℤ
  tags : List (Str × Str)

structure PolicyVersion where
  document : Str
  isDefault : Bool

structure VirtualMfaDevice where
  base32StringSeed : Str
  user : Option Str

structure OidcProvider where
  arn : Str
  url : Str
  clientIdList : List Str

structure SamlProvider where
  arn : Str
  samlMetadataDocument : Str

/-- A credential issued by STS.  Moments are nanoseconds since the Unix epoch. -/
structure StsTempCredential where
  secretAccessKey : Str
  sessionToken : Str
  principalArn : Str
  userId : Str
  accountId : Str
  expiration : ℤ
  sessionPolicies : List Str
  mfaPresent : Bool
  issuedAt : ℤ
  federatedProvider : Option Str

structure IamState where
  accountId : Str
  users : StrMap User := .empty
  /-- by user name -/
  accessKeys : StrMap (List AccessKey) := .empty
  roles : StrMap Role := .empty
  /-- the versions of a managed policy, by its ARN -/
  policies : StrMap (List PolicyVersion) := .empty
  virtualMfaDevices : StrMap VirtualMfaDevice := .empty
  oidcProviders : StrMap OidcProvider := .empty
  samlProviders : StrMap SamlProvider := .empty
  /-- by access key id -/
  stsTempCredentials : StrMap StsTempCredential := .empty
  organizationsRootSessions : Bool := false

structure SecretLookup where
  secretAccessKey : Str
  sessionToken : Option Str
  principalArn : Str
  userId : Str
  accountId : Str
  sessionPolicies : List Str
  principalTags : Option (List (Str × Str))
  mfaPresent : Bool
  tokenIssuedAt : Option ℤ
  federatedProvider : Option Str

/-- `tags_to_hashmap`: of tags with one key the last counts. -/
def tagsToMap (tags : List (Str × Str)) : Option (List (Str × Str)) :=
  if tags.isEmpty then none
  else some (tags.foldl (fun (m : StrMap Str) tag => m.insert tag.1 tag.2) .empty).entries

namespace IamState

def seededRole (aPartition accountId service name : Str) : Role :=
  let path := "/aws-service-role/" ++ service ++ "/"
  { roleId := "AROA" ++ List.replicate (17 - (toString name.length).length) '0' ++
      (toString name.length).toList
    arn := "arn:" ++ aPartition ++ ":iam::" ++ accountId ++ ":role" ++ path ++ name
    path
    assumeRolePolicyDocument :=
      "\x7b\"Version\":\"2012-10-17\",\"Statement\":[\x7b\"Effect\":\"Allow\",\"Principal\":\x7b\"Service\":\"" ++
        service ++ "\"\x7d,\"Action\":\"sts:AssumeRole\"\x7d]\x7d"
    maxSessionDuration := 3600
    tags := [] }

/-- `new_in_region`: an account with two service-linked roles. -/
def fresh (accountId region : Str) : IamState :=
  let seeded := seededRole (partitionFor region) accountId
  { accountId
    roles := ((.empty : StrMap Role).insert "AWSServiceRoleForSupport"
        (seeded "support.amazonaws.com" "AWSServiceRoleForSupport")).insert
      "AWSServiceRoleForTrustedAdvisor"
        (seeded "trustedadvisor.amazonaws.com" "AWSServiceRoleForTrustedAdvisor") }

variable (s : IamState)

def userKey (accessKeyId : Str) : Option (AccessKey × User) :=
  s.accessKeys.entries.findSome? fun entry => entry.2.findSome? fun key =>
    if key.accessKeyId = accessKeyId ∧ key.status = "Active".toList then
      (s.users.get key.userName).map fun user => (key, user)
    else none

def resolveRoleTags (principalArn : Str) : Option (List (Str × Str)) :=
  match principalArn.splitOn ':' with
  | _ :: _ :: _ :: _ :: _ :: resource :: _ =>
    (resource.dropPrefix? "assumed-role/").bind fun rest =>
      (s.roles.get (rest.takeWhile (· ≠ '/'))).bind fun role => tagsToMap role.tags
  | _ => none

def userLookup (key : AccessKey) (user : User) : SecretLookup where
  secretAccessKey := key.secretAccessKey
  sessionToken := none
  principalArn := user.arn
  userId := user.userId
  accountId := s.accountId
  sessionPolicies := []
  principalTags := tagsToMap user.tags
  mfaPresent := false
  tokenIssuedAt := none
  federatedProvider := none

def tempLookup (temp : StsTempCredential) : SecretLookup where
  secretAccessKey := temp.secretAccessKey
  sessionToken := some temp.sessionToken
  principalArn := temp.principalArn
  userId := temp.userId
  accountId := temp.accountId
  sessionPolicies := temp.sessionPolicies
  principalTags := s.resolveRoleTags temp.principalArn
  mfaPresent := temp.mfaPresent
  tokenIssuedAt := some temp.issuedAt
  federatedProvider := temp.federatedProvider

/-- `credential_secret` and `credential_secret_readonly`: keys of users first, then temporary
credentials that have not expired. -/
def credentialSecret (now : ℤ) (accessKeyId : Str) : Option SecretLookup :=
  match s.userKey accessKeyId with
  | some (key, user) => some (s.userLookup key user)
  | none =>
    ((s.stsTempCredentials.get accessKeyId).filter fun temp => now < temp.expiration).map s.tempLookup

def stsCredentialExpired (now : ℤ) (accessKeyId : Str) : Bool :=
  (s.stsTempCredentials.get accessKeyId).any fun temp => temp.expiration ≤ now

/-- An expired credential is remembered for a day. -/
def expiredStsRetention : ℤ := 24 * 3600 * 1000000000

def pruneExpired (now : ℤ) : IamState :=
  { s with stsTempCredentials :=
      s.stsTempCredentials.retain fun temp => now - expiredStsRetention < temp.expiration }

end IamState

/-- `MultiAccountState<IamState>`. -/
structure Accounts where
  defaultAccountId : Str
  region : Str
  accounts : StrMap IamState

namespace Accounts

variable (a : Accounts)

/-- The state of an account, which `get_or_create` makes when it is not there. -/
def stateOf (accountId : Str) : IamState :=
  (a.accounts.get accountId).getD (.fresh accountId a.region)

def set (accountId : Str) (s : IamState) : Accounts :=
  { a with accounts := a.accounts.insert accountId s }

/-- `get_or_create`. -/
def create (accountId : Str) : Accounts := a.set accountId (a.stateOf accountId)

/-- The sweep at the start of each resolution. -/
def sweep (now : ℤ) : Accounts :=
  { a with accounts := a.accounts.mapValues fun _ s => s.pruneExpired now }

def resolvedCredential (l : SecretLookup) : ResolvedCredential where
  secretAccessKey := l.secretAccessKey
  sessionToken := l.sessionToken
  principal := ⟨l.principalArn, l.userId, l.accountId, .fromArn l.principalArn, none, l.principalTags⟩
  sessionPolicies := l.sessionPolicies
  mfaPresent := l.mfaPresent
  tokenIssuedAt := l.tokenIssuedAt
  federatedProvider := l.federatedProvider

def lookup (now : ℤ) (accessKeyId : Str) : Option SecretLookup :=
  a.accounts.entries.findSome? fun entry => entry.2.credentialSecret now accessKeyId

def credentialResolver (now : ℤ) : CredentialResolver where
  resolve accessKeyId := (a.lookup now accessKeyId).map resolvedCredential
  isExpired accessKeyId := a.accounts.entries.any fun entry => entry.2.stsCredentialExpired now accessKeyId

theorem stateOf_set (accountId other : Str) (s : IamState) :
    (a.set accountId s).stateOf other = if other = accountId then s else a.stateOf other := by
  unfold stateOf set
  simp only [OrdMap.get_insert]
  split_ifs <;> rfl

end Accounts

end Fakecloud.Iam

import Fakecloud.Sts.Service

/-!
# Whom STS hands out

The identity policies of a caller are asked about the text of `RoleArn` or `TargetPrincipal`; the session is
for the role or the account that the handler finds from pieces of that text.  The two agree exactly when
the text is the ARN that the role is stored with, or names the account or its root.
-/

namespace Fakecloud.Sts

open Text Fakecloud.Core Fakecloud.Aws Fakecloud.Iam List Option

/-! ## Roles -/

inductive RoleOperation
  | assumeRole | assumeRoleWithWebIdentity | assumeRoleWithSaml
  deriving DecidableEq

namespace RoleOperation

def action : RoleOperation → Str
  | .assumeRole => "AssumeRole"
  | .assumeRoleWithWebIdentity => "AssumeRoleWithWebIdentity"
  | .assumeRoleWithSaml => "AssumeRoleWithSAML"

def run (T : Tools) (a : Accounts) (req : AwsRequest) (now : ℤ) (creds : StsCredentials)
    (generatedRoleId : Str) : RoleOperation → Except Rejection Minted
  | .assumeRole => Sts.assumeRole T a req now creds
  | .assumeRoleWithWebIdentity => Sts.assumeRoleWithWebIdentity T a req now creds generatedRoleId
  | .assumeRoleWithSaml => Sts.assumeRoleWithSaml T a req now creds generatedRoleId

def sessionName (T : Tools) (req : AwsRequest) : RoleOperation → Str
  | .assumeRoleWithSaml =>
    ((req.queryParams.get "SAMLAssertion").bind T.extractSamlSessionName).getD "saml-session"
  | _ => (req.queryParams.get "RoleSessionName").getD []

/-- Whom the trust policy has to allow: the caller, or the provider that vouches for them. -/
def caller (req : AwsRequest) (credential : StsTempCredential) : RoleOperation → Principal
  | .assumeRole => trustCaller req
  | _ => federatedPrincipal (credential.federatedProvider.getD []) credential.accountId

/-- The condition keys that the handler puts before the trust policy. -/
def context (T : Tools) (a : Accounts) (req : AwsRequest) (credential : StsTempCredential)
    (op : RoleOperation) : ConditionContext :=
  match op with
  | .assumeRole => assumeRoleContext req (op.sessionName T req) credential.mfaPresent
  | .assumeRoleWithWebIdentity =>
    let jwt := (req.queryParams.get "WebIdentityToken").bind T.decodeJwt
    let provider := (jwt.bind JwtClaims.iss).bind (findOidcProvider (a.create req.accountId))
    webIdentityContext req provider jwt credential.accountId (op.sessionName T req)
  | .assumeRoleWithSaml =>
    samlContext (credential.federatedProvider.getD []) credential.accountId (op.sessionName T req)
      (T.extractSamlClaims ((req.queryParams.get "SAMLAssertion").getD []))

end RoleOperation

/-- A trust policy sees the external id of the request, and whether the caller gave a code of a device. -/
theorem assumeRoleContext_lookup (F : Formats) (req : AwsRequest) (session : Str) (mfaPresent : Bool) :
    (assumeRoleContext req session mfaPresent).lookup F "sts:ExternalId" =
        (req.queryParams.get "ExternalId").map ([·]) ∧
      (assumeRoleContext req session mfaPresent).lookup F "aws:MultiFactorAuthPresent" =
        some [ConditionContext.showBool mfaPresent] := by
  unfold assumeRoleContext
  cases req.queryParams.get "ExternalId" <;> cases req.queryParams.get "SourceIdentity" <;>
    exact ⟨rfl, rfl⟩

/-- The session is for a role whose ARN was authorised and whose trust policy allows the caller. -/
def HandsOutRole (T : Tools) (a : Accounts) (req : AwsRequest) (op : RoleOperation)
    (credential : StsTempCredential) : Prop :=
  ∃ accountId name role, (a.stateOf accountId).roles.get name = some role ∧
    reportedResource req = role.arn ∧
    trusts T role ⟨op.caller req credential, "sts:" ++ op.action, role.arn,
      op.context T a req credential⟩ = true ∧
    credential.principalArn =
      formatAssumedRoleArn (partitionFor req.region) accountId name (op.sessionName T req) ∧
    credential.accountId = accountId

def NamesStoredRole (a : Accounts) (req : AwsRequest) : Prop :=
  ∃ roleArn role, req.queryParams.get "RoleArn" = some roleArn ∧
    (a.stateOf (targetAccount req roleArn)).roles.get (assumedRoleName roleArn) = some role ∧
    role.arn = roleArn

/-- What a handler has done when it succeeds. -/
structure RoleMinted (T : Tools) (a : Accounts) (req : AwsRequest) (op : RoleOperation) (roleArn : Str)
    (role : Role) (credential : StsTempCredential) : Prop where
  requested : req.queryParams.get "RoleArn" = some roleArn
  found : (a.stateOf (targetAccount req roleArn)).roles.get (assumedRoleName roleArn) = some role
  trusted : trusts T role ⟨op.caller req credential, "sts:" ++ op.action, roleArn,
    op.context T a req credential⟩ = true
  principalArn : credential.principalArn = formatAssumedRoleArn (partitionFor req.region)
    (targetAccount req roleArn) (assumedRoleName roleArn) (op.sessionName T req)
  accountId : credential.accountId = targetAccount req roleArn

section Accounts

variable (a : Accounts)

@[simp] theorem stateOf_create (accountId other : Str) :
    (a.create accountId).stateOf other = a.stateOf other := by
  rw [Accounts.create, Accounts.stateOf_set]
  split_ifs with h
  · rw [h]
  · rfl

end Accounts

section

variable {T : Tools} {a : Accounts} {req : AwsRequest} {now : ℤ} {creds : StsCredentials}
  {generatedRoleId : Str} {m : Minted}

variable {op : RoleOperation} {session roleArn : Str}

theorem sessionName_of_parameter
    (h : req.queryParams.get "RoleSessionName" = some session) (hop : op ≠ .assumeRoleWithSaml) :
    op.sessionName T req = session := by
  cases op with
  | assumeRoleWithSaml => exact absurd rfl hop
  | _ =>
    rw [RoleOperation.sessionName, h]
    · rfl
    · exact hop

theorem assumeRole_minted (h : assumeRole T a req now creds = .ok m) :
    ∃ roleArn role, RoleMinted T a req .assumeRole roleArn role m.credential := by
  simp only [assumeRole, bind_eq_ok, require_eq_ok, orReject_eq_ok] at h
  obtain ⟨roleArn, hr, _, -, session, hss, _, -, _, -, _, -, _, -, _, -, _, -, _, -, _, -, _, -,
    _, -, _, -, mfaPresent, -, role, hrl, _, -, _, ht, _, -, hm⟩ := h
  cases hm
  obtain ⟨s, hs, hrl⟩ := bind_eq_some_iff.mp hrl
  have hn : RoleOperation.assumeRole.sessionName T req = session := sessionName_of_parameter hss (by decide)
  refine ⟨roleArn, role, hr, ?_, ?_, ?_, rfl⟩
  · rw [← stateOf_create a req.accountId, Accounts.stateOf, hs]
    exact (filter_eq_some_iff.mp hrl).1
  · rw [RoleOperation.context, hn]
    exact ht
  · rw [hn]
    rfl

theorem assumeRoleWithWebIdentity_minted
    (h : assumeRoleWithWebIdentity T a req now creds generatedRoleId = .ok m) :
    ∃ roleArn role, RoleMinted T a req .assumeRoleWithWebIdentity roleArn role m.credential := by
  simp only [assumeRoleWithWebIdentity, bind_eq_ok, require_eq_ok, orReject_eq_ok] at h
  obtain ⟨roleArn, hr, _, -, session, hs, _, -, _, -, token, htk, _, -, _, -, _, -, _, -, _, -,
    _, -, _, -, _, -, _, -, role, hrl, _, ht, hm⟩ := h
  cases hm
  rw [stateOf_create] at hrl
  have hn : RoleOperation.assumeRoleWithWebIdentity.sessionName T req = session :=
    sessionName_of_parameter hs (by decide)
  refine ⟨roleArn, role, hr, hrl, ?_, ?_, rfl⟩
  · rw [RoleOperation.context, hn, htk]
    exact ht
  · rw [hn]
    rfl

theorem assumeRoleWithSaml_minted (h : assumeRoleWithSaml T a req now creds generatedRoleId = .ok m) :
    ∃ roleArn role, RoleMinted T a req .assumeRoleWithSaml roleArn role m.credential := by
  simp only [assumeRoleWithSaml, bind_eq_ok, require_eq_ok, orReject_eq_ok] at h
  obtain ⟨roleArn, hr, _, -, providerArn, -, _, -, assertion, ha, _, -, _, -, _, -, _, -,
    _, -, _, -, _, -, _, -, role, hrl, _, ht, hm⟩ := h
  cases hm
  rw [stateOf_create] at hrl
  have hn : RoleOperation.assumeRoleWithSaml.sessionName T req =
      (T.extractSamlSessionName assertion).getD "saml-session" := by
    rw [RoleOperation.sessionName, ha]
    rfl
  refine ⟨roleArn, role, hr, hrl, ?_, ?_, rfl⟩
  · rw [RoleOperation.context, hn, ha]
    exact ht
  · rw [hn]
    rfl

theorem run_minted (h : op.run T a req now creds generatedRoleId = .ok m) :
    ∃ roleArn role, RoleMinted T a req op roleArn role m.credential := by
  cases op with
  | assumeRole => exact assumeRole_minted h
  | assumeRoleWithWebIdentity => exact assumeRoleWithWebIdentity_minted h
  | assumeRoleWithSaml => exact assumeRoleWithSaml_minted h

theorem reportedResource_of_role (ha : req.action = op.action)
    (h : req.queryParams.get "RoleArn" = some roleArn) : reportedResource req = roleArn := by
  have hr : req.action = "AssumeRole" ∨ req.action = "AssumeRoleWithWebIdentity" ∨
      req.action = "AssumeRoleWithSAML" := by
    rw [ha]
    cases op with
    | assumeRole => exact .inl rfl
    | assumeRoleWithWebIdentity => exact .inr (.inl rfl)
    | assumeRoleWithSaml => exact .inr (.inr rfl)
  rw [reportedResource, if_pos hr, h, getD_some]

/-- The role that was found is the one that was authorised exactly when its ARN is the requested one. -/
theorem RoleMinted.handsOutRole_iff {role : Role}
    {credential : StsTempCredential} (h : RoleMinted T a req op roleArn role credential)
    (hac : req.action = op.action) : HandsOutRole T a req op credential ↔ NamesStoredRole a req := by
  have hr := reportedResource_of_role hac h.requested
  constructor
  · rintro ⟨accountId, name, role', hrl', har, -, hp, ha⟩
    rw [h.accountId] at ha
    subst ha
    rw [h.principalArn] at hp
    rw [← append_cancel_left (append_cancel_right (append_cancel_right hp))] at hrl'
    exact ⟨roleArn, role', h.requested, hrl', (hr.symm.trans har).symm⟩
  · rintro ⟨roleArn', role', hro', hrl', har⟩
    obtain rfl := some.inj (h.requested.symm.trans hro')
    obtain rfl := some.inj (h.found.symm.trans hrl')
    have ht := h.trusted
    rw [← har] at ht
    exact ⟨_, _, role, h.found, hr.trans har.symm, ht, h.principalArn, h.accountId⟩

end

/-! ## Account roots -/

def IsAccountId (target : Str) : Prop := (utf8 target).length = 12 ∧ target.all Char.isDigit = true

def IsRootArn (accountId arn : Str) : Prop := ∃ aPartition, ':' ∉ aPartition ∧ arn =
    rootArn aPartition accountId

/-- A target principal names an account: it is its id, or an ARN with it. -/
def NamesAccount (target accountId : Str) : Prop :=
  (IsAccountId target ∧ target = accountId) ∨
    (List.isPrefixOf "arn:" target = true ∧ extractAccountFromArn target = some accountId)

def HandsOutRoot (req : AwsRequest) (credential : StsTempCredential) : Prop :=
  ∃ accountId, NamesAccount (reportedResource req) accountId ∧
    IsRootArn accountId credential.principalArn ∧ credential.accountId = accountId

/-- The target is an account id or the ARN of an account root. -/
def TargetsRoot (req : AwsRequest) : Prop :=
  ∃ target, req.queryParams.get "TargetPrincipal" = some target ∧
    (IsAccountId target ∨ ∃ accountId, ':' ∉ accountId ∧ accountId ≠ [] ∧ IsRootArn accountId target)

theorem extractAccountFromArn_rootArn {aPartition accountId : Str} (hp : ':' ∉ aPartition)
    (ha : ':' ∉ accountId) (hne : accountId ≠ []) :
    extractAccountFromArn (rootArn aPartition accountId) = some accountId := by
  have hs : (rootArn aPartition accountId).splitOn ':' =
      ["arn".toList, aPartition, "iam".toList, [], accountId, "root".toList] := by
    have har : rootArn aPartition accountId =
        intercalate [':'] ["arn".toList, aPartition, "iam".toList, [], accountId, "root".toList] := by
      unfold rootArn
      simp only [append_assoc]
      rfl
    rw [har]
    refine splitOn_intercalate ':' ?_ (cons_ne_nil _ _)
    simp [hp, ha]
  rw [extractAccountFromArn, hs]
  simp [hne]

theorem extractAccountFromArn_eq_some {arn accountId : Str} (h : extractAccountFromArn arn = some accountId) :
    ':' ∉ accountId ∧ accountId ≠ [] := by
  unfold extractAccountFromArn at h
  split at h
  · next account rest hs =>
    split_ifs at h with he
    cases h
    refine ⟨not_mem_of_mem_splitOn (by rw [hs]; simp), ?_⟩
    simpa using he
  · cases h

section

variable {T : Tools} {a : Accounts} {req : AwsRequest} {now : ℤ} {creds : StsCredentials} {m : Minted}

theorem assumeRoot_minted (h : assumeRoot T a req now creds = .ok m) :
    ∃ target, req.queryParams.get "TargetPrincipal" = some target ∧
      m.credential.principalArn = (rootTarget a req target).2 ∧
      m.credential.accountId = (rootTarget a req target).1 := by
  simp only [assumeRoot, bind_eq_ok, orReject_eq_ok] at h
  obtain ⟨target, ht, _, -, _, -, _, -, _, -, _, -, hm⟩ := h
  cases hm
  exact ⟨target, ht, rfl, rfl⟩

theorem not_isPrefixOf_of_isAccountId {target : Str} (h : IsAccountId target) :
    isPrefixOf "arn:" target = false := by
  by_contra ha
  obtain ⟨rest, rfl⟩ := isPrefixOf_iff_prefix.mp (Bool.eq_true_of_not_eq_false ha)
  exact absurd h.2 (by simp)

theorem handsOutRoot_iff (ha : req.action = "AssumeRoot")
    (h : assumeRoot T a req now creds = .ok m) : HandsOutRoot req m.credential ↔ TargetsRoot req := by
  obtain ⟨target, ht, hpr, hac⟩ := assumeRoot_minted h
  have hrp : reportedResource req = target := by
    rw [reportedResource, if_neg (by rw [ha]; decide), if_pos ha, ht, getD_some]
  rw [HandsOutRoot, hrp, hpr, hac]
  by_cases har : isPrefixOf "arn:" target = true
  · have hid : ¬ IsAccountId target := fun hid =>
      absurd har (Bool.eq_false_iff.mp (not_isPrefixOf_of_isAccountId hid))
    rw [rootTarget, if_pos har]
    constructor
    · rintro ⟨accountId, hn, hr, -⟩
      obtain ⟨-, he⟩ := hn.resolve_left fun h => hid h.1
      obtain ⟨hc, hne⟩ := extractAccountFromArn_eq_some he
      exact ⟨target, ht, .inr ⟨accountId, hc, hne, hr⟩⟩
    · rintro ⟨target', ht', htr⟩
      obtain rfl := some.inj (ht.symm.trans ht')
      obtain ⟨accountId, hc, hne, aPartition, hp, hr⟩ := htr.resolve_left hid
      have he : extractAccountFromArn target = some accountId := hr ▸ extractAccountFromArn_rootArn hp hc hne
      exact ⟨accountId, .inr ⟨har, he⟩, ⟨aPartition, hp, hr⟩, by rw [he]; rfl⟩
  · rw [rootTarget]
    split_ifs with hid
    · have hc := colon_not_mem_of_mem_partitions (partitionFor_mem req.region)
      exact iff_of_true ⟨target, .inl ⟨hid, rfl⟩, ⟨_, hc, rfl⟩, rfl⟩ ⟨target, ht, .inl hid⟩
    · refine iff_of_false ?_ ?_
      · rintro ⟨accountId, hn | hn, -⟩
        · exact hid hn.1
        · exact har hn.1
      · rintro ⟨target', ht', htr⟩
        obtain rfl := some.inj (ht.symm.trans ht')
        rcases htr with h | ⟨accountId, -, -, aPartition, -, hr⟩
        · exact hid h
        · exact har (hr ▸ rfl)

end

/-- **Whom STS hands out.**  A session is for the very role, or account root, that was authorised exactly
when the request spells its ARN as it is stored, or names the account or its root. -/
theorem sts_hands_out_iff (T : Tools) (a : Accounts) (req : AwsRequest) (now : ℤ) (creds : StsCredentials)
    (generatedRoleId : Str) (m : Minted) :
    (∀ op : RoleOperation, req.action = op.action → op.run T a req now creds generatedRoleId = .ok m →
      (HandsOutRole T a req op m.credential ↔ NamesStoredRole a req)) ∧
    (req.action = "AssumeRoot" → assumeRoot T a req now creds = .ok m →
      (HandsOutRoot req m.credential ↔ TargetsRoot req)) := by
  refine ⟨fun op ha h => ?_, fun ha h => handsOutRoot_iff ha h⟩
  obtain ⟨roleArn, role, hm⟩ := run_minted h
  exact hm.handsOutRole_iff ha

namespace Example

def allowAll : PolicyDocument :=
  ⟨[⟨.allow, .action ["sts:*"], .resource ["*"], none, .principal [.anyAws], true⟩]⟩

/-- Every policy text allows everything, and no token can be read. -/
def tools : Tools where
  formats := .silent
  parsePolicy _ := allowAll
  isJsonObject _ := true
  verifyTotp _ _ _ := none
  decodeJwt _ := none
  extractSamlSessionName _ := none
  extractSamlClaims _ := ⟨none, none⟩
  expectedSamlAudience _ := none
  debugAudience _ := []
  canAssumeRootInto := none

def adminArn : Str := "arn:aws:iam::123456789012:role/ops/Admin"

/-- One account with the role `Admin` below the path `/ops/`. -/
def accounts : Accounts where
  defaultAccountId := "123456789012"
  region := "us-east-1"
  accounts := (OrdMap.empty : StrMap IamState).insert "123456789012"
    { accountId := "123456789012"
      roles := (OrdMap.empty : StrMap Role).insert "Admin"
        ⟨"AROAADMIN", adminArn, "/ops/", "trust", 3600, []⟩ }

def creds : StsCredentials := ⟨"ASIA1", "secret", "token"⟩

def request (action : Str) (params : QueryMap) : AwsRequest where
  service := "sts"
  action
  region := "us-east-1"
  accountId := "123456789012"
  headers := ⟨[], HeaderMap.named_nil⟩
  queryParams := params
  body := []
  bodyStream := none
  pathSegments := []
  rawPath := "/"
  rawQuery := []
  method := "POST"
  isQueryProtocol := true
  accessKeyId := none
  principal := none

def assume (action roleArn : Str) : AwsRequest :=
  request action [("RoleArn", roleArn), ("RoleSessionName", "s1"),
    ("WebIdentityToken", "token")]

def otherSpelling : AwsRequest := assume "AssumeRole" "ARN:AWS:IAM::123456789012:role/ops/Admin"

def wrongPath : AwsRequest := assume "AssumeRoleWithWebIdentity" "arn:aws:iam::123456789012:role/dev/Admin"

def bobArn : Str := "arn:aws:iam::123456789012:user/bob"

/-- A user in the place of an account. -/
def rootOfUser : AwsRequest :=
  request "AssumeRoot" [("TargetPrincipal", bobArn), ("TaskPolicyArn", "arn:aws:iam::aws:policy/x")]

def ownRoot : AwsRequest :=
  request "AssumeRoot" [("TargetPrincipal", "123456789012"),
    ("TaskPolicyArn", "arn:aws:iam::aws:policy/x")]

theorem exists_minted (x : Except Rejection Minted) (arn : Str)
    (h : x.map (fun m => m.credential.principalArn) = .ok arn) :
    ∃ m, x = .ok m ∧ m.credential.principalArn = arn := map_eq_ok.mp h

/-- No request that leads to the role under another text names it. -/
theorem not_namesStoredRole {req : AwsRequest} {roleArn : Str}
    (hrq : req.queryParams.get "RoleArn" = some roleArn)
    (hf : ((accounts.stateOf (targetAccount req roleArn)).roles.get (assumedRoleName roleArn)).map Role.arn =
      some adminArn) (hne : adminArn ≠ roleArn) : ¬ NamesStoredRole accounts req := by
  rintro ⟨roleArn', role, hr', hrl, ha⟩
  obtain rfl := some.inj (hrq.symm.trans hr')
  rw [hrl, map_some, some.injEq, ha] at hf
  exact hne hf.symm

/-- Another spelling of a role's ARN and a wrong path give sessions of the role, and a user's ARN gives a
session of the user. -/
theorem authorised_and_handed_out_differ :
    (∃ m, assumeRole tools accounts otherSpelling 0 creds = .ok m ∧
        m.credential.principalArn = "arn:aws:sts::123456789012:assumed-role/Admin/s1" ∧
        ¬ HandsOutRole tools accounts otherSpelling .assumeRole m.credential) ∧
      (∃ m, assumeRoleWithWebIdentity tools accounts wrongPath 0 creds [] = .ok m ∧
        m.credential.principalArn = "arn:aws:sts::123456789012:assumed-role/Admin/s1" ∧
        ¬ HandsOutRole tools accounts wrongPath .assumeRoleWithWebIdentity m.credential) ∧
      ∃ m, assumeRoot tools accounts rootOfUser 0 creds = .ok m ∧ m.credential.principalArn = bobArn ∧
        ¬ HandsOutRoot rootOfUser m.credential := by
  refine ⟨?_, ?_, ?_⟩
  · obtain ⟨m, hm, hp⟩ := exists_minted (assumeRole tools accounts otherSpelling 0 creds)
      "arn:aws:sts::123456789012:assumed-role/Admin/s1" (by decide +kernel)
    obtain ⟨roleArn, role, hmn⟩ := assumeRole_minted hm
    refine ⟨m, hm, hp, fun h => ?_⟩
    refine @not_namesStoredRole _ "ARN:AWS:IAM::123456789012:role/ops/Admin" (by decide +kernel) ?_ ?_
      ((hmn.handsOutRole_iff rfl).mp h)
    · decide +kernel
    · decide
  · obtain ⟨m, hm, hp⟩ := exists_minted (assumeRoleWithWebIdentity tools accounts wrongPath 0 creds [])
      "arn:aws:sts::123456789012:assumed-role/Admin/s1" (by decide +kernel)
    obtain ⟨roleArn, role, hmn⟩ := assumeRoleWithWebIdentity_minted hm
    refine ⟨m, hm, hp, fun h => ?_⟩
    refine @not_namesStoredRole _ "arn:aws:iam::123456789012:role/dev/Admin" (by decide +kernel) ?_ ?_
      ((hmn.handsOutRole_iff rfl).mp h)
    · decide +kernel
    · decide
  · obtain ⟨m, hm, hp⟩ := exists_minted (assumeRoot tools accounts rootOfUser 0 creds)
      bobArn (by decide +kernel)
    refine ⟨m, hm, hp, ?_⟩
    rintro ⟨accountId, -, ⟨aPartition, -, hr⟩, -⟩
    rw [hp] at hr
    have hs : ":root" <:+ bobArn := ⟨_, hr.symm⟩
    exact absurd hs (by decide)

end Example

open Example in
/-- The ARN as it is stored, and an account by its id. -/
theorem sts_hands_out_admin :
    (∃ m, RoleOperation.assumeRole.run tools accounts (assume "AssumeRole" adminArn) 0 creds [] = .ok m ∧
      (HandsOutRole tools accounts (assume "AssumeRole" adminArn) .assumeRole m.credential ↔
        NamesStoredRole accounts (assume "AssumeRole" adminArn))) ∧
    ∃ m, assumeRoot tools accounts ownRoot 0 creds = .ok m ∧
      (HandsOutRoot ownRoot m.credential ↔ TargetsRoot ownRoot) := by
  obtain ⟨m, hm, -⟩ :=
    exists_minted (RoleOperation.assumeRole.run tools accounts (assume "AssumeRole" adminArn) 0 creds [])
      "arn:aws:sts::123456789012:assumed-role/Admin/s1" (by decide +kernel)
  obtain ⟨m', hm', -⟩ := exists_minted (assumeRoot tools accounts ownRoot 0 creds)
      "arn:aws:iam::123456789012:root" (by decide +kernel)
  exact ⟨⟨m, hm, (sts_hands_out_iff tools accounts (assume "AssumeRole" adminArn) 0 creds [] m).1
      .assumeRole rfl hm⟩, m', hm', (sts_hands_out_iff tools accounts ownRoot 0 creds [] m').2 rfl hm'⟩

end Fakecloud.Sts

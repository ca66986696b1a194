import Fakecloud.Core.Dispatch

/-!
# Strict enforcement mediates every request

What is known about a request that reaches the handler of an enforceable service in strict mode:
one of five kinds of caller made it, and the check of that kind allowed every action the service
maps the request to.

The property is stated without the functions of the enforcement stage: `AllowedByPolicyOrAcl`,
`RootMediated`, `PrincipalMediated`, `AnonymousMediated` and `InternalMediated` speak about the
answers of the collaborators.  What they share with the code is the condition context each
evaluation is asked with.
-/

namespace Fakecloud.Core

open Text Fakecloud.Aws Option Enforcement

/-! ## The five kinds of mediation -/

section Kinds

variable (cfg : Config) (r : HttpRequest) (e : Enforcement)

/-- A decision of a resource policy that lets a request through: it allows, or it does not forbid and
a public ACL allows. -/
def AllowedByPolicyOrAcl (decision : Decision) (action : IamAction) : Prop :=
  decision = .allow ∨ decision ≠ .explicitDeny ∧ ∃ provider,
    cfg.resourcePolicyProvider = some provider ∧
      provider.publicAclAllows e.request.service action.resource action.action = true

/-- The policy that the provider attaches to the resource of an action. -/
def policyOf (action : IamAction) : Option Str :=
  cfg.resourcePolicyProvider.bind fun provider =>
    provider.resourcePolicy e.request.service action.resource

/-- The account that owns the resource of an action: as the provider says, else as the ARN says, else
the caller's own. -/
def ownerOf (principal : Principal) (action : IamAction) : Str :=
  ((cfg.resourcePolicyProvider.bind fun provider =>
    provider.resourceOwnerAccount e.request.service action.resource).or
      (parseAccountFromArn action.resource)).getD principal.accountId

/-- The identity that the caller's credential resolves to, and that the service sees. -/
def ResolvedAs (principal : Principal) : Prop :=
  e.resolved.map ResolvedCredential.principal = some principal ∧
    e.request.principal = some principal

/-- An account root: what the provider attributes to another account is allowed by the policy of the
resource or by a public ACL, unless the request creates its resource in the caller's account. -/
def RootMediated : Prop :=
  ∃ principal, ResolvedAs e principal ∧ principal.isRoot = true ∧
    (e.service.iamResourceInCallerAccount e.request = true ∨
      ∀ provider, cfg.resourcePolicyProvider = some provider →
        ∀ action ∈ e.service.iamActionsFor e.request, ∀ owner,
          provider.resourceOwnerAccount e.request.service action.resource = some owner →
          owner ≠ principal.accountId →
          AllowedByPolicyOrAcl cfg e
            (e.evaluator.evaluateResourcePolicyOnly principal action
              (e.addGlobalRequestKeys (e.principalConditionContext principal action) principal owner)
              (policyOf cfg e action))
            action)

/-- The evaluator allows an action of a principal against a resource policy and an owner. -/
def EvaluatorAllows (principal : Principal) (action : IamAction) (policy : Option Str) (owner : Str) : Prop :=
  e.evaluator.evaluateWithResourcePolicy principal action
    (e.addGlobalRequestKeys (e.principalConditionContext principal action) principal owner)
    policy owner ((e.resolved.map ResolvedCredential.sessionPolicies).getD [])
    (cfg.scpResolver.bind fun resolver => resolver.scpsFor principal) = .allow

/-- Any other resolved identity: there is something to authorize, and the evaluator allows each action
against the policy and the owner of the action's own resource.  Passing a role, and creating a
resource in the caller's account, are asked without a resource policy and without the provider's
owner. -/
def PrincipalMediated : Prop :=
  ∃ principal, ResolvedAs e principal ∧ principal.isRoot = false ∧
    e.service.iamActionsFor e.request ≠ [] ∧
    ∀ action ∈ e.service.iamActionsFor e.request,
      if action.isPassRole = true ∨ e.service.iamResourceInCallerAccount e.request = true then
        EvaluatorAllows cfg e principal action none
          ((parseAccountFromArn action.resource).getD principal.accountId)
      else
        EvaluatorAllows cfg e principal action (policyOf cfg e action)
          (ownerOf cfg e principal action)

/-- No access key in the `Authorization` header, in the presigned parameters or in those of a version 2
URL. -/
def NoCredential : Prop :=
  parseSigv4 (authorizationHeader r) = none ∧ parseSigv4Presigned (queryMap r.query) = none ∧
    sigv2PresignedAccessKey (queryMap r.query) = none

/-- No credential: there is something to authorize, and each action is allowed by the policy of its
resource or by a public ACL. -/
def AnonymousMediated : Prop :=
  NoCredential r ∧ e.request.principal = none ∧ e.service.iamActionsFor e.request ≠ [] ∧
    ∀ action ∈ e.service.iamActionsFor e.request,
      AllowedByPolicyOrAcl cfg e
        (e.evaluator.evaluateAnonymous action (e.anonymousContext action) (policyOf cfg e action))
        action

/-- An in-process caller without credentials: there is something to authorize, and each action other
than passing a role is allowed to that caller by the policy of its resource or by a public ACL. -/
def InternalMediated : Prop :=
  ∃ internal, r.internalCaller = some internal ∧ NoCredential r ∧
    e.service.iamActionsFor e.request ≠ [] ∧
    ∀ action ∈ e.service.iamActionsFor e.request, action.isPassRole = false →
      AllowedByPolicyOrAcl cfg e
        (e.evaluator.evaluateResourcePolicyOnly internal.principal action
          (e.internalContext internal action) (policyOf cfg e action))
        action

end Kinds

/-! ## What passing the checks says -/

section Checks

variable {e : Enforcement} {principal : Principal} {r : HttpRequest}

theorem whenStrict_eq_none (hs : e.config.iamMode = .strict) (rejection : Rejection) :
    e.whenStrict rejection ≠ none := by
  simp [whenStrict, IamMode.isStrict, hs]

theorem firstDenied_eq_none (hs : e.config.iamMode = .strict) {allowed : IamAction → Bool}
    {rejection : IamAction → Rejection} {actions : List IamAction}
    (h : e.firstDenied allowed rejection actions = none) : ∀ action ∈ actions, allowed action = true := by
  intro action hm
  by_contra hno
  have hsm : (actions.find? fun a => !allowed a).isSome = true := by
    rw [List.find?_isSome]
    exact ⟨action, hm, by simpa using hno⟩
  obtain ⟨denied, hd⟩ := isSome_iff_exists.mp hsm
  rw [firstDenied, hd] at h
  exact whenStrict_eq_none hs _ h

theorem policyOrAcl_iff {decision : Decision} {action : IamAction} :
    e.policyOrAcl e.config.resourcePolicyProvider decision action = true ↔
      AllowedByPolicyOrAcl e.config e decision action := by
  unfold policyOrAcl AllowedByPolicyOrAcl Decision.isAllow
  rcases e.config.resourcePolicyProvider with _ | provider
  · simp
  · simp

section

variable (hs : e.config.iamMode = .strict)
include hs

theorem rootMediated_of_authorize (hpr : ResolvedAs e principal) (hr : principal.isRoot = true)
    (h : e.authorizeRootCrossAccount principal = none) : RootMediated e.config e := by
  refine ⟨principal, hpr, hr, ?_⟩
  unfold authorizeRootCrossAccount at h
  split_ifs at h with how
  · exact .inl how
  refine .inr fun provider hp action hm owner ho hfr => ?_
  rw [hp] at h
  have ha := firstDenied_eq_none hs h action hm
  have hf : e.foreignOwner principal provider action = some owner := by
    simp [foreignOwner, ho, hfr]
  rw [rootAllowed, hf, Option.all_some, ← hp, policyOrAcl_iff]
    at ha
  rw [policyOf, hp]
  exact ha

theorem principalMediated_of_authorize (hpr : ResolvedAs e principal) (hr : principal.isRoot = false)
    (h : e.authorizePrincipal principal = none) : PrincipalMediated e.config e := by
  unfold authorizePrincipal at h
  simp only at h
  split_ifs at h with he
  · exact absurd h (whenStrict_eq_none hs _)
  refine ⟨principal, hpr, hr, by simpa using he, fun action hm => ?_⟩
  have ha : e.principalDecision principal action = .allow := by
    simpa [Decision.isAllow] using firstDenied_eq_none hs h action hm
  split_ifs with hsd
  · have hn : (e.config.resourcePolicyProvider.filter fun _ => e.hasResourceSide action) = none := by
      rcases e.config.resourcePolicyProvider with _ | provider
      · rfl
      · rcases hsd with hp | hc
        · simp [hasResourceSide, hp]
        · simp [hasResourceSide, hc]
    have hpl : e.resourcePolicyJson action = none := by
      simp [resourcePolicyJson, hn]
    have ho : e.resourceAccountId principal action =
        (parseAccountFromArn action.resource).getD principal.accountId := by
      simp [resourceAccountId, hn]
    rw [principalDecision, principalContext, hpl, ho] at ha
    exact ha
  · rw [not_or] at hsd
    have hsm : (e.config.resourcePolicyProvider.filter fun _ => e.hasResourceSide action) =
        e.config.resourcePolicyProvider := by
      rcases e.config.resourcePolicyProvider with _ | provider
      · rfl
      · simp [hasResourceSide, hsd]
    rw [principalDecision, principalContext, resourcePolicyJson, resourceAccountId, hsm] at ha
    exact ha

theorem anonymousMediated_of_authorize (hc : NoCredential r) (hp : e.request.principal = none)
    (h : e.authorizeAnonymous = none) : AnonymousMediated e.config r e := by
  unfold authorizeAnonymous at h
  simp only at h
  split_ifs at h with he
  · exact absurd h (whenStrict_eq_none hs _)
  refine ⟨hc, hp, by simpa using he, fun action hm => ?_⟩
  exact policyOrAcl_iff.mp (firstDenied_eq_none hs h action hm)

theorem internalMediated_of_authorize {internal : InternalCaller} (hi : r.internalCaller = some internal)
    (hc : NoCredential r) (h : e.authorizeInternalCaller internal = none) :
    InternalMediated e.config r e := by
  unfold authorizeInternalCaller at h
  simp only at h
  split_ifs at h with he
  · exact absurd h (whenStrict_eq_none hs _)
  refine ⟨internal, hi, hc, by simpa using he, fun action hm hp => ?_⟩
  have hm' : action ∈ (e.service.iamActionsFor e.request).filter fun a => !a.isPassRole :=
    List.mem_filter.mpr ⟨hm, by simp [hp]⟩
  exact policyOrAcl_iff.mp (firstDenied_eq_none hs h action hm')

end

end Checks

/-! ## Who the caller is -/

section Callers

variable {cfg : Config} {r : HttpRequest}

theorem noCredential_of_accessKeyId (h : (identify cfg r).accessKeyId = none) : NoCredential r := by
  have h' : (sigv4Info (authorizationHeader r) (queryMap r.query)).map SigV4Info.accessKey = none ∧
      sigv2PresignedAccessKey (queryMap r.query) = none := by
    simpa [identify] using h
  obtain ⟨hi, hv2⟩ := h'
  have hb : parseSigv4 (authorizationHeader r) = none ∧
      (parseSigv4Presigned (queryMap r.query)).map ParsedSigV4.asInfo = none := by
    simpa [sigv4Info] using hi
  exact ⟨hb.1, by simpa using hb.2, hv2⟩

/-- An in-process identity is taken only from a request without credentials. -/
theorem internalCallerOf_eq_some {internal : InternalCaller}
    (h : internalCallerOf r (identify cfg r) = some internal) :
    r.internalCaller = some internal ∧ NoCredential r := by
  unfold internalCallerOf at h
  split_ifs at h with ha
  rw [Bool.and_eq_true, isNone_iff_eq_none] at ha
  exact ⟨h, noCredential_of_accessKeyId ha.2⟩

theorem identify_resolved {rc : ResolvedCredential} (h : (identify cfg r).resolved = some rc) :
    ∃ resolver akid, cfg.credentialResolver = some resolver ∧
      (identify cfg r).accessKeyId = some akid ∧ isRootBypass akid = false ∧
        resolver.resolve akid = some rc := by
  have ha : (identify cfg r).akid = (identify cfg r).accessKeyId.getD [] := rfl
  have hre : (identify cfg r).resolved =
      if !(identify cfg r).akid.isEmpty && !isRootBypass (identify cfg r).akid then
        cfg.credentialResolver.bind fun resolver => resolver.resolve (identify cfg r).akid
      else none := rfl
  rw [hre] at h
  split_ifs at h with hc
  obtain ⟨hne, hb⟩ : (identify cfg r).akid ≠ [] ∧ isRootBypass (identify cfg r).akid = false := by
    simpa using hc
  obtain ⟨resolver, hrs, hr⟩ := bind_eq_some_iff.mp h
  rcases hk : (identify cfg r).accessKeyId with _ | akid
  · rw [ha, hk] at hne
    exact absurd rfl hne
  · rw [ha, hk] at hb hr
    exact ⟨resolver, akid, hrs, rfl, hb, hr⟩

end Callers

/-! ## The main result -/

section Main

variable {L : Libraries} {cfg : Config} {r : HttpRequest} {request : AwsRequest} {service : Service}
  {evaluator : PolicyEvaluator}

variable {received : Received}

section

variable (h : Handed L cfg r request received service)
include h

theorem handed_caller :
    request.accessKeyId = (identify cfg r).accessKeyId ∧ request.principal =
      callerPrincipal r (identify cfg r) ∧
      request.service = received.detected.service := by
  obtain ⟨body, -, rfl⟩ := h.request_eq
  exact ⟨rfl, rfl, rfl⟩

/-- Without a reserved key the authorization of a strict server has run. -/
theorem handed_authorize
    (hmd : cfg.iamMode = .strict) (hev : cfg.policyEvaluator = some evaluator)
    (he : service.iamEnforceable = true)
    (hb : isRootBypass (request.accessKeyId.getD []) = false) :
    (enforcement L cfg r evaluator service request).authorize
      (internalCallerOf r (identify cfg r)) = none := by
  have hm : mustEnforce cfg service request = true := by
    simp [mustEnforce, IamMode.isEnabled, hmd, he, hb]
  have hen := h.enforced
  rwa [enforce, if_pos hm, hev] at hen

theorem mediated_of_authorize (hm : cfg.iamMode = .strict)
    (ha : (enforcement L cfg r evaluator service request).authorize
      (internalCallerOf r (identify cfg r)) = none) : let e := enforcement L cfg r evaluator service request
    RootMediated cfg e ∨ PrincipalMediated cfg e ∨ AnonymousMediated cfg r e ∨ InternalMediated cfg r e := by
  obtain ⟨hky, hpr, -⟩ := handed_caller h
  have hs : (enforcement L cfg r evaluator service request).config.iamMode = .strict := hm
  unfold authorize at ha
  rcases hi : internalCallerOf r (identify cfg r) with _ | internal
  · rw [hi] at ha
    have hrs : request.principal = (identify cfg r).resolved.map ResolvedCredential.principal := by
      simp [hpr, callerPrincipal, hi]
    rcases hp : request.principal with _ | principal
    · rcases hk : request.accessKeyId with _ | akid
      · have hc : NoCredential r := noCredential_of_accessKeyId (hky ▸ hk)
        simp only [enforcement, hp, hk] at ha
        exact .inr (.inr (.inl
          (anonymousMediated_of_authorize hs hc hp ha)))
      · simp only [enforcement, hp, hk] at ha
        exact absurd ha (whenStrict_eq_none hs _)
    · have has : ResolvedAs (enforcement L cfg r evaluator service request) principal := ⟨hrs ▸ hp, hp⟩
      simp only [enforcement, hp] at ha
      split_ifs at ha with hrt
      · exact .inl (rootMediated_of_authorize hs has hrt ha)
      · exact .inr (.inl
          (principalMediated_of_authorize hs has (by simpa using hrt) ha))
  · rw [hi] at ha
    obtain ⟨hr, hc⟩ := internalCallerOf_eq_some hi
    exact .inr (.inr (.inr (internalMediated_of_authorize hs hr hc ha)))

/-- A key that is not reserved and resolves to nothing does not get past a strict server. -/
theorem resolved_of_authorize (hm : cfg.iamMode = .strict)
    (hat : (enforcement L cfg r evaluator service request).authorize
      (internalCallerOf r (identify cfg r)) = none) {akid : Str} (ha : request.accessKeyId = some akid) :
    ∃ resolver rc, cfg.credentialResolver = some resolver ∧ resolver.resolve akid = some rc ∧
      request.principal = some rc.principal := by
  obtain ⟨hk, hp, -⟩ := handed_caller h
  have hi : internalCallerOf r (identify cfg r) = none := by
    simp [internalCallerOf, ← hk, ha]
  have hs : (enforcement L cfg r evaluator service request).config.iamMode = .strict := hm
  rcases hre : (identify cfg r).resolved with _ | rc
  · have hn : request.principal = none := by
      simp [hp, callerPrincipal, hi, hre]
    rw [hi] at hat
    unfold authorize at hat
    simp only [enforcement, hn, ha] at hat
    exact absurd hat (whenStrict_eq_none hs _)
  · obtain ⟨resolver, akid', hr, ha', -, hrs⟩ := identify_resolved hre
    obtain rfl : akid = akid' := by
      rw [← hk, ha, some.injEq] at ha'
      exact ha'
    exact ⟨resolver, rc, hr, hrs, by simp [hp, callerPrincipal, hre]⟩

end

/-- **Strict enforcement mediates every request.** -/
theorem strict_enforcement_mediates (hmode : cfg.iamMode = .strict)
    (hevaluator : cfg.policyEvaluator = some evaluator)
    (hdispatch : dispatchInner L cfg r = .ok request)
    (hservice : cfg.registry request.service = some service)
    (henforceable : service.iamEnforceable = true) :
    let e := enforcement L cfg r evaluator service request
    ((∃ akid, request.accessKeyId = some akid ∧ isRootBypass akid = true) ∨
      RootMediated cfg e ∨ PrincipalMediated cfg e ∨ AnonymousMediated cfg r e ∨
      InternalMediated cfg r e) ∧
    ∀ akid, request.accessKeyId = some akid → isRootBypass akid = false →
      ∃ resolver rc, cfg.credentialResolver = some resolver ∧ resolver.resolve akid = some rc ∧
        request.principal = some rc.principal := by
  obtain ⟨received, service', h⟩ := dispatchInner_eq_ok.mp hdispatch
  obtain rfl : service' = service := by
    have hr := h.registered
    rw [← (handed_caller h).2.2, hservice, some.injEq] at hr
    exact hr.symm
  refine ⟨?_, fun akid hak hby => ?_⟩
  · rcases hk : request.accessKeyId with _ | akid
    · have ha := handed_authorize h hmode hevaluator henforceable (by rw [hk]; decide)
      exact .inr (mediated_of_authorize h hmode ha)
    · rcases hb : isRootBypass akid with _ | _
      · have ha := handed_authorize h hmode hevaluator henforceable (by rw [hk]; exact hb)
        exact .inr (mediated_of_authorize h hmode ha)
      · exact .inl ⟨akid, rfl, hb⟩
  · have ha := handed_authorize h hmode hevaluator henforceable (by rw [hak]; exact hby)
    exact resolved_of_authorize h hmode ha hak

end Main

/-! ### A signed request -/

namespace Example

/-- Nothing of these libraries is called by a small JSON request. -/
def libraries : Libraries where
  primitives := ⟨id, fun key message => key ++ message, fun _ => some 0⟩
  now := 0
  maxRequestBodyBytes := 1024
  gunzip := fun _ body => .ok body
  parseJson := fun _ => none
  decodeCbor := .ok
  validHeaderValue := fun _ => true
  rfc2047 := id
  encodeDeny := fun _ _ _ _ => []

def alice : Principal :=
  ⟨"arn:aws:iam::111111111111:user/alice", "AIDAALICE", "111111111111", .user, none, none⟩

def resolver : CredentialResolver where
  resolve := fun akid =>
    if akid == "AKIAALICE" then some ⟨"secret", none, alice, [], false, none, none⟩ else none
  isExpired := fun _ => false

/-- Allows what stays inside the caller's account. -/
def evaluator : PolicyEvaluator where
  evaluateWithResourcePolicy := fun principal _ _ _ owner _ _ =>
    if owner == principal.accountId then .allow else .implicitDeny
  evaluateAnonymous := fun _ _ _ => .implicitDeny
  evaluateResourcePolicyOnly := fun _ _ _ _ => .implicitDeny

def queues : Service where
  iamEnforceable := true
  iamActionsFor := fun _ => [⟨"sqs", "SendMessage", "arn:aws:sqs:us-east-1:111111111111:q"⟩]
  iamResourceInCallerAccount := fun _ => false
  iamConditionKeysFor := fun _ _ => []
  resourceTagsFor := fun _ => none
  requestTagsFrom := fun _ _ => none

def config : Config where
  region := "us-east-1"
  accountId := "000000000000"
  verifySigv4 := false
  iamMode := .strict
  credentialResolver := some resolver
  policyEvaluator := some evaluator
  resourcePolicyProvider := none
  scpResolver := none
  registry := fun _ => some queues

def sendMessage : HttpRequest where
  method := "POST"
  path := "/"
  query := []
  headers :=
    ⟨[("x-amz-target", utf8 "AmazonSQS.SendMessage"),
      ("authorization", utf8
        "AWS4-HMAC-SHA256 Credential=AKIAALICE/20240101/us-east-1/sqs/aws4_request")],
      by decide⟩
  body := []
  remoteAddr := .v4 0
  methodToken := by decide

end Example

theorem strict_enforcement_mediates_sendMessage :
    ∃ request, dispatchInner Example.libraries Example.config Example.sendMessage = .ok request ∧
      ((∃ akid, request.accessKeyId = some akid ∧ isRootBypass akid = true) ∨
        RootMediated Example.config (enforcement Example.libraries Example.config
          Example.sendMessage Example.evaluator Example.queues request) ∨
        PrincipalMediated Example.config (enforcement Example.libraries Example.config
          Example.sendMessage Example.evaluator Example.queues request) ∨
        AnonymousMediated Example.config Example.sendMessage (enforcement Example.libraries
          Example.config Example.sendMessage Example.evaluator Example.queues request) ∨
        InternalMediated Example.config Example.sendMessage (enforcement Example.libraries
          Example.config Example.sendMessage Example.evaluator Example.queues request)) :=
  ⟨_, rfl, (strict_enforcement_mediates (L := Example.libraries) (r := Example.sendMessage)
    rfl rfl rfl rfl rfl).1⟩

end Fakecloud.Core

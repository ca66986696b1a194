import Fakecloud.Sts.Principals
import Fakecloud.Core.Authenticity

/-!
# Sessions that a caller issues to themselves

`GetSessionToken` and `GetDelegatedAccessToken` mint a credential for their caller.  What a request is
allowed depends on a credential through its principal, its session policies and its federated provider, the
keys for multi-factor authentication and the time of issue aside; a minted credential that has these of
its caller has the same *power*.

The minted records carry no session policies and no provider, and the tags of a principal are read off
its ARN again.  So a credential with session policies, a provider or the tags of a user gives a session
with more power than its own; a caller who signs in the query string becomes the account root.
-/

namespace Fakecloud.Sts

open Text Fakecloud.Core Fakecloud.Aws Fakecloud.Iam Option Accounts OrdMap IamState

/-! ## Calls -/

inductive SelfMint
  | getSessionToken | getDelegatedAccessToken
  deriving DecidableEq

def SelfMint.ofAction (action : Str) : Option SelfMint :=
  if action = "GetSessionToken" then some .getSessionToken
  else if action = "GetDelegatedAccessToken" then some .getDelegatedAccessToken
  else none

def SelfMint.run (T : Tools) (a : Accounts) (req : AwsRequest) (now : ℤ) (creds : StsCredentials) :
    SelfMint → Except Rejection Minted
  | .getSessionToken => Sts.getSessionToken T a req now creds
  | .getDelegatedAccessToken => Sts.getDelegatedAccessToken a req now creds

/-- A request, the libraries with the clock, and the random parts of the credential. -/
structure Call where
  libraries : Libraries
  request : HttpRequest
  creds : StsCredentials

def Call.now (c : Call) : ℤ := c.libraries.now

/-- The server with signature verification and strict enforcement, over these accounts. -/
def serverConfig (cfg : Config) (a : Accounts) (now : ℤ) : Config :=
  { cfg with verifySigv4 := true, iamMode := .strict, credentialResolver := some (a.credentialResolver now) }

/-- What the dispatcher knows of the caller. -/
def Call.caller (cfg : Config) (a : Accounts) (c : Call) : Caller :=
  identify (serverConfig cfg a c.now) c.request

def otherOperation : Rejection := ⟨501, "NotImplemented", "another operation"⟩

/-- A call from the wire to the new credential. -/
def serve (T : Tools) (cfg : Config) (a : Accounts) (c : Call) : Except Rejection (SelfMint × Minted) := do
  let req ← dispatchInner c.libraries (serverConfig cfg a c.now) c.request
  require (req.service == "sts") otherOperation
  let op ← orReject otherOperation (SelfMint.ofAction req.action)
  let minted ← op.run T (a.sweep c.now) req c.now c.creds
  return (op, minted)

/-! ## Accounts -/

/-- Accounts are stored under their ids, and so are their credentials. -/
structure Sound (a : Accounts) : Prop where
  accountId : ∀ id s, a.accounts.get id = some s → s.accountId = id
  credential : ∀ id s key temp, a.accounts.get id = some s → s.stsTempCredentials.get key = some temp →
    temp.accountId = id

def Unknown (a : Accounts) (key : Str) : Prop :=
  ∀ id s, a.accounts.get id = some s → s.userKey key = none ∧ s.stsTempCredentials.get key = none

section Lookup

variable {a : Accounts} {now : ℤ} {key : Str} {l : SecretLookup} {s : IamState}

theorem exists_of_lookup (h : a.lookup now key = some l) :
    ∃ id s, a.accounts.get id = some s ∧ s.credentialSecret now key = some l := by
  obtain ⟨entry, he, hl⟩ := List.exists_of_findSome?_eq_some h
  exact ⟨entry.1, entry.2, mem_entries.mp he, hl⟩

/-- When all accounts that know the key agree, that is what it resolves to. -/
theorem lookup_eq_some {id : Str} (hs : a.accounts.get id = some s) (hl : s.credentialSecret now key = some l)
    (ha : ∀ id' s' l', a.accounts.get id' = some s' → s'.credentialSecret now key = some l' → l' = l) :
    a.lookup now key = some l := by
  have hsm : (a.lookup now key).isSome := by
    rw [lookup, List.findSome?_isSome_iff]
    exact ⟨(id, s), mem_entries.mpr hs, by simp [hl]⟩
  obtain ⟨l', hl'⟩ := isSome_iff_exists.mp hsm
  obtain ⟨id', s', hs', hlk⟩ := exists_of_lookup hl'
  rw [hl', ha id' s' l' hs' hlk]

theorem credentialSecret_eq_none (hu : s.userKey key = none)
    (ht : s.stsTempCredentials.get key = none) : s.credentialSecret now key = none := by
  rw [credentialSecret, hu, ht]
  rfl

theorem Sound.lookup_accountId (h : Sound a) {id : Str} (hs : a.accounts.get id = some s)
    (hl : s.credentialSecret now key = some l) : l.accountId = id := by
  unfold credentialSecret at hl
  split at hl
  · cases hl
    exact h.accountId id s hs
  · obtain ⟨temp, ht, rfl⟩ := map_eq_some_iff.mp hl
    exact h.credential id s key temp hs (filter_eq_some_iff.mp ht).1

theorem Sound.stateOf_accountId (h : Sound a) (id : Str) : (a.stateOf id).accountId = id := by
  unfold stateOf
  cases hs : a.accounts.get id with
  | none => rfl
  | some s => exact h.accountId id s hs

end Lookup

/-! ### The sweep -/

section Sweep

variable {a : Accounts} {now : ℤ} {s : IamState}

theorem get_sweep {id : Str} :
    (a.sweep now).accounts.get id = (a.accounts.get id).map fun s => s.pruneExpired now := get_mapValues _ _ _

theorem get_of_get_sweep {id : Str} (h : (a.sweep now).accounts.get id = some s) :
    ∃ s₀, a.accounts.get id = some s₀ ∧ s = s₀.pruneExpired now := by
  rw [get_sweep] at h
  obtain ⟨s₀, hs₀, rfl⟩ := map_eq_some_iff.mp h
  exact ⟨s₀, hs₀, rfl⟩

theorem temp_of_pruneExpired {key : Str} {temp : StsTempCredential}
    (h : (s.pruneExpired now).stsTempCredentials.get key = some temp) :
    s.stsTempCredentials.get key = some temp := by
  rw [pruneExpired, get_retain] at h
  exact (filter_eq_some_iff.mp h).1

/-- Sweeping removes only credentials that have expired. -/
theorem credentialSecret_pruneExpired (s : IamState) (key : Str) :
    (s.pruneExpired now).credentialSecret now key = s.credentialSecret now key := by
  have hl : ∀ temp : StsTempCredential,
      (decide (now - expiredStsRetention < temp.expiration) && decide (now < temp.expiration)) =
        decide (now < temp.expiration) := by
    intro temp
    by_cases h : now < temp.expiration
    · have hk : now - expiredStsRetention < temp.expiration := by
        unfold expiredStsRetention
        omega
      simp [hk]
    · simp [h]
  have hg : ((s.pruneExpired now).stsTempCredentials.get key).filter (fun temp => now < temp.expiration) =
      (s.stsTempCredentials.get key).filter fun temp => now < temp.expiration := by
    rw [pruneExpired, get_retain, Option.filter_filter]
    simp only [hl]
  rw [credentialSecret, hg]
  rfl

theorem stateOf_sweep (id : Str) : (a.sweep now).stateOf id = (a.stateOf id).pruneExpired now := by
  rw [stateOf, get_sweep, stateOf]
  cases a.accounts.get id <;> rfl

theorem Sound.sweep (h : Sound a) : Sound (a.sweep now) where
  accountId id s hs := by
    obtain ⟨s₀, hs₀, rfl⟩ := get_of_get_sweep hs
    exact h.accountId id s₀ hs₀
  credential id s key temp hs ht := by
    obtain ⟨s₀, hs₀, rfl⟩ := get_of_get_sweep hs
    exact h.credential id s₀ key temp hs₀ (temp_of_pruneExpired ht)

theorem Unknown.sweep {key : Str} (h : Unknown a key) : Unknown (a.sweep now) key := by
  intro id s hs
  obtain ⟨s₀, hs₀, rfl⟩ := get_of_get_sweep hs
  obtain ⟨hu, ht⟩ := h id s₀ hs₀
  refine ⟨hu, ?_⟩
  rw [pruneExpired, get_retain, ht]
  rfl

end Sweep

/-! ### Storing a credential -/

def holding (s : IamState) (key : Str) (credential : StsTempCredential) : IamState :=
  { s with stsTempCredentials := s.stsTempCredentials.insert key credential }

section Holding

variable {s : IamState} {key : Str} {credential : StsTempCredential} {t : ℤ}

theorem credentialSecret_holding_ne {other : Str} (hne : other ≠ key) :
    (holding s key credential).credentialSecret t other = s.credentialSecret t other := by
  have hg : (holding s key credential).stsTempCredentials.get other = s.stsTempCredentials.get other := by
    rw [holding, get_insert, if_neg hne]
  rw [credentialSecret, hg]
  rfl

theorem credentialSecret_holding_self (hu : s.userKey key = none) :
    (holding s key credential).credentialSecret t key =
      ((some credential).filter fun temp => t < temp.expiration).map s.tempLookup := by
  have hg : (holding s key credential).stsTempCredentials.get key = some credential := by
    rw [holding, get_insert, if_pos rfl]
  have hu' : (holding s key credential).userKey key = none := hu
  rw [credentialSecret, hu', hg]
  rfl

end Holding

section Store

variable {a : Accounts} {creds : StsCredentials} {storedIn : Str} {credential : StsTempCredential}
  {id : Str} {s : IamState} {t : ℤ} {l : SecretLookup}

theorem stateOf_cases (a : Accounts) (id : Str) :
    a.accounts.get id = some (a.stateOf id) ∨ a.stateOf id = .fresh id a.region := by
  unfold stateOf
  cases a.accounts.get id with
  | none => exact .inr rfl
  | some s => exact .inl rfl

theorem userKey_fresh (id region key : Str) : (fresh id region).userKey key = none := rfl

theorem Unknown.stateOf {key : Str} (h : Unknown a key) (id : Str) : (a.stateOf id).userKey key = none := by
  rcases stateOf_cases a id with hs | hs
  · exact (h id _ hs).1
  · rw [hs]
    exact userKey_fresh ..

theorem get_mint : (mint a creds storedIn credential).accounts.accounts.get id =
    if id = storedIn then some (holding (a.stateOf storedIn) creds.accessKeyId credential)
    else a.accounts.get id := get_insert _ _ _ _

theorem get_mint_cases
    (h : (mint a creds storedIn credential).accounts.accounts.get id = some s) : a.accounts.get id = some s ∨
      id = storedIn ∧ s = holding (a.stateOf storedIn) creds.accessKeyId credential := by
  rw [get_mint] at h
  split_ifs at h with hid
  · exact .inr ⟨hid, (some.inj h).symm⟩
  · exact .inl h

theorem Sound.mint (h : Sound a) (ha : credential.accountId = storedIn) :
    Sound (mint a creds storedIn credential).accounts where
  accountId id s hs := by
    rcases get_mint_cases hs with hs | ⟨rfl, rfl⟩
    · exact h.accountId id s hs
    · exact h.stateOf_accountId id
  credential id s key temp hs ht := by
    rcases get_mint_cases hs with hs | ⟨rfl, rfl⟩
    · exact h.credential id s key temp hs ht
    · rw [holding, get_insert] at ht
      split_ifs at ht
      · rw [← some.inj ht, ha]
      · rcases stateOf_cases a id with hs | hs
        · exact h.credential id _ key temp hs ht
        · rw [hs] at ht
          cases ht

theorem credentialSecret_mint_ne {key : Str} (hne : key ≠ creds.accessKeyId)
    (hs : (mint a creds storedIn credential).accounts.accounts.get id = some s)
    (hl : s.credentialSecret t key = some l) :
    ∃ s₀, a.accounts.get id = some s₀ ∧ s₀.credentialSecret t key = some l := by
  rcases get_mint_cases hs with hs | ⟨rfl, rfl⟩
  · exact ⟨s, hs, hl⟩
  · rw [credentialSecret_holding_ne hne] at hl
    rcases stateOf_cases a id with hs | hs
    · exact ⟨_, hs, hl⟩
    · rw [hs] at hl
      cases hl

theorem credentialSecret_mint_self (hf : Unknown a creds.accessKeyId)
    (hs : (mint a creds storedIn credential).accounts.accounts.get id = some s)
    (hl : s.credentialSecret t creds.accessKeyId = some l) :
    l = (a.stateOf storedIn).tempLookup credential := by
  rcases get_mint_cases hs with hs | ⟨rfl, rfl⟩
  · obtain ⟨hu, ht⟩ := hf id s hs
    rw [credentialSecret_eq_none hu ht] at hl
    cases hl
  · rw [credentialSecret_holding_self (hf.stateOf id)] at hl
    obtain ⟨temp, ht, rfl⟩ := map_eq_some_iff.mp hl
    rw [some.inj (filter_eq_some_iff.mp ht).1]

theorem lookup_mint_self (hf : Unknown a creds.accessKeyId) (ht : t < credential.expiration) :
    (mint a creds storedIn credential).accounts.lookup t creds.accessKeyId =
      some ((a.stateOf storedIn).tempLookup credential) := by
  have hg : (mint a creds storedIn credential).accounts.accounts.get storedIn =
      some (holding (a.stateOf storedIn) creds.accessKeyId credential) := by rw [get_mint, if_pos rfl]
  have hk : (holding (a.stateOf storedIn) creds.accessKeyId credential).credentialSecret t
      creds.accessKeyId = some ((a.stateOf storedIn).tempLookup credential) := by
    rw [credentialSecret_holding_self (hf.stateOf storedIn), filter_some,
      if_pos (decide_eq_true ht), map_some]
  exact lookup_eq_some hg hk fun id' s' l' hs' hl' => credentialSecret_mint_self hf hs' hl'

end Store

/-! ## Whom a session is issued to -/

def issuedTo (cfg : Config) (a : Accounts) (c : Call) (rc : ResolvedCredential) : SelfMint → Str × Str
  | .getSessionToken =>
    if (parseSigv4 (authorizationHeader c.request)).isSome then (rc.principal.arn, rc.principal.userId)
    else (rootArn (partitionFor (c.caller cfg a).region) rc.principal.accountId, rc.principal.accountId)
  | .getDelegatedAccessToken => (rc.principal.arn, rc.principal.accountId)

section Serve

variable {T : Tools} {cfg : Config} {a : Accounts} {c : Call} {rc : ResolvedCredential} {req : AwsRequest}

structure Received (cfg : Config) (a : Accounts) (c : Call) (rc : ResolvedCredential) (req : AwsRequest) :
    Prop where
  headers : req.headers = c.request.headers
  region : req.region = (c.caller cfg a).region
  accountId : req.accountId = rc.principal.accountId
  principal : req.principal = some rc.principal

theorem received_of_dispatch (hc : (c.caller cfg a).resolved = some rc)
    (hd : dispatchInner c.libraries (serverConfig cfg a c.now) c.request = .ok req)
    (hs : req.service = "sts") : Received cfg a c rc req := by
  obtain ⟨received, service, h⟩ := dispatchInner_eq_ok.mp hd
  obtain ⟨body, -, rfl⟩ := h.request_eq
  have hi : internalCallerOf c.request (identify (serverConfig cfg a c.now) c.request) = none := by
    obtain ⟨_, akid, -, ha, -⟩ := identify_resolved hc
    simp [internalCallerOf, ha]
  have hp : callerPrincipal c.request (identify (serverConfig cfg a c.now) c.request) =
    some rc.principal := by
    have hr : (identify (serverConfig cfg a c.now) c.request).resolved = some rc := hc
    rw [callerPrincipal, hr]
    rfl
  refine ⟨?_, rfl, ?_, hp⟩
  · have hdt : received.detected.service = "sts" := hs
    have hne : (received.detected.service == ("s3")) = false := by
      rw [hdt]
      decide
    simp only [awsRequest, hne, Bool.false_and, Bool.false_eq_true, if_false]
  · simp only [awsRequest, hi, hp, map_some, getD_some]

variable (hs : Sound a) (hc : (c.caller cfg a).resolved = some rc)
include hs hc

theorem exists_of_resolved :
    ∃ akid l, (c.caller cfg a).accessKeyId = some akid ∧ rc = resolvedCredential l ∧
      ((a.sweep c.now).stateOf l.accountId).credentialSecret c.now akid = some l := by
  obtain ⟨resolver, akid, hr, ha, -, hrs⟩ := identify_resolved hc
  obtain rfl : a.credentialResolver c.now = resolver := some.inj hr
  obtain ⟨l, hl, rfl⟩ := map_eq_some_iff.mp hrs
  obtain ⟨id, s, hg, hk⟩ := exists_of_lookup hl
  refine ⟨akid, l, ha, rfl, ?_⟩
  rw [hs.lookup_accountId hg hk, stateOf_sweep, stateOf, hg, credentialSecret_pruneExpired]
  exact hk

theorem sessionOwner_eq (hr : Received cfg a c rc req) :
    sessionOwner ((a.sweep c.now).stateOf req.accountId) req c.now =
      ((issuedTo cfg a c rc .getSessionToken).1, (issuedTo cfg a c rc .getSessionToken).2,
        rc.principal.accountId) := by
  obtain ⟨akid, l, hak, rfl, hk⟩ := exists_of_resolved hs hc
  have ha : req.accountId = l.accountId := hr.accountId
  have hky : extractAccessKey req = (parseSigv4 (authorizationHeader c.request)).map SigV4Info.accessKey := by
    rw [extractAccessKey, hr.headers, authorizationHeader]
    cases c.request.headers.getStr "authorization" with
    | none => rfl
    | some header => rfl
  unfold sessionOwner issuedTo
  rw [hky, ha]
  cases hh : parseSigv4 (authorizationHeader c.request) with
  | none =>
    rw [hs.sweep.stateOf_accountId, hr.region]
    rfl
  | some info =>
    -- the dispatcher prefers the header too
    have hi : (c.caller cfg a).accessKeyId = some info.accessKey := by
      simp [Call.caller, identify, sigv4Info, hh]
    obtain rfl : akid = info.accessKey := some.inj (hak.symm.trans hi)
    rw [map_some, bind_some, hk]
    rfl

/-- A served call stores a plain session in the caller's account. -/
theorem serve_eq_ok {op : SelfMint} {m : Minted} (hsr : serve T cfg a c = .ok (op, m)) :
    ∃ expiration mfaPresent, m = mint (a.sweep c.now) c.creds rc.principal.accountId
      (plainSession c.creds c.now expiration (issuedTo cfg a c rc op).1 (issuedTo cfg a c rc op).2
        rc.principal.accountId mfaPresent) := by
  simp only [serve, bind_eq_ok, require_eq_ok] at hsr
  obtain ⟨req, hd, -, hst, op', -, m', hr, heq⟩ := hsr
  have hp : (op', m') = (op, m) := Except.ok.inj heq
  obtain ⟨rfl, rfl⟩ := Prod.mk.inj hp
  have hrq := received_of_dispatch hc hd (by simpa using hst)
  cases op' with
  | getSessionToken =>
    simp only [SelfMint.run, getSessionToken, bind_eq_ok] at hr
    obtain ⟨-, -, -, -, -, -, -, -, expiration, -, mfaPresent, -, hm⟩ := hr
    rw [sessionOwner_eq hs hc hrq, hrq.accountId] at hm
    exact ⟨expiration, mfaPresent, (Except.ok.inj hm).symm⟩
  | getDelegatedAccessToken =>
    simp only [SelfMint.run, getDelegatedAccessToken, bind_eq_ok, hrq.principal] at hr
    obtain ⟨-, -, hm⟩ := hr
    exact ⟨_, false, (Except.ok.inj hm).symm⟩

end Serve

/-! ## Power -/

/-- The credentials are the same to the evaluator, up to the keys that tell how and when they were issued. -/
structure SamePower (rc rc' : ResolvedCredential) : Prop where
  principal : rc'.principal = rc.principal
  sessionPolicies : rc'.sessionPolicies = rc.sessionPolicies
  federatedProvider : rc'.federatedProvider = rc.federatedProvider

theorem SamePower.trans {rc rc' rc'' : ResolvedCredential} (h : SamePower rc rc') (h' : SamePower rc' rc'') :
    SamePower rc rc'' where
  principal := h'.principal.trans h.principal
  sessionPolicies := h'.sessionPolicies.trans h.sessionPolicies
  federatedProvider := h'.federatedProvider.trans h.federatedProvider

/-- A request, authorized under a credential. -/
def under (e : Enforcement) (rc : ResolvedCredential) : Enforcement :=
  { e with
    resolved := some rc
    request := { e.request with principal := some rc.principal, accountId := rc.principal.accountId } }

/-- A credential with the multi-factor and issue keys of another. -/
def issuedLike (rc rc' : ResolvedCredential) : ResolvedCredential :=
  { rc' with mfaPresent := rc.mfaPresent, tokenIssuedAt := rc.tokenIssuedAt }

/-- Whatever the policies, the request and the service: the same answer. -/
theorem SamePower.authorize_eq {rc rc' : ResolvedCredential} (h : SamePower rc rc') (e : Enforcement) :
    (under e (issuedLike rc rc')).authorize none = (under e rc).authorize none := by
  obtain ⟨secret', token', principal', policies', mfa', issued', provider'⟩ := rc'
  obtain ⟨hp, hpl, hpr⟩ := h
  subst hp hpl hpr
  rfl

/-- The credential can be issued again by its owner without a change. -/
structure Keeps (cfg : Config) (a : Accounts) (c : Call) (op : SelfMint)
    (rc : ResolvedCredential) : Prop where
  sessionPolicies : rc.sessionPolicies = []
  federatedProvider : rc.federatedProvider = none
  tags : rc.principal.tags = (a.stateOf rc.principal.accountId).resolveRoleTags rc.principal.arn
  /-- a session token needs a header or an account root -/
  token : op = .getSessionToken → (parseSigv4 (authorizationHeader c.request)).isSome = true ∨
    rc.principal.arn = rootArn (partitionFor (c.caller cfg a).region) rc.principal.accountId ∧
      rc.principal.userId = rc.principal.accountId
  /-- a delegated token has the user id of an account root -/
  delegated : op = .getDelegatedAccessToken → rc.principal.userId = rc.principal.accountId

section Power

variable {T : Tools} {cfg : Config} {a : Accounts} {c : Call} {rc : ResolvedCredential} {op : SelfMint}

theorem issuedTo_eq_iff : issuedTo cfg a c rc op = (rc.principal.arn, rc.principal.userId) ↔
    (op = .getSessionToken → (parseSigv4 (authorizationHeader c.request)).isSome = true ∨
      rc.principal.arn = rootArn (partitionFor (c.caller cfg a).region) rc.principal.accountId ∧
        rc.principal.userId = rc.principal.accountId) ∧
    (op = .getDelegatedAccessToken → rc.principal.userId = rc.principal.accountId) := by
  cases op with
  | getSessionToken =>
    unfold issuedTo
    split_ifs with hh
    · simp [hh]
    · simp only [Prod.mk.injEq, hh, false_or, reduceCtorEq, false_implies, and_true, forall_const]
      exact ⟨fun h => ⟨h.1.symm, h.2.symm⟩, fun h => ⟨h.1.symm, h.2.symm⟩⟩
  | getDelegatedAccessToken =>
    simp only [issuedTo, Prod.mk.injEq, true_and, reduceCtorEq, false_implies, forall_const]
    exact eq_comm

def issuedLookup (cfg : Config) (a : Accounts) (c : Call) (rc : ResolvedCredential) (op : SelfMint)
    (expiration : ℤ) (mfaPresent : Bool) : SecretLookup :=
  (a.stateOf rc.principal.accountId).tempLookup (plainSession c.creds c.now expiration
    (issuedTo cfg a c rc op).1 (issuedTo cfg a c rc op).2 rc.principal.accountId mfaPresent)

theorem samePower_iff_keeps (hs : Sound a) (hc : (c.caller cfg a).resolved = some rc)
    (expiration : ℤ) (mfaPresent : Bool) :
    SamePower rc (resolvedCredential (issuedLookup cfg a c rc op expiration mfaPresent)) ↔
      Keeps cfg a c op rc := by
  obtain ⟨akid, l, -, rfl, -⟩ := exists_of_resolved hs hc
  constructor
  · intro h
    have ha : (issuedTo cfg a c (resolvedCredential l) op).1 = l.principalArn :=
      congrArg Principal.arn h.principal
    have hu : (issuedTo cfg a c (resolvedCredential l) op).2 = l.userId :=
      congrArg Principal.userId h.principal
    have ht : (a.stateOf l.accountId).resolveRoleTags
        (issuedTo cfg a c (resolvedCredential l) op).1 = l.principalTags :=
          congrArg Principal.tags h.principal
    obtain ⟨htk, hd⟩ := issuedTo_eq_iff.mp (Prod.ext ha hu)
    rw [ha] at ht
    exact ⟨h.sessionPolicies.symm, h.federatedProvider.symm, ht.symm, htk, hd⟩
  · intro h
    have hi := issuedTo_eq_iff.mpr ⟨h.token, h.delegated⟩
    refine ⟨?_, h.sessionPolicies.symm, h.federatedProvider.symm⟩
    have ht : l.principalTags = (a.stateOf l.accountId).resolveRoleTags l.principalArn := h.tags
    rw [issuedLookup, hi]
    simp only [resolvedCredential, tempLookup, plainSession, ht]

/-- One call: the session has the power of its caller exactly when the caller's credential is kept. -/
theorem serve_samePower_iff {m : Minted} (hs : Sound a) (hc : (c.caller cfg a).resolved = some rc)
    (hsr : serve T cfg a c = .ok (op, m)) (hf : Unknown a c.creds.accessKeyId) :
    ∃ l, (∀ t < m.credential.expiration, m.accounts.lookup t c.creds.accessKeyId = some l) ∧
      (SamePower rc (resolvedCredential l) ↔ Keeps cfg a c op rc) := by
  obtain ⟨expiration, mfaPresent, rfl⟩ := serve_eq_ok hs hc hsr
  refine ⟨issuedLookup cfg a c rc op expiration mfaPresent, fun t ht => ?_,
    samePower_iff_keeps hs hc expiration mfaPresent⟩
  refine (lookup_mint_self hf.sweep ht).trans ?_
  rw [stateOf_sweep]
  rfl

end Power

/-! ## Chains of sessions -/

/-- The accounts, and for each key that was issued the credential at the start of its chain. -/
structure World where
  accounts : Accounts
  origins : StrMap ResolvedCredential

/-- The start of the chain that a caller continues. -/
def World.origin (w : World) (caller : Caller) (rc : ResolvedCredential) : ResolvedCredential :=
  (caller.accessKeyId.bind w.origins.get).getD rc

/-- Runs in which every call that is served is a `good` one.  In between, expired credentials are swept away
and accounts are made. -/
inductive Run (T : Tools) (cfg : Config) (good : Accounts → Call → SelfMint → ResolvedCredential → Prop) :
    World → Prop
  | start (a : Accounts) : Sound a → Run T cfg good ⟨a, .empty⟩
  | issue (w : World) (c : Call) (rc : ResolvedCredential) (op : SelfMint) (m : Minted) :
    Run T cfg good w → (c.caller cfg w.accounts).resolved = some rc →
    serve T cfg w.accounts c = .ok (op, m) → Unknown w.accounts c.creds.accessKeyId →
    good w.accounts c op rc →
    Run T cfg good
      ⟨m.accounts, w.origins.insert c.creds.accessKeyId (w.origin (c.caller cfg w.accounts) rc)⟩
  | sweep (w : World) (now : ℤ) : Run T cfg good w →
      Run T cfg good { w with accounts := w.accounts.sweep now }
  | create (w : World) (id : Str) : Run T cfg good w →
      Run T cfg good { w with accounts := w.accounts.create id }

/-- Whatever an account knows of an issued key has the power of the start of its chain. -/
structure Faithful (w : World) : Prop where
  sound : Sound w.accounts
  power : ∀ key origin, w.origins.get key = some origin → ∀ t id s l, w.accounts.accounts.get id = some s →
    s.credentialSecret t key = some l → SamePower origin (Accounts.resolvedCredential l)

section Run

variable {T : Tools} {cfg : Config} {w : World} {s : IamState} {a : Accounts} {rc : ResolvedCredential}

/-- A sweep forgets keys, and changes none. -/
theorem credentialSecret_of_pruneExpired {now t : ℤ} {key : Str} {l : SecretLookup}
    (h : (s.pruneExpired now).credentialSecret t key = some l) : s.credentialSecret t key = some l := by
  have hu : (s.pruneExpired now).userKey key = s.userKey key := rfl
  rw [credentialSecret, hu] at h
  rw [credentialSecret]
  cases hk : s.userKey key with
  | some owner =>
    rw [hk] at h
    exact h
  | none =>
    rw [hk] at h
    obtain ⟨temp, ht, rfl⟩ := map_eq_some_iff.mp h
    obtain ⟨hg, hl⟩ := filter_eq_some_iff.mp ht
    have ht' : (s.stsTempCredentials.get key).filter (fun temp => decide (t < temp.expiration)) = some temp :=
      filter_eq_some_iff.mpr ⟨temp_of_pruneExpired hg, hl⟩
    simp only [ht']
    rfl

theorem exists_of_get_create {id id' : Str} (h : (a.create id).accounts.get id' = some s) :
    a.accounts.get id' = some s ∨ id' = id ∧ s = .fresh id a.region := by
  rw [Accounts.create, Accounts.set, get_insert] at h
  split_ifs at h with hid
  · subst hid
    rcases stateOf_cases a id' with hs | hs
    · exact .inl (hs.trans h)
    · exact .inr ⟨rfl, (some.inj h).symm.trans hs⟩
  · exact .inl h

theorem Sound.create (h : Sound a) (id : Str) : Sound (a.create id) where
  accountId id' s hs := by
    rcases exists_of_get_create hs with hs | ⟨rfl, rfl⟩
    · exact h.accountId id' s hs
    · rfl
  credential id' s key temp hs ht := by
    rcases exists_of_get_create hs with hs | ⟨rfl, rfl⟩
    · exact h.credential id' s key temp hs ht
    · cases ht

theorem Faithful.sweep (h : Faithful w) (now : ℤ) : Faithful { w with accounts := w.accounts.sweep now } where
  sound := h.sound.sweep
  power key origin ho t id s l hs hl := by
    obtain ⟨s₀, hs₀, rfl⟩ := get_of_get_sweep hs
    exact h.power key origin ho t id s₀ l hs₀ (credentialSecret_of_pruneExpired hl)

theorem Faithful.create (h : Faithful w) (id : Str) :
    Faithful { w with accounts := w.accounts.create id } where
  sound := h.sound.create id
  power key origin ho t id' s l hs hl := by
    rcases exists_of_get_create hs with hs | ⟨rfl, rfl⟩
    · exact h.power key origin ho t id' s l hs hl
    · cases hl

/-- The caller has the power of the start of its own chain. -/
theorem Faithful.origin (h : Faithful w) {c : Call} (hc : (c.caller cfg w.accounts).resolved = some rc) :
    SamePower (w.origin (c.caller cfg w.accounts) rc) rc := by
  obtain ⟨akid, l, ha, rfl, hk⟩ := exists_of_resolved h.sound hc
  rw [World.origin, ha, bind_some]
  cases ho : w.origins.get akid with
  | none => exact ⟨rfl, rfl, rfl⟩
  | some origin =>
    rcases stateOf_cases (w.accounts.sweep c.now) l.accountId with hs | hs
    · exact (h.sweep c.now).power akid origin ho c.now l.accountId _ l hs hk
    · rw [hs] at hk
      cases hk

theorem Faithful.issue (h : Faithful w) {c : Call} {op : SelfMint} {m : Minted}
    (hc : (c.caller cfg w.accounts).resolved = some rc) (hsr : serve T cfg w.accounts c = .ok (op, m))
    (hf : Unknown w.accounts c.creds.accessKeyId) (hk : Keeps cfg w.accounts c op rc) :
    Faithful ⟨m.accounts, w.origins.insert c.creds.accessKeyId (w.origin (c.caller cfg w.accounts) rc)⟩ := by
  obtain ⟨expiration, mfaPresent, rfl⟩ := serve_eq_ok h.sound hc hsr
  have hsw := h.sweep c.now
  refine ⟨hsw.sound.mint rfl, fun key origin ho t id s l hs hl => ?_⟩
  rw [get_insert] at ho
  split_ifs at ho with hky
  · subst hky
    obtain rfl := some.inj ho
    obtain rfl := credentialSecret_mint_self hf.sweep hs hl
    have hp := (samePower_iff_keeps h.sound hc expiration mfaPresent).mpr hk
    rw [stateOf_sweep]
    exact (h.origin hc).trans hp
  · obtain ⟨s₀, hs₀, hl₀⟩ := credentialSecret_mint_ne hky hs hl
    exact hsw.power key origin ho t id s₀ l hs₀ hl₀

theorem Run.faithful (h : Run T cfg (Keeps cfg) w) : Faithful w := by
  induction h with
  | start a hs =>
    refine ⟨hs, fun key origin ho => ?_⟩
    cases ho
  | issue w c rc op m _ hc hsr hf hk ih => exact ih.issue hc hsr hf hk
  | sweep w now _ ih => exact ih.sweep now
  | create w id _ ih => exact ih.create id

end Run

/-- **Self-issued sessions.**  A session has the power of its caller exactly when the caller's credential is
kept.  In a run of such calls every issued key has the power of the start of its chain, and is allowed what
that is allowed. -/
theorem self_issued_iff (T : Tools) (cfg : Config) :
    (∀ a c rc op m, Sound a → (c.caller cfg a).resolved = some rc → serve T cfg a c = .ok (op, m) →
      Unknown a c.creds.accessKeyId →
      ∃ l, (∀ t < m.credential.expiration, m.accounts.lookup t c.creds.accessKeyId = some l) ∧
        (SamePower rc (Accounts.resolvedCredential l) ↔ Keeps cfg a c op rc)) ∧
    ∀ w, Run T cfg (Keeps cfg) w → ∀ key origin, w.origins.get key = some origin →
      ∀ t l, w.accounts.lookup t key = some l →
        SamePower origin (Accounts.resolvedCredential l) ∧
        ∀ e, (under e (issuedLike origin (Accounts.resolvedCredential l))).authorize none =
          (under e origin).authorize none := by
  refine ⟨fun a c rc op m hsn hc hsr hf => serve_samePower_iff hsn hc hsr hf,
    fun w hr key origin ho t l hl => ?_⟩
  obtain ⟨id, s, hs, hk⟩ := exists_of_lookup hl
  have hp := hr.faithful.power key origin ho t id s l hs hk
  exact ⟨hp, hp.authorize_eq⟩

/-! ### A user who signs in the query string -/

namespace Example

/-- Every date is the present, and the keyed hash is constant. -/
def steady : Libraries :=
  { Core.Example.libraries with primitives := ⟨id, fun _ _ => [0xAB], fun _ => some 0⟩ }

def tokens : Service :=
  { Core.Example.queues with iamActionsFor := fun _ => [⟨"sts", "GetSessionToken", "*"⟩] }

/-- Session tokens are for everybody, and nothing else is. -/
def tokensOnly : PolicyEvaluator :=
  { Core.Example.evaluator with evaluateWithResourcePolicy := fun _ action _ _ _ _ _ =>
      if action.action = "GetSessionToken" then .allow else .implicitDeny }

def stsConfig : Config :=
  { Core.Example.config with policyEvaluator := some tokensOnly, registry := fun _ => some tokens }

def aliceArn : Str := "arn:aws:iam::111111111111:user/alice"

def aliceAccount : IamState where
  accountId := "111111111111"
  users := (OrdMap.empty : StrMap User).insert "alice" ⟨aliceArn, "AIDAALICE", []⟩
  accessKeys := (OrdMap.empty : StrMap (List AccessKey)).insert "alice"
    [⟨"AKIAALICE", "secret", "alice", "Active"⟩]

def aliceAccounts : Accounts where
  defaultAccountId := "111111111111"
  region := "us-east-1"
  accounts := (OrdMap.empty : StrMap IamState).insert "111111111111" aliceAccount

deriving instance DecidableEq for ResolvedCredential

def aliceCredential : ResolvedCredential :=
  ⟨"secret", none, Core.Example.alice, [], false, none, none⟩

def stsGet (query : Str) (headers : HeaderMap) : HttpRequest where
  method := "GET"
  path := "/"
  query
  headers
  body := []
  remoteAddr := .v4 0
  methodToken := Core.Example.get_token

def presignedCall : Call where
  libraries := steady
  creds
  request :=
    stsGet (Core.Example.queryOf [("Action", ["GetSessionToken"]), ("X-Amz-Algorithm", ["AWS4-HMAC-SHA256"]),
      ("X-Amz-Credential", ["AKIAALICE/", "20240101/", "us-east-1/sts/", "aws4_request"]),
      ("X-Amz-Date", ["20240101T000000Z"]), ("X-Amz-Expires", ["60"]),
      ("X-Amz-SignedHeaders", ["host"]), ("X-Amz-Signature", ["ab"])])
    ⟨[("host", utf8 "localhost")], Core.Example.host_named⟩

def headerCall : Call where
  libraries := steady
  creds
  request := stsGet (Core.Example.queryOf [("Action", ["GetSessionToken"])])
    ⟨[("host", utf8 "localhost"), ("x-amz-date", utf8 "20240101T000000Z"),
      ("authorization", utf8 ("AWS4-HMAC-SHA256 Credential=AKIAALICE/20240101/us-east-1/sts/aws4_request, " ++
        "SignedHeaders=host, Signature=ab").toList)], by decide⟩

theorem get_aliceAccounts {id : Str} {s : IamState} (h : aliceAccounts.accounts.get id = some s) :
    id = "111111111111" ∧ s = aliceAccount := by
  have hg := get_insert (empty : StrMap IamState) "111111111111" id aliceAccount
  have hs := hg.symm.trans h
  by_cases hid : id = "111111111111"
  · rw [if_pos hid] at hs
    exact ⟨hid, (some.inj hs).symm⟩
  · rw [if_neg hid] at hs
    cases hs

theorem sound_aliceAccounts : Sound aliceAccounts where
  accountId id s hs := by
    obtain ⟨rfl, rfl⟩ := get_aliceAccounts hs
    rfl
  credential id s key temp hs ht := by
    obtain ⟨rfl, rfl⟩ := get_aliceAccounts hs
    cases ht

theorem unknown_aliceAccounts : Unknown aliceAccounts creds.accessKeyId := by
  intro id s hs
  obtain ⟨rfl, rfl⟩ := get_aliceAccounts hs
  exact ⟨by rfl, by rfl⟩

theorem headerCall_caller : (headerCall.caller stsConfig aliceAccounts).resolved = some aliceCredential := by
  decide +kernel

def aliceRoot : Principal :=
  ⟨"arn:aws:iam::111111111111:root", "111111111111", "111111111111", .root, none, none⟩

theorem presignedCall_served : (serve tools stsConfig aliceAccounts presignedCall).map (fun om =>
    (om.1, decide (0 < om.2.credential.expiration), (om.2.accounts.lookup 0 creds.accessKeyId).map
      fun l => (resolvedCredential l).principal)) = .ok (.getSessionToken, true, some aliceRoot) := by
  decide +kernel

theorem headerCall_served : (serve tools stsConfig aliceAccounts headerCall).map Prod.fst =
    .ok .getSessionToken := by
  decide +kernel

/-- Sending a message, which no policy allows to anybody. -/
def sending : Enforcement where
  libraries := steady
  config := stsConfig
  evaluator := tokensOnly
  service := Core.Example.queues
  request := request "SendMessage" []
  resolved := none
  remoteAddr := .v4 0

/-- The session token of a presigned request is for the account root, and sends what its caller may not. -/
theorem presigned_token_exceeds :
    ∃ m l, serve tools stsConfig aliceAccounts presignedCall = .ok (.getSessionToken, m) ∧
    (presignedCall.caller stsConfig aliceAccounts).resolved = some aliceCredential ∧
    m.accounts.lookup 0 creds.accessKeyId = some l ∧
    ¬ SamePower aliceCredential (Accounts.resolvedCredential l) ∧
    (under sending aliceCredential).authorize none ≠ none ∧
    (under sending (issuedLike aliceCredential (Accounts.resolvedCredential l))).authorize none = none := by
  obtain ⟨⟨op, m⟩, hs, ho⟩ := map_eq_ok.mp presignedCall_served
  obtain ⟨rfl, hlt⟩ := Prod.mk.inj ho
  obtain ⟨-, hlk⟩ := Prod.mk.inj hlt
  obtain ⟨l, hl, hp⟩ := map_eq_some_iff.mp hlk
  refine ⟨m, l, hs, by decide +kernel, hl, fun h => ?_, ?_, ?_⟩
  · have hsm := hp.symm.trans h.principal
    exact absurd (congrArg Principal.userId hsm) (by decide)
  · decide +kernel
  · have hli : (issuedLike aliceCredential (resolvedCredential l)).principal = aliceRoot := hp
    simp only [under, hli]
    rfl

end Example

open Example in
/-- A user's session token from a signed header. -/
theorem self_issued_alice :
    ∃ m l, serve tools stsConfig aliceAccounts headerCall = .ok (.getSessionToken, m) ∧
    (∀ t < m.credential.expiration, m.accounts.lookup t creds.accessKeyId = some l) ∧
    (SamePower aliceCredential (Accounts.resolvedCredential l) ↔
      Keeps stsConfig aliceAccounts headerCall .getSessionToken aliceCredential) ∧
    Keeps stsConfig aliceAccounts headerCall .getSessionToken aliceCredential ∧
    ∀ e, (under e (issuedLike aliceCredential (Accounts.resolvedCredential l))).authorize none =
      (under e aliceCredential).authorize none := by
  obtain ⟨⟨op, m⟩, hs, rfl⟩ := map_eq_ok.mp headerCall_served
  obtain ⟨l, hl, hi⟩ := (self_issued_iff tools stsConfig).1 aliceAccounts headerCall aliceCredential
    .getSessionToken m sound_aliceAccounts headerCall_caller hs unknown_aliceAccounts
  have hk : Keeps stsConfig aliceAccounts headerCall .getSessionToken aliceCredential :=
    ⟨rfl, rfl, by decide +kernel, fun _ => .inl (by decide +kernel), fun h => by cases h⟩
  have hr := Run.issue ⟨aliceAccounts, .empty⟩ headerCall aliceCredential .getSessionToken m
    (.start aliceAccounts sound_aliceAccounts) headerCall_caller hs unknown_aliceAccounts hk
  have he : m.credential.expiration - 1 < m.credential.expiration := by omega
  have ho : World.origin ⟨aliceAccounts, .empty⟩ (headerCall.caller stsConfig aliceAccounts)
      aliceCredential = aliceCredential := by
    unfold World.origin
    cases (headerCall.caller stsConfig aliceAccounts).accessKeyId <;> rfl
  have hc := (self_issued_iff tools stsConfig).2 _ hr creds.accessKeyId aliceCredential
    (by rw [get_insert, ho]; rfl) _ l (hl _ he)
  exact ⟨m, l, hs, hl, hi, hk, hc.2⟩

end Fakecloud.Sts

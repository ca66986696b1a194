import Fakecloud.Core.Mediation

/-!
# No principal without its secret

With verification on, a principal that reaches a handler comes with a signature made with that
principal's own secret.  The routing parser, which names the access key, and the verifying parser,
which falls back from the header to the query, are different functions; what ties them together is
that the secret is looked up under the routing parser's key.
-/

namespace Fakecloud.Core

open Text Fakecloud.Aws Option Example

/-- The request carries a signature that the HMAC chain yields for this secret over the canonical form
of this very request, and it was signed in the time window of its form. -/
def SignedWith (L : Libraries) (r : HttpRequest) (secret : Str) : Prop :=
  ∃ parsed canonicalRequest signedAt,
    parsedSignature r = some parsed ∧
    buildCanonicalRequest L.primitives parsed (verifyRequest r (wireBodyOf r)) =
      .ok canonicalRequest ∧
    parsed.signature = expectedSignature L.primitives parsed secret canonicalRequest ∧
    L.primitives.parseAmzDate parsed.amzDate = some signedAt ∧
    InWindow parsed r.query signedAt L.now

section

variable {L : Libraries} {cfg : Config} {r : HttpRequest} {request : AwsRequest}

/-- The signature is made with a key of the secret and the credential scope, over the method, path, query,
signed headers and payload hash of the request. -/
theorem SignedWith.made_of {secret : Str} (h : SignedWith L r secret) : ∃ parsed headers,
    parsedSignature r = some parsed ∧
    canonicalHeaders (verifyRequest r (wireBodyOf r)) parsed.signedHeaders = some headers ∧
    parsed.signature = hex (L.primitives.hmac
      (deriveSigningKey L.primitives secret parsed.dateStamp parsed.region parsed.service)
      (utf8 (stringToSign L.primitives parsed (List.intercalate "\n"
        [upper r.method, canonicalUri r.path parsed.service,
          canonicalQuery r.query parsed.isPresigned, headers,
          List.intercalate ";" parsed.signedHeaders,
          payloadHash L.primitives parsed (verifyRequest r (wireBodyOf r))])))) := by
  obtain ⟨parsed, canonicalRequest, signedAt, hp, hc, hs, -⟩ := h
  rw [buildCanonicalRequest] at hc
  rcases hh : canonicalHeaders (verifyRequest r (wireBodyOf r)) parsed.signedHeaders with _ | headers <;>
    rw [hh] at hc
  · cases hc
  · cases hc
    exact ⟨parsed, headers, hp, hh, hs⟩

theorem parseSigv4Presigned_eq_none {params : QueryMap}
    (h : params.get "X-Amz-Credential" = none) : parseSigv4Presigned params = none := by
  unfold parseSigv4Presigned
  rw [h]
  split_ifs <;> rfl

theorem not_isFullyAnonymous {akid : Str} (h : (identify cfg r).accessKeyId = some akid) :
    (identify cfg r).isFullyAnonymous = false := by
  have ha : (identify cfg r).isFullyAnonymous =
      ((authorizationHeader r).isEmpty && !(queryMap r.query).containsKey "X-Amz-Credential" &&
        (sigv2PresignedAccessKey (queryMap r.query)).isNone) := rfl
  rw [ha, Bool.eq_false_iff]
  intro han
  rw [Bool.and_eq_true, Bool.and_eq_true, List.isEmpty_iff, isNone_iff_eq_none,
    QueryMap.containsKey, Bool.not_eq_true', Option.isSome_eq_false_iff, isNone_iff_eq_none] at han
  obtain ⟨⟨hat, hc⟩, hv2⟩ := han
  have hh : parseSigv4 (authorizationHeader r) = none := by
    rw [hat]
    decide
  have hk : (identify cfg r).accessKeyId =
      ((sigv4Info (authorizationHeader r) (queryMap r.query)).map SigV4Info.accessKey <|>
        sigv2PresignedAccessKey (queryMap r.query)) := rfl
  rw [hk, sigv4Info, hh, parseSigv4Presigned_eq_none hc, hv2] at h
  cases h

theorem signedWith_of_verified {received : Received} {rc : ResolvedCredential}
    (hrc : receive L cfg r = .ok received) (hm : mustVerify cfg (identify cfg r) = true)
    (hr : (identify cfg r).resolved = some rc)
    (hv : verifySignature L cfg r received (identify cfg r) = .ok ()) :
    SignedWith L r rc.secretAccessKey := by
  unfold verifySignature at hv
  rw [if_pos hm] at hv
  rcases hp : parsedSignature r with _ | parsed
  · simp [hp] at hv
  rw [hp, hr] at hv
  simp only [receive_wireBody hrc] at hv
  rcases hvr : verify L.primitives parsed (verifyRequest r (wireBodyOf r)) rc.secretAccessKey
      L.now with e | u
  · simp [hvr] at hv
  obtain ⟨signedAt, canonicalRequest, hd, hw, hc, hs⟩ := verify_eq_ok.mp hvr
  exact ⟨parsed, canonicalRequest, signedAt, hp, hc, hs.symm, hd, hw⟩

/-- **No principal without its secret.** -/
theorem principal_needs_secret {resolver : CredentialResolver} {akid : Str} {principal : Principal}
    (hverify : cfg.verifySigv4 = true) (hresolver : cfg.credentialResolver = some resolver)
    (hdispatch : dispatchInner L cfg r = .ok request)
    (hakid : request.accessKeyId = some akid) (hbypass : isRootBypass akid = false)
    (hprincipal : request.principal = some principal) :
    ∃ rc, resolver.resolve akid = some rc ∧ rc.principal = principal ∧
      SignedWith L r rc.secretAccessKey := by
  obtain ⟨received, service, h⟩ := dispatchInner_eq_ok.mp hdispatch
  obtain ⟨hk, hc, -⟩ := handed_caller h
  have hk' : (identify cfg r).accessKeyId = some akid := hk ▸ hakid
  have hi : internalCallerOf r (identify cfg r) = none := by
    simp [internalCallerOf, hk']
  obtain ⟨rc, hrc, hrcp⟩ : ∃ rc, (identify cfg r).resolved = some rc ∧ rc.principal = principal := by
    simpa [callerPrincipal, hi, hprincipal] using hc.symm
  obtain ⟨resolver', akid', hresolver', hakid', -, hr⟩ := identify_resolved hrc
  obtain rfl : resolver = resolver' := by simpa [hresolver] using hresolver'
  obtain rfl : akid = akid' := by simpa [hk'] using hakid'
  have hm : mustVerify cfg (identify cfg r) = true := by
    simp [mustVerify, hverify, not_isFullyAnonymous hk', Caller.akid, hk', hbypass, hresolver]
  exact ⟨rc, hr, hrcp, signedWith_of_verified h.received_eq hm hrc h.verified⟩

end

/-! ## A presigned request before its signing time -/

/-- The signing time lies in the skew of fifteen minutes, or the clock in the lifetime that starts at
the signing time. -/
def WithinLifetime (parsed : ParsedSigV4) (query : Str) (signedAt now : ℤ) : Prop :=
  if parsed.isPresigned then
    ∃ expires, presignedExpiresSecs query = .ok expires ∧ 1 ≤ expires ∧ expires ≤ 604800 ∧
      signedAt ≤ now ∧ now ≤ signedAt + expires * 1000000000
  else -900000000000 ≤ now - signedAt ∧ now - signedAt ≤ 900000000000

namespace Example

/-- Every date is a hundred seconds ahead of the clock; the keyed hash is constant. -/
def aheadLibraries : Libraries :=
  { libraries with primitives := ⟨id, fun _ _ => [0xAB], fun _ => some 100000000000⟩ }

def verifyingConfig : Config := { config with verifySigv4 := true }

/-- A query string of keys and values, a value in pieces. -/
def queryOf (pairs : List (String × List String)) : Str :=
  List.intercalate "&".toList (pairs.map fun kv => kv.1.toList ++ '=' :: kv.2.flatMap String.toList)

theorem host_named : ∀ line ∈ [("host".toList, utf8 "localhost")], isHeaderName line.1 := by decide

theorem get_token : '\n' ∉ "GET".toList := by decide

def presigned : HttpRequest where
  method := "GET"
  path := "/b"
  query := queryOf [("X-Amz-Algorithm", ["AWS4-HMAC-SHA256"]),
    ("X-Amz-Credential", ["AKIAALICE/", "20240101/", "us-east-1/s3/", "aws4_request"]),
    ("X-Amz-Date", ["20240101T000140Z"]), ("X-Amz-Expires", ["60"]),
    ("X-Amz-SignedHeaders", ["host"]), ("X-Amz-Signature", ["ab"])]
  headers := ⟨[("host", utf8 "localhost".toList)], host_named⟩
  body := []
  remoteAddr := .v4 0
  methodToken := get_token

end Example

theorem presigned_handed : (dispatchInner aheadLibraries verifyingConfig presigned).toOption.map
      (fun request => (request.accessKeyId, request.principal)) =
        some (some "AKIAALICE".toList, some alice) := by
  decide +kernel

theorem presigned_parsed : parsedSignature presigned = some ⟨"AKIAALICE", "20240101", "us-east-1", "s3",
      ["host"], "ab", "20240101T000140Z", true⟩ := by
  decide +kernel

/-- A presigned request is accepted a hundred seconds before it was signed. -/
theorem presigned_accepted_before_signing :
    ∃ request, dispatchInner Example.aheadLibraries Example.verifyingConfig Example.presigned =
        .ok request ∧
      request.accessKeyId = some "AKIAALICE".toList ∧ isRootBypass "AKIAALICE" = false ∧
      request.principal = some Example.alice ∧
      ¬ ∃ parsed signedAt, parsedSignature Example.presigned = some parsed ∧
        Example.aheadLibraries.primitives.parseAmzDate parsed.amzDate = some signedAt ∧
        WithinLifetime parsed Example.presigned.query signedAt Example.aheadLibraries.now := by
  obtain ⟨request, hd, hc⟩ := exists_of_toOption_map presigned_handed
  obtain ⟨ha, hp⟩ := Prod.mk.injEq _ _ _ _ ▸ hc
  refine ⟨request, hd, ha, by decide, hp, ?_⟩
  rintro ⟨parsed, signedAt, hpr, hdt, hl⟩
  rw [presigned_parsed, some.injEq] at hpr
  subst hpr
  obtain ⟨expires, -, -, -, hst, -⟩ := hl
  have hs : 100000000000 = signedAt := some.inj hdt
  have hn : aheadLibraries.now = 0 := rfl
  omega

theorem principal_needs_secret_presigned :
    ∃ request, dispatchInner Example.aheadLibraries Example.verifyingConfig Example.presigned =
        .ok request ∧
      ∃ rc, Example.resolver.resolve "AKIAALICE" = some rc ∧ rc.principal = Example.alice ∧
        SignedWith Example.aheadLibraries Example.presigned rc.secretAccessKey := by
  obtain ⟨request, hd, hc⟩ := exists_of_toOption_map presigned_handed
  obtain ⟨ha, hp⟩ := Prod.mk.injEq _ _ _ _ ▸ hc
  have hv : verifyingConfig.verifySigv4 = true := rfl
  exact ⟨request, hd, principal_needs_secret hv rfl hd ha (by decide) hp⟩

end Fakecloud.Core

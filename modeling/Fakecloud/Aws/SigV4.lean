import Fakecloud.Core.Http
import Mathlib.Data.List.Dedup
import Mathlib.Data.List.Sort

/-!
# Signature Version 4

`sigv4.rs`: the two parsers of a credential (the light one that routes a request, the full one that
verification uses), the canonical request, and `verify`.

The hash, the keyed hash and the date parser are parameters (`Primitives`).  A date is a number of
nanoseconds since the Unix epoch.
-/

namespace Fakecloud.Aws

open Text Fakecloud.Core

/-- What the verification takes from other libraries. -/
structure Primitives where
  sha256 : Bytes → Bytes
  /-- HMAC-SHA256 of a key and a message -/
  hmac : Bytes → Bytes → Bytes
  /-- `NaiveDateTime::parse_from_str` with `%Y%m%dT%H%M%SZ`, read as UTC -/
  parseAmzDate : Str → Option ℤ

/-- The part of a credential that routes a request. -/
structure SigV4Info where
  accessKey : Str
  region : Str
  service : Str
  deriving DecidableEq

structure ParsedSigV4 where
  accessKey : Str
  dateStamp : Str
  region : Str
  service : Str
  signedHeaders : List Str
  signature : Str
  amzDate : Str
  isPresigned : Bool
  deriving DecidableEq

def ParsedSigV4.asInfo (p : ParsedSigV4) : SigV4Info := ⟨p.accessKey, p.region, p.service⟩

inductive SigV4Error
  | requestTimeTooSkewed (signed server : ℤ)
  | malformed (reason : Str)
  | signatureMismatch
  | invalidDate (reason : Str)
  | presignedUrlExpired (signed server expiresSecs : ℤ)
  | invalidPresignExpires (expiresSecs : ℤ)
  deriving DecidableEq

def clockSkewSeconds : ℤ := 15 * 60

def maxPresignExpiresSeconds : ℤ := 7 * 24 * 60 * 60

/-! ## Credentials -/

def parseCredentialScope (credential : Str) : Option SigV4Info :=
  match credential.splitOn '/' with
  | [accessKey, _, region, service, terminal] =>
    if terminal == "aws4_request" then some ⟨accessKey, region, service⟩ else none
  | _ => none

/-- The routing parse: the first `Credential=` of the header. -/
def parseHeaderCredential (authHeader : Str) : Option SigV4Info :=
  (authHeader.dropPrefix? "AWS4-HMAC-SHA256 ").bind fun auth =>
    (auth.dropInfix? "Credential=").bind fun cut =>
      parseCredentialScope (cut.2.takeWhile (· ≠ ','))

def parseSigv4 (authHeader : Str) : Option SigV4Info := parseHeaderCredential authHeader

/-- The fields of an `Authorization` header as the full parse collects them. -/
structure AuthFields where
  credential : Option Str := none
  signedHeaders : Option Str := none
  signature : Option Str := none

/-- One comma-separated part; a later field replaces an earlier one. -/
def AuthFields.read (fields : AuthFields) (part : Str) : AuthFields :=
  let part := trim part
  match part.dropPrefix? "Credential=" with
  | some v => { fields with credential := some v }
  | none =>
    match part.dropPrefix? "SignedHeaders=" with
    | some v => { fields with signedHeaders := some v }
    | none =>
      match part.dropPrefix? "Signature=" with
      | some v => { fields with signature := some v }
      | none => fields

def signedHeaderNames (list : Str) : List Str := (list.splitOn ';').map lower

def parseSigv4Header (authHeader : Str) (amzDate : Option Str) : Option ParsedSigV4 := do
  let auth ← authHeader.dropPrefix? "AWS4-HMAC-SHA256 "
  let fields := (auth.splitOn ',').foldl AuthFields.read {}
  let credential ← fields.credential
  let signedHeaders ← fields.signedHeaders
  let signature ← fields.signature
  let scope ← parseCredentialScope credential
  let dateStamp ← (credential.splitOn '/')[1]?
  let amzDate ← amzDate
  return ⟨scope.accessKey, dateStamp, scope.region, scope.service, signedHeaderNames signedHeaders,
    signature, amzDate, false⟩

def parseSigv4Presigned (query : QueryMap) : Option ParsedSigV4 := do
  if query.get "X-Amz-Algorithm" ≠ some "AWS4-HMAC-SHA256".toList then none
  let credential ← query.get "X-Amz-Credential"
  let scope ← parseCredentialScope credential
  let dateStamp ← (credential.splitOn '/')[1]?
  let signedHeaders ← query.get "X-Amz-SignedHeaders"
  let signature ← query.get "X-Amz-Signature"
  let amzDate ← query.get "X-Amz-Date"
  return ⟨scope.accessKey, dateStamp, scope.region, scope.service, signedHeaderNames signedHeaders,
    signature, amzDate, true⟩

/-! ## The canonical request -/

structure VerifyRequest where
  method : Str
  path : Str
  query : Str
  /-- lower-case names, the lines of one name joined -/
  headers : List (Str × Str)
  body : Bytes

/-- The readable lines of a header map, those of one name joined.  The map is only looked up, so the
order of the names does not matter. -/
def headersFromHttp (headers : HeaderMap) : List (Str × Str) :=
  let readable := headers.lines.filterMap fun line => (toStr? line.2).map fun v => (line.1, v)
  (readable.map Prod.fst).dedup.map fun name =>
    (name, List.intercalate ", " (headers.allStr name))

/-- The unreserved bytes, which stay as they are. -/
def isUnreserved (b : UInt8) : Bool :=
  (0x30 ≤ b && b ≤ 0x39) || (0x41 ≤ b && b ≤ 0x5A) || (0x61 ≤ b && b ≤ 0x7A) ||
    b == 0x2D || b == 0x2E || b == 0x5F || b == 0x7E

def sigv4Encode (s : Str) : Str := percentEncode isUnreserved s

/-- Each segment decoded and encoded again: once for S3, twice for every other service. -/
def canonicalUri (path service : Str) : Str :=
  if path.isEmpty then "/"
  else
    List.intercalate "/" ((path.splitOn '/').map fun seg =>
      let once := sigv4Encode (percentDecode seg)
      if service == "s3" then once else sigv4Encode once)

def pairLe (a b : Str × Str) : Bool := a.1 < b.1 || (a.1 == b.1 && a.2 ≤ b.2)

/-- The decoded parameters that the signature covers. -/
def signedPairs (query : Str) (isPresigned : Bool) : List (Str × Str) :=
  ((rawPairs query).map fun kv => (percentDecode kv.1, percentDecode kv.2)).filter fun kv =>
    !(isPresigned && kv.1 == "X-Amz-Signature")

def canonicalQuery (query : Str) (isPresigned : Bool) : Str :=
  let encoded := (signedPairs query isPresigned).map fun kv => (sigv4Encode kv.1, sigv4Encode kv.2)
  List.intercalate "&"
    ((encoded.insertionSort fun a b => pairLe a b = true).map fun kv => kv.1 ++ '=' :: kv.2)

/-- The loop of `collapse_ws`; `inWs` says that the last character was a blank. -/
def collapseRuns : Bool → Str → Str
  | _, [] => []
  | inWs, c :: rest =>
    if c == ' ' || c == '\t' then
      if inWs then collapseRuns true rest else ' ' :: collapseRuns true rest
    else c :: collapseRuns false rest

/-- Trim, and make every run of blanks one space. -/
def collapseWs (v : Str) : Str := collapseRuns false (trim v)

/-- The value of a header as it is signed. -/
def VerifyRequest.header (req : VerifyRequest) (name : Str) : Option Str :=
  (req.headers.lookup name).map collapseWs

/-- One line for each signed header; a header that the request lacks is an error. -/
def canonicalHeaders (req : VerifyRequest) : List Str → Option Str
  | [] => some []
  | name :: rest => do
    let value ← req.header name
    let lines ← canonicalHeaders req rest
    return name ++ ':' :: value ++ '\n' :: lines

/-- The payload hash: the header if there is one, the digest of the body or the marker of an
unsigned payload otherwise. -/
def payloadHash (P : Primitives) (parsed : ParsedSigV4) (req : VerifyRequest) : Str :=
  match req.header "x-amz-content-sha256" with
  | some h => h
  | none => if parsed.isPresigned then "UNSIGNED-PAYLOAD" else hex (P.sha256 req.body)

/-- `to_ascii_uppercase`. -/
def upper (s : Str) : Str :=
  s.map fun c => if 'a' ≤ c ∧ c ≤ 'z' then Char.ofNat (c.toNat - 32) else c

def buildCanonicalRequest (P : Primitives) (parsed : ParsedSigV4) (req : VerifyRequest) :
    Except SigV4Error Str :=
  match canonicalHeaders req parsed.signedHeaders with
  | none => .error (.malformed "signed header not present in request")
  | some headers =>
    .ok (List.intercalate "\n"
      [upper req.method, canonicalUri req.path parsed.service,
        canonicalQuery req.query parsed.isPresigned, headers,
        List.intercalate ";" parsed.signedHeaders, payloadHash P parsed req])

/-! ## Verification -/

def deriveSigningKey (P : Primitives) (secret date region service : Str) : Bytes :=
  let kDate := P.hmac (utf8 ("AWS4" ++ secret)) (utf8 date)
  let kRegion := P.hmac kDate (utf8 region)
  let kService := P.hmac kRegion (utf8 service)
  P.hmac kService (utf8 "aws4_request")

def stringToSign (P : Primitives) (parsed : ParsedSigV4) (canonicalRequest : Str) : Str :=
  List.intercalate "\n"
    ["AWS4-HMAC-SHA256", parsed.amzDate,
      List.intercalate "/"
        [parsed.dateStamp, parsed.region, parsed.service, "aws4_request"],
      hex (P.sha256 (utf8 canonicalRequest))]

def expectedSignature (P : Primitives) (parsed : ParsedSigV4) (secret canonicalRequest : Str) : Str :=
  hex (P.hmac (deriveSigningKey P secret parsed.dateStamp parsed.region parsed.service)
    (utf8 (stringToSign P parsed canonicalRequest)))

/-- The lifetime that a presigned query gives, read off the raw query. -/
def presignedExpiresSecs (query : Str) : Except SigV4Error ℤ :=
  let value := (query.splitOn '&').findSome? fun pair =>
    (splitOnce '=' pair).bind fun kv => if kv.1 == "X-Amz-Expires" then some kv.2 else none
  match value.bind parseI64 with
  | some n => .ok n
  | none => .error (.malformed "missing or invalid X-Amz-Expires")

/-- Whole seconds of a duration, towards zero. -/
def numSeconds (nanos : ℤ) : ℤ := nanos.tdiv 1000000000

/-- The time check: the lifetime of a presigned request, the clock skew of any other. -/
def checkTime (parsed : ParsedSigV4) (query : Str) (signedAt now : ℤ) : Except SigV4Error Unit :=
  let age := numSeconds (now - signedAt)
  if parsed.isPresigned then
    match presignedExpiresSecs query with
    | .error e => .error e
    | .ok expires =>
      if ¬ (1 ≤ expires ∧ expires ≤ maxPresignExpiresSeconds) then
        .error (.invalidPresignExpires expires)
      else if age < -clockSkewSeconds ∨ expires < age then
        .error (.presignedUrlExpired signedAt now expires)
      else .ok ()
  else if clockSkewSeconds < age.natAbs then .error (.requestTimeTooSkewed signedAt now)
  else .ok ()

def verify (P : Primitives) (parsed : ParsedSigV4) (req : VerifyRequest) (secret : Str) (now : ℤ) :
    Except SigV4Error Unit := do
  let signedAt ← (P.parseAmzDate parsed.amzDate).elim
    (.error (.invalidDate "expected YYYYMMDDTHHMMSSZ")) .ok
  checkTime parsed req.query signedAt now
  let canonicalRequest ← buildCanonicalRequest P parsed req
  if expectedSignature P parsed secret canonicalRequest = parsed.signature then .ok ()
  else .error .signatureMismatch

/-! ### What a successful verification says -/

/-- The time window a request has to be verified in. -/
def InWindow (parsed : ParsedSigV4) (query : Str) (signedAt now : ℤ) : Prop :=
  let age := numSeconds (now - signedAt)
  if parsed.isPresigned then
    ∃ expires, presignedExpiresSecs query = .ok expires ∧ 1 ≤ expires ∧ expires ≤ 604800 ∧
      -900 ≤ age ∧ age ≤ expires
  else -900 ≤ age ∧ age ≤ 900

theorem checkTime_eq_ok {parsed : ParsedSigV4} {query : Str} {signedAt now : ℤ} :
    checkTime parsed query signedAt now = .ok () ↔ InWindow parsed query signedAt now := by
  unfold checkTime InWindow clockSkewSeconds maxPresignExpiresSeconds
  simp only
  split_ifs with hp ht
  · rcases presignedExpiresSecs query with e | expires
    · simp
    · simp only [Except.ok.injEq]
      split_ifs with h₁ h₂ <;> simp <;> omega
  · simp
    omega
  · simp
    omega

theorem verify_eq_ok {P : Primitives} {parsed : ParsedSigV4} {req : VerifyRequest} {secret : Str}
    {now : ℤ} : verify P parsed req secret now = .ok () ↔
      ∃ signedAt canonicalRequest, P.parseAmzDate parsed.amzDate = some signedAt ∧
        InWindow parsed req.query signedAt now ∧ buildCanonicalRequest P parsed req = .ok canonicalRequest ∧
        expectedSignature P parsed secret canonicalRequest = parsed.signature := by
  have hif : ∀ {c : Prop} [Decidable c] {e : SigV4Error},
    (if c then Except.ok () else .error e) = .ok () ↔ c := by
    intro c _ e
    split_ifs with h
    · simpa using h
    · simpa using h
  simp only [verify, bind_eq_ok, elim_error_eq_ok, hif]
  constructor
  · rintro ⟨signedAt, hd, _, hw, canonicalRequest, hc, hs⟩
    exact ⟨signedAt, canonicalRequest, hd, checkTime_eq_ok.mp hw, hc, hs⟩
  · rintro ⟨signedAt, canonicalRequest, hd, hw, hc, hs⟩
    exact ⟨signedAt, hd, (), checkTime_eq_ok.mpr hw, canonicalRequest, hc, hs⟩

end Fakecloud.Aws

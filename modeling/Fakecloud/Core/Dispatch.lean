import Fakecloud.Core.Protocol
import Fakecloud.Lib.Json

/-!
# Dispatch

`dispatch.rs`: from an HTTP request to the request a service handles.  The stages are those of
`dispatch_inner`: receive the body and detect the service, identify the caller, verify the
signature, assemble the request, enforce the policies.

A service, the credential resolver, the policy evaluator, the resource policy provider and the
resolver of service control policies are records of functions: every result holds for any of them.
`Libraries` is what dispatch takes from other libraries and from the machine.
-/

namespace Fakecloud.Core

open Text Fakecloud.Aws Protocol

/-! ## Collaborators -/

structure CredentialResolver where
  resolve : Str → Option ResolvedCredential
  isExpired : Str → Bool

/-- Policies are JSON texts here; the evaluator parses them. -/
structure PolicyEvaluator where
  evaluateWithResourcePolicy : (principal : Principal) → IamAction → ConditionContext →
    (resourcePolicy : Option Str) → (resourceAccountId : Str) → (sessionPolicies : List Str) →
    (scps : Option (List Str)) → Decision
  evaluateAnonymous : IamAction → ConditionContext → (resourcePolicy : Option Str) → Decision
  evaluateResourcePolicyOnly : Principal → IamAction → ConditionContext →
    (resourcePolicy : Option Str) → Decision

structure ResourcePolicyProvider where
  resourcePolicy : (service resourceArn : Str) → Option Str
  resourceOwnerAccount : (service resourceArn : Str) → Option Str
  publicAclAllows : (service resourceArn action : Str) → Bool

structure ScpResolver where
  scpsFor : Principal → Option (List Str)
  principalOrg : (accountId : Str) → Option (Str × Str)

structure Service where
  iamEnforceable : Bool
  iamActionsFor : AwsRequest → List IamAction
  iamResourceInCallerAccount : AwsRequest → Bool
  iamConditionKeysFor : AwsRequest → IamAction → List (Str × List Str)
  resourceTagsFor : Str → Option (List (Str × Str))
  requestTagsFrom : AwsRequest → (action : Str) → Option (List (Str × Str))

structure Config where
  region : Str
  accountId : Str
  verifySigv4 : Bool
  iamMode : IamMode
  credentialResolver : Option CredentialResolver
  policyEvaluator : Option PolicyEvaluator
  resourcePolicyProvider : Option ResourcePolicyProvider
  scpResolver : Option ScpResolver
  registry : Str → Option Service

structure Libraries where
  primitives : Primitives
  /-- the server's clock, in nanoseconds since the Unix epoch -/
  now : ℤ
  /-- the cap on buffered bodies -/
  maxRequestBodyBytes : ℕ
  /-- at most so many bytes of an unpacked gzip stream -/
  gunzip : ℕ → Bytes → Except Str Bytes
  parseJson : Bytes → Option Json
  /-- a CBOR document as JSON text -/
  decodeCbor : Bytes → Except Str Bytes
  /-- `HeaderValue::from_str` takes the text -/
  validHeaderValue : Str → Bool
  /-- `rfc2047::encode` -/
  rfc2047 : Str → Str
  /-- `auth_message::encode_deny` -/
  encodeDeny : Decision → IamAction → Principal → ConditionContext → Str

structure Rejection where
  status : ℕ
  code : Str
  message : Str
  deriving DecidableEq

/-! ## Receiving and detecting -/

/-- The path an S3 request is routed on: a bucket from the host goes in front. -/
def s3RoutingPath (wirePath : Str) : Option Str → Str
  | none => wirePath
  | some bucket =>
    if wirePath == "/" || wirePath.isEmpty then '/' :: bucket else '/' :: bucket ++ wirePath

/-- Uploads whose body is handed to the service unread, with the service they belong to. -/
def streamingRoute (r : HttpRequest) (params : QueryMap) : Option Str :=
  if (r.method == "PATCH" || r.method == "PUT") && List.isPrefixOf "/v2/" r.path &&
      containsStr r.path "/blobs/uploads/" then some "ecr"
  else if r.method == "PUT" then
    let hostBucket :=
      ((parseRoutingHostFromHeaders r.headers).filter fun h => h.service == "s3".toList).bind
        RoutingHost.bucket
    let segments := ((s3RoutingPath r.path hostBucket).splitOn '/').filter fun s => !s.isEmpty
    if segments.length < 2 then none
    else
      let headerS3 :=
        ((r.headers.getStr "authorization").bind parseSigv4).any fun info => info.service == "s3".toList
      let presignedV4S3 :=
        ((params.get "X-Amz-Credential").bind fun c => (c.splitOn '/')[3]?).any (· == "s3".toList)
      if headerS3 || presignedV4S3 || hasSigv2Params params then some "s3" else none
  else none

def rpcV2Cbor (r : HttpRequest) : Option DetectedRequest :=
  if r.pinned.isNone then detectRpcV2Cbor r.headers r.path else none

/-- The detection of a streamed upload; headers and URL have to agree on the service. -/
def streamDispatch (r : HttpRequest) (params : QueryMap) : Option DetectedRequest :=
  if r.pinned.isSome || (rpcV2Cbor r).isSome then none
  else
    match streamingRoute r params, detectServiceHeadersOnly r.headers params with
    | some service, some detected => if service == detected.service then some detected else none
    | some service, none => if service == "ecr" then some ⟨"ecr", [], .rest⟩ else none
    | none, _ => none

/-- Only these services take compressed bodies. -/
def requestCompressionServices : List String := ["monitoring"]

def decodeRequestCompression (L : Libraries) (r : HttpRequest) (body : Bytes) : Except Rejection Bytes :=
  let gzipped := ((r.headers.allStr "content-encoding").flatMap fun v => v.splitOn ',').any
    fun enc => eqIgnoreCase (trim enc) "gzip"
  if !gzipped || body.isEmpty then .ok body
  else
    let service := (rpcV2Cbor r).map DetectedRequest.service <|>
      ((r.headers.getStr "x-amz-target").bind parseAmzTarget).map DetectedRequest.service <|>
      extractServiceFromAuth r.headers
    if !service.any (listed requestCompressionServices) then .ok body
    else
      match L.gunzip (L.maxRequestBodyBytes + 1) body with
      | .ok out =>
        if L.maxRequestBodyBytes < out.length then
          .error ⟨400, "SerializationException", "Decompressed request body too large"⟩
        else .ok out
      | .error e =>
        .error ⟨400, "SerializationException",
          "Unable to decompress gzip request body: " ++ e⟩

def s3Arn (resource : Str) : Str := "arn:aws:s3:::" ++ resource

/-- The bucket of an unsigned path-style request: a first segment that the provider knows. -/
def anonymousS3Bucket (cfg : Config) (path : Str) : Option Str :=
  cfg.resourcePolicyProvider.bind fun provider =>
    ((path.splitOn '/').find? fun s => !s.isEmpty).bind fun segment =>
      (provider.resourceOwnerAccount "s3" (s3Arn segment)).map fun _ => segment

def isExecuteApiHost (headers : HeaderMap) : Bool :=
  (headers.getStr "host").any fun host => containsStr host ".execute-api."

def fallbackService (cfg : Config) (r : HttpRequest) : Except Rejection DetectedRequest :=
  match r.headers.getStr "x-amz-target" with
  | some target =>
    .error ⟨400, "UnknownOperationException",
      "The operation " ++ target ++ " is not recognized."⟩
  | none =>
    if r.method == "OPTIONS" && isExecuteApiHost r.headers then .ok ⟨"apigateway", [], .restJson⟩
    else if r.method == "OPTIONS" then .ok ⟨"s3", [], .rest⟩
    else if r.path == "/v2" || List.isPrefixOf "/v2/" r.path then .ok ⟨"ecr", [], .rest⟩
    else if (anonymousS3Bucket cfg r.path).isSome then .ok ⟨"s3", [], .rest⟩
    else if !List.isPrefixOf "/_" r.path || List.isPrefixOf "/_aws/execute-api/" r.path then
      .ok ⟨"apigateway", [], .restJson⟩
    else
      .error ⟨400, "MissingAction", "Could not determine target service or action from request"⟩

/-- A tag label that is the ARN of a runtime session. -/
def namesBedrockSession (label : Str) : Bool :=
  let decoded := replace "%2f" "/" (replace "%3a" ":" (lower label))
  List.isPrefixOf "arn:" decoded && containsStr decoded ":bedrock:" &&
    containsStr decoded ":session/"

/-- A pattern of path segments (`none` is any segment), with or without more segments behind. -/
def segmentsFit : List (Option String) → (more : Bool) → List Str → Bool
  | [], more, rest => more || rest.isEmpty
  | p :: ps, more, s :: rest => p.all (fun p => p.toList == s) && segmentsFit ps more rest
  | _ :: _, _, [] => false

def bedrockAgentFamilies : List String :=
  ["agents", "knowledgebases", "flows", "prompts", "tags", "retrieveAndGenerate",
    "retrieveAndGenerateStream", "optimize-prompt", "sessions", "invocations", "generate-query",
    "rerank"]

def bedrockRuntimeShapes : List (List (Option String) × Bool) :=
  [([some "", some "agents", none, some "agentAliases", none], true),
    ([some "", some "flows", none, some "executions"], false),
    ([some "", some "flows", none, some "aliases", none, some "executions"], true),
    ([some "", some "knowledgebases", none, some "retrieve"], false),
    ([some "", some "retrieveAndGenerate"], false),
    ([some "", some "retrieveAndGenerateStream"], false),
    ([some "", some "optimize-prompt"], false),
    ([some "", some "sessions"], true),
    ([some "", some "invocations"], true),
    ([some "", some "generate-query"], false),
    ([some "", some "rerank"], false)]

/-- The agent service a `bedrock` request belongs to, by method and raw path. -/
def bedrockAgentServiceFor (method path : Str) : Option Str :=
  let segs := path.splitOn '/'
  if !segs[1]?.any (listed bedrockAgentFamilies) then none
  else
    let isRuntime :=
      bedrockRuntimeShapes.any (fun shape => segmentsFit shape.1 shape.2 segs) ||
      (method == "POST" && segmentsFit [some "", some "flows", none, some "aliases", none] false segs) ||
      (method == "POST" && segmentsFit [some "", some "agents", none] false segs &&
        segs[2]?.any fun id => !id.isEmpty) ||
      (path.dropPrefix? "/tags/").any namesBedrockSession
    some (if isRuntime then "bedrock-agent-runtime" else "bedrock-agent")

/-- The user agent carries the token `api/<name>` of an SDK. -/
def userAgentIndicates (token : Str) (headers : HeaderMap) : Bool :=
  ["user-agent", "x-amz-user-agent"].any fun name =>
    (headers.getStr name).any fun ua =>
      (splitWhitespace ua).any fun part =>
        (part.dropPrefix? token).any fun rest =>
          rest.isEmpty || rest.head? == some '#' || rest.head? == some '/'

def userAgentIndicatesDocdb (headers : HeaderMap) : Bool := userAgentIndicates "api/docdb" headers

def userAgentIndicatesNeptune (headers : HeaderMap) : Bool :=
  userAgentIndicates "api/neptune" headers

/-- Services that share a credential scope are told apart by the path or by the user agent. -/
def disambiguate (r : HttpRequest) (detected : DetectedRequest) : DetectedRequest :=
  let detected :=
    if detected.service == "bedrock" then
      { detected with service := (bedrockAgentServiceFor r.method r.path).getD detected.service }
    else detected
  let detected :=
    if detected.service == "rds" && userAgentIndicatesDocdb r.headers then
      { detected with service := "docdb" }
    else detected
  if detected.service == "rds" && userAgentIndicatesNeptune r.headers then
    { detected with service := "neptune" }
  else detected

/-- The bodies of a request once its service is known. -/
structure Received where
  detected : DetectedRequest
  /-- the bytes as sent, which the signature covers; nothing of a streamed body -/
  wireBody : Bytes
  /-- the bytes the service parses -/
  body : Bytes
  bodyStream : Option Bytes

/-- The body, buffered or streamed. -/
def readBody (L : Libraries) (r : HttpRequest) (params : QueryMap) :
    Except Rejection (Bytes × Option Bytes) :=
  if (streamDispatch r params).isSome then .ok ([], some r.body)
  else if L.maxRequestBodyBytes < r.body.length then
    .error ⟨413, "RequestEntityTooLarge", "Request body too large"⟩
  else .ok (r.body, none)

def unpackBody (L : Libraries) (r : HttpRequest) (bodies : Bytes × Option Bytes) : Except Rejection Bytes :=
  if r.pinned.isNone && bodies.2.isNone then decodeRequestCompression L r bodies.1
  else .ok bodies.1

/-- The service of a request: pinned, by its CBOR path, by its upload route, or detected. -/
def detect (cfg : Config) (r : HttpRequest) (params : QueryMap) (body : Bytes) :
    Except Rejection DetectedRequest :=
  match r.pinned, rpcV2Cbor r, streamDispatch r params with
  | some service, _, _ => .ok ⟨service, [], .rest⟩
  | none, some d, _ => .ok d
  | none, none, some d => .ok d
  | none, none, none =>
    match detectService r.headers params body with
    | some d => .ok d
    | none => fallbackService cfg r

def receive (L : Libraries) (cfg : Config) (r : HttpRequest) : Except Rejection Received := do
  let params := queryMap r.query
  let bodies ← readBody L r params
  let body ← unpackBody L r bodies
  let detected ← detect cfg r params body
  return ⟨disambiguate r detected, bodies.1, body, bodies.2⟩

variable {L : Libraries} {cfg : Config} {r : HttpRequest} {received : Received}

theorem receive_eq_ok : receive L cfg r = .ok received ↔ ∃ bodies body detected,
      readBody L r (queryMap r.query) = .ok bodies ∧ unpackBody L r bodies = .ok body ∧
      detect cfg r (queryMap r.query) body = .ok detected ∧
      received = ⟨disambiguate r detected, bodies.1, body, bodies.2⟩ := by
  simp only [receive, bind_eq_ok, pure, Except.pure, Except.ok.injEq]
  constructor
  · rintro ⟨bodies, hb, body, hbd, detected, hd, rfl⟩
    exact ⟨bodies, body, detected, hb, hbd, hd, rfl⟩
  · rintro ⟨bodies, body, detected, hb, hbd, hd, rfl⟩
    exact ⟨bodies, hb, body, hbd, detected, hd, rfl⟩

/-- The body bytes that a signature can cover: nothing of a streamed body. -/
def wireBodyOf (r : HttpRequest) : Bytes :=
  if (streamDispatch r (queryMap r.query)).isSome then [] else r.body

theorem receive_wireBody
    (h : receive L cfg r = .ok received) : received.wireBody = wireBodyOf r := by
  obtain ⟨bodies, body, detected, hb, -, -, rfl⟩ := receive_eq_ok.mp h
  unfold readBody at hb
  unfold wireBodyOf
  split_ifs at hb ⊢ <;> cases hb <;> rfl

/-! ## The caller -/

def sigv2PresignedAccessKey (params : QueryMap) : Option Str :=
  if params.containsKey "Signature" && params.containsKey "Expires" then
    params.get "AWSAccessKeyId"
  else none

def extractRegionFromUserAgent (headers : HeaderMap) : Option Str :=
  (headers.getStr "user-agent").bind fun ua =>
    (splitWhitespace ua).findSome? fun part =>
      (part.dropPrefix? "region/").filter fun region => !region.isEmpty

/-- What a request says about its caller. -/
structure Caller where
  authHeader : Str
  accessKeyId : Option Str
  region : Str
  resolved : Option ResolvedCredential
  /-- neither an `Authorization` header nor presigned credentials -/
  isFullyAnonymous : Bool

def Caller.akid (caller : Caller) : Str := caller.accessKeyId.getD []

/-- The routing credential: the header's, or that of a presigned URL when the header has none. -/
def sigv4Info (authHeader : Str) (params : QueryMap) : Option SigV4Info :=
  parseSigv4 authHeader <|> (parseSigv4Presigned params).map ParsedSigV4.asInfo

def authorizationHeader (r : HttpRequest) : Str := (r.headers.getStr "authorization").getD []

def identify (cfg : Config) (r : HttpRequest) : Caller :=
  let params := queryMap r.query
  let authHeader := authorizationHeader r
  let info := sigv4Info authHeader params
  let accessKeyId := info.map SigV4Info.accessKey <|> sigv2PresignedAccessKey params
  let region := info.map SigV4Info.region <|>
    (parseRoutingHostFromHeaders r.headers).map RoutingHost.region <|>
    extractRegionFromUserAgent r.headers
  let akid := accessKeyId.getD []
  { authHeader
    accessKeyId
    region := region.getD cfg.region
    resolved :=
      if !akid.isEmpty && !isRootBypass akid then
        cfg.credentialResolver.bind fun resolver => resolver.resolve akid
      else none
    isFullyAnonymous := authHeader.isEmpty && !params.containsKey "X-Amz-Credential" &&
      (sigv2PresignedAccessKey params).isNone }

/-! ## The signature -/

def unresolvedCredential (cfg : Config) (accessKeyId : Str) : Rejection :=
  if cfg.credentialResolver.any fun resolver => resolver.isExpired accessKeyId then
    ⟨403, "ExpiredToken", "The security token included in the request is expired"⟩
  else ⟨403, "InvalidClientTokenId", "The security token included in the request is invalid"⟩

def signatureDoesNotMatch : Rejection :=
  ⟨403, "SignatureDoesNotMatch",
    "The request signature we calculated does not match the signature you provided"⟩

def signatureRejection : SigV4Error → Rejection
  | .requestTimeTooSkewed _ _ =>
    ⟨403, "RequestTimeTooSkewed",
      "The difference between the request time and the current time is too large"⟩
  | .invalidDate reason => ⟨403, "IncompleteSignature", "Invalid x-amz-date: " ++ reason⟩
  | .malformed reason => ⟨403, "IncompleteSignature", "Malformed SigV4 signature: " ++ reason⟩
  | .signatureMismatch => signatureDoesNotMatch
  | .presignedUrlExpired _ _ _ => ⟨403, "AccessDenied", "Request has expired"⟩
  | .invalidPresignExpires _ =>
    ⟨400, "AuthorizationQueryParametersError",
      "X-Amz-Expires must be a number between 1 and 604800 seconds"⟩

def isHexSha256 (s : Str) : Bool :=
  s.length == 64 && s.all fun c => c.isDigit || ('a' ≤ c && c ≤ 'f')

/-- The signature that verification looks at: the header's, or the presigned one. -/
def parsedSignature (r : HttpRequest) : Option ParsedSigV4 :=
  parseSigv4Header (authorizationHeader r) (r.headers.getStr "x-amz-date") <|>
    parseSigv4Presigned (queryMap r.query)

def verifyRequest (r : HttpRequest) (wireBody : Bytes) : VerifyRequest :=
  ⟨r.method, r.path, r.query, headersFromHttp r.headers, wireBody⟩

/-- The digest that a header-signed request announces has to be that of the body; S3 checks for
itself. -/
def bodyIsBound (L : Libraries) (r : HttpRequest) (received : Received) (parsed : ParsedSigV4) : Bool :=
  parsed.isPresigned || received.detected.service == "s3" ||
    ((r.headers.getStr "x-amz-content-sha256").filter isHexSha256).all fun signedHash =>
      hex (L.primitives.sha256 received.wireBody) == signedHash

def mustVerify (cfg : Config) (caller : Caller) : Bool :=
  cfg.verifySigv4 && !caller.isFullyAnonymous && !isRootBypass caller.akid &&
    cfg.credentialResolver.isSome

def verifySignature (L : Libraries) (cfg : Config) (r : HttpRequest) (received : Received)
    (caller : Caller) : Except Rejection Unit :=
  if mustVerify cfg caller then
    match parsedSignature r with
    | none =>
      .error ⟨403, "IncompleteSignature", "Request is missing or has a malformed AWS Signature"⟩
    | some parsed =>
      match caller.resolved with
      | none => .error (unresolvedCredential cfg caller.akid)
      | some resolved =>
        match verify L.primitives parsed (verifyRequest r received.wireBody)
            resolved.secretAccessKey L.now with
        | .error e => .error (signatureRejection e)
        | .ok () =>
          if bodyIsBound L r received parsed then .ok () else .error signatureDoesNotMatch
  else .ok ()

/-! ## The request of the service -/

/-- Parameters that authenticate a presigned request and are no headers. -/
def presignAuthParams : List String :=
  ["x-amz-algorithm", "x-amz-credential", "x-amz-date", "x-amz-expires", "x-amz-signedheaders",
    "x-amz-signature", "x-amz-security-token"]

/-- The entries of a map: each key once, with the value that counts. -/
def QueryMap.entries (q : QueryMap) : List (Str × Str) :=
  (q.map Prod.fst).dedup.map fun key => (key, (q.get key).getD [])

/-- A presigned URL can carry `x-amz-*` headers as parameters; a header that was sent wins. -/
def hoistPresignedQueryHeaders (L : Libraries) (headers : HeaderMap) (params : QueryMap) : HeaderMap :=
  params.entries.foldl (fun headers entry =>
    let name := lower entry.1
    if !List.isPrefixOf "x-amz-" name || listed presignAuthParams name || !isHeaderName name ||
        headers.containsKey name then headers
    else
      let value := if List.isPrefixOf "x-amz-meta-" name then L.rfc2047 entry.2 else entry.2
      if L.validHeaderValue value then headers.insertNew name (utf8 value) else headers) headers

mutual

/-- A JSON document as flat query parameters. -/
def flattenJsonValue (path : Str) : Json → QueryMap
  | .obj fields => flattenFields path fields
  | .arr items => flattenItems path 1 items
  | .null => []
  | .str s => [(path, s)]
  | .bool b => [(path, ConditionContext.showBool b)]
  | .num text => [(path, text)]

def flattenFields (path : Str) : List (Str × Json) → QueryMap
  | [] => []
  | (key, value) :: rest =>
    flattenJsonValue (if path.isEmpty then key else path ++ '.' :: key) value ++
      flattenFields path rest

def flattenItems (path : Str) (index : ℕ) : List Json → QueryMap
  | [] => []
  | value :: rest =>
    flattenJsonValue (path ++ ".member." ++ (toString index).toList) value ++
      flattenItems path (index + 1) rest

end

/-- `flatten_json_to_query`; anything but an object has no parameters. -/
def flattenJsonToQuery (L : Libraries) (body : Bytes) : QueryMap :=
  match L.parseJson body with
  | some (.obj fields) => flattenJsonValue [] (.obj fields)
  | _ => []

def isQueryFamily (protocol : AwsProtocol) : Bool := protocol == .query || protocol == .ec2Query

/-- The body the service parses: a CBOR document becomes JSON, and a JSON body has to be valid. -/
def serviceBody (L : Libraries) (detected : DetectedRequest) (body : Bytes) : Except Rejection Bytes :=
  if detected.protocol == .rpcV2Cbor then
    match L.decodeCbor body with
    | .ok json => .ok json
    | .error e =>
      .error ⟨400, "SerializationException", "Unable to decode CBOR request body: " ++ e⟩
  else if detected.protocol == .json && !body.isEmpty && (L.parseJson body).isNone then
    .error ⟨400, "SerializationException", "Start of structure or map found where not expected"⟩
  else .ok body

/-- Parameters of the query string win over those of the body. -/
def allParams (L : Libraries) (detected : DetectedRequest) (params : QueryMap) (body : Bytes) : QueryMap :=
  let params :=
    if isQueryFamily detected.protocol then decodeFormUrlencoded body ++ params else params
  if (detected.protocol == .json || detected.protocol == .rpcV2Cbor) &&
      detected.service == "monitoring" then flattenJsonToQuery L body ++ params
  else params

/-- The in-process identity counts only for a request without credentials of its own. -/
def internalCallerOf (r : HttpRequest) (caller : Caller) : Option InternalCaller :=
  if caller.isFullyAnonymous && caller.accessKeyId.isNone then r.internalCaller else none

/-- For S3 the owner of the addressed bucket, otherwise the account the caller acts for. -/
def internalCallerAccount (cfg : Config) (internal : InternalCaller) (service : Str)
    (pathSegments : List Str) : Str :=
  let owner :=
    if service == "s3" then
      pathSegments.head?.bind fun bucket =>
        cfg.resourcePolicyProvider.bind fun p => p.resourceOwnerAccount "s3" (s3Arn bucket)
    else none
  owner.getD internal.actingAccount

/-- The path that segments are read from. -/
def routedPath (r : HttpRequest) (service : Str) : Str :=
  if service == "s3" then
    s3RoutingPath r.path ((parseRoutingHostFromHeaders r.headers).bind RoutingHost.bucket)
  else r.path

/-- The identity that the service sees. -/
def callerPrincipal (r : HttpRequest) (caller : Caller) : Option Principal :=
  caller.resolved.map ResolvedCredential.principal <|>
    (internalCallerOf r caller).map InternalCaller.principal

def awsRequest (L : Libraries) (cfg : Config) (r : HttpRequest) (received : Received)
    (caller : Caller) (body : Bytes) : AwsRequest :=
  let detected := received.detected
  let params := queryMap r.query
  let path := routedPath r detected.service
  { service := detected.service
    action := detected.action
    region := caller.region
    accountId := match internalCallerOf r caller with
      | some internal =>
        internalCallerAccount cfg internal detected.service (splitPathSegments path)
      | none => ((callerPrincipal r caller).map Principal.accountId).getD cfg.accountId
    headers :=
      if detected.service == "s3" && params.containsKey "X-Amz-Credential" then
        hoistPresignedQueryHeaders L r.headers params
      else r.headers
    queryParams := allParams L detected params body
    body
    bodyStream := received.bodyStream
    pathSegments := splitPathSegments path
    rawPath := path
    rawQuery := r.query
    method := r.method
    isQueryProtocol := isQueryFamily detected.protocol
    accessKeyId := caller.accessKeyId
    principal := callerPrincipal r caller }

/-! ## The condition context -/

/-- Map entries in key order: `entry(key).or_insert(value)`. -/
def orInsert (key : Str) (value : List Str) : List (Str × List Str) → List (Str × List Str)
  | [] => [(key, value)]
  | e :: rest =>
    if e.1 == key then e :: rest
    else if key < e.1 then (key, value) :: e :: rest
    else e :: orInsert key value rest

/-- Map entries in key order: `insert(key, value)`. -/
def insertKey (key : Str) (value : List Str) (keys : List (Str × List Str)) : List (Str × List Str) :=
  orInsert key value (keys.filter fun e => e.1 != key)

def parseAccountFromArn (arn : Str) : Option Str :=
  match arn.splitOn ':' with
  | scheme :: _ :: _ :: _ :: account :: _ :: _ =>
    if scheme == "arn" && !account.isEmpty then some account else none
  | _ => none

def isSecureTransport (headers : HeaderMap) : Bool :=
  (headers.getStr "x-forwarded-proto").any fun s => eqIgnoreCase s "https"

/-- `aws:username` exists for users only: the name behind the IAM path. -/
def awsUsernameFromPrincipal (principal : Principal) : Option Str :=
  if principal.principalType != .user then none
  else
    (principal.arn.reverse.dropInfix? (":user/".toList).reverse).bind fun cut =>
      (cut.1.reverse.splitOn '/').getLast?

def principalTypeLabel : PrincipalType → Str
  | .user => "User"
  | .assumedRole => "AssumedRole"
  | .federatedUser => "FederatedUser"
  | .root => "Account"
  | .unknown => "Unknown"
  | .service => "Service"

def timestamp (nanos : ℤ) : ℤ := nanos / 1000000000

def buildConditionContext (L : Libraries) (principal : Principal) (remoteAddr : IpAddr)
    (region : Str) (secureTransport : Bool) : ConditionContext where
  awsUsername := awsUsernameFromPrincipal principal
  awsUserid := some principal.userId
  awsPrincipalArn := some principal.arn
  awsPrincipalAccount := some principal.accountId
  awsPrincipalType := some (principalTypeLabel principal.principalType)
  awsSourceIp := some remoteAddr
  awsCurrentTime := some L.now
  awsEpochTime := some (timestamp L.now)
  awsSecureTransport := some secureTransport
  awsRequestedRegion := some region

/-- What the authorization of a request works with. -/
structure Enforcement where
  libraries : Libraries
  config : Config
  evaluator : PolicyEvaluator
  service : Service
  request : AwsRequest
  resolved : Option ResolvedCredential
  remoteAddr : IpAddr

namespace Enforcement

variable (e : Enforcement)

/-- The principal's keys, the keys of its session, the service's keys and the tags. -/
def principalConditionContext (principal : Principal) (action : IamAction) : ConditionContext :=
  let base := buildConditionContext e.libraries principal e.remoteAddr e.request.region
    (isSecureTransport e.request.headers)
  let session := match e.resolved with
    | some rc =>
      { base with
        awsMfaPresent := some rc.mfaPresent
        awsTokenIssueTime := rc.tokenIssuedAt
        awsFederatedProvider := rc.federatedProvider
        awsMfaAgeSeconds :=
          if rc.mfaPresent then
            rc.tokenIssuedAt.map fun issued => max (numSeconds (e.libraries.now - issued)) 0
          else none }
    | none => base
  { session with
    serviceKeys := e.service.iamConditionKeysFor e.request action
    resourceTags := if action.isPassRole then none else e.service.resourceTagsFor action.resource
    requestTags := e.service.requestTagsFrom e.request action.action
    principalTags := principal.tags }

/-- `aws:ResourceAccount` and the organization of the principal; a value of the service wins. -/
def addGlobalRequestKeys (ctx : ConditionContext) (principal : Principal) (resourceAccountId : Str) :
    ConditionContext :=
  let keys := if resourceAccountId.isEmpty then ctx.serviceKeys
    else orInsert "aws:resourceaccount" [resourceAccountId] ctx.serviceKeys
  let org := e.config.scpResolver.bind fun r => r.principalOrg principal.accountId
  let keys := match org with
    | some (orgId, path) =>
      orInsert "aws:principalorgpaths" [path] (orInsert "aws:principalorgid" [orgId] keys)
    | none => keys
  { ctx with serviceKeys := keys }

/-- In strict mode a denial is an error response; otherwise it is only logged. -/
def whenStrict (rejection : Rejection) : Option Rejection :=
  if e.config.iamMode.isStrict then some rejection else none

/-- The loop over the actions: the first one that is not allowed decides. -/
def firstDenied (allowed : IamAction → Bool) (rejection : IamAction → Rejection)
    (actions : List IamAction) : Option Rejection :=
  (actions.find? fun action => !allowed action).bind fun action => e.whenStrict (rejection action)

def accessDenied : Rejection := ⟨403, "AccessDenied", "Access Denied"⟩

/-! ### A resolved principal -/

/-- The provider has a say about the resource of this action. -/
def hasResourceSide (action : IamAction) : Bool :=
  !action.isPassRole && !e.service.iamResourceInCallerAccount e.request

def resourcePolicyJson (action : IamAction) : Option Str :=
  (e.config.resourcePolicyProvider.filter fun _ => e.hasResourceSide action).bind fun p =>
    p.resourcePolicy e.request.service action.resource

/-- The owner the provider names, else the account of the ARN, else the caller's. -/
def resourceAccountId (principal : Principal) (action : IamAction) : Str :=
  (((e.config.resourcePolicyProvider.filter fun _ => e.hasResourceSide action).bind fun p =>
    p.resourceOwnerAccount e.request.service action.resource).or
      (parseAccountFromArn action.resource)).getD principal.accountId

def principalContext (principal : Principal) (action : IamAction) : ConditionContext :=
  e.addGlobalRequestKeys (e.principalConditionContext principal action) principal
    (e.resourceAccountId principal action)

def principalDecision (principal : Principal) (action : IamAction) : Decision :=
  e.evaluator.evaluateWithResourcePolicy principal action (e.principalContext principal action)
    (e.resourcePolicyJson action) (e.resourceAccountId principal action)
    ((e.resolved.map ResolvedCredential.sessionPolicies).getD [])
    (e.config.scpResolver.bind fun r => r.scpsFor principal)

def principalDenied (principal : Principal) (action : IamAction) : Rejection :=
  ⟨403, "AccessDeniedException",
    "User: " ++ principal.arn ++ " is not authorized to perform: " ++
      action.actionString ++ " on resource: " ++ action.resource ++
      " Encoded authorization failure message: " ++
      e.libraries.encodeDeny (e.principalDecision principal action) action principal
        (e.principalContext principal action)⟩

def noActionMapping (principal : Principal) : Rejection :=
  ⟨403, "AccessDeniedException",
    "User: " ++ principal.arn ++ " is not authorized to perform: " ++
      e.request.action ++ (": no IAM action mapping exists for this operation, " ++
        "so it cannot be authorized under strict IAM enforcement").toList⟩

def authorizePrincipal (principal : Principal) : Option Rejection :=
  let actions := e.service.iamActionsFor e.request
  if actions.isEmpty then e.whenStrict (e.noActionMapping principal)
  else
    e.firstDenied (fun action => (e.principalDecision principal action).isAllow)
      (e.principalDenied principal) actions

/-! ### An account root -/

/-- A resource policy allows, or does not forbid what a public ACL allows. -/
def policyOrAcl (provider : Option ResourcePolicyProvider) (decision : Decision)
    (action : IamAction) : Bool :=
  decision.isAllow || (decision != .explicitDeny &&
    provider.any fun p => p.publicAclAllows e.request.service action.resource action.action)

def rootDecision (principal : Principal) (provider : ResourcePolicyProvider) (owner : Str)
    (action : IamAction) : Decision :=
  e.evaluator.evaluateResourcePolicyOnly principal action
    (e.addGlobalRequestKeys (e.principalConditionContext principal action) principal owner)
    (provider.resourcePolicy e.request.service action.resource)

/-- A resource of another account, as the provider sees it. -/
def foreignOwner (principal : Principal) (provider : ResourcePolicyProvider)
    (action : IamAction) : Option Str :=
  (provider.resourceOwnerAccount e.request.service action.resource).filter fun owner =>
    owner != principal.accountId

def rootAllowed (principal : Principal) (provider : ResourcePolicyProvider) (action : IamAction) : Bool :=
  (e.foreignOwner principal provider action).all fun owner =>
    e.policyOrAcl (some provider) (e.rootDecision principal provider owner action) action

def rootDenied (principal : Principal) (action : IamAction) : Rejection :=
  ⟨403, "AccessDeniedException",
    "User: " ++ principal.arn ++ " is not authorized to perform: " ++
      action.actionString ++ " on resource: " ++ action.resource ++
      " because no resource-based policy allows the " ++ action.actionString ++
      " action"⟩

def authorizeRootCrossAccount (principal : Principal) : Option Rejection :=
  if e.service.iamResourceInCallerAccount e.request then none
  else
    e.config.resourcePolicyProvider.bind fun provider =>
      e.firstDenied (e.rootAllowed principal provider) (rootDenied principal)
        (e.service.iamActionsFor e.request)

/-! ### An anonymous caller -/

def anonymousContext (action : IamAction) : ConditionContext :=
  let owner := (e.config.resourcePolicyProvider.bind fun p =>
    p.resourceOwnerAccount e.request.service action.resource) <|>
      parseAccountFromArn action.resource
  let keys := e.service.iamConditionKeysFor e.request action
  { awsSourceIp := some e.remoteAddr
    awsCurrentTime := some e.libraries.now
    awsEpochTime := some (timestamp e.libraries.now)
    awsSecureTransport := some (isSecureTransport e.request.headers)
    awsRequestedRegion := some e.request.region
    serviceKeys := match owner with
      | some owner => orInsert "aws:resourceaccount" [owner] keys
      | none => keys }

/-- The policy attached to the resource of an action, whoever asks. -/
def attachedPolicy (action : IamAction) : Option Str :=
  e.config.resourcePolicyProvider.bind fun p => p.resourcePolicy e.request.service action.resource

def anonymousAllowed (action : IamAction) : Bool :=
  e.policyOrAcl e.config.resourcePolicyProvider
    (e.evaluator.evaluateAnonymous action (e.anonymousContext action) (e.attachedPolicy action))
    action

def authorizeAnonymous : Option Rejection :=
  let actions := e.service.iamActionsFor e.request
  if actions.isEmpty then e.whenStrict accessDenied
  else e.firstDenied e.anonymousAllowed (fun _ => accessDenied) actions

/-! ### An in-process caller -/

def internalContext (internal : InternalCaller) (action : IamAction) : ConditionContext :=
  let keys := internal.conditionKeys.foldl (fun keys kv => insertKey kv.1 kv.2 keys)
    (e.service.iamConditionKeysFor e.request action)
  { awsPrincipalArn := some internal.principal.arn
    awsCurrentTime := some e.libraries.now
    awsEpochTime := some (timestamp e.libraries.now)
    awsSecureTransport := some (isSecureTransport e.request.headers)
    awsRequestedRegion := some e.request.region
    serviceKeys := orInsert "aws:resourceaccount" [e.request.accountId] keys }

def internalAllowed (internal : InternalCaller) (action : IamAction) : Bool :=
  e.policyOrAcl e.config.resourcePolicyProvider
    (e.evaluator.evaluateResourcePolicyOnly internal.principal action
      (e.internalContext internal action) (e.attachedPolicy action)) action

/-- Passing a role is not asked of a service that acts on behalf of AWS. -/
def authorizeInternalCaller (internal : InternalCaller) : Option Rejection :=
  let actions := e.service.iamActionsFor e.request
  if actions.isEmpty then e.whenStrict accessDenied
  else
    e.firstDenied (e.internalAllowed internal) (fun _ => accessDenied)
      (actions.filter fun action => !action.isPassRole)

/-! ### The five kinds of caller -/

def authorize (internal : Option InternalCaller) : Option Rejection :=
  match internal, e.request.principal, e.request.accessKeyId with
  | some internal, _, _ => e.authorizeInternalCaller internal
  | none, some principal, _ =>
    if principal.isRoot then e.authorizeRootCrossAccount principal
    else e.authorizePrincipal principal
  | none, none, some akid => e.whenStrict (unresolvedCredential e.config akid)
  | none, none, none => e.authorizeAnonymous

end Enforcement

def mustEnforce (cfg : Config) (service : Service) (request : AwsRequest) : Bool :=
  cfg.iamMode.isEnabled && service.iamEnforceable && !isRootBypass (request.accessKeyId.getD [])

def enforcement (L : Libraries) (cfg : Config) (r : HttpRequest) (evaluator : PolicyEvaluator)
    (service : Service) (request : AwsRequest) : Enforcement :=
  ⟨L, cfg, evaluator, service, request, (identify cfg r).resolved, r.remoteAddr⟩

def enforce (L : Libraries) (cfg : Config) (r : HttpRequest) (service : Service)
    (request : AwsRequest) : Option Rejection :=
  if mustEnforce cfg service request then
    cfg.policyEvaluator.bind fun evaluator =>
      (enforcement L cfg r evaluator service request).authorize
        (internalCallerOf r (identify cfg r))
  else none

/-! ## All stages -/

def unknownService (service : Str) : Rejection :=
  ⟨400, "UnknownService", "Service '" ++ service ++ "' is not available"⟩

/-- The request that is handed to its service, or the error response. -/
def dispatchInner (L : Libraries) (cfg : Config) (r : HttpRequest) : Except Rejection AwsRequest := do
  let received ← receive L cfg r
  let service ← (cfg.registry received.detected.service).elim
    (.error (unknownService received.detected.service)) .ok
  let caller := identify cfg r
  verifySignature L cfg r received caller
  let body ← serviceBody L received.detected received.body
  let request := awsRequest L cfg r received caller body
  (enforce L cfg r service request).elim (.ok request) .error

structure Handed (L : Libraries) (cfg : Config) (r : HttpRequest) (request : AwsRequest)
    (received : Received) (service : Service) : Prop where
  received_eq : receive L cfg r = .ok received
  registered : cfg.registry received.detected.service = some service
  verified : verifySignature L cfg r received (identify cfg r) = .ok ()
  request_eq : ∃ body, serviceBody L received.detected received.body = .ok body ∧
    request = awsRequest L cfg r received (identify cfg r) body
  enforced : enforce L cfg r service request = none

theorem dispatchInner_eq_ok {request : AwsRequest} : dispatchInner L cfg r = .ok request ↔
      ∃ received service, Handed L cfg r request received service := by
  have hen : ∀ {rejection : Option Rejection} {a b : AwsRequest},
      rejection.elim (.ok a) .error = Except.ok b ↔ rejection = none ∧ a = b := by
    intro rejection a b
    rcases rejection with _ | e
    · simp
    · simp
  simp only [dispatchInner, bind_eq_ok, elim_error_eq_ok, hen]
  constructor
  · rintro ⟨received, hr, service, hs, _, hv, body, hb, he, rfl⟩
    exact ⟨received, service, hr, hs, hv, ⟨body, hb, rfl⟩, he⟩
  · rintro ⟨received, service, hr, hs, hv, ⟨body, hb, rfl⟩, he⟩
    exact ⟨received, hr, service, hs, (), hv, body, hb, he, rfl⟩

end Fakecloud.Core

import Fakecloud.Aws.Partition
import Fakecloud.Core.Mediation
import Fakecloud.S3.Xml

/-!
# S3 authorization

`iam_actions_for`: the actions a request has to be allowed before `handle` sees it.  The action is derived
from the method, the presence of a bucket and of a key and some fifty query parameters (`Marker`): they are
looked for in a fixed order, and the first one that is there decides (`detectAction`).
-/

namespace Fakecloud.S3

open Text Aws Fakecloud.Core Option

/-! ## Requests -/

inductive Operation
  | listBuckets | listDirectoryBuckets | createBucket | deleteBucket | headBucket
  | getBucketLocation | listObjectsV1 | listObjectsV2 | listObjectVersions | listMultipartUploads
  | createSession | deleteObjects | writeGetObjectResponse | putBucketTagging | getBucketTagging
  | deleteBucketTagging | putBucketAcl | getBucketAcl | putBucketVersioning | getBucketVersioning
  | putBucketCors | getBucketCors | deleteBucketCors | putBucketNotification | getBucketNotification
  | putBucketWebsite | getBucketWebsite | deleteBucketWebsite | putBucketAccelerate
  | getBucketAccelerate | putPublicAccessBlock | getPublicAccessBlock | deletePublicAccessBlock
  | putBucketEncryption | getBucketEncryption | deleteBucketEncryption | putBucketLifecycle
  | getBucketLifecycle | deleteBucketLifecycle | putBucketLogging | getBucketLogging
  | putBucketPolicy | getBucketPolicy | deleteBucketPolicy | getBucketPolicyStatus
  | putObjectLockConfig | getObjectLockConfiguration | putBucketReplication | getBucketReplication
  | deleteBucketReplication | putBucketOwnershipControls | getBucketOwnershipControls
  | deleteBucketOwnershipControls | putBucketInventory | getBucketInventory | deleteBucketInventory
  | putBucketAnalyticsConfig | getBucketAnalyticsConfig | deleteBucketAnalyticsConfig
  | listBucketAnalyticsConfigurations | putBucketIntelligentTieringConfig
  | getBucketIntelligentTieringConfig | deleteBucketIntelligentTieringConfig
  | listBucketIntelligentTieringConfigurations | putBucketMetricsConfig | getBucketMetricsConfig
  | deleteBucketMetricsConfig | listBucketMetricsConfigurations | putBucketRequestPayment
  | getBucketRequestPayment | putBucketAbac | getBucketAbac | createBucketMetadataConfig
  | getBucketMetadataConfig | deleteBucketMetadataConfig | createBucketMetadataTableConfig
  | getBucketMetadataTableConfig | deleteBucketMetadataTableConfig
  | updateBucketMetadataAnnotationTableConfiguration | updateBucketMetadataInventoryTable
  | updateBucketMetadataJournalTable | putObject | copyObject | getObject | headObject
  | deleteObject | getObjectAttributes | getObjectTorrent | restoreObject | renameObject
  | objectAnnotationPut | objectAnnotationGet | listObjectAnnotations | objectAnnotationDelete
  | putObjectTagging | getObjectTagging | deleteObjectTagging | putObjectAcl | getObjectAcl
  | putObjectRetention | getObjectRetention | putObjectLegalHold | getObjectLegalHold
  | createMultipartUpload | uploadPart | uploadPartCopy | completeMultipartUpload
  | abortMultipartUpload | listParts | createAccessPoint | getAccessPoint | deleteAccessPoint
  | listAccessPoints | listTagsForResource | tagResource | untagResource
  deriving DecidableEq

inductive Method
  | get | put | post | delete | head | options | other
  deriving DecidableEq

def Method.of (s : Str) : Method :=
  if s == "GET" then .get
  else if s == "PUT" then .put
  else if s == "POST" then .post
  else if s == "DELETE" then .delete
  else if s == "HEAD" then .head
  else if s == "OPTIONS" then .options
  else .other

inductive Marker
  | uploads | restore | uploadId | partNumber | annotationParam | annotationName | tagging | acl
  | retention | legalHold | attributes | torrent | renameObject | encryption | selectType
  | metadataAnnotationTable | versioning | cors | notification | website | accelerate
  | publicAccessBlock | lifecycle | logging | policy | policyStatus | objectLock | replication
  | ownershipControls | inventory | analytics | intelligentTiering | metrics | requestPayment | abac
  | metadataConfiguration | metadataTable | metadataInventoryTable | metadataJournalTable | versions
  | session | location | delete | listType | id
  deriving DecidableEq

def Marker.key : Marker → Str
  | .uploads => "uploads"
  | .restore => "restore"
  | .uploadId => "uploadId"
  | .partNumber => "partNumber"
  | .annotationParam => "annotation"
  | .annotationName => "AnnotationName"
  | .tagging => "tagging"
  | .acl => "acl"
  | .retention => "retention"
  | .legalHold => "legal-hold"
  | .attributes => "attributes"
  | .torrent => "torrent"
  | .renameObject => "renameObject"
  | .encryption => "encryption"
  | .selectType => "select-type"
  | .metadataAnnotationTable => "metadataAnnotationTable"
  | .versioning => "versioning"
  | .cors => "cors"
  | .notification => "notification"
  | .website => "website"
  | .accelerate => "accelerate"
  | .publicAccessBlock => "publicAccessBlock"
  | .lifecycle => "lifecycle"
  | .logging => "logging"
  | .policy => "policy"
  | .policyStatus => "policyStatus"
  | .objectLock => "object-lock"
  | .replication => "replication"
  | .ownershipControls => "ownershipControls"
  | .inventory => "inventory"
  | .analytics => "analytics"
  | .intelligentTiering => "intelligent-tiering"
  | .metrics => "metrics"
  | .requestPayment => "requestPayment"
  | .abac => "abac"
  | .metadataConfiguration => "metadataConfiguration"
  | .metadataTable => "metadataTable"
  | .metadataInventoryTable => "metadataInventoryTable"
  | .metadataJournalTable => "metadataJournalTable"
  | .versions => "versions"
  | .session => "session"
  | .location => "location"
  | .delete => "delete"
  | .listType => "list-type"
  | .id => "id"

/-- The request carries the parameter, with any value. -/
def has (req : AwsRequest) (m : Marker) : Bool := req.queryParams.containsKey m.key

/-- What the service knows of the buckets. -/
structure View where
  bucketRegion : (bucket : Str) → Option Str

def bucketOf (req : AwsRequest) : Option Str := req.pathSegments.head?

/-- The resource of a tagging request, decoded once. -/
def resourceArnFromPath (req : AwsRequest) : Option Str :=
  (req.rawPath.dropPrefix? "/v20180820/tags/").bind fun raw =>
    if (percentDecode raw).isEmpty then none else some (percentDecode raw)

/-! ## Names -/

def Operation.name : Operation → String
  | .listBuckets => "ListBuckets"
  | .listDirectoryBuckets => "ListAllMyDirectoryBuckets"
  | .createBucket => "CreateBucket"
  | .deleteBucket => "DeleteBucket"
  | .headBucket => "HeadBucket"
  | .getBucketLocation => "GetBucketLocation"
  | .listObjectsV1 => "ListObjects"
  | .listObjectsV2 => "ListObjectsV2"
  | .listObjectVersions => "ListObjectVersions"
  | .listMultipartUploads => "ListMultipartUploads"
  | .createSession => "CreateSession"
  | .deleteObjects => "DeleteObjects"
  | .writeGetObjectResponse => "WriteGetObjectResponse"
  | .putBucketTagging => "PutBucketTagging"
  | .getBucketTagging => "GetBucketTagging"
  | .deleteBucketTagging => "DeleteBucketTagging"
  | .putBucketAcl => "PutBucketAcl"
  | .getBucketAcl => "GetBucketAcl"
  | .putBucketVersioning => "PutBucketVersioning"
  | .getBucketVersioning => "GetBucketVersioning"
  | .putBucketCors => "PutBucketCors"
  | .getBucketCors => "GetBucketCors"
  | .deleteBucketCors => "DeleteBucketCors"
  | .putBucketNotification => "PutBucketNotificationConfiguration"
  | .getBucketNotification => "GetBucketNotificationConfiguration"
  | .putBucketWebsite => "PutBucketWebsite"
  | .getBucketWebsite => "GetBucketWebsite"
  | .deleteBucketWebsite => "DeleteBucketWebsite"
  | .putBucketAccelerate => "PutBucketAccelerateConfiguration"
  | .getBucketAccelerate => "GetBucketAccelerateConfiguration"
  | .putPublicAccessBlock => "PutPublicAccessBlock"
  | .getPublicAccessBlock => "GetPublicAccessBlock"
  | .deletePublicAccessBlock => "DeletePublicAccessBlock"
  | .putBucketEncryption => "PutBucketEncryption"
  | .getBucketEncryption => "GetBucketEncryption"
  | .deleteBucketEncryption => "DeleteBucketEncryption"
  | .putBucketLifecycle => "PutBucketLifecycleConfiguration"
  | .getBucketLifecycle => "GetBucketLifecycleConfiguration"
  | .deleteBucketLifecycle => "DeleteBucketLifecycle"
  | .putBucketLogging => "PutBucketLogging"
  | .getBucketLogging => "GetBucketLogging"
  | .putBucketPolicy => "PutBucketPolicy"
  | .getBucketPolicy => "GetBucketPolicy"
  | .deleteBucketPolicy => "DeleteBucketPolicy"
  | .getBucketPolicyStatus => "GetBucketPolicyStatus"
  | .putObjectLockConfig => "PutObjectLockConfiguration"
  | .getObjectLockConfiguration => "GetObjectLockConfiguration"
  | .putBucketReplication => "PutBucketReplication"
  | .getBucketReplication => "GetBucketReplication"
  | .deleteBucketReplication => "DeleteBucketReplication"
  | .putBucketOwnershipControls => "PutBucketOwnershipControls"
  | .getBucketOwnershipControls => "GetBucketOwnershipControls"
  | .deleteBucketOwnershipControls => "DeleteBucketOwnershipControls"
  | .putBucketInventory => "PutBucketInventoryConfiguration"
  | .getBucketInventory => "GetBucketInventoryConfiguration"
  | .deleteBucketInventory => "DeleteBucketInventoryConfiguration"
  | .putBucketAnalyticsConfig => "PutBucketAnalyticsConfiguration"
  | .getBucketAnalyticsConfig => "GetBucketAnalyticsConfiguration"
  | .deleteBucketAnalyticsConfig => "DeleteBucketAnalyticsConfiguration"
  | .listBucketAnalyticsConfigurations => "ListBucketAnalyticsConfigurations"
  | .putBucketIntelligentTieringConfig => "PutBucketIntelligentTieringConfiguration"
  | .getBucketIntelligentTieringConfig => "GetBucketIntelligentTieringConfiguration"
  | .deleteBucketIntelligentTieringConfig => "DeleteBucketIntelligentTieringConfiguration"
  | .listBucketIntelligentTieringConfigurations => "ListBucketIntelligentTieringConfigurations"
  | .putBucketMetricsConfig => "PutBucketMetricsConfiguration"
  | .getBucketMetricsConfig => "GetBucketMetricsConfiguration"
  | .deleteBucketMetricsConfig => "DeleteBucketMetricsConfiguration"
  | .listBucketMetricsConfigurations => "ListBucketMetricsConfigurations"
  | .putBucketRequestPayment => "PutBucketRequestPayment"
  | .getBucketRequestPayment => "GetBucketRequestPayment"
  | .putBucketAbac => "PutBucketAbacConfiguration"
  | .getBucketAbac => "GetBucketAbacConfiguration"
  | .createBucketMetadataConfig => "CreateBucketMetadataConfiguration"
  | .getBucketMetadataConfig => "GetBucketMetadataConfiguration"
  | .deleteBucketMetadataConfig => "DeleteBucketMetadataConfiguration"
  | .createBucketMetadataTableConfig => "CreateBucketMetadataTableConfiguration"
  | .getBucketMetadataTableConfig => "GetBucketMetadataTableConfiguration"
  | .deleteBucketMetadataTableConfig => "DeleteBucketMetadataTableConfiguration"
  | .updateBucketMetadataAnnotationTableConfiguration => "UpdateBucketMetadataAnnotationTableConfiguration"
  | .updateBucketMetadataInventoryTable => "UpdateBucketMetadataInventoryTableConfiguration"
  | .updateBucketMetadataJournalTable => "UpdateBucketMetadataJournalTableConfiguration"
  | .putObject => "PutObject"
  | .copyObject => "CopyObject"
  | .getObject => "GetObject"
  | .headObject => "HeadObject"
  | .deleteObject => "DeleteObject"
  | .getObjectAttributes => "GetObjectAttributes"
  | .getObjectTorrent => "GetObjectTorrent"
  | .restoreObject => "RestoreObject"
  | .renameObject => "RenameObject"
  | .objectAnnotationPut => "PutObjectAnnotation"
  | .objectAnnotationGet => "GetObjectAnnotation"
  | .listObjectAnnotations => "ListObjectAnnotations"
  | .objectAnnotationDelete => "DeleteObjectAnnotation"
  | .putObjectTagging => "PutObjectTagging"
  | .getObjectTagging => "GetObjectTagging"
  | .deleteObjectTagging => "DeleteObjectTagging"
  | .putObjectAcl => "PutObjectAcl"
  | .getObjectAcl => "GetObjectAcl"
  | .putObjectRetention => "PutObjectRetention"
  | .getObjectRetention => "GetObjectRetention"
  | .putObjectLegalHold => "PutObjectLegalHold"
  | .getObjectLegalHold => "GetObjectLegalHold"
  | .createMultipartUpload => "CreateMultipartUpload"
  | .uploadPart => "UploadPart"
  | .uploadPartCopy => "UploadPartCopy"
  | .completeMultipartUpload => "CompleteMultipartUpload"
  | .abortMultipartUpload => "AbortMultipartUpload"
  | .listParts => "ListParts"
  | .createAccessPoint => "CreateAccessPoint"
  | .getAccessPoint => "GetAccessPoint"
  | .deleteAccessPoint => "DeleteAccessPoint"
  | .listAccessPoints => "ListAccessPoints"
  | .listTagsForResource => "ListTagsForResource"
  | .tagResource => "TagResource"
  | .untagResource => "UntagResource"

def Operation.actionName (op : Operation) : Str := op.name

def Operation.actionService : Operation → Str
  | .createSession => "s3express"
  | .listDirectoryBuckets => "s3express"
  | .writeGetObjectResponse => "s3-object-lambda"
  | _ => "s3"

def objectActions : List Operation :=
  [.putObject, .getObject, .deleteObject, .headObject, .copyObject, .getObjectAttributes,
    .restoreObject, .putObjectTagging, .getObjectTagging, .deleteObjectTagging, .putObjectAcl,
    .getObjectAcl, .putObjectRetention, .getObjectRetention, .putObjectLegalHold,
    .getObjectLegalHold, .createMultipartUpload, .uploadPart, .uploadPartCopy,
    .completeMultipartUpload, .abortMultipartUpload, .listParts]

/-! ## The action of a request -/

/-- A query parameter with what it says about each method: nothing (the search goes on), or that there
is no action, or the action. -/
structure SubResource where
  marker : Marker
  action : Method → Option (Option Operation)

/-- The parameter decides for every method; methods without an action have none. -/
def actions (get put delete post : Option Operation) : Method → Option (Option Operation)
  | .get => some get
  | .put => some put
  | .delete => some delete
  | .post => some post
  | _ => some none

/-- The parameter counts for one method only. -/
def onlyFor (method : Method) (op : Operation) : Method → Option (Option Operation) :=
  fun m => if m = method then some (some op) else none

def objectSubResources (hasAnnotationName : Bool) : List SubResource :=
  [⟨.annotationParam, actions
      (some (if hasAnnotationName then .objectAnnotationGet else .listObjectAnnotations))
      (some .objectAnnotationPut) (some .objectAnnotationDelete) none⟩,
    ⟨.tagging, actions (some .getObjectTagging) (some .putObjectTagging)
      (some .deleteObjectTagging) none⟩,
    ⟨.acl, actions (some .getObjectAcl) (some .putObjectAcl) none none⟩,
    ⟨.retention, actions (some .getObjectRetention) (some .putObjectRetention) none none⟩,
    ⟨.legalHold, actions (some .getObjectLegalHold) (some .putObjectLegalHold) none none⟩,
    ⟨.attributes, onlyFor .get .getObjectAttributes⟩,
    ⟨.restore, onlyFor .post .restoreObject⟩,
    ⟨.renameObject, onlyFor .put .renameObject⟩,
    ⟨.encryption, onlyFor .put .putObject⟩,
    ⟨.selectType, onlyFor .post .getObject⟩,
    ⟨.torrent, onlyFor .get .getObjectTorrent⟩]

def bucketSubResources (hasId : Bool) : List SubResource :=
  [⟨.metadataAnnotationTable, onlyFor .put .updateBucketMetadataAnnotationTableConfiguration⟩,
    ⟨.tagging, actions (some .getBucketTagging) (some .putBucketTagging)
      (some .deleteBucketTagging) none⟩,
    ⟨.acl, actions (some .getBucketAcl) (some .putBucketAcl) none none⟩,
    ⟨.versioning, actions (some .getBucketVersioning) (some .putBucketVersioning) none none⟩,
    ⟨.cors, actions (some .getBucketCors) (some .putBucketCors) (some .deleteBucketCors) none⟩,
    ⟨.policy, actions (some .getBucketPolicy) (some .putBucketPolicy)
      (some .deleteBucketPolicy) none⟩,
    ⟨.website, actions (some .getBucketWebsite) (some .putBucketWebsite)
      (some .deleteBucketWebsite) none⟩,
    ⟨.lifecycle, actions (some .getBucketLifecycle) (some .putBucketLifecycle)
      (some .deleteBucketLifecycle) none⟩,
    ⟨.encryption, actions (some .getBucketEncryption) (some .putBucketEncryption)
      (some .deleteBucketEncryption) none⟩,
    ⟨.logging, actions (some .getBucketLogging) (some .putBucketLogging) none none⟩,
    ⟨.notification, actions (some .getBucketNotification) (some .putBucketNotification) none none⟩,
    ⟨.replication, actions (some .getBucketReplication) (some .putBucketReplication)
      (some .deleteBucketReplication) none⟩,
    ⟨.ownershipControls, actions (some .getBucketOwnershipControls)
      (some .putBucketOwnershipControls) (some .deleteBucketOwnershipControls) none⟩,
    ⟨.publicAccessBlock, actions (some .getPublicAccessBlock) (some .putPublicAccessBlock)
      (some .deletePublicAccessBlock) none⟩,
    ⟨.accelerate, actions (some .getBucketAccelerate) (some .putBucketAccelerate) none none⟩,
    -- listing the inventory configurations has no action of its own
    ⟨.inventory, actions (some .getBucketInventory) (some .putBucketInventory)
      (some .deleteBucketInventory) none⟩,
    ⟨.analytics, actions
      (some (if hasId then .getBucketAnalyticsConfig else .listBucketAnalyticsConfigurations))
      (some .putBucketAnalyticsConfig) (some .deleteBucketAnalyticsConfig) none⟩,
    ⟨.intelligentTiering, actions
      (some (if hasId then .getBucketIntelligentTieringConfig
        else .listBucketIntelligentTieringConfigurations))
      (some .putBucketIntelligentTieringConfig) (some .deleteBucketIntelligentTieringConfig) none⟩,
    ⟨.metrics, actions
      (some (if hasId then .getBucketMetricsConfig else .listBucketMetricsConfigurations))
      (some .putBucketMetricsConfig) (some .deleteBucketMetricsConfig) none⟩,
    ⟨.requestPayment, actions (some .getBucketRequestPayment) (some .putBucketRequestPayment)
      none none⟩,
    ⟨.policyStatus, onlyFor .get .getBucketPolicyStatus⟩,
    ⟨.metadataConfiguration, actions (some .getBucketMetadataConfig) none
      (some .deleteBucketMetadataConfig) (some .createBucketMetadataConfig)⟩,
    ⟨.metadataTable, actions (some .getBucketMetadataTableConfig) none
      (some .deleteBucketMetadataTableConfig) (some .createBucketMetadataTableConfig)⟩,
    ⟨.metadataInventoryTable, onlyFor .put .updateBucketMetadataInventoryTable⟩,
    ⟨.metadataJournalTable, onlyFor .put .updateBucketMetadataJournalTable⟩,
    ⟨.abac, actions (some .getBucketAbac) (some .putBucketAbac) none none⟩,
    ⟨.session, onlyFor .get .createSession⟩,
    ⟨.objectLock, actions (some .getObjectLockConfiguration) (some .putObjectLockConfig) none none⟩,
    -- no guard on the method here
    ⟨.location, fun _ => some (some .getBucketLocation)⟩,
    ⟨.delete, onlyFor .post .deleteObjects⟩,
    ⟨.versions, onlyFor .get .listObjectVersions⟩]

/-- The action of the first rule whose parameter is there, or the default. -/
def decideBy (has : Marker → Bool) (rules : List (Marker × Option Operation)) (default : Option Operation) :
    Option Operation :=
  ((rules.find? fun rule => has rule.1).map Prod.snd).getD default

def rulesFor (method : Method) (table : List SubResource) : List (Marker × Option Operation) :=
  table.filterMap fun sub => (sub.action method).map fun action => (sub.marker, action)

/-- The action of a method on an object when no parameter decides. -/
def plainObjectAction : Method → Option Operation
  | .get => some .getObject
  | .put => some .putObject
  | .delete => some .deleteObject
  | .head => some .headObject
  | _ => none

/-- The action of a method on a bucket when no parameter decides. -/
def plainBucketAction (hasListType : Bool) : Method → Option Operation
  | .get => some (if hasListType then .listObjectsV2 else .listObjectsV1)
  | .put => some .createBucket
  | .delete => some .deleteBucket
  | .head => some .headBucket
  | _ => none

/-- The multipart actions, which come before all others. -/
def multipartAction (req : AwsRequest) (hasKey : Bool) : Option Operation :=
  match Method.of req.method, hasKey with
  | .post, true =>
    if has req .uploads then some .createMultipartUpload
    else if has req .uploadId then some .completeMultipartUpload
    else none
  | .put, true => if has req .partNumber && has req .uploadId then some .uploadPart else none
  | .delete, true => if has req .uploadId then some .abortMultipartUpload else none
  | .get, true => if has req .uploadId then some .listParts else none
  | .get, false => if has req .uploads then some .listMultipartUploads else none
  | _, _ => none

def bucketAction (req : AwsRequest) (bucket : Str) (hasKey : Bool) : Option Operation :=
  if Method.of req.method = .post ∧ bucket = "WriteGetObjectResponse" ∧ hasKey = false then
    some .writeGetObjectResponse
  else
    match multipartAction req hasKey with
    | some op => some op
    | none =>
      if hasKey then
        decideBy (has req)
          (rulesFor (Method.of req.method) (objectSubResources (has req .annotationName)))
          (plainObjectAction (Method.of req.method))
      else
        decideBy (has req) (rulesFor (Method.of req.method) (bucketSubResources (has req .id)))
          (plainBucketAction (has req .listType) (Method.of req.method))

def detectAction (req : AwsRequest) (bucket : Option Str) (hasKey : Bool) : Option Operation :=
  match bucket with
  | none =>
    if Method.of req.method = .get then
      some (if req.queryParams.get "x-id" == some "ListDirectoryBuckets".toList then
        .listDirectoryBuckets else .listBuckets)
    else none
  | some bucket => bucketAction req bucket hasKey

/-! ## Resources -/

/-- The ARN of a bucket or of an object, in the partition of a region. -/
def s3In (region resource : Str) : Str :=
  "arn:" ++ partitionFor region ++ ":s3:::" ++ resource

def accessPointArn (region account name : Str) : Str :=
  "arn:" ++ partitionFor region ++ ":s3:" ++ region ++ ':' :: account ++
    ":accesspoint/" ++ name

def segmentKey (req : AwsRequest) : Option Str :=
  if 1 < req.pathSegments.length then some (List.intercalate ['/'] req.pathSegments.tail) else none

def resourceFor (region : Str) (op : Operation) (bucket key : Option Str) : Str :=
  match bucket with
  | none => "*"
  | some bucket =>
    if op ∈ objectActions then
      match key with
      | some (c :: key) => s3In region (bucket ++ '/' :: c :: key)
      | _ => s3In region (bucket ++ "/*")
    else s3In region bucket

/-! ## The actions of a request -/

/-- Resource tagging and access point management on the control endpoint. -/
def controlAction (req : AwsRequest) : Option IamAction :=
  let tags := match Method.of req.method with
    | .get => some Operation.listTagsForResource
    | .post => some .tagResource
    | .delete => some .untagResource
    | _ => none
  let accessPoints := match Method.of req.method, req.pathSegments[2]? with
    | .put, some _ => some Operation.createAccessPoint
    | .get, some _ => some .getAccessPoint
    | .delete, some _ => some .deleteAccessPoint
    | .get, none => some .listAccessPoints
    | _, _ => none
  if !Protocol.isS3ControlHost req.headers || req.pathSegments[0]? != some "v20180820".toList then none
  else if req.pathSegments[1]? == some "tags".toList then
    tags.map fun op => ⟨"s3", op.actionName, (resourceArnFromPath req).getD "*"⟩
  else if req.pathSegments[1]? == some "accesspoint".toList then
    accessPoints.map fun op => ⟨"s3", op.actionName,
      (req.pathSegments[2]?.map (accessPointArn req.region req.accountId)).getD "*"⟩
  else none

def iamActionFor (v : View) (req : AwsRequest) : Option IamAction :=
  match controlAction req with
  | some action => some action
  | none =>
    (detectAction req (bucketOf req) (segmentKey req).isSome).map fun op =>
      let region := ((bucketOf req).bind v.bucketRegion).getD req.region
      ⟨op.actionService, op.actionName, resourceFor region op (bucketOf req) (segmentKey req)⟩

/-! ### Copies -/

structure CopySource where
  bucket : Str
  key : Str
  versionId : Option Str
  deriving DecidableEq

def parseCopySource (header : Str) : Option CopySource :=
  let raw := (header.dropPrefix? ['/']).getD header
  let cut := (splitOnce '?' raw).map fun cut =>
    (cut.1, (cut.2.splitOn '&').findSome? fun p => p.dropPrefix? "versionId=")
  let path := (cut.map Prod.fst).getD raw
  (splitOnce '/' (percentDecode path)).map fun object => ⟨object.1, object.2, cut.bind Prod.snd⟩

def copySourceHeader (req : AwsRequest) : Option Str := req.headers.getStr "x-amz-copy-source"

/-- Reading the source of a copy is an action of its own; an access point is authorized elsewhere. -/
def copySourceReadAction (v : View) (req : AwsRequest) : Option IamAction :=
  if Method.of req.method ≠ .put ∨ req.pathSegments.length < 2 ∨
      Protocol.isS3ControlHost req.headers then none
  else
    (copySourceHeader req).bind fun header =>
      if List.isPrefixOf "arn:" (header.dropWhile (· == '/')) then none
      else
        (parseCopySource header).bind fun source =>
          if source.bucket.isEmpty || source.key.isEmpty then none
          else
            let op : Str := if source.versionId.isSome then "GetObjectVersion" else "GetObject"
            let region := (v.bucketRegion source.bucket).getD req.region
            some ⟨"s3", op, s3In region (source.bucket ++ '/' :: source.key)⟩

/-! ### Buckets that are created with a configuration -/

structure AclGrant where
  granteeType : Str
  granteeId : Option Str
  granteeUri : Option Str
  permission : Str
  deriving DecidableEq

def groupGrant (uri permission : String) : AclGrant :=
  ⟨"Group", none, some ("http://acs.amazonaws.com/groups/" ++ uri.toList), permission⟩

def cannedAclGrants (acl ownerId : Str) : List AclGrant :=
  let owner : AclGrant := ⟨"CanonicalUser", some ownerId, none, "FULL_CONTROL"⟩
  if acl == "public-read" then [owner, groupGrant "global/AllUsers" "READ"]
  else if acl == "public-read-write" then
    [owner, groupGrant "global/AllUsers" "READ", groupGrant "global/AllUsers" "WRITE"]
  else if acl == "authenticated-read" then [owner, groupGrant "global/AuthenticatedUsers" "READ"]
  else if acl == "log-delivery-write" then
    [owner, groupGrant "s3/LogDelivery" "WRITE", groupGrant "s3/LogDelivery" "READ_ACP"]
  else [owner]

def aclReachesPastOwner (acl ownerId : Str) : Bool :=
  acl == "aws-exec-read" || !(cannedAclGrants acl ownerId).all fun g =>
    g.permission == "FULL_CONTROL" && g.granteeType == "CanonicalUser" && g.granteeId == some ownerId

def grantHeaders : List String :=
  ["x-amz-grant-read", "x-amz-grant-write", "x-amz-grant-read-acp", "x-amz-grant-write-acp",
    "x-amz-grant-full-control"]

/-- A grant header that is not blank; one that cannot be read counts. -/
def hasGrantHeaders (headers : HeaderMap) : Bool :=
  grantHeaders.any fun name => headers.lines.any fun line =>
    line.1 == name.toList && (toStr? line.2).all fun v => !(trim v).isEmpty

/-- The further actions that the configuration of a new bucket needs. -/
def createBucketExtras (req : AwsRequest) : List Str :=
  let notBlank (name : String) := (req.headers.getStr name).filter fun v => !(trim v).isEmpty
  (if (createBucketConfigurationTags (bodyText req.body)).isEmpty then []
    else ["TagResource".toList]) ++
  (if (notBlank "x-amz-acl").any (fun acl => aclReachesPastOwner acl req.accountId) ||
      hasGrantHeaders req.headers then ["PutBucketAcl".toList] else []) ++
  (if (notBlank "x-amz-object-ownership").isSome then ["PutBucketOwnershipControls".toList]
    else []) ++
  (if (req.headers.getStr "x-amz-bucket-object-lock-enabled").any fun v => eqIgnoreCase v "true" then
    ["PutBucketObjectLockConfiguration".toList, "PutBucketVersioning".toList] else [])

def isCreateBucket (action : IamAction) : Bool :=
  action.service == "s3" && action.action == "CreateBucket"

def iamActionsFor (v : View) (req : AwsRequest) : List IamAction :=
  match iamActionFor v req with
  | none => []
  | some action =>
    let extras := if isCreateBucket action then createBucketExtras req else []
    if extras.isEmpty then
      let passRole := if action.service == "s3" && action.action == "PutBucketReplication" then
        replicationRoleArn req.body else none
      action :: (passRole.map IamAction.passRole).toList ++ (copySourceReadAction v req).toList
    else action :: extras.map fun name => ⟨"s3", name, action.resource⟩

def iamResourceInCallerAccount (v : View) (req : AwsRequest) : Bool :=
  (iamActionFor v req).any isCreateBucket

/-- S3 as dispatch sees it; what it adds to the condition context is left open. -/
def service (v : View) (conditionKeysFor : AwsRequest → IamAction → List (Str × List Str))
    (resourceTagsFor : Str → Option (List (Str × Str)))
    (requestTagsFrom : AwsRequest → Str → Option (List (Str × Str))) : Service where
  iamEnforceable := true
  iamActionsFor := iamActionsFor v
  iamResourceInCallerAccount := iamResourceInCallerAccount v
  iamConditionKeysFor := conditionKeysFor
  resourceTagsFor
  requestTagsFrom

/-! ### A bucket that another account owns -/

namespace Example

/-- Every bucket belongs to another account. -/
def foreignProvider : ResourcePolicyProvider where
  resourcePolicy := fun _ _ => none
  resourceOwnerAccount := fun _ _ => some "222222222222"
  publicAclAllows := fun _ _ _ => false

def view : View := ⟨fun _ => none⟩

def foreignConfig : Config :=
  { Core.Example.config with
    policyEvaluator := some Core.Example.evaluator
    resourcePolicyProvider := some foreignProvider
    registry := fun name => if name == "s3" then
      some (service view (fun _ _ => []) (fun _ => none) (fun _ _ => none)) else none }

def createForeign : HttpRequest where
  method := "PUT"
  path := "/b"
  query := []
  headers := ⟨[("authorization", utf8 "AWS4-HMAC-SHA256 Credential=AKIAALICE/1/us-east-1/s3/aws4_request")],
    by decide⟩
  body := []
  remoteAddr := .v4 0
  methodToken := by decide

end Example

theorem createForeign_handed :
    (dispatchInner Core.Example.libraries Example.foreignConfig Example.createForeign).toOption.map
        (fun q => (q.accessKeyId, q.principal == some Core.Example.alice, iamActionsFor Example.view q)) =
      some (some "AKIAALICE".toList, true, [⟨"s3", "CreateBucket", "arn:aws:s3:::b"⟩]) := by
  decide +kernel

/-- Creating a bucket that the provider attributes to another account is not asked against that owner:
the evaluator would have refused it. -/
theorem createForeign_skips_owner :
    ∃ request, dispatchInner Core.Example.libraries Example.foreignConfig Example.createForeign =
        .ok request ∧
      let e := enforcement Core.Example.libraries Example.foreignConfig Example.createForeign
        Core.Example.evaluator (service Example.view (fun _ _ => []) (fun _ => none)
          (fun _ _ => none)) request
      (∀ akid, request.accessKeyId = some akid → isRootBypass akid = false) ∧
      ¬ RootMediated Example.foreignConfig e ∧
      (∀ principal, ResolvedAs e principal → ¬ ∀ action ∈ e.service.iamActionsFor e.request,
        EvaluatorAllows Example.foreignConfig e principal action
          (policyOf Example.foreignConfig e action) (ownerOf Example.foreignConfig e principal action)) ∧
      ¬ AnonymousMediated Example.foreignConfig Example.createForeign e ∧
      ¬ InternalMediated Example.foreignConfig Example.createForeign e := by
  obtain ⟨request, hd, hrn⟩ := exists_of_toOption_map createForeign_handed
  simp only [Prod.mk.injEq, beq_iff_eq] at hrn
  obtain ⟨hk, hp, ha⟩ := hrn
  have hc : ¬ NoCredential Example.createForeign := fun h => absurd h.1 (by decide +kernel)
  refine ⟨request, hd, ?_, ?_, ?_, fun h => hc h.1, ?_⟩
  · rintro akid hak
    obtain rfl := some.inj (hk.symm.trans hak)
    decide
  · rintro ⟨principal, ⟨-, hr⟩, hrt, -⟩
    obtain rfl := some.inj (hp.symm.trans hr)
    exact absurd hrt (by decide)
  · rintro principal ⟨-, hr⟩ hall
    obtain rfl := some.inj (hp.symm.trans hr)
    have hal : Decision.implicitDeny = .allow := hall _ (ha ▸ List.mem_singleton_self _)
    cases hal
  · rintro ⟨internal, hi, -⟩
    cases hi

end Fakecloud.S3

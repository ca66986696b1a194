import Fakecloud.Aws.SigV4

/-!
# Which service a request is for

`protocol.rs`: the tables that turn an `X-Amz-Target`, an action name, a credential scope or a host
name into a service, and `detectService`, which tries them in order.
-/

namespace Fakecloud.Core.Protocol

open Text Fakecloud.Core Fakecloud.Aws

inductive AwsProtocol
  | query | ec2Query | json | rest | restJson | rpcV2Cbor
  deriving DecidableEq

structure DetectedRequest where
  service : Str
  action : Str
  protocol : AwsProtocol
  deriving DecidableEq

/-! ## Tables -/

/-- EC2 speaks its own variant of the query protocol. -/
def queryProtocolFor (service : Str) : AwsProtocol :=
  if service == "ec2" then .ec2Query else .query

def restXmlServices : List String := ["s3", "cloudfront", "route53"]

def restJsonServices : List String := [
    "managedblockchain", "lambda", "ses", "apigateway", "bedrock", "bedrock-agent",
    "bedrock-agent-runtime", "scheduler", "batch", "pipes", "rds-data", "dsql",
    "resource-groups", "eks", "glacier", "backup", "ram", "s3tables", "lakeformation", "es",
    "account", "appconfig", "codeartifact", "elasticfilesystem", "mq", "kafka", "mwaa", "fis",
    "xray", "appsync", "amplify", "mediaconvert", "serverlessrepo", "iotdata", "pinpoint", "iot",
    "iotwireless"]

def listed (table : List String) (s : Str) : Bool := table.any fun entry => entry.toList == s

def restProtocolFor (service : Str) : Option AwsProtocol :=
  if listed restXmlServices service then some .rest
  else if listed restJsonServices service then some .restJson
  else none

inductive TargetRule
  | exact (target service : String)
  | startsWith (target service : String)

def TargetRule.service? (target : Str) : TargetRule → Option Str
  | exact t service => if t.toList == target then some service else none
  | startsWith t service => if t.toList.isPrefixOf target then some service else none

/-- The arms in the order of the source; the first one that fits decides. -/
def targetRules : List TargetRule := [
    .exact "AWSEvents" "events", .exact "AmazonSSM" "ssm", .exact "AmazonSQS" "sqs",
    .exact "AmazonSNS" "sns", .exact "DynamoDB_20120810" "dynamodb",
    .exact "DynamoDBStreams_20120810" "dynamodbstreams", .exact "Logs_20140328" "logs",
    .startsWith "secretsmanager" "secretsmanager", .startsWith "TrentService" "kms",
    .startsWith "AWSCognitoIdentityProviderService" "cognito-idp",
    .startsWith "AWSCognitoIdentityService" "cognito-identity",
    .startsWith "Kinesis_20131202" "kinesis", .startsWith "AmazonEC2ContainerRegistry_V" "ecr",
    .startsWith "AmazonEC2ContainerServiceV" "ecs", .startsWith "AWSStepFunctions" "states",
    .startsWith "AWSOrganizationsV" "organizations", .exact "CertificateManager" "acm",
    .exact "ACMPrivateCA" "acm-pca", .exact "Route53Resolver" "route53resolver",
    .exact "StarlingDoveService" "config",
    .exact "AnyScaleFrontendService" "application-autoscaling", .exact "AWSWAF_20190729" "wafv2",
    .exact "AmazonAthena" "athena", .startsWith "Firehose_" "firehose", .exact "AWSGlue" "glue",
    .exact "ElasticMapReduce" "emr", .exact "Textract" "textract",
    .exact "Transcribe" "transcribe", .exact "AWSShineFrontendService_20170701" "translate",
    .exact "AWSShield_20160616" "shield", .exact "Comprehend_20171127" "comprehend",
    .exact "SimpleWorkflowService" "swf", .exact "Timestream_20181101" "timestream",
    .exact "AWSSupport_20130415" "support", .exact "CloudApiService" "cloudcontrolapi",
    .exact "ResourceGroupsTaggingAPI_20170126" "tagging", .exact "AmazonMemoryDB" "memorydb",
    .startsWith "KinesisAnalytics_20180523" "kinesisanalyticsv2",
    .exact "Route53AutoNaming_v20170314" "servicediscovery", .exact "AmazonDMSv20160101" "dms",
    .exact "CloudTrail_20131101" "cloudtrail",
    .exact "com.amazonaws.cloudtrail.v20131101.CloudTrail_20131101" "cloudtrail",
    .exact "AWSInsightsIndexService" "ce",
    .exact "com.amazonaws.costexplorer.v20171025.AWSInsightsIndexService" "ce",
    .exact "TransferService" "transfer", .exact "CodeBuild_20161006" "codebuild",
    .exact "CodeCommit_20150413" "codecommit", .exact "ServiceQuotasV20190624" "servicequotas",
    .exact "AWSIdentityStore" "identitystore", .exact "SWBExternalService" "sso",
    .exact "VerifiedPermissions" "verifiedpermissions",
    .exact "CodeConnections_20231201" "codeconnections",
    .exact "CodeStar_connections_20191201" "codeconnections",
    .exact "CodeDeploy_20141006" "codedeploy", .exact "CodePipeline_20150709" "codepipeline",
    .startsWith "GraniteServiceVersion" "monitoring", .exact "SageMaker" "sagemaker"]

/-- `X-Amz-Target: AWSEvents.PutEvents` is the action `PutEvents` of `events`. -/
def parseAmzTarget (target : Str) : Option DetectedRequest :=
  (rsplitOnce '.' target).bind fun cut =>
    (targetRules.findSome? (TargetRule.service? cut.1)).map fun service => ⟨service, cut.2, .json⟩

def stsActions : List String := [
    "AssumeRole", "AssumeRoleWithSAML", "AssumeRoleWithWebIdentity", "GetCallerIdentity",
    "GetSessionToken", "GetFederationToken", "GetAccessKeyInfo", "DecodeAuthorizationMessage"]

def iamActions : List String := [
    "CreateUser", "DeleteUser", "GetUser", "ListUsers", "CreateRole", "DeleteRole", "GetRole",
    "ListRoles", "CreatePolicy", "DeletePolicy", "GetPolicy", "ListPolicies", "AttachRolePolicy",
    "DetachRolePolicy", "CreateAccessKey", "DeleteAccessKey", "ListAccessKeys",
    "ListRolePolicies"]

def sesActions : List String := [
    "VerifyEmailIdentity", "VerifyDomainIdentity", "VerifyDomainDkim", "ListIdentities",
    "GetIdentityVerificationAttributes", "GetIdentityDkimAttributes", "DeleteIdentity",
    "SetIdentityDkimEnabled", "SetIdentityNotificationTopic",
    "SetIdentityFeedbackForwardingEnabled", "GetIdentityNotificationAttributes",
    "GetIdentityMailFromDomainAttributes", "SetIdentityMailFromDomain", "SendEmail",
    "SendRawEmail", "SendTemplatedEmail", "SendBulkTemplatedEmail", "CreateTemplate",
    "GetTemplate", "ListTemplates", "DeleteTemplate", "UpdateTemplate", "CreateConfigurationSet",
    "DeleteConfigurationSet", "DescribeConfigurationSet", "ListConfigurationSets",
    "CreateConfigurationSetEventDestination", "UpdateConfigurationSetEventDestination",
    "DeleteConfigurationSetEventDestination", "GetSendQuota", "GetSendStatistics",
    "GetAccountSendingEnabled", "CreateReceiptRuleSet", "DeleteReceiptRuleSet",
    "DescribeReceiptRuleSet", "ListReceiptRuleSets", "CloneReceiptRuleSet",
    "SetActiveReceiptRuleSet", "ReorderReceiptRuleSet", "CreateReceiptRule", "DeleteReceiptRule",
    "DescribeReceiptRule", "UpdateReceiptRule", "CreateReceiptFilter", "DeleteReceiptFilter",
    "ListReceiptFilters"]

def snsActions : List String := [
    "ConfirmSubscription", "Unsubscribe"]

/-- The service of an action that may come without credentials. -/
def inferServiceFromAction (action : Str) : Option Str :=
  if listed stsActions action then some "sts"
  else if listed iamActions action then some "iam"
  else if listed sesActions action then some "ses"
  else if listed snsActions action then some "sns"
  else none

def normalizeServiceName (service : Str) : Str :=
  if service == "bedrock-runtime" then "bedrock"
  else if service == "apigatewayv2" then "apigateway"
  else if service == "opensearch" then "es"
  else if service == "appconfigdata" then "appconfig"
  else if service == "airflow" then "mwaa"
  else if service == "mobiletargeting" then "pinpoint"
  else service

/-! ## Host names -/

structure RoutingHost where
  service : Str
  region : Str
  /-- only for virtual-hosted S3 names -/
  bucket : Option Str
  deriving DecidableEq

def joinLabels (labels : List Str) : Str := List.intercalate "." labels

/-- `<api-id>.execute-api[.<region>]`; the inner `none` is such a host without a region. -/
def parseExecuteApiLabels : List Str → Option (Option RoutingHost)
  | [_, kind] => if kind == "execute-api" then some none else none
  | [_, kind, region] =>
    if kind == "execute-api" then some (some ⟨"execute-api", region, none⟩) else none
  | _ => none

def parseLocalstackPrefix (hostPrefix : Str) : Option RoutingHost :=
  let labels := hostPrefix.splitOn '.'
  if hostPrefix.isEmpty || labels.any List.isEmpty then none
  else
    match parseExecuteApiLabels labels with
    | some host => host
    | none =>
      match labels.reverse with
      | [region, service] => some ⟨service, region, none⟩
      | region :: kind :: b :: bs =>
        if kind == "s3" || kind == "s3-accesspoint" then
          some ⟨"s3", region, some (joinLabels (b :: bs).reverse)⟩
        else if kind == "s3-control" then some ⟨"s3", region, none⟩
        else none
      | _ => none

/-- The labels before an S3 endpoint whose region comes last. -/
def s3EndpointLabels (beforeRegion : List Str) : Option (List Str) :=
  match beforeRegion.reverse with
  | last :: rest =>
    match last == "dualstack", rest with
    | true, s3 :: rest =>
      if s3 == "s3" || s3 == "s3-fips" then some rest.reverse else none
    | _, _ =>
      if last == "s3" || last == "s3-fips" || last == "s3-website" then some rest.reverse else none
  | [] => none

/-- A host name in front of the DNS suffix of a partition. -/
def parseAwsPrefix (hostPrefix : Str) : Option RoutingHost :=
  let labels := hostPrefix.splitOn '.'
  if hostPrefix.isEmpty || labels.any List.isEmpty then none
  else
    labels.getLast?.bind fun last =>
      let before := labels.dropLast
      let bucket := if before.isEmpty then none else some (joinLabels before)
      match (last.dropPrefix? "s3-website-".toList).filter fun r => !r.isEmpty && !before.isEmpty with
      | some region => some ⟨"s3", region, bucket⟩
      | none =>
        match (last.dropPrefix? "s3-".toList).filter fun r => !r.isEmpty with
        | some region => some ⟨"s3", region, bucket⟩
        | none =>
          if last == "s3" then some ⟨"s3", "us-east-1", bucket⟩
          -- a last label `s3-accesspoint` was already read as a region above
          else if before.getLast? == some "s3-control".toList then some ⟨"s3", last, none⟩
          else
            match s3EndpointLabels before with
            | some rest =>
              some ⟨"s3", last, if rest.isEmpty then none else some (joinLabels rest)⟩
            | none =>
              match parseExecuteApiLabels labels with
              | some host => host
              | none =>
                match labels with
                | [service, region] => some ⟨service, region, none⟩
                | _ => none

def localstackSuffix : Str := ".localhost.localstack.cloud"

def dnsSuffixes : List String :=
  ["amazonaws.com", "amazonaws.com.cn", "c2s.ic.gov", "sc2s.sgov.gov", "cloud.adc-e.uk",
    "csp.hci.ic.gov"]

def parseRoutingHost (host : Str) : Option RoutingHost :=
  let hostname := lower (host.takeWhile (· ≠ ':'))
  if hostname.isEmpty then none
  else
    match hostname.dropSuffix? localstackSuffix with
    | some hostPrefix => parseLocalstackPrefix hostPrefix
    | none =>
      (dnsSuffixes.findSome? fun suffix =>
        hostname.dropSuffix? ('.' :: suffix.toList)).bind parseAwsPrefix

def parseRoutingHostFromHeaders (headers : HeaderMap) : Option RoutingHost :=
  (headers.getStr "host").bind parseRoutingHost

def isS3ControlHost (headers : HeaderMap) : Bool :=
  match headers.getStr "host" with
  | none => false
  | some host =>
    let labels := (lower (host.takeWhile (· ≠ ':'))).splitOn '.'
    let controlLabel := match labels with
      | first :: rest =>
        first == "s3-control" ||
          (rest.head? == some "s3-control".toList && first.length == 12 && first.all Char.isDigit)
      | [] => false
    controlLabel && (parseRoutingHost host).all fun h => h.bucket.isNone

/-! ## Detection -/

def extractServiceFromAuth (headers : HeaderMap) : Option Str :=
  ((headers.getStr "authorization").bind parseSigv4).map fun info =>
    normalizeServiceName info.service

def detectQuery (headers : HeaderMap) (params : QueryMap) : Option DetectedRequest :=
  (params.get "Action").bind fun action =>
    let service := extractServiceFromAuth headers <|> inferServiceFromAction action <|>
      (parseRoutingHostFromHeaders headers).map RoutingHost.service
    service.map fun service => ⟨service, action, queryProtocolFor service⟩

/-- A REST service; its action follows from method and path. -/
def restRequest (service : Str) : Option DetectedRequest :=
  (restProtocolFor service).map fun protocol => ⟨service, [], protocol⟩

def hasSigv2Params (params : QueryMap) : Bool :=
  params.containsKey "AWSAccessKeyId" && params.containsKey "Signature" &&
    params.containsKey "Expires"

/-- REST services, by the header's scope, the presigned scope, a version 2 presigned URL, or the
host. -/
def detectRest (headers : HeaderMap) (params : QueryMap) : Option DetectedRequest :=
  (extractServiceFromAuth headers).bind restRequest <|>
  (params.get "X-Amz-Credential").bind (fun credential =>
    (credential.splitOn '/')[3]?.bind fun service => restRequest (normalizeServiceName service)) <|>
  (if hasSigv2Params params then some ⟨"s3", [], .rest⟩ else none) <|>
  (parseRoutingHostFromHeaders headers).bind fun host => restRequest host.service

/-- Detection without a look at the body. -/
def detectServiceHeadersOnly (headers : HeaderMap) (params : QueryMap) : Option DetectedRequest :=
  match headers.getStr "x-amz-target" with
  | some target => parseAmzTarget target
  | none => detectQuery headers params <|> detectRest headers params

def detectService (headers : HeaderMap) (params : QueryMap) (body : Bytes) : Option DetectedRequest :=
  match headers.getStr "x-amz-target" with
  | some target => parseAmzTarget target
  | none =>
    detectQuery headers params <|> detectQuery headers (decodeFormUrlencoded body) <|>
      detectRest headers params

/-- The last four segments of `/service/{Service}/operation/{Operation}`. -/
def parseRpcV2Path (path : Str) : Option (Str × Str) :=
  match ((path.rdropWhile (· == '/')).splitOn '/').reverse with
  | operation :: o :: service :: s :: _ =>
    if s == "service" && o == "operation" && !service.isEmpty && !operation.isEmpty then
      some (service, operation)
    else none
  | _ => none

def detectRpcV2Cbor (headers : HeaderMap) (path : Str) : Option DetectedRequest :=
  if (headers.getStr "smithy-protocol").any fun v => eqIgnoreCase (trim v) "rpc-v2-cbor" then
    (parseRpcV2Path path).bind fun so =>
      (parseAmzTarget (so.1 ++ '.' :: so.2)).map fun d => { d with protocol := .rpcV2Cbor }
  else none

end Fakecloud.Core.Protocol

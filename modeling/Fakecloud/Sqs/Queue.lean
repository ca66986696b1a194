import Fakecloud.Lib.Base64
import Fakecloud.Lib.OrdMap

/-!
# SQS: queues and their messages

* `SqsMessage`, `SqsQueue`, `SqsState` — what an account holds in a region;
* `KmsHook`, `encryptMessageBody`, `decryptMessageBody` — bodies at rest;
* `dedupCacheKey`, `resolveQueueUrl` — the lookups that the calls share.

A time is a number of nanoseconds.  A sequence number is carried by its value.
-/

namespace Fakecloud.Sqs

open Text

structure ServiceError where
  status : ℕ
  code : Str
  message : Str
deriving DecidableEq

/-- `AwsServiceError::aws_error` with `BAD_REQUEST`. -/
def badRequest (code message : Str) : ServiceError := ⟨400, code, message⟩

def queueNotFound : ServiceError :=
  badRequest "AWS.SimpleQueueService.NonExistentQueue"
    "The specified queue does not exist."

def decimal (n : ℤ) : Str := (toString n).toList

/-! ## Time -/

def seconds (n : ℤ) : ℤ := n * 10 ^ 9

/-- `num_seconds`: whole seconds, towards zero. -/
def numSeconds (d : ℤ) : ℤ := d.tdiv (10 ^ 9)

def timestampMillis (t : ℤ) : ℤ := t / 10 ^ 6

/-! ## Messages and queues -/

abbrev StrMap (β : Type) := OrdMap Str β compare

structure MessageAttribute where
  dataType : Str
  stringValue : Option Str
  binaryValue : Option Bytes
deriving DecidableEq

/-- The result of the send that a duplicate repeats. -/
structure DedupEntry where
  messageId : Str
  sequenceNumber : Option ℕ
  expiry : ℤ
deriving DecidableEq

structure SqsMessage where
  messageId : Str
  receiptHandle : Option Str
  body : Str
  md5OfBody : Str
  sentTimestamp : ℤ
  attributes : List (Str × Str)
  messageAttributes : List (Str × MessageAttribute)
  visibleAt : Option ℤ
  receiveCount : ℕ
  firstReceivedAt : Option ℤ
  messageGroupId : Option Str
  messageDedupId : Option Str
  createdAt : ℤ
  sequenceNumber : Option ℕ
deriving DecidableEq

structure RedrivePolicy where
  deadLetterTargetArn : Str
  maxReceiveCount : ℕ
deriving DecidableEq

structure ReceiveAttemptEntry where
  messageIds : List Str
  expiry : ℤ

structure SqsQueue where
  arn : Str
  messages : List SqsMessage
  inflight : List SqsMessage
  attributes : StrMap Str
  isFifo : Bool
  dedupCache : StrMap DedupEntry
  redrivePolicy : Option RedrivePolicy
  nextSequenceNumber : ℕ
  receiptHandleMap : StrMap (List Str)
  receiveAttemptCache : StrMap ReceiveAttemptEntry

namespace SqsQueue

/-- A queue as `create_queue` makes it, without attributes. -/
def create (arn : Str) (isFifo : Bool) : SqsQueue where
  arn := arn
  messages := []
  inflight := []
  attributes := .empty
  isFifo := isFifo
  dedupCache := .empty
  redrivePolicy := none
  nextSequenceNumber := 0
  receiptHandleMap := .empty
  receiveAttemptCache := .empty

variable (q : SqsQueue)

def clamp (low high n : ℤ) : ℤ := max low (min high n)

def visibilityTimeoutSecs : ℤ :=
  clamp 0 43200 (((q.attributes.get "VisibilityTimeout").bind parseI64).getD 30)

def delaySecs : Option ℤ :=
  ((q.attributes.get "DelaySeconds").bind parseI64).map (clamp 0 900)

def retentionSeconds : ℤ :=
  ((q.attributes.get "MessageRetentionPeriod").bind parseI64).getD 345600

def maximumMessageSize : ℕ :=
  ((q.attributes.get "MaximumMessageSize").bind (parseUnsigned (2 ^ 64))).getD 262144

def contentBasedDeduplication : Bool :=
  q.attributes.get "ContentBasedDeduplication" == some "true".toList

def effectiveKmsKeyId : Option Str :=
  match (q.attributes.get "KmsMasterKeyId").filter fun k => !k.isEmpty with
  | some k => some k
  | none =>
    if q.attributes.get "SqsManagedSseEnabled" == some "true".toList then some "alias/aws/sqs".toList
    else none

end SqsQueue

structure SqsState where
  accountId : Str
  region : Str
  queues : StrMap SqsQueue
  nameToUrl : StrMap Str

/-! ## Bodies at rest -/

/-- The key service, for the service principal of SQS and the context of one queue. -/
structure KmsHook where
  encrypt : (accountId region key : Str) → (plaintext : Bytes) → (queueArn : Str) → Except Str Str
  decrypt : (accountId ciphertext queueArn : Str) → Except Str Bytes

def regionOf (arn : Str) : Option Str :=
  (arn.dropPrefix? "arn:").bind fun rest =>
    ((rest.splitOn ':')[2]?).filter fun r => !r.isEmpty

def looksLikeFakecloudEnvelope (body : Str) : Bool :=
  "fakecloud-kms:".toList.isPrefixOf body ||
    (base64Decode body).any fun bytes => [0x01, 0x02, 0x02, 0x00].isPrefixOf bytes

def kmsFailure (verb err : Str) : ServiceError :=
  ⟨500, "KMS.InternalFailureException",
    "Failed to " ++ verb ++ " SQS message via KMS: " ++ err⟩

/-- `encrypt_message_body`; the service's own region stands in for that of the queue. -/
def encryptMessageBody (kms : Option KmsHook) (serviceRegion accountId queueArn : Str)
    (kmsKeyId : Option Str) (plaintext : Str) : Except ServiceError Str :=
  match kms, kmsKeyId.filter fun k => !k.isEmpty with
  | some hook, some key =>
    (hook.encrypt accountId ((regionOf queueArn).getD serviceRegion) key (utf8 plaintext)
      queueArn).mapError (kmsFailure "encrypt")
  | _, _ => .ok plaintext

def decryptMessageBody (kms : Option KmsHook) (accountId queueArn ciphertext : Str) :
    Except ServiceError Str :=
  match kms with
  | none => .ok ciphertext
  | some hook =>
    if looksLikeFakecloudEnvelope ciphertext then
      match hook.decrypt accountId ciphertext queueArn with
      | .ok bytes => .ok (utf8Lossy bytes)
      | .error err => .error (kmsFailure "decrypt" err)
    else .ok ciphertext

/-! ## Lookups -/

def sequenceNumberBase : ℕ := 10000000000000000000

def formatSequenceNumber (counter : ℕ) : ℕ := sequenceNumberBase + counter

def dedupCacheKey (q : SqsQueue) (dedupId : Str) (messageGroupId : Option Str) : Str :=
  if q.attributes.get "DeduplicationScope" == some "messageGroup".toList then
    let group := messageGroupId.getD []
    decimal (utf8 group).length ++ ':' :: group ++ ':' :: dedupId
  else dedupId

/-- A queue by its URL, its ARN, its name or a path that ends in its name. -/
def resolveQueueUrl (input : Str) (s : SqsState) : Option Str :=
  if (s.queues.get input).isSome then some input
  else
    let byName := s.nameToUrl.get input <|>
      s.nameToUrl.get ((input.splitOn '/').getLast?.getD [])
    match input.splitOn ':' with
    | [scheme, _, service, region, account, name] =>
      if scheme = "arn" ∧ service = "sqs" then
        if region ≠ s.region ∨ account ≠ s.accountId then none
        else if name.isEmpty then byName
        else s.nameToUrl.get name <|> byName
      else byName
    | _ => byName

end Fakecloud.Sqs

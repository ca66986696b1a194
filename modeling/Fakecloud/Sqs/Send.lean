import Fakecloud.Sqs.Queue

/-!
# SQS: the ways into a queue

* `SqsQueue.sendMessage` — one message, with the checks on it;
* `SqsQueue.processBatchSendEntry`, `SqsQueue.sendMessageBatch` — a batch, entry by entry;
* `SqsQueue.tryDeliver` — deliveries from other services.
-/

namespace Fakecloud.Sqs

open Text

/-- Digests, and the letters and digits of Unicode. -/
structure Tools where
  md5Hex : Str → Str
  sha256Hex : Str → Str
  md5OfMessageAttributes : List (Str × MessageAttribute) → Str
  md5OfMessageSystemAttributes : List (Str × Str) → Str
  isAlphanumeric : Char → Bool

structure Sender where
  tools : Tools
  kms : Option KmsHook
  region : Str
  accountId : Str

structure SendRequest where
  messageBody : Str
  messageGroupId : Option Str
  messageDedupId : Option Str
  delaySeconds : Option ℤ
  messageAttributes : List (Str × MessageAttribute)
  systemAttributes : List (Str × Str)

structure SendResult where
  messageId : Str
  sequenceNumber : Option ℕ
  md5OfMessageBody : Str
  md5OfMessageAttributes : Option Str
  md5OfMessageSystemAttributes : Option Str

/-- The answer to a send that is known under these numbers. -/
def SendRequest.result (T : Tools) (req : SendRequest) (messageId : Str) (sequenceNumber : Option ℕ) :
    SendResult where
  messageId := messageId
  sequenceNumber := sequenceNumber
  md5OfMessageBody := T.md5Hex req.messageBody
  md5OfMessageAttributes :=
    if req.messageAttributes.isEmpty then none
    else some (T.md5OfMessageAttributes req.messageAttributes)
  md5OfMessageSystemAttributes :=
    if req.systemAttributes.isEmpty then none
    else some (T.md5OfMessageSystemAttributes req.systemAttributes)

def messageAttributesSize (attrs : List (Str × MessageAttribute)) : ℕ :=
  (attrs.map fun a => (utf8 a.1).length + (utf8 a.2.dataType).length +
    match a.2.stringValue, a.2.binaryValue with
    | some sv, _ => (utf8 sv).length
    | none, some bv => bv.length
    | none, none => 0).sum

def SendRequest.size (req : SendRequest) : ℕ :=
  (utf8 req.messageBody).length + messageAttributesSize req.messageAttributes

def invalidParameterValue (message : Str) : ServiceError :=
  badRequest "InvalidParameterValue" message

def validateMessageAttributes : List (Str × MessageAttribute) → Except ServiceError Unit
  | [] => .ok ()
  | (name, attr) :: attrs =>
    if !name.all (fun c => c.isAlphanum || c == '_' || c == '-' || c == '.') then
      .error (invalidParameterValue ("The message attribute name '" ++ name ++
        "' is invalid. Attribute name can contain A-Z, a-z, 0-9, underscore (_), hyphen (-), and period (.) characters."))
    else if attr.dataType.takeWhile (· != '.') ∉ ["String".toList, "Number".toList, "Binary".toList] then
      .error (invalidParameterValue ("The message attribute '" ++ name ++
        "' has an invalid message attribute type, the set of supported type prefixes is Binary, Number, and String."))
    else validateMessageAttributes attrs

def delayOutOfRange (d : ℤ) : Str :=
  "Value " ++ decimal d ++
    " for parameter DelaySeconds is invalid. Reason: Must be between 0 and 900, if provided."

def checkDelay : Option ℤ → Except ServiceError Unit
  | none => .ok ()
  | some d => if 0 ≤ d ∧ d ≤ 900 then .ok () else .error (invalidParameterValue (delayOutOfRange d))

def tooLong (maxMessageSize : ℕ) : Str :=
  "One or more parameters are invalid. Reason: Message must be shorter than " ++
    decimal maxMessageSize ++ " bytes."

def missingGroupId : Str := "The request must contain the parameter MessageGroupId."

def missingDedupId : Str :=
  "The queue should either have ContentBasedDeduplication enabled or MessageDeduplicationId provided explicitly"

/-- A FIFO queue takes no delay, and wants a group and a deduplication id. -/
def checkFifoSendConstraints (q : SqsQueue) (req : SendRequest) : Except ServiceError Unit :=
  if !q.isFifo then .ok ()
  else if req.delaySeconds.getD 0 ≠ 0 then
    .error (invalidParameterValue ("Value " ++ decimal (req.delaySeconds.getD 0) ++
      " for parameter DelaySeconds is invalid. Reason: The request include parameter that is not valid for this queue type."))
  else if req.messageGroupId.isNone then .error (badRequest "MissingParameter" missingGroupId)
  else if req.messageDedupId.isNone && !q.contentBasedDeduplication then
    .error (invalidParameterValue missingDedupId)
  else .ok ()

theorem checkFifoSendConstraints_ok {q : SqsQueue} {req : SendRequest} (hf : q.isFifo)
    (h : checkFifoSendConstraints q req = .ok ()) : req.delaySeconds.getD 0 = 0 ∧
      req.messageGroupId.isSome ∧ (req.messageDedupId.isSome ∨ q.contentBasedDeduplication) := by
  unfold checkFifoSendConstraints at h
  rw [if_neg (by simp [hf])] at h
  split at h
  · cases h
  · next hd =>
    split at h
    · cases h
    · next hg =>
      split at h
      · cases h
      · next hdd =>
        refine ⟨not_not.mp hd, by simpa [Option.isSome_iff_ne_none] using hg, ?_⟩
        simpa [or_iff_not_imp_left] using hdd

def dedupSeconds : ℤ := 5 * 60

/-- The id that a send is deduplicated by: the explicit one, or the digest of the body. -/
def effectiveDedupId (T : Tools) (isFifo contentBased : Bool) (req : SendRequest) : Option Str :=
  if isFifo then
    match req.messageDedupId with
    | some d => some d
    | none => if contentBased then some (T.sha256Hex req.messageBody) else none
  else none

namespace SqsQueue

def dedupKey (q : SqsQueue) (dedupId messageGroupId : Option Str) : Option Str :=
  dedupId.map fun d => dedupCacheKey q d messageGroupId

def pruneDedup (q : SqsQueue) (now : ℤ) : SqsQueue :=
  { q with dedupCache := q.dedupCache.retain fun e => decide (now < e.expiry) }

def nextNumber (q : SqsQueue) : Option ℕ :=
  if q.isFifo then some (formatSequenceNumber q.nextSequenceNumber) else none

def countUp (q : SqsQueue) : SqsQueue :=
  if q.isFifo then { q with nextSequenceNumber := q.nextSequenceNumber + 1 } else q

theorem countUp_eq (q : SqsQueue) :
    q.countUp = { q with nextSequenceNumber := q.countUp.nextSequenceNumber } := by
  unfold countUp
  split <;> rfl

/-- A message at the end of the queue, and its result in the cache. -/
def enqueue (q : SqsQueue) (key : Option Str) (m : SqsMessage) (now : ℤ) : SqsQueue :=
  { q with
    messages := q.messages ++ [m]
    dedupCache :=
      match key with
      | none => q.dedupCache
      | some k =>
        q.dedupCache.insert k ⟨m.messageId, m.sequenceNumber, now + seconds dedupSeconds⟩ }

def newMessage (T : Tools) (req : SendRequest) (dedupId : Option Str) (stored : Str) (delay now : ℤ)
    (id : Str) (number : Option ℕ) : SqsMessage where
  messageId := id
  receiptHandle := none
  body := stored
  md5OfBody := T.md5Hex req.messageBody
  sentTimestamp := timestampMillis now
  attributes := req.systemAttributes
  messageAttributes := req.messageAttributes
  visibleAt := if 0 < delay then some (now + seconds delay) else none
  receiveCount := 0
  firstReceivedAt := none
  messageGroupId := req.messageGroupId
  messageDedupId := dedupId
  createdAt := now
  sequenceNumber := number

/-- The live entry of a key, and the cache without what has expired. -/
def lookupDedup (q : SqsQueue) (key : Option Str) (now : ℤ) : SqsQueue × Option DedupEntry :=
  match key with
  | none => (q, none)
  | some k => (q.pruneDedup now, (q.pruneDedup now).dedupCache.get k)

/-- The checks that come before deduplication. -/
def validateSend (q : SqsQueue) (req : SendRequest) : Except ServiceError Unit := do
  validateMessageAttributes req.messageAttributes
  checkDelay req.delaySeconds
  checkFifoSendConstraints q req

theorem validateSend_ok {q : SqsQueue} {req : SendRequest} (h : q.validateSend req = .ok ()) :
    checkFifoSendConstraints q req = .ok () := by
  obtain ⟨-, -, hd⟩ := bind_eq_ok.mp h
  obtain ⟨-, -, hf⟩ := bind_eq_ok.mp hd
  exact hf

/-- `send_message`, for the id drawn in the call.  The number of a message that is not encrypted in the
end is used up. -/
def sendMessage (S : Sender) (q : SqsQueue) (req : SendRequest) (now : ℤ) (id : Str) :
    SqsQueue × Except ServiceError SendResult :=
  match q.validateSend req with
  | .error e => (q, .error e)
  | .ok () =>
    let dedupId := effectiveDedupId S.tools q.isFifo q.contentBasedDeduplication req
    let key := q.dedupKey dedupId req.messageGroupId
    match q.lookupDedup key now with
    | (q, some entry) => (q, .ok (req.result S.tools entry.messageId entry.sequenceNumber))
    | (q, none) =>
      if q.maximumMessageSize < req.size then
        (q, .error (invalidParameterValue (tooLong q.maximumMessageSize)))
      else
        match encryptMessageBody S.kms S.region S.accountId q.arn q.effectiveKmsKeyId
          req.messageBody with
        | .error e => (q.countUp, .error e)
        | .ok stored =>
          let delay := (req.delaySeconds <|> q.delaySecs).getD 0
          (q.countUp.enqueue key (newMessage S.tools req dedupId stored delay now id q.nextNumber) now,
            .ok (req.result S.tools id q.nextNumber))

/-- What a send makes of a queue: nothing is added, or one message at the end under the next number, on
a FIFO queue in a group. -/
inductive Grown (q : SqsQueue) (id : Str) : SqsQueue → Prop
  | same (cache : StrMap DedupEntry) {n : ℕ} (hn : q.nextSequenceNumber ≤ n) :
    Grown q id { q with dedupCache := cache, nextSequenceNumber := n }
  | added (cache : StrMap DedupEntry) {m : SqsMessage} {n : ℕ} (hid : m.messageId = id)
    (hnumber : m.sequenceNumber = q.nextNumber) (hgroup : q.isFifo → m.messageGroupId.isSome)
    (hn : n = q.nextSequenceNumber + if q.isFifo then 1 else 0) :
    Grown q id { q with messages := q.messages ++ [m], dedupCache := cache, nextSequenceNumber := n }

theorem countUp_next (q : SqsQueue) :
    q.countUp.nextSequenceNumber = q.nextSequenceNumber + if q.isFifo then 1 else 0 := by
  unfold countUp
  split <;> rfl

theorem Grown.refl (q : SqsQueue) (id : Str) : Grown q id q := .same q.dedupCache (le_refl _)

theorem Grown.countUp (q : SqsQueue) (id : Str) : Grown q id q.countUp := by
  rw [q.countUp_eq]
  exact .same q.dedupCache (by rw [countUp_next]; omega)

theorem Grown.enqueue (q : SqsQueue) (key : Option Str) {m : SqsMessage} (now : ℤ)
    (hn : m.sequenceNumber = q.nextNumber) (hg : q.isFifo → m.messageGroupId.isSome) :
    Grown q m.messageId (q.countUp.enqueue key m now) := by
  rw [q.countUp_eq]
  exact .added _ rfl hn hg q.countUp_next

theorem lookupDedup_frame (q : SqsQueue) (key : Option Str) (now : ℤ) :
    ∃ cache, (q.lookupDedup key now).1 = { q with dedupCache := cache } := by
  rcases key with _ | k
  · exact ⟨q.dedupCache, rfl⟩
  · exact ⟨_, rfl⟩

theorem Grown.of_cache {q q' : SqsQueue} {id : Str} {cache : StrMap DedupEntry}
    (h : Grown { q with dedupCache := cache } id q') : Grown q id q' := by
  cases h with
  | same cache hn => exact .same cache hn
  | added cache hid hnm hg hn => exact .added cache hid hnm hg hn

theorem sendMessage_grown (S : Sender) (q : SqsQueue) (req : SendRequest) (now : ℤ) (id : Str) :
    Grown q id (q.sendMessage S req now id).1 := by
  unfold sendMessage
  rcases hv : q.validateSend req with e | ⟨⟨⟩⟩
  · exact .refl q id
  dsimp only
  obtain ⟨cache, hl⟩ := q.lookupDedup_frame (q.dedupKey (effectiveDedupId S.tools q.isFifo
    q.contentBasedDeduplication req) req.messageGroupId) now
  generalize q.lookupDedup _ now = found at hl ⊢
  obtain ⟨q₁, _ | entry⟩ := found
  · subst hl
    refine @Grown.of_cache q _ id cache ?_
    dsimp only
    split
    · exact .refl _ id
    · split
      · exact .countUp _ id
      · refine Grown.enqueue _ _ now (m := newMessage ..) rfl fun hf => ?_
        exact (checkFifoSendConstraints_ok hf (validateSend_ok hv)).2.1
  · subst hl
    exact .same cache (le_refl _)

end SqsQueue

/-! ## Batches -/

structure BatchEntry where
  id : Option Str
  messageBody : Option Str
  messageGroupId : Option Str
  messageDedupId : Option Str
  delaySeconds : Option ℤ
  messageAttributes : List (Str × MessageAttribute)
  systemAttributes : List (Str × Str)

def BatchEntry.request (entry : BatchEntry) (messageBody : Str) : SendRequest where
  messageBody := messageBody
  messageGroupId := entry.messageGroupId
  messageDedupId := entry.messageDedupId
  delaySeconds := entry.delaySeconds
  messageAttributes := entry.messageAttributes
  systemAttributes := entry.systemAttributes

structure BatchSendConfig where
  isFifo : Bool
  contentBasedDedup : Bool
  maxMessageSize : ℕ
  queueDelay : Option ℤ
  now : ℤ

def BatchSendConfig.fromQueue (q : SqsQueue) (now : ℤ) : BatchSendConfig where
  isFifo := q.isFifo
  contentBasedDedup := q.contentBasedDeduplication
  maxMessageSize := q.maximumMessageSize
  queueDelay := q.delaySecs
  now := now

inductive BatchEntryOutcome
  | success (id : Str) (result : SendResult)
  | failure (id code message : Str)

namespace SqsQueue

def entryFault (cfg : BatchSendConfig) (req : SendRequest) : Option (Str × Str) :=
  if cfg.maxMessageSize < req.size then some ("InvalidParameterValue", tooLong cfg.maxMessageSize)
  else if req.delaySeconds.any fun d => !decide (0 ≤ d ∧ d ≤ 900) then
    some ("InvalidParameterValue", delayOutOfRange (req.delaySeconds.getD 0))
  else if cfg.isFifo && req.messageGroupId.isNone then some ("MissingParameter", missingGroupId)
  else if cfg.isFifo && req.messageDedupId.isNone && !cfg.contentBasedDedup then
    some ("InvalidParameterValue", missingDedupId)
  else none

theorem entryFault_none {cfg : BatchSendConfig} {req : SendRequest} (hf : cfg.isFifo)
    (h : entryFault cfg req = none) : req.messageGroupId.isSome ∧
      (req.messageDedupId.isSome ∨ cfg.contentBasedDedup) := by
  unfold entryFault at h
  split at h
  · cases h
  · split at h
    · cases h
    · split at h
      · cases h
      · next hg =>
        split at h
        · cases h
        · next hd =>
          rw [hf] at hg hd
          refine ⟨by simpa [Option.isSome_iff_ne_none] using hg, ?_⟩
          simpa [or_iff_not_imp_left] using hd

/-- `process_batch_send_entry`, with the body as it is stored and the id drawn for the entry. -/
def processBatchSendEntry (T : Tools) (q : SqsQueue) (entry : BatchEntry) (cfg : BatchSendConfig)
    (storedBody : Option Str) (messageId : Str) : SqsQueue × BatchEntryOutcome :=
  match entry.id, entry.messageBody with
  | none, _ => (q, .failure [] "MissingParameter" "Id is required")
  | some id, none => (q, .failure id "MissingParameter" "MessageBody is required")
  | some id, some body =>
    let req := entry.request body
    match entryFault cfg req with
    | some (code, message) => (q, .failure id code message)
    | none =>
      let dedupId := effectiveDedupId T cfg.isFifo cfg.contentBasedDedup req
      let key := q.dedupKey dedupId req.messageGroupId
      match q.lookupDedup key cfg.now with
      | (q, some existing) =>
        (q, .success id (req.result T existing.messageId existing.sequenceNumber))
      | (q, none) =>
        let delay := (req.delaySeconds <|> cfg.queueDelay).getD 0
        (q.countUp.enqueue key
          (newMessage T req dedupId (storedBody.getD body) delay cfg.now messageId q.nextNumber)
          cfg.now,
          .success id (req.result T messageId q.nextNumber))

theorem processBatchSendEntry_grown (T : Tools) (q : SqsQueue) (entry : BatchEntry) (now : ℤ)
    (storedBody : Option Str) (messageId : Str) : Grown q messageId
      (q.processBatchSendEntry T entry (.fromQueue q now) storedBody messageId).1 := by
  unfold processBatchSendEntry
  rcases entry.id with _ | id
  · exact .refl q messageId
  rcases entry.messageBody with _ | body
  · exact .refl q messageId
  dsimp only
  rcases hf : entryFault (.fromQueue q now) (entry.request body) with _ | fault
  · generalize hk : q.dedupKey _ _ = key
    obtain ⟨cache, hl⟩ := q.lookupDedup_frame key (BatchSendConfig.fromQueue q now).now
    generalize q.lookupDedup key _ = found at hl ⊢
    obtain ⟨q₁, _ | existing⟩ := found
    · subst hl
      refine @Grown.of_cache q _ messageId cache
        (Grown.enqueue _ _ now (m := newMessage ..) rfl fun hff => ?_)
      exact (entryFault_none hff hf).1
    · subst hl
      exact .same cache (le_refl _)
  · exact .refl q messageId

end SqsQueue

/-! ## Deliveries -/

/-- An attribute of a delivery; binary values are in base64. -/
structure SqsMessageAttribute where
  dataType : Str
  stringValue : Option Str
  binaryValue : Option Str

structure Delivery where
  messageBody : Str
  messageAttributes : List (Str × SqsMessageAttribute)
  messageGroupId : Option Str
  messageDedupId : Option Str

structure InvalidParameter where
  message : Str

namespace SqsQueue

/-- The id that a delivery is known by: the explicit one, or on a FIFO queue the digest of the body. -/
def deliveredDedupId (T : Tools) (q : SqsQueue) (d : Delivery) : Option Str :=
  match d.messageDedupId with
  | some id => some id
  | none => if q.isFifo then some (T.sha256Hex d.messageBody) else none

def deliveredMessage (T : Tools) (q : SqsQueue) (d : Delivery) (stored : Str) (now : ℤ) (id : Str) :
    SqsMessage where
  messageId := id
  receiptHandle := none
  body := stored
  md5OfBody := T.md5Hex d.messageBody
  sentTimestamp := timestampMillis now
  attributes := []
  messageAttributes := d.messageAttributes.map fun a =>
    (a.1, ⟨a.2.dataType, a.2.stringValue, a.2.binaryValue.bind base64Decode⟩)
  visibleAt := none
  receiveCount := 0
  firstReceivedAt := none
  messageGroupId := d.messageGroupId
  messageDedupId := q.deliveredDedupId T d
  createdAt := now
  sequenceNumber := q.nextNumber

def deliveredBody (S : Sender) (q : SqsQueue) (messageBody : Str) : Except Str Str :=
  match (q.attributes.get "KmsMasterKeyId").filter (fun k => !k.isEmpty), S.kms with
  | some key, some hook => hook.encrypt S.accountId S.region key (utf8 messageBody) q.arn
  | _, _ => .ok messageBody

/-- `try_deliver_to_queue_with_attrs` on the queue of the ARN, with the id drawn for the message.  The
deduplication cache is not looked at. -/
def tryDeliver (S : Sender) (q : SqsQueue) (d : Delivery) (now : ℤ) (id : Str) :
    SqsQueue × Except InvalidParameter Unit :=
  if q.isFifo && d.messageDedupId.isNone && !q.contentBasedDeduplication then
    (q, .error ⟨"FIFO queue " ++ q.arn ++
      " requires MessageDeduplicationId or ContentBasedDeduplication=true"⟩)
  else
    match q.deliveredBody S d.messageBody with
    | .error e =>
      (q.countUp, .error ⟨"SQS SSE-KMS encrypt failed for " ++ q.arn ++ ": " ++ e⟩)
    | .ok stored =>
      ({ q.countUp with
          messages := q.countUp.messages ++ [q.deliveredMessage S.tools d stored now id] }, .ok ())

end SqsQueue

end Fakecloud.Sqs

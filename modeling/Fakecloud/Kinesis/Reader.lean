import Fakecloud.Kinesis.Stream

/-!
# Kinesis: reading a shard

* `insertIterator` — a lease on a place in a shard, under a token that is given out once;
* `getShardIterator` — where a consumer starts;
* `getRecords` — a page, and the token for the next one.
-/

namespace Fakecloud.Kinesis

open Text

def signedText (n : ℤ) : Str := if n < 0 then '-' :: decimalText n.natAbs else decimalText n.natAbs

/-! ## Tokens -/

def iteratorToken (streamName shardId : Str) (index : ℕ) (now : ℤ) (counter : ℕ) : Str :=
  streamName ++ ':' :: shardId ++ ':' :: decimalText index ++
    ':' :: signedText (now / 10 ^ 6) ++ ':' :: decimalText counter

def leaseLifetime : ℤ := 5 * 60 * 10 ^ 9

/-- The counter is a `u64` in the source, so that there a token can come again after `2 ^ 64` iterators. -/
def insertIterator (now : ℤ) (s : KinesisState) (streamName shardId : Str) (nextRecordIndex : ℕ) :
    Str × KinesisState :=
  let live := s.iterators.retain fun lease => now ≤ lease.expiresAt
  let counter := s.iteratorCounter + 1
  let token := iteratorToken streamName shardId nextRecordIndex now counter
  (token, { s with
    iterators := live.insert token ⟨streamName, shardId, nextRecordIndex, now + leaseLifetime⟩
    iteratorCounter := counter })

/-! ## Where to start -/

inductive IteratorType
  | trimHorizon
  | latest
  | atSequenceNumber (startingSequenceNumber : Option Str)
  | afterSequenceNumber (startingSequenceNumber : Option Str)
  /-- The moment that the number of seconds in the request denotes. -/
  | atTimestamp (timestamp : Option ℤ)
  | unsupported

def requireStartingSequenceNumber : Option Str → Except ServiceError Str
  | some (c :: text) => .ok (c :: text)
  | _ => .error (invalidArgument "StartingSequenceNumber is required")

/-- The number in front of a sequence number that its shard has put there. -/
def sequenceShardDiscriminator (sequenceNumber : Str) : Option ℕ :=
  if (utf8 sequenceNumber).length ≠ 56 ∨ ¬ sequenceNumber.all Char.isDigit then none
  else parseUnsigned (2 ^ 32) (sequenceNumber.take 5)

def resolveSequenceNumberIndex (shard : KinesisShard) (sequenceNumber : Str) (after : Bool) :
    Except ServiceError ℕ :=
  match shard.records.findIdx? fun r => r.sequenceNumber = sequenceNumber with
  | some pos => .ok (if after then pos + 1 else pos)
  | none =>
    -- a record of this shard that is gone: the oldest one that is left
    match shard.records.head? with
    | some first =>
      if compare sequenceNumber first.sequenceNumber = .lt ∧
          sequenceShardDiscriminator sequenceNumber = some (shardDiscriminator shard.shardId) then .ok 0
      else .error (invalidArgument "StartingSequenceNumber is invalid")
    | none => .error (invalidArgument "StartingSequenceNumber is invalid")

def shardIteratorStartIndex (shard : KinesisShard) : IteratorType → Except ServiceError ℕ
  | .trimHorizon => .ok 0
  | .latest => .ok shard.records.length
  | .atSequenceNumber number => do
    let number ← requireStartingSequenceNumber number
    resolveSequenceNumberIndex shard number false
  | .afterSequenceNumber number => do
    let number ← requireStartingSequenceNumber number
    resolveSequenceNumberIndex shard number true
  | .atTimestamp none => .error (invalidArgument "Timestamp is required")
  | .atTimestamp (some target) =>
    if target < 0 then .error (invalidArgument "Timestamp must be a non-negative epoch")
    else .ok (shard.records.findIdx fun r => target ≤ r.approximateArrivalTimestamp)
  | .unsupported => .error (invalidArgument "Unsupported ShardIteratorType")

def findShard (stream : KinesisStream) (shardId : Str) : Option KinesisShard :=
  stream.shards.find? fun candidate => candidate.shardId = shardId

def getShardIterator (now : ℤ) (s : KinesisState) (streamName : Str) (shardId : Option Str)
    (iteratorType : Option IteratorType) : KinesisState × Except ServiceError Str :=
  match shardId.filter fun id => !id.isEmpty with
  | none => (s, .error (invalidArgument "ShardId is required"))
  | some shardId =>
    match iteratorType with
    | none => (s, .error (invalidArgument "ShardIteratorType is required"))
    | some iteratorType =>
      match s.streams.get streamName with
      | none => (s, .error (streamNotFound s.accountId streamName))
      | some stream =>
        match findShard stream shardId with
        | none => (s, .error (invalidArgument "ShardId is invalid"))
        | some shard =>
          match shardIteratorStartIndex shard iteratorType with
          | .error e => (s, .error e)
          | .ok index =>
            let (token, s) := insertIterator now s streamName shardId index
            (s, .ok token)

/-! ## A page -/

structure ChildShard where
  shardId : Str
  parentShards : List Str
  hashKeyRange : ℕ × ℕ
deriving DecidableEq

structure RecordsPage where
  millisBehindLatest : ℤ
  nextShardIterator : Option Str
  records : List KinesisRecord
  childShards : List ChildShard
deriving DecidableEq

def maxGetRecordsBytes : ℕ := 10 * 1024 * 1024

/-- How many of the records fit into a page that has `taken` records of `bytes` bytes. -/
def pageLength (limit : ℕ) : ℕ → ℕ → List KinesisRecord → ℕ
  | _, _, [] => 0
  | taken, bytes, record :: records =>
    let size := recordBytes record.partitionKey record.data
    if limit ≤ taken then 0
    else if 0 < taken ∧ maxGetRecordsBytes < bytes + size then 0
    else 1 + pageLength limit (taken + 1) (bytes + size) records

def checkLimit : Option ℤ → Except ServiceError ℕ
  | none => .ok 10000
  | some n =>
    if 1 ≤ n ∧ n ≤ 10000 then .ok n.toNat
    else .error (invalidArgument
      ("1 validation error detected: Value '" ++ signedText n ++
        "' at 'limit' failed to satisfy constraint: Member must have value less than or equal to 10000 and greater than or equal to 1"))

def childShardsOf (stream : KinesisStream) (shardId : Str) : List ChildShard :=
  (stream.shards.filter fun c =>
    c.parentShardId = some shardId ∨ c.adjacentParentShardId = some shardId).map fun c =>
      ⟨c.shardId, c.parentShardId.toList ++ c.adjacentParentShardId.toList, shardHashRange c⟩

/-- The time between the last record of a page and the newest one. -/
def millisBehind (records : List KinesisRecord) (endIndex : ℕ) : ℤ :=
  if records.length ≤ endIndex ∨ endIndex = 0 then 0
  else
    match records[endIndex - 1]?, records.getLast? with
    | some last, some tip =>
      max ((tip.approximateArrivalTimestamp - last.approximateArrivalTimestamp) / 10 ^ 6) 0
    | _, _ => 0

/-- Where a page starts: the lease may point at records that are past the retention period. -/
def startIndex (cutoff : ℤ) (records : List KinesisRecord) (index : ℕ) : ℕ :=
  index + trimCount cutoff (records.drop index)

def readPage (now : ℤ) (s : KinesisState) (lease : ShardIteratorLease) (stream : KinesisStream)
    (shard : KinesisShard) (limit : ℕ) : KinesisState × RecordsPage :=
  let start := startIndex (stream.cutoff now) shard.records lease.nextRecordIndex
  let length := pageLength limit 0 0 (shard.records.drop start)
  let endIndex := start + length
  let records := (shard.records.drop start).take length
  let behind := millisBehind shard.records endIndex
  if !shard.isOpen ∧ shard.records.length ≤ endIndex then
    (s, ⟨behind, none, records, childShardsOf stream lease.shardId⟩)
  else
    let (token, s) := insertIterator now s lease.streamName lease.shardId endIndex
    (s, ⟨behind, some token, records, []⟩)

def getRecords (now : ℤ) (s : KinesisState) (iterator : Option Str) (limit : Option ℤ) :
    KinesisState × Except ServiceError RecordsPage :=
  match iterator.filter fun token => !token.isEmpty with
  | none => (s, .error (invalidArgument "ShardIterator is required"))
  | some token =>
    match checkLimit limit with
    | .error e => (s, .error e)
    | .ok limit =>
      match s.iterators.get token with
      | none => (s, .error expiredIterator)
      | some lease =>
        if lease.expiresAt < now then
          ({ s with iterators := s.iterators.erase token }, .error expiredIterator)
        else
          match s.streams.get lease.streamName with
          | none => (s, .error (streamNotFound s.accountId lease.streamName))
          | some stream =>
            match findShard stream lease.shardId with
            | none => (s, .error (invalidArgument "ShardId is invalid"))
            | some shard =>
              let (s, page) := readPage now s lease stream shard limit
              (s, .ok page)

end Fakecloud.Kinesis

import Fakecloud.Lib.Base64
import Fakecloud.Lib.Decimal
import Fakecloud.Lib.OrdMap

/-!
# Kinesis: streams, shards and records

* `KinesisShard`, `KinesisStream`, `KinesisState` — what an account holds in a region;
* `trimExpiredRecordsAt` — retention, which moves the offsets that point into a shard;
* `selectShard`, `append`, `putRecord`, `putRecords` — writing.

A hash key is carried by its value, a time is a number of nanoseconds.
-/

namespace Fakecloud.Kinesis

open Text

structure ServiceError where
  code : Str
  message : Str
deriving DecidableEq

def invalidArgument (message : Str) : ServiceError := ⟨"InvalidArgumentException", message⟩

def validationException (message : Str) : ServiceError := ⟨"ValidationException", message⟩

def streamNotFound (accountId streamName : Str) : ServiceError :=
  ⟨"ResourceNotFoundException",
    "Stream " ++ streamName ++ " under account " ++ accountId ++ " not found."⟩

def expiredIterator : ServiceError :=
  ⟨"ExpiredIteratorException", "Shard iterator is expired or invalid."⟩

/-! ## Streams -/

def maxHashKey : ℕ := 2 ^ 128 - 1

structure KinesisRecord where
  sequenceNumber : Str
  partitionKey : Str
  data : Bytes
  approximateArrivalTimestamp : ℤ
deriving DecidableEq

structure KinesisShard where
  shardId : Str
  startingHashKey : ℕ
  endingHashKey : ℕ
  parentShardId : Option Str
  adjacentParentShardId : Option Str
  isOpen : Bool
  nextSequenceNumber : ℕ
  records : List KinesisRecord
deriving DecidableEq

inductive RecordDistributionStrategy
  | userPartitionKey
  | auto
deriving DecidableEq

structure KinesisStream where
  retentionPeriodHours : ℤ
  shardCount : ℤ
  openShardCount : ℤ
  shards : List KinesisShard
  /-- how many ids have been given out; below `2 ^ 31` the `i32` of the source -/
  nextShardIndex : ℕ
  maxRecordSizeKib : Option ℤ
  recordDistributionStrategy : RecordDistributionStrategy
  autoDistributionCursor : ℕ
deriving DecidableEq

structure ShardIteratorLease where
  streamName : Str
  shardId : Str
  nextRecordIndex : ℕ
  expiresAt : ℤ
deriving DecidableEq

/-- `as i32`. -/
def asI32 (n : ℕ) : ℤ := (BitVec.ofNat 32 n).toInt

theorem asI32_of_lt {n : ℕ} (h : n < 2 ^ 31) : asI32 n = n := by
  rw [asI32, BitVec.toInt_ofNat']
  exact Int.bmod_eq_of_le (by omega) (by omega)

abbrev StrMap (β : Type) := OrdMap Str β compare

structure KinesisState where
  accountId : Str
  streams : StrMap KinesisStream
  iterators : StrMap ShardIteratorLease
  iteratorCounter : ℕ
  lambdaCheckpoints : StrMap ℕ

/-- The id of a shard in the counter of its stream. -/
def shardIdOf (index : ℕ) : Str := "shardId-" ++ zeroPad 12 index

theorem shardIdOf_injective : Function.Injective shardIdOf := fun _ _ h =>
  zeroPad_injective 12 (List.append_cancel_left h)

def shardHashRange (shard : KinesisShard) : ℕ × ℕ := (shard.startingHashKey, shard.endingHashKey)

def findOpenShardIdx (shards : List KinesisShard) (shardId : Str) : Except ServiceError ℕ :=
  match shards.findIdx? fun s => s.shardId = shardId ∧ s.isOpen with
  | some idx => .ok idx
  | none => .error (invalidArgument
      ("Shard " ++ shardId ++ " not found or not open"))

/-- A new id, and the stream that has given it out. -/
def nextShardId (stream : KinesisStream) : Str × KinesisStream :=
  (shardIdOf stream.nextShardIndex, { stream with nextShardIndex := stream.nextShardIndex + 1 })

def KinesisShard.close (s : KinesisShard) : KinesisShard := { s with isOpen := false }

def closeFirst (shardId : Str) : List KinesisShard → List KinesisShard
  | [] => []
  | s :: shards => if s.shardId = shardId then s.close :: shards else s :: closeFirst shardId shards

def closeShard (stream : KinesisStream) (shardId : Str) : KinesisStream :=
  { stream with shards := closeFirst shardId stream.shards }

def newShard (shardId : Str) (range : ℕ × ℕ) (parent adjacent : Option Str) : KinesisShard :=
  ⟨shardId, range.1, range.2, parent, adjacent, true, 1, []⟩

/-! ## Routing -/

/-- `Md5::digest` as a big-endian number. -/
abbrev Hash := Str → BitVec 128

def routingHash (md5 : Hash) (partitionKey : Str) (explicitHashKey : Option Str) : Except ServiceError ℕ :=
  match explicitHashKey.filter fun raw => !raw.isEmpty with
  | some raw =>
    match parseUnsigned (2 ^ 128) raw with
    | some hash => .ok hash
    | none => .error (invalidArgument "ExplicitHashKey must be a valid 128-bit integer")
  | none => .ok (md5 partitionKey).toNat

/-- The loop over the shards, with the place of the next one and the last open one so far. -/
def selectFrom (hash : ℕ) : ℕ → Option ℕ → List KinesisShard → Option ℕ
  | _, fallback, [] => fallback
  | idx, fallback, shard :: shards =>
    if !shard.isOpen then selectFrom hash (idx + 1) fallback shards
    else if shard.startingHashKey ≤ hash ∧ hash ≤ shard.endingHashKey then some idx
    else selectFrom hash (idx + 1) (some idx) shards

def selectShardIndexForHash (stream : KinesisStream) (hash : ℕ) : ℕ :=
  (selectFrom hash 0 none stream.shards).getD (stream.shards.length - 1)

def openIndexes (shards : List KinesisShard) : List ℕ :=
  (shards.zipIdx.filter fun e => e.1.isOpen).map Prod.snd

/-- `select_shard_mut`: the place of a shard, and the stream with its cursor. -/
def selectShard (md5 : Hash) (stream : KinesisStream) (partitionKey : Str)
    (explicitHashKey : Option Str) : Except ServiceError (ℕ × KinesisStream) :=
  if stream.shards.isEmpty then .error (invalidArgument "Stream has no shards to route to")
  else
    match routingHash md5 partitionKey explicitHashKey with
    | .error e => .error e
    | .ok hash =>
      match stream.recordDistributionStrategy with
      | .auto =>
        -- the hash is checked and not used
        let places := openIndexes stream.shards
        let idx := if places.isEmpty then stream.shards.length - 1
          else places.getD (stream.autoDistributionCursor % places.length) 0
        .ok (idx, { stream with
          autoDistributionCursor := (stream.autoDistributionCursor + 1) % 2 ^ 64 })
      | .userPartitionKey => .ok (selectShardIndexForHash stream hash, stream)

/-! ## Retention -/

def hours (n : ℤ) : ℤ := n * 3600 * 10 ^ 9

/-- The moment before which records are past the retention period of a stream. -/
def KinesisStream.cutoff (stream : KinesisStream) (now : ℤ) : ℤ :=
  now - hours stream.retentionPeriodHours

/-- How many records are taken off the front. -/
def trimCount (cutoff : ℤ) (records : List KinesisRecord) : ℕ :=
  (records.takeWhile fun r => r.approximateArrivalTimestamp < cutoff).length

def KinesisShard.trim (cutoff : ℤ) (shard : KinesisShard) : KinesisShard :=
  { shard with records := shard.records.drop (trimCount cutoff shard.records) }

def KinesisStream.trim (now : ℤ) (stream : KinesisStream) : KinesisStream :=
  { stream with shards := stream.shards.map (KinesisShard.trim (stream.cutoff now)) }

def afterLastColon (key : Str) : Option Str :=
  (splitOnce ':' key.reverse).map fun ab => ab.1.reverse

structure Offsets where
  lambdaCheckpoints : StrMap ℕ
  iterators : StrMap ShardIteratorLease

/-- A checkpoint is moved when its key ends with the id of the shard. -/
def shiftCheckpoint (shardId : Str) (trim : ℕ) (key : Str) (offset : ℕ) : ℕ :=
  if afterLastColon key = some shardId then offset - trim else offset

def ShardIteratorLease.shift (streamName shardId : Str) (trim : ℕ) (lease : ShardIteratorLease) :
    ShardIteratorLease :=
  if lease.streamName = streamName ∧ lease.shardId = shardId then
    { lease with nextRecordIndex := lease.nextRecordIndex - trim }
  else lease

/-- The offsets into one shard, moved by what is taken off its front. -/
def Offsets.shift (streamName : Str) (cutoff : ℤ) (o : Offsets) (shard : KinesisShard) : Offsets :=
  let trim := trimCount cutoff shard.records
  if trim = 0 then o
  else
    { lambdaCheckpoints := o.lambdaCheckpoints.mapValues (shiftCheckpoint shard.shardId trim)
      iterators := o.iterators.mapValues fun _ => ShardIteratorLease.shift streamName shard.shardId trim }

def Offsets.shiftAll (now : ℤ) (o : Offsets) (e : Str × KinesisStream) : Offsets :=
  e.2.shards.foldl (Offsets.shift e.1 (e.2.cutoff now)) o

def KinesisState.trimExpiredRecordsAt (s : KinesisState) (now : ℤ) : KinesisState :=
  let o := s.streams.entries.foldl (Offsets.shiftAll now) ⟨s.lambdaCheckpoints, s.iterators⟩
  { s with
    streams := s.streams.mapValues fun _ => KinesisStream.trim now
    lambdaCheckpoints := o.lambdaCheckpoints
    iterators := o.iterators }

/-! ## Writing -/

def lastPiece (shardId : Str) : Str := (shardId.splitOn '-').getLastD []

def shardDiscriminator (shardId : Str) : ℕ :=
  min ((parseUnsigned (2 ^ 64) ((lastPiece shardId).filter Char.isDigit)).getD 0) 99999

def KinesisShard.nextRecord (shard : KinesisShard) (now : ℤ) (partitionKey : Str) (data : Bytes) :
    KinesisRecord :=
  ⟨zeroPad 5 (shardDiscriminator shard.shardId) ++ zeroPad 51 shard.nextSequenceNumber,
    partitionKey, data, now⟩

def KinesisShard.append (now : ℤ) (partitionKey : Str) (data : Bytes) (shard : KinesisShard) : KinesisShard :=
  { shard with
    nextSequenceNumber := shard.nextSequenceNumber + 1
    records := shard.records ++ [shard.nextRecord now partitionKey data] }

/-- What a producer sends; the data in base64. -/
structure PutEntry where
  partitionKey : Option Str
  data : Option Str
  explicitHashKey : Option Str

def emptyPartitionKey : ServiceError :=
  validationException
    "1 validation error detected: Value at 'partitionKey' failed to satisfy constraint: Member must have length greater than or equal to 1"

def maxPartitionKeyChars : ℕ := 256

/-- The checks on a partition key; the calls differ in the error for one that is too long. -/
def checkPartitionKey (tooLong : ServiceError) (strategy : RecordDistributionStrategy)
    (partitionKey : Option Str) : Except ServiceError Str :=
  match strategy, partitionKey with
  | .auto, none => .ok []
  | .auto, some [] => .error emptyPartitionKey
  | _, some (c :: key) =>
    if (c :: key).length > maxPartitionKeyChars then .error tooLong else .ok (c :: key)
  | _, _ => .error (invalidArgument "PartitionKey is required")

def decodeRecordData : Option Str → Except ServiceError Bytes
  | none => .error (invalidArgument "Data must be a base64 string")
  | some encoded =>
    match base64Decode encoded with
    | some bytes => .ok bytes
    | none => .error (invalidArgument "Data must be valid base64")

def effectiveMaxRecordBytes (stream : KinesisStream) : ℕ :=
  match stream.maxRecordSizeKib.filter fun kib => 0 < kib with
  | some kib => kib.toNat * 1024
  | none => 1024 * 1024

def effectiveMaxBatchBytes (stream : KinesisStream) : ℕ :=
  max (effectiveMaxRecordBytes stream) (5 * 1024 * 1024)

def recordBytes (partitionKey : Str) (data : Bytes) : ℕ := data.length + (utf8 partitionKey).length

/-- The shard and the sequence number of a record that has been written. -/
structure Put where
  shardId : Str
  sequenceNumber : Str
deriving DecidableEq

/-- The record goes to the shard at a place. -/
def appendAt (now : ℤ) (partitionKey : Str) (data : Bytes) (idx : ℕ) (stream : KinesisStream) :
    Except ServiceError (Put × KinesisStream) :=
  match stream.shards[idx]? with
  | none => .error (invalidArgument "Stream has no shards to route to")
  | some shard =>
    .ok (⟨shard.shardId, (shard.nextRecord now partitionKey data).sequenceNumber⟩,
      { stream with shards := stream.shards.modify idx (KinesisShard.append now partitionKey data) })

/-- The checks on one entry, and its record written. -/
def putEntry (md5 : Hash) (now : ℤ) (tooLong tooLarge : ServiceError) (stream : KinesisStream)
    (entry : PutEntry) : Except ServiceError (Put × KinesisStream) := do
  let partitionKey ← checkPartitionKey tooLong stream.recordDistributionStrategy entry.partitionKey
  let data ← decodeRecordData entry.data
  if recordBytes partitionKey data > effectiveMaxRecordBytes stream then .error tooLarge
  else do
    let (idx, stream) ← selectShard md5 stream partitionKey entry.explicitHashKey
    appendAt now partitionKey data idx stream

def tooLargeMessage (stream : KinesisStream) : Str :=
  "Record size (Data + PartitionKey) exceeds the " ++
    decimalText (effectiveMaxRecordBytes stream) ++ "-byte per-record limit"

def putRecord (md5 : Hash) (now : ℤ) (s : KinesisState) (streamName : Str) (entry : PutEntry) :
    KinesisState × Except ServiceError Put :=
  let s := s.trimExpiredRecordsAt now
  match s.streams.get streamName with
  | none => (s, .error (streamNotFound s.accountId streamName))
  | some stream =>
    let tooLong := validationException
      "1 validation error detected: Value at 'partitionKey' failed to satisfy constraint: Member must have length less than or equal to 256"
    match putEntry md5 now tooLong (validationException (tooLargeMessage stream)) stream entry with
    | .error e => (s, .error e)
    | .ok (put, stream) => ({ s with streams := s.streams.insert streamName stream }, .ok put)

/-- The size of an entry as the check on the whole request counts it. -/
def putRecordsEntrySize (entry : PutEntry) : ℕ :=
  (match decodeRecordData entry.data with | .ok data => data.length | .error _ => 0) +
    ((entry.partitionKey.map fun key => (utf8 key).length).getD 0)

/-- The entries one after the other; one that fails leaves the stream as it is. -/
def putRecordsEntries (md5 : Hash) (now : ℤ) :
    KinesisStream → List PutEntry → KinesisStream × List (Except ServiceError Put)
  | stream, [] => (stream, [])
  | stream, entry :: entries =>
    let tooLong := invalidArgument "PartitionKey must have length less than or equal to 256"
    match putEntry md5 now tooLong (invalidArgument (tooLargeMessage stream)) stream entry with
    | .error e =>
      let (stream, results) := putRecordsEntries md5 now stream entries
      (stream, .error (invalidArgument e.message) :: results)
    | .ok (put, stream) =>
      let (stream, results) := putRecordsEntries md5 now stream entries
      (stream, .ok put :: results)

def maxPutRecordsCount : ℕ := 500

/-- The limits on a whole request. -/
def checkPutRecords (stream : KinesisStream) (entries : List PutEntry) : Except ServiceError Unit :=
  if entries.isEmpty then .error (invalidArgument "Records must not be empty")
  else if entries.length > maxPutRecordsCount then
    .error (validationException
      "1 validation error detected: Value at 'records' failed to satisfy constraint: Member must have length less than or equal to 500")
  else
    let aggregate := (entries.map putRecordsEntrySize).sum
    if aggregate > effectiveMaxBatchBytes stream then
      .error (validationException
        ("PutRecords aggregate payload (" ++ decimalText aggregate ++
          " bytes) exceeds the " ++ decimalText (effectiveMaxBatchBytes stream) ++
          "-byte per-request limit"))
    else .ok ()

def putRecords (md5 : Hash) (now : ℤ) (s : KinesisState) (streamName : Str)
    (entries : List PutEntry) : KinesisState × Except ServiceError (List (Except ServiceError Put)) :=
  let s := s.trimExpiredRecordsAt now
  match s.streams.get streamName with
  | none => (s, .error (streamNotFound s.accountId streamName))
  | some stream =>
    match checkPutRecords stream entries with
    | .error e => (s, .error e)
    | .ok () =>
      let (stream, results) := putRecordsEntries md5 now stream entries
      ({ s with streams := s.streams.insert streamName stream }, .ok results)

end Fakecloud.Kinesis

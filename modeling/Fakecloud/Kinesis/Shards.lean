import Fakecloud.Kinesis.Stream
import Fakecloud.Lib.Segments

/-!
# Kinesis: splitting, merging and resharding

The calls that make shards.  A shard that is split or merged is closed and stays in the stream; the new
ones name it as their parent.  Resharding splits every open shard at the boundaries of the target ranges
and merges the pieces inside each of them from left to right.
-/

namespace Fakecloud.Kinesis

open Text Segments

/-! ## The calls -/

/-- The uniform ranges that creating a stream and resharding it use. -/
def uniformRanges (count : ℕ) : List (ℕ × ℕ) :=
  (List.range count).map fun i =>
    (if i = 0 then 0 else maxHashKey / count * i + 1,
      if i = count - 1 then maxHashKey else maxHashKey / count * (i + 1))

def buildStreamShards (shardCount : ℕ) : List KinesisShard :=
  (uniformRanges shardCount).zipIdx.map fun e => newShard (shardIdOf e.2) e.1 none none

/-- The stream that `CreateStream` stores; an on-demand stream has four shards. -/
def createStream (shardCount : ℤ) (onDemand : Bool) (maxRecordSizeKib : Option ℤ)
    (strategy : RecordDistributionStrategy) : Except ServiceError KinesisStream :=
  if shardCount ≤ 0 then .error (invalidArgument "ShardCount must be greater than zero")
  else if 2 ^ 31 ≤ shardCount then
    .error (invalidArgument "ShardCount must be less than or equal to 2147483647")
  else if strategy = .auto ∧ ¬ onDemand then
    .error (invalidArgument
      "The AUTO record distribution strategy is only supported for streams in ON_DEMAND capacity mode")
  else
    let count := if onDemand then 4 else shardCount.toNat
    .ok ⟨24, count, count, buildStreamShards count, count, maxRecordSizeKib, strategy, 0⟩

def KinesisStream.recount (stream : KinesisStream) : KinesisStream :=
  { stream with
    shardCount := asI32 stream.shards.length
    openShardCount := asI32 (stream.shards.countP KinesisShard.isOpen) }

def closeAt (idx : ℕ) (shards : List KinesisShard) : List KinesisShard :=
  shards.modify idx KinesisShard.close

def mergeShards (stream : KinesisStream) (shardToMerge adjacentShard : Str) :
    Except ServiceError KinesisStream :=
  if shardToMerge = adjacentShard then
    .error (invalidArgument "ShardToMerge and AdjacentShardToMerge must be different shards")
  else do
    let idx₁ ← findOpenShardIdx stream.shards shardToMerge
    let idx₂ ← findOpenShardIdx stream.shards adjacentShard
    match stream.shards[idx₁]?, stream.shards[idx₂]? with
    | some s₁, some s₂ =>
      let (start₁, end₁) := shardHashRange s₁
      let (start₂, end₂) := shardHashRange s₂
      -- `checked_add`: there is no number after the last one
      if ¬ (end₁ + 1 = start₂ ∧ end₁ < maxHashKey) ∧ ¬ (end₂ + 1 = start₁ ∧ end₂ < maxHashKey) then
        .error (invalidArgument "ShardToMerge and AdjacentShardToMerge must be adjacent shards")
      else
        let (newId, stream) := nextShardId stream
        let shards := closeAt idx₂ (closeAt idx₁ stream.shards)
        .ok ({ stream with shards := shards ++ [newShard newId (min start₁ start₂, max end₁ end₂)
          (some shardToMerge) (some adjacentShard)] }.recount)
    | _, _ => .error (invalidArgument "Shard index out of range")

def splitShard (stream : KinesisStream) (shardToSplit newStartingHashKey : Str) :
    Except ServiceError KinesisStream := do
  let idx ← findOpenShardIdx stream.shards shardToSplit
  match stream.shards[idx]?, parseUnsigned (2 ^ 128) newStartingHashKey with
  | some s, some splitPoint =>
    let (oldStarting, oldEnding) := shardHashRange s
    if splitPoint ≤ oldStarting ∨ oldEnding < splitPoint then
      .error (invalidArgument "NewStartingHashKey must be within the shard's hash key range")
    else
      let (id₁, stream) := nextShardId stream
      let (id₂, stream) := nextShardId stream
      .ok ({ stream with shards := closeAt idx stream.shards ++
        [newShard id₁ (oldStarting, splitPoint - 1) (some shardToSplit) none,
          newShard id₂ (splitPoint, oldEnding) (some shardToSplit) none] }.recount)
  | some _, none => .error (invalidArgument "NewStartingHashKey must be a valid number")
  | none, _ => .error (invalidArgument "Shard index out of range")

def openRanges (shards : List KinesisShard) : List (ℕ × ℕ) :=
  (shards.filter KinesisShard.isOpen).map shardHashRange

/-- The first numbers of all ranges, sorted and without repetition. -/
def cutPoints (shards : List KinesisShard) (targets : List (ℕ × ℕ)) : List ℕ :=
  (0 :: (openRanges shards ++ targets).map Prod.fst).dedup.insertionSort (· ≤ ·)

def parentFor (original : List KinesisShard) (range : ℕ × ℕ) : Option Str :=
  ((original.filter KinesisShard.isOpen).find? fun s => inside range (shardHashRange s)).map
    KinesisShard.shardId

def openPieces (original : List KinesisShard) :
    KinesisStream → List (ℕ × ℕ) → KinesisStream × List ((ℕ × ℕ) × Str)
  | stream, [] => (stream, [])
  | stream, range :: ranges =>
    let (newId, stream) := nextShardId stream
    let stream := { stream with
      shards := stream.shards ++ [newShard newId range (parentFor original range) none] }
    let (stream, pieces) := openPieces original stream ranges
    (stream, (range, newId) :: pieces)

/-- One merge of a chain: the head and the next piece are closed for a shard that spans both. -/
def mergeStep (tstart : ℕ) (stream : KinesisStream) (acc : Str) (next : (ℕ × ℕ) × Str) :
    KinesisStream × Str :=
  let stream := closeShard stream next.2
  let (mergedId, stream) := nextShardId stream
  let stream := { stream with
    shards := stream.shards ++ [newShard mergedId (tstart, next.1.2) (some acc) (some next.2)] }
  (closeShard stream acc, mergedId)

def mergeChain (tstart : ℕ) : KinesisStream → Str → List ((ℕ × ℕ) × Str) → KinesisStream
  | stream, _, [] => stream
  | stream, acc, next :: pieces =>
    let (stream, acc) := mergeStep tstart stream acc next
    mergeChain tstart stream acc pieces

def mergeTarget (pieces : List ((ℕ × ℕ) × Str)) (stream : KinesisStream) (target : ℕ × ℕ) : KinesisStream :=
  match pieces.filter fun p => inside p.1 target with
  | first :: second :: rest =>
    mergeChain target.1 (closeShard stream first.2) first.2 (second :: rest)
  | _ => stream

def reshardUniform (stream : KinesisStream) (target : ℕ) : KinesisStream :=
  let original := stream.shards
  let targets := uniformRanges target
  let refinement := cutAt maxHashKey (cutPoints original targets)
  let closed := { stream with shards := original.map KinesisShard.close }
  let (stream, pieces) := openPieces original closed refinement
  let stream := targets.foldl (mergeTarget pieces) stream
  { stream with shardCount := asI32 stream.shards.length, openShardCount := asI32 target }

def updateShardCount (stream : KinesisStream) (targetShardCount : ℤ) : Except ServiceError KinesisStream :=
  if targetShardCount ≤ 0 ∨ 10000 < targetShardCount then
    .error (invalidArgument "TargetShardCount must be between 1 and 10000")
  else .ok (reshardUniform stream targetShardCount.toNat)

end Fakecloud.Kinesis

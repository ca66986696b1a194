import Fakecloud.Kinesis.Reader
import Fakecloud.Lib.Retained

/-!
# Kinesis: what a call does to one shard and to the offsets into it

* `At.trim`, `moved_eq`, `movedCheckpoint_eq` — retention takes records off the front and moves the
  offsets;
* `Written` — a producer adds records at the end, after a trim.
-/

namespace Fakecloud.Kinesis

open Text List Option KinesisShard Offsets OrdMap KinesisState

structure At (s : KinesisState) (streamName shardId : Str) (stream : KinesisStream)
    (shard : KinesisShard) : Prop where
  get : s.streams.get streamName = some stream
  find : findShard stream shardId = some shard

def DistinctIds (s : KinesisState) : Prop :=
  ∀ streamName stream, s.streams.get streamName = some stream →
    (stream.shards.map KinesisShard.shardId).Nodup

section

variable {s : KinesisState} {streamName shardId key : Str} {stream stream' : KinesisStream}
  {shard shard' : KinesisShard} {now : ℤ}

theorem findShard_some (h : findShard stream shardId = some shard) :
    shard ∈ stream.shards ∧ shard.shardId = shardId := ⟨mem_of_find?_eq_some h, by simpa using find?_some h⟩

/-! ## Retention -/

theorem At.trim (h : At s streamName shardId stream shard) (now : ℤ) :
    At (s.trimExpiredRecordsAt now) streamName shardId (stream.trim now)
      (shard.trim (stream.cutoff now)) where
  get := by
    rw [trimExpiredRecordsAt, get_mapValues, h.get]
    rfl
  find := by
    change (stream.shards.map (KinesisShard.trim (stream.cutoff now))).find? _ = _
    rw [find?_map]
    exact congrArg (Option.map _) h.find

theorem At.of_trim (h : At (s.trimExpiredRecordsAt now) streamName shardId stream' shard') :
    ∃ stream shard, At s streamName shardId stream shard ∧ stream' = stream.trim now ∧
      shard' = shard.trim (stream.cutoff now) := by
  have hg := h.get
  rw [trimExpiredRecordsAt, get_mapValues] at hg
  obtain ⟨stream, hs, rfl⟩ := map_eq_some_iff.mp hg
  have hf := h.find
  change (stream.shards.map (KinesisShard.trim (stream.cutoff now))).find? _ = _ at hf
  rw [find?_map] at hf
  obtain ⟨shard, hsh, rfl⟩ := map_eq_some_iff.mp hf
  exact ⟨stream, shard, ⟨hs, hsh⟩, rfl, rfl⟩

theorem DistinctIds.trim (h : DistinctIds s) (now : ℤ) : DistinctIds (s.trimExpiredRecordsAt now) := by
  intro name st hg
  rw [trimExpiredRecordsAt, get_mapValues] at hg
  obtain ⟨st, hst, rfl⟩ := map_eq_some_iff.mp hg
  rw [KinesisStream.trim, List.map_map]
  exact h name st hst

theorem trimCount_le (cutoff : ℤ) (records : List KinesisRecord) :
    trimCount cutoff records ≤ records.length := (takeWhile_sublist _).length_le

theorem expired_of_mem_take {cutoff : ℤ} {records : List KinesisRecord} {r : KinesisRecord}
    (h : r ∈ records.take (trimCount cutoff records)) : r.approximateArrivalTimestamp < cutoff := by
  have hp (p : KinesisRecord → Bool) : records.takeWhile p <+: records := takeWhile_prefix p
  rw [trimCount, ← prefix_iff_eq_take.mp (hp _)] at h
  simpa using mem_takeWhile_imp h

/-- A lease after all shards of all streams have been trimmed. -/
def moved (now : ℤ) (entries : List (Str × KinesisStream)) (lease : ShardIteratorLease) :
    ShardIteratorLease :=
  entries.foldl (fun lease e => e.2.shards.foldl (fun lease shard =>
    lease.shift e.1 shard.shardId (trimCount (e.2.cutoff now) shard.records)) lease) lease

/-- A checkpoint after all shards of all streams have been trimmed. -/
def movedCheckpoint (now : ℤ) (entries : List (Str × KinesisStream)) (key : Str) (offset : ℕ) : ℕ :=
  entries.foldl (fun offset e => e.2.shards.foldl (fun offset shard =>
    shiftCheckpoint shard.shardId (trimCount (e.2.cutoff now) shard.records) key offset) offset) offset

theorem shift_zero (streamName shardId : Str) (lease : ShardIteratorLease) :
    lease.shift streamName shardId 0 = lease := by
  rw [ShardIteratorLease.shift]
  split <;> rfl

theorem shiftCheckpoint_zero (shardId key : Str) (offset : ℕ) :
    shiftCheckpoint shardId 0 key offset = offset := by
  rw [shiftCheckpoint]
  split <;> rfl

theorem get_shift (token key : Str) (o : Offsets) (streamName : Str) (cutoff : ℤ) (shard : KinesisShard) :
    ((o.shift streamName cutoff shard).iterators.get token = (o.iterators.get token).map fun lease =>
        lease.shift streamName shard.shardId (trimCount cutoff shard.records)) ∧
    ((o.shift streamName cutoff shard).lambdaCheckpoints.get key = (o.lambdaCheckpoints.get key).map
        (shiftCheckpoint shard.shardId (trimCount cutoff shard.records) key)) := by
  rw [shift]
  split
  · next hz =>
    rw [hz]
    constructor
    · rw [funext (shift_zero streamName shard.shardId), Option.map_id']
    · rw [funext (shiftCheckpoint_zero shard.shardId key), Option.map_id']
  · exact ⟨get_mapValues _ _ _, get_mapValues _ _ _⟩

theorem get_shiftAll (token key : Str) (shards : List KinesisShard) (o : Offsets) (streamName : Str)
    (cutoff : ℤ) :
    ((shards.foldl (shift streamName cutoff) o).iterators.get token =
      (o.iterators.get token).map fun lease => shards.foldl (fun lease shard =>
        lease.shift streamName shard.shardId (trimCount cutoff shard.records)) lease) ∧
    ((shards.foldl (shift streamName cutoff) o).lambdaCheckpoints.get key =
      (o.lambdaCheckpoints.get key).map fun offset => shards.foldl (fun offset shard =>
        shiftCheckpoint shard.shardId (trimCount cutoff shard.records) key offset) offset) := by
  induction shards generalizing o with
  | nil => exact ⟨Option.map_id'.symm, Option.map_id'.symm⟩
  | cons shard shards ih =>
    obtain ⟨hls, hch⟩ := get_shift token key o streamName cutoff shard
    obtain ⟨hl, hc⟩ := ih (o.shift streamName cutoff shard)
    constructor
    · rw [foldl_cons, hl, hls, Option.map_map]
      rfl
    · rw [foldl_cons, hc, hch, Option.map_map]
      rfl

theorem get_trim (s : KinesisState) (now : ℤ) (token key : Str) :
    ((s.trimExpiredRecordsAt now).iterators.get token =
      (s.iterators.get token).map (moved now s.streams.entries)) ∧
    ((s.trimExpiredRecordsAt now).lambdaCheckpoints.get key =
      (s.lambdaCheckpoints.get key).map (movedCheckpoint now s.streams.entries key)) := by
  rw [trimExpiredRecordsAt]
  generalize s.streams.entries = entries
  suffices h : ∀ o : Offsets, ((entries.foldl (shiftAll now) o).iterators.get token =
      (o.iterators.get token).map (moved now entries)) ∧
      ((entries.foldl (shiftAll now) o).lambdaCheckpoints.get key =
        (o.lambdaCheckpoints.get key).map (movedCheckpoint now entries key)) from
    h ⟨s.lambdaCheckpoints, s.iterators⟩
  intro o
  induction entries generalizing o with
  | nil => exact ⟨Option.map_id'.symm, Option.map_id'.symm⟩
  | cons e entries ih =>
    obtain ⟨hls, hch⟩ := get_shiftAll token key e.2.shards o e.1 (e.2.cutoff now)
    obtain ⟨hl, hc⟩ := ih (o.shiftAll now e)
    rw [shiftAll] at hl hc
    constructor
    · rw [foldl_cons, shiftAll, hl, hls, Option.map_map]
      rfl
    · rw [foldl_cons, shiftAll, hc, hch, Option.map_map]
      rfl

/-- How many records a trim takes off a shard. -/
def lostBy (s : KinesisState) (now : ℤ) (streamName shardId : Str) : ℕ :=
  (((s.streams.get streamName).bind fun stream => (findShard stream shardId).map fun shard =>
    trimCount (stream.cutoff now) shard.records)).getD 0

theorem lostBy_eq (h : At s streamName shardId stream shard) :
    lostBy s now streamName shardId = trimCount (stream.cutoff now) shard.records := by
  rw [lostBy, h.get, bind_some, h.find]
  rfl

theorem foldl_sub {α : Type} (f : α → ℕ) (l : List α) (b : ℕ) :
    l.foldl (fun b x => b - f x) b = b - (l.map f).sum := by
  induction l generalizing b with
  | nil => rfl
  | cons x l ih => rw [foldl_cons, ih, map_cons, sum_cons, Nat.sub_sub]

theorem sum_key {α β : Type} [DecidableEq β] {key : α → β} {l : List α} (h : (l.map key).Nodup) (k : β)
    (f : α → ℕ) :
    (l.map fun a => if key a = k then f a else 0).sum = ((l.find? fun a => key a = k).map f).getD 0 := by
  induction l with
  | nil => rfl
  | cons a l ih =>
    obtain ⟨ho, hr⟩ := nodup_cons.mp h
    rw [map_cons, sum_cons]
    by_cases ha : key a = k
    · have hz : (l.map fun a => if key a = k then f a else 0) = l.map fun _ => 0 :=
        map_congr_left fun x hx => if_neg fun hk =>
          ho (mem_map.mpr ⟨x, hx, Eq.trans hk ha.symm⟩)
      rw [if_pos ha, hz, find?_cons_of_pos (by simpa using ha)]
      simp
    · rw [if_neg ha, Nat.zero_add, ih hr, find?_cons_of_neg (by simpa using ha)]

theorem nodup_names (m : OrdMap Str KinesisStream compare) : (m.entries.map Prod.fst).Nodup :=
  pairwise_map.mpr (m.sorted.imp fun hlt heq => by
    have hs : compare _ _ = .eq := Std.LawfulEqCmp.compare_eq_iff_eq.mpr heq
    rw [hlt] at hs
    cases hs)

theorem sum_shards (hi : DistinctIds s) (now : ℤ) (shardId : Str) {e : Str × KinesisStream}
    (he : e ∈ s.streams.entries) :
    (e.2.shards.map fun x => if x.shardId = shardId then trimCount (e.2.cutoff now) x.records else 0).sum =
      lostBy s now e.1 shardId := by
  have hg := mem_entries.mp he
  rw [sum_key (hi _ _ hg), lostBy, hg]
  rfl

theorem lostBy_eq_zero (h : s.streams.get streamName = none) : lostBy s now streamName shardId = 0 := by
  rw [lostBy, h]
  rfl

/-- What the streams lose, where only one name counts. -/
theorem sum_streams (s : KinesisState) (now : ℤ) (streamName shardId : Str) :
    (s.streams.entries.map fun e => if e.1 = streamName then lostBy s now e.1 shardId else 0).sum =
      lostBy s now streamName shardId := by
  rw [sum_key (nodup_names s.streams)]
  generalize hf : s.streams.entries.find? _ = found
  rcases found with _ | e
  · refine (lostBy_eq_zero (Option.eq_none_iff_forall_not_mem.mpr fun stream hg => ?_)).symm
    exact absurd (find?_eq_none.mp hf _ (mem_entries.mpr hg)) (by simp)
  · have hn : e.1 = streamName := by simpa using find?_some hf
    rw [map_some, getD_some, hn]

/-- **A lease is moved by what its own shard has lost.** -/
theorem moved_eq (now : ℤ) (hi : DistinctIds s) (lease : ShardIteratorLease) :
    moved now s.streams.entries lease = { lease with
        nextRecordIndex := lease.nextRecordIndex - lostBy s now lease.streamName lease.shardId } := by
  let back (n : ℕ) : ShardIteratorLease := { lease with nextRecordIndex := n }
  let lost (e : Str × KinesisStream) (x : KinesisShard) : ℕ :=
    if e.1 = lease.streamName then if x.shardId = lease.shardId then trimCount
      (e.2.cutoff now) x.records else 0
    else 0
  have hs (e : Str × KinesisStream) (b : ℕ) : e.2.shards.foldl (fun lease x =>
      lease.shift e.1 x.shardId (trimCount (e.2.cutoff now) x.records)) (back b) =
      back (b - (e.2.shards.map (lost e)).sum) := by
    rw [← foldl_sub]
    refine foldl_hom back fun b x => ?_
    simp only [ShardIteratorLease.shift, lost, back]
    split_ifs <;> simp_all
  have hsm (e : Str × KinesisStream) (he : e ∈ s.streams.entries) : (e.2.shards.map (lost e)).sum =
      if e.1 = lease.streamName then lostBy s now e.1 lease.shardId else 0 := by
    simp only [lost]
    split_ifs
    · exact sum_shards hi now _ he
    · simp
  calc moved now s.streams.entries lease
      = back
        (lease.nextRecordIndex - (s.streams.entries.map fun e => (e.2.shards.map (lost e)).sum).sum) := by
        rw [← foldl_sub]
        exact foldl_hom back fun b e => hs e b
    _ = back (lease.nextRecordIndex - lostBy s now lease.streamName lease.shardId) := by
        rw [map_congr_left hsm, sum_streams]

/-- **A checkpoint is moved by what the shards with its id have lost**, in all streams. -/
theorem movedCheckpoint_eq (now : ℤ) (hi : DistinctIds s) (hk : afterLastColon key = some shardId)
    (offset : ℕ) :
    movedCheckpoint now s.streams.entries key offset =
      offset - (s.streams.entries.map fun e => lostBy s now e.1 shardId).sum := by
  have hs (id : Str) (t b : ℕ) : shiftCheckpoint id t key b = b - if id = shardId then t else 0 := by
    simp only [shiftCheckpoint, hk, some.injEq, eq_comm]
    split_ifs <;> rfl
  rw [movedCheckpoint]
  simp only [hs, foldl_sub]
  rw [map_congr_left fun e he => sum_shards hi now shardId he]

end

/-! ## Writing -/

/-- A shard with records added at its end. -/
structure Grown (a b : KinesisShard) : Prop where
  shardId : b.shardId = a.shardId
  isOpen : b.isOpen = a.isOpen
  records : ∃ new, b.records = a.records ++ new

theorem Grown.refl (a : KinesisShard) : Grown a a := ⟨rfl, rfl, [], (append_nil _).symm⟩

theorem Grown.trans {a b c : KinesisShard} (h : Grown a b) (h' : Grown b c) : Grown a c := by
  obtain ⟨new, hn⟩ := h.records
  obtain ⟨new', hn'⟩ := h'.records
  exact ⟨h'.shardId.trans h.shardId, h'.isOpen.trans h.isOpen, new ++ new', by
    rw [hn', hn, append_assoc]⟩

/-- A stream with records added to its shards. -/
structure Extends (a b : KinesisStream) : Prop where
  retention : b.retentionPeriodHours = a.retentionPeriodHours
  shards : List.Forall₂ Grown a.shards b.shards

theorem Extends.refl (a : KinesisStream) : Extends a a := ⟨rfl, forall₂_same.mpr fun x _ => Grown.refl x⟩

theorem Extends.trans {a b c : KinesisStream} (h : Extends a b) (h' : Extends b c) : Extends a c where
  retention := h'.retention.trans h.retention
  shards := by
    have hab := h.shards
    have hbc := h'.shards
    generalize a.shards = as at hab
    generalize b.shards = bs at hab hbc
    generalize c.shards = cs at hbc
    induction hab generalizing cs with
    | nil =>
      cases hbc
      exact .nil
    | cons hg _ ih =>
      cases hbc with
      | cons hg' hr => exact .cons (hg.trans hg') (ih _ hr)

theorem Extends.ids {a b : KinesisStream} (h : Extends a b) :
    b.shards.map shardId = a.shards.map shardId := by
  have hab := h.shards
  generalize a.shards = as at hab
  generalize b.shards = bs at hab
  induction hab with
  | nil => rfl
  | cons hg _ ih => rw [map_cons, map_cons, ih, hg.shardId]

variable {shardId : Str}

theorem Extends.findShard {a b : KinesisStream} (h : Extends a b)
    {shard : KinesisShard} (hf : findShard a shardId = some shard) :
    ∃ shard', Kinesis.findShard b shardId = some shard' ∧ Grown shard shard' := by
  have hab := h.shards
  rw [Kinesis.findShard] at hf ⊢
  generalize a.shards = as at hab hf
  generalize b.shards = bs at hab
  induction hab with
  | nil => cases hf
  | @cons x y as bs hg _ ih =>
    by_cases hx : x.shardId = shardId
    · rw [find?_cons_of_pos (by simpa using hx), some.injEq] at hf
      subst hf
      exact ⟨y, find?_cons_of_pos (by simpa [hg.shardId] using hx), hg⟩
    · rw [find?_cons_of_neg (by simpa using hx)] at hf
      rw [find?_cons_of_neg (by simpa [hg.shardId] using hx)]
      exact ih hf

theorem Extends.findShard_of {a b : KinesisStream} (h : Extends a b)
    {shard' : KinesisShard} (hf : Kinesis.findShard b shardId = some shard') :
    ∃ shard, Kinesis.findShard a shardId = some shard ∧ Grown shard shard' := by
  obtain ⟨hmm, hid⟩ := findShard_some hf
  have hids : shardId ∈ a.shards.map KinesisShard.shardId := by
    rw [← h.ids, ← hid]
    exact mem_map_of_mem hmm
  obtain ⟨shard₀, hm, hi⟩ := mem_map.mp hids
  have hsm : (Kinesis.findShard a shardId).isSome := find?_isSome.mpr ⟨shard₀, hm, by simpa using hi⟩
  obtain ⟨shard, hs⟩ := isSome_iff_exists.mp hsm
  obtain ⟨shard'', hf'', hg⟩ := h.findShard hs
  rw [hf, some.injEq] at hf''
  subst hf''
  exact ⟨shard, hs, hg⟩

section Put

variable {md5 : Hash} {now : ℤ} {stream stream' : KinesisStream} {s s' : KinesisState}
  {entry : PutEntry} {streamName : Str}

theorem selectShard_ok {partitionKey : Str} {explicitHashKey : Option Str} {idx : ℕ}
    (h : selectShard md5 stream partitionKey explicitHashKey = .ok (idx, stream')) :
    ∃ cursor, stream' = { stream with autoDistributionCursor := cursor } := by
  rw [selectShard] at h
  split at h
  · cases h
  split at h
  · cases h
  split at h
  · cases h
    exact ⟨_, rfl⟩
  · cases h
    exact ⟨_, rfl⟩

theorem modify_grown {f : KinesisShard → KinesisShard} (hf : ∀ a, Grown a (f a)) (idx : ℕ)
    (shards : List KinesisShard) : List.Forall₂ Grown shards (shards.modify idx f) := by
  induction shards generalizing idx with
  | nil => exact (modify_nil f idx).symm ▸ .nil
  | cons x shards ih =>
    cases idx with
    | zero => exact .cons (hf x) (forall₂_same.mpr fun y _ => Grown.refl y)
    | succ idx => exact .cons (Grown.refl x) (ih idx)

theorem putEntry_ok {tooLong tooLarge : ServiceError} {put : Put}
    (h : putEntry md5 now tooLong tooLarge stream entry = .ok (put, stream')) :
    ∃ cursor idx shard partitionKey data, stream.shards[idx]? = some shard ∧
      put = ⟨shard.shardId, (shard.nextRecord now partitionKey data).sequenceNumber⟩ ∧ stream' = { stream with
        autoDistributionCursor := cursor
        shards := stream.shards.modify idx (append now partitionKey data) } := by
  obtain ⟨partitionKey, -, h⟩ := bind_eq_ok.mp h
  obtain ⟨data, -, h⟩ := bind_eq_ok.mp h
  split at h
  · cases h
  obtain ⟨⟨idx, chosen⟩, hsl, h⟩ := bind_eq_ok.mp h
  obtain ⟨cursor, rfl⟩ := selectShard_ok hsl
  dsimp only [appendAt] at h
  split at h
  · cases h
  next shard hs =>
  cases h
  exact ⟨cursor, idx, shard, partitionKey, data, hs, rfl, rfl⟩

theorem putEntry_extends {tooLong tooLarge : ServiceError} {put : Put}
    (h : putEntry md5 now tooLong tooLarge stream entry = .ok (put, stream')) : Extends stream stream' := by
  obtain ⟨cursor, idx, shard, partitionKey, data, -, -, rfl⟩ := putEntry_ok h
  have hg : ∀ a, Grown a (append now partitionKey data a) := fun _ =>
    ⟨rfl, rfl, _, rfl⟩
  exact ⟨rfl, modify_grown hg idx stream.shards⟩

theorem putRecordsEntries_extends (stream : KinesisStream) (entries : List PutEntry) :
    Extends stream (putRecordsEntries md5 now stream entries).1 := by
  induction entries generalizing stream with
  | nil => exact .refl stream
  | cons entry entries ih =>
    rw [putRecordsEntries]
    split
    · exact ih stream
    · next put stream' hp => exact (putEntry_extends hp).trans (ih stream')

/-- Records are added, and nothing else changes. -/
structure Written (s s' : KinesisState) : Prop where
  streams : ∀ streamName stream, s.streams.get streamName = some stream →
    ∃ stream', s'.streams.get streamName = some stream' ∧ Extends stream stream'
  names : ∀ streamName, s.streams.get streamName = none → s'.streams.get streamName = none
  iterators : s'.iterators = s.iterators
  iteratorCounter : s'.iteratorCounter = s.iteratorCounter
  lambdaCheckpoints : s'.lambdaCheckpoints = s.lambdaCheckpoints

theorem Written.refl (s : KinesisState) : Written s s :=
  ⟨fun _ stream h => ⟨stream, h, .refl stream⟩, fun _ h => h, rfl, rfl, rfl⟩

theorem Written.insert (h : s.streams.get streamName = some stream)
    (he : Extends stream stream') : Written s { s with streams := s.streams.insert streamName stream' } := by
  refine ⟨fun name st hg => ?_, fun name hg => ?_, rfl, rfl, rfl⟩
  · by_cases hn : streamName = name
    · subst hn
      rw [h, some.injEq] at hg
      subst hg
      exact ⟨stream', s.streams.get_insert_self _ _, he⟩
    · refine ⟨st, ?_, .refl st⟩
      rwa [s.streams.get_insert_of_ne _ fun heq => hn (Std.LawfulEqCmp.eq_of_compare heq)]
  · rwa [s.streams.get_insert_of_ne _ fun heq => ?_]
    rw [Std.LawfulEqCmp.eq_of_compare heq, hg] at h
    cases h

theorem putRecord_written (md5 : Hash) (now : ℤ) (s : KinesisState) (streamName : Str)
    (entry : PutEntry) : Written (s.trimExpiredRecordsAt now) (putRecord md5 now s streamName entry).1 := by
  rw [putRecord]
  dsimp only
  split
  · exact .refl _
  · next stream hg =>
    split
    · exact .refl _
    · next hp => exact .insert hg (putEntry_extends hp)

theorem putRecords_written (md5 : Hash) (now : ℤ) (s : KinesisState) (streamName : Str)
    (entries : List PutEntry) :
    Written (s.trimExpiredRecordsAt now) (putRecords md5 now s streamName entries).1 := by
  rw [putRecords]
  split
  · exact .refl _
  · next stream hg =>
    split
    · exact .refl _
    · exact .insert hg (putRecordsEntries_extends stream entries)

theorem Written.distinctIds (h : Written s s') (hi : DistinctIds s) : DistinctIds s' := by
  intro name st hg
  rcases ho : s.streams.get name with _ | stream
  · rw [h.names name ho] at hg
    cases hg
  · obtain ⟨stream', hg', he⟩ := h.streams name stream ho
    rw [hg, some.injEq] at hg'
    subst hg'
    rw [he.ids]
    exact hi name stream ho

theorem Written.at (h : Written s s') {shardId : Str} {shard : KinesisShard}
    (hat : At s streamName shardId stream shard) :
    ∃ stream' shard', At s' streamName shardId stream' shard' ∧ Extends stream stream' ∧
      Grown shard shard' := by
  obtain ⟨stream', hgt, he⟩ := h.streams streamName stream hat.get
  obtain ⟨shard', hf, hg⟩ := he.findShard hat.find
  exact ⟨stream', shard', ⟨hgt, hf⟩, he, hg⟩

theorem Written.of_at (h : Written s s') {shardId : Str} {shard' : KinesisShard}
    (hat : At s' streamName shardId stream' shard') :
    ∃ stream shard, At s streamName shardId stream shard ∧ Extends stream stream' ∧ Grown shard shard' := by
  rcases ho : s.streams.get streamName with _ | stream
  · have hn := h.names streamName ho
    rw [hat.get] at hn
    cases hn
  · obtain ⟨stream'', hgt, he⟩ := h.streams streamName stream ho
    rw [hat.get, some.injEq] at hgt
    subst hgt
    obtain ⟨shard, hf, hg⟩ := he.findShard_of hat.find
    exact ⟨stream, shard, ⟨ho, hf⟩, he, hg⟩

end Put

end Fakecloud.Kinesis

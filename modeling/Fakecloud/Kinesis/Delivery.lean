import Fakecloud.Kinesis.Poller

/-!
# Kinesis: when delivery skips nothing

The invariant of a run (`Covers`): what is below a checkpoint has been handled, and a batch in flight whose
shard has lost nothing still lies behind records that have been handled.  A batch is written back by its
index, so the invariant is lost when retention renumbers the shard in between (`Example.late_record_skipped`).
-/

namespace Fakecloud.Kinesis

open Text List Option KinesisState OrdMap

/-! ## Names -/

/-- The ids of the shards of a stream are distinct, and a checkpoint key ends with the id. -/
structure WellNamed (s : KinesisState) : Prop where
  distinct : DistinctIds s
  plain : ∀ streamName stream, s.streams.get streamName = some stream →
    ∀ shard ∈ stream.shards, ':' ∉ shard.shardId

theorem colon_not_mem_shardIdOf (i : ℕ) : ':' ∉ shardIdOf i := by
  intro h
  rcases mem_append.mp h with h | h
  · exact absurd h (by decide)
  · exact not_mem_zeroPad (by decide) 12 i h

theorem wellNamed_of_sound {s : KinesisState}
    (h : ∀ streamName stream, s.streams.get streamName = some stream → SoundStream stream) : WellNamed s where
  distinct := fun name stream hg => (h name stream hg).shards.nodup
  plain := fun name stream hg shard hs => by
    obtain ⟨i, -, hid⟩ := (h name stream hg).shards.given shard hs
    rw [hid]
    exact colon_not_mem_shardIdOf i

section Names

variable {s s' : KinesisState} {streamName shardId : Str} {stream : KinesisStream} {shard : KinesisShard}

theorem afterLastColon_checkpointKey (uuid : Str) {shardId : Str} (h : ':' ∉ shardId) :
    afterLastColon (checkpointKey uuid shardId) = some shardId := by
  have hc : splitOnce ':' (shardId.reverse ++ ':' :: uuid.reverse) =
      some (shardId.reverse, uuid.reverse) := splitOnce_append (by simpa using h)
  rw [afterLastColon, checkpointKey, reverse_append, reverse_cons, append_assoc,
    singleton_append, hc, map_some, reverse_reverse]

theorem WellNamed.trim (h : WellNamed s) (now : ℤ) : WellNamed (s.trimExpiredRecordsAt now) where
  distinct := h.distinct.trim now
  plain := by
    intro name stream' hg shard' hs'
    rw [trimExpiredRecordsAt, get_mapValues] at hg
    obtain ⟨stream, hst, rfl⟩ := map_eq_some_iff.mp hg
    obtain ⟨shard, hs, rfl⟩ := mem_map.mp hs'
    exact h.plain name stream hst shard hs

theorem WellNamed.written (h : WellNamed s) (hw : Written s s') : WellNamed s' where
  distinct := hw.distinctIds h.distinct
  plain := by
    intro name st hg sh hsh
    rcases ho : s.streams.get name with _ | old
    · rw [hw.names name ho] at hg
      cases hg
    · obtain ⟨st', hg', he⟩ := hw.streams name old ho
      rw [hg, some.injEq] at hg'
      subst hg'
      have hm : sh.shardId ∈ old.shards.map KinesisShard.shardId := by
        rw [← he.ids]
        exact mem_map_of_mem hsh
      obtain ⟨sh', hsh', hid⟩ := mem_map.mp hm
      rw [← hid]
      exact h.plain name old ho sh' hsh'

theorem WellNamed.at (h : WellNamed s) (hg : s.streams.get streamName = some stream)
    (hs : shard ∈ stream.shards) : At s streamName shard.shardId stream shard := by
  have hsm : (findShard stream shard.shardId).isSome := find?_isSome.mpr ⟨shard, hs, by simp⟩
  obtain ⟨shard', hf⟩ := isSome_iff_exists.mp hsm
  obtain ⟨hm, hid⟩ := findShard_some hf
  rw [inj_on_of_nodup_map (h.distinct _ _ hg) hm hs hid] at hf
  exact ⟨hg, hf⟩

/-- **A trim moves a checkpoint at least by what its shard loses.** -/
theorem lambdaCheckpoint_trim_le (h : WellNamed s) (hat : At s streamName shardId stream shard)
    (uuid : Str) (now : ℤ) : (s.trimExpiredRecordsAt now).lambdaCheckpoint uuid shardId ≤
      s.lambdaCheckpoint uuid shardId - trimCount (stream.cutoff now) shard.records := by
  obtain ⟨hm, hid⟩ := findShard_some hat.find
  have hp : ':' ∉ shardId := hid ▸ h.plain _ _ hat.get _ hm
  rw [lambdaCheckpoint, (get_trim s now [] (checkpointKey uuid shardId)).2, lambdaCheckpoint]
  rcases s.lambdaCheckpoints.get (checkpointKey uuid shardId) with _ | offset
  · exact Nat.zero_le _
  · show movedCheckpoint .. ≤ _
    rw [movedCheckpoint_eq now h.distinct (afterLastColon_checkpointKey uuid hp), ← lostBy_eq hat]
    exact Nat.sub_le_sub_left (le_sum_of_mem (mem_map.mpr
      ⟨_, mem_entries.mpr hat.get, rfl⟩)) offset

theorem sum_lostBy (s : KinesisState) (now : ℤ) (streamName shardId : Str) :
    ∃ others, (s.streams.entries.map fun e => lostBy s now e.1 shardId).sum =
        lostBy s now streamName shardId + others ∧
      (others = 0 ↔ ∀ name, name ≠ streamName → lostBy s now name shardId = 0) := by
  refine ⟨(s.streams.entries.map fun e =>
    if e.1 = streamName then 0 else lostBy s now e.1 shardId).sum, ?_, ?_⟩
  · rw [← sum_streams, ← sum_map_add]
    refine congrArg List.sum (map_congr_left fun e _ => ?_)
    split_ifs <;> simp
  · rw [sum_eq_zero_iff, List.forall_mem_map]
    constructor
    · intro h name hn
      rcases hg : s.streams.get name with _ | stream
      · exact lostBy_eq_zero hg
      · simpa [hn] using h _ (mem_entries.mpr hg)
    · intro h e _
      split_ifs with hn
      · rfl
      · exact h e.1 hn

/-- **A trim moves the offsets into a shard by what the shard has lost**: a lease always, a checkpoint exactly
when it goes to the start anyway or no shard of another stream with the same id loses a record. -/
theorem trim_offsets_iff (h : WellNamed s) (now : ℤ) :
    (∀ token lease, s.iterators.get token = some lease →
      (s.trimExpiredRecordsAt now).iterators.get token = some { lease with
        nextRecordIndex := lease.nextRecordIndex - lostBy s now lease.streamName lease.shardId }) ∧
    ∀ (m : Mapping) shardId offset, ':' ∉ shardId →
      s.lambdaCheckpoints.get (checkpointKey m.uuid shardId) = some offset →
      ((s.trimExpiredRecordsAt now).lambdaCheckpoints.get (checkpointKey m.uuid shardId) =
          some (offset - lostBy s now m.streamName shardId) ↔
        offset ≤ lostBy s now m.streamName shardId ∨
          ∀ name, name ≠ m.streamName → lostBy s now name shardId = 0) := by
  constructor
  · intro token lease hl
    rw [(get_trim s now token []).1, hl, map_some, moved_eq now h.distinct]
  · intro m shardId offset hp ho
    obtain ⟨others, hs, hz⟩ := sum_lostBy s now m.streamName shardId
    rw [(get_trim s now [] _).2, ho, map_some, some.injEq,
      movedCheckpoint_eq now h.distinct (afterLastColon_checkpointKey m.uuid hp), ← hz]
    omega

theorem lambdaCheckpoint_set (s : KinesisState) (uuid shardId shardId' : Str) (offset : ℕ) :
    (s.setLambdaCheckpoint uuid shardId offset).lambdaCheckpoint uuid shardId' =
      if shardId = shardId' then offset else s.lambdaCheckpoint uuid shardId' := by
  rw [lambdaCheckpoint, setLambdaCheckpoint]
  split
  · next heq => rw [heq, get_insert_self, getD_some]
  · next hne =>
    rw [get_insert_of_ne _ _ fun heq => hne ?_, lambdaCheckpoint]
    have hk : uuid ++ ':' :: shardId = uuid ++ ':' :: shardId' := Std.LawfulEqCmp.eq_of_compare heq
    exact tail_eq_of_cons_eq (append_cancel_left hk)

end Names

/-! ## The invariant -/

/-- The batch lies behind records that have been handled. -/
def InPlace (handled : List (Str × KinesisRecord)) (d : Delivery) (records : List KinesisRecord) : Prop :=
  ∃ done, done.length = d.start ∧ (∀ r ∈ done, (d.shardId, r) ∈ handled) ∧
    done ++ d.records <+: records

structure Covers (m : Mapping) (x : Polling) : Prop where
  named : WellNamed x.state
  within : ∀ shardId stream shard, At x.state m.streamName shardId stream shard →
    x.state.lambdaCheckpoint m.uuid shardId ≤ shard.records.length
  covered : ∀ shardId stream shard, At x.state m.streamName shardId stream shard →
    ∀ r ∈ shard.records.take (x.state.lambdaCheckpoint m.uuid shardId), (shardId, r) ∈ x.handled
  ends : ∀ b ∈ x.inFlight, b.endIndex = b.start + b.records.length
  inPlace : ∀ b ∈ x.inFlight, b.gone = 0 → ∀ stream shard,
    At x.state m.streamName b.shardId stream shard → InPlace x.handled b.toDelivery shard.records

section Steps

variable {m : Mapping} {x : Polling} {s : KinesisState}

theorem Covers.nothingSkipped (h : Covers m x) : NothingSkipped m x := by
  intro stream hg shard hs r hr
  exact h.covered shard.shardId stream shard (h.named.at hg hs) r hr

theorem Covers.trim (h : Covers m x) (now : ℤ) :
    Covers m (x.after m now (x.state.trimExpiredRecordsAt now)) where
  named := h.named.trim now
  within := by
    intro shardId stream' shard' hat'
    obtain ⟨stream, shard, hat, rfl, rfl⟩ := hat'.of_trim
    have hle := lambdaCheckpoint_trim_le h.named hat m.uuid now
    have hw := h.within shardId stream shard hat
    rw [KinesisShard.trim]
    dsimp only [Polling.after]
    rw [length_drop]
    omega
  covered := by
    intro shardId stream' shard' hat' r hr
    obtain ⟨stream, shard, hat, rfl, rfl⟩ := hat'.of_trim
    refine h.covered shardId stream shard hat r ?_
    have hle := lambdaCheckpoint_trim_le h.named hat m.uuid now
    have hr' := (take_sublist_take_left hle).mem hr
    rw [KinesisShard.trim, ← drop_take] at hr'
    exact mem_of_mem_drop hr'
  ends := by
    intro b' hb'
    obtain ⟨b, hb, rfl⟩ := mem_map.mp hb'
    exact h.ends b hb
  inPlace := by
    intro b' hb' hg stream' shard' hat'
    obtain ⟨b, hb, rfl⟩ := mem_map.mp hb'
    obtain ⟨stream, shard, hat, rfl, rfl⟩ := hat'.of_trim
    -- a shard that has lost nothing is the same
    rw [lostBy_eq hat] at hg
    rw [KinesisShard.trim, Nat.eq_zero_of_add_eq_zero_left hg]
    exact h.inPlace b hb (Nat.eq_zero_of_add_eq_zero_right hg) stream shard hat

theorem Covers.written (h : Covers m x) (hw : Written x.state s) : Covers m { x with state := s } := by
  have hs : ∀ shardId, s.lambdaCheckpoint m.uuid shardId = x.state.lambdaCheckpoint m.uuid shardId :=
    fun shardId => by rw [lambdaCheckpoint, hw.lambdaCheckpoints, lambdaCheckpoint]
  exact {
    named := h.named.written hw
    within := by
      intro shardId stream' shard' hat'
      obtain ⟨stream, shard, hat, -, hg⟩ := hw.of_at hat'
      obtain ⟨new, hn⟩ := hg.records
      have hwt := h.within shardId stream shard hat
      rw [hs shardId, hn, length_append]
      omega
    covered := by
      intro shardId stream' shard' hat' r hr
      obtain ⟨stream, shard, hat, -, hg⟩ := hw.of_at hat'
      obtain ⟨new, hn⟩ := hg.records
      -- the new records are above the checkpoint
      rw [hs shardId, hn, take_append_of_le_length (h.within shardId stream shard hat)] at hr
      exact h.covered shardId stream shard hat r hr
    ends := h.ends
    inPlace := by
      intro b hb hgn stream' shard' hat'
      obtain ⟨stream, shard, hat, -, hg⟩ := hw.of_at hat'
      obtain ⟨new, hn⟩ := hg.records
      obtain ⟨done, hl, hd, hp⟩ := h.inPlace b hb hgn stream shard hat
      rw [hn]
      exact ⟨done, hl, hd, hp.trans (prefix_append _ _)⟩ }

/-! ## The poller's steps -/

/-- What an invocation settles is the front of the batch. -/
theorem settled_prefix (m : Mapping) (d : Delivery) (outcome : Outcome) :
    m.settled d outcome <+: d.records := by
  unfold Mapping.settled
  repeat' split
  all_goals first
    | exact prefix_rfl
    | exact nil_prefix
    | exact take_prefix _ _

theorem firstFailedIndex_lt {body : Option Json} {seqs : List Str} {idx : ℕ}
    (h : firstFailedIndex body seqs = some idx) : idx < seqs.length := by
  rw [firstFailedIndex] at h
  split at h
  · cases h
  · dsimp only at h
    split at h
    · cases h
    · exact (findIdx?_eq_some_iff_getElem.mp h).1

variable {d : Delivery} {handled : List (Str × KinesisRecord)} {records : List KinesisRecord}

/-- **The checkpoint that is written is the end of what has been settled**, by its index. -/
theorem deliver_eq (m : Mapping) (s : KinesisState)
    (he : d.endIndex = d.start + d.records.length) (outcome : Outcome) : deliver m s d outcome = s ∨
      deliver m s d outcome = s.setLambdaCheckpoint m.uuid d.shardId
        (d.start + (m.settled d outcome).length) := by
  unfold deliver Mapping.settled
  by_cases hm : (m.matched d).isEmpty
  · rw [if_pos hm, if_pos hm, he]
    exact .inr rfl
  rw [if_neg hm, if_neg hm]
  cases outcome with
  | recorded => exact .inr (by rw [Mapping.advanceTo, he])
  | failed => exact .inl rfl
  | replied body =>
    right
    rw [Mapping.advanceTo]
    dsimp only
    by_cases hr : m.reportBatchItemFailures
    · rw [if_pos hr, if_pos hr]
      rcases hi : firstFailedIndex body (d.records.map KinesisRecord.sequenceNumber) with _ | idx
      · rw [he]
      · have hlt := firstFailedIndex_lt hi
        rw [length_map] at hlt
        rw [length_take, Nat.min_eq_left hlt.le]
    · rw [if_neg hr, if_neg hr, he]

theorem InPlace.mono (h : InPlace handled d records) (more : List (Str × KinesisRecord)) :
    InPlace (handled ++ more) d records := by
  obtain ⟨done, hl, hd, hp⟩ := h
  exact ⟨done, hl, fun r hr => mem_append_left _ (hd r hr), hp⟩

theorem InPlace.covered {settled : List KinesisRecord} (h : InPlace handled d records)
    (hs : settled <+: d.records) : d.start + settled.length ≤ records.length ∧
      ∀ r ∈ records.take (d.start + settled.length),
        (d.shardId, r) ∈ handled ++ settled.map fun r => (d.shardId, r) := by
  obtain ⟨done, hln, hd, hp⟩ := h
  have hf : done ++ settled <+: records := ((prefix_append_right_inj done).mpr hs).trans hp
  have hl : (done ++ settled).length = d.start + settled.length := by
    rw [length_append, hln]
  refine ⟨hl ▸ hf.length_le, fun r hr => ?_⟩
  rw [← hl, ← prefix_iff_eq_take.mp hf] at hr
  rcases mem_append.mp hr with hr | hr
  · exact mem_append_left _ (hd r hr)
  · exact mem_append_right _ (mem_map_of_mem hr)

/-- **The second critical section**, for a batch that is still in place. -/
theorem Covers.deliver {b : InFlight} {rest : List InFlight} (h : Covers m x)
    (hin : x.inFlight = b :: rest) (hg : b.gone = 0) (outcome : Outcome) : Covers m
      { state := Kinesis.deliver m x.state b.toDelivery outcome
        inFlight := rest
        handled := x.handled ++ (m.settled b.toDelivery outcome).map fun r => (b.shardId, r) } := by
  have hb : b ∈ x.inFlight := hin ▸ mem_cons_self
  have hrs : ∀ b' ∈ rest, b' ∈ x.inFlight := fun b' hb' => hin ▸ mem_cons_of_mem _ hb'
  have hs := settled_prefix m b.toDelivery outcome
  rcases deliver_eq m x.state (h.ends b hb) outcome with heq | heq
  · rw [heq]
    exact {
      named := h.named
      within := h.within
      covered := fun shardId stream shard hat r hr =>
        mem_append_left _ (h.covered shardId stream shard hat r hr)
      ends := fun b' hb' => h.ends b' (hrs b' hb')
      inPlace := fun b' hb' hg' stream shard hat =>
        (h.inPlace b' (hrs b' hb') hg' stream shard hat).mono _ }
  · rw [heq]
    have hp : ∀ shardId stream shard, b.shardId = shardId → At x.state m.streamName shardId stream shard →
        InPlace x.handled b.toDelivery shard.records := by
      rintro _ stream shard rfl hat
      exact h.inPlace b hb hg stream shard hat
    exact {
      named := ⟨h.named.distinct, h.named.plain⟩
      within := by
        intro shardId stream shard hat
        have hat' : At x.state m.streamName shardId stream shard := ⟨hat.get, hat.find⟩
        rw [lambdaCheckpoint_set]
        split
        · next hid => exact ((hp shardId stream shard hid hat').covered hs).1
        · exact h.within shardId stream shard hat'
      covered := by
        intro shardId stream shard hat r hr
        have hat' : At x.state m.streamName shardId stream shard := ⟨hat.get, hat.find⟩
        rw [lambdaCheckpoint_set] at hr
        split at hr
        · next hid =>
          have hc := ((hp shardId stream shard hid hat').covered hs).2 r hr
          rw [← hid]
          exact hc
        · exact mem_append_left _ (h.covered shardId stream shard hat' r hr)
      ends := fun b' hb' => h.ends b' (hrs b' hb')
      inPlace := fun b' hb' hg' stream shard hat =>
        (h.inPlace b' (hrs b' hb') hg' stream shard ⟨hat.get, hat.find⟩).mono _ }

theorem batchOf_inPlace {shard : KinesisShard} (h : batchOf m s shard = some d) :
    d.shardId = shard.shardId ∧ d.start = s.lambdaCheckpoint m.uuid shard.shardId ∧
      d.endIndex = d.start + d.records.length ∧ shard.records.take d.start ++ d.records <+: shard.records ∧
      (shard.records.take d.start).length = d.start := by
  rw [batchOf] at h
  split at h
  · cases h
  next hlt =>
  cases h
  dsimp only
  generalize s.lambdaCheckpoint m.uuid shard.shardId = start at hlt
  have he : start ≤ min shard.records.length (start + (max m.batchSize 1).toNat) := by omega
  refine ⟨rfl, rfl, ?_, ?_, ?_⟩
  · rw [length_drop, length_take]
    omega
  · have ht : (shard.records.take (min shard.records.length (start + (max m.batchSize 1).toNat))).take
        start = shard.records.take start := by
      rw [take_take, Nat.min_eq_left he]
    rw [← ht, take_append_drop]
    exact take_prefix _ _
  · rw [length_take]
    omega

variable (hst : m.startingPosition = .trimHorizon)
include hst

/-- At the trim horizon, a checkpoint that is set once is where a missing one is. -/
theorem seedCheckpoints_spec (s : KinesisState) (stream : KinesisStream) :
    (seedCheckpoints m s stream).streams = s.streams ∧
      ∀ shardId, (seedCheckpoints m s stream).lambdaCheckpoint m.uuid shardId =
        s.lambdaCheckpoint m.uuid shardId := by
  unfold seedCheckpoints
  generalize hp : stream.shards.filterMap _ = pairs
  have hz : ∀ pair ∈ pairs, pair.2 = 0 ∧ s.lambdaCheckpoint m.uuid pair.1 = 0 := by
    intro pair hpr
    rw [← hp] at hpr
    obtain ⟨shard, -, hsh⟩ := mem_filterMap.mp hpr
    rcases hg : s.lambdaCheckpoints.get (checkpointKey m.uuid shard.shardId) with _ | offset
    · rw [hg] at hsh
      cases hsh
      refine ⟨by rw [Mapping.initialCheckpoint, hst], ?_⟩
      rw [lambdaCheckpoint, hg, getD_none]
    · rw [hg] at hsh
      cases hsh
  -- each pair leaves every checkpoint where it is
  suffices hf : ∀ s' : KinesisState, s'.streams = s.streams →
      (∀ shardId, s'.lambdaCheckpoint m.uuid shardId = s.lambdaCheckpoint m.uuid shardId) →
      (pairs.foldl (fun s pair => s.setLambdaCheckpoint m.uuid pair.1 pair.2) s').streams = s.streams ∧
        ∀ shardId, (pairs.foldl (fun s pair => s.setLambdaCheckpoint m.uuid pair.1 pair.2)
          s').lambdaCheckpoint m.uuid shardId = s.lambdaCheckpoint m.uuid shardId from
    hf s rfl fun _ => rfl
  clear hp
  induction pairs with
  | nil => exact fun s' hs hsm => ⟨hs, hsm⟩
  | cons pair pairs ih =>
    intro s' hs hsm
    obtain ⟨hpr, hp⟩ := forall_mem_cons.mp hz
    refine ih hp _ hs fun shardId => ?_
    rw [lambdaCheckpoint_set]
    split
    · next hid => rw [← hid, hpr.2, hpr.1]
    · exact hsm shardId

/-- **The first critical section.** -/
theorem Covers.collect (h : Covers m x) : Covers m
      { x with
        state := (Kinesis.collect m x.state).1
        inFlight := (Kinesis.collect m x.state).2.map fun d => ⟨d, 0⟩ } := by
  rw [Kinesis.collect]
  rcases hg : x.state.streams.get m.streamName with _ | stream
  · exact { h with ends := fun b hb => by simp at hb, inPlace := fun b hb => by simp at hb }
  obtain ⟨hs, hsm⟩ := seedCheckpoints_spec hst x.state stream
  dsimp only
  generalize seedCheckpoints m x.state stream = s at hs hsm
  have hat : ∀ {shardId stream shard}, At s m.streamName shardId stream shard →
      At x.state m.streamName shardId stream shard := fun hat =>
    ⟨hs ▸ hat.get, hat.find⟩
  have hbt : ∀ b ∈ ((stream.shards.filterMap (batchOf m s)).map fun d => (⟨d, 0⟩ : InFlight)),
      ∃ shard ∈ stream.shards, batchOf m s shard = some b.toDelivery := by
    intro b hb
    obtain ⟨d, hd, rfl⟩ := mem_map.mp hb
    obtain ⟨shard, hsh, hbt⟩ := mem_filterMap.mp hd
    exact ⟨shard, hsh, hbt⟩
  exact {
    named := ⟨fun name st hst => h.named.distinct name st (hs ▸ hst),
      fun name st hst => h.named.plain name st (hs ▸ hst)⟩
    within := fun shardId st sh hat' => by
      rw [hsm]
      exact h.within shardId st sh (hat hat')
    covered := fun shardId st sh hat' r hr => by
      rw [hsm] at hr
      exact h.covered shardId st sh (hat hat') r hr
    ends := fun b hb => by
      obtain ⟨shard, -, hd⟩ := hbt b hb
      exact (batchOf_inPlace hd).2.2.1
    inPlace := fun b hb _ st sh hat' => by
      obtain ⟨shard, hsh, hd⟩ := hbt b hb
      obtain ⟨hid, hc, -, hp, hl⟩ := batchOf_inPlace hd
      -- the batch is of the shard that is found by its id
      have hf := h.named.at hg hsh
      rw [← hid] at hf
      obtain rfl : stream = st := some.inj (hf.get.symm.trans (hat hat').get)
      obtain rfl : shard = sh := some.inj (hf.find.symm.trans (hat hat').find)
      refine ⟨_, hl, fun r hr => ?_, hp⟩
      rw [hc, ← hid, hsm] at hr
      exact h.covered b.shardId stream shard hf r hr }

theorem Covers.step (md5 : Hash) (h : Covers m x) {event : PollEvent}
    (hc : ∀ outcome, event = .deliver outcome → ∀ b ∈ x.inFlight.head?, b.gone = 0) :
    Covers m (x.step md5 m event) := by
  cases event with
  | putRecord now name entry => exact (h.trim now).written (putRecord_written md5 now x.state name entry)
  | putRecords now name entries =>
    exact (h.trim now).written (putRecords_written md5 now x.state name entries)
  | trim now => exact h.trim now
  | collect =>
    rw [Polling.step]
    split
    · exact h.collect hst
    · exact h
  | deliver outcome =>
    rw [Polling.step]
    split
    · exact h
    · next b rest hin => exact h.deliver hin (hc outcome rfl b (by rw [hin]; rfl)) outcome

theorem Covers.run (md5 : Hash) (h : Covers m x) {events : List PollEvent} (hc : Undisturbed md5 m x events) :
    Covers m (x.run md5 m events) := by
  induction events generalizing x with
  | nil => exact h
  | cons event events ih => exact ih (h.step hst md5 hc.1) hc.2

end Steps

/-- A poller that has not read anything. -/
def Polling.start (s : KinesisState) : Polling := ⟨s, [], []⟩

/-- **Delivery skips nothing while no shard loses a record between the two critical sections.**  The
mapping starts at the trim horizon of streams that the calls have made and has no checkpoint yet; whatever
is written, taken off, read and delivered then, every record below the checkpoint of its shard was in a
batch that the filter dropped or that was delivered, before the first record reported as failed. -/
theorem nothing_skipped (md5 : Hash) (m : Mapping) (s : KinesisState)
    (hstart : m.startingPosition = .trimHorizon) (hnamed : WellNamed s)
    (hnew : ∀ shardId, s.lambdaCheckpoints.get (checkpointKey m.uuid shardId) = none)
    (events : List PollEvent) (hcond : Undisturbed md5 m (.start s) events) :
    NothingSkipped m ((Polling.start s).run md5 m events) := by
  have hz : ∀ shardId, s.lambdaCheckpoint m.uuid shardId = 0 := fun shardId => by
    rw [lambdaCheckpoint, hnew, getD_none]
  have hi : Covers m (.start s) := {
    named := hnamed
    within := fun shardId stream shard _ => by
      rw [Polling.start, hz]
      exact Nat.zero_le _
    covered := fun shardId stream shard _ r hr => by
      rw [Polling.start, hz] at hr
      cases hr
    ends := nofun
    inPlace := nofun }
  exact (hi.run hstart md5 hcond).nothingSkipped

namespace Example

def oneShard : KinesisStream := ⟨24, 1, 1, buildStreamShards 1, 1, none, .userPartitionKey, 0⟩

def fresh : KinesisState := ⟨"123456789012", OrdMap.empty.insert "orders" oneShard, .empty, 0, .empty⟩

def mapping : Mapping := ⟨"8ee6d1b4", "orders", 100, none, .trimHorizon, false⟩

def order : PutEntry := ⟨some "k", some "YQ==", none⟩

/-- A batch of one record is read; before it is delivered, its record is past the retention period and
the next one is written. -/
def overtaken : List PollEvent :=
  [.putRecord 0 "orders" order, .collect, .putRecord (hours 25) "orders" order, .deliver .recorded]

/-- The record that is written last, and the shard in the end. -/
def late : KinesisRecord := ⟨zeroPad 5 0 ++ zeroPad 51 2, "k", [97], hours 25⟩

def shardInTheEnd : KinesisShard :=
  ⟨shardIdOf 0, 0, maxHashKey, none, none, true, 3, [late]⟩

theorem wellNamed : WellNamed fresh := by
  refine wellNamed_of_sound fun name stream hg => ?_
  obtain ⟨name', hm, -⟩ := get_eq_some _ |>.mp hg
  obtain ⟨-, rfl⟩ := Prod.mk.inj (mem_singleton.mp hm)
  exact @createStream_sound _ 1 false none .userPartitionKey rfl

/-- **A record is skipped**: the checkpoint is written by its old index, past the record that has taken
the place of the delivered one. -/
theorem late_record_skipped : WellNamed fresh ∧
    (∀ shardId, fresh.lambdaCheckpoints.get (checkpointKey mapping.uuid shardId) = none) ∧
    ¬ NothingSkipped mapping ((Polling.start fresh).run (fun _ => 0) mapping overtaken) := by
  refine ⟨wellNamed, fun _ => rfl, fun h => ?_⟩
  have hl := h { oneShard with shards := [shardInTheEnd] } (by decide +kernel) shardInTheEnd
    (mem_singleton_self _) late (by decide +kernel)
  exact absurd hl (by decide +kernel)

/-- The account with a second stream; the record of the first one has been delivered. -/
def twoStreams : KinesisState :=
  ((Polling.start { fresh with streams := fresh.streams.insert "logs" oneShard }).run (fun _ => 0) mapping
    [.putRecord 0 "logs" order, .putRecord (hours 20) "orders" order, .collect, .deliver .recorded]).state

/-- The other stream loses a record, and the delivered one is delivered again. -/
theorem checkpoint_moved_by_other :
    twoStreams.lambdaCheckpoints.get (checkpointKey mapping.uuid (shardIdOf 0)) = some 1 ∧
    lostBy twoStreams (hours 25) mapping.streamName (shardIdOf 0) = 0 ∧
    (twoStreams.trimExpiredRecordsAt (hours 25)).lambdaCheckpoints.get
      (checkpointKey mapping.uuid (shardIdOf 0)) =
      some 0 := by
  decide +kernel

def agingStream : KinesisStream :=
  { oneShard with shards :=
    [{ shardInTheEnd with records := [⟨zeroPad 5 0 ++ zeroPad 51 1, "k", [97], 0⟩, late] }] }

/-- Both records have been delivered, and the first of them is past the retention period. -/
def aging : KinesisState :=
  { fresh with
    streams := OrdMap.empty.insert "orders" agingStream
    lambdaCheckpoints := OrdMap.empty.insert (checkpointKey mapping.uuid (shardIdOf 0)) 2 }

theorem wellNamed_aging : WellNamed aging := by
  have hs {name : Str} {stream : KinesisStream} (hg : aging.streams.get name = some stream) :
      stream = agingStream := by
    obtain ⟨name', hm, -⟩ := get_eq_some _ |>.mp hg
    exact (Prod.mk.inj (mem_singleton.mp hm)).2
  refine ⟨fun name stream hg => ?_, fun name stream hg shard hm => ?_⟩
  · rw [hs hg]
    exact nodup_singleton _
  · rw [hs hg] at hm
    rw [mem_singleton.mp hm]
    exact colon_not_mem_shardIdOf 0

/-- There is no other stream. -/
theorem trim_offsets_alone : lostBy aging (hours 25) mapping.streamName (shardIdOf 0) = 1 ∧
    (aging.trimExpiredRecordsAt (hours 25)).lambdaCheckpoints.get (checkpointKey mapping.uuid (shardIdOf 0)) =
      some 1 := by
  have hl : lostBy aging (hours 25) mapping.streamName (shardIdOf 0) = 1 := by decide +kernel
  have ht := ((trim_offsets_iff wellNamed_aging (hours 25)).2 mapping (shardIdOf 0) 2
    (colon_not_mem_shardIdOf 0) (get_insert_self ..)).mpr (.inr fun name hnm => lostBy_eq_zero
      (get_insert_of_ne _ _ fun heq => hnm (Std.LawfulEqCmp.eq_of_compare heq).symm))
  rw [hl] at ht
  exact ⟨hl, ht⟩

end Example

/-- Without the second write the batch is settled in its place. -/
theorem nothing_skipped_delivered :
    NothingSkipped Example.mapping ((Polling.start Example.fresh).run (fun _ => 0) Example.mapping
      [.putRecord 0 "orders" Example.order, .collect, .deliver .recorded]) :=
  nothing_skipped (fun _ => 0) Example.mapping Example.fresh rfl Example.wellNamed (fun _ => rfl) _
    ⟨nofun, nofun, fun _ _ => by decide +kernel, trivial⟩

end Fakecloud.Kinesis

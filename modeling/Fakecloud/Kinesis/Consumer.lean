import Fakecloud.Kinesis.Offsets

/-!
# Kinesis: a consumer reads each record once

A consumer starts with a shard iterator and goes on with the one that each page returns, while producers
write, retention takes records off and other consumers read.

* `Session` — the account together with what the consumer has;
* `Follows` — what the consumer has received is the log up to its lease, without records that were past
  the retention period, and the lease is there until it expires;
* `reads_each_once` — this holds after every run.
-/

namespace Fakecloud.Kinesis

open Text Retained List Option

/-! ## Sessions -/

def recordsAt (s : KinesisState) (streamName shardId : Str) : List KinesisRecord :=
  (((s.streams.get streamName).bind fun stream => findShard stream shardId).map
    KinesisShard.records).getD []

structure Session where
  state : KinesisState
  /-- The iterator for the next page; none once the shard is closed and has been read. -/
  token : Option Str
  received : List KinesisRecord
  /-- The records of the shard from the starting position on, as they have been appended. -/
  log : List KinesisRecord
  moments : List ℤ
  /-- When the token was given out, and the moments since then. -/
  givenAt : ℤ
  since : List ℤ

/-- No moment since the token was given out is past its lease. -/
def Session.Unexpired (x : Session) : Prop := ∀ t ∈ x.since, t ≤ x.givenAt + leaseLifetime

/-- What happens to the account; `read` is the consumer's own call. -/
inductive Call
  | putRecord (streamName : Str) (entry : PutEntry)
  | putRecords (streamName : Str) (entries : List PutEntry)
  | trim
  | getShardIterator (streamName : Str) (shardId : Option Str) (iteratorType : Option IteratorType)
  | getRecords (iterator : Option Str) (limit : Option ℤ)
  | read (limit : Option ℤ)

section Runs

variable (md5 : Hash) (streamName shardId : Str)

/-- The state after a write, and what it has added to the shard. -/
def Session.write (x : Session) (now : ℤ) (s : KinesisState) : Session :=
  let before := recordsAt (x.state.trimExpiredRecordsAt now) streamName shardId
  { x with state := s, log := x.log ++ (recordsAt s streamName shardId).drop before.length }

def Session.call (x : Session) (now : ℤ) : Call → Session
  | .putRecord name entry => x.write streamName shardId now (putRecord md5 now x.state name entry).1
  | .putRecords name entries =>
    x.write streamName shardId now (putRecords md5 now x.state name entries).1
  | .trim => { x with state := x.state.trimExpiredRecordsAt now }
  | .getShardIterator name shard iteratorType =>
    { x with state := (Kinesis.getShardIterator now x.state name shard iteratorType).1 }
  | .getRecords iterator limit => { x with state := (Kinesis.getRecords now x.state iterator limit).1 }
  | .read limit =>
    match Kinesis.getRecords now x.state x.token limit with
    | (s, .ok page) =>
      { x with
        state := s
        token := page.nextShardIterator
        received := x.received ++ page.records
        givenAt := now
        since := [] }
    | (s, .error _) => { x with state := s }

def Session.step (x : Session) (event : ℤ × Call) : Session :=
  let y := x.call md5 streamName shardId event.1 event.2
  { y with moments := y.moments ++ [event.1], since := y.since ++ [event.1] }

/-- A run ends when the consumer is told that the shard has been read to its end. -/
def Session.run (x : Session) : List (ℤ × Call) → Session
  | [] => x
  | event :: events =>
    if x.token = none then x else Session.run (x.step md5 streamName shardId event) events

def Session.start (now : ℤ) (s : KinesisState) (iteratorType : IteratorType) : Option Session :=
  match s.streams.get streamName with
  | none => none
  | some stream =>
    match findShard stream shardId with
    | none => none
    | some shard =>
      match shardIteratorStartIndex shard iteratorType,
        getShardIterator now s streamName (some shardId) (some iteratorType) with
      | .ok index, (s, .ok token) => some ⟨s, some token, [], shard.records.drop index, [], now, []⟩
      | _, _ => none

end Runs

/-- A record was past the retention period at one of the moments. -/
def WasExpired (retentionHours : ℤ) (moments : List ℤ) (r : KinesisRecord) : Prop :=
  ∃ t ∈ moments, r.approximateArrivalTimestamp < t - hours retentionHours

/-! ## Tokens are given out once -/

/-- A token that the account has given out. -/
def Issued (s : KinesisState) (token : Str) : Prop :=
  ∃ front, ∃ n ≤ s.iteratorCounter, token = front ++ ':' :: decimalText n

theorem colon_not_mem_decimalText (n : ℕ) : ':' ∉ decimalText n := not_mem_zeroPad (by decide) 1 n

variable {s : KinesisState} {token : Str} {n index : ℕ} {lease : ShardIteratorLease} {shard : KinesisShard}
  {iteratorType : IteratorType} {limit : Option ℤ} {streamName : Str} {retentionHours : ℤ} {x : Session}

/-- **A new token is not one of the old ones.** -/
theorem iteratorToken_ne (h : Issued s token) (streamName shardId : Str) (index : ℕ) (now : ℤ) :
    iteratorToken streamName shardId index now (s.iteratorCounter + 1) ≠ token := by
  obtain ⟨front, n, hn, rfl⟩ := h
  intro heq
  have hc := append_cons_inj_right (colon_not_mem_decimalText _) (colon_not_mem_decimalText _) heq
  have := zeroPad_injective 1 hc.2
  omega

section Leases

variable (now : ℤ) (s : KinesisState)

theorem issued_insertIterator (streamName shardId : Str) (index : ℕ) :
    Issued (insertIterator now s streamName shardId index).2
      (insertIterator now s streamName shardId index).1 := ⟨_, _, le_rfl, rfl⟩

theorem get_insertIterator_self (streamName shardId : Str) (index : ℕ) :
    (insertIterator now s streamName shardId index).2.iterators.get
        (insertIterator now s streamName shardId index).1 =
      some ⟨streamName, shardId, index, now + leaseLifetime⟩ := OrdMap.get_insert_self _ _ _

/-- What a reader does to the account: leases that have expired go, one may come, nothing is written. -/
structure Leased (s s' : KinesisState) : Prop where
  streams : s'.streams = s.streams
  counter : s.iteratorCounter ≤ s'.iteratorCounter
  old : ∀ token, Issued s token → ∀ lease, s'.iterators.get token = some lease →
    s.iterators.get token = some lease
  kept : ∀ token, Issued s token → ∀ lease, s.iterators.get token = some lease → now ≤ lease.expiresAt →
    s'.iterators.get token = some lease

theorem Leased.refl : Leased now s s := ⟨rfl, le_rfl, fun _ _ _ h => h, fun _ _ _ h _ => h⟩

theorem leased_insertIterator (streamName shardId : Str) (index : ℕ) :
    Leased now s (insertIterator now s streamName shardId index).2 := by
  have hget : ∀ token, Issued s token →
    (insertIterator now s streamName shardId index).2.iterators.get token =
      (s.iterators.get token).filter fun lease => now ≤ lease.expiresAt := by
    intro token hi
    rw [insertIterator, OrdMap.get_insert_of_ne _ _ fun heq => iteratorToken_ne hi _ _ _ _
      (Std.LawfulEqCmp.eq_of_compare heq), OrdMap.get_retain]
  refine ⟨rfl, Nat.le_succ _, fun token hi lease hg => ?_, fun token hi lease hg hlv => ?_⟩
  · rw [hget token hi, filter_eq_some_iff] at hg
    exact hg.1
  · rw [hget token hi, filter_eq_some_iff]
    exact ⟨hg, decide_eq_true hlv⟩

theorem getShardIterator_cases (streamName : Str) (shardId : Option Str)
    (iteratorType : Option IteratorType) :
    (∃ e, getShardIterator now s streamName shardId iteratorType = (s, .error e)) ∨
    ∃ id t stream shard index, shardId = some id ∧ iteratorType = some t ∧
      At s streamName id stream shard ∧ shardIteratorStartIndex shard t = .ok index ∧
      getShardIterator now s streamName shardId iteratorType = ((insertIterator now s streamName id index).2,
          .ok (insertIterator now s streamName id index).1) := by
  rw [getShardIterator]
  split
  · exact .inl ⟨_, rfl⟩
  next id hid =>
  cases iteratorType with
  | none => exact .inl ⟨_, rfl⟩
  | some t =>
  rcases hg : s.streams.get streamName with _ | stream
  · exact .inl ⟨_, rfl⟩
  rcases hf : findShard stream id with _ | shard
  · exact .inl ⟨_, by dsimp only; rw [hf]⟩
  rcases hi : shardIteratorStartIndex shard t with e | index
  · exact .inl ⟨e, by dsimp only; rw [hf]; dsimp only; rw [hi]⟩
  · refine .inr ⟨id, t, stream, shard, index, (filter_eq_some_iff.mp hid).1, rfl, ⟨hg, hf⟩, hi, ?_⟩
    dsimp only
    rw [hf]
    dsimp only
    rw [hi]

theorem getRecords_cases (iterator : Option Str) (limit : Option ℤ) :
    (∃ e, getRecords now s iterator limit = (s, .error e)) ∨
    (∃ token lease e, s.iterators.get token = some lease ∧ lease.expiresAt < now ∧
      getRecords now s iterator limit = ({ s with iterators := s.iterators.erase token }, .error e)) ∨
    ∃ token n lease stream shard, iterator = some token ∧ checkLimit limit = .ok n ∧
      s.iterators.get token = some lease ∧ At s lease.streamName lease.shardId stream shard ∧
      getRecords now s iterator limit = ((readPage now s lease stream shard n).1,
        .ok (readPage now s lease stream shard n).2) := by
  rw [getRecords]
  split
  · exact .inl ⟨_, rfl⟩
  next token ht =>
  rcases hlm : checkLimit limit with e | n
  · exact .inl ⟨e, rfl⟩
  rcases hl : s.iterators.get token with _ | lease
  · exact .inl ⟨_, rfl⟩
  dsimp only
  split
  · next hx => exact .inr (.inl ⟨token, lease, _, hl, hx, rfl⟩)
  rcases hg : s.streams.get lease.streamName with _ | stream
  · exact .inl ⟨_, rfl⟩
  dsimp only
  rcases hf : findShard stream lease.shardId with _ | shard
  · exact .inl ⟨_, rfl⟩
  exact .inr (.inr ⟨token, n, lease, stream, shard, (filter_eq_some_iff.mp ht).1, rfl, hl, ⟨hg, hf⟩, rfl⟩)

theorem leased_getShardIterator (streamName : Str) (shardId : Option Str)
    (iteratorType : Option IteratorType) :
    Leased now s (getShardIterator now s streamName shardId iteratorType).1 := by
  rcases getShardIterator_cases now s streamName shardId iteratorType with
    ⟨e, heq⟩ | ⟨id, t, stream, shard, index, -, -, -, -, heq⟩
  · rw [heq]
    exact .refl now s
  · rw [heq]
    exact leased_insertIterator now s streamName id index

theorem leased_readPage (lease : ShardIteratorLease) (stream : KinesisStream)
    (shard : KinesisShard) (limit : ℕ) :
    Leased now s (readPage now s lease stream shard limit).1 := by
  rw [readPage]
  split
  · exact .refl now s
  · exact leased_insertIterator now s _ _ _

theorem leased_erase {now : ℤ} {s : KinesisState} (hl : s.iterators.get token = some lease)
    (hx : lease.expiresAt < now) : Leased now s { s with iterators := s.iterators.erase token } := by
  refine ⟨rfl, le_rfl, fun _ _ _ h => OrdMap.get_of_get_erase h, fun token' _ lease' h hlv => ?_⟩
  rw [OrdMap.get_erase, if_neg]
  · exact h
  · rintro rfl
    rw [hl, some.injEq] at h
    rw [h] at hx
    omega

theorem leased_getRecords (iterator : Option Str) (limit : Option ℤ) :
    Leased now s (getRecords now s iterator limit).1 := by
  rcases getRecords_cases now s iterator limit with
    ⟨e, heq⟩ | ⟨token, lease, e, hl, hx, heq⟩ | ⟨token, n, lease, stream, shard, -, -, -, -, heq⟩
  · rw [heq]
    exact .refl now s
  · rw [heq]
    exact leased_erase hl hx
  · rw [heq]
    exact leased_readPage now s lease stream shard n

end Leases

/-! ## Pages -/

theorem pageLength_le (limit taken bytes : ℕ) (records : List KinesisRecord) :
    pageLength limit taken bytes records ≤ records.length := by
  induction records generalizing taken bytes with
  | nil => exact le_rfl
  | cons r records ih =>
    have := ih (taken + 1) (bytes + recordBytes r.partitionKey r.data)
    rw [pageLength, length_cons]
    split
    · omega
    split
    · omega
    · omega

theorem pageLength_pos {limit : ℕ} (hl : 0 < limit) {records : List KinesisRecord}
    (hne : records ≠ []) : 0 < pageLength limit 0 0 records := by
  cases records with
  | nil => exact absurd rfl hne
  | cons r records =>
    rw [pageLength, if_neg (by omega), if_neg (by omega)]
    omega

theorem checkLimit_pos (h : checkLimit limit = .ok n) : 0 < n := by
  cases limit with
  | none =>
    cases h
    decide
  | some k =>
    rw [checkLimit] at h
    split at h
    · cases h
      omega
    · cases h

/-- What one page does to a session: of the records ahead of the lease some are `skipped`, the page
follows, and the `rest` is ahead of the next lease. -/
structure Turns (now : ℤ) (lease : ShardIteratorLease) (stream : KinesisStream)
    (records : List KinesisRecord) (limit : ℕ) (s : KinesisState) (page : RecordsPage)
    (skipped rest : List KinesisRecord) : Prop where
  ahead : records.drop lease.nextRecordIndex = skipped ++ page.records ++ rest
  expired : ∀ r ∈ skipped, r.approximateArrivalTimestamp < stream.cutoff now
  progress : 0 < limit → page.records = [] → rest = []
  next : (page.nextShardIterator = none ∧ rest = []) ∨
    ∃ token, ∃ index ≤ records.length, page.nextShardIterator = some token ∧ Issued s token ∧
      s.iterators.get token = some ⟨lease.streamName, lease.shardId, index, now + leaseLifetime⟩ ∧
      rest = records.drop index

theorem readPage_turns (now : ℤ) (s : KinesisState) (stream : KinesisStream) (limit : ℕ)
    (hi : lease.nextRecordIndex ≤ shard.records.length) :
    ∃ skipped rest, Turns now lease stream shard.records limit
      (readPage now s lease stream shard limit).1 (readPage now s lease stream shard limit).2
      skipped rest := by
  rw [readPage]
  generalize hw : shard.records = w at hi
  generalize ht : trimCount (stream.cutoff now) (w.drop lease.nextRecordIndex) = t
  have hs : startIndex (stream.cutoff now) w lease.nextRecordIndex = lease.nextRecordIndex + t := by
    rw [startIndex, ht]
  have hle := trimCount_le (stream.cutoff now) (w.drop lease.nextRecordIndex)
  rw [length_drop] at hle
  rw [hs]
  generalize hl : pageLength limit 0 0 (w.drop (lease.nextRecordIndex + t)) = n
  have hn := pageLength_le limit 0 0 (w.drop (lease.nextRecordIndex + t))
  rw [length_drop] at hn
  have ha : w.drop lease.nextRecordIndex = (w.drop lease.nextRecordIndex).take t ++
      (w.drop (lease.nextRecordIndex + t)).take n ++ w.drop (lease.nextRecordIndex + t + n) := by
    rw [append_assoc, ← drop_drop (i := n), take_append_drop, ← drop_drop, take_append_drop]
  have he : ∀ r ∈ (w.drop lease.nextRecordIndex).take t,
      r.approximateArrivalTimestamp < stream.cutoff now := fun r hr =>
    expired_of_mem_take (by rw [ht]; exact hr)
  have hp : 0 < limit → (w.drop (lease.nextRecordIndex + t)).take n = [] →
      w.drop (lease.nextRecordIndex + t + n) = [] := by
    intro hlm hnl
    by_contra hne
    have hne' : w.drop (lease.nextRecordIndex + t) ≠ [] := fun hnl' => by
      rw [← drop_drop, hnl', drop_nil] at hne
      exact hne rfl
    have hps := pageLength_pos hlm hne'
    have hln := congrArg List.length hnl
    rw [length_take, length_drop, length_nil] at hln
    omega
  split
  · next hc =>
    refine ⟨_, _, ⟨ha, he, hp, .inl ⟨rfl, ?_⟩⟩⟩
    exact drop_eq_nil_of_le hc.2
  · exact ⟨_, _, ⟨ha, he, hp, .inr ⟨_, _, by omega, rfl,
      issued_insertIterator _ _ _ _ _, get_insertIterator_self _ _ _ _ _, rfl⟩⟩⟩

/-! ## The invariant -/

structure Follows (streamName shardId : Str) (retentionHours : ℤ) (x : Session)
    (passed pending : List KinesisRecord) : Prop where
  distinct : DistinctIds x.state
  shard : ∃ stream shard, At x.state streamName shardId stream shard ∧
    stream.retentionPeriodHours = retentionHours
  issued : ∀ token, x.token = some token → Issued x.state token
  log : x.log = passed ++ pending
  received : Thinned (WasExpired retentionHours x.moments) x.received passed
  finished : x.token = none → pending = []
  lease : ∀ token lease, x.token = some token → x.state.iterators.get token = some lease →
    lease.streamName = streamName ∧ lease.shardId = shardId ∧
      lease.nextRecordIndex ≤ (recordsAt x.state streamName shardId).length ∧
      pending = (recordsAt x.state streamName shardId).drop lease.nextRecordIndex
  held : ∀ token, x.token = some token → x.Unexpired →
    ∃ lease, x.state.iterators.get token = some lease ∧ lease.expiresAt = x.givenAt + leaseLifetime

theorem recordsAt_eq {shardId : Str} {stream : KinesisStream} (h : At s streamName shardId stream shard) :
    recordsAt s streamName shardId = shard.records := by
  rw [recordsAt, h.get, bind_some, h.find]
  rfl

theorem WasExpired.mono {moments : List ℤ} (now : ℤ) (r : KinesisRecord)
    (h : WasExpired retentionHours moments r) : WasExpired retentionHours (moments ++ [now]) r := by
  obtain ⟨t, ht, hlt⟩ := h
  exact ⟨t, mem_append_left _ ht, hlt⟩

section Steps

variable {streamName shardId : Str} {retentionHours : ℤ} {x : Session} {passed pending : List KinesisRecord}
  {s s' : KinesisState} {token : Str} {stream : KinesisStream} {shard : KinesisShard} {now : ℤ}

theorem Issued.leased (h : Issued s token)
    (hl : Leased now s s') : Issued s' token := by
  obtain ⟨front, n, hn, heq⟩ := h
  exact ⟨front, n, hn.trans hl.counter, heq⟩

theorem At.leased
    (h : At s streamName shardId stream shard) (hl : Leased now s s') :
    At s' streamName shardId stream shard :=
  ⟨by rw [hl.streams]; exact h.get, h.find⟩

theorem DistinctIds.leased (h : DistinctIds s) (hl : Leased now s s') : DistinctIds s' := by
  intro name stream hg
  rw [hl.streams] at hg
  exact h name stream hg

variable (md5 : Hash) (h : Follows streamName shardId retentionHours x passed pending)
include h

/-- **Retention**: the records ahead of the lease that are taken off are passed over. -/
theorem Follows.trim (now : ℤ) : ∃ passed' pending', Follows streamName shardId retentionHours
      { x with
        state := x.state.trimExpiredRecordsAt now
        moments := x.moments ++ [now]
        since := x.since ++ [now] } passed' pending' := by
  obtain ⟨stream, shard, hat, rfl⟩ := h.shard
  have hat' := hat.trim now
  have hrc := h.received.mono (WasExpired.mono now)
  have hi : ∀ token, x.token = some token → Issued (x.state.trimExpiredRecordsAt now) token := h.issued
  have hg := fun token => (get_trim x.state now token []).1
  have hh : ∀ token, x.token = some token → (∀ t ∈ x.since ++ [now], t ≤ x.givenAt + leaseLifetime) →
      ∃ lease, (x.state.trimExpiredRecordsAt now).iterators.get token = some lease ∧
        lease.expiresAt = x.givenAt + leaseLifetime := by
    intro token ht hu
    obtain ⟨lease, hl, hx⟩ := h.held token ht fun t ht => hu t (mem_append_left _ ht)
    exact ⟨_, by rw [hg, hl, map_some], by rw [moved_eq now h.distinct]; exact hx⟩
  by_cases hlv : ∃ token lease, x.token = some token ∧ x.state.iterators.get token = some lease
  · obtain ⟨token, lease, ht, hl⟩ := hlv
    obtain ⟨hnm, hid, hin, hp⟩ := h.lease token lease ht hl
    rw [recordsAt_eq hat] at hin hp
    have hm := moved_eq now h.distinct lease
    rw [hnm, hid, lostBy_eq hat] at hm
    generalize htr : trimCount (stream.cutoff now) shard.records = t at hm
    have hc := drop_trimmed shard.records lease.nextRecordIndex t
    refine ⟨passed ++ (shard.records.take t).drop lease.nextRecordIndex,
      (shard.records.drop t).drop (lease.nextRecordIndex - t), h.distinct.trim now,
      ⟨_, _, hat', rfl⟩, hi, ?_, hrc.append_skip fun r hr => ?_, ?_, ?_, hh⟩
    · rw [h.log, hp, append_assoc, ← hc]
    · refine ⟨now, by simp, ?_⟩
      rw [← htr] at hr
      exact expired_of_mem_take (mem_of_mem_drop hr)
    · intro hn
      rw [ht] at hn
      cases hn
    · intro token' lease' ht' hl'
      obtain rfl : token = token' := some.inj (ht.symm.trans ht')
      rw [hg, hl, map_some, some.injEq, hm] at hl'
      subst hl'
      rw [recordsAt_eq hat', KinesisShard.trim, htr]
      refine ⟨rfl, rfl, ?_, rfl⟩
      dsimp only
      rw [length_drop]
      omega
  · refine ⟨passed, pending, h.distinct.trim now, ⟨_, _, hat', rfl⟩, hi, h.log, hrc,
      h.finished, fun token lease' ht hl' => ?_, hh⟩
    rw [hg] at hl'
    obtain ⟨lease, hl, -⟩ := map_eq_some_iff.mp hl'
    exact absurd ⟨token, lease, ht, hl⟩ hlv

/-- **A write**: what it adds is ahead of the lease. -/
theorem Follows.written
    (hlv : x.token ≠ none) (hw : Written x.state s) : ∃ pending', Follows streamName shardId retentionHours
      { x with
        state := s
        log := x.log ++ (recordsAt s streamName shardId).drop
          (recordsAt x.state streamName shardId).length } passed pending' := by
  obtain ⟨stream, shard, hat, hr⟩ := h.shard
  obtain ⟨stream', shard', hat', he, hg⟩ := hw.at hat
  obtain ⟨new, hnw⟩ := hg.records
  have hd : (recordsAt s streamName shardId).drop (recordsAt x.state streamName shardId).length = new := by
    rw [recordsAt_eq hat, recordsAt_eq hat', hnw, drop_left]
  rw [hd]
  refine ⟨pending ++ new, hw.distinctIds h.distinct,
    ⟨stream', shard', hat', he.retention.trans hr⟩, fun token ht => ?_, ?_, h.received,
    fun hnn => absurd hnn hlv, fun token lease ht hl => ?_, fun token ht hu => ?_⟩
  · obtain ⟨front, n, hn, heq⟩ := h.issued token ht
    exact ⟨front, n, by rw [hw.iteratorCounter]; exact hn, heq⟩
  · rw [h.log, append_assoc]
  · rw [hw.iterators] at hl
    obtain ⟨hnm, hid, hi, hp⟩ := h.lease token lease ht hl
    rw [recordsAt_eq hat] at hi hp
    rw [recordsAt_eq hat', hnw, hp, drop_append_of_le_length hi, length_append]
    exact ⟨hnm, hid, by omega, rfl⟩
  · rw [hw.iterators]
    exact h.held token ht hu

theorem Follows.leased (hl : Leased now x.state s) : Follows streamName shardId retentionHours
      { x with state := s, moments := x.moments ++ [now], since := x.since ++ [now] } passed pending := by
  obtain ⟨stream, shard, hat, hr⟩ := h.shard
  refine ⟨h.distinct.leased hl, ⟨stream, shard, hat.leased hl, hr⟩,
    fun token ht => (h.issued token ht).leased hl, h.log,
    h.received.mono (WasExpired.mono now), h.finished, fun token lease ht hls => ?_, fun token ht hu => ?_⟩
  · have ho := hl.old token (h.issued token ht) lease hls
    have hrc : recordsAt s streamName shardId = recordsAt x.state streamName shardId := by
      rw [recordsAt, hl.streams, recordsAt]
    rw [hrc]
    exact h.lease token lease ht ho
  · obtain ⟨lease, hls, hx⟩ := h.held token ht fun t ht => hu t (mem_append_left _ ht)
    refine ⟨lease, hl.kept token (h.issued token ht) lease hls ?_, hx⟩
    rw [hx]
    exact hu now (by simp)

/-- **The consumer's own call**: the page is what follows, less records past the retention period. -/
theorem Follows.read {lease : ShardIteratorLease} {limit : ℕ}
    (ht : x.token = some token) (hls : x.state.iterators.get token = some lease)
    (hat : At x.state lease.streamName lease.shardId stream shard) (now : ℤ) :
    ∃ passed' pending', Follows streamName shardId retentionHours
      { x with
        state := (readPage now x.state lease stream shard limit).1
        token := (readPage now x.state lease stream shard limit).2.nextShardIterator
        received := x.received ++ (readPage now x.state lease stream shard limit).2.records
        moments := x.moments ++ [now]
        givenAt := now
        since := [now] } passed' pending' := by
  obtain ⟨rfl, rfl, hi, rfl⟩ := h.lease token lease ht hls
  obtain ⟨stream', shard', hat', rfl⟩ := h.shard
  obtain rfl : stream = stream' := some.inj (hat.get.symm.trans hat'.get)
  have hlg := h.log
  rw [recordsAt_eq hat] at hi hlg
  have hl := leased_readPage now x.state lease stream shard limit
  obtain ⟨skipped, rest, htr⟩ := readPage_turns now x.state stream limit hi
  have hs : Thinned (WasExpired stream.retentionPeriodHours (x.moments ++ [now])) x.received
      (passed ++ skipped) :=
    (h.received.mono (WasExpired.mono now)).append_skip fun r hr => ⟨now, by simp, htr.expired r hr⟩
  refine ⟨passed ++ skipped ++ (readPage now x.state lease stream shard limit).2.records, rest,
    h.distinct.leased hl, ⟨stream, shard, hat.leased hl, rfl⟩, ?_, ?_, hs.append (.refl _), ?_, ?_, ?_⟩
  · intro token' ht'
    rcases htr.next with ⟨hn, -⟩ | ⟨next, index, -, hnx, his, -⟩
    · rw [hn] at ht'
      cases ht'
    · rw [hnx] at ht'
      cases ht'
      exact his
  · rw [hlg, htr.ahead]
    simp only [append_assoc]
  · intro hn
    rcases htr.next with ⟨-, hrs⟩ | ⟨next, index, -, hnx, -⟩
    · exact hrs
    · rw [hnx] at hn
      cases hn
  · intro token' lease' ht' hls'
    rcases htr.next with ⟨hn, -⟩ | ⟨next, index, hle, hnx, -, hg, hrs⟩
    · rw [hn] at ht'
      cases ht'
    · rw [hnx] at ht'
      cases ht'
      rw [hg, some.injEq] at hls'
      subst hls'
      rw [recordsAt_eq (hat.leased hl)]
      exact ⟨rfl, rfl, hle, hrs⟩
  · intro token' ht' _
    rcases htr.next with ⟨hn, -⟩ | ⟨next, index, -, hnx, -, hg, -⟩
    · rw [hn] at ht'
      cases ht'
    · rw [hnx] at ht'
      cases ht'
      exact ⟨_, hg, rfl⟩

/-- **Every call keeps the consumer in place.** -/
theorem Follows.step
    (hl : x.token ≠ none) (event : ℤ × Call) : ∃ passed' pending', Follows streamName shardId retentionHours
      (x.step md5 streamName shardId event) passed' pending' := by
  obtain ⟨now, call⟩ := event
  cases call with
  | putRecord name entry =>
    obtain ⟨passed', pending', ht⟩ := h.trim now
    obtain ⟨pending'', hw⟩ := ht.written hl (putRecord_written md5 now x.state name entry)
    exact ⟨passed', pending'', hw⟩
  | putRecords name entries =>
    obtain ⟨passed', pending', ht⟩ := h.trim now
    obtain ⟨pending'', hw⟩ := ht.written hl (putRecords_written md5 now x.state name entries)
    exact ⟨passed', pending'', hw⟩
  | trim => exact h.trim now
  | getShardIterator name shard iteratorType =>
    exact ⟨_, _, h.leased (leased_getShardIterator now x.state name shard iteratorType)⟩
  | getRecords iterator limit =>
    exact ⟨_, _, h.leased (leased_getRecords now x.state iterator limit)⟩
  | read limit =>
    rcases getRecords_cases now x.state x.token limit with
      ⟨e, heq⟩ | ⟨token, lease, e, hls, hx, heq⟩ | ⟨token, n, lease, stream, shard, htk, -, hls, hat, heq⟩
    · rw [Session.step, Session.call, heq]
      exact ⟨_, _, h.leased (.refl now x.state)⟩
    · rw [Session.step, Session.call, heq]
      exact ⟨_, _, h.leased (leased_erase hls hx)⟩
    · rw [Session.step, Session.call, heq]
      exact h.read htk hls hat now

theorem Follows.run (events : List (ℤ × Call)) : ∃ passed' pending', Follows streamName shardId retentionHours
      (x.run md5 streamName shardId events) passed' pending' := by
  induction events generalizing x passed pending with
  | nil => exact ⟨passed, pending, h⟩
  | cons event events ih =>
    rw [Session.run]
    split
    · exact ⟨passed, pending, h⟩
    · next hl =>
      obtain ⟨passed', pending', hs⟩ := h.step md5 hl event
      exact ih hs

end Steps

/-! ## Where a consumer starts -/

theorem resolveSequenceNumberIndex_le {number : Str} {after : Bool}
    (h : resolveSequenceNumberIndex shard number after = .ok index) : index ≤ shard.records.length := by
  rw [resolveSequenceNumberIndex] at h
  split at h
  · next pos hp =>
    have hlt := (findIdx?_eq_some_iff_getElem.mp hp).1
    cases h
    split <;> omega
  · split at h
    · split at h
      · cases h
        exact Nat.zero_le _
      · cases h
    · cases h

theorem shardIteratorStartIndex_le
    (h : shardIteratorStartIndex shard iteratorType = .ok index) : index ≤ shard.records.length := by
  cases iteratorType with
  | trimHorizon =>
    cases h
    exact Nat.zero_le _
  | latest =>
    cases h
    exact le_rfl
  | atSequenceNumber number =>
    obtain ⟨_, -, h⟩ := bind_eq_ok.mp h
    exact resolveSequenceNumberIndex_le h
  | afterSequenceNumber number =>
    obtain ⟨_, -, h⟩ := bind_eq_ok.mp h
    exact resolveSequenceNumberIndex_le h
  | atTimestamp timestamp =>
    cases timestamp with
    | none => cases h
    | some target =>
      rw [shardIteratorStartIndex] at h
      split at h
      · cases h
      · cases h
        exact findIdx_le_length
  | unsupported => cases h

theorem Session.start_follows {shardId : Str} {now : ℤ} (hids : DistinctIds s)
    (h : Session.start streamName shardId now s iteratorType = some x) :
    ∃ stream shard index, At s streamName shardId stream shard ∧
      shardIteratorStartIndex shard iteratorType = .ok index ∧ x.log = shard.records.drop index ∧
      Follows streamName shardId stream.retentionPeriodHours x [] x.log := by
  rw [Session.start] at h
  rcases hg : s.streams.get streamName with _ | stream
  · rw [hg] at h
    cases h
  rw [hg] at h
  dsimp only at h
  rcases hf : findShard stream shardId with _ | shard
  · rw [hf] at h
    cases h
  rw [hf] at h
  dsimp only at h
  have hat : At s streamName shardId stream shard := ⟨hg, hf⟩
  rcases hi : shardIteratorStartIndex shard iteratorType with e | index
  · rw [hi] at h
    cases h
  rcases getShardIterator_cases now s streamName (some shardId) (some iteratorType) with
    ⟨e, heq⟩ | ⟨id, t, stream', shard', index', hid, ht, hat', hi', heq⟩
  · rw [hi, heq] at h
    cases h
  cases hid
  cases ht
  obtain rfl : stream = stream' := some.inj (hat.get.symm.trans hat'.get)
  obtain rfl : shard = shard' := some.inj (hat.find.symm.trans hat'.find)
  obtain rfl : index = index' := Except.ok.inj (hi.symm.trans hi')
  rw [hi, heq] at h
  cases h
  have hl := leased_insertIterator now s streamName shardId index
  refine ⟨stream, shard, index, hat, hi, rfl, hids.leased hl,
    ⟨stream, shard, hat.leased hl, rfl⟩, ?_, rfl, .nil, nofun, ?_, ?_⟩
  · intro token htk
    cases htk
    exact issued_insertIterator now s streamName shardId index
  · intro token lease htk hls
    cases htk
    rw [get_insertIterator_self, some.injEq] at hls
    subst hls
    rw [recordsAt_eq (hat.leased hl)]
    exact ⟨rfl, rfl, shardIteratorStartIndex_le hi, rfl⟩
  · intro token htk _
    cases htk
    exact ⟨_, get_insertIterator_self now s streamName shardId index, rfl⟩

theorem Issued.ne_nil (h : Issued s token) : token.isEmpty = false := by
  obtain ⟨front, n, -, rfl⟩ := h
  cases front <;> rfl

theorem Follows.page {shardId : Str} {passed pending : List KinesisRecord}
    (h : Follows streamName shardId retentionHours x passed pending) (htk : x.token = some token)
    (hls : x.state.iterators.get token = some lease) {now : ℤ} (hlv : now ≤ lease.expiresAt)
    (hl : checkLimit limit = .ok n) :
    ∃ s page skipped rest, getRecords now x.state (some token) limit = (s, .ok page) ∧
      pending = skipped ++ page.records ++ rest ∧
      (∀ r ∈ skipped, r.approximateArrivalTimestamp < now - hours retentionHours) ∧
      (page.records = [] → rest = []) := by
  obtain ⟨rfl, rfl, hi, rfl⟩ := h.lease token lease htk hls
  obtain ⟨stream, shard, hat, rfl⟩ := h.shard
  rw [recordsAt_eq hat] at hi ⊢
  obtain ⟨skipped, rest, ht⟩ := readPage_turns now x.state stream n hi
  refine ⟨(readPage now x.state lease stream shard n).1, (readPage now x.state lease stream shard n).2,
    skipped, rest, ?_, ht.ahead, ht.expired, ht.progress (checkLimit_pos hl)⟩
  have htx : (some token).filter (fun token => !token.isEmpty) = some token :=
    filter_some_pos (by simp [(h.issued token htk).ne_nil])
  rw [getRecords, htx, hl]
  dsimp only
  rw [hls]
  dsimp only
  rw [if_neg (by omega), hat.get]
  dsimp only
  rw [hat.find]

/-- **A consumer reads each record once, in order.**  The streams of the account have distinct shard ids,
as every stream that the calls make.  A consumer starts with a shard iterator, and then any calls follow,
its own among them.  What it has received is the log of the shard from its starting position on, up to
where it is (`passed`), without records that were past the retention period when they were passed over.
What is ahead of it (`pending`) is in the shard from its lease on.  The lease is there as long as no moment
since it was given out is past it, whatever other readers do; the next page starts there, and it is not empty
while there is something to read.  At the end of a closed shard nothing is ahead. -/
theorem reads_each_once (md5 : Hash) {streamName shardId : Str} {now : ℤ} {s : KinesisState}
    {iteratorType : IteratorType} {x : Session} (hids : DistinctIds s)
    (hstart : Session.start streamName shardId now s iteratorType = some x)
    (events : List (ℤ × Call)) :
    ∃ stream passed pending, s.streams.get streamName = some stream ∧
      (x.run md5 streamName shardId events).log = passed ++ pending ∧
      Thinned (WasExpired stream.retentionPeriodHours (x.run md5 streamName shardId events).moments)
        (x.run md5 streamName shardId events).received passed ∧
      ((x.run md5 streamName shardId events).token = none → pending = []) ∧
      ∀ token, (x.run md5 streamName shardId events).token = some token →
        (x.run md5 streamName shardId events).Unexpired →
        ∃ lease, (x.run md5 streamName shardId events).state.iterators.get token = some lease ∧
          pending = (recordsAt (x.run md5 streamName shardId events).state streamName shardId).drop
            lease.nextRecordIndex ∧
          ∀ now' limit n, now' ≤ (x.run md5 streamName shardId events).givenAt + leaseLifetime →
            checkLimit limit = .ok n → ∃ s' page skipped rest,
              getRecords now' (x.run md5 streamName shardId events).state (some token) limit =
                (s', .ok page) ∧
              pending = skipped ++ page.records ++ rest ∧
              (∀ r ∈ skipped, r.approximateArrivalTimestamp < stream.cutoff now') ∧
              (page.records = [] → rest = []) := by
  obtain ⟨stream, shard, index, hat, -, -, hf⟩ := Session.start_follows hids hstart
  obtain ⟨passed, pending, h⟩ := hf.run md5 events
  refine ⟨stream, passed, pending, hat.get, h.log, h.received, h.finished, fun token ht hu => ?_⟩
  obtain ⟨lease, hl, hx⟩ := h.held token ht hu
  refine ⟨lease, hl, (h.lease token lease ht hl).2.2.2, fun now' limit n hlv hlm => ?_⟩
  exact h.page ht hl (hx ▸ hlv) hlm

/-- An account with one stream of one shard that has two records. -/
def Example.account : KinesisState :=
  { accountId := "123456789012"
    streams := OrdMap.empty.insert "orders"
      { retentionPeriodHours := 24
        shardCount := 1
        openShardCount := 1
        shards := [⟨"shardId-000000000000", 0, maxHashKey, none, none, true, 3,
          [⟨"1", "a", [1], 10⟩, ⟨"2", "b", [2], hours 30⟩]⟩]
        nextShardIndex := 1
        maxRecordSizeKib := none
        recordDistributionStrategy := .userPartitionKey
        autoDistributionCursor := 0 }
    iterators := .empty
    iteratorCounter := 0
    lambdaCheckpoints := .empty }

theorem Example.account_distinct : DistinctIds Example.account := by
  intro name stream hg
  obtain ⟨name', hm, -⟩ := OrdMap.get_eq_some _ |>.mp hg
  obtain ⟨-, rfl⟩ := Prod.mk.inj (mem_singleton.mp hm)
  decide

/-- The consumer reads after a trim and a call of another reader. -/
def Example.readAfterOther (x : Session) : Session :=
  x.run (fun _ => 0) "orders" "shardId-000000000000"
    [(hours 31 + 1, .trim),
      (hours 31 + 2, .getShardIterator "orders" (some "shardId-000000000000") (some .latest)),
      (hours 31 + 3, .read none), (hours 31 + 4, .getRecords (some "other") none)]

/-- The first record is past the retention period when the consumer reads: it receives the second, and its
next lease is there. -/
theorem reads_each_once_second :
    ∃ x, Session.start "orders" "shardId-000000000000" (hours 31) Example.account .trimHorizon = some x ∧
      (Example.readAfterOther x).received = [⟨"2", "b", [2], hours 30⟩] ∧
      ∃ token lease, (Example.readAfterOther x).token = some token ∧
        (Example.readAfterOther x).state.iterators.get token = some lease := by
  refine ⟨_, rfl, by decide +kernel, ?_⟩
  obtain ⟨stream, passed, pending, -, -, -, -, h⟩ := @reads_each_once (fun _ => 0) "orders"
    "shardId-000000000000" (hours 31) Example.account .trimHorizon _ Example.account_distinct rfl
    [(hours 31 + 1, .trim),
      (hours 31 + 2, .getShardIterator "orders" (some "shardId-000000000000") (some .latest)),
      (hours 31 + 3, .read none), (hours 31 + 4, .getRecords (some "other") none)]
  obtain ⟨lease, hl, -⟩ := h _ rfl (by unfold Session.Unexpired; decide +kernel)
  exact ⟨_, lease, rfl, hl⟩

end Fakecloud.Kinesis

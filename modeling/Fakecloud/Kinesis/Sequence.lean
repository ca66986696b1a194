import Fakecloud.Kinesis.Offsets
import Fakecloud.Kinesis.Partition

/-!
# Kinesis: sequence numbers

A shard numbers its records from one, with the discriminator of its id in front.  The records that it still
has are the last ones that it numbered (`Sequenced`), whatever was written, resharded and trimmed.

## Main results

* `sequence_numbers` — where an iterator at a number starts, and which numbers are given out once.
-/

namespace Fakecloud.Kinesis

open Text List Nat

/-! ## The numbers -/

def mint (shardId : Str) (n : ℕ) : Str :=
  zeroPad 5 (shardDiscriminator shardId) ++ zeroPad 51 n

section Numbers

variable {shardId shardId' : Str} {m n : ℕ}

theorem length_discriminator (shardId : Str) : (zeroPad 5 (shardDiscriminator shardId)).length = 5 :=
  length_zeroPad (lt_succ_of_le (min_le_right _ _))

theorem all_isDigit_mint (shardId : Str) (n : ℕ) : (mint shardId n).all Char.isDigit := by
  rw [mint, all_append, all_isDigit_zeroPad, all_isDigit_zeroPad]
  rfl

theorem length_mint (hn : n < 10 ^ 51) : (mint shardId n).length = 56 := by
  rw [mint, length_append, length_discriminator, length_zeroPad hn]

theorem mint_inj : mint shardId m = mint shardId' n ↔
      shardDiscriminator shardId = shardDiscriminator shardId' ∧ m = n := by
  constructor
  · intro h
    obtain ⟨hd, hn⟩ := append_inj h ((length_discriminator _).trans (length_discriminator _).symm)
    exact ⟨zeroPad_injective 5 hd, zeroPad_injective 51 hn⟩
  · rintro ⟨hd, rfl⟩
    rw [mint, mint, hd]

/-- The numbers of a shard are in the order of its records. -/
theorem compare_mint (hm : m < 10 ^ 51) (hn : n < 10 ^ 51) :
    compare (mint shardId m) (mint shardId n) = compare m n := by
  have hv (k : ℕ) (hk : k < 10 ^ 51) : digitsValue (mint shardId k) =
      shardDiscriminator shardId * 10 ^ 51 + k := by
    rw [mint, digitsValue_append, digitsValue_zeroPad, digitsValue_zeroPad, length_zeroPad hk]
  rw [compare_digitsValue (all_isDigit_mint _ _) (all_isDigit_mint _ _)
    ((length_mint hm).trans (length_mint hn).symm), hv m hm, hv n hn]
  simp only [compare, compareOfLessAndEq, add_lt_add_iff_left, add_left_cancel_iff]

theorem length_utf8_digits {s : Str} (h : s.all Char.isDigit) : (utf8 s).length = s.length := by
  induction s with
  | nil => rfl
  | cons c s ih =>
    rw [all_cons, Bool.and_eq_true] at h
    have hc : c.toNat < 0x80 := by
      have := digitVal_lt h.1
      omega
    rw [utf8, flatMap_cons, ← utf8, utf8Char, if_pos hc, length_append, ih h.2, add_comm]
    rfl

theorem sequenceShardDiscriminator_mint (hn : n < 10 ^ 51) :
    sequenceShardDiscriminator (mint shardId n) = some (shardDiscriminator shardId) := by
  have hl : (utf8 (mint shardId n)).length = 56 := by
    rw [length_utf8_digits (all_isDigit_mint _ _), length_mint hn]
  rw [sequenceShardDiscriminator, if_neg (by simp [hl, all_isDigit_mint]), mint,
    take_left' (length_discriminator shardId)]
  exact parseUnsigned_zeroPad (lt_of_le_of_lt (min_le_right _ _) (by norm_num))

theorem shardDiscriminator_shardIdOf (hn : n < 2 ^ 64) : shardDiscriminator (shardIdOf n) = min n 99999 := by
  have hl : lastPiece (shardIdOf n) = zeroPad 12 n := by
    have hs : (shardIdOf n).splitOn '-' = ["shardId".toList, zeroPad 12 n] := by
      rw [show shardIdOf n = "shardId" ++ '-' :: zeroPad 12 n from rfl,
        splitOn_append_cons_self_of_not_mem (by decide),
          splitOn_eq_singleton (not_mem_zeroPad (by decide) 12 n)]
    rw [lastPiece, hs]
    rfl
  rw [shardDiscriminator, hl, filter_eq_self.mpr fun _ => isDigit_of_mem_zeroPad, parseUnsigned_zeroPad hn]
  rfl

end Numbers

/-! ## Runs -/

/-- The streams that the calls make, and what was written to them. -/
inductive Produced : KinesisStream → List Put → Prop
  | create (h : createStream shardCount onDemand maxRecordSizeKib strategy = .ok stream) : Produced stream []
  | split (h : Produced stream puts) (hok : splitShard stream shardToSplit newStartingHashKey = .ok stream') :
      Produced stream' puts
  | merge (h : Produced stream puts) (hok : mergeShards stream shardToMerge adjacentShard = .ok stream') :
      Produced stream' puts
  | update (h : Produced stream puts) (hok : updateShardCount stream targetShardCount = .ok stream') :
      Produced stream' puts
  | put (h : Produced stream puts) (hok : putEntry md5 now tooLong tooLarge stream entry = .ok (p, stream')) :
      Produced stream' (puts ++ [p])
  | trim (h : Produced stream puts) (now : ℤ) : Produced (stream.trim now) puts

/-- What a shard has written, in order. -/
def numbersOf (puts : List Put) (shardId : Str) : List Str :=
  (puts.filter fun p => p.shardId = shardId).map Put.sequenceNumber

/-- The shard at a place has numbered what it has written from one, and has the last of it. -/
structure Numbered (puts : List Put) (i : ℕ) (s : KinesisShard) : Prop where
  shardId : s.shardId = shardIdOf i
  numbers : numbersOf puts s.shardId = (range' 1 (s.nextSequenceNumber - 1)).map (mint s.shardId)
  length : s.records.length < s.nextSequenceNumber
  records : ∀ j r, s.records[j]? = some r →
    r.sequenceNumber = mint s.shardId (s.nextSequenceNumber - s.records.length + j)

structure Sequenced (stream : KinesisStream) (puts : List Put) : Prop where
  next : stream.nextShardIndex = stream.shards.length
  shards : ∀ i s, stream.shards[i]? = some s → Numbered puts i s
  given : ∀ p ∈ puts, p.shardId ∈ ids stream.shards

section Runs

variable {stream stream' : KinesisStream} {puts : List Put} {s : KinesisShard} {pieces : List ((ℕ × ℕ) × Str)}

section

variable (h : Sequenced stream puts)
include h

theorem Sequenced.nodup : (ids stream.shards).Nodup := by
  rw [nodup_iff_injective_getElem]
  intro ⟨i, hi⟩ ⟨j, hj⟩ heq
  simp only [getElem_map, length_map] at hi hj heq
  rw [(h.shards i _ (getElem?_eq_getElem hi)).shardId, (h.shards j _ (getElem?_eq_getElem hj)).shardId] at heq
  exact Fin.ext (shardIdOf_injective heq)

theorem Sequenced.congr (hs : stream'.shards = stream.shards)
    (hn : stream'.nextShardIndex = stream.nextShardIndex) : Sequenced stream' puts :=
  ⟨by rw [hs, hn, h.next], hs ▸ h.shards, hs ▸ h.given⟩

theorem Sequenced.exists_shard {p : Put} (hp : p ∈ puts) :
    ∃ i : ℕ, ∃ s, stream.shards[i]? = some s ∧ s.shardId = p.shardId := by
  obtain ⟨s, hs, hid⟩ := mem_map.mp (h.given p hp)
  obtain ⟨i, hi⟩ := mem_iff_getElem?.mp hs
  exact ⟨i, s, hi, hid⟩

/-- A change of each shard that keeps its id and its numbers. -/
theorem Sequenced.map {f : KinesisShard → KinesisShard}
    (hf : ∀ i s, Numbered puts i s → Numbered puts i (f s)) (hid : ∀ s, (f s).shardId = s.shardId) :
    Sequenced { stream with shards := stream.shards.map f } puts where
  next := h.next.trans (length_map _).symm
  shards i s hs := by
    rw [getElem?_map] at hs
    obtain ⟨t, ht, rfl⟩ := Option.map_eq_some_iff.mp hs
    exact hf i t (h.shards i t ht)
  given p hp := by
    rw [ids, map_map, show KinesisShard.shardId ∘ f = _ from funext hid]
    exact h.given p hp

end

theorem Numbered.close {i : ℕ} (h : Numbered puts i s) : Numbered puts i s.close :=
  ⟨h.shardId, h.numbers, h.length, h.records⟩

section

variable (h : Sequenced stream puts)
include h

theorem Sequenced.closing (gone : List Str) :
    Sequenced { stream with shards := closing gone stream.shards } puts :=
  h.map (fun i s hn => by split; exacts [hn.close, hn]) shardId_closing

theorem Sequenced.add (range : ℕ × ℕ) (parent adjacent : Option Str) : Sequenced { stream with
      shards := stream.shards ++ [newShard (shardIdOf stream.nextShardIndex) range parent adjacent]
      nextShardIndex := stream.nextShardIndex + 1 } puts where
  next := by rw [h.next, length_append, length_singleton]
  shards i s hs := by
    rw [getElem?_append] at hs
    split_ifs at hs with hi
    · exact h.shards i s hs
    · rw [getElem?_singleton] at hs
      split_ifs at hs with hz
      obtain rfl : i = stream.nextShardIndex := by
        have := h.next
        omega
      cases hs
      refine ⟨rfl, ?_, one_pos, nofun⟩
      -- nothing was written to a shard with this id
      refine map_eq_nil_iff.mpr (filter_eq_nil_iff.mpr fun p hp heq => hi ?_)
      obtain ⟨j, t, ht, hid⟩ := h.exists_shard hp
      rw [(h.shards j t ht).shardId, of_decide_eq_true heq] at hid
      rw [← shardIdOf_injective hid]
      exact (List.getElem?_eq_some_iff.mp ht).1
  given p hp := by
    rw [ids, map_append]
    exact mem_append_left _ (h.given p hp)

theorem Sequenced.split {id point : Str}
    (hok : splitShard stream id point = .ok stream') : Sequenced stream' puts := by
  obtain ⟨s, -, -, p, -, -, rfl⟩ := splitShard_ok h.nodup hok
  have ha := ((h.closing [s.shardId]).add (s.startingHashKey, p - 1) (some s.shardId) none).add
    (p, s.endingHashKey) (some s.shardId) none
  exact ha.congr (by simp [KinesisStream.recount]) rfl

theorem Sequenced.merge {id₁ id₂ : Str}
    (hok : mergeShards stream id₁ id₂ = .ok stream') : Sequenced stream' puts := by
  obtain ⟨s, -, t, -, -, -, -, rfl⟩ := mergeShards_ok h.nodup hok
  exact ((h.closing [s.shardId, t.shardId]).add _ _ _).congr rfl rfl

theorem Sequenced.closeShard (id : Str) : Sequenced (closeShard stream id) puts := by
  rw [Kinesis.closeShard, closeFirst_eq h.nodup]
  exact h.closing [id]

end

theorem Sequenced.openPieces (original : List KinesisShard) (h : Sequenced stream puts) (rs : List (ℕ × ℕ)) :
    Sequenced (openPieces original stream rs).1 puts := by
  induction rs generalizing stream with
  | nil => exact h
  | cons r rs ih => exact ih (h.add r (parentFor original r) none)

section

variable (h : Sequenced stream puts)
include h

theorem Sequenced.mergeChain {tstart : ℕ} {acc : Str} :
    Sequenced (mergeChain tstart stream acc pieces) puts := by
  induction pieces generalizing stream acc with
  | nil => exact h
  | cons p pieces ih =>
      exact ih (((h.closeShard p.2).add (tstart, p.1.2) (some acc) (some p.2)).closeShard acc)

theorem Sequenced.mergeTarget (target : ℕ × ℕ) : Sequenced (mergeTarget pieces stream target) puts := by
  unfold Kinesis.mergeTarget
  split
  · exact (h.closeShard _).mergeChain
  · exact h

theorem Sequenced.update {target : ℤ}
    (hok : updateShardCount stream target = .ok stream') : Sequenced stream' puts := by
  rw [updateShardCount] at hok
  split_ifs at hok
  cases hok
  have hc := h.map (fun _ _ hn => hn.close) fun _ => rfl
  have hm pieces targets original rs := foldlRecOn (motive := fun stream => Sequenced stream puts) targets
    (Kinesis.mergeTarget pieces) (hc.openPieces original rs) fun _ h target _ => h.mergeTarget target
  exact (hm ..).congr rfl rfl

theorem Sequenced.trim (now : ℤ) : Sequenced (stream.trim now) puts := by
  refine h.map (fun i s hn => ⟨hn.shardId, hn.numbers, ?_, fun j r hr => ?_⟩) fun _ => rfl
  · rw [KinesisShard.trim, length_drop]
    exact lt_of_le_of_lt (sub_le _ _) hn.length
  · have hle := trimCount_le (stream.cutoff now) s.records
    have hlt := hn.length
    rw [KinesisShard.trim, getElem?_drop] at hr
    rw [hn.records _ r hr]
    simp only [KinesisShard.trim, length_drop]
    congr 1
    omega

end

theorem createStream_sequenced {shardCount : ℤ} {onDemand : Bool} {maxRecordSizeKib : Option ℤ}
    {strategy : RecordDistributionStrategy}
    (hok : createStream shardCount onDemand maxRecordSizeKib strategy = .ok stream) :
    Sequenced stream [] := by
  obtain ⟨count, -, -, rfl⟩ := createStream_ok hok
  refine ⟨by simp [buildStreamShards, uniformRanges], fun i s hs => ?_, by simp⟩
  rw [buildStreamShards, getElem?_map] at hs
  obtain ⟨⟨r, j⟩, he, rfl⟩ := Option.map_eq_some_iff.mp hs
  obtain rfl : j = i := by
    rw [getElem?_zipIdx] at he
    obtain ⟨_, -, he⟩ := Option.map_eq_some_iff.mp he
    simpa using (Prod.mk.inj he).2.symm
  exact ⟨rfl, rfl, one_pos, fun _ _ h => by cases h⟩

theorem Numbered.append {i : ℕ} (h : Numbered puts i s) (now : ℤ) (partitionKey : Str)
    (data : Bytes) : Numbered (puts ++ [⟨s.shardId, (s.nextRecord now partitionKey data).sequenceNumber⟩]) i
      (s.append now partitionKey data) where
  shardId := h.shardId
  numbers := by
    obtain ⟨k, hk⟩ := Nat.exists_eq_add_of_lt h.length
    show numbersOf _ s.shardId = (range' 1 s.nextSequenceNumber).map (mint s.shardId)
    rw [numbersOf, filter_append, map_append, ← numbersOf, h.numbers, hk, range'_concat]
    simp [KinesisShard.nextRecord, mint, hk, add_comm 1]
  length := by
    have hlt := h.length
    simp [KinesisShard.append]
    omega
  records j r hr := by
    have hlt := h.length
    simp only [KinesisShard.append, length_append, length_singleton] at hr ⊢
    rw [getElem?_append] at hr
    split_ifs at hr with hj
    · rw [h.records j r hr]
      congr 1
      omega
    · rw [getElem?_singleton] at hr
      split_ifs at hr with hz
      cases hr
      show mint s.shardId s.nextSequenceNumber = _
      congr 1
      omega

theorem Sequenced.put (h : Sequenced stream puts) {md5 : Hash} {now : ℤ} {tooLong tooLarge : ServiceError}
    {entry : PutEntry} {p : Put} (hok : putEntry md5 now tooLong tooLarge stream entry = .ok (p, stream')) :
    Sequenced stream' (puts ++ [p]) := by
  have hi := (putEntry_extends hok).ids
  obtain ⟨cursor, idx, shard, partitionKey, data, hs, rfl, rfl⟩ := putEntry_ok hok
  refine ⟨h.next.trans (length_modify ..).symm, fun i s hget => ?_, fun q hq => ?_⟩
  · rw [getElem?_modify] at hget
    split_ifs at hget with heq
    · subst heq
      rw [hs] at hget
      cases hget
      exact (h.shards idx shard hs).append now partitionKey data
    · have hn := h.shards i s (by simpa using hget)
      refine ⟨hn.shardId, ?_, hn.length, hn.records⟩
      rw [numbersOf, filter_append, filter_cons_of_neg, filter_nil, append_nil]
      · exact hn.numbers
      · rw [hn.shardId, (h.shards idx shard hs).shardId]
        simpa using fun hc => heq (shardIdOf_injective hc)
  · rw [ids, hi]
    rcases mem_append.mp hq with hq | hq
    · exact h.given q hq
    · rw [mem_singleton.mp hq]
      exact mem_map_of_mem (mem_of_getElem? hs)

theorem Produced.sequenced (h : Produced stream puts) : Sequenced stream puts := by
  induction h with
  | create hok => exact createStream_sequenced hok
  | split _ hok ih => exact ih.split hok
  | merge _ hok ih => exact ih.merge hok
  | update _ hok ih => exact ih.update hok
  | put _ hok ih => exact ih.put hok
  | trim _ now ih => exact ih.trim now

end Runs

/-! ## Iterators -/

/-- The first place at which a test holds that holds from one place on. -/
theorem findIdx_eq_of_le {α : Type} {test : α → Bool} {l : List α} {k : ℕ} (hk : k ≤ l.length)
    (h : ∀ j (hj : j < l.length), test l[j] ↔ k ≤ j) : l.findIdx test = k := by
  rcases hk.lt_or_eq with hlt | rfl
  · refine (findIdx_eq hlt).mpr ⟨(h k hlt).mpr le_rfl, fun j hj => ?_⟩
    exact Bool.eq_false_iff.mpr fun ht => absurd ((h j _).mp ht) (by omega)
  · refine findIdx_eq_length.mpr fun x hx => Bool.eq_false_iff.mpr fun ht => ?_
    obtain ⟨j, hj, rfl⟩ := mem_iff_getElem.mp hx
    have := (h j hj).mp ht
    omega

section Iterators

variable {puts : List Put} {i n : ℕ} {s : KinesisShard}

/-- The records that an iterator at a number, or after it, is for. -/
def isFrom (q : Str) (after : Bool) (r : KinesisRecord) : Bool :=
  if after then compare q r.sequenceNumber = .lt else compare q r.sequenceNumber ≠ .gt

/-- A number that the shard has given out stands for a place, as long as the shard has a record. -/
theorem Numbered.resolve (h : Numbered puts i s) (hs : s.nextSequenceNumber < 2 ^ 128)
    (hn : n < s.nextSequenceNumber) (hne : s.records ≠ []) (after : Bool) :
    resolveSequenceNumberIndex s (mint s.shardId n) after =
      .ok (s.records.findIdx (isFrom (mint s.shardId n) after)) := by
  obtain ⟨a, ha⟩ : ∃ a, s.nextSequenceNumber - s.records.length = a := ⟨_, rfl⟩
  have hl := h.length
  have hr (j : ℕ) (hj : j < s.records.length) : s.records[j].sequenceNumber = mint s.shardId (a + j) ∧
      compare (mint s.shardId n) s.records[j].sequenceNumber = compare n (a + j) := by
    rw [h.records j _ (getElem?_eq_getElem hj), ha]
    exact ⟨rfl, compare_mint (by omega) (by omega)⟩
  have hq (j : ℕ) (hj : j < s.records.length) : s.records[j].sequenceNumber = mint s.shardId n ↔
    a + j = n := by
    rw [(hr j hj).1, mint_inj]
    exact and_iff_right rfl
  have hf : s.records.findIdx (isFrom (mint s.shardId n) after) = (if after then n + 1 else n) - a := by
    refine findIdx_eq_of_le (by split <;> omega) fun j hj => ?_
    rw [isFrom, (hr j hj).2]
    cases after
    · simp [compare_gt_iff_gt]
      omega
    · simp [compare_lt_iff_lt]
      omega
  rw [hf, resolveSequenceNumberIndex]
  by_cases han : a ≤ n
  · have hlt : n - a < s.records.length := by omega
    have hp : s.records.findIdx? (fun r => r.sequenceNumber = mint s.shardId n) = some (n - a) := by
      refine findIdx?_eq_some_iff_getElem.mpr ⟨hlt, decide_eq_true ((hq _ hlt).mpr (by omega)),
        fun j hj => ?_⟩
      simp only [hq j (by omega), decide_eq_true_eq]
      omega
    rw [hp]
    cases after
    · rfl
    · exact congrArg _ (show n - a + 1 = n + 1 - a by omega)
  · have hp : s.records.findIdx? (fun r => r.sequenceNumber = mint s.shardId n) = none := by
      refine findIdx?_eq_none_iff.mpr fun r hm => decide_eq_false fun heq => ?_
      obtain ⟨j, hj, rfl⟩ := mem_iff_getElem.mp hm
      have := (hq j hj).mp heq
      omega
    have h0 := (hr 0 (length_pos_iff.mpr hne)).2
    rw [hp, head?_eq_getElem?, getElem?_eq_getElem (length_pos_iff.mpr hne)]
    dsimp only
    rw [if_pos ⟨h0.trans (compare_lt_iff_lt.mpr (by omega)), sequenceShardDiscriminator_mint (by omega)⟩]
    exact congrArg _ (show 0 = (if after then n + 1 else n) - a by split <;> omega)

theorem Numbered.mem_numbersOf (h : Numbered puts i s) {q : Str} (hq : q ∈ numbersOf puts s.shardId) :
    ∃ n, 0 < n ∧ n < s.nextSequenceNumber ∧ q = mint s.shardId n := by
  rw [h.numbers] at hq
  obtain ⟨n, hn, rfl⟩ := mem_map.mp hq
  rw [mem_range'_1] at hn
  exact ⟨n, by omega, by omega, rfl⟩

theorem Numbered.mem_puts (h : Numbered puts i s) (h0 : 0 < n) (hn : n < s.nextSequenceNumber) :
    ⟨s.shardId, mint s.shardId n⟩ ∈ puts := by
  have hm : mint s.shardId n ∈ numbersOf puts s.shardId := by
    rw [h.numbers]
    exact mem_map_of_mem (mem_range'_1.mpr (by omega))
  obtain ⟨p, hp, hq⟩ := mem_map.mp hm
  obtain ⟨hp, hid⟩ := mem_filter.mp hp
  rw [← hq, ← of_decide_eq_true hid]
  exact hp

theorem Numbered.pairwise (h : Numbered puts i s) (hs : s.nextSequenceNumber < 2 ^ 128) :
    (numbersOf puts s.shardId).Pairwise fun a b => compare a b = .lt := by
  rw [h.numbers, pairwise_map]
  refine (pairwise_lt_range' 1).imp_of_mem fun hm hn hlt => ?_
  rw [mem_range'_1] at hm hn
  rw [compare_mint (by omega) (by omega), compare_lt_iff_lt]
  exact hlt

end Iterators

/-! ## Uniqueness -/

section Uniqueness

variable {stream : KinesisStream} {puts : List Put}

theorem Sequenced.exists_number (h : Sequenced stream puts) {p : Put} (hp : p ∈ puts) :
    ∃ i n s, stream.shards[i]? = some s ∧ Numbered puts i s ∧ 0 < n ∧ n < s.nextSequenceNumber ∧
      p = ⟨shardIdOf i, mint (shardIdOf i) n⟩ := by
  obtain ⟨i, s, hs, hid⟩ := h.exists_shard hp
  have hn := h.shards i s hs
  obtain ⟨n, h0, hlt, hq⟩ :=
    hn.mem_numbersOf (mem_map.mpr ⟨p, mem_filter.mpr ⟨hp, by simpa using hid.symm⟩, rfl⟩)
  refine ⟨i, n, s, hs, hn, h0, hlt, ?_⟩
  rw [← hn.shardId, ← hq, hid]

theorem Sequenced.nodup_puts (h : Sequenced stream puts) : puts.Nodup := by
  rw [nodup_iff_count_le_one]
  intro p
  by_cases hp : p ∈ puts
  · obtain ⟨i, s, hs, hid⟩ := h.exists_shard hp
    have hn : ((puts.filter fun q => q.shardId = s.shardId).map Put.sequenceNumber).Nodup := by
      rw [← numbersOf, (h.shards i s hs).numbers]
      exact (nodup_range' ..).map fun m n heq => (mint_inj.mp heq).2
    rw [← count_filter (p := fun q => q.shardId = s.shardId) (by simpa using hid.symm)]
    exact nodup_iff_count_le_one.mp hn.of_map p
  · rw [count_eq_zero_of_not_mem hp]
    exact zero_le 1

/-- **Sequence numbers of a stream.**  An iterator at or after a number that the shard has given out starts at
the first record with such a number, exactly when the shard has a record; the numbers of a shard increase; and
no number is given out twice exactly when at most one of the shards with the largest discriminator was
written to. -/
theorem sequence_numbers (h : Produced stream puts) (hi : stream.nextShardIndex < 2 ^ 31)
    (hc : ∀ s ∈ stream.shards, s.nextSequenceNumber < 2 ^ 128) :
    (∀ s ∈ stream.shards, ∀ q ∈ numbersOf puts s.shardId,
      (shardIteratorStartIndex s (.atSequenceNumber (some q)) = .ok (s.records.findIdx (isFrom q false)) ↔
        s.records ≠ []) ∧
      (shardIteratorStartIndex s (.afterSequenceNumber (some q)) = .ok (s.records.findIdx (isFrom q true)) ↔
        s.records ≠ [])) ∧
    (∀ s ∈ stream.shards, (numbersOf puts s.shardId).Pairwise fun a b => compare a b = .lt) ∧
    ((puts.map Put.sequenceNumber).Nodup ↔ ∀ p ∈ puts, ∀ q ∈ puts, shardDiscriminator p.shardId = 99999 →
      shardDiscriminator q.shardId = 99999 → p.shardId = q.shardId) := by
  have hq := h.sequenced
  refine ⟨fun s hs q hm => ?_, fun s hs => ?_, ?_⟩
  · obtain ⟨i, hget⟩ := mem_iff_getElem?.mp hs
    have hn := hq.shards i s hget
    obtain ⟨n, -, hlt, rfl⟩ := hn.mem_numbersOf hm
    have hr (after : Bool) : resolveSequenceNumberIndex s (mint s.shardId n) after =
        .ok (s.records.findIdx (isFrom (mint s.shardId n) after)) ↔ s.records ≠ [] := by
      refine ⟨fun hok hnil => ?_, fun hne => hn.resolve (hc s hs) hlt hne after⟩
      rw [resolveSequenceNumberIndex, hnil] at hok
      cases hok
    have hne : mint s.shardId n ≠ [] :=
      append_ne_nil_of_left_ne_nil (ne_nil_of_length_eq_add_one (length_discriminator _)) _
    obtain ⟨c, text, hq⟩ := exists_cons_of_ne_nil hne
    rw [hq] at hr ⊢
    exact ⟨hr false, hr true⟩
  · obtain ⟨i, hget⟩ := mem_iff_getElem?.mp hs
    exact (hq.shards i s hget).pairwise (hc s hs)
  · constructor
    · intro hnd p hp p' hp' hd hd'
      obtain ⟨i, n, s, -, hn, h0, hlt, rfl⟩ := hq.exists_number hp
      obtain ⟨j, m, t, -, hm, h0', hlt', rfl⟩ := hq.exists_number hp'
      -- both shards have given out their first number
      have he := inj_on_of_nodup_map hnd (hn.mem_puts one_pos (by omega)) (hm.mem_puts one_pos (by omega))
        (mint_inj.mpr ⟨by rw [hn.shardId, hm.shardId, hd, hd'], rfl⟩)
      rw [← hn.shardId, ← hm.shardId]
      exact (Put.mk.inj he).1
    · intro hone
      refine hq.nodup_puts.map_on fun p hp p' hp' heq => ?_
      obtain ⟨i, n, s, hs, -, -, -, rfl⟩ := hq.exists_number hp
      obtain ⟨j, m, t, ht, -, -, -, rfl⟩ := hq.exists_number hp'
      obtain ⟨hd, rfl⟩ := mint_inj.mp heq
      have hid : shardIdOf i = shardIdOf j := by
        by_cases hmax : shardDiscriminator (shardIdOf i) = 99999
        · exact hone _ hp _ hp' hmax (hd ▸ hmax)
        · have hin := hq.next ▸ (List.getElem?_eq_some_iff.mp hs).1
          have hjn := hq.next ▸ (List.getElem?_eq_some_iff.mp ht).1
          rw [shardDiscriminator_shardIdOf (by omega)] at hmax hd
          rw [shardDiscriminator_shardIdOf (by omega)] at hd
          rw [show i = j by omega]
      rw [hid]

/-- **A shard holds the last of what was written to it**, in order, after any run of puts, reshardings and
trims, and no shard that was written to goes away. -/
theorem retained_suffix (h : Produced stream puts) :
    (∀ s ∈ stream.shards, s.records.map (·.sequenceNumber) <:+ numbersOf puts s.shardId) ∧
    ∀ p ∈ puts, p.shardId ∈ ids stream.shards := by
  refine ⟨fun s hs => ?_, h.sequenced.given⟩
  obtain ⟨i, hi⟩ := mem_iff_getElem?.mp hs
  have hn := h.sequenced.shards i s hi
  obtain ⟨k, hk⟩ := Nat.exists_eq_add_of_lt hn.length
  have hr : s.records.map (·.sequenceNumber) = (range' (1 + k) s.records.length).map (mint s.shardId) := by
    refine ext_getElem (by simp) fun j hj _ => ?_
    rw [length_map] at hj
    rw [getElem_map, hn.records j _ (getElem?_eq_getElem hj), getElem_map, getElem_range'_1]
    congr 1
    omega
  rw [hr, hn.numbers, show s.nextSequenceNumber - 1 =
    k + s.records.length by omega, ← range'_append_1, map_append]
  exact suffix_append _ _

end Uniqueness

namespace Example

def shard : KinesisShard := (newShard (shardIdOf 0) (0, maxHashKey) none none).append 0 "k" [97]

def written : KinesisStream := ⟨24, 1, 1, [shard], 1, none, .userPartitionKey, 0⟩

theorem produced_written : Produced written [⟨shardIdOf 0, mint (shardIdOf 0) 1⟩] := by
  have hc : Produced _ _ := .create (show createStream 1 false none .userPartitionKey = _ from rfl)
  exact hc.put (show putEntry (fun _ => 0) 0 expiredIterator expiredIterator _
    ⟨some "k", some "YQ==", none⟩ = _ from rfl)

/-- The shard has lost its record, and refuses the number of it; two shards give out the same number. -/
theorem emptied_shard_refuses : (∃ stream puts s q, Produced stream puts ∧ s ∈ stream.shards ∧
      q ∈ numbersOf puts s.shardId ∧
        (shardIteratorStartIndex s (.atSequenceNumber (some q))).toOption = none) ∧
    mint (shardIdOf 99999) 1 = mint (shardIdOf 100000) 1 :=
  ⟨⟨_, _, _, mint (shardIdOf 0) 1, .trim produced_written (hours 25), mem_cons_self, by decide +kernel,
    by decide +kernel⟩, by decide +kernel⟩

theorem sequence_numbers_written :
    shardIteratorStartIndex shard (.atSequenceNumber (some (mint (shardIdOf 0) 1))) = .ok 0 := by
  have hq := sequence_numbers produced_written (by decide) (by decide +kernel)
  exact ((hq.1 shard mem_cons_self _ (by decide +kernel)).1).mpr nofun

theorem retained_suffix_written : shard.records.map (·.sequenceNumber) <:+ [mint (shardIdOf 0) 1] :=
  (retained_suffix produced_written).1 shard mem_cons_self

end Example

end Fakecloud.Kinesis

import Fakecloud.Kinesis.Shards
import Mathlib.Logic.Relation

/-!
# Kinesis: the open shards partition the hash keys

* `Sound` — ids are given out once, the open shards partition the hash keys, and from every closed shard
  each of its hash keys leads to an open one;
* `Sound.replace` — closing some shards and opening others for the same hash keys keeps this.

Every call is made of such steps: a split, a merge, and for a reshard one refinement of all open shards
followed by merges.
-/

namespace Fakecloud.Kinesis

open Text Segments List

/-! ## Closing -/

def closing (gone : List Str) (shards : List KinesisShard) : List KinesisShard :=
  shards.map fun s => if s.shardId ∈ gone then s.close else s

abbrev ids (shards : List KinesisShard) : List Str := shards.map KinesisShard.shardId

section Closing

variable {gone gone' : List Str} {shards : List KinesisShard} {id : Str} {s : KinesisShard}

theorem shardId_closing (s : KinesisShard) :
    (if s.shardId ∈ gone then s.close else s).shardId = s.shardId := by
  split <;> rfl

theorem ids_closing (gone : List Str) (shards : List KinesisShard) :
    ids (closing gone shards) = ids shards := by
  rw [ids, closing, map_map]
  exact map_congr_left fun s _ => shardId_closing s

theorem closing_closing : closing gone' (closing gone shards) = closing (gone ++ gone') shards := by
  rw [closing, closing, map_map]
  refine map_congr_left fun s _ => ?_
  by_cases h : s.shardId ∈ gone <;>
    simp [h, KinesisShard.close]

theorem closing_congr (gone' : List Str) (h : ∀ s ∈ shards, s.shardId ∈ gone ↔ s.shardId ∈ gone') :
    closing gone shards = closing gone' shards := map_congr_left fun s hs => by simp only [h s hs]

theorem closing_of_not_mem (h : ∀ s ∈ shards, s.shardId ∉ gone) : closing gone shards = shards := by
  exact (map_congr_left fun s hs => if_neg (h s hs)).trans (map_id' _)

section

variable (h : (ids shards).Nodup)
include h

theorem closeFirst_eq : closeFirst id shards = closing [id] shards := by
  induction shards with
  | nil => rfl
  | cons s shards ih =>
    obtain ⟨hot, hr⟩ := nodup_cons.mp h
    rw [closeFirst, closing, map_cons]
    by_cases hid : s.shardId = id
    · have ho : closing [id] shards = shards := closing_of_not_mem fun t ht hm =>
        hot (by rw [hid, ← mem_singleton.mp hm]; exact mem_map_of_mem ht)
      rw [if_pos hid, if_pos (by simp [hid])]
      exact congrArg _ ho.symm
    · rw [if_neg hid, if_neg (by simp [hid]), ih hr]
      rfl

theorem closeAt_eq {idx : ℕ}
    (hs : shards[idx]? = some s) : closeAt idx shards = closing [s.shardId] shards := by
  induction shards generalizing idx with
  | nil => cases hs
  | cons t shards ih =>
    obtain ⟨hot, hr⟩ := nodup_cons.mp h
    cases idx with
    | zero =>
      obtain rfl : t = s := by simpa using hs
      have ho : closing [t.shardId] shards = shards := closing_of_not_mem fun u hu hm =>
        hot (by rw [← mem_singleton.mp hm]; exact mem_map_of_mem hu)
      rw [closing, map_cons, if_pos (mem_singleton_self _)]
      exact congrArg _ ho.symm
    | succ idx =>
      have hs' : shards[idx]? = some s := by simpa using hs
      have hne : t.shardId ∉ [s.shardId] := fun hm =>
        hot (by rw [mem_singleton.mp hm]
                exact mem_map_of_mem (mem_of_getElem? hs'))
      rw [closing, map_cons, if_neg hne]
      exact congrArg _ (ih hr hs')

/-- What the shards with given ids are, when there are two of them. -/
theorem filter_pair_perm {t : KinesisShard} (hs : s ∈ shards) (ht : t ∈ shards)
    (hne : s.shardId ≠ t.shardId) :
    (shards.filter fun u => u.shardId ∈ [s.shardId, t.shardId]).Perm [s, t] := by
  have hi := inj_on_of_nodup_map h
  have hst : s ≠ t := fun heq => hne (congrArg _ heq)
  refine (perm_ext_iff_of_nodup (h.of_map.filter _) (by simp [hst])).mpr fun u => ?_
  simp only [mem_filter, mem_cons, not_mem_nil, or_false, decide_eq_true_eq]
  constructor
  · rintro ⟨hu, hid | hid⟩
    · exact .inl (hi hu hs hid)
    · exact .inr (hi hu ht hid)
  · rintro (rfl | rfl)
    · exact ⟨hs, .inl rfl⟩
    · exact ⟨ht, .inr rfl⟩

theorem filter_single_perm (hs : s ∈ shards) : (shards.filter fun u => u.shardId ∈ [s.shardId]).Perm [s] := by
  have hi := inj_on_of_nodup_map h
  refine (perm_ext_iff_of_nodup (h.of_map.filter _) (by simp)).mpr fun u => ?_
  simp only [mem_filter, mem_singleton, decide_eq_true_eq]
  constructor
  · rintro ⟨hu, hid⟩
    exact hi hu hs hid
  · rintro rfl
    exact ⟨hs, rfl⟩

end

end Closing

/-! ## Counting open shards -/

def owns (n : ℕ) (s : KinesisShard) : Bool := s.isOpen && covers n (shardHashRange s)

variable {n count : ℕ} {s : KinesisShard} {stream stream' : KinesisStream}

theorem owns_iff : owns n s ↔ s.isOpen ∧ covers n (shardHashRange s) := by
  rw [owns, Bool.and_eq_true]

theorem owns_newShard (n : ℕ) (id : Str) (range : ℕ × ℕ) (parent adjacent : Option Str) :
    owns n (newShard id range parent adjacent) = covers n range := by
  rfl

theorem owns_of_isOpen (h : s.isOpen) : owns n s = covers n (s.startingHashKey, s.endingHashKey) := by
  rw [owns, h]
  rfl

theorem countP_openRanges (n : ℕ) (shards : List KinesisShard) :
    (openRanges shards).countP (covers n) = shards.countP (owns n) := by
  rw [openRanges, countP_map, countP_filter]
  refine countP_congr fun s _ => ?_
  simp [owns, and_comm]

section Counting

theorem countP_closing (gone : List Str) (shards : List KinesisShard) {p : KinesisShard → Bool}
    (hp : ∀ s, p s → s.isOpen) :
    (closing gone shards).countP p + (shards.filter fun s => s.shardId ∈ gone).countP p =
      shards.countP p := by
  induction shards with
  | nil => rfl
  | cons s shards ih =>
    have hc : p s.close = false := by
      by_contra h
      have := hp _ (by simpa using h)
      cases this
    rw [closing] at ih
    rw [closing, map_cons]
    by_cases hs : s.shardId ∈ gone
    · rw [if_pos hs, filter_cons_of_pos (by simpa using hs), countP_cons_of_neg (by simp [hc]),
        countP_cons, countP_cons]
      omega
    · rw [if_neg hs, filter_cons_of_neg (by simpa using hs), countP_cons, countP_cons]
      omega

end Counting

/-! ## The invariant -/

def Child (shards : List KinesisShard) (a b : Str) : Prop :=
  ∃ c ∈ shards, c.shardId = b ∧ (c.parentShardId = some a ∨ c.adjacentParentShardId = some a)

def Reaches (shards : List KinesisShard) : Str → Str → Prop := Relation.ReflTransGen (Child shards)

def Leads (shards : List KinesisShard) (s : KinesisShard) : Prop :=
  ∀ n, covers n (shardHashRange s) →
    ∃ o ∈ shards, owns n o ∧ Reaches shards s.shardId o.shardId

structure Sound (shards : List KinesisShard) (next : ℕ) : Prop where
  given : ∀ s ∈ shards, ∃ i < next, s.shardId = shardIdOf i
  nodup : (ids shards).Nodup
  ranges : ∀ s ∈ shards, s.startingHashKey ≤ s.endingHashKey
  partitions : ∀ n, shards.countP (owns n) = if n ≤ maxHashKey then 1 else 0
  lineage : ∀ s ∈ shards, s.isOpen = false → Leads shards s

section Invariant

variable {shards new : List KinesisShard} {gone : List Str} {next : ℕ}

theorem Sound.partition (h : Sound shards next) : Partitions maxHashKey (openRanges shards) := by
  intro n
  rw [countP_openRanges, h.partitions]

theorem Sound.length_le (h : Sound shards next) : shards.length ≤ next := by
  have hs : ids shards ⊆ (range next).map shardIdOf := by
    intro id hid
    obtain ⟨s, hs, rfl⟩ := mem_map.mp hid
    obtain ⟨i, hi, he⟩ := h.given s hs
    exact mem_map.mpr ⟨i, mem_range.mpr hi, he.symm⟩
  simpa [ids] using (h.nodup.subperm hs).length_le

theorem Sound.unique (h : Sound shards next) {n : ℕ} {s t : KinesisShard} (hs : s ∈ shards)
    (ht : t ∈ shards) (hns : owns n s) (hnt : owns n t) : s = t := by
  by_contra hne
  have hl : ({s, t} : Finset KinesisShard).card ≤ (shards.filter (owns n)).length := by
    refine le_trans (Finset.card_le_card fun u hu => ?_) (toFinset_card_le _)
    rw [mem_toFinset, mem_filter]
    rcases Finset.mem_insert.mp hu with rfl | hu
    · exact ⟨hs, hns⟩
    · rw [Finset.mem_singleton.mp hu]
      exact ⟨ht, hnt⟩
  rw [Finset.card_pair hne, ← countP_eq_length_filter, h.partitions] at hl
  split at hl <;> omega

theorem Child.mono {a b : Str} (h : Child shards a b) : Child (closing gone shards ++ new) a b := by
  obtain ⟨c, hc, hid, hp⟩ := h
  refine ⟨_, mem_append_left _ (mem_map_of_mem hc), ?_, ?_⟩
  · rw [shardId_closing, hid]
  · split <;> exact hp

theorem Reaches.mono {a b : Str} (h : Reaches shards a b) : Reaches (closing gone shards ++ new) a b :=
  Relation.ReflTransGen.lift id (fun _ _ hc => Child.mono hc) _ _ h

/-- A shard of the new stream is an old one, perhaps closed, or a new one. -/
theorem mem_replaced {u : KinesisShard} (hu : u ∈ closing gone shards ++ new) :
    (∃ s ∈ shards, u = if s.shardId ∈ gone then s.close else s) ∨ u ∈ new := by
  rcases mem_append.mp hu with hu | hu
  · obtain ⟨s, hs, rfl⟩ := mem_map.mp hu
    exact .inl ⟨s, hs, rfl⟩
  · exact .inr hu

/-- **Closing some shards and opening others for the same hash keys.** -/
theorem Sound.replace (h : Sound shards next) (gone : List Str)
    (hids : ids new = (range' next new.length).map shardIdOf) (hop : ∀ c ∈ new, c.isOpen)
    (hrn : ∀ c ∈ new, c.startingHashKey ≤ c.endingHashKey)
    (hcn : ∀ n, new.countP (owns n) = (shards.filter fun s => s.shardId ∈ gone).countP (owns n))
    (hln : ∀ s ∈ shards, s.shardId ∈ gone → ∀ n, owns n s → ∃ c ∈ new, covers n (shardHashRange c) ∧
        (c.parentShardId = some s.shardId ∨ c.adjacentParentShardId = some s.shardId)) :
    Sound (closing gone shards ++ new) (next + new.length) where
  given := by
    intro u hu
    rcases mem_replaced hu with ⟨s, hs, rfl⟩ | hu
    · obtain ⟨i, hi, hid⟩ := h.given s hs
      exact ⟨i, by omega, by rw [shardId_closing, hid]⟩
    · have hm : u.shardId ∈ ids new := mem_map_of_mem hu
      rw [hids] at hm
      obtain ⟨i, hi, hid⟩ := mem_map.mp hm
      rw [mem_range'_1] at hi
      exact ⟨i, hi.2, hid.symm⟩
  nodup := by
    rw [ids, map_append, ← ids, ids_closing, ← ids, hids]
    refine List.Nodup.append h.nodup ?_ ?_
    · exact List.Nodup.map shardIdOf_injective nodup_range'
    · intro id hol hnw
      obtain ⟨s, hs, rfl⟩ := mem_map.mp hol
      obtain ⟨i, hi, hid⟩ := h.given s hs
      obtain ⟨j, hj, hid'⟩ := mem_map.mp hnw
      rw [mem_range'_1] at hj
      have := shardIdOf_injective (hid'.trans hid)
      omega
  ranges := by
    intro u hu
    rcases mem_replaced hu with ⟨s, hs, rfl⟩ | hu
    · split <;> exact h.ranges s hs
    · exact hrn u hu
  partitions := by
    intro n
    rw [countP_append, hcn n, countP_closing gone shards fun s hs => (owns_iff.mp hs).1, h.partitions]
  lineage := by
    -- what a shard that is closed now had is had by its children
    have hl : ∀ s ∈ shards, ∀ n, owns n s → ∃ o ∈ closing gone shards ++ new, owns n o ∧
        Reaches (closing gone shards ++ new) s.shardId o.shardId := by
      intro s hs n hn
      by_cases hg : s.shardId ∈ gone
      · obtain ⟨c, hc, hcv, hp⟩ := hln s hs hg n hn
        have hm : c ∈ closing gone shards ++ new := mem_append_right _ hc
        exact ⟨c, hm, owns_iff.mpr ⟨hop c hc, hcv⟩, .single ⟨c, hm, rfl, hp⟩⟩
      · have hm : s ∈ closing gone shards := mem_map.mpr ⟨s, hs, if_neg hg⟩
        exact ⟨s, mem_append_left _ hm, hn, .refl⟩
    intro u hu hcl n hn
    rcases mem_replaced hu with ⟨s, hs, rfl⟩ | hu
    · rw [shardId_closing]
      have hcv : covers n (shardHashRange s) := by
        split at hn <;> exact hn
      by_cases hsp : s.isOpen
      · exact hl s hs n (owns_iff.mpr ⟨hsp, hcv⟩)
      · obtain ⟨o, ho, how, hr⟩ := h.lineage s hs (by simpa using hsp) n hcv
        obtain ⟨o', ho', how', hr'⟩ := hl o ho n how
        exact ⟨o', ho', how', hr.mono.trans hr'⟩
    · rw [hop u hu] at hcl
      cases hcl

end Invariant

/-! ## Creating, splitting, merging -/

/-- Where one uniform range starts; past the last one, the number after all hash keys. -/
def uniformCut (count i : ℕ) : ℕ :=
  if i = 0 then 0 else if i = count then maxHashKey + 1 else maxHashKey / count * i + 1

theorem uniformRanges_tiles (hp : 0 < count) (hle : count ≤ maxHashKey) :
    Tiles 0 (uniformRanges count) (maxHashKey + 1) := by
  have hq : 0 < maxHashKey / count := Nat.div_pos hle hp
  have hm : maxHashKey / count * count ≤ maxHashKey := Nat.div_mul_le_self _ _
  have hs : ∀ i < count, uniformCut count i < uniformCut count (i + 1) := by
    intro i hi
    have hlt : maxHashKey / count * (i + 1) ≤ maxHashKey / count * count := Nat.mul_le_mul_left _ hi
    rw [Nat.mul_succ] at hlt
    unfold uniformCut
    rw [if_neg (Nat.succ_ne_zero i), if_neg (c := i = count) (by omega)]
    split <;> split
    · omega
    · omega
    · omega
    · rw [Nat.mul_succ]
      omega
  have ht := tiles_range count hs
  have hr : uniformRanges count =
      (List.range count).map fun i => (uniformCut count i, uniformCut count (i + 1) - 1) := by
    refine map_congr_left fun i hi => ?_
    have hi' := mem_range.mp hi
    unfold uniformCut
    rw [if_neg (c := i = count) (by omega)]
    by_cases hl : i = count - 1
    · rw [if_pos hl, if_pos (show i + 1 = count by omega)]
      rfl
    · rw [if_neg hl, if_neg (show i + 1 ≠ count by omega)]
      rfl
  have he : uniformCut count count = maxHashKey + 1 := by
    rw [uniformCut, if_neg (by omega), if_pos rfl]
  rwa [← hr, he] at ht

/-- Shards for ranges, numbered from an index on. -/
def shardsFor (parent : ℕ × ℕ → Option Str) (next : ℕ) (rs : List (ℕ × ℕ)) : List KinesisShard :=
  (rs.zipIdx next).map fun e => newShard (shardIdOf e.2) e.1 (parent e.1) none

section ShardsFor

variable {parent : ℕ × ℕ → Option Str} {next : ℕ} {rs : List (ℕ × ℕ)}

theorem length_shardsFor : (shardsFor parent next rs).length = rs.length := by
  rw [shardsFor, length_map, length_zipIdx]

theorem ids_shardsFor : ids (shardsFor parent next rs) =
    (range' next (shardsFor parent next rs).length).map shardIdOf := by
  rw [length_shardsFor, ← zipIdx_map_snd, ids, shardsFor, map_map, map_map]
  rfl

theorem ranges_shardsFor : (shardsFor parent next rs).map shardHashRange = rs := by
  rw [shardsFor, map_map]
  exact zipIdx_map_fst next rs

theorem isOpen_shardsFor : ∀ c ∈ shardsFor parent next rs, c.isOpen := by
  intro c hc
  obtain ⟨e, -, rfl⟩ := mem_map.mp hc
  rfl

theorem exists_shardsFor {r : ℕ × ℕ} (hr : r ∈ rs) :
    ∃ c ∈ shardsFor parent next rs, shardHashRange c = r ∧ c.parentShardId = parent r := by
  rw [← @ranges_shardsFor parent next rs] at hr
  obtain ⟨c, hc, rfl⟩ := mem_map.mp hr
  obtain ⟨e, -, rfl⟩ := mem_map.mp hc
  exact ⟨_, hc, rfl, rfl⟩

theorem countP_shardsFor (n : ℕ) : (shardsFor parent next rs).countP (owns n) = rs.countP (covers n) := by
  rw [← @ranges_shardsFor parent next rs, countP_map, ranges_shardsFor]
  exact countP_congr fun c hc => by simp [owns, isOpen_shardsFor c hc]

theorem bounds_shardsFor {a b : ℕ} (h : Tiles a rs b) :
    ∀ c ∈ shardsFor parent next rs, c.startingHashKey ≤ c.endingHashKey := by
  intro c hc
  have hm : shardHashRange c ∈ rs := by
    rw [← @ranges_shardsFor parent next rs]
    exact mem_map_of_mem hc
  exact (h.bounds _ hm).2.1

end ShardsFor

/-- **A new stream is sound.** -/
theorem buildStreamShards_sound (hp : 0 < count) (hle : count ≤ maxHashKey) :
    Sound (buildStreamShards count) count := by
  have hb : buildStreamShards count = shardsFor (fun _ => none) 0 (uniformRanges count) := rfl
  have ht := uniformRanges_tiles hp hle
  have hl : (uniformRanges count).length = count := by simp [uniformRanges]
  have hids : ids (buildStreamShards count) = (range' 0 count).map shardIdOf := by
    rw [hb, ids_shardsFor, length_shardsFor, hl]
  refine ⟨?_, ?_, ?_, ?_, ?_⟩
  · intro s hs
    have hm : s.shardId ∈ ids (buildStreamShards count) := mem_map_of_mem hs
    rw [hids] at hm
    obtain ⟨i, hi, hid⟩ := mem_map.mp hm
    rw [mem_range'_1] at hi
    exact ⟨i, by omega, hid.symm⟩
  · rw [hids]
    exact List.Nodup.map shardIdOf_injective nodup_range'
  · rw [hb]
    exact bounds_shardsFor ht
  · intro n
    rw [hb, countP_shardsFor]
    exact ht.partitions n
  · intro s hs hc
    rw [hb] at hs
    rw [isOpen_shardsFor s hs] at hc
    cases hc

section Calls

variable {shards : List KinesisShard} {next : ℕ}

theorem findOpenShardIdx_ok {id : Str} {idx : ℕ} (h : findOpenShardIdx shards id = .ok idx) :
    ∃ s, shards[idx]? = some s ∧ s.shardId = id ∧ s.isOpen := by
  rw [findOpenShardIdx] at h
  rcases hi : shards.findIdx? fun s => s.shardId = id ∧ s.isOpen with _ | i
  · rw [hi] at h
    cases h
  · rw [hi] at h
    cases h
    obtain ⟨hlt, hp, -⟩ := findIdx?_eq_some_iff_getElem.mp hi
    rw [decide_eq_true_eq] at hp
    exact ⟨shards[idx], getElem?_eq_getElem hlt, hp⟩

/-- **A merge**: two shards whose ranges follow each other become one. -/
theorem Sound.merge (h : Sound shards next) {s t : KinesisShard} (hs : s ∈ shards) (ht : t ∈ shards)
    (hsp : s.isOpen) (htp : t.isOpen) (ha : s.endingHashKey + 1 = t.startingHashKey)
    {parent adjacent : Str} (hp : (parent = s.shardId ∧ adjacent = t.shardId) ∨
      (parent = t.shardId ∧ adjacent = s.shardId)) : Sound (closing [s.shardId, t.shardId] shards ++
      [newShard (shardIdOf next) (s.startingHashKey, t.endingHashKey) (some parent) (some adjacent)])
      (next + 1) := by
  have hsl := h.ranges s hs
  have htl := h.ranges t ht
  have hne : s.shardId ≠ t.shardId := fun heq => by
    have := inj_on_of_nodup_map h.nodup hs ht heq
    subst this
    omega
  refine h.replace _ rfl (by simp [newShard]) (by simp [newShard]; omega) (fun n => ?_)
    fun u hu hg n hn => ⟨_, mem_singleton_self _, ?_, ?_⟩
  · rw [(filter_pair_perm h.nodup hs ht hne).countP_eq, countP_singleton, owns_newShard, countP_cons,
      countP_singleton, owns_of_isOpen hsp, owns_of_isOpen htp, add_comm, ← ha]
    exact count_join hsl (by omega) n
  · have hc := covers_iff.mp (owns_iff.mp hn).2
    have hi := inj_on_of_nodup_map h.nodup
    rcases mem_cons.mp hg with hid | hid
    · obtain rfl := hi hu hs hid
      exact covers_iff.mpr ⟨hc.1, by simp only [newShard, shardHashRange] at hc ⊢; omega⟩
    · obtain rfl := hi hu ht (mem_singleton.mp hid)
      exact covers_iff.mpr ⟨by simp only [newShard, shardHashRange] at hc ⊢; omega, hc.2⟩
  · rcases mem_cons.mp hg with hid | hid
    · rcases hp with ⟨rfl, rfl⟩ | ⟨rfl, rfl⟩ <;> simp [newShard, hid]
    · rw [mem_singleton] at hid
      rcases hp with ⟨rfl, rfl⟩ | ⟨rfl, rfl⟩ <;> simp [newShard, hid]

/-- **A split**: one shard becomes two. -/
theorem Sound.split (h : Sound shards next) {s : KinesisShard} (hs : s ∈ shards) (hsp : s.isOpen)
    {point : ℕ} (hlo : s.startingHashKey < point) (hhi : point ≤ s.endingHashKey) :
    Sound (closing [s.shardId] shards ++
      [newShard (shardIdOf next) (s.startingHashKey, point - 1) (some s.shardId) none,
        newShard (shardIdOf (next + 1)) (point, s.endingHashKey) (some s.shardId) none])
      (next + 2) := by
  refine h.replace _ rfl (by simp [newShard]) (by simp [newShard]; omega) (fun n => ?_)
    fun u hu hg n hn => ?_
  · have hj := count_join (a := s.startingHashKey) (b := point - 1) (c := s.endingHashKey)
      (by omega) (by omega) n
    rw [show point - 1 + 1 = point by omega] at hj
    rw [(filter_single_perm h.nodup hs).countP_eq, countP_singleton, owns_of_isOpen hsp, hj,
      countP_cons, countP_singleton, owns_newShard, owns_newShard, add_comm]
  · obtain rfl := inj_on_of_nodup_map h.nodup hu hs (mem_singleton.mp hg)
    have hc := covers_iff.mp (owns_iff.mp hn).2
    by_cases hn' : n < point
    · refine ⟨_, mem_cons_self, covers_iff.mpr ⟨hc.1, ?_⟩, .inl rfl⟩
      simp only [newShard, shardHashRange]
      omega
    · refine ⟨_, mem_cons_of_mem _ (mem_singleton_self _), covers_iff.mpr ⟨?_, hc.2⟩, .inl rfl⟩
      simp only [newShard, shardHashRange]
      omega

end Calls

/-- A stream whose shards are sound and whose counter of open shards is right, as far as it goes. -/
structure SoundStream (stream : KinesisStream) : Prop where
  shards : Sound stream.shards stream.nextShardIndex
  count : stream.openShardCount = asI32 (stream.shards.countP KinesisShard.isOpen)

theorem createStream_ok {shardCount : ℤ} {onDemand : Bool} {maxRecordSizeKib : Option ℤ}
    {strategy : RecordDistributionStrategy}
    (hok : createStream shardCount onDemand maxRecordSizeKib strategy = .ok stream) :
    ∃ count : ℕ, 0 < count ∧ count < 2 ^ 31 ∧
      stream = ⟨24, count, count, buildStreamShards count, count, maxRecordSizeKib, strategy, 0⟩ := by
  rw [createStream] at hok
  split at hok
  · cases hok
  split at hok
  · cases hok
  split at hok
  · cases hok
  cases hok
  exact ⟨_, by split <;> omega, by split <;> omega, rfl⟩

theorem splitShard_ok {id point : Str} (hn : (ids stream.shards).Nodup)
    (hok : splitShard stream id point = .ok stream') :
    ∃ s ∈ stream.shards, s.isOpen ∧ ∃ p, s.startingHashKey < p ∧ p ≤ s.endingHashKey ∧ stream' = { stream with
        shards := closing [s.shardId] stream.shards ++
          [newShard (shardIdOf stream.nextShardIndex) (s.startingHashKey, p - 1) (some s.shardId) none,
            newShard (shardIdOf (stream.nextShardIndex + 1)) (p, s.endingHashKey) (some s.shardId) none]
        nextShardIndex := stream.nextShardIndex + 2 }.recount := by
  obtain ⟨idx, hi, hr⟩ := bind_eq_ok.mp hok
  obtain ⟨s, hs, rfl, hso⟩ := findOpenShardIdx_ok hi
  rw [hs] at hr
  rcases hp : parseUnsigned (2 ^ 128) point with _ | p
  · rw [hp] at hr
    cases hr
  · rw [hp] at hr
    dsimp only [shardHashRange] at hr
    split at hr
    · cases hr
    · next hin =>
      cases hr
      refine ⟨s, mem_of_getElem? hs, hso, p, by omega, by omega, ?_⟩
      rw [← closeAt_eq hn hs]
      rfl

theorem splitShard_sound {id point : Str} (h : SoundStream stream)
    (hok : splitShard stream id point = .ok stream') : SoundStream stream' := by
  obtain ⟨s, hm, ho, p, hlo, hhi, rfl⟩ := splitShard_ok h.shards.nodup hok
  exact ⟨h.shards.split hm ho hlo hhi, rfl⟩

theorem mergeShards_ok {id₁ id₂ : Str} (hn : (ids stream.shards).Nodup)
    (hok : mergeShards stream id₁ id₂ = .ok stream') :
    ∃ s ∈ stream.shards, ∃ t ∈ stream.shards, s.isOpen ∧ t.isOpen ∧
      (s.endingHashKey + 1 = t.startingHashKey ∨ t.endingHashKey + 1 = s.startingHashKey) ∧
        stream' = { stream with
        shards := closing [s.shardId, t.shardId] stream.shards ++
          [newShard (shardIdOf stream.nextShardIndex) (min s.startingHashKey t.startingHashKey,
            max s.endingHashKey t.endingHashKey) (some s.shardId) (some t.shardId)]
        nextShardIndex := stream.nextShardIndex + 1 }.recount := by
  rw [mergeShards] at hok
  split at hok
  · cases hok
  obtain ⟨idx₁, hid, hok⟩ := bind_eq_ok.mp hok
  obtain ⟨idx₂, hi, hok⟩ := bind_eq_ok.mp hok
  obtain ⟨s, hs, rfl, hsp⟩ := findOpenShardIdx_ok hid
  obtain ⟨t, ht, rfl, htp⟩ := findOpenShardIdx_ok hi
  rw [hs, ht] at hok
  dsimp only [shardHashRange] at hok
  split at hok
  · cases hok
  next ha =>
  cases hok
  refine ⟨s, mem_of_getElem? hs, t, mem_of_getElem? ht, hsp, htp, by omega, ?_⟩
  have ht' : (closing [s.shardId] stream.shards)[idx₂]? =
      some (if t.shardId ∈ [s.shardId] then t.close else t) := by
    rw [closing, getElem?_map, ht]
    rfl
  have hc : closeAt idx₂ (closeAt idx₁ stream.shards) = closing [s.shardId, t.shardId] stream.shards := by
    rw [closeAt_eq hn hs, closeAt_eq (by rwa [ids_closing]) ht', shardId_closing, closing_closing]
    rfl
  rw [← hc]
  rfl

theorem mergeShards_sound {id₁ id₂ : Str} (h : SoundStream stream)
    (hok : mergeShards stream id₁ id₂ = .ok stream') : SoundStream stream' := by
  obtain ⟨s, hsm, t, htm, hsp, htp, ha, rfl⟩ := mergeShards_ok h.shards.nodup hok
  refine ⟨?_, rfl⟩
  have hsl := h.shards.ranges s hsm
  have htl := h.shards.ranges t htm
  rcases ha with hst | hts
  · have hm := h.shards.merge hsm htm hsp htp hst (.inl ⟨rfl, rfl⟩)
    have hmn : min s.startingHashKey t.startingHashKey = s.startingHashKey := by omega
    have hmx : max s.endingHashKey t.endingHashKey = t.endingHashKey := by omega
    simpa only [KinesisStream.recount, hmn, hmx] using hm
  · have hm := h.shards.merge htm hsm htp hsp hts (.inr ⟨rfl, rfl⟩)
    rw [closing_congr [s.shardId, t.shardId] fun u _ => by simp [or_comm]] at hm
    have hmn : min s.startingHashKey t.startingHashKey = t.startingHashKey := by omega
    have hmx : max s.endingHashKey t.endingHashKey = s.endingHashKey := by omega
    simpa only [KinesisStream.recount, hmn, hmx] using hm

end Fakecloud.Kinesis

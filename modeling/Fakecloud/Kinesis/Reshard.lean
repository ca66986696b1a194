import Fakecloud.Kinesis.Partition

/-!
# Kinesis: resharding keeps the partition

`reshardUniform` closes every open shard for the pieces of the common refinement (`refine_sound`), and then
merges the pieces inside each target range (`mergeTarget_merges`).  In the end one shard is open for each
target range.
-/

namespace Fakecloud.Kinesis

open Text Segments List KinesisShard

/-! ## The pieces -/

theorem openPieces_eq (original : List KinesisShard) (stream : KinesisStream) (rs : List (ℕ × ℕ)) :
    openPieces original stream rs = ({ stream with
          shards := stream.shards ++ shardsFor (parentFor original) stream.nextShardIndex rs
          nextShardIndex := stream.nextShardIndex + rs.length },
        (rs.zipIdx stream.nextShardIndex).map fun e => (e.1, shardIdOf e.2)) := by
  induction rs generalizing stream with
  | nil => simp [openPieces, shardsFor]
  | cons r rs ih =>
    rw [openPieces, nextShardId]
    dsimp only
    rw [ih]
    simp only [append_assoc, length_cons]
    congr 2
    omega

section Cuts

variable {shards : List KinesisShard} {next : ℕ} {targets : List (ℕ × ℕ)} {r : ℕ × ℕ}

theorem mem_cutPoints {x : ℕ} : x ∈ cutPoints shards targets ↔
    x = 0 ∨ (∃ s ∈ shards, s.isOpen ∧ s.startingHashKey = x) ∨ ∃ t ∈ targets, t.1 = x := by
  simp [cutPoints, openRanges, shardHashRange, and_assoc]

theorem cutPoints_sorted (shards : List KinesisShard) (targets : List (ℕ × ℕ)) :
    (cutPoints shards targets).Pairwise (· < ·) := by
  have hs : (cutPoints shards targets).Pairwise (· ≤ ·) := pairwise_insertionSort _ _
  have hn : (cutPoints shards targets).Nodup := (perm_insertionSort _ _).nodup_iff.mpr (nodup_dedup _)
  exact (hs.and hn).imp fun h => lt_of_le_of_ne h.1 h.2

variable (h : Sound shards next) (ht : Tiles 0 targets (maxHashKey + 1))
include h ht

theorem refinement_tiles : Tiles 0 (cutAt maxHashKey (cutPoints shards targets)) (maxHashKey + 1) := by
  have hsr := cutPoints_sorted shards targets
  have hz : 0 ∈ cutPoints shards targets := mem_cutPoints.mpr (.inl rfl)
  have hle : ∀ x ∈ cutPoints shards targets, x ≤ maxHashKey := by
    intro x hx
    rcases mem_cutPoints.mp hx with rfl | ⟨s, hs, ho, rfl⟩ | ⟨t, htm, rfl⟩
    · exact Nat.zero_le _
    · have hm : shardHashRange s ∈ openRanges shards := mem_map_of_mem (mem_filter.mpr ⟨hs, ho⟩)
      exact h.partition.le_of_covers hm (covers_iff.mpr ⟨le_rfl, h.ranges s hs⟩)
    · have := ht.bounds t htm
      omega
  rcases hc : cutPoints shards targets with _ | ⟨c, cuts⟩
  · rw [hc] at hz
    cases hz
  · rw [hc] at hsr hz hle
    obtain rfl : c = 0 := by
      rcases mem_cons.mp hz with h0 | h0
      · exact h0.symm
      · have := (pairwise_cons.mp hsr).1 0 h0
        omega
    exact tiles_cutAt hsr hle

/-- No range of the refinement goes over a cut. -/
theorem no_cut_inside (hr : r ∈ cutAt maxHashKey (cutPoints shards targets)) {x : ℕ}
    (hx : x ∈ cutPoints shards targets) : ¬ (r.1 < x ∧ x ≤ r.2) := by
  intro ⟨hlo, hhi⟩
  have ht := refinement_tiles h ht
  rw [← starts_cutAt maxHashKey (cutPoints shards targets)] at hx
  obtain ⟨r', hr', rfl⟩ := mem_map.mp hx
  have hb := ht.bounds r' hr'
  have := ht.partitions.eq_of_covers hr hr' (covers_iff.mpr ⟨by omega, hhi⟩)
    (covers_iff.mpr ⟨le_rfl, hb.2.1⟩)
  rw [this] at hlo
  exact lt_irrefl _ hlo

theorem parentFor_eq (hr : r ∈ cutAt maxHashKey (cutPoints shards targets)) {s : KinesisShard}
    (hs : s ∈ shards) {n : ℕ} (hn : owns n s) (hnr : covers n r) : parentFor shards r = some s.shardId := by
  have hb := (refinement_tiles h ht).bounds r hr
  have hnr' := covers_iff.mp hnr
  -- the open shard that has the first number of the range has all of it
  obtain ⟨q, hq, hc⟩ := h.partition.exists_covers (n := r.1) (by omega)
  have he : r.2 ≤ q.2 := h.partition.inside_of_no_start (by omega) hq hc fun q' hq' => by
    obtain ⟨u, hu, rfl⟩ := mem_map.mp hq'
    obtain ⟨hu, hup⟩ := mem_filter.mp hu
    exact no_cut_inside h ht hr (mem_cutPoints.mpr (.inr (.inl ⟨u, hu, hup, rfl⟩)))
  have hc' := covers_iff.mp hc
  obtain ⟨u, hu, rfl⟩ := mem_map.mp hq
  have hsm : ((shards.filter isOpen).find? fun u =>
      inside r (shardHashRange u)).isSome := by
    refine find?_isSome.mpr ⟨u, hu, ?_⟩
    rw [inside, Bool.and_eq_true, decide_eq_true_eq, decide_eq_true_eq]
    exact ⟨hc'.1, he⟩
  obtain ⟨v, hv⟩ := Option.isSome_iff_exists.mp hsm
  obtain ⟨hvm, hvp⟩ := mem_filter.mp (mem_of_find?_eq_some hv)
  have hvi := find?_some hv
  rw [inside, Bool.and_eq_true, decide_eq_true_eq, decide_eq_true_eq] at hvi
  have hvn : owns n v := owns_iff.mpr ⟨hvp, covers_iff.mpr ⟨by omega, by omega⟩⟩
  rw [parentFor, hv, h.unique hs hvm hn hvn]
  rfl

/-- **Refining all open shards.** -/
theorem refine_sound :
    Sound (shards.map close ++ shardsFor (parentFor shards) next
        (cutAt maxHashKey (cutPoints shards targets)))
      (next + (cutAt maxHashKey (cutPoints shards targets)).length) := by
  have htl := refinement_tiles h ht
  have hcl : closing (ids shards) shards = shards.map close :=
    map_congr_left fun s hs => if_pos (mem_map_of_mem hs)
  have ha : (shards.filter fun s => s.shardId ∈ ids shards) = shards :=
    filter_eq_self.mpr fun s hs => by simpa using ⟨s, hs, rfl⟩
  have hsn := h.replace (ids shards) (@ids_shardsFor (parentFor shards) next
    (cutAt maxHashKey (cutPoints shards targets))) isOpen_shardsFor
    (bounds_shardsFor htl) (fun n => ?_) fun s hs _ n hn => ?_
  · rwa [hcl, length_shardsFor] at hsn
  · rw [ha, countP_shardsFor, h.partitions]
    exact htl.partitions n
  · have hle : n ≤ maxHashKey := by
      have hm : shardHashRange s ∈ openRanges shards :=
        mem_map_of_mem (mem_filter.mpr ⟨hs, (owns_iff.mp hn).1⟩)
      exact h.partition.le_of_covers hm (owns_iff.mp hn).2
    obtain ⟨r, hr, hnr⟩ := htl.partitions.exists_covers hle
    obtain ⟨c, hc, rfl, hp⟩ := @exists_shardsFor (parentFor shards) next _ _ hr
    exact ⟨c, hc, hnr, .inl (hp.trans (parentFor_eq h ht hr hs hn hnr))⟩

end Cuts

/-! ## The merges -/

def IsPiece (shards : List KinesisShard) (p : (ℕ × ℕ) × Str) : Prop :=
  ∃ s ∈ shards, s.shardId = p.2 ∧ s.isOpen ∧ shardHashRange s = p.1

section Merges

variable {stream : KinesisStream} {tstart e b : ℕ} {acc : Str} {p : (ℕ × ℕ) × Str}

theorem Sound.fresh {shards : List KinesisShard} {next : ℕ} (h : Sound shards next) :
    shardIdOf next ∉ ids shards := by
  intro hm
  obtain ⟨s, hs, hid⟩ := mem_map.mp hm
  obtain ⟨i, hi, hid'⟩ := h.given s hs
  have := shardIdOf_injective (hid'.symm.trans hid)
  omega

def merged (tstart : ℕ) (stream : KinesisStream) (acc : Str) (p : (ℕ × ℕ) × Str) : KinesisStream :=
  { stream with
    shards := closing [acc, p.2] stream.shards ++
      [newShard (shardIdOf stream.nextShardIndex) (tstart, p.1.2) (some acc) (some p.2)]
    nextShardIndex := stream.nextShardIndex + 1 }

theorem mergeStep_eq (hn : (ids stream.shards).Nodup)
    (hf : shardIdOf stream.nextShardIndex ∉ ids stream.shards) (ha : acc ∈ ids stream.shards) :
    mergeStep tstart stream acc p = (merged tstart stream acc p, shardIdOf stream.nextShardIndex) := by
  have hnw : acc ≠ shardIdOf stream.nextShardIndex := fun heq => hf (heq ▸ ha)
  have hn' : (ids (closing [p.2] stream.shards ++ [newShard (shardIdOf stream.nextShardIndex)
      (tstart, p.1.2) (some acc) (some p.2)])).Nodup := by
    rw [ids, map_append, ← ids, ids_closing]
    refine hn.append (nodup_singleton _) fun id hid hnw => ?_
    rw [mem_singleton.mp hnw] at hid
    exact hf hid
  -- the shard that has just been made is not the head
  have hl : closing [acc] [newShard (shardIdOf stream.nextShardIndex) (tstart, p.1.2)
      (some acc) (some p.2)] = [newShard (shardIdOf stream.nextShardIndex) (tstart, p.1.2)
      (some acc) (some p.2)] := closing_of_not_mem fun u hu hm => by
    rw [mem_singleton.mp hu, mem_singleton] at hm
    exact hnw hm.symm
  have hb : closing [acc] (closing [p.2] stream.shards) = closing [acc, p.2] stream.shards := by
    rw [closing_closing]
    exact closing_congr _ fun u _ => by simp [or_comm]
  rw [mergeStep]
  dsimp only [nextShardId, closeShard]
  rw [closeFirst_eq hn, closeFirst_eq hn', closing, map_append, ← closing, ← closing, hl, hb]
  rfl

/-- The head of the first merge may be closed already. -/
theorem mergeStep_closed (h : Sound stream.shards stream.nextShardIndex)
    (ha : acc ∈ ids stream.shards) : mergeStep tstart (closeShard stream acc) acc p =
      (merged tstart stream acc p, shardIdOf stream.nextShardIndex) := by
  have hi : ids (closeShard stream acc).shards = ids stream.shards := by
    rw [closeShard, closeFirst_eq h.nodup, ids_closing]
  rw [mergeStep_eq (by rw [hi]; exact h.nodup) (by rw [hi]; exact h.fresh) (by rw [hi]; exact ha)]
  dsimp only [merged, closeShard]
  rw [closeFirst_eq h.nodup, closing_closing]
  rw [closing_congr [acc, p.2] fun u _ => by simp]

/-- What one merge does to a sound stream. -/
structure Merges (stream stream' : KinesisStream) (lo hi fewer : ℕ) : Prop where
  sound : Sound stream'.shards stream'.nextShardIndex
  count : stream'.shards.countP KinesisShard.isOpen + fewer =
    stream.shards.countP KinesisShard.isOpen
  frame : ∀ q, q.1.2 < lo ∨ hi ≤ q.1.1 → IsPiece stream.shards q → IsPiece stream'.shards q

variable {lo hi : ℕ} {pieces : List ((ℕ × ℕ) × Str)}

theorem Merges.refl (h : Sound stream.shards stream.nextShardIndex) : Merges stream stream lo hi 0 :=
  ⟨h, rfl, fun _ _ hq => hq⟩

theorem Merges.trans {s₁ s₂ s₃ : KinesisStream} {mid f g : ℕ} (hm : mid ≤ hi)
    (h : Merges s₁ s₂ lo mid f) (h' : Merges s₂ s₃ lo hi g) : Merges s₁ s₃ lo hi (f + g) := by
  refine ⟨h'.sound, ?_, fun q hq hp => h'.frame q hq (h.frame q ?_ hp)⟩
  · have := h.count
    have := h'.count
    omega
  · exact hq.imp_right fun hle => hm.trans hle

section

variable (h : Sound stream.shards stream.nextShardIndex)
include h

theorem merged_merges (hac : IsPiece stream.shards ((tstart, e), acc)) (hp : IsPiece stream.shards p)
    (ha : p.1.1 = e + 1) : Merges stream (merged tstart stream acc p) tstart (p.1.2 + 1) 1 ∧
      IsPiece (merged tstart stream acc p).shards
        ((tstart, p.1.2), shardIdOf stream.nextShardIndex) := by
  obtain ⟨s, hs, rfl, hsp, hsr⟩ := hac
  obtain ⟨⟨lo, hi⟩, id⟩ := p
  obtain ⟨t, ht, rfl, htp, htr⟩ := hp
  simp only [shardHashRange] at hsr htr ha ⊢
  obtain ⟨rfl, rfl⟩ := hsr
  obtain ⟨rfl, rfl⟩ := htr
  have hsl := h.ranges s hs
  have htl := h.ranges t ht
  have hne : s.shardId ≠ t.shardId := fun heq => by
    have := inj_on_of_nodup_map h.nodup hs ht heq
    subst this
    omega
  refine ⟨⟨h.merge hs ht hsp htp ha.symm (.inl ⟨rfl, rfl⟩), ?_, ?_⟩, ?_⟩
  · have hc := countP_closing [s.shardId, t.shardId] stream.shards fun _ hu => hu
    rw [(filter_pair_perm h.nodup hs ht hne).countP_eq, countP_cons_of_pos hsp, countP_singleton,
      if_pos htp] at hc
    have hn : (newShard (shardIdOf stream.nextShardIndex) (s.startingHashKey, t.endingHashKey)
        (some s.shardId) (some t.shardId)).isOpen := rfl
    rw [merged, countP_append, countP_singleton, if_pos hn]
    omega
  · rintro q hq ⟨u, hu, hid, hup, hur⟩
    -- a shard beside the two is neither of them
    refine ⟨u, mem_append_left _ (mem_map.mpr ⟨u, hu, if_neg fun hg => ?_⟩), hid, hup, hur⟩
    have hin := inj_on_of_nodup_map h.nodup
    rw [← hur] at hq
    simp only [shardHashRange] at hq
    rcases mem_cons.mp hg with hid | hid
    · obtain rfl := hin hu hs hid
      omega
    · obtain rfl := hin hu ht (mem_singleton.mp hid)
      omega
  · exact ⟨_, mem_append_right _ (mem_singleton_self _), rfl, rfl, rfl⟩

/-- **A chain of merges** makes one shard of its pieces and leaves the pieces beside them alone. -/
theorem mergeChain_merges (ha : IsPiece stream.shards ((tstart, e), acc)) (hsta : tstart ≤ e)
    (ht : Tiles (e + 1) (pieces.map Prod.fst) b) (hp : ∀ p ∈ pieces, IsPiece stream.shards p) :
    Merges stream (mergeChain tstart stream acc pieces) tstart b pieces.length := by
  induction pieces generalizing stream acc e with
  | nil => exact .refl h
  | cons p pieces ih =>
    obtain ⟨⟨lo, hi⟩, id⟩ := p
    cases ht with
    | cons hle ht =>
    have hm : acc ∈ ids stream.shards := by
      obtain ⟨s, hs, hid, -⟩ := ha
      exact mem_map.mpr ⟨s, hs, hid⟩
    obtain ⟨hst, hn⟩ := merged_merges h ha (hp _ mem_cons_self) rfl
    rw [mergeChain, mergeStep_eq h.nodup h.fresh hm]
    dsimp only at hst hn ⊢
    -- the later pieces start behind the merged one
    have hr := ih hst.sound hn (by omega) ht fun q hq => by
      have hb := ht.bounds q.1 (mem_map_of_mem hq)
      exact hst.frame q (.inr hb.1) (hp q (mem_cons_of_mem _ hq))
    rw [length_cons, Nat.add_comm pieces.length]
    exact hst.trans ht.le hr

theorem mergeTarget_merges {target : ℕ × ℕ}
    (ht : Tiles target.1 ((pieces.filter fun p => inside p.1 target).map Prod.fst) (target.2 + 1))
    (hpc : ∀ p ∈ pieces, inside p.1 target → IsPiece stream.shards p) :
    Merges stream (mergeTarget pieces stream target) target.1 (target.2 + 1)
      ((pieces.filter fun p => inside p.1 target).length - 1) := by
  have hbl : ∀ p ∈ pieces.filter fun p => inside p.1 target, IsPiece stream.shards p := fun p hp =>
    hpc p (mem_filter.mp hp).1 (by simpa using (mem_filter.mp hp).2)
  rw [mergeTarget]
  generalize pieces.filter (fun p => inside p.1 target) = block at ht hbl
  match block with
  | [] => exact .refl h
  | [_] => exact .refl h
  | ((lo, e), first) :: ((lo', hi), second) :: rest =>
    cases ht with
    | cons hle ht =>
    cases ht with
    | cons hle' ht =>
    have ha := hbl _ mem_cons_self
    have hm : first ∈ ids stream.shards := by
      obtain ⟨s, hs, hid, -⟩ := ha
      exact mem_map.mpr ⟨s, hs, hid⟩
    obtain ⟨hst, hn⟩ := merged_merges h ha (hbl _ (mem_cons_of_mem _ mem_cons_self)) rfl
    dsimp only at hst hn ⊢
    rw [mergeChain, mergeStep_closed h hm]
    have hr := mergeChain_merges hst.sound hn (by omega) ht fun q hq => by
      have hb := ht.bounds q.1 (mem_map_of_mem hq)
      exact hst.frame q (.inr hb.1) (hbl q (by simp [hq]))
    rw [length_cons, length_cons, Nat.add_comm rest.length]
    exact hst.trans ht.le hr

end

theorem mergeTargets_merges (stream : KinesisStream) {targets : List (ℕ × ℕ)} {a : ℕ}
    (h : Sound stream.shards stream.nextShardIndex) (htr : Tiles a targets b)
    (htl : ∀ t ∈ targets, Tiles t.1 ((pieces.filter fun p => inside p.1 t).map Prod.fst) (t.2 + 1))
    (hpc : ∀ p ∈ pieces, a ≤ p.1.1 → IsPiece stream.shards p) :
    Merges stream (targets.foldl (mergeTarget pieces) stream) a b
      (targets.map fun t => (pieces.filter fun p => inside p.1 t).length - 1).sum := by
  induction htr generalizing stream with
  | nil => exact .refl h
  | @cons a c b targets hle htr ih =>
    have hf := mergeTarget_merges h (htl (a, c) mem_cons_self) fun p hp hin =>
      hpc p hp (by simp only [inside, Bool.and_eq_true, decide_eq_true_eq] at hin; exact hin.1)
    have hr := ih _ hf.sound (fun t ht => htl t (mem_cons_of_mem _ ht)) fun p hp hle' =>
      hf.frame p (.inr hle') (hpc p hp (by omega))
    refine hf.trans htr.le ⟨hr.sound, hr.count, fun q hq => hr.frame q ?_⟩
    exact hq.imp_left fun hlt => by omega

end Merges

/-! ## The whole reshard -/

theorem sum_pred {α : Type*} (l : List α) (f : α → ℕ) (h : ∀ x ∈ l, 0 < f x) :
    (l.map fun x => f x - 1).sum + l.length = (l.map f).sum := by
  induction l with
  | nil => rfl
  | cons x l ih =>
    have hx := h x mem_cons_self
    have hl := ih fun y hy => h y (mem_cons_of_mem _ hy)
    simp only [map_cons, sum_cons, length_cons]
    omega

theorem countP_shardsFor_isOpen {parent : ℕ × ℕ → Option Str} {next : ℕ} {rs : List (ℕ × ℕ)} :
    (shardsFor parent next rs).countP isOpen = rs.length := by
  rw [countP_eq_length.mpr isOpen_shardsFor, length_shardsFor]

variable {stream : KinesisStream} {shards : List KinesisShard} {hash : ℕ}

/-- **Resharding keeps a stream sound**, with one open shard for each target range. -/
theorem reshardUniform_sound {target : ℕ} (h : SoundStream stream)
    (hps : 0 < target) (hle : target ≤ maxHashKey) : SoundStream (reshardUniform stream target) := by
  have htr := uniformRanges_tiles hps hle
  have hl : (uniformRanges target).length = target := by simp [uniformRanges]
  have hr := refinement_tiles h.shards htr
  have hsn := refine_sound h.shards htr
  have hst : ∀ t ∈ uniformRanges target, t.1 ∈
      (cutAt maxHashKey (cutPoints stream.shards (uniformRanges target))).map Prod.fst := by
    intro t ht
    rw [starts_cutAt]
    exact mem_cutPoints.mpr (.inr (.inr ⟨t, ht, rfl⟩))
  rw [reshardUniform]
  rw [openPieces_eq]
  generalize cutAt maxHashKey (cutPoints stream.shards (uniformRanges target)) = rs
    at hr hsn hst ⊢
  generalize hpc : ((rs.zipIdx stream.nextShardIndex).map fun e => (e.1, shardIdOf e.2)) = pieces
  have hf : pieces.map Prod.fst = rs := by
    rw [← hpc, map_map]
    exact zipIdx_map_fst _ rs
  have hblo : ∀ t, (pieces.filter fun p => inside p.1 t).map Prod.fst =
      rs.filter fun r => inside r t := fun t => by
    rw [← hf, filter_map]
    rfl
  have hbl : ∀ t, (pieces.filter fun p => inside p.1 t).length =
      (rs.filter fun r => inside r t).length := fun t => by
    rw [← hblo t, length_map]
  have htl : ∀ t ∈ uniformRanges target,
      Tiles t.1 ((pieces.filter fun p => inside p.1 t).map Prod.fst) (t.2 + 1) := by
    intro t ht
    have hct : t.2 + 1 ∈ rs.map Prod.fst ∨ t.2 + 1 = maxHashKey + 1 :=
      (htr.mem_starts ht).imp_left fun hmm => by
        obtain ⟨t', ht', heq⟩ := mem_map.mp hmm
        rw [← heq]
        exact hst t' ht'
    rw [hblo]
    exact hr.filter_inside (.inl (hst t ht)) (htr.bounds t ht).2.1 hct
  have ho : ∀ p ∈ pieces, IsPiece (stream.shards.map close ++
      shardsFor (parentFor stream.shards) stream.nextShardIndex rs) p := by
    intro p hp
    rw [← hpc] at hp
    obtain ⟨e, he, rfl⟩ := mem_map.mp hp
    exact ⟨_, mem_append_right _ (mem_map_of_mem he), rfl, rfl, rfl⟩
  have hm := mergeTargets_merges { stream with
      shards := stream.shards.map close ++ shardsFor (parentFor stream.shards) stream.nextShardIndex rs
      nextShardIndex := stream.nextShardIndex + rs.length } hsn htr htl
    fun p hp _ => ho p hp
  refine ⟨hm.sound, congrArg asI32 ?_⟩
  -- the open shards are counted: the pieces, less one for each merge
  have hc := hm.count
  have hcl : (stream.shards.map close).countP isOpen = 0 := by
    rw [countP_eq_zero]
    rintro _ hs
    obtain ⟨s, -, rfl⟩ := mem_map.mp hs
    exact Bool.false_ne_true
  have hsm := sum_pred (uniformRanges target)
    (fun t => (pieces.filter fun p => inside p.1 t).length) fun t ht => by
      have hb := htr.bounds t ht
      have hps := (htl t ht).length_pos (by omega)
      rwa [length_map] at hps
  have htt := hr.length_eq_sum htr hst
  simp only [hbl] at hsm hc
  rw [countP_append, countP_shardsFor_isOpen] at hc
  dsimp only
  omega

/-! ## Routing -/

section Routing

variable {hash : ℕ}

/-- The loop stops at an open shard that has the hash key, when there is one. -/
theorem selectFrom_owns (idx : ℕ) (fallback : Option ℕ) (h : ∃ s ∈ shards, owns hash s) :
    ∃ i s, selectFrom hash idx fallback shards = some (idx + i) ∧ shards[i]? = some s ∧ owns hash s := by
  induction shards generalizing idx fallback with
  | nil =>
    obtain ⟨s, hs, -⟩ := h
    cases hs
  | cons t shards ih =>
    by_cases ht : owns hash t
    · refine ⟨0, t, ?_, rfl, ht⟩
      obtain ⟨ho, hc⟩ := owns_iff.mp ht
      have hc' : t.startingHashKey ≤ hash ∧ hash ≤ t.endingHashKey := covers_iff.mp hc
      rw [selectFrom, if_neg (by simp [ho]), if_pos hc']
      rfl
    · obtain ⟨s, hs, how⟩ := h
      have hr : ∃ s ∈ shards, owns hash s := by
        rcases mem_cons.mp hs with rfl | hs
        · exact absurd how ht
        · exact ⟨s, hs, how⟩
      -- a shard that does not have the hash key only changes the fallback
      have hsk : ∃ fallback', selectFrom hash idx fallback (t :: shards) =
          selectFrom hash (idx + 1) fallback' shards := by
        rw [selectFrom]
        by_cases ho : t.isOpen
        · have hc : ¬ (t.startingHashKey ≤ hash ∧ hash ≤ t.endingHashKey) := fun hc =>
            ht (owns_iff.mpr ⟨ho, covers_iff.mpr hc⟩)
          rw [if_neg (by simp [ho]), if_neg hc]
          exact ⟨_, rfl⟩
        · rw [if_pos (by simpa using ho)]
          exact ⟨_, rfl⟩
      obtain ⟨fallback', hsk⟩ := hsk
      obtain ⟨i, s, hsl, hg, how⟩ := ih (idx + 1) fallback' hr
      refine ⟨i + 1, s, ?_, hg, how⟩
      rw [hsk, hsl]
      congr 1
      omega

end Routing

theorem Sound.exists_owns {next n : ℕ} (h : Sound shards next)
    (hn : n ≤ maxHashKey) : ∃ s ∈ shards, owns n s := by
  have hc := h.partitions n
  rw [if_pos hn] at hc
  exact countP_pos_iff.mp (by omega)

variable {md5 : Hash} {partitionKey : Str} {explicitHashKey : Option Str}

theorem routingHash_le
    (h : routingHash md5 partitionKey explicitHashKey = .ok hash) : hash ≤ maxHashKey := by
  have hlt : hash < 2 ^ 128 := by
    rw [routingHash] at h
    split at h
    · split at h
      · next hp =>
        cases h
        rw [parseUnsigned, Option.filter_eq_some_iff] at hp
        simpa using hp.2
      · cases h
    · cases h
      exact BitVec.isLt _
  rw [maxHashKey]
  omega

theorem mem_openIndexes {idx : ℕ} : idx ∈ openIndexes shards ↔ ∃ s, shards[idx]? = some s ∧ s.isOpen := by
  rw [openIndexes, mem_map]
  constructor
  · rintro ⟨⟨s, i⟩, he, rfl⟩
    obtain ⟨hm, ho⟩ := mem_filter.mp he
    exact ⟨s, mem_zipIdx_iff_getElem?.mp hm, ho⟩
  · rintro ⟨s, hs, ho⟩
    exact ⟨(s, idx), mem_filter.mpr ⟨mem_zipIdx_iff_getElem?.mpr hs, ho⟩, rfl⟩

/-- **A record goes to an open shard**: to the one that has its hash key, or to the next in turn. -/
theorem selectShard_open (h : SoundStream stream)
    (hh : routingHash md5 partitionKey explicitHashKey = .ok hash) :
    ∃ idx stream' s, selectShard md5 stream partitionKey explicitHashKey = .ok (idx, stream') ∧
      stream.shards[idx]? = some s ∧ s.isOpen ∧
        (stream.recordDistributionStrategy = .userPartitionKey → owns hash s) := by
  obtain ⟨i, s, hi, hg, ho⟩ := selectFrom_owns 0 none (h.shards.exists_owns (routingHash_le hh))
  replace hg : stream.shards[selectShardIndexForHash stream hash]? = some s := by
    rw [selectShardIndexForHash, hi, Nat.zero_add]
    exact hg
  have hne : stream.shards.isEmpty = false := by
    rw [isEmpty_eq_false_iff]
    exact ne_nil_of_mem (mem_of_getElem? hg)
  rw [selectShard, hne, hh]
  dsimp only
  cases hs : stream.recordDistributionStrategy with
  | userPartitionKey => exact ⟨_, _, s, rfl, hg, (owns_iff.mp ho).1, fun _ => ho⟩
  | auto =>
    have hm := mem_openIndexes.mpr ⟨s, hg, (owns_iff.mp ho).1⟩
    have hlt := Nat.mod_lt stream.autoDistributionCursor (length_pos_of_mem hm)
    have hp : (openIndexes stream.shards).isEmpty = false := by
      rw [isEmpty_eq_false_iff]
      exact ne_nil_of_mem hm
    rw [hp, getD_eq_getElem?_getD, getElem?_eq_getElem hlt]
    obtain ⟨t, htg, ht⟩ := mem_openIndexes.mp (getElem_mem hlt)
    exact ⟨_, _, t, rfl, htg, ht, nofun⟩

/-! ## Every stream -/

/-- The streams that the calls make. -/
inductive Reachable : KinesisStream → Prop
  | create {stream : KinesisStream} {shardCount : ℤ} {onDemand : Bool} {maxRecordSizeKib : Option ℤ}
      {strategy : RecordDistributionStrategy}
      (h : createStream shardCount onDemand maxRecordSizeKib strategy = .ok stream) : Reachable stream
  | split {stream stream' : KinesisStream} {shardToSplit newStartingHashKey : Str}
      (h : Reachable stream) (hok : splitShard stream shardToSplit newStartingHashKey = .ok stream') :
      Reachable stream'
  | merge {stream stream' : KinesisStream} {shardToMerge adjacentShard : Str}
      (h : Reachable stream) (hok : mergeShards stream shardToMerge adjacentShard = .ok stream') :
      Reachable stream'
  | update {stream stream' : KinesisStream} {targetShardCount : ℤ}
      (h : Reachable stream) (hok : updateShardCount stream targetShardCount = .ok stream') :
      Reachable stream'

theorem countP_buildStreamShards (count : ℕ) : (buildStreamShards count).countP isOpen = count := by
  have ho : (buildStreamShards count).countP isOpen = (uniformRanges count).length :=
    @countP_shardsFor_isOpen (fun _ => none) 0 _
  rw [ho, uniformRanges, length_map, length_range]

theorem createStream_sound {shardCount : ℤ} {onDemand : Bool}
    {maxRecordSizeKib : Option ℤ} {strategy : RecordDistributionStrategy}
    (hok : createStream shardCount onDemand maxRecordSizeKib strategy = .ok stream) : SoundStream stream := by
  obtain ⟨count, hp, hle, rfl⟩ := createStream_ok hok
  have hm : 2 ^ 31 ≤ maxHashKey := by decide
  refine ⟨buildStreamShards_sound hp (hle.le.trans hm), ?_⟩
  rw [countP_buildStreamShards, asI32_of_lt hle]

theorem updateShardCount_sound {stream' : KinesisStream} {targetShardCount : ℤ}
    (h : SoundStream stream) (hok : updateShardCount stream targetShardCount = .ok stream') :
    SoundStream stream' := by
  rw [updateShardCount] at hok
  split at hok
  · cases hok
  cases hok
  have hm : 10000 ≤ maxHashKey := by decide
  exact reshardUniform_sound h (by omega) (by omega)

theorem Reachable.sound (h : Reachable stream) : SoundStream stream := by
  induction h with
  | create hok => exact createStream_sound hok
  | split _ hok ih => exact splitShard_sound ih hok
  | merge _ hok ih => exact mergeShards_sound ih hok
  | update _ hok ih => exact updateShardCount_sound ih hok

/-- **The open shards of every stream partition the hash keys.**  The ranges of the open shards are
disjoint and have exactly the numbers up to `2 ^ 128 - 1`; whatever a record is routed by, exactly one
open shard has it, and the record goes to that one, or to an open shard in turn where the stream
distributes records itself; the counter is the number of open shards; ids are given out once; and the hash
keys of a closed shard belong to open ones that are reached from it.  The counters of the stream go up to
`2 ^ 31`. -/
theorem openShards_partition (md5 : Hash) {stream : KinesisStream} (h : Reachable stream)
    (hi : stream.nextShardIndex < 2 ^ 31) :
    ((openRanges stream.shards).Pairwise fun r r' => ∀ n, ¬ (covers n r ∧ covers n r')) ∧
    (∀ n, (∃ r ∈ openRanges stream.shards, covers n r) ↔ n < 2 ^ 128) ∧
    (∀ partitionKey explicitHashKey hash, routingHash md5 partitionKey explicitHashKey = .ok hash →
      (∃! s, s ∈ stream.shards ∧ owns hash s) ∧
        ∃ idx stream' s, selectShard md5 stream partitionKey explicitHashKey = .ok (idx, stream') ∧
          stream.shards[idx]? = some s ∧ s.isOpen ∧
            (stream.recordDistributionStrategy = .userPartitionKey → owns hash s)) ∧
    stream.openShardCount = stream.shards.countP KinesisShard.isOpen ∧
    (stream.shards.map KinesisShard.shardId).Nodup ∧
    ∀ s ∈ stream.shards, s.isOpen = false → ∀ n, covers n (shardHashRange s) →
      ∃ o ∈ stream.shards, owns n o ∧ Reaches stream.shards s.shardId o.shardId := by
  have hsn := h.sound
  have hp := hsn.shards.partition
  have hm : maxHashKey + 1 = 2 ^ 128 := by decide
  have hc : stream.shards.countP isOpen < 2 ^ 31 :=
    (countP_le_length.trans hsn.shards.length_le).trans_lt hi
  refine ⟨hp.pairwise, fun n => ?_, fun key explicit hash hh => ?_, hsn.count.trans (asI32_of_lt hc),
    hsn.shards.nodup, hsn.shards.lineage⟩
  · constructor
    · rintro ⟨r, hr, hc⟩
      have := hp.le_of_covers hr hc
      omega
    · intro hn
      exact hp.exists_covers (by omega)
  · obtain ⟨s, hs, how⟩ := hsn.shards.exists_owns (routingHash_le hh)
    refine ⟨⟨s, ⟨hs, how⟩, ?_⟩, selectShard_open hsn hh⟩
    rintro t ⟨ht, ho⟩
    exact hsn.shards.unique ht hs ho how

/-- One shard that has been split in the middle. -/
def Example.halves : KinesisStream :=
  { retentionPeriodHours := 24
    shardCount := 3
    openShardCount := 2
    shards :=
      [⟨"shardId-000000000000", 0, maxHashKey, none, none, false, 1, []⟩,
        ⟨"shardId-000000000001", 0, 2 ^ 127 - 1, some "shardId-000000000000", none, true, 1, []⟩,
        ⟨"shardId-000000000002", 2 ^ 127, maxHashKey, some "shardId-000000000000", none, true, 1,
          []⟩]
    nextShardIndex := 3
    maxRecordSizeKib := none
    recordDistributionStrategy := .userPartitionKey
    autoDistributionCursor := 0 }

theorem Example.halves_reachable : Reachable halves := by
  have ho : Reachable _ := @Reachable.create _ 1 false none .userPartitionKey rfl
  exact @Reachable.split _ _ "shardId-000000000000" "170141183460469231731687303715884105728" ho rfl

/-- A record with the largest explicit hash key goes to an open shard that has it. -/
theorem openShards_partition_halves :
    ∃ idx stream' s, selectShard (fun _ => 0) Example.halves []
        (some "340282366920938463463374607431768211455") = .ok (idx, stream') ∧
      Example.halves.shards[idx]? = some s ∧ owns (2 ^ 128 - 1) s := by
  obtain ⟨-, -, hr, -⟩ := openShards_partition (fun _ => 0) Example.halves_reachable (by decide)
  obtain ⟨-, idx, stream', s, hs, hg, -, ho⟩ :=
    hr [] (some "340282366920938463463374607431768211455") (2 ^ 128 - 1) rfl
  exact ⟨idx, stream', s, hs, hg, ho rfl⟩

theorem splitShard_first {s : KinesisShard} {rest : List KinesisShard} {point : Str} {p : ℕ}
    (hs : stream.shards = s :: rest) (ho : s.isOpen) (hp : parseUnsigned (2 ^ 128) point = some p)
    (hlo : s.startingHashKey < p) (hhi : p ≤ s.endingHashKey) : ∃ stream',
      splitShard stream s.shardId point = .ok stream' ∧ stream'.shards.countP isOpen =
        rest.countP isOpen + 2 := by
  have hf : findOpenShardIdx stream.shards s.shardId = .ok 0 := by
    rw [findOpenShardIdx, hs, findIdx?_cons, if_pos (by simp [ho])]
  rw [splitShard, hf]
  simp only [bind, Except.bind, hs, getElem?_cons_zero, hp]
  refine ⟨_, if_neg (not_or.mpr ⟨not_le.mpr hlo, not_lt.mpr hhi⟩), ?_⟩
  simp [KinesisStream.recount, nextShardId, closeAt, hs, newShard, close]

/-- The first shard of a new stream is split. -/
theorem exists_reachable_split {n : ℕ} (hn : n + 1 < 2 ^ 31) :
    ∃ stream, Reachable stream ∧ stream.shards.countP isOpen = n + 2 := by
  have hm : 2 ^ 31 < maxHashKey := by decide
  have hc : createStream (n + 1 : ℕ) false none .userPartitionKey =
      .ok ⟨24, (n + 1 : ℕ), (n + 1 : ℕ), buildStreamShards (n + 1), n + 1, none, .userPartitionKey, 0⟩ := by
    rw [createStream, if_neg (by omega), if_neg (by omega), if_neg (by simp)]
    rfl
  obtain ⟨ending, rest, he, hb⟩ : ∃ ending rest, 1 ≤ ending ∧
      buildStreamShards (n + 1) = newShard (shardIdOf 0) (0, ending) none none :: rest := by
    refine ⟨_, _, ?_, by rw [buildStreamShards, uniformRanges, range_succ_eq_map]; rfl⟩
    split
    · omega
    · rw [zero_add, mul_one]
      exact Nat.div_pos (by omega) (by omega)
  have hcn := countP_buildStreamShards (n + 1)
  rw [hb] at hc hcn
  obtain ⟨stream, hs, hcs⟩ :=
    @splitShard_first ⟨24, (n + 1 : ℕ), (n + 1 : ℕ), _, n + 1, none, .userPartitionKey, 0⟩
    (newShard (shardIdOf 0) (0, ending) none none) rest ['1'] 1 rfl rfl rfl one_pos he
  refine ⟨stream, .split (.create hc) hs, ?_⟩
  rw [countP_cons_of_pos rfl] at hcn
  omega

/-- **The counter of open shards wraps** when the first of `2 ^ 31 - 1` shards is split.  The counter of ids
passes `2 ^ 31` in the same call: a release build goes on, a debug build panics. -/
theorem openShardCount_wraps : ∃ stream, Reachable stream ∧
    stream.shards.countP isOpen = 2 ^ 31 ∧ stream.openShardCount = -2 ^ 31 := by
  obtain ⟨stream, hr, hc⟩ := @exists_reachable_split (2 ^ 31 - 2) (by decide)
  refine ⟨stream, hr, hc, ?_⟩
  rw [hr.sound.count, hc]
  rfl

end Fakecloud.Kinesis

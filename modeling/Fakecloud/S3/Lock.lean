import Fakecloud.S3.History

/-!
# S3: what object lock protects

Every delete asks the object lock about the version that it destroys.  A write that takes over the null
version does not: `put_object`, `copy_object` and `complete_multipart_upload` replace the null version of a
bucket that is not versioned, or suspended, whatever lock is on it.
-/

namespace Fakecloud.S3

open Text List Option

/-! ## Buckets -/

/-- The two maps of a bucket agree. -/
structure Bucket.Sound (b : Bucket) : Prop where
  current : ∀ key, CurrentOk (b.slot key)
  nodup : ∀ key, ((listed (b.slot key)).map idOf).Nodup
  unversioned : b.versioning = none → ∀ key, (b.slot key).history = none

def idsOf (b : Bucket) : Set Str := {id | id = nullId ∨ ∃ key, ∃ o ∈ listed (b.slot key), idOf o = id}

theorem Bucket.Sound.tracks {b : Bucket} (h : b.Sound) :
    Tracks b (fun key => stackOf (b.slot key) (h.nodup key)) (idsOf b) where
  shows key := shows_stackOf (h.current key) (h.nodup key)
  unversioned := h.unversioned
  ids := by
    intro key o ho
    obtain ⟨a, ha, rfl⟩ := mem_map.mp ho
    exact .inr ⟨key, a, ha, rfl⟩
  null := .inl rfl

/-! ## Locks -/

/-- A live object with a legal hold, or with a retention in compliance mode that outlasts the events. -/
structure Protected (o : Object) (events : List Event) : Prop where
  live : o.isDeleteMarker = false
  lock : o.lockLegalHold = some "ON".toList ∨ o.lockMode = some "COMPLIANCE".toList ∧
    ∃ t, o.lockRetainUntil = some t ∧ ∀ e ∈ events, e.now < t

def overwritesLocked (b : Bucket) (e : Event) : Bool :=
  (writeKey e).any fun key => b.versioning ≠ some .enabled &&
    (findVersion (b.slot key) nullId).any fun o => !o.isDeleteMarker && lockDenies e.now true o

/-- No write of a run takes over a null version that is locked. -/
def sparesLocks (D : Digest) : Bucket → List Event → Bool
  | _, [] => true
  | b, e :: events => !overwritesLocked b e && sparesLocks D (exec D b e) events

variable {D : Digest} {b b' : Bucket} {V : Str → Versions idOf} {seen : Set Str} {key vid uuid : Str}
  {o : Object} {now : ℤ} {e : Event} {events : List Event}

theorem Protected.denies (h : Protected o events) (he : e ∈ events) : lockDenies e.now true o = true := by
  rcases h.lock with hh | ⟨hm, t, hr, hb⟩
  · simp [lockDenies, hh]
  · simp [lockDenies, hm, hr, hb e he]

theorem lockDenies_of_bypass (h : lockDenies now true o = true) (bypass : Bool) :
    lockDenies now bypass o = true := by
  rw [lockDenies, Bool.or_eq_true] at h ⊢
  rcases h with h | h
  · exact .inl h
  · right
    rcases hm : o.lockMode with _ | mode
    · rw [hm] at h
      cases h
    · rcases hr : o.lockRetainUntil with _ | t
      · rw [hm, hr] at h
        cases h
      · rw [hm, hr] at h
        simp only [Bool.not_true, Bool.and_false, Bool.or_false, Bool.and_eq_true] at h
        simp only [h.1, h.2, Bool.true_or, Bool.and_self]

theorem any_of_map_named {x : Option Object} {q : Object → Bool} (hq : ∀ a, q (named a) = q a)
    (h : x.map named = some o) (ho : q o = true) : x.any q = true := by
  obtain ⟨a, rfl, rfl⟩ := map_eq_some_iff.mp h
  rw [Option.any_some, ← hq]
  exact ho

variable {versionId : Option Str} {key' : Str} {bypass : Bool}

theorem get_replayAll_singleton {f : Effect} (h : f.1 = key → f.2.target idOf ≠ vid) :
    (replayAll V [f] key).get vid = (V key).get vid := by
  rw [replayAll_singleton]
  split_ifs with hk
  · exact Versions.get_apply_of_ne (h hk.symm)
  · rfl

section

variable (h : Tracks b V seen) (hg : (V key).get vid = some o) (hlv : o.isDeleteMarker = false)
include h hg hlv

theorem deleteDenied_of_locked (hl : lockDenies now true o = true) (hne : uuid ≠ vid)
    (ht : (deleteOp b.versioning versionId uuid).target idOf = vid) (bypass : Bool) :
    deleteDenied b key versionId now bypass = true := by
  have hd := lockDenies_of_bypass hl bypass
  have hs := h.shows key
  rcases versionId with _ | vid'
  · -- the version that the delete destroys is the null version
    rcases hv : b.versioning with _ | _ | _ <;> rw [hv] at ht
    · have hh := h.unversioned hv key
      rw [deleteDenied, hv, lockTarget]
      obtain ⟨hm, -⟩ := Versions.get_eq_some.mp hg
      rw [hs.entries_none hh] at hm
      obtain ⟨c, hc, rfl⟩ := mem_map.mp hm
      rw [Option.mem_toList.mp hc, filter_some, if_pos (by simpa using hlv)]
      exact hd
    · exact absurd ht hne
    · rw [deleteDenied, hv]
      have hf := hs.find?_liveNull
      rw [show nullId = vid from ht, hg, filter_some, if_pos (by simpa using hlv)] at hf
      exact any_of_map_named (fun _ => rfl) hf hd
  · have hvd : vid' = vid := ht
    have hf := hs.find?_vidMatches vid
    rw [← hs.find?_versionId, hg] at hf
    rw [hvd]
    refine any_of_map_named (fun _ => rfl) hf ?_
    rw [hlv, hd]
    rfl

theorem Stored.get_kept {o' : Object} (hs : Stored b key' uuid b' o') (hfr : uuid ∉ seen)
    (hk : writeKey e = some key') (hsp : overwritesLocked b e = false)
    (hl : lockDenies e.now true o = true) :
    (replayAll V [(key', .put (named o'))] key).get vid = some o := by
  rw [get_replayAll_singleton, hg]
  rintro rfl hid
  have hid : (newVersionId b.versioning uuid).getD nullId = vid := by
    rw [← hs.versionId]
    exact hid
  have hm := Versions.get_eq_some.mp hg
  by_cases hv : b.versioning = some .enabled
  · rw [hv] at hid
    have hu : uuid = idOf o := Eq.trans hid hm.2.symm
    exact hfr (hu ▸ h.ids key' o hm.1)
  · -- the null version is taken over
    have hn : nullId = vid := by
      rcases hvr : b.versioning with _ | _ | _
      · rw [hvr] at hid
        exact hid
      · exact absurd hvr hv
      · rw [hvr] at hid
        exact hid
    have hf := findVersion_shows (h.shows key') nullId
    rw [hn, hg, ← hn] at hf
    have ha := any_of_map_named (q := fun o => !o.isDeleteMarker && lockDenies e.now true o)
      (fun _ => rfl) hf (by rw [hlv, hl]; rfl)
    simp [overwritesLocked, hk, hv, ha] at hsp

theorem Deleted.get_kept {remove : Str → Slot → Slot}
    (hdl : Deleted remove b key' versionId uuid now bypass b') (hf : uuid ∉ seen)
    (hl : lockDenies now true o = true) :
    (replayAll V [(key', deleteOp b.versioning versionId uuid)] key).get vid = some o := by
  rw [get_replayAll_singleton, hg]
  rintro rfl ht
  have hm := Versions.get_eq_some.mp hg
  have hne : uuid ≠ vid := by
    rintro rfl
    exact hf (hm.2 ▸ h.ids key' o hm.1)
  have hd := deleteDenied_of_locked h hg hlv hl hne ht bypass
  rw [hdl.allowed] at hd
  cases hd

theorem batch_get_kept {entries : List DeleteEntry} (hf : (entries.map DeleteEntry.uuid).Nodup)
    (hs : ∀ entry ∈ entries, entry.uuid ∉ seen) (hl : lockDenies now true o = true) :
    (replayAll V (batchEffects now bypass b entries) key).get vid = some o := by
  induction entries generalizing b V seen with
  | nil => exact hg
  | cons entry entries ih =>
    rw [map_cons, nodup_cons] at hf
    rw [forall_mem_cons] at hs
    rw [batchEffects, replayAll_append]
    have hw : ∀ a ∈ entries, a.uuid ∉ insert entry.uuid seen := by
      intro a ha hm
      rcases Set.mem_insert_iff.mp hm with heq | hm
      · exact hf.1 (heq ▸ mem_map_of_mem ha)
      · exact hs.2 a ha hm
    rcases deleteEntry_cases now bypass b entry with ⟨hdn, heq⟩ | hd
    · rw [heq, hdn]
      exact ih h hg hf.2 hs.2
    · rw [hd.allowed]
      exact ih (hd.tracks removeVersionBatch_shows history_removeVersionBatch h hs.1)
        (hd.get_kept h hg hlv hs.1 hl) hf.2 hw

theorem Happens.get_kept {fx : List Effect} (hh : Happens b e b' fx) (hf : (uuids e).Nodup)
    (hs : ∀ uuid ∈ uuids e, uuid ∉ seen) (hsp : overwritesLocked b e = false)
    (hl : lockDenies e.now true o = true) : (replayAll V fx key).get vid = some o := by
  cases hh with
  | same => exact hg
  | stored hk hu hst =>
    rw [hu] at hs
    exact hst.get_kept h hg hlv (hs _ (mem_singleton_self _)) hk hsp hl
  | deleted hu hd =>
    rw [hu] at hs
    exact hd.get_kept h hg hlv (hs _ (mem_singleton_self _)) hl
  | batch hud =>
    rw [hud] at hf hs
    exact batch_get_kept h hg hlv hf (fun entry he => hs _ (mem_map_of_mem he)) hl

end

theorem execAll_get_kept (h : Tracks b V seen) (hf : (events.flatMap uuids).Nodup)
    (hsn : ∀ uuid ∈ events.flatMap uuids, uuid ∉ seen) (hs : sparesLocks D b events = true)
    (hg : (V key).get vid = some o) (hp : Protected o events) :
    (replayAll V (trace D b events) key).get vid = some o := by
  induction events generalizing b V seen with
  | nil => exact hg
  | cons e events ih =>
    rw [flatMap_cons, nodup_append] at hf
    rw [sparesLocks, Bool.and_eq_true, Bool.not_eq_true'] at hs
    have ho : ∀ u ∈ uuids e, u ∉ seen := fun u hu => hsn u (mem_append_left _ hu)
    have hh := exec_happens D b e
    have hk := hh.get_kept h hg hp.live hf.1 ho hs.1 (hp.denies mem_cons_self)
    rw [trace, replayAll_append]
    refine ih (hh.tracks h hf.1 ho) hf.2.1 ?_ hs.2 hk ⟨hp.live, ?_⟩
    · intro u hu hmm
      rcases hmm with hmm | hmm
      · exact hf.2.2 u hmm u hu rfl
      · exact hsn u (mem_append_right _ hu) hmm
    · rcases hp.lock with hhl | ⟨hm, t, hr, hb⟩
      · exact .inl hhl
      · exact .inr ⟨hm, t, hr, fun e he => hb e (mem_cons_of_mem _ he)⟩

/-- **Locked versions are kept.**  In every run with fresh version ids in which no write takes over a
locked null version, a version that is protected through the run is found under its id afterwards, with its
body and all the rest. -/
theorem locked_version_kept (D : Digest) (b : Bucket) (events : List Event) (hsound : b.Sound)
    (hfresh : (events.flatMap uuids).Nodup) (hnew : ∀ uuid ∈ events.flatMap uuids, uuid ∉ idsOf b)
    (hspare : sparesLocks D b events = true) (key vid : Str) (o : Object)
    (hfound : resolveObject b key (some vid) = .ok o) (hprotected : Protected o events) :
    ∃ o', resolveObject (execAll D b events) key (some vid) = .ok o' ∧ o'.body = o.body ∧
      named o' = named o := by
  have ht := hsound.tracks
  obtain ⟨seen, ha⟩ := execAll_tracks D ht hfresh hnew
  have hg := resolveObject_shows (ht.shows key) vid
  rw [hfound] at hg
  have hk := execAll_get_kept ht hfresh hnew hspare hg.symm
    ⟨hprotected.live, hprotected.lock⟩
  obtain ⟨o', hr, hn⟩ := resolveObject_of_get (ha.shows key) hk
  exact ⟨o', hr, (congrArg Object.body hn : (named o').body = (named o).body), hn⟩

namespace Held

def held : Object := ⟨"e", [1], 1, none, none, false, none, none, some "ON"⟩

/-- A bucket that was never versioned, with an object under legal hold. -/
def bucket : Bucket := ⟨OrdMap.empty.insert "k" held, .empty, .empty, none, none⟩

def overwrite : List Event :=
  [⟨0, .put "k" "u1" ⟨none, none, none, none, none, [2], none, none⟩⟩]

/-- Deletes of the object, and writes once versioning is enabled. -/
def spared : List Event :=
  [⟨0, .delete "k" none "u1" true none⟩,
    ⟨0, .deleteMany [⟨"k", some nullId, "u2"⟩] true⟩,
    ⟨0, .putVersioning "Enabled"⟩,
    ⟨0, .put "k" "u3" ⟨none, none, none, none, none, [2], none, none⟩⟩]

/-- A plain `PutObject` destroys the object under legal hold. -/
theorem held_object_overwritten :
    resolveObject bucket "k" (some nullId) = .ok held ∧ Protected held overwrite ∧
      ∃ o, resolveObject (execAll Example.digest bucket overwrite) "k" (some nullId) = .ok o ∧
        o.body ≠ held.body :=
  ⟨rfl, ⟨rfl, .inl rfl⟩, _, rfl, by decide⟩

theorem slot_bucket (key : Str) : bucket.slot key = ⟨if key = "k" then some held else none, none⟩ := by
  have hg : bucket.objects.get key = if key = "k" then some held else none :=
    OrdMap.get_insert OrdMap.empty "k".toList key held
  rw [Bucket.slot, hg]
  rfl

theorem sound_bucket : bucket.Sound where
  current key := by
    rw [slot_bucket]
    intro o ho
    split_ifs at ho with hk
    · cases ho
      exact ⟨rfl, rfl⟩
    · cases ho
  nodup key := by
    rw [slot_bucket]
    split_ifs <;> simp [listed]
  unversioned _ key := by rw [slot_bucket]

theorem idsOf_bucket {id : Str} (h : id ∈ idsOf bucket) : id = nullId := by
  rcases h with h | ⟨key, o, ho, rfl⟩
  · exact h
  · rw [slot_bucket] at ho
    split_ifs at ho with hk
    · rw [mem_singleton.mp ho]
      rfl
    · cases ho

end Held

open Held in
/-- The deletes are refused, and the writes after versioning is enabled go on top. -/
theorem locked_version_kept_held : ∃ o,
    resolveObject (execAll Example.digest bucket spared) "k" (some nullId) = .ok o ∧
      o.body = held.body ∧ named o = named held := by
  refine locked_version_kept Example.digest bucket spared sound_bucket (by decide +kernel) ?_
    (by decide +kernel) "k" nullId held rfl ⟨rfl, .inl rfl⟩
  intro uuid hu hm
  rw [idsOf_bucket hm] at hu
  revert hu
  decide +kernel

end Fakecloud.S3

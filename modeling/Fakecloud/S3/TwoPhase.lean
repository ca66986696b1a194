import Fakecloud.S3.History

/-!
# S3: writes in two critical sections

`put_object` and `complete_multipart_upload` read the versioning of the bucket under one lock and install
their object under a later one.  In between other requests run, among them `PutBucketVersioning`.

* `Prepared`, `commit` — a write between its two sections, and the second of them;
* `commit_ok_iff` — a commit leaves the current object on top of the history, and every version with an id of
  its own, exactly when it does not hold a versioning from before there was a history;
* `creates_iff` — a conditional creation commits where nothing is found, unless a delete marker is there.
-/

namespace Fakecloud.S3

open Text List Option

/-- A write after its first section: the versioning it saw and the object it will install. -/
structure Prepared where
  key : Str
  uuid : Str
  seen : Option Versioning
  object : Object
  ifMatch : Option Str
  ifNoneMatch : Option Str
  upload : Option Str

/-- The first section, which refuses what the whole request would refuse then. -/
inductive Prepares (D : Digest) (b : Bucket) : Prepared → Prop
  | put {key uuid : Str} (now : ℤ) (r : PutRequest) {b' : Bucket} {o : Object}
    (h : putObject D b key uuid now r = .ok (b', o)) :
    Prepares D b ⟨key, uuid, b.versioning, o, r.ifMatch, r.ifNoneMatch, none⟩
  | complete {key uploadId uuid : Str} {ifNoneMatch : Option Str} {submitted : List (ℕ × Str)}
    {b' : Bucket} {o : Object}
    (h : completeMultipartUpload D b key uploadId uuid ifNoneMatch submitted = .ok (b', some o)) :
    Prepares D b ⟨key, uuid, b.versioning, o, none, ifNoneMatch, some uploadId⟩

/-- The second section: the preconditions are checked again, the versioning is not.  An upload that was
completed in between answers again. -/
def commit (b : Bucket) (p : Prepared) : Except ServiceError Bucket :=
  let s := b.slot p.key
  let installed := b.setSlot p.key (storeObject p.seen p.object s)
  match p.upload with
  | none => do
    checkIfMatch s.current p.ifMatch
    failIf (p.ifNoneMatch.any (fun inm => trim inm = ['*']) ∧ s.current.isSome) preconditionFailed
    .ok installed
  | some uploadId =>
    match b.multipartUploads.get uploadId with
    | none => if s.current.isSome then .ok b else .error noSuchUpload
    | some _ => do
      failIf (p.ifNoneMatch = some ['*'] ∧ s.current.isSome) preconditionFailed
      .ok { installed with multipartUploads := b.multipartUploads.erase uploadId }

/-- The object of the write is not installed yet. -/
def Prepared.pending (b : Bucket) (p : Prepared) : Bool :=
  p.upload.all fun uploadId => (b.multipartUploads.get uploadId).isSome

/-- A write that saw no versioning meets no history. -/
def Timely (b : Bucket) (p : Prepared) : Prop :=
  p.pending b → p.seen = none → (b.slot p.key).history = none

structure CommitOk (b b' : Bucket) (key : Str) : Prop where
  latest : ∀ latest, ((b'.slot key).history.getD []).getLast? = some latest →
    (b'.slot key).current = some latest
  kept : ∀ vid o, vid ≠ nullId → resolveObject b key (some vid) = .ok o →
    ∃ o', resolveObject b' key (some vid) = .ok o' ∧ named o' = named o

def Unused (b : Bucket) (uuid : Str) : Prop :=
  uuid ≠ nullId ∧ ∀ key, ∀ o ∈ listed (b.slot key), idOf o ≠ uuid

/-- The interleavings: requests as a whole, and the two sections of writes. -/
inductive Reached (D : Digest) : Bucket → List Prepared → Prop
  | start {b : Bucket} (hempty : ∀ key, b.slot key = ⟨none, none⟩) : Reached D b []
  | request {b : Bucket} {ps : List Prepared} (e : Event) (h : Reached D b ps)
    (hnodup : (uuids e).Nodup) (hunused : ∀ uuid ∈ uuids e, Unused b uuid) : Reached D (exec D b e) ps
  | prepare {b : Bucket} {ps : List Prepared} {p : Prepared} (h : Reached D b ps)
    (hp : Prepares D b p) : Reached D b (p :: ps)
  | commit {b b' : Bucket} {ps : List Prepared} {p : Prepared} (h : Reached D b ps) (hp : p ∈ ps)
    (hunused : Unused b p.uuid) (hcommit : commit b p = .ok b') (htimely : Timely b p) :
    Reached D b' ps

section Step

variable {D : Digest} {b b' : Bucket} {p : Prepared}

/-- A commit installs its object, or has happened before. -/
theorem commit_cases (h : commit b p = .ok b') :
    (p.pending b ∧ b'.slot = (b.setSlot p.key (storeObject p.seen p.object (b.slot p.key))).slot ∧
      b'.versioning = b.versioning ∧
      b'.multipartUploads = p.upload.elim b.multipartUploads b.multipartUploads.erase) ∨
    (p.pending b = false ∧ b' = b ∧ (b.slot p.key).current.isSome) := by
  rw [commit] at h
  rw [Prepared.pending]
  rcases hu : p.upload with _ | uploadId <;> rw [hu] at h
  · obtain ⟨-, -, h⟩ := bind_eq_ok.mp h
    obtain ⟨-, -, h⟩ := bind_eq_ok.mp h
    cases h
    exact .inl ⟨rfl, rfl, rfl, rfl⟩
  · dsimp only at h
    rw [Option.all_some]
    rcases hg : b.multipartUploads.get uploadId with _ | upload <;> rw [hg] at h
    · split_ifs at h with hc
      cases h
      exact .inr ⟨rfl, rfl, hc⟩
    · obtain ⟨-, -, h⟩ := bind_eq_ok.mp h
      cases h
      exact .inl ⟨rfl, rfl, rfl, rfl⟩

theorem versioning_batch {now : ℤ} {bypass : Bool} (entries : List DeleteEntry) (b : Bucket) :
    (entries.foldl (deleteEntry now bypass) b).versioning = b.versioning := by
  refine foldlRecOn (motive := (Bucket.versioning · = b.versioning)) _ _ rfl fun b' h entry _ => ?_
  rw [← h, deleteEntry]
  split <;> rfl

/-- Versioning is never taken back. -/
theorem versioning_exec (e : Event) (h : (exec D b e).versioning = none) : b.versioning = none := by
  have hh := exec_happens D b e
  generalize exec D b e = b', effects D b e = fx at hh h
  cases hh with
  | same hsl hv => exact hv h
  | stored hk hu hs => exact hs.versioning ▸ h
  | deleted hu hd =>
    rw [hd.eq] at h
    exact h
  | batch hud =>
    rw [versioning_batch] at h
    exact h

/-- A write between its sections: its object is one of the versioning it saw, which is still configured. -/
structure Waits (b : Bucket) (p : Prepared) : Prop where
  versionId : p.object.versionId = newVersionId p.seen p.uuid
  live : p.object.isDeleteMarker = false
  seen : b.versioning = none → p.seen = none

theorem Waits.id (h : Waits b p) : idOf p.object = nullId ∨ idOf p.object = p.uuid := by
  rw [idOf, h.versionId]
  rcases p.seen with _ | _ | _
  · exact .inl rfl
  · exact .inr rfl
  · exact .inl rfl

theorem Prepares.waits (h : Prepares D b p) : Waits b p := by
  cases h with
  | put now r h =>
    have hs := putObject_stored h
    exact ⟨hs.versionId, hs.live, id⟩
  | complete h =>
    obtain ⟨-, hn, -⟩ | ⟨o, ho, hs, -⟩ := completeMultipartUpload_stored h
    · cases hn
    · cases ho
      exact ⟨hs.versionId, hs.live, id⟩

end Step

/-! ## Runs -/

section Run

variable {D : Digest} {b b' : Bucket} {ps : List Prepared} {p : Prepared} {V : Str → Versions idOf}
  {seen : Set Str}

/-- The ids that were seen may be taken to be those of the versions. -/
theorem Tracks.unused (h : Tracks b V seen) {uuid : Str} (hu : Unused b uuid) :
    Tracks b V {u | u ≠ uuid} where
  shows := h.shows
  unversioned := h.unversioned
  ids key o ho := by
    rw [← (h.shows key).entries] at ho
    obtain ⟨a, ha, rfl⟩ := mem_map.mp ho
    exact hu.2 key a ha
  null := Ne.symm hu.1

theorem Tracks.commit (h : Tracks b V seen) (hw : Waits b p) (hu : Unused b p.uuid)
    (ht : p.seen = none → (b.slot p.key).history = none)
    (hs : b'.slot = (b.setSlot p.key (storeObject p.seen p.object (b.slot p.key))).slot)
    (hv : b'.versioning = b.versioning) :
    Tracks b' (replayAll V [(p.key, .put (named p.object))]) Set.univ := by
  have hal : Tracks b V Set.univ := h.mono (Set.subset_univ seen)
  refine hal.edit (fun k => by rw [hs, slot_setSlot]) hv ?_ (fun hn => ?_)
    fun o _ => Set.mem_univ _
  · refine storeObject_shows (h.shows p.key) ht hw.versionId hw.live fun a ha => ?_
    exact (h.unused hu).ids p.key a ha
  · rw [hw.seen hn]
    exact h.unversioned hn p.key

theorem Reached.sound (h : Reached D b ps) : (∃ V seen, Tracks b V seen) ∧ ∀ p ∈ ps, Waits b p := by
  induction h with
  | start hem => exact ⟨⟨_, _, Tracks.empty hem⟩, forall_mem_nil _⟩
  | @request b ps e h hnd hun ih =>
    obtain ⟨⟨V, seen, ht⟩, hw⟩ := ih
    have he : Tracks b V {u | u ∉ uuids e} := { ht with
        ids := fun key o ho hm => (ht.unused (hun _ hm)).ids key o ho rfl
        null := fun hm => (hun _ hm).1 rfl }
    refine ⟨⟨_, _, (exec_happens D b e).tracks he hnd fun u hu hm => hm hu⟩, fun p hp => ?_⟩
    exact ⟨(hw p hp).versionId, (hw p hp).live, fun hn => (hw p hp).seen (versioning_exec e hn)⟩
  | prepare h hp ih => exact ⟨ih.1, forall_mem_cons.mpr ⟨hp.waits, ih.2⟩⟩
  | commit h hp hun hc htm ih =>
    obtain ⟨⟨V, seen, ht⟩, hw⟩ := ih
    obtain ⟨hpn, hs, hv, -⟩ | ⟨-, rfl, -⟩ := commit_cases hc
    · refine ⟨⟨_, _, ht.commit (hw _ hp) hun (htm hpn) hs hv⟩, fun p hp => ?_⟩
      exact ⟨(hw p hp).versionId, (hw p hp).live, fun hn => (hw p hp).seen (hv ▸ hn)⟩
    · exact ⟨⟨V, seen, ht⟩, hw⟩

theorem Shows.current_latest {s : Slot} {v : Versions idOf} (h : Shows s v) (hc : s.current.isSome)
    {latest : Object} (hl : (s.history.getD []).getLast? = some latest) : s.current = some latest := by
  rcases hh : s.history with _ | versions
  · rw [hh] at hl
    cases hl
  · obtain ⟨last, hls, hcr | ⟨-, hcr⟩⟩ := (h.of_some hh).2
    · rw [hh, getD_some, hls] at hl
      rw [hcr, hl]
    · rw [hcr] at hc
      cases hc

theorem current_storeObject (versioning : Option Versioning) (o : Object) (s : Slot) :
    (storeObject versioning o s).current = some o := by
  rcases versioning with _ | _ | _ <;> rfl

/-- **Commits respect the versioning of their time**, in every interleaving, exactly when they do not hold
a versioning from before there was a history. -/
theorem commit_ok_iff (h : Reached D b ps) (hp : p ∈ ps) (hunused : Unused b p.uuid)
    (hcommit : commit b p = .ok b') : CommitOk b b' p.key ↔ Timely b p := by
  obtain ⟨⟨V, seen, ht⟩, hw⟩ := h.sound
  obtain ⟨hpn, hs, hvr, -⟩ | ⟨hcl, rfl, hc⟩ := commit_cases hcommit
  · have hat : b'.slot p.key = storeObject p.seen p.object (b.slot p.key) := by
      rw [hs, slot_setSlot, if_pos rfl]
    constructor
    · -- a null version on top of a history is not its latest version
      intro hok _ hn
      by_contra hh
      obtain ⟨versions, hv⟩ := ne_none_iff_exists'.mp hh
      obtain ⟨hsm, latest, hl, -⟩ := (ht.shows p.key).of_some hv
      have hcr := hok.latest latest (by rw [hat, hn, storeObject, hv]; exact hl)
      rw [hat, current_storeObject, some.injEq] at hcr
      have hid := hsm latest (mem_of_getLast? hl)
      rw [← hcr, (hw p hp).versionId, hn] at hid
      cases hid
    · intro htm
      have ht' := ht.commit (hw p hp) hunused (htm hpn) hs hvr
      refine ⟨fun latest => (ht'.shows p.key).current_latest ?_, fun vid o hvd hr => ?_⟩
      · rw [hat, current_storeObject]
        rfl
      · have hg := resolveObject_shows (ht.shows p.key) vid
        rw [hr] at hg
        refine resolveObject_of_get (ht'.shows p.key) ?_
        rw [replayAll_singleton, if_pos rfl]
        refine (Versions.get_put_of_ne fun hid => ?_).trans hg.symm
        obtain hnl | hu := (hw p hp).id
        · exact hvd (hid ▸ hnl)
        · obtain ⟨hm, hi⟩ := Versions.get_eq_some.mp hg.symm
          exact (ht.unused hunused).ids p.key _ hm (hi.trans (hid.symm.trans hu))
  · refine ⟨fun _ ho => ?_, fun _ => ⟨fun latest => (ht.shows p.key).current_latest hc,
      fun vid o _ hr => ⟨o, hr, rfl⟩⟩⟩
    rw [hcl] at ho
    cases ho

end Run

/-! ## Conditional creation -/

section Creation

def plainGet (b : Bucket) (key : Str) : Option Object :=
  (resolveObject b key none).toOption.filter fun o => !o.isDeleteMarker

/-- The second section installs the object. -/
def Prepared.commits (b : Bucket) (p : Prepared) : Bool := p.pending b && (commit b p).isOk

/-- Nothing but the condition can stop the write. -/
def Prepared.ready (b : Bucket) (p : Prepared) : Prop :=
  p.pending b ∧ (p.upload = none → p.ifMatch = none)

/-- What other requests and commits make of a bucket, without deletes. -/
inductive Undeleted (D : Digest) (b : Bucket) : Bucket → Prop
  | refl : Undeleted D b b
  | request {c : Bucket} (h : Undeleted D b c) (e : Event) (he : e.deletes = false) : Undeleted D
      b (exec D c e)
  | commit {c c' : Bucket} (h : Undeleted D b c) (p : Prepared) (hcommit : commit c p = .ok c') :
    Undeleted D b c'

variable {D : Digest} {b b' c : Bucket} {p : Prepared} {key uuid : Str} {o : Object} {k : Str}

theorem commits_iff (hc : p.ifNoneMatch = some ['*']) :
    p.commits b ↔ (b.slot p.key).current = none ∧ p.ready b := by
  rw [Prepared.commits, Prepared.ready, Prepared.pending, commit, hc]
  rcases p.upload with _ | uploadId
  · have hs : trim ['*'] = ['*'] := by decide
    rcases p.ifMatch with _ | ifMatch <;> rcases (b.slot p.key).current with _ | o <;>
      simp only [checkIfMatch, failIf, Option.any_some, hs]
    · simp [Except.toBool, bind, Except.bind]
    · simp [Except.toBool, bind, Except.bind]
    · simp [Except.toBool, bind, Except.bind]
    · split_ifs <;> simp_all [Except.toBool, bind, Except.bind]
  · rcases hg : b.multipartUploads.get uploadId with _ | upload
    · simp [hg]
    · rcases (b.slot p.key).current with _ | o <;>
        simp [hg, failIf, Except.toBool, bind, Except.bind]

theorem Stored.current (h : Stored b key uuid b' o) (hs : (b.slot k).current.isSome) :
    (b'.slot k).current.isSome := by
  rw [h.slot]
  split_ifs
  · rw [current_storeObject]
    rfl
  · exact hs

theorem current_exec {e : Event} (he : e.deletes = false) (hs : (b.slot k).current.isSome) :
    ((exec D b e).slot k).current.isSome := by
  obtain ⟨hsl, -⟩ | ⟨key, uuid, o, -, -, hst, -⟩ := exec_writes D b he
  · rwa [hsl]
  · exact hst.current hs

theorem current_commit (hcm : commit b p = .ok b')
    (h : (b.slot k).current.isSome ∨ k = p.key) : (b'.slot k).current.isSome := by
  obtain ⟨-, hs, -⟩ | ⟨-, rfl, hc⟩ := commit_cases hcm
  · rw [hs, slot_setSlot]
    split_ifs with hk
    · rw [current_storeObject]
      rfl
    · exact h.resolve_right hk
  · exact h.elim id fun hk => hk ▸ hc

theorem Undeleted.current (h : Undeleted D b c) (hs : (b.slot k).current.isSome) :
    (c.slot k).current.isSome := by
  induction h with
  | refl => exact hs
  | request h e he ih => exact current_exec he ih
  | commit h p hc ih => exact current_commit hc (.inl ih)

/-- **A conditional creation commits where a plain `GetObject` finds nothing**, exactly when the current
object is no delete marker and nothing else stops the write.  After it no other creation of the key commits,
until there is a delete. -/
theorem creates_iff (D : Digest) (b : Bucket) (p : Prepared) (hc : p.ifNoneMatch = some ['*']) :
    ((p.commits b ↔ plainGet b p.key = none) ↔
      (b.slot p.key).current.all (fun o => !o.isDeleteMarker) ∧ ((b.slot p.key).current = none → p.ready b)) ∧
    ∀ b' c (q : Prepared), commit b p = .ok b' → Undeleted D b' c → q.key = p.key →
      q.ifNoneMatch = some ['*'] →
      q.commits c = false := by
  constructor
  · rw [commits_iff hc, plainGet, resolveObject]
    rcases (b.slot p.key).current with _ | o <;> simp [Except.toOption]
  · intro b' c q hcm hr hk hq
    rw [Bool.eq_false_iff, Ne, commits_iff hq]
    rintro ⟨hn, -⟩
    have hs := hr.current (current_commit hcm (.inr rfl))
    rw [← hk, hn] at hs
    cases hs

end Creation

namespace Example

def unversioned (body : Bytes) : Object := ⟨"e", body, body.length, none, none, false, none, none, none⟩

/-- A write that was begun before versioning was configured. -/
def early : Prepared := ⟨"k", "u1", none, unversioned [1], none, none, none⟩

/-- A bucket where versioning was enabled, and that has then a version of the key. -/
def enabled : Bucket := { emptyBucket with versioning := some .enabled }

def filled : Bucket := enabled.setSlot "k" ⟨some (plain "u2" [2]), some [plain "u2" [2]]⟩

theorem early_prepared : Reached digest enabled [early] := .request ⟨0, .putVersioning "Enabled"⟩
    (.prepare (.start fun _ => rfl) (.put 0 ⟨none, none, none, none, none, [1], none, none⟩ rfl))
    .nil nofun

theorem early_filled : Reached digest filled [early] :=
  .request (put "u2" [2]) early_prepared (nodup_singleton _) fun _ hu =>
    ⟨mem_singleton.mp hu ▸ by decide, fun _ => nofun⟩

theorem unused_filled {uuid : Str} (hn : uuid ≠ nullId) (h : "u2".toList ≠ uuid) : Unused filled uuid := by
  refine ⟨hn, fun key o ho => ?_⟩
  rw [filled, slot_setSlot] at ho
  split_ifs at ho
  · rw [mem_singleton.mp ho]
    exact h
  · cases ho

/-- A conditional creation, begun while nothing was there. -/
def creation : Prepared := ⟨"k", "u5", none, unversioned [5], none, some ['*'], none⟩

/-- The object was deleted again, but the creation is refused. -/
theorem creation_refused : Prepares digest emptyBucket creation ∧
    let b := execAll digest emptyBucket events
    plainGet b "k" = none ∧ creation.commits b = false :=
  ⟨.put 0 ⟨none, some ['*'], none, none, none, [5], none, none⟩ rfl, by decide +kernel⟩

/-- The object was deleted while the bucket had no versioning, another is still there. -/
def cleared : Bucket := execAll digest emptyBucket
  [put "u1" [1], ⟨0, .put "j" "u2" ⟨none, none, none, none, none, [2], none, none⟩⟩,
    ⟨0, .delete "k" none "u3" false none⟩]

theorem creates_again : plainGet cleared "k" = none ∧ creation.commits cleared := by
  have hn : plainGet cleared "k" = none := by decide +kernel
  exact ⟨hn, (creates_iff digest _ creation rfl).1.mpr
    ⟨by decide +kernel, fun _ => ⟨rfl, fun _ => rfl⟩⟩ |>.mpr hn⟩

/-- The write takes the current object's place, the history does not know of it. -/
theorem stale_write_installed : Reached digest filled [early] ∧ Unused filled early.uuid ∧
    ∃ b', commit filled early = .ok b' ∧ ¬CommitOk filled b' early.key := by
  refine ⟨early_filled, unused_filled (by decide) (by decide), _, rfl, fun hok => ?_⟩
  have hc := hok.latest (plain "u2" [2]) rfl
  exact absurd hc (by decide +kernel)

/-- A write that saw the versioning, and is committed on top of another version. -/
def late : Prepared := ⟨"k", "u3", some .enabled, plain "u3" [3], none, none, none⟩

theorem commit_ok_late :
    Timely filled late ∧ ∃ b', commit filled late = .ok b' ∧ CommitOk filled b' late.key := by
  have h : Reached digest filled [late, early] :=
    early_filled.prepare (.put 0 ⟨none, none, none, none, none, [3], none, none⟩ rfl)
  have ht : Timely filled late := fun _ => nofun
  obtain ⟨b', hc⟩ : ∃ b', commit filled late = .ok b' := ⟨_, rfl⟩
  exact ⟨ht, b', hc, (commit_ok_iff h mem_cons_self (unused_filled (by decide) (by decide)) hc).mpr ht⟩

end Example

end Fakecloud.S3

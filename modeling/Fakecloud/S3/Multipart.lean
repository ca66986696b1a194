import Fakecloud.S3.TwoPhase

/-!
# S3: completion of multipart uploads

A completion hashes the parts of one moment and is committed at a later one.  The disk store keeps the parts
as files; `DiskS3Store::mpu_complete` makes the object of all the files that the directory has at the commit.

* `complete_body_iff` — the object is described by the parts that were named and hashed; its body is theirs in
  memory, and on disk, if none of them was uploaded again, exactly when all other parts are empty;
* `answer_true_iff` — an upload that is gone is taken for completed whenever the key has an object, which is
  true exactly when it was created for the key and not aborted.
-/

namespace Fakecloud.S3

open Text List Function

/-! ## Part files -/

def bodyOf (parts : List (ℕ × Bytes)) : Bytes := parts.flatMap Prod.snd

/-- The part files in the directory of each upload. -/
abbrev PartFiles := Str → OrdMap ℕ Bytes compare

def PartFiles.mpuPutPart (files : PartFiles) (uploadId : Str) (partNumber : ℕ) (body : Bytes) : PartFiles :=
  update files uploadId ((files uploadId).insert partNumber body)

/-- The directory goes, with `mpu_abort` and at the end of `mpu_complete`. -/
def PartFiles.removeDir (files : PartFiles) (uploadId : Str) : PartFiles := update files uploadId .empty

/-- The file of `mpu_complete`, which does not know what parts the request named. -/
def PartFiles.mpuComplete (files : PartFiles) (uploadId : Str) : Bytes := bodyOf (files uploadId).entries

inductive StoreMode
  | memory
  | disk
deriving DecidableEq

/-- The commit with its store: the file of `mpu_complete` takes the place of the assembled body. -/
def commitTo (mode : StoreMode) (files : PartFiles) (b : Bucket) (p : Prepared) :
    Except ServiceError Bucket :=
  match mode, p.upload with
  | .disk, some uploadId => commit b { p with object := { p.object with body := files.mpuComplete uploadId } }
  | _, _ => commit b p

theorem commitTo_eq (mode : StoreMode) (files : PartFiles) (b : Bucket) (p : Prepared) :
    ∃ o, commitTo mode files b p = commit b { p with object := o } := by
  unfold commitTo
  split
  · exact ⟨_, rfl⟩
  · exact ⟨p.object, rfl⟩

/-- A commit that completes its upload takes its directory away. -/
def Prepared.clear (b : Bucket) (p : Prepared) (files : PartFiles) : PartFiles :=
  match p.upload with
  | some uploadId => if p.pending b then files.removeDir uploadId else files
  | none => files

/-! ## Runs -/

def abortMultipartUpload (b : Bucket) (key uploadId : Str) : Except ServiceError Bucket :=
  match b.multipartUploads.get uploadId with
  | none => .error noSuchUpload
  | some upload =>
    if upload.key ≠ key then .error noSuchUpload
    else .ok { b with multipartUploads := b.multipartUploads.erase uploadId }

inductive Fate
  | pending
  | aborted
  | completed
deriving DecidableEq

/-- The uploads that were created, with their key. -/
abbrev Fates := Str → Option (Str × Fate)

/-- A commit completes its upload. -/
def Prepared.settle (b : Bucket) (p : Prepared) (fates : Fates) : Fates :=
  match p.upload with
  | some uploadId =>
    if p.pending b then Function.update fates uploadId (some (p.key, .completed)) else fates
  | none => fates

/-- The interleavings of uploads and writes, from a bucket with no upload; ids are not drawn twice. -/
inductive Uploads (D : Digest) : Bucket → PartFiles → Fates → List Prepared → Prop
  | start {b : Bucket} (hempty : ∀ uploadId, b.multipartUploads.get uploadId = none) :
    Uploads D b (fun _ => .empty) (fun _ => none) []
  | create {b : Bucket} {files : PartFiles} {fates : Fates} {ps : List Prepared}
    (h : Uploads D b files fates ps) (key : Str) {uploadId : Str} (hfresh : fates uploadId = none) :
    Uploads D (createMultipartUpload b key uploadId) files
      (Function.update fates uploadId (some (key, .pending))) ps
  | part {b b' : Bucket} {files : PartFiles} {fates : Fates} {ps : List Prepared}
    (h : Uploads D b files fates ps) {key uploadId : Str} {partNumber : ℕ} {body : Bytes}
    (hpart : uploadPart D b key uploadId partNumber body = .ok b') :
    Uploads D b' (files.mpuPutPart uploadId partNumber body) fates ps
  | abort {b b' : Bucket} {files : PartFiles} {fates : Fates} {ps : List Prepared}
    (h : Uploads D b files fates ps) {key uploadId : Str}
    (habort : abortMultipartUpload b key uploadId = .ok b') :
    Uploads D b' (files.removeDir uploadId) (Function.update fates uploadId (some (key, .aborted))) ps
  | prepare {b : Bucket} {files : PartFiles} {fates : Fates} {ps : List Prepared} {p : Prepared}
    (h : Uploads D b files fates ps) (hp : Prepares D b p) : Uploads D b files fates (p :: ps)
  | commit {b b' : Bucket} {files : PartFiles} {fates : Fates} {ps : List Prepared} {p : Prepared}
    {mode : StoreMode} (h : Uploads D b files fates ps) (hp : p ∈ ps)
    (hcommit : commitTo mode files b p = .ok b') : Uploads D b' (p.clear b files) (p.settle b fates) ps

/-- The uploads of a bucket are those that are neither aborted nor completed, and their files
are their parts. -/
structure Accounted (b : Bucket) (files : PartFiles) (fates : Fates) (ps : List Prepared) : Prop where
  pending : ∀ uploadId key, (b.multipartUploads.get uploadId).map MultipartUpload.key = some key ↔
    fates uploadId = some (key, .pending)
  created : ∀ p ∈ ps, ∀ uploadId ∈ p.upload, ∃ fate, fates uploadId = some (p.key, fate)
  stored : ∀ uploadId n, (files uploadId).get n =
    ((b.multipartUploads.get uploadId).bind fun upload => upload.parts.get n).map UploadPart.body

variable {D : Digest} {b b' : Bucket} {files : PartFiles} {fates : Fates} {ps : List Prepared}
  {key uploadId : Str}

section Runs

variable {p : Prepared}

section

variable (h : Accounted b files fates ps)
include h

theorem Accounted.close (hb' : b'.multipartUploads = b.multipartUploads.erase uploadId) {fate fate' : Fate}
    (hft : fates uploadId = some (key, fate')) (hc : fate ≠ .pending) :
    Accounted b' (files.removeDir uploadId) (update fates uploadId (some (key, fate))) ps where
  pending u k := by
    rw [hb', OrdMap.get_erase, update_apply]
    split_ifs with hu
    · simp [hc]
    · exact h.pending u k
  created p hp u hu := by
    obtain ⟨f, hf⟩ := h.created p hp u hu
    rw [update_apply]
    split_ifs with hid
    · rw [hid, hft] at hf
      cases hf
      exact ⟨_, rfl⟩
    · exact ⟨f, hf⟩
  stored u n := by
    rw [hb', OrdMap.get_erase, PartFiles.removeDir, update_apply]
    split_ifs with hu
    · rfl
    · exact h.stored u n

theorem Accounted.create (key : Str) (hfr : fates uploadId = none) :
    Accounted (createMultipartUpload b key uploadId) files
      (update fates uploadId (some (key, .pending))) ps where
  pending u k := by
    rw [createMultipartUpload, OrdMap.get_insert, update_apply]
    split_ifs with hu
    · simp
    · exact h.pending u k
  created p hp u hu := by
    obtain ⟨f, hf⟩ := h.created p hp u hu
    rw [update_of_ne (by rintro rfl; rw [hfr] at hf; cases hf)]
    exact ⟨f, hf⟩
  stored u n := by
    rw [h.stored u n, createMultipartUpload, OrdMap.get_insert]
    split_ifs with hu
    · have hnone : b.multipartUploads.get uploadId = none := by
        by_contra hg
        obtain ⟨upload, hg⟩ := Option.ne_none_iff_exists'.mp hg
        have hp := (h.pending uploadId upload.key).mp (by rw [hg]; rfl)
        rw [hfr] at hp
        cases hp
      rw [hu, hnone]
      rfl
    · rfl

theorem Accounted.part {partNumber : ℕ} {body : Bytes}
    (hp : uploadPart D b key uploadId partNumber body = .ok b') :
    Accounted b' (files.mpuPutPart uploadId partNumber body) fates ps := by
  unfold uploadPart at hp
  split_ifs at hp
  rcases hg : b.multipartUploads.get uploadId with _ | upload <;> rw [hg] at hp
  · cases hp
  · dsimp only at hp
    split_ifs at hp
    cases hp
    refine ⟨fun u k => ?_, h.created, fun u n => ?_⟩
    · rw [OrdMap.get_insert, ← h.pending]
      split_ifs with hu
      · rw [hu, hg]
        rfl
      · rfl
    · rw [OrdMap.get_insert, PartFiles.mpuPutPart, update_apply]
      split_ifs with hu
      · rw [OrdMap.get_insert, h.stored, hg, Option.bind_some, Option.bind_some, OrdMap.get_insert]
        split_ifs <;> rfl
      · exact h.stored u n

theorem Accounted.abort (ha : abortMultipartUpload b key uploadId = .ok b') :
    Accounted b' (files.removeDir uploadId) (update fates uploadId (some (key, .aborted))) ps := by
  unfold abortMultipartUpload at ha
  rcases hg : b.multipartUploads.get uploadId with _ | upload <;> rw [hg] at ha
  · cases ha
  · dsimp only at ha
    split_ifs at ha with hk
    cases ha
    exact h.close rfl ((h.pending ..).mp (by rw [hg, Option.map_some, not_not.mp hk])) (by decide)

theorem Accounted.prepare (hp : Prepares D b p) : Accounted b files fates (p :: ps) := by
  refine ⟨h.pending, forall_mem_cons.mpr ⟨fun u hu => ?_, h.created⟩, h.stored⟩
  cases hp with
  | put => cases hu
  | complete hc =>
    cases hu
    obtain ⟨-, hn, -⟩ | ⟨o, -, -, hk⟩ := completeMultipartUpload_stored hc
    · cases hn
    · exact ⟨_, (h.pending ..).mp hk⟩

theorem Accounted.commit {mode : StoreMode} (hp : p ∈ ps) (hc : commitTo mode files b p = .ok b') :
    Accounted b' (p.clear b files) (p.settle b fates) ps := by
  obtain ⟨o, ho⟩ := commitTo_eq mode files b p
  rw [ho] at hc
  rw [Prepared.settle, Prepared.clear]
  obtain ⟨hpn, -, -, hm⟩ | ⟨hpn, rfl, -⟩ := commit_cases hc <;> rw [Prepared.pending] at hpn ⊢
  · rcases hu : p.upload with _ | uploadId <;> rw [hu] at hm hpn
    · exact ⟨fun u k => by rw [hm]; exact h.pending u k, h.created, fun u n => by rw [hm]; exact h.stored u n⟩
    · obtain ⟨fate, hf⟩ := h.created p hp uploadId hu
      rw [hpn]
      exact h.close hm hf (by decide)
  · rcases hu : p.upload with _ | uploadId <;> rw [hu] at hpn
    · exact h
    · rwa [hpn]

end

theorem Uploads.accounted (h : Uploads D b files fates ps) : Accounted b files fates ps := by
  induction h with
  | start he => exact ⟨fun u k => by rw [he]; simp, forall_mem_nil _, fun u n => by rw [he]; rfl⟩
  | create h key hf ih => exact ih.create key hf
  | part h hpr ih => exact ih.part hpr
  | abort h ha ih => exact ih.abort ha
  | prepare h hp ih => exact ih.prepare hp
  | commit h hp hc ih => exact ih.commit hp hc

end Runs

/-! ## Bodies -/

/-- The parts of an upload that a completion names, in the order of their numbers. -/
def namedParts (upload : MultipartUpload) (submitted : List (ℕ × Str)) : List (ℕ × Bytes) :=
  (upload.parts.entries.filter fun e => e.1 ∈ submitted.map Prod.fst).map fun e => (e.1, e.2.body)

/-- The etag, the size and the part sizes of an object are those of the parts. -/
structure Describes (D : Digest) (parts : List (ℕ × Bytes)) (o : Object) : Prop where
  etag : o.etag = D.md5OfParts (parts.map Prod.snd) ++ '-' :: decimalText parts.length
  size : o.size = (bodyOf parts).length
  partSizes : o.partSizes = some (parts.map fun part => (part.1, part.2.length))

section Body

variable {uuid : Str} {ifNoneMatch : Option Str} {submitted : List (ℕ × Str)}
  {upload : MultipartUpload} {o : Object} {parts : List (ℕ × Bytes)}

theorem assembleParts_eq_ok (h : assembleParts D upload submitted = .ok parts) :
    parts = namedParts upload submitted ∧ parts.length = submitted.length := by
  obtain ⟨_, hc, h⟩ := bind_eq_ok.mp h
  obtain ⟨-, -, h⟩ := bind_eq_ok.mp h
  obtain ⟨-, -, h⟩ := bind_eq_ok.mp h
  have hlt : submitted.IsChain fun p q => p.1 < q.1 := not_not.mp (failIf_eq_ok.mp hc)
  have hf : Forall₂ (fun part p => (upload.parts.get part.1).map UploadPart.body = some part.2 ∧ part.1 = p.1)
      parts submitted := by
    refine (forall₂_of_mapM_ok h).flip.imp fun part p hp => ?_
    rcases hg : upload.parts.get p.1 with _ | found <;> rw [hg] at hp
    · cases hp
    · dsimp only at hp
      split_ifs at hp
      cases hp
      exact ⟨by rw [hg]; rfl, rfl⟩
  obtain ⟨hget, hn⟩ := (forall₂_and_left parts submitted).mp hf
  have hfst : parts.map Prod.fst = submitted.map Prod.fst :=
    forall₂_eq_eq_eq ▸ forall₂_map_left_iff.mpr (forall₂_map_right_iff.mpr hn)
  refine ⟨List.Pairwise.eq_of_mem_iff (r := fun a b => a.1 < b.1) ?_ ?_ fun part => ?_, hf.length_eq⟩
  · rw [← pairwise_map, hfst, pairwise_map]
    exact isChain_iff_pairwise.mp hlt
  · exact pairwise_map.mpr ((upload.parts.sorted.imp fun hlt => Nat.compare_eq_lt.mp hlt).filter _)
  · simp only [namedParts, mem_map, mem_filter, decide_eq_true_eq, ← hfst]
    constructor
    · intro hp
      obtain ⟨found, hg, hbody⟩ := Option.map_eq_some_iff.mp (hget part hp)
      exact ⟨(part.1, found), ⟨OrdMap.mem_entries.mpr hg, part, hp, rfl⟩, by rw [hbody]⟩
    · rintro ⟨e, ⟨he, part', hp', hk⟩, rfl⟩
      have hbody := hget part' hp'
      rw [hk, OrdMap.mem_entries.mp he] at hbody
      have hpart : part' = (e.1, e.2.body) := Prod.ext hk (Option.some.inj hbody).symm
      exact hpart ▸ hp'

/-- The directory of an upload has its parts, in the order of their numbers. -/
theorem Accounted.entries_files (h : Accounted b files fates ps)
    (hu : b.multipartUploads.get uploadId = some upload) :
    (files uploadId).entries = upload.parts.entries.map fun e => (e.1, e.2.body) := by
  have hs {β : Type} (m : OrdMap ℕ β compare) : m.entries.Pairwise fun a b => a.1 < b.1 :=
    m.sorted.imp fun hlt => Nat.compare_eq_lt.mp hlt
  refine List.Pairwise.eq_of_mem_iff (r := fun a b => a.1 < b.1) (hs _) (pairwise_map.mpr (hs _)) ?_
  rintro ⟨n, body⟩
  rw [OrdMap.mem_entries, h.stored, hu, Option.bind_some, Option.map_eq_some_iff, mem_map]
  constructor
  · rintro ⟨part, hp, rfl⟩
    exact ⟨(n, part), OrdMap.mem_entries.mpr hp, rfl⟩
  · rintro ⟨e, he, hk⟩
    cases hk
    exact ⟨e.2, OrdMap.mem_entries.mp he, rfl⟩

theorem flatMap_filter_eq_iff {α β : Type} {p : α → Bool} {f : α → List β} {l : List α} :
    l.flatMap f = (l.filter p).flatMap f ↔ ∀ a ∈ l, p a = false → f a = [] := by
  induction l with
  | nil => exact ⟨fun _ => nofun, fun _ => rfl⟩
  | cons a l ih =>
    rw [forall_mem_cons, flatMap_cons, filter_cons]
    split_ifs with ha
    · rw [flatMap_cons, append_cancel_left_eq, ih]
      exact ⟨fun h => ⟨fun hf => absurd ha (by rw [hf]; decide), h⟩, And.right⟩
    · constructor
      · intro h
        have hle : ((l.filter p).flatMap f).length ≤ (l.flatMap f).length :=
          (filter_sublist.flatMap f).length_le
        have hl := congrArg List.length h
        rw [length_append] at hl
        have hn : f a = [] := eq_nil_of_length_eq_zero (by omega)
        rw [hn] at h
        exact ⟨fun _ => hn, ih.mp h⟩
      · rintro ⟨hn, h⟩
        rw [hn (by simpa using ha)]
        exact ih.mpr h

theorem mpuComplete_eq_iff (h : Accounted b files fates ps)
    (hu : b.multipartUploads.get uploadId = some upload) :
    files.mpuComplete uploadId = bodyOf (namedParts upload submitted) ↔
      ∀ e ∈ upload.parts.entries, e.1 ∉ submitted.map Prod.fst → e.2.body = [] := by
  rw [PartFiles.mpuComplete, h.entries_files hu, bodyOf, bodyOf, namedParts, flatMap_map, flatMap_map,
    flatMap_filter_eq_iff]
  simp only [decide_eq_false_iff_not]

/-- The object that a completion prepares is that of the named parts. -/
theorem completeMultipartUpload_describes
    (h : completeMultipartUpload D b key uploadId uuid ifNoneMatch submitted = .ok (b', some o))
    (hu : b.multipartUploads.get uploadId = some upload) :
    Describes D (namedParts upload submitted) o ∧ o.body = bodyOf (namedParts upload submitted) := by
  obtain ⟨-, -, h⟩ := bind_eq_ok.mp h
  rw [hu] at h
  obtain ⟨-, -, h⟩ := bind_eq_ok.mp h
  obtain ⟨-, -, h⟩ := bind_eq_ok.mp h
  obtain ⟨parts, hp, h⟩ := bind_eq_ok.mp h
  cases h
  obtain ⟨rfl, hl⟩ := assembleParts_eq_ok hp
  exact ⟨⟨by rw [hl], rfl, rfl⟩, rfl⟩

/-- **A completion installs the named parts**: it was prepared where the upload was `snapshot`, and is
committed where it is `upload`. -/
theorem complete_body_iff (mode : StoreMode) {before after : Bucket} {snapshot : MultipartUpload}
    (hprepare : completeMultipartUpload D before key uploadId uuid ifNoneMatch submitted = .ok (b', some o))
    (hsnapshot : before.multipartUploads.get uploadId = some snapshot)
    (h : Uploads D b files fates ps) (hu : b.multipartUploads.get uploadId = some upload)
    (hcommit : commitTo mode files b ⟨key, uuid, before.versioning, o, none, ifNoneMatch, some uploadId⟩ =
      .ok after) :
    ∃ o', (after.slot key).current = some o' ∧ Describes D (namedParts snapshot submitted) o' ∧
      (mode = .memory → o'.body = bodyOf (namedParts snapshot submitted)) ∧
      (mode = .disk → namedParts upload submitted = namedParts snapshot submitted →
        (o'.body = bodyOf (namedParts snapshot submitted) ↔
          ∀ e ∈ upload.parts.entries, e.1 ∉ submitted.map Prod.fst → e.2.body = [])) := by
  obtain ⟨hd, hb⟩ := completeMultipartUpload_describes hprepare hsnapshot
  have hcurrent {o' : Object} (hc : commit b ⟨key, uuid, before.versioning, o', none, ifNoneMatch,
      some uploadId⟩ = .ok after) : (after.slot key).current = some o' := by
    obtain ⟨-, hs, -⟩ | ⟨hp, -⟩ := commit_cases hc
    · rw [hs, slot_setSlot, if_pos rfl, current_storeObject]
    · rw [Prepared.pending, Option.all_some, hu] at hp
      cases hp
  cases mode with
  | memory =>
    refine ⟨o, hcurrent hcommit, hd, fun _ => hb, fun hm => ?_⟩
    cases hm
  | disk =>
    refine ⟨_, hcurrent hcommit, ⟨hd.etag, hd.size, hd.partSizes⟩, fun hm => ?_, fun _ hkept => ?_⟩
    · cases hm
    · rw [← hkept]
      exact mpuComplete_eq_iff h.accounted hu

end Body

namespace Example

def completion : Prepared := ⟨"k", "u1", none, ⟨"m-1", [1], 1, some [(1, 1)], none, false, none, none, none⟩,
  none, none, some "m"⟩

def firstPart : Bucket :=
  execAll digest emptyBucket [⟨0, .createUpload "k" "m"⟩, ⟨0, .uploadPart "k" "m" 1 [1]⟩]

def firstFile : PartFiles := PartFiles.mpuPutPart (fun _ => .empty) "m" 1 [1]

def firstFate : Fates := update (fun _ => none) "m" (some ("k", .pending))

theorem firstPart_uploaded : Uploads digest firstPart firstFile firstFate [] :=
  have hc : Uploads digest (createMultipartUpload emptyBucket "k" "m") _ _ [] :=
    .create (.start fun _ => rfl) _ rfl
  hc.part (show uploadPart digest _ "k" "m" 1 [1] = _ from rfl)

theorem completion_prepared : Uploads digest firstPart firstFile firstFate [completion] :=
  firstPart_uploaded.prepare (.complete (show completeMultipartUpload digest _ "k" "m" "u1" none [(1, "e")] =
    .ok (_, some completion.object) from rfl))

/-- On disk a part that is not named is installed too, and one that is uploaded again in place
of what was hashed. -/
theorem unnamed_part_installed :
    (∃ b files fates after, Uploads digest b files fates [completion] ∧
      commitTo .disk files b completion = .ok after ∧
      (after.slot "k").current.map Object.body = some [1, 2]) ∧
    ∃ b files fates after, Uploads digest b files fates [completion] ∧
      commitTo .disk files b completion = .ok after ∧
      (after.slot "k").current.map Object.body = some [3, 4] := by
  have hunnamed := (firstPart_uploaded.part (show uploadPart digest _ "k" "m" 2 [2] = _ from rfl)).prepare
    (.complete (show completeMultipartUpload digest _ "k" "m" "u1" none [(1, "e")] =
      .ok (_, some completion.object) from rfl))
  have hagain := completion_prepared.part (show uploadPart digest _ "k" "m" 1 [3, 4] = _ from rfl)
  exact ⟨⟨_, _, _, _, hunnamed, rfl, rfl⟩, ⟨_, _, _, _, hagain, rfl, rfl⟩⟩

/-- A second part that is empty does no harm. -/
theorem complete_body_empty_part : ∃ b files fates after, Uploads digest b files fates [completion] ∧
    commitTo .disk files b completion = .ok after ∧ ∃ o, (after.slot "k").current = some o ∧
      o.body = [1] := by
  have hprepare : completeMultipartUpload digest (exec digest firstPart ⟨0, .uploadPart "k" "m" 2 []⟩) "k" "m"
      "u1" none [(1, "e")] = .ok (_, some completion.object) := rfl
  have hrun := (firstPart_uploaded.part (show uploadPart digest _ "k" "m" 2 [] = _ from rfl)).prepare
    (.complete hprepare)
  obtain ⟨o, ho, -, -, hbody⟩ := complete_body_iff .disk hprepare rfl hrun rfl rfl
  exact ⟨_, _, _, _, hrun, rfl, o, ho, (hbody rfl rfl).mpr (by decide)⟩

end Example

/-! ## Answers -/

theorem Accounted.completed_iff (h : Accounted b files fates ps)
    (hg : b.multipartUploads.get uploadId = none) :
    fates uploadId = some (key, .completed) ↔ ∃ fate, fate ≠ .aborted ∧
      fates uploadId = some (key, fate) := by
  refine ⟨fun hf => ⟨.completed, nofun, hf⟩, ?_⟩
  rintro ⟨_ | _ | _, hne, hf⟩
  · have hp := (h.pending ..).mpr hf
    rw [hg] at hp
    cases hp
  · exact absurd rfl hne
  · exact hf

/-- **A success is the truth** exactly when the upload was created for the key and was not aborted, at both
places where it is answered; a completion that fails leaves the bucket as it is. -/
theorem answer_true_iff (h : Uploads D b files fates ps) :
    (∀ key uploadId uuid ifNoneMatch submitted b',
      completeMultipartUpload D b key uploadId uuid ifNoneMatch submitted = .ok (b', none) →
      (fates uploadId = some (key, .completed) ↔ ∃ fate, fate ≠ .aborted ∧ fates uploadId =
        some (key, fate))) ∧
    (∀ p ∈ ps, ∀ uploadId ∈ p.upload, ∀ b', commit b p = .ok b' →
      (p.settle b fates uploadId = some (p.key, .completed) ↔ fates uploadId ≠ some (p.key, .aborted))) ∧
    ∀ now key uploadId uuid ifNoneMatch submitted e,
      completeMultipartUpload D b key uploadId uuid ifNoneMatch submitted = .error e →
      exec D b ⟨now, .complete key uploadId uuid ifNoneMatch submitted⟩ = b := by
  have ha := h.accounted
  refine ⟨fun key uploadId uuid ifNoneMatch submitted b' hok => ?_, fun p hp uploadId hu b' hc => ?_,
    fun now key uploadId uuid ifNoneMatch submitted e he => ?_⟩
  · obtain ⟨-, -, hg⟩ | ⟨o, hn, -⟩ := completeMultipartUpload_stored hok
    · exact ha.completed_iff hg
    · cases hn
  · obtain ⟨fate, hf⟩ := ha.created p hp uploadId hu
    rw [Prepared.settle, Prepared.pending, hu, Option.all_some]
    rcases hgt : b.multipartUploads.get uploadId with _ | upload
    · show fates uploadId = _ ↔ _
      rw [ha.completed_iff hgt, hf]
      simp
    · have hpn := (ha.pending uploadId upload.key).mp (by rw [hgt]; rfl)
      simp [hpn]
  · simp only [exec, step, he, Except.map]

namespace Example

/-- The upload was aborted, the key has an object of another write. -/
theorem aborted_answered : ∃ b files fates, Uploads digest b files fates [] ∧
    fates "m".toList = some ("k".toList, .aborted) ∧
    completeMultipartUpload digest b "k" "m" "u2" none [(1, "e")] = .ok (b, none) := by
  have hc : Uploads digest (createMultipartUpload (exec digest emptyBucket (put "u1" [1]))
    "k" "m") _ _ [] := .create (.start fun _ => rfl) _ rfl
  exact ⟨_, _, _, hc.abort (show abortMultipartUpload _ "k" "m" = _ from rfl), rfl, rfl⟩

theorem answer_true_commit : ∃ b files fates b', Uploads digest b files fates [completion] ∧
    commit b completion = .ok b' ∧ completion.settle b fates "m".toList = some ("k".toList, .completed) := by
  obtain ⟨b', hcommit⟩ : ∃ b', commit firstPart completion = .ok b' := ⟨_, rfl⟩
  exact ⟨_, _, _, b', completion_prepared, hcommit,
    ((answer_true_iff completion_prepared).2.1 _ (mem_singleton_self _) _ rfl b' hcommit).mpr (by decide)⟩

end Example

end Fakecloud.S3

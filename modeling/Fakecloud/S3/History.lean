import Fakecloud.Lib.Versions
import Fakecloud.S3.Bucket

/-!
# S3: what the versions of a key are

A bucket keeps for each key a stack of versions: the history, or the current object alone when there is no
history.  Every request is an operation on these stacks, whatever the versioning of the bucket: it writes a
version over the one with its id, or it removes a version.
-/

namespace Fakecloud.S3

open Text List Option Set Versions

/-- The id under which a version is addressed. -/
def idOf (o : Object) : Str := o.versionId.getD nullId

/-- The object with that id on it. -/
def named (o : Object) : Object := { o with versionId := some (idOf o) }

@[simp] theorem idOf_named (o : Object) : idOf (named o) = idOf o := rfl

@[simp] theorem isDeleteMarker_named (o : Object) : (named o).isDeleteMarker = o.isDeleteMarker := rfl

@[simp] theorem idOf_makeDeleteMarker (id : Str) : idOf (makeDeleteMarker id) = id := rfl

variable {o : Object} {uuid : Str} {b : Bucket}

theorem named_of_isSome (h : o.versionId.isSome) : named o = o := by
  obtain ⟨id, hid⟩ := isSome_iff_exists.mp h
  cases o
  simp_all [named, idOf]

theorem map_named {l : List Object} (h : ∀ o ∈ l, o.versionId.isSome) : l.map named = l := by
  rw [map_congr_left fun o ho => named_of_isSome (h o ho), List.map_id']

theorem isNullVersion_iff : isNullVersion o = true ↔ idOf o = nullId := by
  rcases h : o.versionId with _ | id <;> simp [isNullVersion, idOf, h]

variable {vid : Str} {versions rest : List Object} {versionId : Option Str} {bypass : Bool}
  {op : Op Object Str} {fx : List Effect}

theorem vidMatches_iff : vidMatches vid o = true ↔ idOf o = vid := by
  rcases h : o.versionId with _ | id <;> simp [vidMatches, idOf, h, eq_comm]

theorem isNullVersion_eq : isNullVersion = fun o => decide (idOf o = nullId) := by
  funext o
  rw [Bool.eq_iff_iff, isNullVersion_iff, decide_eq_true_iff]

theorem vidMatches_eq (vid : Str) : vidMatches vid = fun o => decide (idOf o = vid) := by
  funext o
  rw [Bool.eq_iff_iff, vidMatches_iff, decide_eq_true_iff]

/-- The versions of a key, the oldest first. -/
def listed (s : Slot) : List Object := s.history.getD s.current.toList

def CurrentOk (s : Slot) : Prop :=
  match s.history with
  | none => ∀ o ∈ s.current, isNullVersion o ∧ o.isDeleteMarker = false
  | some versions => (∀ o ∈ versions, o.versionId.isSome) ∧ ∃ latest, versions.getLast? = some latest ∧
      (s.current = some latest ∨ latest.isDeleteMarker = true ∧ s.current = none)

structure Shows (s : Slot) (v : Versions idOf) : Prop where
  current : CurrentOk s
  entries : (listed s).map named = v.entries

variable {s : Slot} {v : Versions idOf} {versioning : Option Versioning}

def stackOf (s : Slot) (h : ((listed s).map idOf).Nodup) : Versions idOf where
  entries := (listed s).map named
  nodup := by
    rw [List.map_map]
    exact h

theorem shows_stackOf (hc : CurrentOk s) (h : ((listed s).map idOf).Nodup) :
    Shows s (stackOf s h) := ⟨hc, rfl⟩

section

variable (h : Shows s v)
include h

theorem Shows.alone (hn : s.history = none) (ho : s.current = some o) :
    idOf o = nullId ∧ o.isDeleteMarker = false := by
  have hc := h.current
  rw [CurrentOk, hn] at hc
  exact ⟨isNullVersion_iff.mp (hc o ho).1, (hc o ho).2⟩

theorem Shows.entries_none (hn : s.history = none) : v.entries = s.current.toList.map named := by
  rw [← h.entries, listed, hn, getD_none]

variable (hs : s.history = some versions)
include hs

theorem Shows.of_some : (∀ o ∈ versions, o.versionId.isSome) ∧ ∃ latest, versions.getLast? = some latest ∧
      (s.current = some latest ∨ latest.isDeleteMarker = true ∧ s.current = none) := by
  have hc := h.current
  rw [CurrentOk, hs] at hc
  exact hc

theorem Shows.entries_some : v.entries = versions := by
  rw [← h.entries, listed, hs, getD_some, map_named (h.of_some hs).1]

theorem Shows.current_mem (ho : s.current = some o) : o ∈ versions := by
  obtain ⟨latest, hl, heq | ⟨-, heq⟩⟩ := (h.of_some hs).2
  · rw [ho, some.injEq] at heq
    rw [heq]
    exact mem_of_getLast? hl
  · rw [ho] at heq
    cases heq

end

theorem Shows.of_append (hs : ∀ a ∈ versions, a.versionId.isSome)
    (ho : o.versionId.isSome) (hv : v.entries = versions ++ [o]) :
    Shows ⟨some o, some (versions ++ [o])⟩ v where
  current := by
    refine ⟨?_, o, by simp, .inl rfl⟩
    intro a ha
    rcases mem_append.mp ha with ha | ha
    · exact hs a ha
    · rw [mem_singleton.mp ha]
      exact ho
  entries := by
    rw [hv]
    simp only [listed, getD_some, map_append, map_singleton]
    rw [named_of_isSome ho, map_named hs]

theorem Shows.empty : Shows ⟨none, none⟩ .empty where
  current := by simp [CurrentOk]
  entries := rfl

/-! ## Writing -/

/-- The versions as a history, when an object from before versioning is counted in. -/
def preserved (s : Slot) : List Object :=
  (s.history.or (s.current.map fun existing =>
    [{ existing with versionId := existing.versionId.or (some nullId) }])).getD []

theorem filter_null (l : List Object) :
    l.filter (fun o => !isNullVersion o) = l.filter fun o => idOf o ≠ nullId := by
  simp only [isNullVersion_eq, decide_not]

section

variable (h : Shows s v)
include h

theorem Shows.preserved_eq : preserved s = v.entries := by
  rcases hh : s.history with _ | versions
  · rw [h.entries_none hh, preserved, hh]
    rcases s.current with _ | o
    · rfl
    · rcases o with ⟨_, _, _, _, _ | id, _, _, _, _⟩ <;> rfl
  · rw [h.entries_some hh, preserved, hh]
    rfl

theorem Shows.isSome_entries (ho : o ∈ v.entries) : o.versionId.isSome := by
  rw [← h.entries] at ho
  obtain ⟨a, -, rfl⟩ := mem_map.mp ho
  rfl

/-- A version without an id of its own is stacked after the others. -/
theorem storeObject_enabled : storeObject (some .enabled) o s = ⟨some o, some (v.entries ++ [o])⟩ := by
  rcases hh : s.history with _ | versions
  · rw [← h.preserved_eq]
    rcases hcr : s.current with _ | c
    · simp [storeObject, nullVersionToPreserve, preserved, hcr]
    · have hn := isNullVersion_iff.mpr (h.alone hh hcr).1
      rcases c with ⟨_, _, _, _, _ | id, _, _, _, _⟩
      · simp [storeObject, nullVersionToPreserve, preserved, recordPreservedNull, hh, hcr, Option.filter, hn]
      · have hid : id = nullId := by simpa [isNullVersion] using hn
        rw [hid] at hcr hn
        simp [storeObject, nullVersionToPreserve, preserved, recordPreservedNull, hh, hcr, Option.filter, hn]
  · have hk : nullVersionToPreserve s = none := by
      rw [nullVersionToPreserve, hh]
      split_ifs with ha
      · rfl
      · rcases hcr : s.current with _ | c
        · rfl
        · have hc : isNullVersion c = false := by
            simpa using fun hc => ha (any_eq_true.mpr ⟨c, h.current_mem hh hcr, hc⟩)
          simp [hc]
    rw [storeObject, hk, hh, h.entries_some hh]
    rfl

theorem storeObject_suspended (ho : idOf o = nullId) (hl : o.isDeleteMarker = false)
    (hs : o.versionId.isSome) :
    Shows (storeObject (some .suspended) o s) (v.put o) := by
  have hp : (v.put o).entries = (v.entries.filter fun a => !isNullVersion a) ++ [o] := by
    rw [filter_null, ← ho]
    rfl
  rcases hh : s.history with _ | versions
  · rw [storeObject, replaceNullVersion, hh]
    refine ⟨?_, ?_⟩
    · rw [CurrentOk]
      simpa [hl, isNullVersion_iff] using ho
    · rw [hp, h.entries_none hh, listed]
      rcases hcr : s.current with _ | c
      · simp [named_of_isSome hs]
      · have hc : isNullVersion (named c) := isNullVersion_iff.mpr (h.alone hh hcr).1
        simp [named_of_isSome hs, hc]
  · rw [storeObject, replaceNullVersion, hh]
    refine Shows.of_append (fun a ha => (h.of_some hh).1 _ (mem_of_mem_filter ha)) hs ?_
    rw [hp, h.entries_some hh]

theorem storeObject_shows (hn : versioning = none → s.history = none)
    (hid : o.versionId = newVersionId versioning uuid) (hl : o.isDeleteMarker = false)
    (hf : ∀ a ∈ v.entries, idOf a ≠ uuid) : Shows (storeObject versioning o s) (v.put (named o)) := by
  rcases versioning with _ | _ | _
  · -- never versioned: the object alone is the null version
    have hnl : idOf o = nullId := by rw [idOf, hid]; rfl
    rw [storeObject]
    refine ⟨?_, ?_⟩
    · rw [CurrentOk, hn rfl]
      simpa [hl, isNullVersion_iff] using hnl
    · have he : v.entries.filter (fun a => idOf a ≠ idOf (named o)) = [] := by
        rw [filter_eq_nil_iff, h.entries_none (hn rfl)]
        intro a ha
        obtain ⟨c, hc, rfl⟩ := mem_map.mp ha
        simpa [hnl] using (h.alone (hn rfl) (Option.mem_toList.mp hc)).1
      rw [entries_put, he, hn rfl]
      rfl
  · have hs : o.versionId.isSome := by rw [hid]; rfl
    have hi : idOf o = uuid := by rw [idOf, hid]; rfl
    rw [storeObject_enabled h, named_of_isSome hs]
    refine Shows.of_append (fun a => h.isSome_entries) hs (entries_put_of_fresh ?_)
    rw [hi]
    exact hf
  · have hs : o.versionId.isSome := by rw [hid]; rfl
    rw [named_of_isSome hs]
    exact storeObject_suspended h (by rw [idOf, hid]; rfl) hl hs

end

/-! ## Deleting -/

theorem historyOf_of_getLast? {latest : Object} (h : rest.getLast? = some latest) :
    historyOf rest = some rest := by
  rcases rest with _ | ⟨o, rest⟩
  · cases h
  · rfl

theorem CurrentOk.of_currentOf (hs : ∀ o ∈ rest, o.versionId.isSome) :
    CurrentOk ⟨currentOf rest, historyOf rest⟩ := by
  rcases hl : rest.getLast? with _ | latest
  · rw [getLast?_eq_none_iff] at hl
    rw [hl]
    simp [CurrentOk, currentOf, historyOf]
  · rw [historyOf_of_getLast? hl]
    refine ⟨hs, latest, hl, ?_⟩
    rw [currentOf, hl]
    rcases hm : latest.isDeleteMarker with _ | _ <;> simp [hm]

theorem listed_currentOf (rest : List Object) : listed ⟨currentOf rest, historyOf rest⟩ = rest := by
  rcases rest with _ | ⟨o, rest⟩
  · rfl
  · simp [listed, historyOf]

theorem filter_vidMatches (vid : Str) (l : List Object) :
    l.filter (fun o => !vidMatches vid o) = l.filter fun o => idOf o ≠ vid := by
  simp only [vidMatches_eq, decide_not]

def deleteOp (versioning : Option Versioning) (versionId : Option Str) (uuid : Str) :
    Versions.Op Object Str :=
  match versionId, versioning with
  | some vid, _ => .erase vid
  | none, some .enabled => .put (makeDeleteMarker uuid)
  | none, some .suspended => .put (makeDeleteMarker nullId)
  | none, none => .erase nullId

section

variable (h : Shows s v)
include h

theorem removeVersionBatch_shows (vid : Str) : Shows (removeVersionBatch vid s) (v.erase vid) := by
  rcases hh : s.history with _ | versions
  · rw [removeVersionBatch, hh]
    rcases hc : s.current with _ | c
    · refine ⟨h.current, ?_⟩
      simp [listed, hh, hc, h.entries_none hh]
    · by_cases hm : idOf c = vid
      · rw [if_pos (by simpa [vidMatches_iff] using hm)]
        refine ⟨Shows.empty.current, ?_⟩
        simp [listed, h.entries_none hh, hc, hm]
      · rw [if_neg (by simpa [vidMatches_iff] using hm)]
        refine ⟨h.current, ?_⟩
        simp [listed, hh, hc, h.entries_none hh, hm]
  · rw [removeVersionBatch, hh]
    have hs : ∀ o ∈ versions.filter (fun o => !vidMatches vid o), o.versionId.isSome :=
      fun o ho => (h.of_some hh).1 _ (mem_of_mem_filter ho)
    refine ⟨.of_currentOf hs, ?_⟩
    rw [listed_currentOf, entries_erase, h.entries_some hh, ← filter_vidMatches, map_named hs]

theorem removeVersion_shows (vid : Str) : Shows (removeVersion vid s) (v.erase vid) := by
  have hb := removeVersionBatch_shows h vid
  rcases hh : s.history with _ | versions
  · rw [removeVersionBatch, hh] at hb
    rw [removeVersion, hh]
    exact hb
  · rw [removeVersionBatch, hh] at hb
    rw [removeVersion, hh]
    dsimp only at hb ⊢
    split_ifs with hln
    · exact hb
    · -- nothing was removed: the slot is as it was
      have hr : versions.filter (fun o => !vidMatches vid o) = versions :=
        filter_eq_self.mpr (length_filter_eq_length_iff.mp (not_ne_iff.mp hln))
      obtain ⟨latest, hl, -⟩ := (h.of_some hh).2
      have hsm : v.erase vid = v := by
        refine Versions.ext ?_
        rw [entries_erase, h.entries_some hh, ← filter_vidMatches, hr]
      have hs : (⟨s.current, historyOf versions⟩) = s := by
        rw [historyOf_of_getLast? hl, ← hh]
      rw [hr, hs, hsm]
      exact h

theorem deleteCurrent_shows (hn : versioning = none → s.history = none)
    (hf : ∀ a ∈ v.entries, idOf a ≠ uuid) :
    Shows (deleteCurrent versioning uuid s) (v.apply (deleteOp versioning none uuid)) := by
  have hs : ∀ a ∈ v.entries, a.versionId.isSome := fun a => h.isSome_entries
  rcases versioning with _ | _ | _
  · have hh := hn rfl
    rw [deleteCurrent, hh]
    refine ⟨Shows.empty.current, ?_⟩
    rcases hc : s.current with _ | c
    · simp [listed, deleteOp, apply, h.entries_none hh, hc]
    · simp [listed, deleteOp, apply, h.entries_none hh, hc, (h.alone hh hc).1]
  · change Shows ⟨_, some (preserved s ++ [makeDeleteMarker uuid])⟩ _
    rw [h.preserved_eq]
    exact Shows.of_append hs rfl (entries_put_of_fresh hf)
  · change Shows ⟨_, some ((preserved s).filter _ ++ [makeDeleteMarker nullId])⟩ _
    rw [h.preserved_eq, filter_null]
    exact Shows.of_append (fun a ha => hs a (mem_of_mem_filter ha)) rfl rfl

/-! ## Reading -/

/-- Looking in the history and then at the current object is looking among the versions. -/
theorem Shows.find? {p : Object → Bool} (hp : ∀ o, p (named o) = p o) :
    (((s.history.getD []).find? p).or (s.current.filter p)).map named = v.entries.find? p := by
  rcases hh : s.history with _ | versions
  · rw [h.entries_none hh]
    rcases hcr : s.current with _ | c
    · rfl
    · by_cases hc : p c <;> simp [Option.filter, hp]
  · rw [h.entries_some hh, getD_some]
    rcases hf : versions.find? p with _ | o
    · -- the current object is one of the versions
      rcases hcr : s.current with _ | c
      · rfl
      · have hc := find?_eq_none.mp hf c (h.current_mem hh hcr)
        simp [hc]
    · have ho := (h.of_some hh).1 _ (mem_of_find?_eq_some hf)
      simp [named_of_isSome ho]

theorem Shows.find?_versionId (vid : Str) :
    (s.history.getD []).find? (fun o => o.versionId = some vid) = (s.history.getD []).find?
      (vidMatches vid) := by
  rcases hh : s.history with _ | versions
  · rfl
  · refine find?_congr fun o ho => ?_
    obtain ⟨id, hid⟩ := isSome_iff_exists.mp ((h.of_some hh).1 _ ho)
    simp [vidMatches, hid]

theorem Shows.find?_vidMatches (vid : Str) :
    (((s.history.getD []).find? (vidMatches vid)).or (s.current.filter (vidMatches vid))).map named =
      v.get vid := by
  rw [vidMatches_eq, h.find? fun _ => rfl]
  rfl

theorem Shows.find?_liveNull : (((s.history.getD []).find? fun o => isNullVersion o && !o.isDeleteMarker).or
      (s.current.filter fun o => isNullVersion o && !o.isDeleteMarker)).map named =
      (v.get nullId).filter fun o => !o.isDeleteMarker := by
  rw [isNullVersion_eq, h.find? fun _ => rfl, find?_and]

theorem findVersion_shows (vid : Str) : (findVersion s vid).map named = v.get vid := by
  rw [findVersion]
  split_ifs with hn
  · have hfn := h.find?_vidMatches nullId
    rw [vidMatches_eq, ← isNullVersion_eq] at hfn
    rw [Option.or_assoc, Option.map_or, h.find?_liveNull, hfn, hn]
    rcases v.get nullId with _ | o
    · rfl
    · rcases hm : o.isDeleteMarker with _ | _ <;> simp [Option.filter, hm]
  · have hf : (fun o : Object => decide (o.versionId = some vid)) = vidMatches vid := by
      funext o
      simp [vidMatches, hn]
    rw [hf]
    exact h.find?_vidMatches vid

end

theorem resolveObject_shows {key : Str} (h : Shows (b.slot key) v) (vid : Str) :
    (resolveObject b key (some vid)).toOption.map named = v.get vid := by
  rw [← findVersion_shows h vid, resolveObject]
  rcases findVersion (b.slot key) vid with _ | o
  · split_ifs <;> rfl
  · rfl

theorem resolveObject_of_get {key : Str} (h : Shows (b.slot key) v) (hg : v.get vid = some o) :
    ∃ o', resolveObject b key (some vid) = .ok o' ∧ named o' = o := by
  rw [← resolveObject_shows h vid] at hg
  rcases hr : resolveObject b key (some vid) with e | o'
  · rw [hr] at hg
    cases hg
  · rw [hr] at hg
    exact ⟨o', rfl, by simpa [Except.toOption] using hg⟩

/-! ## What requests do -/

theorem failIf_eq_ok {c : Prop} [Decidable c] {e : ServiceError} {u : Unit} : failIf c e = .ok u ↔ ¬c := by
  rw [failIf]
  split_ifs with hc <;> simp [hc]

structure Stored (b : Bucket) (key uuid : Str) (b' : Bucket) (o : Object) : Prop where
  slot : ∀ k, b'.slot k = if k = key then storeObject b.versioning o (b.slot key) else b.slot k
  versioning : b'.versioning = b.versioning
  versionId : o.versionId = newVersionId b.versioning uuid
  live : o.isDeleteMarker = false

variable {D : Digest} {b b' : Bucket} {key uuid uploadId : Str} {now : ℤ} {o : Object}

theorem putObject_stored {r : PutRequest} (h : putObject D b key uuid now r = .ok (b', o)) :
    Stored b key uuid b' o := by
  simp only [putObject, bind_eq_ok] at h
  obtain ⟨_, -, _, -, _, -, _, -, _, -, h⟩ := h
  cases h
  exact ⟨fun k => slot_setSlot .., rfl, rfl, rfl⟩

theorem copyObject_stored {r : CopyRequest} (h : copyObject b key uuid r = .ok (b', o)) :
    Stored b key uuid b' o := by
  simp only [copyObject, bind_eq_ok] at h
  obtain ⟨_, -, source, -, _, -, _, -, _, -, _, -, h⟩ := h
  cases h
  exact ⟨fun k => slot_setSlot .., rfl, rfl, rfl⟩

/-- A completion stores an object, or it has happened before and changes nothing. -/
theorem completeMultipartUpload_stored {ifNoneMatch : Option Str} {submitted : List (ℕ × Str)}
    {stored : Option Object}
    (h : completeMultipartUpload D b key uploadId uuid ifNoneMatch submitted = .ok (b', stored)) :
    b' = b ∧ stored = none ∧ b.multipartUploads.get uploadId = none ∨
      ∃ o, stored = some o ∧ Stored b key uuid b' o ∧
        (b.multipartUploads.get uploadId).map MultipartUpload.key = some key := by
  obtain ⟨-, -, h⟩ := bind_eq_ok.mp h
  rcases hu : b.multipartUploads.get uploadId with _ | upload
  · rw [hu] at h
    split_ifs at h
    cases h
    exact .inl ⟨rfl, rfl, rfl⟩
  · rw [hu] at h
    obtain ⟨_, hk, h⟩ := bind_eq_ok.mp h
    obtain ⟨-, -, h⟩ := bind_eq_ok.mp h
    obtain ⟨bodies, -, h⟩ := bind_eq_ok.mp h
    cases h
    exact .inr ⟨_, rfl, ⟨fun k => slot_setSlot .., rfl, rfl, rfl⟩,
      congrArg some (not_not.mp (failIf_eq_ok.mp hk))⟩

structure Deleted (remove : Str → Slot → Slot) (b : Bucket) (key : Str) (versionId : Option Str)
    (uuid : Str) (now : ℤ) (bypass : Bool) (b' : Bucket) : Prop where
  allowed : deleteDenied b key versionId now bypass = false
  eq : b' = b.setSlot key (deleteFrom remove b.versioning uuid (b.slot key) versionId)

theorem deleteObject_deleted {ifMatch : Option Str}
    (h : deleteObject b key versionId uuid now bypass ifMatch = .ok b') :
    Deleted removeVersion b key versionId uuid now bypass b' := by
  obtain ⟨-, -, h⟩ := bind_eq_ok.mp h
  obtain ⟨_, ha, h⟩ := bind_eq_ok.mp h
  cases h
  exact ⟨by simpa using failIf_eq_ok.mp ha, rfl⟩

theorem deleteEntry_cases (now : ℤ) (bypass : Bool) (b : Bucket) (entry : DeleteEntry) :
    deleteDenied b entry.key entry.versionId now bypass = true ∧ deleteEntry now bypass b entry = b ∨
      Deleted removeVersionBatch b entry.key entry.versionId entry.uuid now bypass
        (deleteEntry now bypass b entry) := by
  rw [deleteEntry]
  split_ifs with hd
  · exact .inl ⟨hd, rfl⟩
  · exact .inr ⟨by simpa using hd, rfl⟩

theorem slot_uploadPart {partNumber : ℕ} {body : Bytes}
    (h : uploadPart D b key uploadId partNumber body = .ok b') :
    b'.slot = b.slot ∧ b'.versioning = b.versioning := by
  unfold uploadPart at h
  split_ifs at h
  rcases hu : b.multipartUploads.get uploadId with _ | upload
  · rw [hu] at h
    cases h
  · rw [hu] at h
    dsimp only at h
    split_ifs at h
    cases h
    exact ⟨rfl, rfl⟩

theorem putBucketVersioning_cases {status : Str} (h : putBucketVersioning b status = .ok b') :
    b'.slot = b.slot ∧ (b'.versioning = none → b.versioning = none) := by
  unfold putBucketVersioning at h
  split_ifs at h <;> cases h
  · exact ⟨rfl, fun hn => nomatch hn⟩
  · exact ⟨rfl, fun hn => nomatch hn⟩
  · exact ⟨rfl, id⟩

/-! ## Effects -/

abbrev Effect := Str × Versions.Op Object Str

/-- What a batch does to versions: a delete for each entry that is not denied. -/
def batchEffects (now : ℤ) (bypass : Bool) : Bucket → List DeleteEntry → List Effect
  | _, [] => []
  | b, entry :: entries =>
    (if deleteDenied b entry.key entry.versionId now bypass then []
      else [(entry.key, deleteOp b.versioning entry.versionId entry.uuid)]) ++
      batchEffects now bypass (deleteEntry now bypass b entry) entries

/-- What a request does to versions: the objects it stores, the versions it deletes and the delete markers
it inserts.  A request that is refused does nothing. -/
def effects (D : Digest) (b : Bucket) (e : Event) : List Effect :=
  match e.request with
  | .put key uuid r => match putObject D b key uuid e.now r with
    | .ok (_, o) => [(key, .put (named o))]
    | .error _ => []
  | .copy key uuid r => match copyObject b key uuid r with
    | .ok (_, o) => [(key, .put (named o))]
    | .error _ => []
  | .complete key uploadId uuid ifNoneMatch submitted =>
    match completeMultipartUpload D b key uploadId uuid ifNoneMatch submitted with
    | .ok (_, some o) => [(key, .put (named o))]
    | _ => []
  | .delete key versionId uuid bypass ifMatch =>
    match deleteObject b key versionId uuid e.now bypass ifMatch with
    | .ok _ => [(key, deleteOp b.versioning versionId uuid)]
    | .error _ => []
  | .deleteMany entries bypass => match deleteObjects b entries e.now bypass with
    | .ok _ => batchEffects e.now bypass b entries
    | .error _ => []
  | .createUpload .. | .uploadPart .. | .putVersioning .. => []

def trace (D : Digest) : Bucket → List Event → List Effect
  | _, [] => []
  | b, e :: events => effects D b e ++ trace D (exec D b e) events

/-- The version ids that are drawn for a request. -/
def uuids (e : Event) : List Str :=
  match e.request with
  | .put _ uuid _ | .copy _ uuid _ | .complete _ _ uuid _ _ | .delete _ _ uuid _ _ => [uuid]
  | .deleteMany entries _ => entries.map DeleteEntry.uuid
  | .createUpload .. | .uploadPart .. | .putVersioning .. => []

def writeKey (e : Event) : Option Str :=
  match e.request with
  | .put key _ _ | .copy key _ _ | .complete key _ _ _ _ => some key
  | _ => none

def Event.deletes (e : Event) : Bool :=
  match e.request with
  | .delete .. | .deleteMany .. => true
  | _ => false

inductive Happens (b : Bucket) (e : Event) : Bucket → List Effect → Prop
  | same {b' : Bucket} (hslot : b'.slot = b.slot)
      (hversioning : b'.versioning = none → b.versioning = none) : Happens b e b' []
  | stored {key uuid : Str} {b' : Bucket} {o : Object} (hkey : writeKey e = some key)
      (huuid : uuids e = [uuid]) (hstored : Stored b key uuid b' o) :
      Happens b e b' [(key, .put (named o))]
  | deleted {key uuid : Str} {versionId : Option Str} {bypass : Bool} {b' : Bucket}
      (huuid : uuids e = [uuid]) (hdeleted : Deleted removeVersion b key versionId uuid e.now bypass b') :
      Happens b e b' [(key, deleteOp b.versioning versionId uuid)]
  | batch {entries : List DeleteEntry} {bypass : Bool}
      (huuids : uuids e = entries.map DeleteEntry.uuid) :
      Happens b e (entries.foldl (deleteEntry e.now bypass) b) (batchEffects e.now bypass b entries)

/-- A request that deletes nothing leaves the slots as they are, or stores one object. -/
theorem exec_writes (D : Digest) (b : Bucket) {e : Event} (he : e.deletes = false) :
    ((exec D b e).slot = b.slot ∧ ((exec D b e).versioning = none → b.versioning = none) ∧
      effects D b e = []) ∨
      ∃ key uuid o, writeKey e = some key ∧ uuids e = [uuid] ∧ Stored b key uuid (exec D b e) o ∧
        effects D b e = [(key, .put (named o))] := by
  rcases e with ⟨now, request⟩
  cases request with
  | put key uuid r =>
    rcases hpt : putObject D b key uuid now r with e | ⟨b', o⟩ <;> simp only [exec, step, effects,
      hpt, Except.map]
    · exact .inl ⟨trivial, id, trivial⟩
    · exact .inr ⟨key, uuid, o, rfl, rfl, putObject_stored hpt, rfl⟩
  | copy key uuid r =>
    rcases hcp : copyObject b key uuid r with e | ⟨b', o⟩ <;> simp only [exec, step, effects, hcp, Except.map]
    · exact .inl ⟨trivial, id, trivial⟩
    · exact .inr ⟨key, uuid, o, rfl, rfl, copyObject_stored hcp, rfl⟩
  | createUpload => exact .inl ⟨rfl, id, rfl⟩
  | uploadPart key uploadId partNumber body =>
    rcases hp : uploadPart D b key uploadId partNumber body with e | b' <;> simp only [exec,
      step, effects, hp]
    · exact .inl ⟨trivial, id, trivial⟩
    · obtain ⟨hsl, hv⟩ := slot_uploadPart hp
      exact .inl ⟨hsl, fun hn => hv ▸ hn, trivial⟩
  | complete key uploadId uuid ifNoneMatch submitted =>
    rcases hc : completeMultipartUpload D b key uploadId uuid ifNoneMatch submitted with e | ⟨b', stored⟩
    · simp only [exec, step, effects, hc, Except.map]
      exact .inl ⟨trivial, id, trivial⟩
    · rcases completeMultipartUpload_stored hc with ⟨rfl, rfl, -⟩ | ⟨o, rfl, hst, -⟩ <;>
        simp only [exec, step, effects, hc, Except.map]
      · exact .inl ⟨trivial, id, trivial⟩
      · exact .inr ⟨key, uuid, o, rfl, rfl, hst, rfl⟩
  | delete => cases he
  | deleteMany => cases he
  | putVersioning status =>
    rcases hpt : putBucketVersioning b status with e | b' <;> simp only [exec, step, effects, hpt]
    · exact .inl ⟨trivial, id, trivial⟩
    · obtain ⟨hsl, hv⟩ := putBucketVersioning_cases hpt
      exact .inl ⟨hsl, hv, trivial⟩

theorem exec_happens (D : Digest) (b : Bucket) (e : Event) : Happens b e (exec D b e) (effects D b e) := by
  rcases hdl : e.deletes
  · obtain ⟨hsl, hv, hfx⟩ | ⟨key, uuid, o, hk, hu, hst, hfx⟩ := exec_writes D b hdl <;> rw [hfx]
    · exact .same hsl hv
    · exact .stored hk hu hst
  rcases e with ⟨now, request⟩
  cases request with
  | delete key versionId uuid bypass ifMatch =>
    rcases hd : deleteObject b key versionId uuid now bypass ifMatch with e | b' <;>
      simp only [exec, step, effects, hd]
    · exact .same rfl id
    · exact .deleted rfl (deleteObject_deleted hd)
  | deleteMany entries bypass =>
    rcases hd : deleteObjects b entries now bypass with e | b' <;> simp only [exec, step, effects, hd]
    · exact .same rfl id
    · rw [deleteObjects] at hd
      split_ifs at hd
      cases hd
      exact .batch rfl
  | _ => cases hdl

/-! ## Stacks -/

def opsAt (key : Str) (effects : List Effect) : List (Versions.Op Object Str) :=
  effects.filterMap fun f => if f.1 = key then some f.2 else none

def replayAll (V : Str → Versions idOf) (effects : List Effect) (key : Str) : Versions idOf :=
  (V key).replay (opsAt key effects)

theorem replayAll_append (V : Str → Versions idOf) (xs ys : List Effect) :
    replayAll V (xs ++ ys) = replayAll (replayAll V xs) ys := by
  funext key
  rw [replayAll, opsAt, filterMap_append]
  exact foldl_append

theorem replayAll_singleton (V : Str → Versions idOf) (f : Effect) (key : Str) :
    replayAll V [f] key = if key = f.1 then (V key).apply f.2 else V key := by
  by_cases hk : key = f.1
  · simp [replayAll, opsAt, hk, replay]
  · simp [replayAll, opsAt, hk, Ne.symm hk, replay]

/-! ## Runs -/

/-- The slots of a bucket hold these stacks, with ids that were seen. -/
structure Tracks (b : Bucket) (V : Str → Versions idOf) (seen : Set Str) : Prop where
  shows : ∀ key, Shows (b.slot key) (V key)
  unversioned : b.versioning = none → ∀ key, (b.slot key).history = none
  ids : ∀ key, ∀ o ∈ (V key).entries, idOf o ∈ seen
  null : nullId ∈ seen

variable {V : Str → Versions idOf} {seen : Set Str}

theorem Tracks.mono {seen' : Set Str} (h : Tracks b V seen) (hs : seen ⊆ seen') : Tracks b V seen' := { h with
    ids := fun key o ho => hs (h.ids key o ho)
    null := hs h.null }

theorem Tracks.of_slot_eq (h : Tracks b V seen) (hs : b'.slot = b.slot)
    (hv : b'.versioning = none → b.versioning = none) : Tracks b' V seen where
  shows := by rw [hs]; exact h.shows
  unversioned := by
    rw [hs]
    exact fun hn => h.unversioned (hv hn)
  ids := h.ids
  null := h.null

theorem Tracks.edit (h : Tracks b V seen) {s' : Slot} (hs : ∀ k, b'.slot k = if k = key then s' else b.slot k)
    (hv : b'.versioning = b.versioning) (hsh : Shows s' ((V key).apply op))
    (hn : b.versioning = none → s'.history = none)
    (hop : ∀ o, op = .put o → idOf o ∈ seen) : Tracks b' (replayAll V [(key, op)]) seen where
  shows := by
    intro k
    rw [hs, replayAll_singleton]
    split_ifs with hk
    · rw [hk]
      exact hsh
    · exact h.shows k
  unversioned := by
    intro hb k
    rw [hs]
    split_ifs
    · exact hn (hv ▸ hb)
    · exact h.unversioned (hv ▸ hb) k
  ids := by
    intro k o ho
    rw [replayAll_singleton] at ho
    split_ifs at ho
    · cases op with
      | put a =>
        rcases mem_append.mp ho with ho | ho
        · exact h.ids k o (mem_of_mem_filter ho)
        · rw [mem_singleton.mp ho]
          exact hop a rfl
      | erase i => exact h.ids k o (mem_of_mem_filter ho)
    · exact h.ids k o ho
  null := h.null

theorem Stored.tracks (hs : Stored b key uuid b' o) (h : Tracks b V seen) (hf : uuid ∉ seen) :
    Tracks b' (replayAll V [(key, .put (named o))]) (insert uuid seen) := by
  have hw : Tracks b V (insert uuid seen) := h.mono (subset_insert uuid seen)
  refine hw.edit hs.slot hs.versioning ?_ ?_ ?_
  · refine storeObject_shows (h.shows key) (fun hv => h.unversioned hv key) hs.versionId
      hs.live fun a ha hid => ?_
    exact hf (hid ▸ h.ids key a ha)
  · intro hv
    rw [hv]
    exact h.unversioned hv key
  · rintro _ ⟨⟩
    have hid : idOf o = (newVersionId b.versioning uuid).getD nullId := by rw [idOf, hs.versionId]
    rw [idOf_named, hid]
    rcases b.versioning with _ | _ | _
    · exact mem_insert_of_mem _ h.null
    · exact mem_insert _ _
    · exact mem_insert_of_mem _ h.null

theorem Deleted.tracks {remove : Str → Slot → Slot}
    (hr : ∀ {s : Slot} {v : Versions idOf}, Shows s v → ∀ vid, Shows (remove vid s) (v.erase vid))
    (hh : ∀ {s : Slot}, s.history = none → ∀ vid, (remove vid s).history = none)
    (hd : Deleted remove b key versionId uuid now bypass b') (h : Tracks b V seen) (hf : uuid ∉ seen) :
    Tracks b' (replayAll V [(key, deleteOp b.versioning versionId uuid)]) (insert uuid seen) := by
  have hw : Tracks b V (insert uuid seen) := h.mono (subset_insert uuid seen)
  rw [hd.eq]
  refine hw.edit (fun k => slot_setSlot ..) rfl ?_ ?_ ?_
  · rcases versionId with _ | vid
    · exact deleteCurrent_shows (h.shows key) (fun hv => h.unversioned hv key)
        fun a ha hid => hf (hid ▸ h.ids key a ha)
    · exact hr (h.shows key) vid
  · intro hv
    rcases versionId with _ | vid
    · rw [hv]
      exact h.unversioned hv key
    · exact hh (h.unversioned hv key) vid
  · rintro a ha
    rcases versionId with _ | vid
    · rcases hv : b.versioning with _ | _ | _ <;> rw [hv] at ha <;> cases ha
      · exact mem_insert _ _
      · exact mem_insert_of_mem _ h.null
    · cases ha

theorem history_removeVersion {s : Slot} (hn : s.history = none) (vid : Str) :
    (removeVersion vid s).history = none := by
  rw [removeVersion, hn]
  split_ifs
  · rfl
  · exact hn

theorem history_removeVersionBatch {s : Slot} (hn : s.history = none) (vid : Str) :
    (removeVersionBatch vid s).history = none := by
  rw [removeVersionBatch, hn]
  split_ifs
  · rfl
  · exact hn

/-- A batch is its entries one after the other. -/
theorem batch_tracks {entries : List DeleteEntry} (h : Tracks b V seen)
    (hf : (entries.map DeleteEntry.uuid).Nodup)
    (hs : ∀ entry ∈ entries, entry.uuid ∉ seen) :
    Tracks (entries.foldl (deleteEntry now bypass) b) (replayAll V (batchEffects now bypass b entries))
      ({u | u ∈ entries.map DeleteEntry.uuid} ∪ seen) := by
  induction entries generalizing b V seen with
  | nil => exact h.mono subset_union_right
  | cons entry entries ih =>
    rw [map_cons, nodup_cons] at hf
    rw [forall_mem_cons] at hs
    have hst : Tracks (deleteEntry now bypass b entry) (replayAll V
        (if deleteDenied b entry.key entry.versionId now bypass then []
          else [(entry.key, deleteOp b.versioning entry.versionId entry.uuid)]))
        (insert entry.uuid seen) := by
      rcases deleteEntry_cases now bypass b entry with ⟨hdn, heq⟩ | hd
      · rw [heq, hdn]
        exact h.mono (subset_insert _ _)
      · rw [hd.allowed]
        exact hd.tracks removeVersionBatch_shows history_removeVersionBatch h hs.1
    have hal : {u | u ∈ entries.map DeleteEntry.uuid} ∪ insert entry.uuid seen =
        {u | u ∈ (entry :: entries).map DeleteEntry.uuid} ∪ seen := by
      ext u
      simp only [mem_union, mem_insert_iff, mem_ofPred_eq, map_cons, mem_cons]
      tauto
    rw [batchEffects, replayAll_append, ← hal]
    refine ih hst hf.2 fun a ha hm => ?_
    rcases mem_insert_iff.mp hm with heq | hm
    · exact hf.1 (heq ▸ mem_map_of_mem ha)
    · exact hs.2 a ha hm

/-- Every request does to the stacks what its effects say. -/
theorem Happens.tracks {e : Event} (hh : Happens b e b' fx)
    (h : Tracks b V seen) (hf : (uuids e).Nodup) (hs : ∀ uuid ∈ uuids e, uuid ∉ seen) :
    Tracks b' (replayAll V fx) ({u | u ∈ uuids e} ∪ seen) := by
  cases hh with
  | same hsl hv =>
    exact (h.of_slot_eq hsl hv).mono subset_union_right
  | stored hk hu hst =>
    rw [hu] at hs ⊢
    refine (hst.tracks h (hs _ (mem_singleton_self _))).mono ?_
    exact insert_subset (.inl (mem_singleton_self _)) subset_union_right
  | deleted hu hd =>
    rw [hu] at hs ⊢
    refine (hd.tracks removeVersion_shows history_removeVersion h
      (hs _ (mem_singleton_self _))).mono ?_
    exact insert_subset (.inl (mem_singleton_self _)) subset_union_right
  | batch hud =>
    rw [hud] at hf hs ⊢
    exact batch_tracks h hf fun entry he => hs _ (mem_map_of_mem he)

theorem execAll_tracks (D : Digest) {events : List Event} (h : Tracks b V seen)
    (hf : (events.flatMap uuids).Nodup) (hs : ∀ uuid ∈ events.flatMap uuids, uuid ∉ seen) :
    ∃ seen', Tracks (execAll D b events) (replayAll V (trace D b events)) seen' := by
  induction events generalizing b V seen with
  | nil => exact ⟨seen, h⟩
  | cons e events ih =>
    rw [flatMap_cons, nodup_append] at hf
    rw [trace, replayAll_append]
    have hst := (exec_happens D b e).tracks h hf.1 fun u hu =>
      hs u (mem_append_left _ hu)
    refine ih hst hf.2.1 ?_
    intro u hu hm
    rcases hm with hm | hm
    · exact hf.2.2 u hm u hu rfl
    · exact hs u (mem_append_right _ hu) hm

/-! ## The history of a key -/

/-- What the two maps of a bucket say about a key together. -/
structure HistoryOk (s : Slot) : Prop where
  null : ((s.history.getD []).filter isNullVersion).length ≤ 1
  distinct : ((s.history.getD []).map Object.versionId).Nodup
  latest : s.history.getD [] ≠ [] → ∃ latest, (s.history.getD []).getLast? = some latest ∧
    (s.current = some latest ∨
      latest.isDeleteMarker = true ∧ ∀ o, s.current = some o → o.isDeleteMarker = true)
  alone : s.history.getD [] = [] → ∀ o, s.current = some o →
    isNullVersion o = true ∧ o.isDeleteMarker = false

theorem Shows.nodup_versionId (h : Shows s v) : ((s.history.getD []).map Object.versionId).Nodup := by
  rcases hh : s.history with _ | versions
  · exact .nil
  · have hm : versions.map Object.versionId = versions.map fun o => some (idOf o) := by
      refine map_congr_left fun o ho => ?_
      obtain ⟨id, hid⟩ := isSome_iff_exists.mp ((h.of_some hh).1 _ ho)
      rw [idOf, hid]
      rfl
    have hn := v.nodup.map (Option.some_injective Str)
    rw [h.entries_some hh, List.map_map] at hn
    rw [getD_some, hm]
    exact hn

theorem Shows.historyOk (h : Shows s v) : HistoryOk s where
  null := by
    rcases hh : s.history with _ | versions
    · exact Nat.zero_le 1
    · -- versions of the null slot have one id
      have hc : (versions.filter isNullVersion).length = (versions.map idOf).count nullId := by
        rw [count_eq_countP, countP_map, countP_eq_length_filter]
        exact congrArg length (filter_congr fun o _ => by
          rw [isNullVersion_eq, Bool.eq_iff_iff]
          simp)
      have hn := v.nodup
      rw [h.entries_some hh] at hn
      rw [getD_some, hc]
      exact nodup_iff_count_le_one.mp hn nullId
  distinct := h.nodup_versionId
  latest := by
    intro hne
    rcases hh : s.history with _ | versions
    · rw [hh] at hne
      exact absurd rfl hne
    · obtain ⟨latest, hl, hcr | ⟨hm, hcr⟩⟩ := (h.of_some hh).2
      · exact ⟨latest, hl, .inl hcr⟩
      · refine ⟨latest, hl, .inr ⟨hm, fun o ho => ?_⟩⟩
        rw [hcr] at ho
        cases ho
  alone := by
    intro he o ho
    rcases hh : s.history with _ | versions
    · obtain ⟨hnl, hlv⟩ := h.alone hh ho
      exact ⟨isNullVersion_iff.mpr hnl, hlv⟩
    · rw [hh, getD_some] at he
      obtain ⟨latest, hl, -⟩ := (h.of_some hh).2
      rw [he] at hl
      cases hl

theorem Tracks.empty (he : ∀ key, b.slot key = ⟨none, none⟩) : Tracks b (fun _ => .empty) {nullId} where
  shows key := by
    rw [he]
    exact Shows.empty
  unversioned _ key := by rw [he]
  ids _ _ ho := absurd ho not_mem_nil
  null := rfl

theorem mem_of_mem_opsAt (h : op ∈ opsAt key fx) : (key, op) ∈ fx := by
  obtain ⟨f, hf, hop⟩ := mem_filterMap.mp h
  split_ifs at hop with hk
  cases hop
  rw [← hk]
  exact hf

/-- **Histories are kept.**  In every run from an empty bucket with fresh version ids, the two maps agree on
every key, and an object or delete marker that was written is found under its id as long as no later
request writes or deletes that id. -/
theorem versions_kept (D : Digest) (b : Bucket) (events : List Event)
    (hempty : ∀ key, b.slot key = ⟨none, none⟩) (hfresh : (nullId :: events.flatMap uuids).Nodup) :
    (∀ key, HistoryOk ((execAll D b events).slot key)) ∧
      ∀ before later key o, trace D b events = before ++ (key, .put o) :: later →
        (∀ f ∈ later, f.1 = key → f.2.target idOf ≠ idOf o) →
        ∃ o', resolveObject (execAll D b events) key (some (idOf o)) = .ok o' ∧ named o' = o := by
  rw [nodup_cons] at hfresh
  obtain ⟨seen, ht⟩ := execAll_tracks D (Tracks.empty hempty) hfresh.2 fun u hu hm =>
    hfresh.1 (mem_singleton_iff.mp hm ▸ hu)
  refine ⟨fun key => (ht.shows key).historyOk, ?_⟩
  intro before later key o htr hl
  refine resolveObject_of_get (ht.shows key) ?_
  have ho : opsAt key (trace D b events) = opsAt key before ++ .put o :: opsAt key later := by
    rw [htr, opsAt, filterMap_append, filterMap_cons, if_pos rfl]
    rfl
  rw [replayAll, ho]
  exact replay_put fun op hop => hl (key, op) (mem_of_mem_opsAt hop) rfl

namespace Example

def digest : Digest := ⟨fun _ => "e", fun _ => "m"⟩

def emptyBucket : Bucket := ⟨.empty, .empty, .empty, none, none⟩

def put (uuid : Str) (body : Bytes) : Event :=
  ⟨0, .put "k" uuid ⟨none, none, none, none, none, body, none, none⟩⟩

/-- A write before versioning, one while it is enabled, and a delete. -/
def events : List Event :=
  [put "u1" [1], ⟨0, .putVersioning "Enabled"⟩, put "u2" [2],
    ⟨0, .delete "k" none "u3" false none⟩]

def plain (id : Str) (body : Bytes) : Object :=
    ⟨"e", body, body.length, none, some id, false, none, none, none⟩

end Example

open Example in
/-- The object from before versioning is still there as the null version. -/
theorem versions_kept_null : (∀ key, HistoryOk ((execAll digest emptyBucket events).slot key)) ∧
    ∃ o, resolveObject (execAll digest emptyBucket events) "k" (some nullId) = .ok o ∧
      named o = plain nullId [1] := by
  obtain ⟨hok, hk⟩ := versions_kept digest emptyBucket events (fun _ => rfl) (by decide +kernel)
  refine ⟨hok, hk [] [("k", .put (plain "u2" [2])),
    ("k", .put (makeDeleteMarker "u3"))] "k" (plain nullId [1]) rfl ?_⟩
  intro f hf _
  rcases mem_cons.mp hf with rfl | hf
  · decide +kernel
  · rw [mem_singleton.mp hf]
    decide +kernel

end Fakecloud.S3

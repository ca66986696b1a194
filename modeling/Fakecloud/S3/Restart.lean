import Fakecloud.S3.Disk

/-!
# S3: a restart

The files of a key picture its versions: a sidecar for each with its time, and a body for each that is no
delete marker.  The order of versions is that of commits in memory and that of times on disk, so a commit
has to bring a later time than the versions that stay beside it.  It must also see the versioning that the
bucket has when it is committed, and the version id of a delete must name a file of its key.
-/

namespace Fakecloud.S3

open Text List Option DiskBucket Function OrdMap

/-! ## Files of a list of versions -/

structure Pictures (l : List Object) (times : Str → ℤ) (d : Dir) : Prop where
  nodup : (l.map idOf).Nodup
  sidecar : ∀ tag sc, d.sidecars.get tag = some sc ↔ ∃ o ∈ l, idOf o = tag ∧ metaSnapshot o (times tag) = sc
  body : ∀ o ∈ l, o.isDeleteMarker = false → d.bodies.get (idOf o) = some o.body
  marker : ∀ o ∈ l, o.isDeleteMarker = true → o.body = []
  ordered : l.Pairwise fun a b => times (idOf a) < times (idOf b)

namespace Pictures

variable {l : List Object} {times : Str → ℤ} {d : Dir} {o : Object} {t : ℤ}

theorem empty (times : Str → ℤ) : Pictures [] times {} where
  nodup := .nil
  sidecar tag sc := by
    constructor
    · intro h
      cases h
    · rintro ⟨o, ho, -⟩
      cases ho
  body o ho := by cases ho
  marker o ho := by cases ho
  ordered := .nil

theorem erase (h : Pictures l times d) (tag : Str) :
    Pictures (l.filter fun o => idOf o ≠ tag) times (d.deleteObject tag) where
  nodup := h.nodup.sublist (filter_sublist.map idOf)
  sidecar tag' sc := by
    rw [Dir.deleteObject, get_erase]
    split_ifs with ht
    · constructor
      · intro hn
        cases hn
      · rintro ⟨o, ho, hid, -⟩
        have hne := (mem_filter.mp ho).2
        exact absurd (hid.trans ht) (by simpa using hne)
    · rw [h.sidecar]
      constructor
      · rintro ⟨o, ho, hid, hsc⟩
        exact ⟨o, mem_filter.mpr ⟨ho, by simpa [hid] using ht⟩, hid, hsc⟩
      · rintro ⟨o, ho, hid, hsc⟩
        exact ⟨o, mem_of_mem_filter ho, hid, hsc⟩
  body o ho hl := by
    obtain ⟨hm, hne⟩ := mem_filter.mp ho
    rw [Dir.deleteObject, get_erase, if_neg (by simpa using hne)]
    exact h.body o hm hl
  marker o ho := h.marker o (mem_of_mem_filter ho)
  ordered := h.ordered.filter _

theorem put (h : Pictures l times d) (hm : o.isDeleteMarker = true → o.body = [])
    (hla : ∀ a ∈ l, idOf a ≠ idOf o → times (idOf a) < t) :
    Pictures ((l.filter fun a => idOf a ≠ idOf o) ++ [o]) (update times (idOf o) t)
      (d.putObject o t) := by
  have hne : ∀ {a}, a ∈ l.filter (fun a => idOf a ≠ idOf o) → idOf a ≠ idOf o := fun ha => by
    simpa using (mem_filter.mp ha).2
  refine ⟨?_, fun tag sc => ?_, fun a ha hl => ?_, fun a ha => ?_, ?_⟩
  · rw [map_append, nodup_append]
    refine ⟨h.nodup.sublist (filter_sublist.map idOf), nodup_singleton _, ?_⟩
    rintro id hid id' hid' rfl
    obtain ⟨a, ha, rfl⟩ := mem_map.mp hid
    exact hne ha (mem_singleton.mp hid')
  · rw [Dir.putObject, get_insert]
    split_ifs with ht
    · subst ht
      constructor
      · intro hsc
        exact ⟨o, by simp, rfl, by rw [update_self]; exact some.inj hsc⟩
      · rintro ⟨a, ha, hid, hsc⟩
        rcases mem_append.mp ha with ha | ha
        · exact absurd hid (hne ha)
        · rw [mem_singleton.mp ha, update_self] at hsc
          rw [hsc]
    · rw [h.sidecar, update_of_ne ht]
      constructor
      · rintro ⟨a, ha, hid, hsc⟩
        exact ⟨a, mem_append_left _ (mem_filter.mpr ⟨ha, by simpa [hid] using ht⟩), hid, hsc⟩
      · rintro ⟨a, ha, hid, hsc⟩
        rcases mem_append.mp ha with ha | ha
        · exact ⟨a, mem_of_mem_filter ha, hid, hsc⟩
        · rw [mem_singleton.mp ha] at hid
          exact absurd hid.symm ht
  · rcases mem_append.mp ha with ha | ha
    · have hbd := h.body a (mem_of_mem_filter ha) hl
      rw [Dir.putObject]
      split_ifs
      · exact hbd
      · rw [get_insert, if_neg (hne ha)]
        exact hbd
    · obtain rfl := mem_singleton.mp ha
      rw [Dir.putObject, hl, if_neg Bool.false_ne_true, get_insert, if_pos rfl]
  · rcases mem_append.mp ha with ha | ha
    · exact h.marker a (mem_of_mem_filter ha)
    · obtain rfl := mem_singleton.mp ha
      exact hm
  · have hk : ∀ a ∈ l.filter (fun a => idOf a ≠ idOf o),
        update times (idOf o) t (idOf a) = times (idOf a) := fun a ha =>
      update_of_ne (hne ha) _ _
    rw [pairwise_append]
    refine ⟨(h.ordered.filter _).imp_of_mem fun ha hb hlt => ?_, pairwise_singleton _ _, fun a ha b hb => ?_⟩
    · rw [hk _ ha, hk _ hb]
      exact hlt
    · rw [mem_singleton.mp hb, hk a ha, update_self]
      exact hla a (mem_of_mem_filter ha) (hne ha)

theorem name (h : Pictures [o] times d) (hn : idOf o = nullId) :
    Pictures [named o] times (d.putObjectMeta nullId (metaSnapshot (named o) (times nullId))) where
  nodup := nodup_singleton _
  sidecar tag sc := by
    rw [Dir.putObjectMeta, get_insert]
    split_ifs with ht
    · simp [ht, hn]
    · rw [h.sidecar]
      simp [hn, Ne.symm ht]
  body a ha hl := by
    obtain rfl := mem_singleton.mp ha
    exact h.body o mem_cons_self hl
  marker a ha := by
    obtain rfl := mem_singleton.mp ha
    exact h.marker o mem_cons_self
  ordered := pairwise_singleton _ _

end Pictures

/-! ## Loading -/

section Load

variable {R : ReadDir} {s : Slot} {times : Str → ℤ} {d : Dir} {o : Object}

/-- Sorting by distinct values undoes any reordering. -/
theorem insertionSort_eq_of_perm {α : Type} {f : α → ℤ} {l m : List α} (hp : l.Perm m)
    (hm : m.Pairwise fun a b => f a < f b) : l.insertionSort (fun a b => f a ≤ f b) = m := by
  have hs := (perm_insertionSort (fun a b => f a ≤ f b) l).trans hp
  have hi : (m.map f).Nodup := (pairwise_map.mpr hm).imp fun hlt => hlt.ne
  refine List.Perm.eq_of_pairwise (fun a b ha hb hab hba => ?_)
    (pairwise_insertionSort (fun a b => f a ≤ f b) l) (hm.imp fun hlt => hlt.le) hs
  exact inj_on_of_nodup_map hi (hs.subset ha) hb (le_antisymm hab hba)

def fileOf (times : Str → ℤ) (o : Object) : Str × Sidecar := (idOf o, metaSnapshot o (times (idOf o)))

theorem isBare_fileOf (times : Str → ℤ) (o : Object) : isBare (fileOf times o) = o.versionId.isNone := by
  cases hid : o.versionId with
  | none => simp [isBare, fileOf, idOf, metaSnapshot, withoutBody, hid]
  | some id => simp [isBare, fileOf, metaSnapshot, withoutBody, hid]

def live (s : Slot) : Option Object := s.current.filter fun o => !o.isDeleteMarker

theorem live_of_currentOk {versions : List Object} (h : CurrentOk s) (hh : s.history = some versions) :
    live s = currentOf versions := by
  rw [CurrentOk, hh] at h
  obtain ⟨-, latest, hl, hc | ⟨hm, hc⟩⟩ := h
  · rw [live, currentOf, hl, hc]
  · rw [live, currentOf, hl, hc, filter_some, if_neg (by simpa using hm), Option.filter_none]

theorem live_alone (h : CurrentOk s) (hh : s.history = none) : live s = s.current := by
  rw [CurrentOk, hh] at h
  cases hc : s.current with
  | none => rw [live, hc, Option.filter_none]
  | some o =>
    have hl := (h o hc).2
    rw [live, hc, filter_some, hl]
    rfl

theorem live_eq_currentOf (h : CurrentOk s) : live s = currentOf (listed s) := by
  cases hh : s.history with
  | some versions => rw [live_of_currentOk h hh, listed, hh, getD_some]
  | none =>
    rw [live_alone h hh, listed, hh]
    rw [CurrentOk, hh] at h
    cases hc : s.current with
    | none => rfl
    | some o =>
      have hl := (h o hc).2
      simp [currentOf, filter_some, hl]

theorem listed_of_isNone (h : CurrentOk s) (ho : o ∈ listed s) (hid : o.versionId = none) :
    s.history = none ∧ s.current = some o := by
  cases hh : s.history with
  | some versions =>
    rw [CurrentOk, hh] at h
    rw [listed, hh] at ho
    have hs := h.1 o ho
    rw [hid] at hs
    cases hs
  | none =>
    rw [listed, hh, getD_none, Option.mem_toList] at ho
    exact ⟨rfl, ho⟩

variable (h : Pictures (listed s) times d)
include h

theorem Pictures.files : (R.list d.sidecars).Perm ((listed s).map (fileOf times)) := by
  refine (R.perm d.sidecars).trans ?_
  have hk : d.sidecars.entries.Nodup := by
    refine d.sidecars.sorted.imp fun {a b} hlt heq => ?_
    rw [heq] at hlt
    exact absurd hlt (by simp)
  have hf : ((listed s).map (fileOf times)).Nodup := by
    refine List.Nodup.of_map Prod.fst ?_
    rw [List.map_map]
    exact h.nodup
  rw [perm_ext_iff_of_nodup hk hf]
  rintro ⟨tag, sc⟩
  rw [mem_entries, h.sidecar, List.mem_map]
  constructor
  · rintro ⟨o, ho, rfl, rfl⟩
    exact ⟨o, ho, rfl⟩
  · rintro ⟨o, ho, heq⟩
    obtain ⟨rfl, rfl⟩ := Prod.mk.inj heq
    exact ⟨o, ho, rfl, rfl⟩

theorem Pictures.loadObject (ho : o ∈ listed s) :
    loadObject d (fileOf times o) = o := by
  cases hm : o.isDeleteMarker with
  | true =>
    have hb := h.marker o ho hm
    rw [S3.loadObject, fileOf, metaSnapshot, withoutBody, if_pos hm, ← hb]
  | false =>
    have hb := h.body o ho hm
    rw [S3.loadObject, fileOf, metaSnapshot, withoutBody, if_neg (by simpa using hm), hb, getD_some]

theorem Pictures.complete :
    (R.list d.sidecars).all (fun file => file.2.object.isDeleteMarker ||
      (d.bodies.get file.1).isSome) = true := by
  rw [List.all_eq_true]
  intro file hf
  obtain ⟨o, ho, rfl⟩ := mem_map.mp (h.files.subset hf)
  cases hm : o.isDeleteMarker with
  | true => simp [fileOf, metaSnapshot, withoutBody, hm]
  | false => simp [fileOf, h.body o ho hm]

theorem Pictures.loadVersions_of_isSome (hi : ∀ o ∈ listed s, o.versionId.isSome) :
    loadVersions R d = listed s := by
  have hk : (R.list d.sidecars).filter (fun file => !isBare file) = R.list d.sidecars := by
    refine filter_eq_self.mpr fun file hf => ?_
    obtain ⟨o, ho, rfl⟩ := mem_map.mp (h.files.subset hf)
    rw [isBare_fileOf, Option.isNone_eq_false_iff.mpr (hi o ho)]
    rfl
  have ht : ((listed s).map (fileOf times)).Pairwise fun a b => a.2.lastModified < b.2.lastModified :=
    pairwise_map.mpr h.ordered
  have hs : (R.list d.sidecars).insertionSort (fun a b => a.2.lastModified ≤ b.2.lastModified) =
      (listed s).map (fileOf times) := insertionSort_eq_of_perm h.files ht
  rw [loadVersions, hk, hs, List.map_map]
  conv_rhs => rw [← map_id (listed s)]
  exact map_congr_left fun o ho => h.loadObject ho

theorem Pictures.load_bare (hl : listed s = [o])
    (hid : o.versionId = none) : load R d = some ⟨some o, none⟩ := by
  have hf : R.list d.sidecars = [fileOf times o] := by
    have hp := h.files (R := R)
    rw [hl] at hp
    exact perm_singleton.mp hp
  have hb : isBare (fileOf times o) = true := by rw [isBare_fileOf, hid, isNone_none]
  have hv : loadVersions R d = [] := by
    rw [loadVersions, hf, filter_cons_of_neg (by simpa using hb)]
    rfl
  rw [load, if_pos h.complete, hv, hf, find?_cons_of_pos hb, map_some,
    h.loadObject (by rw [hl]; exact mem_cons_self)]
  rfl

/-- What is loaded is what memory holds. -/
theorem load_eq (hc : CurrentOk s) :
    ∃ s', load R d = some s' ∧ listed s' = listed s ∧ live s' = live s := by
  by_cases hi : ∀ o ∈ listed s, o.versionId.isSome
  · rw [load, if_pos h.complete, h.loadVersions_of_isSome hi, live_eq_currentOf hc]
    by_cases he : listed s = []
    · have hf : R.list d.sidecars = [] := by
        have hp := h.files (R := R)
        rw [he] at hp
        exact hp.eq_nil
      rw [he, hf]
      exact ⟨_, rfl, rfl, rfl⟩
    · refine ⟨⟨currentOf (listed s), some (listed s)⟩, ?_, rfl, ?_⟩
      · simp [he]
      · simp [live, currentOf]
  · push Not at hi
    obtain ⟨o, ho, hid⟩ := hi
    rw [ne_eq, not_isSome_iff_eq_none] at hid
    obtain ⟨hh, hs⟩ := listed_of_isNone hc ho hid
    have hl : listed s = [o] := by
      rw [listed, hh, hs]
      rfl
    refine ⟨_, h.load_bare hl hid, hl.symm, ?_⟩
    rw [live_alone hc hh, hs, live, filter_some]
    rw [CurrentOk, hh] at hc
    rw [(hc o hs).2]
    rfl

end Load

/-! ## Slots -/

section Slots

variable {s : Slot} {times : Str → ℤ} {d : Dir}

/-- The object that gets an id when a version is put beside it. -/
def unnamed (s : Slot) : Option Object := if s.history.isNone then s.current.map named else none

theorem underMarker_eq (s : Slot) : underMarker s = unnamed s := by
  unfold underMarker unnamed
  split_ifs
  · cases s.current with
    | none => rfl
    | some o => rcases o with ⟨_, _, _, _, _ | id, _, _, _, _⟩ <;> rfl
  · rfl

theorem listed_removeVersionBatch (vid : Str) (s : Slot) :
    listed (removeVersionBatch vid s) = (listed s).filter fun o => idOf o ≠ vid := by
  cases hh : s.history with
  | some versions =>
    rw [removeVersionBatch, hh, listed_currentOf, filter_vidMatches, listed, hh, getD_some]
  | none =>
    rw [removeVersionBatch]
    cases hc : s.current with
    | none => simp [listed, hh, hc]
    | some c =>
      by_cases hm : idOf c = vid
      · simp [listed, hh, hc, vidMatches_iff, hm]
      · simp [listed, hh, hc, vidMatches_iff, hm]

variable (hc : CurrentOk s)
include hc

theorem map_named_of_history {versions : List Object} (hh : s.history = some versions) :
    (listed s).map named = listed s := by
  rw [CurrentOk, hh] at hc
  rw [listed, hh]
  conv_rhs => rw [← map_id versions]
  exact map_congr_left fun o ho => named_of_isSome (hc.1 o ho)

theorem nullVersionToPreserve_eq : nullVersionToPreserve s = unnamed s := by
  unfold nullVersionToPreserve unnamed
  cases hh : s.history with
  | none =>
    rw [CurrentOk, hh] at hc
    cases hcu : s.current with
    | none => rfl
    | some c =>
      have hn := (hc c hcu).1
      have hnm : named c = { c with versionId := some nullId } := by
        rw [named, isNullVersion_iff.mp hn]
      simp [hn, hnm]
  | some versions =>
    -- a null version that is current is in the history
    cases hcu : s.current with
    | none => simp
    | some c =>
      have hm : c ∈ versions := by
        rw [CurrentOk, hh] at hc
        obtain ⟨-, latest, hl, heq | ⟨-, heq⟩⟩ := hc
        · rw [hcu, some.injEq] at heq
          exact heq ▸ mem_of_getLast? hl
        · rw [hcu] at heq
          cases heq
      by_cases hn : isNullVersion c
      · have ha : versions.any isNullVersion = true := any_eq_true.mpr ⟨c, hm, hn⟩
        simp [ha]
      · simp [hn]

theorem Pictures.unnamed (h : Pictures (listed s) times d) :
    Pictures ((listed s).map named) times ((unnamed s).elim d fun o =>
      d.putObjectMeta nullId (metaSnapshot o (times (idOf o)))) := by
  cases hh : s.history with
  | some versions =>
    have hnn : S3.unnamed s = none := by rw [S3.unnamed, hh]; rfl
    rw [map_named_of_history hc hh, hnn]
    exact h
  | none =>
    have hs : S3.unnamed s = s.current.map named := by rw [S3.unnamed, hh]; rfl
    have hl : listed s = s.current.toList := by rw [listed, hh, getD_none]
    rw [hs]
    cases hcu : s.current with
    | none =>
      rw [hl, hcu] at h ⊢
      exact h
    | some c =>
      rw [CurrentOk, hh] at hc
      have hn := isNullVersion_iff.mp (hc c hcu).1
      rw [hl, hcu] at h ⊢
      have hnm := h.name hn
      rw [← hn] at hnm
      rw [← hn]
      exact hnm

theorem filter_alone (hh : s.history = none) :
    (listed s).filter (fun o => idOf o ≠ nullId) = [] := by
  rw [CurrentOk, hh] at hc
  rw [filter_eq_nil_iff, listed, hh]
  intro o ho
  simpa [isNullVersion_iff] using (hc o (Option.mem_toList.mp ho)).1

/-- A write in a bucket that is not versioned now is over the null version. -/
theorem listed_storeObject {versioning : Option Versioning}
    (hn : versioning = none → s.history = none) (hv : versioning ≠ some .enabled)
    (o : Object) :
    listed (storeObject versioning o s) = (listed s).filter (fun a => idOf a ≠ nullId) ++ [o] := by
  rcases versioning with _ | _ | _
  · rw [filter_alone hc (hn rfl), storeObject, hn rfl]
    rfl
  · exact absurd rfl hv
  · rw [storeObject, replaceNullVersion]
    cases hh : s.history with
    | none =>
      rw [filter_alone hc hh]
      rfl
    | some versions =>
      rw [listed, listed, hh, map_some, getD_some, getD_some, filter_null]

theorem listed_removeVersion (vid : Str) :
    listed (removeVersion vid s) = (listed s).filter fun o => idOf o ≠ vid := by
  rw [← listed_removeVersionBatch]
  cases hh : s.history with
  | none => rw [removeVersion, removeVersionBatch, hh]
  | some versions =>
    rw [removeVersion, removeVersionBatch, hh, listed_currentOf]
    dsimp only
    generalize hr : versions.filter (fun o => !vidMatches vid o) = rest
    cases rest with
    | cons o rest => rfl
    | nil =>
      have hne : versions ≠ [] := by
        rintro rfl
        rw [CurrentOk, hh] at hc
        obtain ⟨-, latest, hlt, -⟩ := hc
        cases hlt
      have hl : ([] : List Object).length ≠ versions.length := (length_pos_of_ne_nil hne).ne
      rw [if_pos hl]
      rfl

end Slots

/-! ## Runs -/

/-- The time is later than that of every version that stays beside the one with this id. -/
def DiskBucket.Later (w : DiskBucket) (key id : Str) (t : ℤ) : Prop :=
  ∀ o ∈ listed (w.bucket.slot key), idOf o ≠ id → w.times key (idOf o) < t

/-- The version id that is drawn for a commit has not been drawn before. -/
def Commit.Fresh (w : DiskBucket) : Commit → Prop
  | .put key _ uuid _ _ | .copy key uuid _ _ | .delete key _ uuid _ | .deleteEntry key _ uuid _ =>
    ∀ o ∈ listed (w.bucket.slot key), idOf o ≠ uuid
  | .putVersioning _ => True

/-- A delete: a version id is a file name, and a delete marker is later than what it covers. -/
def DiskBucket.DeleteInStep (w : DiskBucket) (key : Str) (versionId : Option Str) (uuid : Str)
    (now : ℤ) : Prop :=
  match versionId, w.bucket.versioning with
  | some vid, _ => '/' ∉ vid
  | none, some .enabled => w.Later key uuid now
  | none, some .suspended => w.Later key nullId now
  | none, none => True

/-- The commit brings a later time than the versions of its key, and has seen the versioning of the bucket. -/
def Commit.InStep (w : DiskBucket) : Commit → Prop
  | .put key seen uuid _ lastModified =>
    seen = w.bucket.versioning ∧ w.Later key ((newVersionId seen uuid).getD nullId) lastModified
  | .copy key uuid _ lastModified =>
    w.Later key ((newVersionId w.bucket.versioning uuid).getD nullId) lastModified
  | .delete key versionId uuid now | .deleteEntry key versionId uuid now =>
    w.DeleteInStep key versionId uuid now
  | .putVersioning _ => True

/-- Runs of a bucket from its creation, in which every commit is a `good` one. -/
inductive Run (P : Paths) (good : DiskBucket → Commit → Prop) : DiskBucket → Prop
  | created (objectLockConfig : Option LockConfig) : Run P good (.created objectLockConfig)
  | commit (w : DiskBucket) (c : Commit) : Run P good w → c.Fresh w → good w c → Run P good (w.commit P c)

instance (w : DiskBucket) (key id : Str) (t : ℤ) : Decidable (w.Later key id t) :=
  inferInstanceAs (Decidable (∀ o ∈ listed (w.bucket.slot key), idOf o ≠ id → w.times key (idOf o) < t))

instance (w : DiskBucket) : (c : Commit) → Decidable (c.Fresh w)
  | .put key _ uuid _ _ | .copy key uuid _ _ | .delete key _ uuid _ | .deleteEntry key _ uuid _ =>
    inferInstanceAs (Decidable (∀ o ∈ listed (w.bucket.slot key), idOf o ≠ uuid))
  | .putVersioning _ => isTrue trivial

instance (w : DiskBucket) (key : Str) (versionId : Option Str) (uuid : Str) (now : ℤ) :
    Decidable (w.DeleteInStep key versionId uuid now) := by
  unfold DiskBucket.DeleteInStep
  split <;> infer_instance

instance (w : DiskBucket) : (c : Commit) → Decidable (c.InStep w)
  | .put key seen uuid _ t =>
    inferInstanceAs
      (Decidable (seen = w.bucket.versioning ∧ w.Later key ((newVersionId seen uuid).getD nullId) t))
  | .copy key uuid _ t =>
    inferInstanceAs (Decidable (w.Later key ((newVersionId w.bucket.versioning uuid).getD nullId) t))
  | .delete key versionId uuid now | .deleteEntry key versionId uuid now =>
    inferInstanceAs (Decidable (w.DeleteInStep key versionId uuid now))
  | .putVersioning _ => isTrue trivial

def DiskBucket.commitAll (P : Paths) (w : DiskBucket) (commits : List Commit) : DiskBucket :=
  commits.foldl (fun w c => w.commit P c) w

def DiskBucket.allGood (P : Paths) (good : DiskBucket → Commit → Prop) [∀ w c, Decidable (good w c)] :
    DiskBucket → List Commit → Bool
  | _, [] => true
  | w, c :: commits => decide (c.Fresh w ∧ good w c) && allGood P good (w.commit P c) commits

theorem Run.commitAll {P : Paths} {good : DiskBucket → Commit → Prop} [∀ w c, Decidable (good w c)]
    {commits : List Commit} {w : DiskBucket} (hr : Run P good w) (hg : w.allGood P good commits = true) :
    Run P good (w.commitAll P commits) := by
  induction commits generalizing w with
  | nil => exact hr
  | cons c commits ih =>
    rw [allGood, Bool.and_eq_true, decide_eq_true_iff] at hg
    exact ih (hr.commit w c hg.1.1 hg.1.2) hg.2

structure Synced (w : DiskBucket) : Prop where
  never : w.bucket.versioning = none → ∀ key, (w.bucket.slot key).history = none
  current : ∀ key, CurrentOk (w.bucket.slot key)
  pictures : ∀ key, Pictures (listed (w.bucket.slot key)) (w.times key) (w.disk key)

namespace Synced

variable {w : DiskBucket} {P : Paths} {key : Str} {uuid : Str}

theorem created (objectLockConfig : Option LockConfig) : Synced (.created objectLockConfig) where
  never _ _ := rfl
  current _ := Shows.empty.current
  pictures _ := Pictures.empty _

theorem set (h : Synced w) (key : Str) {s : Slot} (times : Str → ℤ) {d : Dir}
    (hnv : w.bucket.versioning = none → s.history = none) (hc : CurrentOk s)
    (hp : Pictures (listed s) times d) :
    Synced ⟨w.bucket.setSlot key s, update w.times key times, update w.disk key d⟩ where
  never hn k := by
    rw [slot_setSlot]
    split_ifs
    · exact hnv hn
    · exact h.never hn k
  current k := by
    rw [slot_setSlot]
    split_ifs
    · exact hc
    · exact h.current k
  pictures k := by
    dsimp only
    rw [slot_setSlot]
    split_ifs with hk
    · rw [hk, update_self, update_self]
      exact hp
    · rw [update_of_ne hk, update_of_ne hk]
      exact h.pictures k

theorem shows (h : Synced w) (key : Str) :
    Shows (w.bucket.slot key) (stackOf (w.bucket.slot key) (h.pictures key).nodup) :=
  shows_stackOf (h.current key) (h.pictures key).nodup

theorem fresh_stackOf {s : Slot} (hn : ((listed s).map idOf).Nodup)
    (hf : ∀ o ∈ listed s, idOf o ≠ uuid) : ∀ a ∈ (stackOf s hn).entries, idOf a ≠ uuid := by
  intro a ha
  obtain ⟨o, ho, rfl⟩ := mem_map.mp ha
  exact hf o ho

theorem store (h : Synced w) {content : Object} {t : ℤ} (hf : ∀ o ∈ listed (w.bucket.slot key), idOf o ≠ uuid)
    (hl : w.Later key ((newVersionId w.bucket.versioning uuid).getD nullId) t) :
    Synced (w.store key w.bucket.versioning (newObject w.bucket.versioning uuid content) t) := by
  have hs := storeObject_shows (o := newObject w.bucket.versioning uuid content) (h.shows key)
    (fun hn => h.never hn key) rfl rfl (fresh_stackOf _ hf)
  refine h.set key _ (fun hn => ?_) hs.current ?_
  · rw [hn]
    exact h.never hn key
  by_cases he : w.bucket.versioning = some .enabled
  · rw [he] at hl ⊢
    have hp := ((h.pictures key).unnamed (h.current key)).put
      (o := newObject (some .enabled) uuid content) (fun hm => by cases hm)
      (fun a ha hne => by
        obtain ⟨o, ho, rfl⟩ := mem_map.mp ha
        exact hl o ho hne)
    have hk : ((listed (w.bucket.slot key)).map named).filter
        (fun a => idOf a ≠ idOf (newObject (some .enabled) uuid content)) =
          (listed (w.bucket.slot key)).map named := by
      refine filter_eq_self.mpr fun a ha => decide_eq_true ?_
      exact fresh_stackOf (h.pictures key).nodup hf a ha
    rw [hk] at hp
    rw [storeObject_enabled (h.shows key), nullVersionToPreserve_eq (h.current key)]
    exact hp
  · have hnl : idOf (newObject w.bucket.versioning uuid content) = nullId := by
      rcases hv : w.bucket.versioning with _ | _ | _
      · rfl
      · exact absurd hv he
      · rfl
    have hp := (h.pictures key).put (o := newObject w.bucket.versioning uuid content)
      (fun hm => by cases hm) hl
    rw [hnl] at hp
    rw [listed_storeObject (h.current key) (fun hn => h.never hn key) he, if_neg he, hnl]
    exact hp

variable {removeFrom : Str → Slot → Slot} {now : ℤ}

section

variable (h : Synced w)
include h

theorem removeVersion {vid : Str} (hs : ∀ {s v}, Shows s v → Shows (removeFrom vid s) (v.erase vid))
    (hl : ∀ {s}, CurrentOk s → listed (removeFrom vid s) = (listed s).filter fun o => idOf o ≠ vid)
    (hn : ∀ {s : Slot}, s.history = none → (removeFrom vid s).history = none) (hv : '/' ∉ vid) :
    Synced (w.remove P removeFrom key (some vid) uuid now) := by
  have hst := h.set key (w.times key) (fun hnn => hn (h.never hnn key))
    (hs (h.shows key)).current (by
      rw [hl (h.current key)]
      exact (h.pictures key).erase vid)
  rw [update_eq_self] at hst
  rw [remove]
  simp only [removeFile, P.resolve_plain key vid hv]
  exact hst

theorem deleteUnversioned (hv : w.bucket.versioning = none) :
    Synced (w.remove P removeFrom key none uuid now) := by
  have hh := h.never hv key
  have hc : CurrentOk ⟨none, (w.bucket.slot key).history⟩ := by
    rw [hh]
    exact Shows.empty.current
  have hs := h.set key (w.times key) (s := ⟨none, (w.bucket.slot key).history⟩) (fun _ => hh) hc (by
      have he := (h.pictures key).erase nullId
      rw [filter_alone (h.current key) hh] at he
      rw [hh]
      exact he)
  rw [update_eq_self] at hs
  simp only [remove, hv]
  exact hs

theorem deleteVersioned {versioning : Versioning} (hv : w.bucket.versioning = some versioning)
    (hf : ∀ o ∈ listed (w.bucket.slot key), idOf o ≠ uuid)
    (hl : w.Later key (if versioning = .enabled then uuid else nullId) now) :
    Synced (w.remove P removeFrom key none uuid now) := by
  have hs := deleteCurrent_shows (h.shows key) (fun hnn => h.never hnn key) (fresh_stackOf _ hf)
  rw [hv] at hs
  have hn := (h.pictures key).unnamed (h.current key)
  rw [← underMarker_eq] at hn
  have hp : preserved (w.bucket.slot key) = (listed (w.bucket.slot key)).map named :=
    (h.shows key).preserved_eq
  have ht : ∀ a ∈ (listed (w.bucket.slot key)).map named,
      idOf a ≠ (if versioning = .enabled then uuid else nullId) → w.times key (idOf a) < now := by
    intro a ha hne
    obtain ⟨o, ho, rfl⟩ := mem_map.mp ha
    exact hl o ho hne
  simp only [remove, hv]
  refine h.set key _ (fun hnn => ?_) hs.current ?_
  · rw [hv] at hnn
    cases hnn
  cases versioning with
  | enabled =>
    have hm := hn.put (o := makeDeleteMarker uuid) (fun _ => rfl) ht
    have hk : ((listed (w.bucket.slot key)).map named).filter (fun a => idOf a ≠ uuid) =
        (listed (w.bucket.slot key)).map named := by
      refine filter_eq_self.mpr fun a ha => decide_eq_true ?_
      exact fresh_stackOf (h.pictures key).nodup hf a ha
    rw [idOf_makeDeleteMarker, hk, ← hp] at hm
    exact hm
  | suspended =>
    have hm := (hn.erase nullId).put (o := makeDeleteMarker nullId) (fun _ => rfl)
      (fun a ha => ht a (mem_of_mem_filter ha))
    rw [idOf_makeDeleteMarker, List.filter_filter, ← hp] at hm
    simp only [Bool.and_self, ← filter_null] at hm
    exact hm

theorem delete {versionId : Option Str}
    (hsh : ∀ {vid s v}, Shows s v → Shows (removeFrom vid s) (v.erase vid))
    (hl : ∀ {vid s}, CurrentOk s → listed (removeFrom vid s) = (listed s).filter fun o => idOf o ≠ vid)
    (hn : ∀ {vid} {s : Slot}, s.history = none → (removeFrom vid s).history = none)
    (hf : ∀ o ∈ listed (w.bucket.slot key), idOf o ≠ uuid) (hs : w.DeleteInStep key versionId uuid now) :
    Synced (w.remove P removeFrom key versionId uuid now) := by
  cases versionId with
  | some vid => exact h.removeVersion hsh hl hn hs
  | none =>
    rcases hv : w.bucket.versioning with _ | _ | _
    · exact h.deleteUnversioned hv
    · simp only [DeleteInStep, hv] at hs
      exact h.deleteVersioned hv hf hs
    · simp only [DeleteInStep, hv] at hs
      exact h.deleteVersioned hv hf hs

theorem putVersioning (status : Str) : Synced (w.commit P (.putVersioning status)) := by
  have hs : ((putBucketVersioning w.bucket status).toOption.getD w.bucket).slot = w.bucket.slot ∧
      (((putBucketVersioning w.bucket status).toOption.getD w.bucket).versioning = none →
        w.bucket.versioning = none) := by
    unfold putBucketVersioning
    split_ifs
    · exact ⟨rfl, id⟩
    · exact ⟨rfl, fun hn => by cases hn⟩
    · exact ⟨rfl, fun hn => by cases hn⟩
    · exact ⟨rfl, id⟩
  refine ⟨fun hn key => ?_, fun key => ?_, fun key => ?_⟩
  · simp only [commit, hs.1]
    exact h.never (hs.2 hn) key
  · simp only [commit, hs.1]
    exact h.current key
  · simp only [commit, hs.1]
    exact h.pictures key

theorem commit {c : Commit} (hf : c.Fresh w) (hst : c.InStep w) : Synced (w.commit P c) := by
  cases c with
  | put key seen uuid content lastModified =>
    obtain ⟨rfl, hl⟩ := hst
    exact h.store hf hl
  | copy key uuid content lastModified => exact h.store hf hst
  | delete key versionId uuid now =>
    refine h.delete (fun hs => removeVersion_shows hs _) (fun hc => listed_removeVersion hc _) ?_ hf hst
    intro vid s hh
    rw [S3.removeVersion]
    split_ifs <;> simp [hh]
  | deleteEntry key versionId uuid now =>
    refine h.delete (fun hs => removeVersionBatch_shows hs _)
      (fun _ => listed_removeVersionBatch _ _) ?_ hf hst
    intro vid s hh
    rw [removeVersionBatch]
    split_ifs <;> simp [hh]
  | putVersioning status => exact h.putVersioning status

end

end Synced

/-- **A restart preserves the objects.**  In a run whose commits bring later times and see the bucket's
versioning, the state that is loaded has for every key the versions of memory in their order, and a plain
read finds the same object. -/
theorem restart_preserves (P : Paths) (R : ReadDir) (w : DiskBucket) (hrun : Run P (fun w c => c.InStep w) w)
    (key : Str) : ∃ s, load R (w.disk key) = some s ∧ listed s = listed (w.bucket.slot key) ∧
      live s = live (w.bucket.slot key) := by
  have hs : Synced w := by
    induction hrun with
    | created objectLockConfig => exact .created objectLockConfig
    | commit w c _ hf hst ih => exact ih.commit hf hst
  exact load_eq (hs.pictures key) (hs.current key)

namespace Example

/-- Names without a `..` stay below the directory of the key. -/
def resolve (key tag : Str) : Option (Str × Str) :=
  match tag.splitOn '/' with
  | [file] => some (key, file)
  | [up, dir, file] => if up = ".." then some (dir, file) else none
  | _ => none

def paths : Paths where
  resolve := resolve
  resolve_plain key tag htag := by
    rw [resolve, List.splitOn_eq_singleton htag]

def byName : ReadDir := ⟨fun m => m.entries, fun _ => .refl _⟩

def content (etag : Str) : Object :=
    ⟨etag, utf8 etag, (utf8 etag).length, none, none, false, none, none, none⟩

def run (commits : List Commit) : DiskBucket := (DiskBucket.created none).commitAll paths commits

/-- What a slot shows of a key: the ids of its versions, and the etag that a plain read finds. -/
def slotView (s : Slot) : List Str × Option Str := ((listed s).map idOf, (live s).map fun o => o.etag)

def bothViews (w : DiskBucket) (key : Str) : (List Str × Option Str) × Option (List Str × Option Str) :=
  (slotView (w.bucket.slot key), (load byName (w.disk key)).map slotView)

/-- The second of two writes to commit has read the clock first. -/
def racing : List Commit :=
  [.putVersioning "Enabled", .put "k" (some .enabled) "u" (content "late") 20,
    .put "k" (some .enabled) "v" (content "early") 10]

/-- Versioning is enabled, and another write made, while a write is under way. -/
def stale : List Commit :=
  [.putVersioning "Enabled", .put "k" (some .enabled) "u" (content "first") 10,
    .put "k" none "v" (content "second") 20]

/-- The version id of a delete names a file of another key, through the directory of its own. -/
def outside : List Commit :=
  [.put "a" none "t" (content "other") 5, .put "b" none "u" (content "kept") 10,
    .delete "a" (some "../b/null") "v" 20]

/-- The three ways to lose step: the versions change their order, and twice another object is found. -/
theorem restart_differs :
    (∀ commits ∈ [racing, stale, outside], Run paths (fun _ _ => True) (run commits)) ∧
      bothViews (run racing) "k" =
        ((["u".toList, "v".toList], some "early".toList),
          some (["v".toList, "u".toList], some "late".toList)) ∧
      bothViews (run stale) "k" =
        ((["u".toList], some "second".toList), some (["u".toList], some "first".toList)) ∧
      bothViews (run outside) "b" = ((["null".toList], some "kept".toList), some ([], none)) := by
  refine ⟨fun commits hc => ?_, by decide +kernel, by decide +kernel, by decide +kernel⟩
  refine (Run.created none).commitAll ?_
  fin_cases hc <;> decide +kernel

/-- A delete marker, a suspended bucket and a version that is deleted. -/
def orderly : List Commit :=
  [.put "k" none "a" (content "first") 10, .putVersioning "Enabled", .put "k" (some .enabled) "b"
    (content "second") 20,
    .delete "k" none "c" 30, .putVersioning "Suspended", .copy "k" "d" (content "third") 40,
    .deleteEntry "k" (some "b") "e" 50]

theorem restart_preserves_orderly : ∃ s, load byName ((run orderly).disk "k") = some s ∧
    listed s = listed ((run orderly).bucket.slot "k") ∧ live s = live ((run orderly).bucket.slot "k") :=
  restart_preserves paths byName (run orderly) ((Run.created none).commitAll (by decide +kernel)) "k"

end Example

end Fakecloud.S3

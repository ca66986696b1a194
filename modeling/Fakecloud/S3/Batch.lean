import Fakecloud.S3.History

/-!
# S3: deletes in a batch

`delete_objects` has the logic of `delete_object` a second time.  The two differ where a version id names no
version of a history: the single call leaves the current object alone, the batch derives it anew.

* `Deletes` — the bucket, the entries that were denied and the events, after some deletes;
* `batch_eq_calls_iff` — a batch is the sequence of its single calls, after each of its entries, exactly
  when such an id meets a current object that is what the history gives.
-/

namespace Fakecloud.S3

open Text List

structure ObjectEvent where
  eventName : Str
  key : Str
  versionId : Option Str
deriving DecidableEq

def deleteEvents (b : Bucket) (entry : DeleteEntry) : List ObjectEvent :=
  let s := b.slot entry.key
  match entry.versionId, b.versioning with
  | some vid, versioning =>
    let removed := match s.history with
      | some versions => versions.find? (vidMatches vid)
      | none => s.current.filter (vidMatches vid)
    -- an object with no version id is the null version once the bucket has been versioned
    removed.toList.map fun o =>
      ⟨"ObjectRemoved:Delete", entry.key, o.versionId.or (versioning.map fun _ => nullId)⟩
  | none, some versioning =>
    [⟨"ObjectRemoved:DeleteMarkerCreated", entry.key, newVersionId versioning entry.uuid⟩]
  | none, none => if s.current.isSome then [⟨"ObjectRemoved:Delete", entry.key, none⟩] else []

structure Deletes where
  bucket : Bucket
  /-- whether each entry so far was denied -/
  denied : List Bool := []
  events : List ObjectEvent := []

variable (now : ℤ) (bypass : Bool)

def Deletes.entry (d : Deletes) (entry : DeleteEntry) : Deletes :=
  if deleteDenied d.bucket entry.key entry.versionId now bypass then { d with denied := d.denied ++ [true] }
  else ⟨deleteEntry now bypass d.bucket entry, d.denied ++ [false], d.events ++ deleteEvents d.bucket entry⟩

def Deletes.call (d : Deletes) (entry : DeleteEntry) : Deletes :=
  match deleteObject d.bucket entry.key entry.versionId entry.uuid now bypass none with
  | .ok bucket => ⟨bucket, d.denied ++ [false], d.events ++ deleteEvents d.bucket entry⟩
  | .error _ => { d with denied := d.denied ++ [true] }

/-- `delete_objects` with its errors and events. -/
def deleteBatch (b : Bucket) (entries : List DeleteEntry) : Except ServiceError Deletes :=
  if entries.isEmpty ∨ 1000 < entries.length then .error malformedXml
  else .ok (entries.foldl (Deletes.entry now bypass) { bucket := b })

/-- A version id that no version has meets a current object that its history gives. -/
def Settled (b : Bucket) (entry : DeleteEntry) : Prop :=
  deleteDenied b entry.key entry.versionId now bypass = false →
    ∀ vid ∈ entry.versionId, ∀ versions ∈ (b.slot entry.key).history, (∀ o ∈ versions, !vidMatches vid o) →
      (b.slot entry.key).current = currentOf versions

variable {now bypass}

open Deletes

theorem bucket_foldl (entries : List DeleteEntry) (d : Deletes) :
    (entries.foldl (entry now bypass) d).bucket = entries.foldl (deleteEntry now bypass) d.bucket := by
  induction entries generalizing d with
  | nil => rfl
  | cons entry entries ih =>
    rw [foldl_cons, ih, foldl_cons, Deletes.entry, deleteEntry]
    split_ifs <;> rfl

theorem map_bucket_deleteBatch (b : Bucket) (entries : List DeleteEntry) :
    (deleteBatch now bypass b entries).map bucket = deleteObjects b entries now bypass := by
  rw [deleteBatch, deleteObjects]
  split_ifs
  · rfl
  · exact congrArg Except.ok (bucket_foldl ..)

theorem removeVersionBatch_eq_iff {vid : Str} {s : Slot} : removeVersionBatch vid s = removeVersion vid s ↔
      ∀ versions ∈ s.history, (∀ o ∈ versions, !vidMatches vid o) → s.current = currentOf versions := by
  rw [removeVersionBatch, removeVersion]
  rcases s.history with _ | versions
  · exact ⟨fun _ => by simp, fun _ => rfl⟩
  · simp only [Option.mem_def, Option.some.injEq, forall_eq', Slot.mk.injEq, and_true, ne_eq,
      length_filter_eq_length_iff]
    by_cases hno : ∀ o ∈ versions, !vidMatches vid o
    · rw [if_neg (not_not.mpr hno), filter_eq_self.mpr hno]
      exact ⟨fun h _ => h.symm, fun h => (h hno).symm⟩
    · rw [if_pos hno]
      exact ⟨fun _ h => absurd h hno, fun _ => rfl⟩

theorem setSlot_inj {b : Bucket} {key : Str} {s s' : Slot} : b.setSlot key s = b.setSlot key s' ↔ s = s' := by
  refine ⟨fun h => ?_, congrArg _⟩
  have hs := congrArg (Bucket.slot · key) h
  simpa only [slot_setSlot, if_true] using hs

theorem entry_eq_call_iff {d : Deletes} {entry : DeleteEntry} :
    d.entry now bypass entry = d.call now bypass entry ↔ Settled now bypass d.bucket entry := by
  rw [Deletes.call, deleteObject, Deletes.entry, deleteEntry, Settled]
  rcases hd : deleteDenied d.bucket entry.key entry.versionId now bypass with _ | _
  · change _ = mk (d.bucket.setSlot _ (deleteFrom removeVersion ..)) _ _ ↔ _
    simp only [Bool.false_eq_true, if_false, forall_const, mk.injEq, and_true, setSlot_inj]
    rcases entry.versionId with _ | vid
    · exact ⟨fun _ => by simp, fun _ => rfl⟩
    · simp only [Option.mem_def, Option.some.injEq, forall_eq']
      exact removeVersionBatch_eq_iff
  · exact ⟨fun _ => by simp, fun _ => rfl⟩

/-- Two ways of folding agree after every part of a list exactly when their steps agree along the first. -/
theorem foldl_eq_foldl_iff {σ α : Type} {f g : σ → α → σ} {s : σ} {l : List α} :
    (∀ part, part <+: l → part.foldl f s = part.foldl g s) ↔
      ∀ part a, part ++ [a] <+: l → f (part.foldl f s) a = g (part.foldl f s) a := by
  constructor
  · intro h part a hp
    have hn := h _ hp
    rwa [foldl_append, foldl_append, ← h part ((prefix_append ..).trans hp)] at hn
  · intro h part
    induction part using reverseRecOn with
    | nil => exact fun _ => rfl
    | append_singleton part a ih =>
      intro hp
      rw [foldl_append, foldl_append, ← ih ((prefix_append ..).trans hp)]
      exact h part a hp

/-- **A batch is the sequence of its deletes** in what it leaves, denies and reports, after every part of it,
exactly when every entry is settled. -/
theorem batch_eq_calls_iff (b : Bucket) (entries : List DeleteEntry) (hl : entries.length ≤ 1000) :
    (∀ part, part <+: entries → (deleteBatch now bypass b part).toOption.getD { bucket := b } =
      part.foldl (call now bypass) { bucket := b }) ↔
    ∀ part entry, part ++ [entry] <+: entries →
      Settled now bypass (part.foldl (deleteEntry now bypass) b) entry := by
  have hb (part : List DeleteEntry) (hp : part <+: entries) :
      (deleteBatch now bypass b part).toOption.getD { bucket := b } =
        part.foldl (entry now bypass) { bucket := b } := by
    have hle := hp.length_le.trans hl
    rcases part with _ | ⟨entry, part⟩
    · rfl
    · rw [deleteBatch, if_neg (by simpa using hle)]
      rfl
  rw [← forall₂_congr fun part hp => by rw [hb part hp], foldl_eq_foldl_iff]
  refine forall₃_congr fun part entry _ => ?_
  rw [entry_eq_call_iff, bucket_foldl]

namespace Example

def deleteVersion (vid : Str) : DeleteEntry := ⟨"k", some vid, "u4"⟩

/-- A batch takes the delete marker from the current objects, a single delete leaves it there. -/
theorem batch_unhides : let b := execAll digest emptyBucket events
    (deleteBatch 0 false b [deleteVersion "u9"]).toOption.map
      (fun d => (d.bucket.slot "k").current) = some none ∧
    (([deleteVersion "u9"].foldl (call 0 false) { bucket := b }).bucket.slot "k").current =
      some (makeDeleteMarker "u3") := by
  decide +kernel

/-- The null version and a version with an id of its own. -/
theorem batch_eq_calls_versions : let b := execAll digest emptyBucket events
    ∀ part, part <+: [deleteVersion nullId, deleteVersion "u2"] →
      (deleteBatch 0 false b part).toOption.getD { bucket := b } = part.foldl (call 0 false)
        { bucket := b } := by
  refine (batch_eq_calls_iff _ _ (by decide)).mpr fun part entry hp => ?_
  rcases part with _ | ⟨first, _ | ⟨second, part⟩⟩
  · obtain rfl : entry = deleteVersion nullId := by simpa using hp
    unfold Settled
    decide +kernel
  · obtain ⟨rfl, rfl⟩ : first = deleteVersion nullId ∧ entry = deleteVersion "u2" := by simpa using hp
    unfold Settled
    decide +kernel
  · simp at hp

end Example

end Fakecloud.S3

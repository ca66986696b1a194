import Fakecloud.S3.History
import Mathlib.Data.List.Sort

/-!
# S3: objects on disk

`DiskS3Store` keeps for each key a directory with two files for each version, named after the version id:
the metadata in a sidecar and the body.  The null version and an object without a version id share the name
`null`.  A request is committed under the write lock: it changes what memory holds for the key and the files
of the key.  `PutObject` and `CompleteMultipartUpload` read the clock and the versioning of the bucket
before they take the lock, `CopyObject` the clock only.

An object's time of modification stands beside the slot of its key here, by version id.  A directory goes by
the key that its name is made from.
-/

namespace Fakecloud.S3

open Text

/-! ## Files -/

structure Sidecar where
  object : Object
  lastModified : ℤ
deriving DecidableEq

structure Dir where
  sidecars : StrMap Sidecar := .empty
  bodies : StrMap Bytes := .empty

def withoutBody (o : Object) : Object := { o with body := [] }

def metaSnapshot (o : Object) (lastModified : ℤ) : Sidecar := ⟨withoutBody o, lastModified⟩

namespace Dir

variable (d : Dir)

/-- `put_object` and the end of `mpu_complete`: a delete marker has no body file. -/
def putObject (o : Object) (lastModified : ℤ) : Dir where
  sidecars := d.sidecars.insert (idOf o) (metaSnapshot o lastModified)
  bodies := if o.isDeleteMarker then d.bodies else d.bodies.insert (idOf o) o.body

def putObjectMeta (tag : Str) (sidecar : Sidecar) : Dir :=
    { d with sidecars := d.sidecars.insert tag sidecar }

def deleteObject (tag : Str) : Dir := ⟨d.sidecars.erase tag, d.bodies.erase tag⟩

end Dir

/-- How the operating system resolves the name of a version below the directory of a key: the directory and
the file that it leads to, when they are among the objects. -/
structure Paths where
  resolve : (key tag : Str) → Option (Str × Str)
  resolve_plain : ∀ key tag, '/' ∉ tag → resolve key tag = some (key, tag)

/-! ## Loading -/

structure ReadDir where
  list : StrMap Sidecar → List (Str × Sidecar)
  perm : ∀ m, (list m).Perm m.entries

def loadObject (d : Dir) (file : Str × Sidecar) : Object :=
  if file.2.object.isDeleteMarker then file.2.object
  else { file.2.object with body := (d.bodies.get file.1).getD [] }

/-- A current object from before versioning. -/
def isBare (file : Str × Sidecar) : Bool := file.1 == nullId && file.2.object.versionId.isNone

/-- The versions of a directory, by their time. -/
def loadVersions (R : ReadDir) (d : Dir) : List Object :=
  (((R.list d.sidecars).filter fun file => !isBare file).insertionSort
    fun a b => a.2.lastModified ≤ b.2.lastModified).map (loadObject d)

/-- `load`, for one key; `none` when a body is missing. -/
def load (R : ReadDir) (d : Dir) : Option Slot :=
  if (R.list d.sidecars).all fun file => file.2.object.isDeleteMarker || (d.bodies.get file.1).isSome then
    let versions := loadVersions R d
    if versions.isEmpty then some ⟨((R.list d.sidecars).find? isBare).map (loadObject d), none⟩
    else some ⟨currentOf versions, some versions⟩
  else none

/-! ## Commits -/

structure DiskBucket where
  bucket : Bucket
  /-- the time of the version of a key and an id -/
  times : Str → Str → ℤ
  disk : Str → Dir

inductive Commit
  /-- `put_object` and `complete_multipart_upload`, with the versioning that they have seen -/
  | put (key : Str) (seen : Option Versioning) (uuid : Str) (content : Object) (lastModified : ℤ)
  | copy (key uuid : Str) (content : Object) (lastModified : ℤ)
  | delete (key : Str) (versionId : Option Str) (uuid : Str) (now : ℤ)
  /-- an entry of `delete_objects` -/
  | deleteEntry (key : Str) (versionId : Option Str) (uuid : Str) (now : ℤ)
  | putVersioning (status : Str)

def newObject (versioning : Option Versioning) (uuid : Str) (content : Object) : Object :=
  { content with versionId := newVersionId versioning uuid, isDeleteMarker := false }

namespace DiskBucket

variable (w : DiskBucket)

def setTime (key id : Str) (t : ℤ) : Str → Str → ℤ :=
  Function.update w.times key (Function.update (w.times key) id t)

/-- The sidecar of a preserved null version. -/
def preserve (key : Str) (preserved : Option Object) : Dir :=
  preserved.elim (w.disk key) fun o =>
    (w.disk key).putObjectMeta nullId (metaSnapshot o (w.times key (idOf o)))

/-- The end of `put_object`, `copy_object` and `complete_multipart_upload`. -/
def store (key : Str) (versioning : Option Versioning) (obj : Object) (lastModified : ℤ) : DiskBucket :=
  let s := w.bucket.slot key
  let preserved := if versioning = some .enabled then nullVersionToPreserve s else none
  { bucket := w.bucket.setSlot key (storeObject versioning obj s)
    times := w.setTime key (idOf obj) lastModified
    disk := Function.update w.disk key ((w.preserve key preserved).putObject obj lastModified) }

/-- The object from before versioning that a delete marker preserves. -/
def underMarker (s : Slot) : Option Object :=
  if s.history.isNone then
    s.current.map fun existing => { existing with versionId := existing.versionId.or (some nullId) }
  else none

def markerFiles (key : Str) (versioning : Versioning) (uuid : Str) (now : ℤ) : Dir :=
  let preserved := w.preserve key (underMarker (w.bucket.slot key))
  match versioning with
  | .enabled => preserved.putObject (makeDeleteMarker uuid) now
  | .suspended => (preserved.deleteObject nullId).putObject (makeDeleteMarker nullId) now

/-- The files after a delete of a version: the version id goes into the path as it is. -/
def removeFile (P : Paths) (key vid : Str) : Str → Dir :=
  match P.resolve key vid with
  | some (dir, tag) => Function.update w.disk dir ((w.disk dir).deleteObject tag)
  | none => w.disk

/-- `delete_object` and an entry of `delete_objects`, after the checks. -/
def remove (P : Paths) (removeFrom : Str → Slot → Slot) (key : Str) (versionId : Option Str) (uuid : Str)
    (now : ℤ) : DiskBucket :=
  let bucket := w.bucket.setSlot key
    (deleteFrom removeFrom w.bucket.versioning uuid (w.bucket.slot key) versionId)
  match versionId, w.bucket.versioning with
  | some vid, _ => { w with bucket, disk := w.removeFile P key vid }
  | none, some versioning =>
    let id := if versioning = .enabled then uuid else nullId
    { bucket
      times := w.setTime key id now
      disk := Function.update w.disk key (w.markerFiles key versioning uuid now) }
  | none, none => { w with bucket, disk := Function.update w.disk key ((w.disk key).deleteObject nullId) }

def commit (P : Paths) : Commit → DiskBucket
  | .put key seen uuid content lastModified => w.store key seen (newObject seen uuid content) lastModified
  | .copy key uuid content lastModified =>
    w.store key w.bucket.versioning (newObject w.bucket.versioning uuid content) lastModified
  | .delete key versionId uuid now => w.remove P removeVersion key versionId uuid now
  | .deleteEntry key versionId uuid now => w.remove P removeVersionBatch key versionId uuid now
  | .putVersioning status =>
      { w with bucket := ((putBucketVersioning w.bucket status).toOption).getD w.bucket }

end DiskBucket

def DiskBucket.created (objectLockConfig : Option LockConfig) : DiskBucket where
  bucket := ⟨.empty, .empty, .empty, none, objectLockConfig⟩
  times _ _ := 0
  disk _ := {}

end Fakecloud.S3

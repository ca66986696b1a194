import Fakecloud.Lib.Bytes
import Fakecloud.Lib.Decimal
import Fakecloud.Lib.OrdMap

/-!
# S3: objects and their versions

A bucket holds the current object of each key and, once versioning has been configured, a history of each
key's versions.  A request changes what one key holds, its slot; the model has the requests as changes of a
slot.  Files of the store are their contents, and writing them does not fail; the replication to other buckets
is left out.
-/

namespace Fakecloud.S3

open Text

abbrev StrMap (β : Type) := OrdMap Str β compare

structure Object where
  etag : Str
  body : Bytes
  size : ℕ
  /-- The sizes of the parts by their numbers, of an object that was uploaded in parts. -/
  partSizes : Option (List (ℕ × ℕ))
  versionId : Option Str
  isDeleteMarker : Bool
  lockMode : Option Str
  lockRetainUntil : Option ℤ
  lockLegalHold : Option Str
deriving DecidableEq

inductive Versioning
  | enabled
  | suspended
deriving DecidableEq

structure UploadPart where
  etag : Str
  body : Bytes

structure MultipartUpload where
  key : Str
  parts : OrdMap ℕ UploadPart compare

/-- What an object-lock configuration says of the default retention. -/
structure LockConfig where
  mode : Option Str
  days : Option ℤ
  years : Option ℤ

structure Bucket where
  objects : StrMap Object
  objectVersions : StrMap (List Object)
  multipartUploads : StrMap MultipartUpload
  /-- `none` when versioning was never configured. -/
  versioning : Option Versioning
  objectLockConfig : Option LockConfig

structure ServiceError where
  code : Str
  message : Str
deriving DecidableEq

def noSuchKey : ServiceError := ⟨"NoSuchKey", "The specified key does not exist."⟩

def preconditionFailed : ServiceError :=
  ⟨"PreconditionFailed", "At least one of the pre-conditions you specified did not hold"⟩

def accessDenied : ServiceError := ⟨"AccessDenied", "Access Denied"⟩

def noSuchUpload : ServiceError := ⟨"NoSuchUpload",
  "The specified upload does not exist. The upload ID may be invalid, or the upload may have been aborted or completed."⟩

def malformedXml : ServiceError := ⟨"MalformedXML",
  "The XML you provided was not well-formed or did not validate against our published schema"⟩

/-! ## Slots -/

structure Slot where
  current : Option Object
  history : Option (List Object)
deriving DecidableEq

def Bucket.slot (b : Bucket) (key : Str) : Slot := ⟨b.objects.get key, b.objectVersions.get key⟩

def Bucket.setSlot (b : Bucket) (key : Str) (s : Slot) : Bucket :=
  { b with
    objects := b.objects.put key s.current
    objectVersions := b.objectVersions.put key s.history }

theorem slot_setSlot (b : Bucket) (key k : Str) (s : Slot) :
    (b.setSlot key s).slot k = if k = key then s else b.slot k := by
  rw [Bucket.slot, Bucket.setSlot, OrdMap.get_put, OrdMap.get_put]
  split_ifs <;> rfl

def nullId : Str := "null"

def isNullVersion (o : Object) : Bool := o.versionId = none ∨ o.versionId = some nullId

def vidMatches (vid : Str) (o : Object) : Bool :=
  o.versionId = some vid ∨ vid = nullId ∧ o.versionId = none

/-! ## Writing -/

/-- The current object as the null version, when the history has none. -/
def nullVersionToPreserve (s : Slot) : Option Object :=
  if (s.history.getD []).any isNullVersion then none
  else (s.current.filter isNullVersion).map fun o => { o with versionId := some nullId }

def recordPreservedNull (s : Slot) (preserved : Object) : Slot where
  current := s.current.map fun o => if o.versionId = none then { o with versionId := some nullId } else o
  history := some (s.history.getD [] ++ [preserved])

def replaceNullVersion (s : Slot) (obj : Object) : Slot :=
  { s with history := s.history.map fun versions => versions.filter (fun o => !isNullVersion o) ++ [obj] }

def newVersionId (versioning : Option Versioning) (uuid : Str) : Option Str :=
  match versioning with
  | some .enabled => some uuid
  | some .suspended => some nullId
  | none => none

/-- The end of `put_object`, `copy_object` and `complete_multipart_upload`: a new object takes its
place. -/
def storeObject (versioning : Option Versioning) (obj : Object) (s : Slot) : Slot :=
  match versioning with
  | some .enabled =>
    let s := match nullVersionToPreserve s with
      | some preserved => recordPreservedNull s preserved
      | none => s
    ⟨some obj, some (s.history.getD [] ++ [obj])⟩
  | some .suspended => { replaceNullVersion s obj with current := some obj }
  | none => { s with current := some obj }

def etagMatches (condition objEtag : Str) : Bool :=
  let condition := trim condition
  condition = ['*'] ∨ (condition.splitOn ',').any fun part =>
    (trim part).filter (· ≠ '"') = objEtag.filter (· ≠ '"')

/-- `If-Match` against the current object. -/
def checkIfMatch (current : Option Object) : Option Str → Except ServiceError Unit
  | none => .ok ()
  | some ifMatch =>
    match current with
    | none => .error noSuchKey
    | some existing =>
      if etagMatches ifMatch ('"' :: existing.etag ++ ['"']) then .ok () else .error preconditionFailed

/-- MD5 as it is used for entity tags. -/
structure Digest where
  md5Hex : Bytes → Str
  /-- The digest of the digests of the parts. -/
  md5OfParts : List Bytes → Str

structure PutRequest where
  ifMatch : Option Str
  ifNoneMatch : Option Str
  lockMode : Option Str
  /-- The retention date, `some none` when the header is there and holds none. -/
  lockRetainUntil : Option (Option ℤ)
  lockLegalHold : Option Str
  body : Bytes
  /-- What the checks of key length, ACL and tags answer. -/
  headersRefused : Option ServiceError
  /-- What the checks of digests, checksums, storage class and encryption answer. -/
  bodyRefused : Option ServiceError

def refuse : Option ServiceError → Except ServiceError Unit
  | some e => .error e
  | none => .ok ()

def failIf (c : Prop) [Decidable c] (e : ServiceError) : Except ServiceError Unit :=
  if c then .error e else .ok ()

/-- Mode and date of a new object: those of the request, or the default of the bucket.  A configuration is
range-checked when it is stored, so that the date exists. -/
def retention (config : Option LockConfig) (now : ℤ) (r : PutRequest) : Option Str × Option ℤ :=
  let given := (r.lockMode, r.lockRetainUntil.bind id)
  match given, config with
  | (none, none), some config =>
    match config.mode, config.days.or (config.years.map (· * 365)) with
    | some mode, some days => (some mode, some (now + days * 86400))
    | _, _ => given
  | _, _ => given

/-- `PutObject`: the bucket and the object stored. -/
def putObject (D : Digest) (b : Bucket) (key uuid : Str) (now : ℤ) (r : PutRequest) :
    Except ServiceError (Bucket × Object) := do
  let s := b.slot key
  refuse r.headersRefused
  checkIfMatch s.current r.ifMatch
  failIf (r.ifNoneMatch.any (fun inm => trim inm = ['*']) ∧ s.current.isSome) preconditionFailed
  failIf ((r.lockMode.isSome ∨ r.lockRetainUntil.isSome ∨ r.lockLegalHold.isSome) ∧
      b.objectLockConfig.isNone)
    ⟨"InvalidRequest", "Bucket is missing ObjectLockConfiguration"⟩
  refuse r.bodyRefused
  let lock := retention b.objectLockConfig now r
  let obj : Object := ⟨D.md5Hex r.body, r.body, r.body.length, none, newVersionId b.versioning uuid, false,
    lock.1, lock.2, r.lockLegalHold⟩
  .ok (b.setSlot key (storeObject b.versioning obj s), obj)

/-! ## Reading -/

def findVersion (s : Slot) (vid : Str) : Option Object :=
  let versions := s.history.getD []
  if vid = nullId then
    -- a live null version wins over a null delete marker
    (((versions.find? fun o => isNullVersion o && !o.isDeleteMarker).or
      (s.current.filter fun o => isNullVersion o && !o.isDeleteMarker)).or
      (versions.find? isNullVersion)).or (s.current.filter isNullVersion)
  else
    (versions.find? fun o => o.versionId = some vid).or
      (s.current.filter fun o => o.versionId = some vid)

def resolveObject (b : Bucket) (key : Str) : Option Str → Except ServiceError Object
  | none => match (b.slot key).current with
    | some o => .ok o
    | none => .error noSuchKey
  | some vid => match findVersion (b.slot key) vid with
    | some o => .ok o
    | none =>
      if b.versioning.isSome then .error ⟨"NoSuchVersion", "The specified version does not exist."⟩
      else .error ⟨"InvalidArgument", "Invalid version id specified"⟩

/-! ## Copying -/

/-- The source of a copy: an object of the bucket, or what another bucket answers. -/
inductive CopyFrom
  | here (key : Str) (versionId : Option Str)
  | elsewhere (source : Except ServiceError Object)

structure CopyRequest where
  source : CopyFrom
  sourceIfMatch : Option Str
  sourceIfNoneMatch : Option Str
  /-- What the checks of storage class and ACL answer. -/
  headersRefused : Option ServiceError
  /-- What the checks of dates, of a copy onto itself, of tags and encryption answer; a source that is
  archived is refused here too. -/
  sourceRefused : Option ServiceError

def copySource (b : Bucket) : CopyFrom → Except ServiceError Object
  | .here key versionId => resolveObject b key versionId
  | .elsewhere source => source

/-- `CopyObject` into a bucket; locks are not copied. -/
def copyObject (b : Bucket) (key uuid : Str) (r : CopyRequest) : Except ServiceError (Bucket × Object) := do
  refuse r.headersRefused
  let source ← copySource b r.source
  failIf source.isDeleteMarker noSuchKey
  let quoted := '"' :: source.etag ++ ['"']
  failIf (r.sourceIfMatch.any fun im => !etagMatches im quoted) preconditionFailed
  failIf (r.sourceIfNoneMatch.any fun inm => etagMatches inm quoted) preconditionFailed
  refuse r.sourceRefused
  let obj : Object := ⟨source.etag, source.body, source.body.length, source.partSizes,
    newVersionId b.versioning uuid, false, none, none, none⟩
  .ok (b.setSlot key (storeObject b.versioning obj (b.slot key)), obj)

/-! ## Multipart uploads -/

def invalidPart : ServiceError := ⟨"InvalidPart",
  "One or more of the specified parts could not be found. The part may not have been uploaded, or the specified entity tag may not have matched the part's entity tag."⟩

/-- The answer to a part whose bytes are no longer those of its entity tag. -/
def changedPart : ServiceError := ⟨"InvalidPart",
  "One or more of the specified parts could not be found. The part may not have been uploaded, or the specified entity tag may not have matched the part's etag."⟩

def missingPart : ServiceError := ⟨"InvalidPart", "One or more of the specified parts could not be found."⟩

def createMultipartUpload (b : Bucket) (key uploadId : Str) : Bucket :=
  { b with multipartUploads := b.multipartUploads.insert uploadId ⟨key, .empty⟩ }

def uploadPart (D : Digest) (b : Bucket) (key uploadId : Str) (partNumber : ℕ) (body : Bytes) :
    Except ServiceError Bucket :=
  if partNumber < 1 ∨ 10000 < partNumber then
    .error ⟨"InvalidArgument", "Part number must be an integer between 1 and 10000, inclusive"⟩
  else
    match b.multipartUploads.get uploadId with
    | none => .error noSuchUpload
    | some upload =>
      if upload.key ≠ key then .error noSuchUpload
      else
        let upload := { upload with parts := upload.parts.insert partNumber ⟨D.md5Hex body, body⟩ }
        .ok { b with multipartUploads := b.multipartUploads.insert uploadId upload }

def minPartSize : ℕ := 5 * 1024 * 1024

/-- The parts that a completion names, with their bodies. -/
def assembleParts (D : Digest) (upload : MultipartUpload) (submitted : List (ℕ × Str)) :
    Except ServiceError (List (ℕ × Bytes)) := do
  failIf (¬submitted.IsChain fun p q => p.1 < q.1) ⟨"InvalidPartOrder",
    "The list of parts was not in ascending order. The parts list must be specified in order by part number."⟩
  failIf (submitted.any fun p => (upload.parts.get p.1).isNone) invalidPart
  failIf (submitted.dropLast.any fun p =>
      (upload.parts.get p.1).any fun part => part.body.length < minPartSize)
    ⟨"EntityTooSmall", "Your proposed upload is smaller than the minimum allowed object size."⟩
  submitted.mapM fun p =>
    match upload.parts.get p.1 with
    | none => .error missingPart
    | some part =>
      if p.2 ≠ part.etag then .error invalidPart
      else if D.md5Hex part.body ≠ part.etag then .error changedPart
      else .ok (p.1, part.body)

/-- `CompleteMultipartUpload`; a completion that has happened answers again and stores nothing. -/
def completeMultipartUpload (D : Digest) (b : Bucket) (key uploadId uuid : Str)
    (ifNoneMatch : Option Str) (submitted : List (ℕ × Str)) :
    Except ServiceError (Bucket × Option Object) := do
  let s := b.slot key
  failIf submitted.isEmpty malformedXml
  match b.multipartUploads.get uploadId with
  | none => if s.current.isSome then .ok (b, none) else .error noSuchUpload
  | some upload =>
    failIf (upload.key ≠ key) noSuchUpload
    failIf (ifNoneMatch = some ['*'] ∧ s.current.isSome) preconditionFailed
    let parts ← assembleParts D upload submitted
    let data := parts.flatMap Prod.snd
    let obj : Object := ⟨D.md5OfParts (parts.map Prod.snd) ++ '-' :: decimalText submitted.length, data,
      data.length, some (parts.map fun part => (part.1, part.2.length)),
        newVersionId b.versioning uuid, false,
      none, none, none⟩
    .ok ({ b.setSlot key (storeObject b.versioning obj s) with
      multipartUploads := b.multipartUploads.erase uploadId }, some obj)

/-! ## Deleting -/

/-- `check_object_lock_for_overwrite`: legal hold, or a retention that has not ended. -/
def lockDenies (now : ℤ) (bypass : Bool) (o : Object) : Bool :=
  o.lockLegalHold = some "ON".toList ||
    match o.lockMode, o.lockRetainUntil with
    | some mode, some retainUntil => retainUntil > now &&
        (mode = "COMPLIANCE".toList || mode = "GOVERNANCE".toList && !bypass)
    | _, _ => false

/-- A version that may not be deleted. -/
def versionLocked (s : Slot) (vid : Str) (now : ℤ) (bypass : Bool) : Bool :=
  (((s.history.getD []).find? fun o => o.versionId = some vid).or
    (s.current.filter (vidMatches vid))).any fun o => !o.isDeleteMarker && lockDenies now bypass o

/-- The current object after the last entry of a history. -/
def currentOf (versions : List Object) : Option Object :=
  versions.getLast?.filter fun latest => !latest.isDeleteMarker

def historyOf (versions : List Object) : Option (List Object) :=
  if versions.isEmpty then none else some versions

/-- A version taken off; the current object is derived anew when one was. -/
def removeVersion (vid : Str) (s : Slot) : Slot :=
  match s.history with
  | some versions =>
    let rest := versions.filter fun o => !vidMatches vid o
    ⟨if rest.length ≠ versions.length then currentOf rest else s.current, historyOf rest⟩
  | none => if s.current.any (vidMatches vid) then ⟨none, none⟩ else s

/-- The same in a batch, where the current object is derived anew in any case. -/
def removeVersionBatch (vid : Str) (s : Slot) : Slot :=
  match s.history with
  | some versions =>
    let rest := versions.filter fun o => !vidMatches vid o
    ⟨currentOf rest, historyOf rest⟩
  | none => if s.current.any (vidMatches vid) then ⟨none, none⟩ else s

/-- What a delete without a version id destroys. -/
def lockTarget (versioning : Option Versioning) (s : Slot) : Option Object :=
  let liveNull (o : Object) : Bool := isNullVersion o && !o.isDeleteMarker
  match versioning with
  | none => s.current.filter fun o => !o.isDeleteMarker
  | some .suspended => ((s.history.getD []).find? liveNull).or (s.current.filter liveNull)
  | some .enabled => none

def makeDeleteMarker (id : Str) : Object := ⟨[], [], 0, none, some id, true, none, none, none⟩

/-- A delete marker on top; an object from before versioning becomes the null version first. -/
def insertMarker (versioning : Versioning) (uuid : Str) (s : Slot) : Slot :=
  let preserved : Option (List Object) :=
    s.history.or (s.current.map fun existing =>
      [{ existing with versionId := existing.versionId.or (some nullId) }])
  match versioning with
  | .enabled =>
    let marker := makeDeleteMarker uuid
    ⟨some marker, some (preserved.getD [] ++ [marker])⟩
  | .suspended =>
    let marker := makeDeleteMarker nullId
    ⟨some marker, some ((preserved.getD []).filter (fun o => !isNullVersion o) ++ [marker])⟩

/-- A delete without a version id, after the lock check. -/
def deleteCurrent (versioning : Option Versioning) (uuid : Str) (s : Slot) : Slot :=
  match versioning with
  | some v => insertMarker v uuid s
  | none => { s with current := none }

/-- Whether the object lock refuses a delete. -/
def deleteDenied (b : Bucket) (key : Str) (versionId : Option Str) (now : ℤ) (bypass : Bool) : Bool :=
  match versionId with
  | some vid => versionLocked (b.slot key) vid now bypass
  | none => (lockTarget b.versioning (b.slot key)).any (lockDenies now bypass)

def deleteFrom (remove : Str → Slot → Slot) (versioning : Option Versioning) (uuid : Str) (s : Slot) :
    Option Str → Slot
  | some vid => remove vid s
  | none => deleteCurrent versioning uuid s

def deleteObject (b : Bucket) (key : Str) (versionId : Option Str) (uuid : Str) (now : ℤ)
    (bypass : Bool) (ifMatch : Option Str) : Except ServiceError Bucket := do
  let s := b.slot key
  checkIfMatch s.current ifMatch
  failIf (deleteDenied b key versionId now bypass) accessDenied
  .ok (b.setSlot key (deleteFrom removeVersion b.versioning uuid s versionId))

structure DeleteEntry where
  key : Str
  versionId : Option Str
  uuid : Str

/-- One entry of `DeleteObjects`: an entry that is denied leaves the bucket as it is. -/
def deleteEntry (now : ℤ) (bypass : Bool) (b : Bucket) (entry : DeleteEntry) : Bucket :=
  if deleteDenied b entry.key entry.versionId now bypass then b
  else b.setSlot entry.key
    (deleteFrom removeVersionBatch b.versioning entry.uuid (b.slot entry.key) entry.versionId)

def deleteObjects (b : Bucket) (entries : List DeleteEntry) (now : ℤ) (bypass : Bool) :
    Except ServiceError Bucket :=
  if entries.isEmpty ∨ 1000 < entries.length then .error malformedXml
  else .ok (entries.foldl (deleteEntry now bypass) b)

/-! ## Versioning -/

def putBucketVersioning (b : Bucket) (status : Str) : Except ServiceError Bucket :=
  if status = "Suspended" ∧ b.objectLockConfig.isSome then
    .error ⟨"InvalidBucketState",
      "An Object Lock configuration is present on this bucket, so the versioning state cannot be changed."⟩
  else if status = "Enabled" then .ok { b with versioning := some .enabled }
  else if status = "Suspended" then .ok { b with versioning := some .suspended }
  else .ok b

/-! ## Runs -/

/-- The requests that touch objects; a `uuid` is the version id that is drawn for the request. -/
inductive Request
  | put (key uuid : Str) (r : PutRequest)
  | copy (key uuid : Str) (r : CopyRequest)
  | createUpload (key uploadId : Str)
  | uploadPart (key uploadId : Str) (partNumber : ℕ) (body : Bytes)
  | complete (key uploadId uuid : Str) (ifNoneMatch : Option Str) (submitted : List (ℕ × Str))
  | delete (key : Str) (versionId : Option Str) (uuid : Str) (bypass : Bool) (ifMatch : Option Str)
  | deleteMany (entries : List DeleteEntry) (bypass : Bool)
  | putVersioning (status : Str)

structure Event where
  now : ℤ
  request : Request

def step (D : Digest) (b : Bucket) (e : Event) : Except ServiceError Bucket :=
  match e.request with
  | .put key uuid r => (putObject D b key uuid e.now r).map Prod.fst
  | .copy key uuid r => (copyObject b key uuid r).map Prod.fst
  | .createUpload key uploadId => .ok (createMultipartUpload b key uploadId)
  | .uploadPart key uploadId partNumber body => uploadPart D b key uploadId partNumber body
  | .complete key uploadId uuid ifNoneMatch submitted =>
    (completeMultipartUpload D b key uploadId uuid ifNoneMatch submitted).map Prod.fst
  | .delete key versionId uuid bypass ifMatch =>
    deleteObject b key versionId uuid e.now bypass ifMatch
  | .deleteMany entries bypass => deleteObjects b entries e.now bypass
  | .putVersioning status => putBucketVersioning b status

/-- A request that is refused leaves the bucket as it is. -/
def exec (D : Digest) (b : Bucket) (e : Event) : Bucket :=
  match step D b e with
  | .ok b' => b'
  | .error _ => b

def execAll (D : Digest) (b : Bucket) (events : List Event) : Bucket := events.foldl (exec D) b

end Fakecloud.S3

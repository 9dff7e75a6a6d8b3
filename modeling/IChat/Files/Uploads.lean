import Mathlib.Algebra.GroupWithZero.Nat
import IChat.Files.Deletions
import IChat.General.Text

/-!
# The transactions of an upload

`create_upload`, `confirm_upload` and `cancel_uploads` of `service.py`, and the transactions of a
processing attempt in `processing.py`: the claim, the write manifest, the error and the final
commit. A transaction is a function of the database that fails (`Except`) where the code raises
and the session rolls back; the rows it locks are the ones it reads and writes.

What the object store answers to a transaction is a parameter of it. `createAvatarUpload` and
`moveAvatarUpload` are what `avatar.py` does to `file_uploads`; the avatar assets are a table of
their own and are left out.
-/

namespace IChat.Files

/-- The answer to a `HEAD` of an object. -/
structure StorageObjectMetadata where
  sizeBytes : ℕ
  contentType : List Char
  etag : List Char
  declaredSizeBytes : Option ℕ

/-- `etag.strip().strip('"')`. -/
def normalizeEtag (etag : List Char) : List Char :=
  Text.stripChars (· = Char.ofNat 34) (Text.strip etag)

/-- `content_type.split(";", 1)[0].strip().lower()`. -/
def normalizeContentType (contentType : List Char) : List Char :=
  (Text.strip (contentType.takeWhile (· ≠ ';'))).map Char.toLower

/-- The etag that a request to confirm an upload carries: a single upload has one, a multipart
upload has the numbers of all its parts instead. -/
def requestedEtag (upload : FileUpload) (etag : Option (List Char)) (parts : Option (List ℕ)) :
    Except FileError (Option (List Char)) :=
  match upload.multipartPartSizeBytes, etag, parts with
  | none, some etag, none => .ok (some (normalizeEtag etag))
  | some partSize, none, some parts =>
    let partSize := if partSize = 0 then 1 else partSize
    let expectedCount := (upload.declaredSizeBytes + partSize - 1) / partSize
    if parts ≠ List.range' 1 expectedCount then .error invalidUpload else .ok none
  | _, _, _ => .error invalidUpload

namespace FileDb

/-- The upload is an attachment that holds a reservation of the user. -/
def HoldsReservation (userId : ℕ) (upload : FileUpload) : Prop :=
  upload.userId = userId ∧ upload.purpose = .messageAttachment ∧ upload.status.isActive = true

instance (userId : ℕ) (upload : FileUpload) : Decidable (HoldsReservation userId upload) :=
  inferInstanceAs (Decidable (_ ∧ _ ∧ _))

/-- `create_upload`. -/
def createUpload (s : Settings) (userId : ℕ) (originalFilename : String) (origin : FileOrigin)
    (contentType : List Char) (sizeBytes : ℕ) (multipartSupported : Bool) (now : ℕ) (db : FileDb) :
    Except FileError FileDb :=
  if db.isActiveUser userId = false then .error inactiveUser
  else if s.maxInflightUploads ≤ (db.uploads.rows.filter (HoldsReservation userId ·)).length then
    .error tooManyInflight
  else
    let quota := db.quotas userId
    if quota.usedBytes + quota.reservedBytes + sizeBytes > s.quotaBytes then .error quotaExceeded
    else
      let db := db.setQuota userId { quota with reservedBytes := quota.reservedBytes + sizeBytes }
      .ok { db with
        uploads := db.uploads.insert
          (fun id =>
            { id
              userId
              purpose := .messageAttachment
              originalFilename
              origin
              declaredContentType := normalizeContentType contentType
              declaredSizeBytes := sizeBytes
              multipartPartSizeBytes :=
                if multipartSupported ∧ s.multipartThresholdBytes ≤ sizeBytes then
                  some s.multipartPartSizeBytes
                else none
              confirmedEtag := none
              status := .pending
              attemptCount := 0
              availableAt := now
              leaseOwner := none
              leaseExpiresAt := none
              errorCode := none
              expiresAt := now + s.uploadSessionTtlSeconds
              queuedAt := none
              claimedAt := none
              completedAt := none
              outputManifest := none
              fileId := none
              stagingDeletedAt := none })
          fun _ => rfl }

/-- `create_avatar_upload`: the active avatar uploads of the user are superseded, and no quota is
reserved. -/
def createAvatarUpload (s : Settings) (userId : ℕ) (originalFilename : String)
    (contentType : List Char) (sizeBytes : ℕ) (now : ℕ) (db : FileDb) : Except FileError FileDb :=
  if db.isActiveUser userId = false then .error inactiveUser
  else
    let superseded := db.uploads.rows.filter fun u =>
      u.userId = userId ∧ u.purpose = .avatar ∧ u.status.isActive = true
    let uploads := superseded.foldl (fun uploads u =>
      uploads.set (u.moved .cancelled now (some "superseded"))) db.uploads
    .ok { db with
      uploads := uploads.insert
        (fun id =>
          { id
            userId
            purpose := .avatar
            originalFilename
            origin := .upload
            declaredContentType := contentType
            declaredSizeBytes := sizeBytes
            multipartPartSizeBytes := none
            confirmedEtag := none
            status := .pending
            attemptCount := 0
            availableAt := now
            leaseOwner := none
            leaseExpiresAt := none
            errorCode := none
            expiresAt := now + s.avatarSessionTtlSeconds
            queuedAt := none
            claimedAt := none
            completedAt := none
            outputManifest := none
            fileId := none
            stagingDeletedAt := none })
        fun _ => rfl }

/-- The transitions that `avatar.py` makes (confirmation, claim, error, success, sweep). Their
manifests, leases and assets concern avatars only and are left out. -/
def moveAvatarUpload (uploadId : ℕ) (target : FileUploadStatus) (now : ℕ)
    (errorCode : Option String) (db : FileDb) : Except FileError FileDb :=
  match db.uploads.get? uploadId with
  | none => .error .noRow
  | some upload =>
    if upload.purpose ≠ .avatar then .error .noRow
    else do
      let moved ← transitionUpload upload target now errorCode
      .ok (db.setUpload moved)

/-- `confirm_upload`. The metadata is the answer of the object store, if it gives one. -/
def confirmUpload (userId uploadId : ℕ) (etag : Option (List Char)) (parts : Option (List ℕ))
    (metadata : Option StorageObjectMetadata) (now : ℕ) (db : FileDb) : Except FileError FileDb :=
  match db.uploads.get? uploadId with
  | none => .error uploadNotFound
  | some upload =>
    if upload.userId ≠ userId then .error uploadNotFound
    else do
      let normalizedEtag ← requestedEtag upload etag parts
      if upload.status ≠ .pending then
        if normalizedEtag ≠ none ∧ upload.confirmedEtag ≠ none ∧
            upload.confirmedEtag ≠ normalizedEtag then
          .error confirmedUploadReplaced
        else .ok db
      else if upload.expiresAt ≤ now then
        -- the purpose of the upload is not looked at
        let moved ← transitionUpload upload .expired now (some "upload_expired")
        .ok ((db.releaseReservedBytes userId upload.declaredSizeBytes).setUpload moved)
      else
        match metadata with
        | none => .error invalidUpload
        | some metadata =>
          let normalizedEtag := normalizedEtag.getD (normalizeEtag metadata.etag)
          if metadata.sizeBytes ≠ upload.declaredSizeBytes ∨
              metadata.declaredSizeBytes ≠ some upload.declaredSizeBytes ∨
              normalizeContentType metadata.contentType ≠ upload.declaredContentType ∨
              normalizeEtag metadata.etag ≠ normalizedEtag then
            .error invalidUpload
          else
            let moved ← transitionUpload { upload with confirmedEtag := some normalizedEtag }
              .queued now none
            .ok (db.setUpload moved)

/-- The asset of an upload that has succeeded, if it is still there. -/
def succeededAsset (db : FileDb) (upload : FileUpload) : Option FileAsset :=
  if upload.status = .succeeded then upload.fileId.bind db.files.get? else none

/-- What `cancel_uploads` does to one upload. -/
def cancelUpload (now : ℕ) (db : FileDb) (upload : FileUpload) : Except FileError FileDb :=
  if upload.status = .succeeded then
    match db.succeededAsset upload with
    | some file =>
      if file.deletionStartedAt = none then db.beginAssetDeletion file now else .ok db
    | none => .ok db
  else if upload.status.isActive = true then do
    let moved ← transitionUpload upload .cancelled now (some "upload_cancelled")
    .ok (db.setUpload moved)
  else .ok db

/-- `cancel_uploads`: one reservation is released for all the active uploads of the request. -/
def cancelUploads (userId : ℕ) (uploadIds : List ℕ) (now : ℕ) (db : FileDb) :
    Except FileError FileDb :=
  let uploads := db.uploads.rows.filter fun u => u.id ∈ uploadIds ∧ u.userId = userId
  if uploads.length ≠ uploadIds.length then .error uploadNotFound
  else
    let ordered := uploadIds.filterMap fun uploadId => uploads.find? fun u => u.id = uploadId
    if ∃ u ∈ ordered, ∃ file ∈ db.succeededAsset u, file.boundAt ≠ none then
      .error boundAttachmentCancelled
    else
      let active := ordered.filter fun u => u.status.isActive
      let db :=
        if active = [] then db
        else db.releaseReservedBytes userId ((active.map FileUpload.declaredSizeBytes).sum : ℕ)
      ordered.foldlM (cancelUpload now) db

/-! ### Processing -/

/-- The claim of `process_upload`: the task becomes the owner of the lease. -/
def claimUpload (s : Settings) (owner uploadId now : ℕ) (db : FileDb) :
    Except FileError (FileDb × FileUpload) :=
  match db.uploads.get? uploadId with
  | none => .error .noRow
  | some upload =>
    if upload.purpose ≠ .messageAttachment ∨ upload.status ≠ .queued ∨ now < upload.availableAt ∨
        db.isActiveUser upload.userId = false ∨ upload.confirmedEtag = none then
      .error .noRow
    else do
      let moved ← transitionUpload upload .processing now none
      let claimed :=
        { moved with
          attemptCount := upload.attemptCount + 1
          leaseOwner := some owner
          leaseExpiresAt := some (now + s.processingLeaseSeconds) }
      .ok (db.setUpload claimed, claimed)

/-- `_persist_manifest`. -/
def persistManifest (uploadId owner : ℕ) (manifest : List ManifestEntry) (db : FileDb) :
    Except FileError FileDb :=
  match db.uploads.get? uploadId with
  | none => .error (.processing "upload_cancelled")
  | some upload =>
    if upload.status ≠ .processing ∨ upload.leaseOwner ≠ some owner then
      .error (.processing "upload_cancelled")
    else if upload.outputManifest ≠ none ∧ upload.outputManifest ≠ some manifest then
      .error (.processing "manifest_conflict")
    else .ok (db.setUpload { upload with outputManifest := some manifest })

/-- `retry_available_at`: three attempts in all, after 30 seconds and after five minutes. -/
def retryAvailableAt (attemptCount now : ℕ) : ℕ := now + if attemptCount ≤ 1 then 30 else 300

/-- `_finish_error`. A task that is no longer the owner changes nothing. -/
def finishError (s : Settings) (uploadId owner : ℕ) (code : String) (retryable : Bool)
    (attemptCount now : ℕ) (db : FileDb) : Except FileError FileDb :=
  match db.uploads.get? uploadId with
  | none => .ok db
  | some upload =>
    if upload.status ≠ .processing ∨ upload.leaseOwner ≠ some owner then .ok db
    else if retryable ∧ attemptCount < s.processingMaxAttempts then do
      let moved ← transitionUpload upload .queued now none
      .ok (db.setUpload
        { moved with availableAt := retryAvailableAt attemptCount now, errorCode := none })
    else do
      let target := if retryable then .failed else .rejected
      let moved ← transitionUpload upload target now (some code)
      .ok (((db.setUpload moved).releaseReservation moved).enqueueManifestDeletions moved now)

/-- The rows of `file_objects` of a new asset, one for each entry of the manifest. -/
def insertObjects (fileId : ℕ) (manifest : List ManifestEntry)
    (objects : Table FileObject FileObject.id) : Table FileObject FileObject.id :=
  manifest.foldl (fun objects entry => objects.insert
    (fun id =>
      { id
        fileId
        role := entry.role
        storageLocation := entry.storageLocation
        objectKey := entry.objectKey
        mediaType := entry.mediaType
        sizeBytes := entry.sizeBytes
        sha256 := some entry.sha256 })
    fun _ => rfl) objects

/-- What `_commit_success` writes to `files` of a processed file. -/
structure ProcessedColumns where
  mediaType : String
  originalSizeBytes : ℕ
  sha256 : String
  warnings : List String
  extractorVersion : String
  summaryMetadata : Dict
  documentText : Option String
  modelInputKind : Option FileModelInputKind
  deriving DecidableEq

/-- `_commit_success`. A task that is no longer the owner enqueues the deletion of what it may
have written. -/
def commitSuccess (s : Settings) (uploadId owner : ℕ) (processed : ProcessedColumns)
    (manifest : List ManifestEntry) (now : ℕ) (db : FileDb) : Except FileError FileDb :=
  match db.uploads.get? uploadId with
  | none => .ok db
  | some upload =>
    if upload.status ≠ .processing ∨ upload.leaseOwner ≠ some owner ∨
        db.isActiveUser upload.userId = false then
      let db := db.enqueueManifestDeletions upload now
      if upload.status = .processing ∧ upload.leaseOwner = some owner then do
        let code := if db.isActiveUser upload.userId then "upload_cancelled" else "account_inactive"
        let moved ← transitionUpload upload .cancelled now (some code)
        .ok ((db.setUpload moved).releaseReservation moved)
      else .ok db
    else do
      let fileId := db.files.next
      let files := db.files.insert
        (fun id =>
          { id
            userId := upload.userId
            purpose := upload.purpose
            originalFilename := upload.originalFilename
            mediaType := processed.mediaType
            sizeBytes := processed.originalSizeBytes
            sha256 := some processed.sha256
            warnings := processed.warnings
            extractorVersion := some processed.extractorVersion
            summaryMetadata := some processed.summaryMetadata
            documentText := processed.documentText
            modelInputKind := processed.modelInputKind
            origin := upload.origin
            unboundExpiresAt := some (now + s.unboundTtlSeconds)
            sourceMessageId := none
            boundAt := none
            detachedAt := none
            deletionStartedAt := none })
        fun _ => rfl
      let quota := db.quotas upload.userId
      let db := { db with files, objects := insertObjects fileId manifest db.objects }
      let db := db.setQuota upload.userId
        { usedBytes := quota.usedBytes + processed.originalSizeBytes
          reservedBytes := max 0 (quota.reservedBytes - upload.declaredSizeBytes) }
      let moved ← transitionUpload { upload with fileId := some fileId } .succeeded now none
      .ok (db.setUpload moved)

/-- After the staging object of an upload is deleted. -/
def recordStagingDeleted (uploadId now : ℕ) (db : FileDb) : Except FileError FileDb :=
  match db.uploads.get? uploadId with
  | none => .ok db
  | some upload => .ok (db.setUpload { upload with stagingDeletedAt := some now })

end FileDb

end IChat.Files

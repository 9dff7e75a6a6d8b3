import IChat.Files.Maintenance
import IChat.General.StepSystem

/-!
# Avatars

`avatar.py`: uploads whose asset becomes the picture of a user. Any number of processing attempts
run next to the sweep, to a take-down and to the deactivation of the account; each of their
transactions is a function of the database, and what an attempt keeps between two of them is an
`AvatarAttempt`.

Two transactions do not see the newest version of a row, because the session has read the row
before it locks it and keeps the attributes it has: `_commit_avatar_success` has read the upload
before it waits for the user, and `take_down_user_avatar` gets a user from its caller. A session
then writes the columns that differ from what it has read (`writtenColumn`), under the key of the
row.

A public object key is the number of its `uuid4`, and those are handed out in order. The world also
records what the code keeps no record of: for which upload a key was generated.
-/

namespace IChat.Files

/-- `Settings`, as far as `avatar.py` reads it. -/
structure AvatarSettings extends Settings where
  avatarProcessingLeaseSeconds : ℕ
  avatarProcessingMaxAttempts : ℕ

/-- The defaults of `app/core/config.py`. -/
def AvatarSettings.default : AvatarSettings where
  toSettings := .default
  avatarProcessingLeaseSeconds := 300
  avatarProcessingMaxAttempts := 3

/-- The avatar columns of a row of `users`. -/
structure UserAvatar where
  avatarFileId : Option ℕ
  avatarObjectKey : Option ℕ
  deriving DecidableEq

/-- The tables of the files domain, with the avatar columns of the users. -/
structure AvatarDb extends FileDb where
  avatars : ℕ → UserAvatar

/-- What a processing attempt answers. -/
inductive AvatarResult
  | missing | succeeded | notClaimable | retry | failed | rejected | cancelled | orphaned
  deriving DecidableEq

/-- What a render gives: the size and the hash of the picture. -/
structure RenderedAvatar where
  sizeBytes : ℕ
  sha256 : String

def avatarUploadNotFound : FileError := .appError 404 "Avatar upload was not found"
def invalidAvatarUpload : FileError := .appError 400 "Avatar upload could not be verified"

/-- `ALLOWED_UPLOAD_CONTENT_TYPES`. -/
def allowedAvatarContentTypes : List (List Char) :=
  ["image/webp".toList, "image/png".toList, "image/jpeg".toList]

/-- A column is written when the session has changed what it has read. -/
def writtenColumn {α : Type} [DecidableEq α] (seen new row : α) : α :=
  if new = seen then row else new

/-- The row after a session that has read `seen` writes `new`. -/
def FileUpload.written (row seen new : FileUpload) : FileUpload :=
  { row with
    status := writtenColumn seen.status new.status row.status
    errorCode := writtenColumn seen.errorCode new.errorCode row.errorCode
    queuedAt := writtenColumn seen.queuedAt new.queuedAt row.queuedAt
    availableAt := writtenColumn seen.availableAt new.availableAt row.availableAt
    leaseOwner := writtenColumn seen.leaseOwner new.leaseOwner row.leaseOwner
    leaseExpiresAt := writtenColumn seen.leaseExpiresAt new.leaseExpiresAt row.leaseExpiresAt
    claimedAt := writtenColumn seen.claimedAt new.claimedAt row.claimedAt
    completedAt := writtenColumn seen.completedAt new.completedAt row.completedAt
    fileId := writtenColumn seen.fileId new.fileId row.fileId }

/-- The targets of the write manifest of an avatar upload. -/
def FileUpload.avatarTargets (upload : FileUpload) : List DeletionTarget :=
  (upload.entries.filter fun entry => entry.role = .avatar512).map fun entry =>
    ⟨none, .avatarPublic, entry.objectKey⟩

/-- The manifest of an attempt: the one the upload has, or a new one. -/
def avatarManifest (existing : List ManifestEntry) (objectKey : ℕ) (rendered : RenderedAvatar) :
    List ManifestEntry :=
  if existing = [] then
    [{ role := .avatar512
       objectKey
       mediaType := "image/webp"
       sizeBytes := rendered.sizeBytes
       sha256 := rendered.sha256
       storageLocation := .avatarPublic }]
  else existing

/-- The target of an object of an avatar asset. -/
def FileObject.avatarTarget (object : FileObject) : DeletionTarget :=
  ⟨some object.id, .avatarPublic, object.objectKey⟩

namespace FileDb

/-! ### Deletion facts -/

/-- There is a deletion fact for a public object. -/
def HasFact (db : FileDb) (objectKey : ℕ) : Prop :=
  ∃ d ∈ db.deletions, d.Names .avatarPublic objectKey

instance (db : FileDb) (objectKey : ℕ) : Decidable (db.HasFact objectKey) :=
  inferInstanceAs (Decidable (∃ d ∈ db.deletions, _))

/-- `_enqueue_avatar_manifest_deletions`. -/
def enqueueAvatarManifestDeletions (db : FileDb) (upload : FileUpload) (now : ℕ) : FileDb :=
  db.enqueueDeletions upload.avatarTargets now

/-- `_begin_avatar_asset_deletion`. -/
def beginAvatarAssetDeletion (db : FileDb) (file : FileAsset) (now : ℕ) : FileDb :=
  if file.deletionStartedAt ≠ none then db
  else
    let db := { db with files := db.files.set { file with deletionStartedAt := some now } }
    db.enqueueDeletions ((db.objectsOf file.id).map FileObject.avatarTarget) now

/-- What becomes of an avatar that its user no longer has: the deletion of its asset begins, or its
legacy object gets a deletion fact. -/
def retireAvatar (db : FileDb) (fileId objectKey : Option ℕ) (now : ℕ) : FileDb :=
  match fileId, objectKey with
  | some fileId, _ =>
    match db.files.get? fileId with
    | some file => db.beginAvatarAssetDeletion file now
    | none => db
  | none, some objectKey => db.enqueueDeletion now ⟨none, .avatarPublic, objectKey⟩
  | none, none => db

/-! ### Requests -/

/-- `confirm_avatar_upload`. The metadata is the answer of the object store, if it gives one. -/
def confirmAvatarUpload (userId uploadId : ℕ) (etag : List Char)
    (metadata : Option StorageObjectMetadata) (now : ℕ) (db : FileDb) : Except FileError FileDb :=
  match db.uploads.get? uploadId with
  | none => .error avatarUploadNotFound
  | some upload =>
    if upload.userId ≠ userId ∨ upload.purpose ≠ .avatar then .error avatarUploadNotFound
    else if upload.status ≠ .pending then
      if upload.confirmedEtag ≠ none ∧ upload.confirmedEtag ≠ some (normalizeEtag etag) then
        .error confirmedUploadReplaced
      else .ok db
    else if upload.expiresAt ≤ now then do
      let moved ← transitionUpload upload .expired now (some "upload_expired")
      .ok (db.setUpload moved)
    else
      match metadata with
      | none => .error invalidAvatarUpload
      | some metadata =>
        if metadata.sizeBytes ≠ upload.declaredSizeBytes ∨
            metadata.declaredSizeBytes ∉ [none, some upload.declaredSizeBytes] ∨
            normalizeContentType metadata.contentType ≠ upload.declaredContentType ∨
            normalizeContentType metadata.contentType ∉ allowedAvatarContentTypes ∨
            normalizeEtag metadata.etag ≠ normalizeEtag etag then
          .error invalidAvatarUpload
        else do
          let moved ← transitionUpload { upload with confirmedEtag := some (normalizeEtag etag) }
            .queued now none
          .ok (db.setUpload moved)

/-! ### Processing -/

/-- The claim of `process_avatar_upload`. -/
def claimAvatarUpload (s : AvatarSettings) (owner uploadId now : ℕ) (db : FileDb) :
    Except AvatarResult (FileDb × FileUpload) :=
  match db.uploads.get? uploadId with
  | none => .error .missing
  | some upload =>
    if upload.purpose ≠ .avatar then .error .missing
    else if upload.status = .succeeded then .error .succeeded
    else if upload.status ≠ .queued ∨ now < upload.availableAt ∨ upload.confirmedEtag = none ∨
        db.isActiveUser upload.userId = false then
      .error .notClaimable
    else
      let claimed :=
        { upload.moved .processing now none with
          attemptCount := upload.attemptCount + 1
          leaseOwner := some owner
          leaseExpiresAt := some (now + s.avatarProcessingLeaseSeconds) }
      .ok (db.setUpload claimed, claimed)

/-- `_persist_avatar_manifest`. -/
def persistAvatarManifest (uploadId owner : ℕ) (manifest : List ManifestEntry) (db : FileDb) :
    Except FileError FileDb :=
  match db.uploads.get? uploadId with
  | none => .error (.processing "upload_cancelled")
  | some upload =>
    if upload.purpose ≠ .avatar ∨ upload.status ≠ .processing ∨ upload.leaseOwner ≠ some owner then
      .error (.processing "upload_cancelled")
    else if upload.outputManifest ≠ none ∧ upload.outputManifest ≠ some manifest then
      .error (.processing "processing_failed")
    else .ok (db.setUpload { upload with outputManifest := some manifest })

/-- `_finish_avatar_error`. A task that is no longer the owner changes nothing. -/
def finishAvatarError (s : AvatarSettings) (uploadId owner : ℕ) (code : String) (retryable : Bool)
    (attemptCount now : ℕ) (db : FileDb) : Except FileError (FileDb × AvatarResult) :=
  match db.uploads.get? uploadId with
  | none => .ok (db, .missing)
  | some upload =>
    if upload.status ≠ .processing ∨ upload.leaseOwner ≠ some owner then .ok (db, .cancelled)
    else if retryable ∧ attemptCount < s.avatarProcessingMaxAttempts then do
      let moved ← transitionUpload upload .queued now none
      .ok (db.setUpload
        { moved with availableAt := retryAvailableAt attemptCount now, errorCode := none }, .retry)
    else do
      let moved ← transitionUpload upload (if retryable then .failed else .rejected) now (some code)
      .ok ((db.setUpload moved).enqueueAvatarManifestDeletions moved now,
        if retryable then .failed else .rejected)

/-- After the staging object of an upload is deleted. -/
def recordAvatarStagingDeleted (uploadId now : ℕ) (db : FileDb) : FileDb :=
  match db.uploads.get? uploadId with
  | none => db
  | some upload => db.setUpload { upload with stagingDeletedAt := some now }

/-! ### The sweep -/

/-- The first loop of `sweep_avatar_uploads`: the lease of a processing upload has expired. -/
def sweepAvatarProcessing (s : AvatarSettings) (now : ℕ) (db : FileDb) (uploadId : ℕ) :
    Except FileError FileDb :=
  match db.uploads.get? uploadId with
  | none => .error .noRow
  | some upload =>
    if upload.purpose ≠ .avatar ∨ upload.status ≠ .processing ∨
        ¬∃ t ∈ upload.leaseExpiresAt, t ≤ now then
      .error .noRow
    else if s.avatarProcessingMaxAttempts ≤ upload.attemptCount then do
      let moved ← transitionUpload upload .failed now (some "processing_failed")
      .ok ((db.setUpload moved).enqueueAvatarManifestDeletions moved now)
    else do
      let moved ← transitionUpload upload .queued now none
      .ok (db.setUpload { moved with availableAt := retryAvailableAt upload.attemptCount now })

/-- The second loop: the session of a pending upload has expired. -/
def sweepAvatarPending (now : ℕ) (db : FileDb) (uploadId : ℕ) : Except FileError FileDb :=
  match db.uploads.get? uploadId with
  | none => .error .noRow
  | some upload =>
    if upload.purpose ≠ .avatar ∨ upload.status ≠ .pending ∨ now < upload.expiresAt then
      .error .noRow
    else do
      let moved ← transitionUpload upload .expired now (some "upload_expired")
      .ok (db.setUpload moved)

/-- The third loop: a terminal upload still has a write manifest. -/
def sweepAvatarDirty (now : ℕ) (db : FileDb) (uploadId : ℕ) : Except FileError FileDb :=
  match db.uploads.get? uploadId with
  | none => .error .noRow
  | some upload =>
    if upload.purpose ≠ .avatar ∨ upload.status.isSwept = false ∨ upload.outputManifest = none then
      .error .noRow
    else .ok ((db.enqueueAvatarManifestDeletions upload now).setUpload
      { upload with outputManifest := none })

/-- `sweep_avatar_uploads`. The selection is what the three queries return. -/
def sweepAvatarUploads (s : AvatarSettings) (selection : SweepSelection) (now : ℕ) (db : FileDb) :
    Except FileError FileDb := do
  let db ← selection.processing.foldlM (sweepAvatarProcessing s now) db
  let db ← selection.pending.foldlM (sweepAvatarPending now) db
  selection.dirty.foldlM (sweepAvatarDirty now) db

/-- What `deactivate_user_files` does to an avatar upload. -/
def deactivateAvatarUpload (now : ℕ) (db : FileDb) (upload : FileUpload) :
    Except FileError FileDb :=
  do
    let moved ← transitionUpload upload .cancelled now (some "account_inactive")
    .ok ((db.setUpload moved).enqueueAvatarManifestDeletions moved now)

end FileDb

namespace AvatarDb

/-! ### The avatar of a user -/

/-- The objects of the avatar bucket. -/
def HasObject (db : AvatarDb) (objectKey : ℕ) : Prop :=
  ∃ object ∈ db.objects, object.storageLocation = .avatarPublic ∧ object.objectKey = objectKey

instance (db : AvatarDb) (objectKey : ℕ) : Decidable (db.HasObject objectKey) :=
  inferInstanceAs (Decidable (∃ object ∈ db.objects, _))

/-- Write the avatar columns of a user. -/
def setAvatar (db : AvatarDb) (userId : ℕ) (avatar : UserAvatar) : AvatarDb :=
  { db with avatars := Function.update db.avatars userId avatar }

@[simp] theorem avatars_setAvatar_self (db : AvatarDb) (userId : ℕ) (avatar : UserAvatar) :
    (db.setAvatar userId avatar).avatars userId = avatar := Function.update_self ..

theorem avatars_setAvatar_of_ne (db : AvatarDb) {userId v : ℕ} (avatar : UserAvatar)
    (h : v ≠ userId) : (db.setAvatar userId avatar).avatars v = db.avatars v :=
  Function.update_of_ne h ..

/-- The rows that `_commit_avatar_success` adds for an entry of the manifest, and the avatar they
become. -/
def publishAvatar (db : AvatarDb) (userId : ℕ) (entry : ManifestEntry) : AvatarDb :=
  let files := db.files.insert
    (fun id =>
      { id
        userId
        purpose := .avatar
        originalFilename := "avatar.webp"
        mediaType := "image/webp"
        sizeBytes := entry.sizeBytes
        sha256 := some entry.sha256
        warnings := []
        extractorVersion := some "avatar-v1"
        summaryMetadata := some [("width", .int 512), ("height", .int 512)]
        documentText := none
        modelInputKind := none
        origin := .upload
        unboundExpiresAt := none
        sourceMessageId := none
        boundAt := none
        detachedAt := none
        deletionStartedAt := none })
    fun _ => rfl
  let objects := db.objects.insert
    (fun id =>
      { id
        fileId := db.files.next
        role := .avatar512
        storageLocation := .avatarPublic
        objectKey := entry.objectKey
        mediaType := "image/webp"
        sizeBytes := entry.sizeBytes
        sha256 := some entry.sha256 })
    fun _ => rfl
  { db with files, objects }.setAvatar userId ⟨some db.files.next, none⟩

/-- `_commit_avatar_success`, for a session that has read the upload as `seen`. -/
def commitAvatarSuccess (owner : ℕ) (seen : FileUpload) (manifest : List ManifestEntry) (now : ℕ)
    (db : AvatarDb) : Except FileError (AvatarDb × AvatarResult) :=
  match db.uploads.get? seen.id with
  | none => .ok (db, .orphaned)
  | some row =>
    if seen.status ≠ .processing ∨ seen.leaseOwner ≠ some owner ∨
        db.isActiveUser seen.userId = false then
      let facts := db.enqueueAvatarManifestDeletions seen now
      if seen.status = .processing ∧ seen.leaseOwner = some owner then do
        let code :=
          if db.isActiveUser seen.userId then "upload_cancelled" else "account_inactive"
        let moved ← transitionUpload seen .cancelled now (some code)
        .ok ({ db with toFileDb := facts.setUpload (row.written seen moved) }, .cancelled)
      else .ok ({ db with toFileDb := facts }, .cancelled)
    else
      match manifest with
      -- `manifest[0]` of an empty list
      | [] => .error .noRow
      | entry :: _ =>
        -- the unique constraint of `file_objects`
        if db.HasObject entry.objectKey then .error .noRow
        else do
          let old := db.avatars seen.userId
          let fileId := db.files.next
          let moved ← transitionUpload { seen with fileId := some fileId } .succeeded now none
          let db := db.publishAvatar seen.userId entry
          let written := db.setUpload (row.written seen moved)
          .ok ({ db with
            toFileDb := written.retireAvatar (old.avatarFileId.filter (· ≠ fileId))
              (old.avatarObjectKey.filter (· ≠ entry.objectKey)) now }, .succeeded)

/-- `take_down_user_avatar`, for a caller that has read the avatar columns as `seen`. -/
def takeDownUserAvatar (userId : ℕ) (seen : UserAvatar) (now : ℕ) (db : AvatarDb) : AvatarDb :=
  if seen.avatarFileId = none ∧ seen.avatarObjectKey = none then db
  else
    let row := db.avatars userId
    let file := seen.avatarFileId.filter fun fileId => (db.files.get? fileId).isSome
    { db with toFileDb := db.retireAvatar file seen.avatarObjectKey now }.setAvatar userId
      { avatarFileId := writtenColumn seen.avatarFileId none row.avatarFileId
        avatarObjectKey := writtenColumn seen.avatarObjectKey none row.avatarObjectKey }

/-- The deactivation of an account with `deactivate_user_files`, as far as it concerns avatars. -/
def deactivateUserAvatar (userId now : ℕ) (db : AvatarDb) : Except FileError AvatarDb := do
  let uploads := db.uploads.rows.filter fun u =>
    u.userId = userId ∧ u.purpose = .avatar ∧ u.status.isActive = true
  let files ← uploads.foldlM (FileDb.deactivateAvatarUpload now) db.toFileDb
  let seen := db.avatars userId
  let file := seen.avatarFileId.filter fun fileId => (db.files.get? fileId).isSome
  let retired := files.retireAvatar file seen.avatarObjectKey now
  let inactiveUsers := userId :: retired.inactiveUsers
  .ok ({ db with toFileDb := { retired with inactiveUsers } }.setAvatar userId ⟨none, none⟩)

end AvatarDb

end IChat.Files

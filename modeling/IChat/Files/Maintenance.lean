import IChat.Files.Uploads

/-!
# The transactions of maintenance

The sweep of uploads, the reclaiming of assets, the purge of conversations, the reconciliation of
quotas and the deletion processor of `maintenance.py`, and the deactivation of an account
(`account.py`).

A maintenance query locks what it selects, skips what is locked and stops at a batch size, so
which of the matching rows it works on is not determined. The rows are a parameter here, and each
of them is checked against the `where` clause.

The purge locks its conversation, but reads the assets without a lock. Its reads (`purgedAsset`)
and its writes (`purgeConversation`) are two operations for that reason, and others may commit in
between.
-/

namespace IChat.Files

/-- The rows that one sweep works on. -/
structure SweepSelection where
  processing : List ℕ
  pending : List ℕ
  dirty : List ℕ

/-- The statuses of `dirty_terminal`. -/
def FileUploadStatus.isSwept : FileUploadStatus → Bool
  | .cancelled | .rejected | .failed | .expired => true
  | _ => false

namespace FileDb

/-! ### Uploads -/

/-- The first loop of `sweep_uploads`: a lease has expired. -/
def sweepProcessing (s : Settings) (now : ℕ) (db : FileDb) (uploadId : ℕ) :
    Except FileError FileDb :=
  match db.uploads.get? uploadId with
  | none => .error .noRow
  | some upload =>
    if upload.purpose ≠ .messageAttachment ∨ upload.status ≠ .processing ∨
        ¬∃ t ∈ upload.leaseExpiresAt, t ≤ now then
      .error .noRow
    else if s.processingMaxAttempts ≤ upload.attemptCount then do
      let moved ← transitionUpload upload .failed now (some "processing_failed")
      .ok (((db.setUpload moved).releaseReservation moved).enqueueManifestDeletions moved now)
    else do
      let moved ← transitionUpload upload .queued now none
      .ok (db.setUpload
        { moved with availableAt := retryAvailableAt upload.attemptCount now })

/-- The second loop: the session of a pending upload has expired. -/
def sweepPending (now : ℕ) (db : FileDb) (uploadId : ℕ) : Except FileError FileDb :=
  match db.uploads.get? uploadId with
  | none => .error .noRow
  | some upload =>
    if upload.purpose ≠ .messageAttachment ∨ upload.status ≠ .pending ∨ now < upload.expiresAt then
      .error .noRow
    else do
      let moved ← transitionUpload upload .expired now (some "upload_expired")
      .ok ((db.setUpload moved).releaseReservation moved)

/-- The third loop: a terminal upload still has a write manifest. Once every entry has a deletion
fact, the manifest is cleared. -/
def sweepDirty (now : ℕ) (db : FileDb) (uploadId : ℕ) : Except FileError FileDb :=
  match db.uploads.get? uploadId with
  | none => .error .noRow
  | some upload =>
    if upload.purpose ≠ .messageAttachment ∨ upload.status.isSwept = false ∨
        upload.outputManifest = none then
      .error .noRow
    else .ok ((db.enqueueManifestDeletions upload now).setUpload
      { upload with outputManifest := none })

/-- `sweep_uploads`. -/
def sweepUploads (s : Settings) (selection : SweepSelection) (now : ℕ) (db : FileDb) :
    Except FileError FileDb := do
  let db ← selection.processing.foldlM (sweepProcessing s now) db
  let db ← selection.pending.foldlM (sweepPending now) db
  selection.dirty.foldlM (sweepDirty now) db

/-- `cleanup_staging_objects`, for one upload whose staging object has been deleted. -/
def cleanupStaging (s : Settings) (uploadId now : ℕ) (db : FileDb) : Except FileError FileDb :=
  match db.uploads.get? uploadId with
  | none => .error .noRow
  | some upload =>
    if upload.purpose ≠ .messageAttachment ∨ upload.status.isTerminal = false ∨
        upload.stagingDeletedAt ≠ none ∨
        ¬∃ t ∈ upload.completedAt, t + s.cleanupSafetySeconds ≤ now then
      .error .noRow
    else .ok (db.setUpload { upload with stagingDeletedAt := some now })

/-! ### Assets -/

/-- The condition of `reclaim_assets`: never bound and expired, or detached for long enough. -/
def Reclaimable (s : Settings) (now : ℕ) (file : FileAsset) : Prop :=
  file.purpose = .messageAttachment ∧ file.deletionStartedAt = none ∧
    (file.boundAt = none ∧ (∃ t ∈ file.unboundExpiresAt, t ≤ now) ∨
      ∃ t ∈ file.detachedAt, t + s.detachedRetentionSeconds ≤ now)

instance (s : Settings) (now : ℕ) (file : FileAsset) : Decidable (Reclaimable s now file) :=
  inferInstanceAs (Decidable (_ ∧ _ ∧ (_ ∨ _)))

/-- What `reclaim_assets` does to one asset. -/
def reclaimAsset (s : Settings) (now : ℕ) (db : FileDb) (fileId : ℕ) : Except FileError FileDb :=
  match db.files.get? fileId with
  | none => .error .noRow
  | some file =>
    if Reclaimable s now file then db.beginAssetDeletion file now else .error .noRow

/-- `reclaim_assets`. -/
def reclaimAssets (s : Settings) (fileIds : List ℕ) (now : ℕ) (db : FileDb) :
    Except FileError FileDb :=
  fileIds.foldlM (reclaimAsset s now) db

/-- The conversation may be purged. -/
def Purgeable (db : FileDb) (now conversationId : ℕ) : Prop :=
  ∃ c ∈ db.conversations, c.id = conversationId ∧ c.deletedAt ≠ none ∧
    ∃ t ∈ c.deletionDueAt, t ≤ now

instance (db : FileDb) (now conversationId : ℕ) : Decidable (db.Purgeable now conversationId) :=
  inferInstanceAs (Decidable (∃ c ∈ db.conversations, _))

/-- The attachment is of a message of the conversation. -/
def AttachedIn (db : FileDb) (conversationId : ℕ) (attachment : MessageAttachment) : Prop :=
  ∃ m ∈ db.messages, m.id = attachment.messageId ∧ m.conversationId = conversationId

instance (db : FileDb) (conversationId : ℕ) (attachment : MessageAttachment) :
    Decidable (db.AttachedIn conversationId attachment) :=
  inferInstanceAs (Decidable (∃ m ∈ db.messages, _))

/-- What the purge of a conversation reads of an asset: the row, if a message of the conversation
refers to it and no other message does. -/
def purgedAsset (db : FileDb) (conversationId fileId : ℕ) : Option FileAsset :=
  if (∃ a ∈ db.attachments, a.fileId = some fileId ∧ db.AttachedIn conversationId a) ∧
      ∀ a ∈ db.attachments, a.fileId = some fileId → db.AttachedIn conversationId a then
    db.files.get? fileId
  else none

/-- The runs and messages of a conversation are deleted, and what refers to the messages. -/
def deleteMessages (conversationId : ℕ) (db : FileDb) : FileDb :=
  let doomed (messageId : ℕ) : Bool :=
    ∃ m ∈ db.messages, m.id = messageId ∧ m.conversationId = conversationId
  { db with
    runs := db.runs.filter fun run => run.conversationId ≠ conversationId
    messages := db.messages.filter fun m => m.conversationId ≠ conversationId
    attachments := db.attachments.filter fun a => !doomed a.messageId
    files := db.files.map (fun file =>
      { file with
        sourceMessageId :=
          if ∃ id ∈ file.sourceMessageId, doomed id = true then none else file.sourceMessageId })
      fun _ => rfl }

/-- What `purge_deleted_conversations` writes for one conversation, given the assets it has
read. -/
def purgeConversation (conversationId : ℕ) (files : List FileAsset) (now : ℕ) (db : FileDb) :
    Except FileError FileDb := do
  let db ← files.foldlM (fun db file => db.beginAssetDeletion file now)
    (db.deleteMessages conversationId)
  .ok { db with conversations := db.conversations.erase conversationId }

/-! ### Quotas -/

/-- What an upload adds to the reserved bytes of a user. -/
def reservedWeight (userId : ℕ) (upload : FileUpload) : ℤ :=
  if HoldsReservation userId upload then upload.declaredSizeBytes else 0

/-- What an asset adds to the used bytes of a user. -/
def usedWeight (userId : ℕ) (file : FileAsset) : ℤ :=
  if file.userId = userId ∧ file.purpose = .messageAttachment ∧ file.deletionStartedAt = none then
    file.sizeBytes
  else 0

/-- The declared sizes of the active attachment uploads of a user. -/
def reservedSum (db : FileDb) (userId : ℕ) : ℤ := db.uploads.sum (reservedWeight userId)

/-- The sizes of the attachment assets of a user that are not being deleted. -/
def usedSum (db : FileDb) (userId : ℕ) : ℤ := db.files.sum (usedWeight userId)

/-- `reconcile_quota`. -/
def reconcileQuota (userId : ℕ) (db : FileDb) : FileDb :=
  db.setQuota userId { usedBytes := db.usedSum userId, reservedBytes := db.reservedSum userId }

/-! ### The deletion processor -/

/-- A row of `file_objects` is deleted; its deletion facts lose their reference. -/
def deleteObject (objectId : ℕ) (db : FileDb) : FileDb :=
  { db with
    objects := db.objects.erase objectId
    deletions := db.deletions.map (fun d =>
      { d with fileObjectId := if d.fileObjectId = some objectId then none else d.fileObjectId })
      fun _ => rfl }

/-- A row of `files` is deleted; its upload and its attachments lose their reference. -/
def deleteAsset (fileId : ℕ) (db : FileDb) : FileDb :=
  { db with
    files := db.files.erase fileId
    uploads := db.uploads.map (fun u =>
      { u with fileId := if u.fileId = some fileId then none else u.fileId }) fun _ => rfl
    attachments := db.attachments.map fun a =>
      { a with fileId := if a.fileId = some fileId then none else a.fileId } }

/-- An asset that is being deleted goes with its last object. -/
def deleteEmptyAsset (fileId : ℕ) (db : FileDb) : FileDb :=
  match db.files.get? fileId with
  | none => db
  | some file =>
    if db.objectsOf fileId = [] ∧ file.deletionStartedAt ≠ none then db.deleteAsset fileId else db

/-- `process_deletions`, for one fact whose object has been deleted. -/
def completeDeletion (deletionId now : ℕ) (db : FileDb) : Except FileError FileDb :=
  match db.deletions.get? deletionId with
  | none => .error .noRow
  | some row =>
    if row.completedAt ≠ none ∨ now < row.availableAt then .error .noRow
    else
      let db := { db with
        deletions := db.deletions.set { row with
          attemptCount := row.attemptCount + 1
          objectDeletedAt := some now
          completedAt := some now } }
      match row.fileObjectId.bind db.objects.get? with
      | none => .ok db
      | some object => .ok ((db.deleteObject object.id).deleteEmptyAsset object.fileId)

/-- `process_deletions`, for one fact whose object could not be deleted. -/
def retryDeletion (deletionId now : ℕ) (db : FileDb) : Except FileError FileDb :=
  match db.deletions.get? deletionId with
  | none => .error .noRow
  | some row =>
    if row.completedAt ≠ none ∨ now < row.availableAt then .error .noRow
    else
      let delay := min (6 * 3600) (60 * 2 ^ min row.attemptCount 8)
      .ok { db with
        deletions := db.deletions.set { row with
          attemptCount := row.attemptCount + 1
          availableAt := now + delay } }

/-! ### Accounts -/

/-- What `deactivate_user_files` does to one upload. -/
def deactivateUpload (now : ℕ) (db : FileDb) (upload : FileUpload) : Except FileError FileDb := do
  let moved ← transitionUpload upload .cancelled now (some "account_inactive")
  let db := db.setUpload moved
  .ok (if upload.purpose = .messageAttachment then db.enqueueManifestDeletions moved now else db)

/-- The deactivation of an account with `deactivate_user_files`. -/
def deactivateUser (userId now : ℕ) (db : FileDb) : Except FileError FileDb := do
  let uploads := db.uploads.rows.filter fun u => u.userId = userId ∧ u.status.isActive = true
  let releasedBytes :=
    ((uploads.filter fun u => u.purpose = .messageAttachment).map FileUpload.declaredSizeBytes).sum
  let db ← uploads.foldlM (deactivateUpload now) db
  let db := if releasedBytes ≠ 0 then db.releaseReservedBytes userId releasedBytes else db
  .ok { db with inactiveUsers := userId :: db.inactiveUsers }

end FileDb

end IChat.Files

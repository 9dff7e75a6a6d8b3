import Mathlib.Logic.Function.Basic
import IChat.Conversations.Records

/-!
# The tables of the files domain

The rows of `app/models/files.py`, as far as the quota, the write manifests and the deletion facts
read them, and the one rule by which an upload changes its status.

* An object key `files/<uuid>/<role>` is the number of its `uuid4`; a key of the staging area is
  the number of its upload, which it belongs to for good.
* The public id of an asset, by which blocks and requests refer to it, is its id.
* `transitionUpload` is the state machine of an upload. What it writes is `FileUpload.moved`, and
  the equations of `moved` are all that is used of it.
-/

namespace IChat.Files

open Conversations

inductive FilePurpose
  | avatar | messageAttachment
  deriving DecidableEq

inductive FileUploadStatus
  | pending | queued | processing | succeeded | rejected | failed | expired | cancelled
  deriving DecidableEq

inductive FileObjectRole
  | original | preview | documentExtract | avatar512
  deriving DecidableEq

inductive FileStorageLocation
  | canonicalPrivate | modelPreviewPrivate | avatarPublic
  deriving DecidableEq

inductive FileModelInputKind
  | document | image
  deriving DecidableEq

inductive FileOrigin
  | upload | paste
  deriving DecidableEq

/-- The wire value of an origin. -/
def FileOrigin.value : FileOrigin → String
  | upload => "upload"
  | paste => "paste"

/-- One entry of `output_manifest`. -/
structure ManifestEntry where
  role : FileObjectRole
  objectKey : ℕ
  mediaType : String
  sizeBytes : ℕ
  sha256 : String
  storageLocation : FileStorageLocation
  deriving DecidableEq

/-- A row of `file_uploads`. The part size is set for multipart uploads only. -/
structure FileUpload where
  id : ℕ
  userId : ℕ
  purpose : FilePurpose
  originalFilename : String
  origin : FileOrigin
  declaredContentType : List Char
  declaredSizeBytes : ℕ
  multipartPartSizeBytes : Option ℕ
  confirmedEtag : Option (List Char)
  status : FileUploadStatus
  attemptCount : ℕ
  availableAt : ℕ
  leaseOwner : Option ℕ
  leaseExpiresAt : Option ℕ
  errorCode : Option String
  expiresAt : ℕ
  queuedAt : Option ℕ
  claimedAt : Option ℕ
  completedAt : Option ℕ
  outputManifest : Option (List ManifestEntry)
  fileId : Option ℕ
  stagingDeletedAt : Option ℕ
  deriving DecidableEq

/-- A row of `files`. -/
structure FileAsset where
  id : ℕ
  userId : ℕ
  purpose : FilePurpose
  originalFilename : String
  mediaType : String
  sizeBytes : ℕ
  sha256 : Option String
  warnings : List String
  extractorVersion : Option String
  summaryMetadata : Option Dict
  documentText : Option String
  modelInputKind : Option FileModelInputKind
  origin : FileOrigin
  unboundExpiresAt : Option ℕ
  sourceMessageId : Option ℕ
  boundAt : Option ℕ
  detachedAt : Option ℕ
  deletionStartedAt : Option ℕ
  deriving DecidableEq

/-- A row of `file_objects`. -/
structure FileObject where
  id : ℕ
  fileId : ℕ
  role : FileObjectRole
  storageLocation : FileStorageLocation
  objectKey : ℕ
  mediaType : String
  sizeBytes : ℕ
  sha256 : Option String
  deriving DecidableEq

/-- A row of `file_object_deletions`: the durable fact that an object has to go. -/
structure FileObjectDeletion where
  id : ℕ
  fileObjectId : Option ℕ
  storageLocation : FileStorageLocation
  objectKey : ℕ
  attemptCount : ℕ
  availableAt : ℕ
  objectDeletedAt : Option ℕ
  completedAt : Option ℕ
  deriving DecidableEq

/-- A row of `file_quotas`. -/
structure FileQuota where
  usedBytes : ℤ
  reservedBytes : ℤ
  deriving DecidableEq

/-- A row of `message_attachments`. -/
structure MessageAttachment where
  messageId : ℕ
  fileId : Option ℕ
  position : ℕ
  deriving DecidableEq

/-- `Settings`, as far as the files domain reads it. -/
structure Settings where
  quotaBytes : ℕ
  maxInflightUploads : ℕ
  uploadSessionTtlSeconds : ℕ
  multipartThresholdBytes : ℕ
  multipartPartSizeBytes : ℕ
  processingLeaseSeconds : ℕ
  processingMaxAttempts : ℕ
  unboundTtlSeconds : ℕ
  detachedRetentionSeconds : ℕ
  cleanupSafetySeconds : ℕ
  avatarSessionTtlSeconds : ℕ
  maxAttachmentsPerMessage : ℕ
  maxMessageBytes : ℕ
  attachmentTargetTurnTokens : ℕ
  contextBudgetTokens : ℕ
  conversationDeletionRetentionSeconds : ℕ

/-- The defaults of `app/core/config.py`. -/
def Settings.default : Settings where
  quotaBytes := 1024 * 1024 * 1024
  maxInflightUploads := 5
  uploadSessionTtlSeconds := 1800
  multipartThresholdBytes := 5 * 1024 * 1024
  multipartPartSizeBytes := 5 * 1024 * 1024
  processingLeaseSeconds := 300
  processingMaxAttempts := 3
  unboundTtlSeconds := 86400
  detachedRetentionSeconds := 30 * 86400
  cleanupSafetySeconds := 300
  avatarSessionTtlSeconds := 1800
  maxAttachmentsPerMessage := 5
  maxMessageBytes := 100 * 1024 * 1024
  attachmentTargetTurnTokens := 128000
  contextBudgetTokens := 256000
  conversationDeletionRetentionSeconds := 30 * 86400

/-- What a transaction of the files domain fails with. -/
inductive FileError
  /-- The answer of the API: a status and a text. -/
  | appError (status : ℕ) (message : String)
  /-- The answer of the API with a code, and the message that its context names. -/
  | codedError (status : ℕ) (message code : String) (legacyMessageId : Option ℕ)
  /-- `ValueError` with a text. -/
  | value (message : String)
  /-- `ValueError` of `transition_upload`. -/
  | invalidTransition (current target : FileUploadStatus)
  /-- `FileProcessingError`, which fails a processing attempt. -/
  | processing (code : String)
  /-- A row is not there, or not in the state the query selects. -/
  | noRow
  deriving DecidableEq

def uploadNotFound : FileError := .appError 404 "File upload was not found"
def invalidUpload : FileError := .appError 400 "File upload could not be verified"
def quotaExceeded : FileError := .appError 413 "File storage quota exceeded"
def tooManyInflight : FileError := .appError 409 "Too many files are already being processed"
def inactiveUser : FileError := .appError 401 "Inactive user"
def confirmedUploadReplaced : FileError :=
  .appError 409 "The confirmed upload cannot be replaced"
def boundAttachmentCancelled : FileError :=
  .appError 409 "A bound attachment cannot be cancelled"
def attachmentInvalid : FileError := .appError 422 "One or more attachments are unavailable"

/-! ### The state machine of an upload -/

namespace FileUploadStatus

/-- `ACTIVE_UPLOAD_STATUSES`. -/
def isActive : FileUploadStatus → Bool
  | pending | queued | processing => true
  | _ => false

/-- `TERMINAL_UPLOAD_STATUSES`. -/
def isTerminal : FileUploadStatus → Bool
  | succeeded | rejected | failed | expired | cancelled => true
  | _ => false

/-- `_ALLOWED_TRANSITIONS`. -/
def allowedTransitions : FileUploadStatus → List FileUploadStatus
  | pending => [queued, expired, cancelled]
  | queued => [processing, cancelled, failed]
  | processing => [queued, succeeded, rejected, failed, cancelled]
  | _ => []

@[simp] theorem isTerminal_eq_not_isActive (s : FileUploadStatus) :
    s.isTerminal = !s.isActive := by
  cases s <;> rfl

/-- A status that allows a transition is active. -/
theorem isActive_of_mem_allowedTransitions {s t : FileUploadStatus}
    (h : t ∈ s.allowedTransitions) : s.isActive = true := by
  cases s <;> first | rfl | cases h

end FileUploadStatus

/-- What a transition writes. -/
def FileUpload.moved (upload : FileUpload) (target : FileUploadStatus) (now : ℕ)
    (errorCode : Option String) : FileUpload :=
  let upload := { upload with status := target, errorCode := errorCode }
  match target with
  | .queued =>
    { upload with
      queuedAt := some now, availableAt := now, leaseOwner := none, leaseExpiresAt := none }
  | .processing => { upload with claimedAt := some now }
  | .pending => upload
  | .succeeded | .rejected | .failed | .expired | .cancelled =>
    { upload with completedAt := some now, leaseOwner := none, leaseExpiresAt := none }

/-- `transition_upload`: apply one validated transition. -/
def transitionUpload (upload : FileUpload) (target : FileUploadStatus) (now : ℕ)
    (errorCode : Option String) : Except FileError FileUpload :=
  if target ∈ upload.status.allowedTransitions then .ok (upload.moved target now errorCode)
  else .error (.invalidTransition upload.status target)

section moved

variable {upload upload' : FileUpload} {target : FileUploadStatus} {now : ℕ}
  {errorCode : Option String}

theorem transitionUpload_eq_ok :
    transitionUpload upload target now errorCode = .ok upload' ↔
      target ∈ upload.status.allowedTransitions ∧ upload' = upload.moved target now errorCode := by
  unfold transitionUpload
  split <;> simp_all [eq_comm]

@[simp] theorem FileUpload.moved_id : (upload.moved target now errorCode).id = upload.id := by
  cases target <;> rfl

@[simp] theorem FileUpload.moved_userId :
    (upload.moved target now errorCode).userId = upload.userId := by
  cases target <;> rfl

@[simp] theorem FileUpload.moved_purpose :
    (upload.moved target now errorCode).purpose = upload.purpose := by
  cases target <;> rfl

@[simp] theorem FileUpload.moved_declaredSizeBytes :
    (upload.moved target now errorCode).declaredSizeBytes = upload.declaredSizeBytes := by
  cases target <;> rfl

@[simp] theorem FileUpload.moved_status :
    (upload.moved target now errorCode).status = target := by
  cases target <;> rfl

@[simp] theorem FileUpload.moved_outputManifest :
    (upload.moved target now errorCode).outputManifest = upload.outputManifest := by
  cases target <;> rfl

@[simp] theorem FileUpload.moved_fileId :
    (upload.moved target now errorCode).fileId = upload.fileId := by
  cases target <;> rfl

/-- Nobody holds the lease of an upload that has left the processing state. -/
theorem FileUpload.moved_leaseOwner (hpending : target ≠ .pending)
    (hprocessing : target ≠ .processing) :
    (upload.moved target now errorCode).leaseOwner = none := by
  cases target <;> first | rfl | contradiction

end moved

/-- The manifest of an upload, without entries when there is none. -/
def FileUpload.entries (upload : FileUpload) : List ManifestEntry := upload.outputManifest.getD []

/-! ### The database -/

/-- The tables of the files domain, with those of the conversations. A user without a row of
`file_quotas` has used and reserved nothing. -/
structure FileDb extends ConversationTables where
  uploads : Table FileUpload FileUpload.id
  files : Table FileAsset FileAsset.id
  objects : Table FileObject FileObject.id
  deletions : Table FileObjectDeletion FileObjectDeletion.id
  quotas : ℕ → FileQuota
  inactiveUsers : List ℕ
  attachments : List MessageAttachment

/-- No rows. -/
def FileDb.empty : FileDb where
  toConversationTables := .empty
  uploads := .empty
  files := .empty
  objects := .empty
  deletions := .empty
  quotas := fun _ => ⟨0, 0⟩
  inactiveUsers := []
  attachments := []

namespace FileDb

variable (db : FileDb) (upload : FileUpload) (userId : ℕ)

/-- Write an upload back. -/
def setUpload : FileDb := { db with uploads := db.uploads.set upload }

/-- Write the quota row of a user. -/
def setQuota (quota : FileQuota) : FileDb :=
  { db with quotas := Function.update db.quotas userId quota }

/-- `user.is_active`. -/
def isActiveUser : Bool := !db.inactiveUsers.contains userId

/-- `reserved_bytes`, less a number of bytes, but never negative. -/
def releaseReservedBytes (bytes : ℤ) : FileDb :=
  let quota := db.quotas userId
  db.setQuota userId { quota with reservedBytes := max 0 (quota.reservedBytes - bytes) }

/-- `used_bytes`, less a number of bytes, but never negative. -/
def releaseUsedBytes (bytes : ℤ) : FileDb :=
  let quota := db.quotas userId
  db.setQuota userId { quota with usedBytes := max 0 (quota.usedBytes - bytes) }

/-- `_release_reservation` and `_release_reserved`: an upload that ends gives its bytes back, if it
is an attachment. -/
def releaseReservation : FileDb :=
  if upload.purpose ≠ .messageAttachment then db
  else db.releaseReservedBytes upload.userId upload.declaredSizeBytes

end FileDb

end IChat.Files

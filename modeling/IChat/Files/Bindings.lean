import Mathlib.Algebra.GroupWithZero.Nat
import IChat.Files.Deletions
import IChat.General.Text

/-!
# Attachments and messages

`bindings.py`: which assets a message may carry, the blocks they become, and what binding them to
the message writes.

A session keeps the rows it has loaded. A query that locks a row which the session already holds
does not load its columns again, and a flush writes the columns that were assigned another value
(`FileAsset.flush`). An edit loads the assets of its target before it locks them, so the rows it
holds (`loaded`) are a parameter here.
-/

namespace IChat.Files

/-- `str(file.public_id)`. -/
def FileAsset.publicId (file : FileAsset) : String := toString file.id

/-- `media_type.casefold().startswith("image/")`. -/
def isImageType (mediaType : String) : Bool :=
  (mediaType.toList.take 6).map Char.toLower = "image/".toList

/-- `SUPPORTED_IMAGE_PROCESSOR_VERSIONS`. -/
def supportedImageProcessorVersions : List String := ["image-v1", "image-v2"]

def attachmentLimit : FileError := .appError 422 "A message can include at most five attachments"
def attachmentIdsNotUnique : FileError := .appError 422 "Attachment IDs must be unique"
def attachmentSizeLimit : FileError :=
  .appError 413 "Attachments exceed the per-message size limit"
def emptyModelInput : FileError := .appError 422 "Enter a message or attach a readable file"
def targetTurnTooLarge : FileError :=
  .appError 413 "Attachments exceed the model context budget"
def imageInputNotSupported : FileError :=
  .codedError 422 "The selected model does not support image input" "IMAGE_INPUT_NOT_SUPPORTED"
    none

/-- The notice of an attachment that the model cannot read. -/
def noticeText : String := "This attachment is present but cannot be read by the current model."

/-- `AttachmentPlan`. -/
structure AttachmentPlan where
  files : List FileAsset
  blocks : List ContentBlock

/-- The arguments of `prepare_attachment_plan`. -/
structure AttachmentRequest where
  userId : ℕ
  content : String
  attachmentIds : List ℕ
  allowedBoundFileIds : List ℕ
  supportsImageInput : Option Bool
  legacyNoticeFileIds : List ℕ
  /-- `estimate_message_tokens`. -/
  messageTokens : Message → ℕ
  now : ℕ

/-- A positive integer of the summary of an image. -/
def positiveInt (summary : Dict) (field : String) : Option ℤ :=
  match summary.get? field with
  | some (.int n) => if 0 < n then some n else none
  | _ => none

/-- The notice block of an attachment. -/
def FileAsset.noticeBlock (file : FileAsset) : ContentBlock :=
  .attachmentNotice file.publicId file.originalFilename file.mediaType noticeText

/-- The image block of an asset, from its preview. -/
def imageBlock (file : FileAsset) (preview : Option FileObject) : Except FileError ContentBlock :=
  let summary := file.summaryMetadata.getD []
  match preview, preview.bind FileObject.sha256, positiveInt summary "width",
      positiveInt summary "height", file.extractorVersion with
  | some preview, some sha256, some width, some height, some version =>
    if sha256.length ≠ 64 ∨ preview.mediaType ≠ "image/webp" ∨
        version ∉ supportedImageProcessorVersions then
      .error attachmentInvalid
    else .ok (.image file.publicId file.originalFilename preview.mediaType sha256 width height
      version file.warnings)
  | _, _, _, _, _ => .error attachmentInvalid

/-- `value or default`. -/
def textOr (value : Option String) (default : String) : String :=
  match value with
  | none | some "" => default
  | some text => text

/-- The block of one attachment. -/
def attachmentBlock (request : AttachmentRequest) (preview : Option FileObject) (file : FileAsset) :
    Except FileError ContentBlock :=
  match file.modelInputKind with
  | some .document =>
    match file.documentText with
    | some text =>
      if text = "" then .error attachmentInvalid
      else .ok (.document file.publicId file.originalFilename file.mediaType text
        (textOr file.sha256 "unknown") (textOr file.extractorVersion "legacy") file.warnings
          (some (file.summaryMetadata.getD [])) file.origin.value)
    | none => .error attachmentInvalid
  | some .image =>
    if isImageType file.mediaType = false then .error attachmentInvalid
    else if request.supportsImageInput = some false ∧ file.id ∉ request.legacyNoticeFileIds then
      .error imageInputNotSupported
    else if request.supportsImageInput = some true then imageBlock file preview
    else .ok file.noticeBlock
  | none =>
    if request.supportsImageInput = some true ∧ isImageType file.mediaType = true then
      .error attachmentInvalid
    else .ok file.noticeBlock

/-- The asset may be attached: it waits for its first message, or the message may inherit it. -/
def Attachable (request : AttachmentRequest) (file : FileAsset) : Prop :=
  file.userId = request.userId ∧ file.purpose = .messageAttachment ∧
    file.deletionStartedAt = none ∧
    ((file.boundAt = none ∧ ∃ t ∈ file.unboundExpiresAt, request.now < t) ∨
      file.id ∈ request.allowedBoundFileIds)

instance (request : AttachmentRequest) (file : FileAsset) : Decidable (Attachable request file) :=
  inferInstanceAs (Decidable (_ ∧ _ ∧ _ ∧ (_ ∨ _)))

/-- The block is one that the model can read. -/
def isReadable : ContentBlock → Bool
  | .document .. | .image .. => true
  | _ => false

/-- What a flush leaves of a row: the columns that the session assigned another value than it had
loaded are written, the others are not. -/
def FileAsset.flush (loaded changed row : FileAsset) : FileAsset :=
  { row with
    unboundExpiresAt :=
      if changed.unboundExpiresAt = loaded.unboundExpiresAt then row.unboundExpiresAt
      else changed.unboundExpiresAt
    sourceMessageId :=
      if changed.sourceMessageId = loaded.sourceMessageId then row.sourceMessageId
      else changed.sourceMessageId
    boundAt := if changed.boundAt = loaded.boundAt then row.boundAt else changed.boundAt
    detachedAt :=
      if changed.detachedAt = loaded.detachedAt then row.detachedAt else changed.detachedAt }

/-- What binding an asset to a message assigns. -/
def FileAsset.bind (file : FileAsset) (messageId now : ℕ) : FileAsset :=
  let file :=
    if file.boundAt = none then
      { file with
        boundAt := some now, unboundExpiresAt := none, sourceMessageId := some messageId }
    else file
  { file with detachedAt := none }

namespace FileDb

/-- The asset as a session has it that has loaded some assets before. -/
def sessionFile (db : FileDb) (loaded : List FileAsset) (fileId : ℕ) : Option FileAsset :=
  (db.files.get? fileId).map fun row => (loaded.find? fun file => file.id = fileId).getD row

/-- `current_attachment_files`. -/
def currentAttachmentFiles (db : FileDb) (messageId : ℕ) : List FileAsset :=
  ((db.attachments.filter fun a => a.messageId = messageId).insertionSort
    fun a b => a.position ≤ b.position).filterMap fun a => a.fileId.bind db.files.get?

/-- The preview object of an asset. -/
def preview (db : FileDb) (fileId : ℕ) : Option FileObject :=
  (db.objects.rows.filter fun object => object.fileId = fileId ∧ object.role = .preview).getLast?

/-- `prepare_attachment_plan`. -/
def prepareAttachmentPlan (s : Settings) (loaded : List FileAsset) (request : AttachmentRequest)
    (db : FileDb) : Except FileError AttachmentPlan :=
  if s.maxAttachmentsPerMessage < request.attachmentIds.length then .error attachmentLimit
  else if ¬request.attachmentIds.Nodup then .error attachmentIdsNotUnique
  else
    match request.attachmentIds.mapM (db.sessionFile loaded) with
    | none => .error attachmentInvalid
    | some files =>
      if ¬∀ file ∈ files, Attachable request file then .error attachmentInvalid
      else if s.maxMessageBytes < (files.map FileAsset.sizeBytes).sum then
        .error attachmentSizeLimit
      else do
        let attached ← files.mapM fun file =>
          attachmentBlock request (db.preview file.id) file
        let blocks := (if request.content = "" then [] else [.text request.content]) ++ attached
        if Text.strip request.content.toList = [] ∧ ∀ block ∈ blocks, isReadable block = false then
          .error emptyModelInput
        else if min s.attachmentTargetTurnTokens (s.contextBudgetTokens / 2) <
            request.messageTokens ⟨.user, blocks⟩ then
          .error targetTurnTooLarge
        else .ok ⟨files, blocks⟩

/-- What `bind_attachment_plan` does with one asset of the plan. -/
def bindAttachment (messageId now : ℕ) (db : FileDb) (entry : FileAsset × ℕ) : FileDb :=
  let file := entry.1
  { db with
    attachments := db.attachments ++ [⟨messageId, some file.id, entry.2⟩]
    files :=
      match db.files.get? file.id with
      | none => db.files
      | some row => db.files.set (FileAsset.flush file (file.bind messageId now) row) }

/-- `bind_attachment_plan`. -/
def bindAttachmentPlan (messageId : ℕ) (plan : AttachmentPlan) (now : ℕ) (db : FileDb) : FileDb :=
  plan.files.zipIdx.foldl (bindAttachment messageId now) db

/-- An unarchived message attaches the asset. -/
def CurrentReference (db : FileDb) (fileId : ℕ) : Prop :=
  ∃ a ∈ db.attachments, a.fileId = some fileId ∧
    ∃ m ∈ db.messages, m.id = a.messageId ∧ m.archivedAt = none

instance (db : FileDb) (fileId : ℕ) : Decidable (db.CurrentReference fileId) :=
  inferInstanceAs (Decidable (∃ a ∈ db.attachments, _))

/-- `refresh_detached_state`, for one asset. -/
def refreshDetachedState (loaded : List FileAsset) (now : ℕ) (db : FileDb) (fileId : ℕ) : FileDb :=
  match db.files.get? fileId, db.sessionFile loaded fileId with
  | some row, some file =>
    if file.deletionStartedAt ≠ none then db
    else
      let detachedAt := if db.CurrentReference fileId then none else some now
      { db with
        files := db.files.set (FileAsset.flush file { file with detachedAt := detachedAt } row) }
  | _, _ => db

end FileDb

end IChat.Files

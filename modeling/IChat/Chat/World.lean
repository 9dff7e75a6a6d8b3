import IChat.Conversations.Service
import IChat.Files.Maintenance
import IChat.Runs.History
import IChat.Search.SourceRegistry

/-!
# The system of conversations and files

One database, and the parties that write to it: the requests of the API, the workers that execute
runs and process uploads, and the maintenance tasks. Each action is a transaction, or a part of
one.

* A transaction that locks every row it reads takes effect at once (`FileTx`, and the actions that
  write `db` directly).
* An edit, a regeneration and a purge lock the row of their conversation, but read assets without a
  lock. Each of them holds the conversation (`Session`) between its reads and its commit, while the
  other parties go on. Whoever wants to lock the conversation waits; so does whoever inserts a
  message into it, since the foreign key asks for a lock.

The moments of the actions are their own, and need not grow.
-/

namespace IChat.Chat

open Files Conversations Search

/-- What the code takes from its surroundings. -/
structure Env where
  settings : Files.Settings
  /-- `json.loads`, for the tool calls of legacy transcripts. -/
  loads : String → Option Json
  unicode : Url.UnicodeData

/-! ### Transactions of the files domain -/

/-- A transaction of the files domain. -/
inductive FileTx
  | createUpload (userId : ℕ) (originalFilename : String) (origin : FileOrigin)
      (contentType : List Char) (sizeBytes : ℕ) (multipartSupported : Bool)
  | createAvatarUpload (userId : ℕ) (originalFilename : String) (contentType : List Char)
      (sizeBytes : ℕ)
  | moveAvatarUpload (uploadId : ℕ) (target : FileUploadStatus) (errorCode : Option String)
  | confirmUpload (userId uploadId : ℕ) (etag : Option (List Char)) (parts : Option (List ℕ))
      (metadata : Option StorageObjectMetadata)
  | cancelUploads (userId : ℕ) (uploadIds : List ℕ)
  | claimUpload (owner uploadId : ℕ)
  | persistManifest (uploadId owner : ℕ) (manifest : List ManifestEntry)
  | finishError (uploadId owner : ℕ) (code : String) (retryable : Bool) (attemptCount : ℕ)
  | commitSuccess (uploadId owner : ℕ) (processed : FileDb.ProcessedColumns)
      (manifest : List ManifestEntry)
  | recordStagingDeleted (uploadId : ℕ)
  | sweepUploads (selection : SweepSelection)
  | cleanupStaging (uploadId : ℕ)
  | reclaimAssets (fileIds : List ℕ)
  | completeDeletion (deletionId : ℕ)
  | retryDeletion (deletionId : ℕ)
  | reconcileQuota (userId : ℕ)
  | deactivateUser (userId : ℕ)

/-- Execute a transaction. -/
def FileTx.run (s : Files.Settings) (now : ℕ) (db : FileDb) : FileTx → Except FileError FileDb
  | createUpload userId originalFilename origin contentType sizeBytes multipartSupported =>
    db.createUpload s userId originalFilename origin contentType sizeBytes multipartSupported now
  | createAvatarUpload userId originalFilename contentType sizeBytes =>
    db.createAvatarUpload s userId originalFilename contentType sizeBytes now
  | moveAvatarUpload uploadId target errorCode => db.moveAvatarUpload uploadId target now errorCode
  | confirmUpload userId uploadId etag parts metadata =>
    db.confirmUpload userId uploadId etag parts metadata now
  | cancelUploads userId uploadIds => db.cancelUploads userId uploadIds now
  | claimUpload owner uploadId => (db.claimUpload s owner uploadId now).map Prod.fst
  | persistManifest uploadId owner manifest => db.persistManifest uploadId owner manifest
  | finishError uploadId owner code retryable attemptCount =>
    db.finishError s uploadId owner code retryable attemptCount now
  | commitSuccess uploadId owner processed manifest =>
    db.commitSuccess s uploadId owner processed manifest now
  | recordStagingDeleted uploadId => db.recordStagingDeleted uploadId now
  | sweepUploads selection => db.sweepUploads s selection now
  | cleanupStaging uploadId => db.cleanupStaging s uploadId now
  | reclaimAssets fileIds => db.reclaimAssets s fileIds now
  | completeDeletion deletionId => db.completeDeletion deletionId now
  | retryDeletion deletionId => db.retryDeletion deletionId now
  | reconcileQuota userId => .ok (db.reconcileQuota userId)
  | deactivateUser userId => db.deactivateUser userId now

/-! ### The world -/

/-- What a transaction knows that holds a conversation. -/
inductive Session
  | edit (request : RunRequest) (messageId : ℕ) (newContent : String)
      (attachmentIds : Option (List ℕ)) (loaded : List FileAsset)
  | regenerate (request : RunRequest) (messageId : ℕ) (loaded : List FileAsset)
  /-- The assets that the purge has still to read, and those it has read. -/
  | purge (now : ℕ) (unread : List ℕ) (files : List FileAsset)

/-- The database, the transactions that hold a conversation, and the registries of the runs that a
worker executes. -/
structure ChatWorld where
  db : FileDb
  sessions : ℕ → Option Session
  registries : ℕ → Option SourceRegistry

/-- Nothing has happened. -/
def ChatWorld.init : ChatWorld := ⟨.empty, fun _ => none, fun _ => none⟩

/-- An action of one of the parties. -/
inductive Action
  | files (now : ℕ) (tx : FileTx)
  | createConversation (userId : ℕ)
  | deleteConversation (userId conversationId now : ℕ)
  | restoreConversation (userId conversationId now : ℕ)
  | submit (request : RunRequest) (content : String) (attachmentIds : List ℕ)
      (replyQuote : Option ReplyQuoteRequest)
  | beginEdit (request : RunRequest) (messageId : ℕ) (newContent : String)
      (attachmentIds : Option (List ℕ))
  | beginRegenerate (request : RunRequest) (messageId : ℕ)
  | beginPurge (conversationId now : ℕ)
  /-- The purge reads its next asset. -/
  | readPurged (conversationId : ℕ)
  /-- The transaction that holds the conversation commits. -/
  | commit (conversationId : ℕ)
  /-- The transaction that holds the conversation rolls back. -/
  | rollback (conversationId : ℕ)
  | advanceRun (runId : ℕ) (status : RunStatus)
  /-- A worker builds the agent of a run, with the sources of the conversation. -/
  | restoreSources (runId : ℕ)
  /-- A tool call of a run registers what it has found. -/
  | registerSources (runId : ℕ) (results : List SearchResult) (extracts : List ExtractResult)
      (maxSourceChars : ℕ)
  | succeedRun (runId : ℕ) (transcript : List Message)
  | endRun (runId : ℕ) (status : RunStatus) (transcript : List Message)

namespace ChatWorld

variable (w : ChatWorld) (conversationId : ℕ)

/-- Nobody holds the conversation. -/
def Unlocked : Prop := w.sessions conversationId = none

instance : Decidable (w.Unlocked conversationId) :=
  decidable_of_iff ((w.sessions conversationId).isNone = true) (by simp [Unlocked])

/-- The world after a transaction, which must not fail. -/
def write (result : Except FileError FileDb) : Option ChatWorld :=
  match result with
  | .error _ => none
  | .ok db => some { w with db }

/-- The same for a transaction that writes the tables of the conversations only. -/
def writeTables (result : Except FileError ConversationTables) : Option ChatWorld :=
  w.write (result.map fun tables => { w.db with toConversationTables := tables })

/-- A transaction takes the lock of a conversation, or gives it back. -/
def setSession (session : Option Session) : ChatWorld :=
  { w with sessions := Function.update w.sessions conversationId session }

/-- The assets that the messages of a conversation refer to. -/
def attachedFileIds (db : FileDb) (conversationId : ℕ) : List ℕ :=
  ((db.attachments.filter fun a => db.AttachedIn conversationId a).filterMap
    MessageAttachment.fileId).dedup

/-- The commit of a transaction that holds a conversation. -/
def commitSession (env : Env) (session : Session) : Except FileError FileDb :=
  match session with
  | .edit request messageId newContent attachmentIds loaded =>
    w.db.editUserMessage env.loads env.settings request messageId newContent attachmentIds loaded
  | .regenerate request messageId loaded =>
    w.db.regenerateFromMessage env.loads env.settings request messageId loaded
  | .purge now unread files =>
    if unread ≠ [] then .error .noRow else w.db.purgeConversation conversationId files now

/-- The metadata of the answer of a run, if its citations can be read. -/
def answerMetadata (env : Env) (runId : ℕ) (transcript : List Message) : Option Json :=
  match w.registries runId with
  | none => some .null
  | some registry =>
    registry.assistantMetadata env.unicode ((transcript.getLast?.map Message.text).getD "")

end ChatWorld

/-- One action. -/
def step (env : Env) (w : ChatWorld) : Action → Option ChatWorld
  | .files now tx => w.write (tx.run env.settings now w.db)
  | .createConversation userId => w.writeTables (.ok (w.db.createConversation userId))
  | .deleteConversation userId conversationId now =>
    if w.Unlocked conversationId then
      w.writeTables (w.db.deleteConversation
        env.settings.conversationDeletionRetentionSeconds userId conversationId now)
    else none
  | .restoreConversation userId conversationId now =>
    if w.Unlocked conversationId then
      w.writeTables (w.db.restoreConversation userId conversationId now)
    else none
  | .submit request content attachmentIds replyQuote =>
    if w.Unlocked request.conversationId then
      w.write (w.db.submitUserMessage env.loads env.settings request content attachmentIds
        replyQuote)
    else none
  | .beginEdit request messageId newContent attachmentIds =>
    if w.Unlocked request.conversationId then
      match w.db.editTarget request messageId with
      | .error _ => none
      | .ok target =>
        some (w.setSession request.conversationId (some
          (.edit request messageId newContent attachmentIds
            (w.db.currentAttachmentFiles target.id))))
    else none
  | .beginRegenerate request messageId =>
    if w.Unlocked request.conversationId then
      match w.db.regenerateTarget request messageId with
      | .error _ => none
      | .ok anchor =>
        some (w.setSession request.conversationId (some
          (.regenerate request messageId (w.db.currentAttachmentFiles anchor.id))))
    else none
  | .beginPurge conversationId now =>
    if w.Unlocked conversationId ∧ w.db.Purgeable now conversationId then
      some (w.setSession conversationId (some
        (.purge now (ChatWorld.attachedFileIds w.db conversationId) [])))
    else none
  | .readPurged conversationId =>
    match w.sessions conversationId with
    | some (.purge now (fileId :: unread) files) =>
      some (w.setSession conversationId (some (.purge now unread
        (files ++ (w.db.purgedAsset conversationId fileId).toList))))
    | _ => none
  | .commit conversationId =>
    match w.sessions conversationId with
    | none => none
    | some session =>
      (w.setSession conversationId none).write (w.commitSession conversationId env session)
  | .rollback conversationId => some (w.setSession conversationId none)
  | .advanceRun runId status => w.writeTables (w.db.advanceRun runId status)
  | .restoreSources runId =>
    match w.db.loadPriorSources runId with
    | .error _ => none
    | .ok sources =>
      match SourceRegistry.restore env.unicode sources with
      | none => none
      | some registry =>
        some { w with registries := Function.update w.registries runId (some registry) }
  | .registerSources runId results extracts maxSourceChars =>
    match w.registries runId with
    | none => none
    | some registry =>
      some { w with
        registries := Function.update w.registries runId
          (some (registry.register env.unicode results extracts maxSourceChars)) }
  | .succeedRun runId transcript =>
    match w.db.runs.get? runId with
    | none => none
    | some run =>
      if w.Unlocked run.conversationId ∧ ∀ message ∈ transcript, message.IsOutput then
        (w.answerMetadata env runId transcript).bind fun metadata =>
          w.writeTables (w.db.succeedRun runId transcript metadata)
      else none
  | .endRun runId status transcript =>
    if ∀ message ∈ transcript, message.IsOutput then
      w.writeTables (w.db.endRun runId status transcript)
    else none

end IChat.Chat

import IChat.Chat.World
import IChat.Conversations.Requests
import IChat.Files.Frames

/-!
# What a step does to the conversations

Messages and runs change in six ways (`TablesStep`): a turn is added, a message is answered again, a
run moves on, succeeds or ends, and a conversation is purged. Every action of the system is one of
them or leaves the messages and runs alone (`step_tables`), so what concerns these tables only is
proved by cases on `TablesStep`.
-/

namespace IChat.Chat

open Files Conversations Search

/-- What a step does to the tables of the conversations, when it carries out certain requests. -/
inductive TablesStep (loads : String → Option Json) (asks : RunRequest → Prop) :
    ConversationTables → ConversationTables → Prop
  | conversations {db : ConversationTables} (conversations : Table Conversation Conversation.id) :
      TablesStep loads asks db { db with conversations }
  | turn {db db' : ConversationTables} {request : RunRequest} {content : String}
      {quoteExcerpt : Option String} {p : ℕ → Bool} {files : List FileAsset}
      {blocks : List ContentBlock} (asked : asks request)
      (idle : ¬db.HasActiveRun request.conversationId)
      (upper : ∀ x y, x ≤ y → p x = true → p y = true)
      (cut : ∀ x, p x = true → ∃ target ∈ db.messages,
        target.conversationId = request.conversationId ∧ target.archivedAt = none ∧
          target.role = .user ∧ p target.position = true ∧ target.position ≤ x)
      (images : Requests.ImagesFit loads request p db)
      (input : PlannedInput request.supportsImageInput (modelContent quoteExcerpt content) files
        blocks)
      (result : ((db.archiveMessages request.conversationId p request.now).insertMessage
        request.conversationId db.runs.next .user content quoteExcerpt .null).insertRun request
          db.messages.next blocks = .ok db') :
      TablesStep loads asks db db'
  | rerun {db db' : ConversationTables} {request : RunRequest} {anchor : MessageRow}
      {files : List FileAsset} {blocks : List ContentBlock} (asked : asks request)
      (idle : ¬db.HasActiveRun request.conversationId) (mem : anchor ∈ db.messages)
      (here : anchor.conversationId = request.conversationId) (shown : anchor.archivedAt = none)
      (role : anchor.role ≠ .assistant)
      (images : Requests.ImagesFit loads request (anchor.position ≤ ·) db)
      (input : PlannedInput request.supportsImageInput
        (modelContent anchor.replyQuoteExcerpt anchor.content) files blocks)
      (result : (db.archiveMessages request.conversationId (anchor.position < ·)
        request.now).insertRun request anchor.id blocks = .ok db') :
      TablesStep loads asks db { db' with
        messages := db'.messages.set { anchor with runId := some db.runs.next } }
  | advance {db db' : ConversationTables} (runId : ℕ) (status : RunStatus)
      (result : db.advanceRun runId status = .ok db') : TablesStep loads asks db db'
  | succeed {db db' : ConversationTables} (runId : ℕ) (transcript : List Message) (metadata : Json)
      (output : ∀ message ∈ transcript, message.IsOutput)
      (result : db.succeedRun runId transcript metadata = .ok db') : TablesStep loads asks db db'
  | ended {db db' : ConversationTables} (runId : ℕ) (status : RunStatus) (transcript : List Message)
      (output : ∀ message ∈ transcript, message.IsOutput)
      (result : db.endRun runId status transcript = .ok db') : TablesStep loads asks db db'
  | purge {db : ConversationTables} (conversationId : ℕ)
      (conversations : Table Conversation Conversation.id) :
      TablesStep loads asks db
        { conversations
          messages := db.messages.filter fun m => m.conversationId ≠ conversationId
          runs := db.runs.filter fun run => run.conversationId ≠ conversationId }

/-- Nothing changes. -/
theorem TablesStep.refl (loads : String → Option Json) (asks : RunRequest → Prop)
    (db : ConversationTables) : TablesStep loads asks db db :=
  .conversations db.conversations

/-- A step may come from more requests. -/
theorem TablesStep.mono {loads : String → Option Json} {asks asks' : RunRequest → Prop}
    {db db' : ConversationTables} (h : TablesStep loads asks db db')
    (hasks : ∀ request, asks request → asks' request) : TablesStep loads asks' db db' := by
  cases h with
  | conversations conversations => exact .conversations conversations
  | turn asked idle upper cut images input result =>
    exact .turn (hasks _ asked) idle upper cut images input result
  | rerun asked idle mem here shown role images input result =>
    exact .rerun (hasks _ asked) idle mem here shown role images input result
  | advance runId status result => exact .advance runId status result
  | succeed runId transcript metadata output result =>
    exact .succeed runId transcript metadata output result
  | ended runId status transcript output result =>
      exact .ended runId status transcript output result
  | purge conversationId conversations => exact .purge conversationId conversations

/-! ### Files -/

/-- What a transaction of the files domain does to the tables that it shares. -/
inductive FileEffect (db db' : FileDb) : Prop
  | same (h : FileDb.SameFiles db db')
  | deletions (h : FileDb.DeletionsStarted db.UnboundOrDetached db db')
  | inserted (h : FileDb.AssetInserted db db')
  | erased (fileId : ℕ) (h : FileDb.AssetErased fileId db db')

theorem FileEffect.tables {db db' : FileDb} (h : FileEffect db db') :
    db'.toConversationTables = db.toConversationTables := by
  cases h with
  | same h => exact h.tables
  | deletions h => exact h.tables
  | inserted h => exact h.tables
  | erased _ h => exact h.tables

/-- Every transaction of the files domain has one of the four effects. -/
theorem FileTx.effect {s : Files.Settings} {now : ℕ} {db db' : FileDb} {tx : FileTx}
    (h : tx.run s now db = .ok db') : FileEffect db db' := by
  cases tx with
  | createUpload => exact .same (FileDb.createUpload_sameFiles h)
  | createAvatarUpload => exact .same (FileDb.createAvatarUpload_sameFiles h)
  | moveAvatarUpload => exact .same (FileDb.moveAvatarUpload_sameFiles h)
  | confirmUpload => exact .same (FileDb.confirmUpload_sameFiles h)
  | cancelUploads =>
    refine .deletions ((FileDb.cancelUploads_deletionsStarted h).mono fun id hid => ?_)
    obtain ⟨file, hfile, hunbound⟩ := hid
    exact ⟨file, hfile, .inl hunbound⟩
  | claimUpload =>
    obtain ⟨claimed, hclaim, rfl⟩ := map_eq_ok_iff.mp h
    exact .same (FileDb.claimUpload_sameFiles hclaim)
  | persistManifest => exact .same (FileDb.persistManifest_sameFiles h)
  | finishError => exact .same (FileDb.finishError_sameFiles h)
  | commitSuccess =>
    rcases FileDb.commitSuccess_eq_ok h with hsame | hinserted
    · exact .same hsame
    · exact .inserted hinserted
  | recordStagingDeleted => exact .same (FileDb.recordStagingDeleted_sameFiles h)
  | sweepUploads => exact .same (FileDb.sweepUploads_sameFiles h)
  | cleanupStaging => exact .same (FileDb.cleanupStaging_sameFiles h)
  | reclaimAssets => exact .deletions (FileDb.reclaimAssets_deletionsStarted h)
  | completeDeletion =>
    rcases FileDb.completeDeletion_eq_ok h with hsame | ⟨fileId, herased⟩
    · exact .same hsame
    · exact .erased fileId herased
  | retryDeletion => exact .same (FileDb.retryDeletion_sameFiles h)
  | reconcileQuota =>
    cases h
    exact .same ⟨rfl, rfl, rfl⟩
  | deactivateUser => exact .same (FileDb.deactivateUser_sameFiles h)

/-! ### Writes -/

namespace ChatWorld

variable {w w' : ChatWorld}

theorem write_eq_some {result : Except FileError FileDb} (h : w.write result = some w') :
    ∃ db, result = .ok db ∧ w' = { w with db } := by
  cases result with
  | error => cases h
  | ok db => exact ⟨db, rfl, (Option.some.inj h).symm⟩

theorem writeTables_eq_some {result : Except FileError ConversationTables}
    (h : w.writeTables result = some w') :
    ∃ tables, result = .ok tables ∧
      w' = { w with db := { w.db with toConversationTables := tables } } := by
  obtain ⟨db, hresult, rfl⟩ := write_eq_some h
  obtain ⟨tables, htables, rfl⟩ := map_eq_ok_iff.mp hresult
  exact ⟨tables, htables, rfl⟩

/-- A purge reads another file. -/
theorem step_readPurged {env : Env} {conversationId : ℕ}
    (h : step env w (.readPurged conversationId) = some w') :
    ∃ now fileId unread files,
      w.sessions conversationId = some (.purge now (fileId :: unread) files) ∧
      w' = w.setSession conversationId (some (.purge now unread
        (files ++ (w.db.purgedAsset conversationId fileId).toList))) := by
  simp only [step] at h
  split at h
  · next hsession =>
    cases h
    exact ⟨_, _, _, _, hsession, rfl⟩
  · cases h

/-- A transaction writes, and gives its conversation back. -/
theorem step_commit {env : Env} {conversationId : ℕ}
    (h : step env w (.commit conversationId) = some w') :
    ∃ session db, w.sessions conversationId = some session ∧
      w.commitSession conversationId env session = .ok db ∧
      w' = { w.setSession conversationId none with db } := by
  simp only [step] at h
  split at h
  · cases h
  · next session hsession =>
    obtain ⟨db, hresult, rfl⟩ := write_eq_some h
    exact ⟨session, db, hsession, hresult, rfl⟩

/-- The sources of a run live in its registry. -/
theorem step_restoreSources {env : Env} {runId : ℕ}
    (h : step env w (.restoreSources runId) = some w') :
    ∃ registries, w' = { w with registries } := by
  simp only [step] at h
  split at h
  · cases h
  · split at h <;> cases h
    exact ⟨_, rfl⟩

theorem step_registerSources {env : Env} {runId : ℕ} {results : List SearchResult}
    {extracts : List ExtractResult} {maxSourceChars : ℕ}
    (h : step env w (.registerSources runId results extracts maxSourceChars) = some w') :
    ∃ registries, w' = { w with registries } := by
  simp only [step] at h
  split at h <;> cases h
  exact ⟨_, rfl⟩

/-- What a step that stores an answer has read and written. -/
theorem step_succeedRun {env : Env} {runId : ℕ} {transcript : List Message}
    (h : step env w (.succeedRun runId transcript) = some w') :
    ∃ run metadata tables, w.db.runs.get? runId = some run ∧ w.Unlocked run.conversationId ∧
      (∀ message ∈ transcript, message.IsOutput) ∧
      w.db.succeedRun runId transcript metadata = .ok tables ∧
      w' = { w with db := { w.db with toConversationTables := tables } } := by
  simp only [step] at h
  split at h
  · cases h
  · next run hrun =>
    obtain ⟨⟨hunlocked, houtput⟩, h⟩ := Option.ite_none_right_eq_some.mp h
    obtain ⟨metadata, -, h⟩ := Option.bind_eq_some_iff.mp h
    obtain ⟨tables, hresult, rfl⟩ := writeTables_eq_some h
    exact ⟨run, metadata, tables, hrun, hunlocked, houtput, hresult, rfl⟩

end ChatWorld

/-! ### Requests -/

open Requests

variable {loads : String → Option Json} {asks : RunRequest → Prop} {request : RunRequest}
  {db db' : FileDb}

theorem bindAttachmentPlan_tables {messageId now : ℕ} {plan : AttachmentPlan} :
    (db.bindAttachmentPlan messageId plan now).toConversationTables = db.toConversationTables := by
  unfold FileDb.bindAttachmentPlan
  induction plan.files.zipIdx generalizing db with
  | nil => rfl
  | cons entry entries ih => exact ih

theorem refreshDetachedState_tables {held : List FileAsset} {now fileId : ℕ} :
    (db.refreshDetachedState held now fileId).toConversationTables = db.toConversationTables := by
  unfold FileDb.refreshDetachedState
  split
  · split <;> rfl
  · rfl

theorem foldl_refreshDetachedState_tables {held : List FileAsset} {now : ℕ} {fileIds : List ℕ} :
    (fileIds.foldl (FileDb.refreshDetachedState held now) db).toConversationTables =
      db.toConversationTables := by
  induction fileIds generalizing db with
  | nil => rfl
  | cons fileId fileIds ih => exact ih.trans refreshDetachedState_tables

/-- Inserting a turn binds its plan after its rows are written. -/
theorem insertTurn_eq_ok {content : String} {quoteExcerpt : Option String} {plan : AttachmentPlan}
    (h : db.insertTurn request content quoteExcerpt plan = .ok db') :
    ∃ tables, (db.insertMessage request.conversationId db.runs.next .user content quoteExcerpt
        .null).insertRun request db.messages.next plan.blocks = .ok tables ∧
      db' = FileDb.bindAttachmentPlan db.messages.next plan request.now
        { db with toConversationTables := tables } := by
  obtain ⟨tables, htables, h⟩ := bind_eq_ok_iff.mp h
  cases h
  exact ⟨tables, htables, rfl⟩

theorem turn_tables {content : String} {quoteExcerpt : Option String} {p : ℕ → Bool}
    {ids : List ℕ} {loaded : List FileAsset} {plan : AttachmentPlan}
    (hasked : asks request) (h : Turn loads request content quoteExcerpt p ids loaded plan db db') :
    TablesStep loads asks db.toConversationTables db'.toConversationTables := by
  obtain ⟨legacy, haccepted⟩ := h.accepted
  obtain ⟨tables, htables, rfl⟩ := insertTurn_eq_ok h.inserted
  rw [bindAttachmentPlan_tables]
  exact .turn hasked h.idle h.upper h.cut h.images haccepted.input htables

theorem rerun_tables {anchor : MessageRow} {loaded : List FileAsset} {plan : AttachmentPlan}
    (hasked : asks request) (h : Rerun loads request anchor loaded plan db db') :
    TablesStep loads asks db.toConversationTables db'.toConversationTables := by
  obtain ⟨legacy, haccepted⟩ := h.accepted
  obtain ⟨tables, htables, rfl⟩ := h.result
  exact .rerun hasked h.idle h.mem h.here h.shown h.role h.images haccepted.input htables

/-! ### The step -/

/-- The request that a transaction carries out. -/
def Session.Asks (session : Session) (request : RunRequest) : Prop :=
  match session with
  | .edit asked .. => asked = request
  | .regenerate asked .. => asked = request
  | .purge .. => False

/-- The request that an action carries out. -/
def Action.Asks (w : ChatWorld) (action : Action) (request : RunRequest) : Prop :=
  match action with
  | .submit asked .. => asked = request
  | .commit conversationId => ∃ session, w.sessions conversationId = some session ∧
      session.Asks request
  | _ => False

theorem commitSession_tables {env : Env} {w : ChatWorld} {conversationId : ℕ} {session : Session}
    (h : w.commitSession conversationId env session = .ok db') :
    TablesStep env.loads session.Asks w.db.toConversationTables db'.toConversationTables := by
  cases session with
  | edit =>
    obtain ⟨target, plan, turned, -, hturn, heq⟩ := editUserMessage_eq_ok h
    rw [heq, foldl_refreshDetachedState_tables]
    exact turn_tables rfl hturn
  | regenerate =>
    obtain ⟨anchor, plan, -, hrerun⟩ := regenerateFromMessage_eq_ok h
    exact rerun_tables rfl hrerun
  | purge =>
    obtain ⟨-, h⟩ := ite_error_eq_ok_iff.mp h
    obtain ⟨purged, hpurged, h⟩ := bind_eq_ok_iff.mp h
    cases h
    have htables := (FileDb.beginAssetDeletions_deletionsStarted hpurged).tables
    rw [htables]
    exact .purge conversationId _

/-- A conversation that is deleted or restored keeps its messages and runs. -/
theorem deleteConversation_messages {tables tables' : ConversationTables}
    {retentionSeconds userId conversationId now : ℕ}
    (h : tables.deleteConversation retentionSeconds userId conversationId now = .ok tables') :
    tables'.messages = tables.messages ∧ tables'.runs = tables.runs := by
  unfold ConversationTables.deleteConversation at h
  split at h
  · cases h
  · obtain ⟨-, h⟩ := ite_error_eq_ok_iff.mp h
    cases h
    exact ⟨rfl, rfl⟩

theorem restoreConversation_messages {tables tables' : ConversationTables}
    {userId conversationId now : ℕ}
    (h : tables.restoreConversation userId conversationId now = .ok tables') :
    tables'.messages = tables.messages ∧ tables'.runs = tables.runs := by
  unfold ConversationTables.restoreConversation at h
  split at h
  · cases h
  · obtain ⟨-, h⟩ := ite_error_eq_ok_iff.mp h
    obtain ⟨-, h⟩ := ite_error_eq_ok_iff.mp h
    cases h
    exact ⟨rfl, rfl⟩

/-- Only the conversations' own rows differ. -/
theorem TablesStep.of_messages_eq {tables tables' : ConversationTables}
    (h : tables'.messages = tables.messages ∧ tables'.runs = tables.runs) :
    TablesStep loads asks tables tables' := by
  obtain ⟨conversations, messages, runs⟩ := tables'
  obtain ⟨rfl, rfl⟩ := h
  exact .conversations conversations

/-- **The conversations' side of the system.** -/
theorem step_tables {env : Env} {w w' : ChatWorld} {action : Action}
    (h : step env w action = some w') :
    TablesStep env.loads (action.Asks w) w.db.toConversationTables
      w'.db.toConversationTables := by
  cases action with
  | files =>
    obtain ⟨db, hrun, rfl⟩ := ChatWorld.write_eq_some h
    rw [(FileTx.effect hrun).tables]
    exact .refl _ _ _
  | createConversation =>
    obtain ⟨tables, hresult, rfl⟩ := ChatWorld.writeTables_eq_some h
    cases hresult
    exact .conversations _
  | deleteConversation =>
    obtain ⟨-, h⟩ := Option.ite_none_right_eq_some.mp h
    obtain ⟨tables, hresult, rfl⟩ := ChatWorld.writeTables_eq_some h
    exact .of_messages_eq (deleteConversation_messages hresult)
  | restoreConversation =>
    obtain ⟨-, h⟩ := Option.ite_none_right_eq_some.mp h
    obtain ⟨tables, hresult, rfl⟩ := ChatWorld.writeTables_eq_some h
    exact .of_messages_eq (restoreConversation_messages hresult)
  | submit =>
    obtain ⟨-, h⟩ := Option.ite_none_right_eq_some.mp h
    obtain ⟨db, hresult, rfl⟩ := ChatWorld.write_eq_some h
    obtain ⟨quoteExcerpt, plan, hturn⟩ := submitUserMessage_eq_ok hresult
    exact turn_tables rfl hturn
  | beginEdit | beginRegenerate =>
    obtain ⟨-, h⟩ := Option.ite_none_right_eq_some.mp h
    split at h
    · cases h
    · cases h
      exact .refl _ _ _
  | beginPurge =>
    obtain ⟨-, h⟩ := Option.ite_none_right_eq_some.mp h
    cases h
    exact .refl _ _ _
  | readPurged =>
    obtain ⟨_, _, _, _, -, rfl⟩ := ChatWorld.step_readPurged h
    exact .refl _ _ _
  | commit =>
    obtain ⟨session, db, hsession, hresult, rfl⟩ := ChatWorld.step_commit h
    exact (commitSession_tables hresult).mono fun request hasks => ⟨session, hsession, hasks⟩
  | rollback =>
    cases h
    exact .refl _ _ _
  | advanceRun runId status =>
    obtain ⟨tables, hresult, rfl⟩ := ChatWorld.writeTables_eq_some h
    exact .advance runId status hresult
  | restoreSources =>
    obtain ⟨_, rfl⟩ := ChatWorld.step_restoreSources h
    exact .refl _ _ _
  | registerSources =>
    obtain ⟨_, rfl⟩ := ChatWorld.step_registerSources h
    exact .refl _ _ _
  | succeedRun runId transcript =>
    obtain ⟨_, _, _, -, -, houtput, hresult, rfl⟩ := ChatWorld.step_succeedRun h
    exact .succeed runId transcript _ houtput hresult
  | endRun runId status transcript =>
    obtain ⟨houtput, h⟩ := Option.ite_none_right_eq_some.mp h
    obtain ⟨tables, hresult, rfl⟩ := ChatWorld.writeTables_eq_some h
    exact .ended runId status transcript houtput hresult

end IChat.Chat

import IChat.General.Table
import IChat.Runs.Database
import IChat.Runs.Transcript

/-!
# The tables of a conversation

The rows of `conversations`, `messages` and `runs`, with the columns that the history, the image
context and the attachments of a conversation are read from. A run keeps its transcript, the rows
of `run_provider_messages`, in the order of their insertion.
-/

namespace IChat.Conversations

/-- A row of `conversations`. -/
structure Conversation where
  id : ℕ
  userId : ℕ
  deletedAt : Option ℕ
  deletionDueAt : Option ℕ
  deriving DecidableEq

/-- A row of `messages`. -/
structure MessageRow where
  id : ℕ
  conversationId : ℕ
  runId : Option ℕ
  role : Role
  content : String
  replyQuoteExcerpt : Option String
  metadata : Json
  position : ℕ
  archivedAt : Option ℕ
  deriving DecidableEq

/-- A row of `runs`. The snapshot of the model's configuration is `null` for runs of the legacy
catalog; whether the model takes images is a column of its own here. -/
structure RunRow where
  id : ℕ
  conversationId : ℕ
  userMessageId : ℕ
  status : RunStatus
  providerName : String
  providerModel : String
  modelConfigSnapshot : Json
  supportsImageInput : Option Bool
  transcript : List Transcript.TranscriptRow
  deriving DecidableEq

/-- The tables of the conversations. -/
structure ConversationTables where
  conversations : Table Conversation Conversation.id
  messages : Table MessageRow MessageRow.id
  runs : Table RunRow RunRow.id

/-- No rows. -/
def ConversationTables.empty : ConversationTables := ⟨.empty, .empty, .empty⟩

/-- The unarchived messages of a conversation, by position. -/
def ConversationTables.visible (db : ConversationTables) (conversationId : ℕ) : List MessageRow :=
  (db.messages.rows.filter fun m => m.conversationId = conversationId ∧ m.archivedAt = none)
    |>.insertionSort fun a b => a.position ≤ b.position

end IChat.Conversations

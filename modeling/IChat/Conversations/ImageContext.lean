import IChat.Conversations.Records
import IChat.Files.Bindings

/-!
# The image context of a conversation

`image_context.py`: which visible user messages carry images, read from the transcripts of their
current runs. A message has image blocks that need a vision model, or notices of images from
before (`legacyFileIds`).
-/

namespace IChat.Conversations

open Transcript

/-- `MessageImageFacts`. -/
structure MessageImageFacts where
  messageId : ℕ
  position : ℕ
  visionFileIds : List String
  legacyFileIds : List String
  deriving DecidableEq

/-- `ImageContextFacts`. -/
abbrev ImageContextFacts := List MessageImageFacts

namespace ImageContextFacts

variable (facts : ImageContextFacts)

/-- `has_vision`. -/
def hasVision : Bool := facts.any fun m => m.visionFileIds ≠ []

/-- `has_legacy`. -/
def hasLegacy : Bool := facts.any fun m => m.legacyFileIds ≠ []

/-- `legacy_message_id`. -/
def legacyMessageId : Option ℕ :=
  if facts.hasVision then none
  else (facts.find? fun m => m.legacyFileIds ≠ []).map MessageImageFacts.messageId

/-- `for_message`. -/
def forMessage (messageId : ℕ) : Option MessageImageFacts :=
  facts.find? fun m => m.messageId = messageId

/-- `before`. -/
def before (position : ℕ) : ImageContextFacts := facts.filter fun m => m.position < position

end ImageContextFacts

/-- The file of an image block. -/
def visionFileId : ContentBlock → Option String
  | .image fileId .. => some fileId
  | _ => none

/-- The file of a notice about an image. -/
def legacyFileId : ContentBlock → Option String
  | .attachmentNotice fileId _ mediaType _ =>
    if Files.isImageType mediaType then some fileId else none
  | _ => none

/-- `_message_facts`. -/
def messageFacts (message : MessageRow) (blocks : List ContentBlock) : MessageImageFacts where
  messageId := message.id
  position := message.position
  visionFileIds := blocks.filterMap visionFileId
  legacyFileIds := blocks.filterMap legacyFileId

namespace ConversationTables

variable (loads : String → Option Json) (db : ConversationTables)

/-- The user input of a message in the transcript of its current run. -/
def inputRow (message : MessageRow) : Option TranscriptRow := do
  let runId ← message.runId
  let run ← db.runs.get? runId
  (run.transcript.filter fun row =>
    row.messageId = some message.id ∧ row.role = Role.user.value).getLast?

/-- The facts of one message. -/
def imageFacts (message : MessageRow) : Except String MessageImageFacts :=
  match db.inputRow message with
  | none => .ok (messageFacts message [])
  | some row => do
    let input ← transcriptMessageFromRow loads row
    .ok (messageFacts message input.blocks)

/-- The visible messages of the user. -/
def visibleUserMessages (conversationId : ℕ) : List MessageRow :=
  (db.visible conversationId).filter fun m => m.role = .user

/-- `derive_image_context`. -/
def deriveImageContext (conversationId : ℕ) : Except String ImageContextFacts :=
  (db.visibleUserMessages conversationId).mapM (db.imageFacts loads)

end ConversationTables

end IChat.Conversations

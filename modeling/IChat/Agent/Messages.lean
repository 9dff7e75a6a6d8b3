import IChat.General.Json

/-!
# Messages and agent events

The vocabulary of the agent kernel: a message is a role with a list of content blocks, and an
agent run is a stream of `AgentEvent`s. Events carry no sequence number; the worker assigns one to
every event it forwards.
-/

namespace IChat

/-- Author of a message. -/
inductive Role where
  | system
  | user
  | assistant
  deriving DecidableEq

/-- The wire value of a role. -/
def Role.value : Role → String
  | .system => "system"
  | .user => "user"
  | .assistant => "assistant"

/-- Kind of visible model reasoning. -/
inductive ReasoningKind where
  | raw
  | summary
  deriving DecidableEq

/-- The wire value of a reasoning kind. -/
def ReasoningKind.value : ReasoningKind → String
  | .raw => "raw"
  | .summary => "summary"

/-- The blocks a message is built from. -/
inductive ContentBlock where
  | text (text : String)
  | document (fileId filename mediaType text sha256 extractorVersion : String)
      (warnings : List String) (summary : Option Dict) (origin : String)
  | image (fileId filename mediaType sha256 : String) (width height : Int)
      (processorVersion : String) (warnings : List String)
  | attachmentNotice (fileId filename mediaType notice : String)
  | reasoning (text : String) (kind : ReasoningKind)
  | providerContinuation (owner codec scope : String) (payload : Dict)
  | toolCall (id name : String) (arguments : Dict)
  | toolResult (toolCallId content : String) (isError : Bool)
  deriving DecidableEq

/-- The kinds of blocks that `stream_model_call` assembles. -/
def ContentBlock.isModelOutput : ContentBlock → Bool
  | .text _ | .reasoning .. | .providerContinuation .. | .toolCall .. => true
  | _ => false

/-- The result of a tool call. -/
def ContentBlock.isToolResult : ContentBlock → Bool
  | .toolResult .. => true
  | _ => false

/-- A message of the neutral history. -/
structure Message where
  role : Role
  blocks : List ContentBlock
  deriving DecidableEq

namespace Message

/-- Concatenate the user-facing text blocks. -/
def text (m : Message) : String :=
  String.join (m.blocks.filterMap fun
    | .text text => some text
    | _ => none)

/-- Concatenate the reasoning blocks of one kind. -/
def reasoningText (m : Message) (kind : ReasoningKind) : String :=
  String.join (m.blocks.filterMap fun
    | .reasoning text k => if k = kind then some text else none
    | _ => none)

/-- The agent loop puts such messages out: the blocks of a model call, or the results of its tool
calls, which are the user's by convention. -/
def IsOutput (m : Message) : Prop :=
  match m.role with
  | .system => False
  | .assistant => ∀ block ∈ m.blocks, block.isModelOutput = true
  | .user => ∀ block ∈ m.blocks, block.isToolResult = true

instance : ∀ m : Message, Decidable m.IsOutput
  | ⟨.system, _⟩ => isFalse id
  | ⟨.assistant, blocks⟩ => inferInstanceAs (Decidable
      (∀ block ∈ blocks, block.isModelOutput = true))
  | ⟨.user, blocks⟩ => inferInstanceAs (Decidable (∀ block ∈ blocks, block.isToolResult = true))

end Message

/-- What `ChatAgent.stream()` yields. -/
inductive AgentEvent where
  | textDelta (text : String)
  | reasoningDelta (text : String) (kind : ReasoningKind)
  | toolCallStarted (toolName : String) (arguments : Dict) (batchSize : Int)
  | toolCallFinished (toolName : String) (isError : Bool) (metadata : Dict)
      (batchSourceCount : Option Int)
  | messageDone (message : Message)
  | agentFinal (usage : Option Dict) (providerRequestId : Option String)
  deriving DecidableEq

end IChat

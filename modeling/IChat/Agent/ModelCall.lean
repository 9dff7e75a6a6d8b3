import IChat.Agent.Messages

/-!
# One model call

`stream_model_call` as a fold over the provider's events: text and reasoning are passed on and
collected, adjacent pieces of one kind in one block; tool calls are collected apart from them and
follow in the assembled message. The call ends with the provider's `StreamDone`, with an error of
the provider, or with the error that stands for a stream without an end.
-/

namespace IChat

/-- `ProviderError`. -/
structure ProviderError where
  code : String
  message : String
  retryable : Bool
  deriving DecidableEq

/-- The error for a stream that ends without a finish event. -/
def noFinish : ProviderError where
  code := "no_finish"
  message := "Provider stream ended without a finish event"
  retryable := false

/-- `StreamEvent`: what a provider streams. -/
inductive StreamEvent where
  | textDelta (text : String)
  | reasoningDelta (text : String) (kind : ReasoningKind)
  | continuation (owner codec scope : String) (payload : Dict)
  | toolCallDone (id name : String) (arguments : Dict)
  | streamDone (finishReason : String) (usage : Option Dict) (providerRequestId : Option String)
  deriving DecidableEq

/-- Append a piece of text or reasoning: it extends the last block when that is of its kind. -/
def coalesceBlock (blocks : List ContentBlock) (block : ContentBlock) : List ContentBlock :=
  match blocks.getLast?, block with
  | some (.text previous), .text text => blocks.dropLast ++ [.text (previous ++ text)]
  | some (.reasoning previous kind), .reasoning text kind' =>
    if kind = kind' then blocks.dropLast ++ [.reasoning (previous ++ text) kind']
    else blocks ++ [block]
  | _, _ => blocks ++ [block]

/-- `_append_textual_block`. -/
def appendTextualBlock (blocks : List ContentBlock) (block : ContentBlock) : List ContentBlock :=
  coalesceBlock blocks block

/-- The two lists `stream_model_call` keeps. -/
structure ModelCall where
  responseBlocks : List ContentBlock
  toolCalls : List ContentBlock
  deriving DecidableEq

/-- The call has begun. -/
def ModelCall.init : ModelCall := ⟨[], []⟩

/-- `ModelCallResult`. -/
structure ModelCallResult where
  message : Message
  usage : Option Dict
  providerRequestId : Option String
  deriving DecidableEq

/-- What the loop of `stream_model_call` does with an event: it goes on, and has yielded a delta or
nothing, or it yields the result. -/
inductive ModelCallStep where
  | continues (call : ModelCall) (yielded : Option AgentEvent)
  | result (result : ModelCallResult)
  deriving DecidableEq

/-- The body of the loop of `stream_model_call`. -/
def ModelCall.step (call : ModelCall) : StreamEvent → ModelCallStep
  | .reasoningDelta text kind =>
    .continues
      { call with responseBlocks := appendTextualBlock call.responseBlocks (.reasoning text kind) }
      (some (.reasoningDelta text kind))
  | .textDelta text =>
    .continues { call with responseBlocks := appendTextualBlock call.responseBlocks (.text text) }
      (some (.textDelta text))
  | .continuation owner codec scope payload =>
    .continues
      { call with
        responseBlocks := call.responseBlocks ++ [.providerContinuation owner codec scope payload] }
      none
  | .toolCallDone id name arguments =>
    .continues { call with toolCalls := call.toolCalls ++ [.toolCall id name arguments] } none
  | .streamDone _ usage providerRequestId =>
    .result ⟨⟨.assistant, call.responseBlocks ++ call.toolCalls⟩, usage, providerRequestId⟩

/-- Membership in what a coalescing append leaves: a block that was there, the new one, or a block
of the new one's kind. -/
theorem mem_coalesceBlock {blocks : List ContentBlock} {block b : ContentBlock}
    (h : b ∈ coalesceBlock blocks block) :
    b ∈ blocks ∨ b = block ∨ (∃ text, b = .text text) ∨ ∃ text kind, b = .reasoning text kind := by
  unfold coalesceBlock at h
  split at h
  · rcases List.mem_append.mp h with hold | hnew
    · exact .inl ((List.dropLast_sublist _).subset hold)
    · exact .inr (.inr (.inl ⟨_, List.mem_singleton.mp hnew⟩))
  · split_ifs at h
    · rcases List.mem_append.mp h with hold | hnew
      · exact .inl ((List.dropLast_sublist _).subset hold)
      · exact .inr (.inr (.inr ⟨_, _, List.mem_singleton.mp hnew⟩))
    · rcases List.mem_append.mp h with hold | hnew
      · exact .inl hold
      · exact .inr (.inl (List.mem_singleton.mp hnew))
  · rcases List.mem_append.mp h with hold | hnew
    · exact .inl hold
    · exact .inr (.inl (List.mem_singleton.mp hnew))

/-- The block is a tool call. -/
def ContentBlock.isToolCall : ContentBlock → Bool
  | .toolCall .. => true
  | _ => false

/-- Tool calls are collected apart from all other blocks. -/
structure ModelCall.Collects (call : ModelCall) : Prop where
  response : ∀ block ∈ call.responseBlocks, block.isToolCall = false
  toolCalls : ∀ block ∈ call.toolCalls, block.isToolCall = true

theorem ModelCall.collects_init : ModelCall.init.Collects where
  response _ h := by cases h
  toolCalls _ h := by cases h

/-- An appended piece that is no tool call adds none. -/
theorem ModelCall.Collects.append {call : ModelCall} {block : ContentBlock} (h : call.Collects)
    (hblock : block.isToolCall = false) :
    ModelCall.Collects { call with responseBlocks := coalesceBlock call.responseBlocks block } where
  response b hb := by
    rcases mem_coalesceBlock hb with hold | rfl | ⟨text, rfl⟩ | ⟨text, kind, rfl⟩
    · exact h.response b hold
    · exact hblock
    · rfl
    · rfl
  toolCalls := h.toolCalls

theorem ModelCall.Collects.step {call call' : ModelCall} {event : StreamEvent}
    {yielded : Option AgentEvent} (h : call.Collects)
    (hstep : call.step event = .continues call' yielded) : call'.Collects := by
  cases event with
  | textDelta | reasoningDelta =>
    cases hstep
    exact h.append rfl
  | continuation =>
    cases hstep
    refine ⟨fun b hb => ?_, h.toolCalls⟩
    rcases List.mem_append.mp hb with hold | hnew
    · exact h.response b hold
    · rw [List.mem_singleton.mp hnew]
      rfl
  | toolCallDone =>
    cases hstep
    refine ⟨h.response, fun b hb => ?_⟩
    rcases List.mem_append.mp hb with hold | hnew
    · exact h.toolCalls b hold
    · rw [List.mem_singleton.mp hnew]
      rfl
  | streamDone => cases hstep

/-- The loop over the provider's events ends with its `StreamDone`. -/
theorem ModelCall.step_eq_result {call : ModelCall} {event : StreamEvent} {result : ModelCallResult}
    (hstep : call.step event = .result result) :
    result.message = ⟨.assistant, call.responseBlocks ++ call.toolCalls⟩ := by
  cases event with
  | streamDone =>
    cases hstep
    rfl
  | _ => cases hstep

/-- What a model call yields before its end: nothing, or the delta it has just collected. -/
theorem ModelCall.yielded_isDelta {call call' : ModelCall} {event : StreamEvent}
    {yielded : AgentEvent} (hstep : call.step event = .continues call' (some yielded)) :
    (∃ text, yielded = .textDelta text ∧
      call' = { call with responseBlocks := coalesceBlock call.responseBlocks (.text text) }) ∨
    ∃ text kind, yielded = .reasoningDelta text kind ∧
      call' = { call with
        responseBlocks := coalesceBlock call.responseBlocks (.reasoning text kind) } := by
  cases event with
  | textDelta text =>
    cases hstep
    exact .inl ⟨text, rfl, rfl⟩
  | reasoningDelta text kind =>
    cases hstep
    exact .inr ⟨text, kind, rfl, rfl⟩
  | _ => cases hstep

end IChat

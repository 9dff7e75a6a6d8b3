import Mathlib.Data.Int.Order.Basic
import Mathlib.Data.List.Induction
import IChat.Agent.ModelCall
import IChat.General.Grouping

/-!
# The stream of a Chat-Completions response

`OpenAIChatCompletionsProvider.stream` turns the chunks of a response into `StreamEvent`s. The
fragments of the tool calls are collected in buffers by their index; a chunk with a finish reason
reads the buffers out, in the order of the indices, and clears them. After the last chunk comes
`StreamDone`, whatever the chunks were.

- `Adapter.Mirrors`: what the buffers hold, and what has been read out, in terms of the chunks;
- `Response.settles_iff`: no tool call is lost, and a response without a finish reason fails,
  exactly if the response has broken off with an error or its finishing chunks stand where they
  should.

The hook for reasoning and `json.loads` are parameters. The hook can produce reasoning and
continuations only, as its return type says; a text that `json.loads` refuses decodes to nothing.
-/

namespace IChat

open Grouping

/-! ### Chunks -/

/-- `tool_delta.function`. -/
structure FunctionFragment where
  name : Option String
  arguments : Option String
  deriving DecidableEq

/-- An item of `delta.tool_calls`. -/
structure ToolFragment where
  index : ℤ
  id : Option String
  function : Option FunctionFragment
  deriving DecidableEq

/-- `choice.delta`; its reasoning fields, which differ between the vendors, are one value. -/
structure ChoiceDelta (ρ : Type*) where
  reasoning : ρ
  content : Option String
  toolCalls : Option (List ToolFragment)

/-- The first of `chunk.choices`. -/
structure Choice (ρ : Type*) where
  delta : ChoiceDelta ρ
  finishReason : Option String

/-- A chunk: its usage, as `_usage_to_dict` reads it, and its first choice, if it has one. -/
structure Chunk (ρ : Type*) where
  usage : Option (Option Dict)
  choice : Option (Choice ρ)

/-- A streamed response: its chunks, the error with which it breaks off, if it does, and the
identifier in its headers. -/
structure Response (ρ : Type*) where
  chunks : List (Chunk ρ)
  error : Option ProviderError
  requestId : Option String

/-- What `_reasoning_events_from_delta` may return. -/
inductive ReasoningEvent where
  | reasoningDelta (text : String) (kind : ReasoningKind)
  | continuation (owner codec scope : String) (payload : Dict)
  deriving DecidableEq

/-- The event that is streamed. -/
def ReasoningEvent.toStreamEvent : ReasoningEvent → StreamEvent
  | .reasoningDelta text kind => .reasoningDelta text kind
  | .continuation owner codec scope payload => .continuation owner codec scope payload

/-- The fragments of a chunk. -/
def Chunk.fragments {ρ : Type*} (chunk : Chunk ρ) : List ToolFragment :=
  match chunk.choice with
  | none => []
  | some choice => choice.delta.toolCalls.getD []

/-- The finish reason of a chunk. -/
def Chunk.finishReason {ρ : Type*} (chunk : Chunk ρ) : Option String :=
  chunk.choice.bind Choice.finishReason

/-! ### The adapter -/

/-- An entry of `tool_buffers`. -/
structure ToolBuffer where
  id : String
  name : String
  arguments : String
  deriving DecidableEq

/-- The buffer an index starts with. -/
def ToolBuffer.empty : ToolBuffer := ⟨"", "", ""⟩

/-- Add a fragment; a missing text is as good as an empty one. -/
def ToolBuffer.add (buffer : ToolBuffer) (fragment : ToolFragment) : ToolBuffer where
  id := buffer.id ++ fragment.id.getD ""
  name := buffer.name ++ (fragment.function.bind FunctionFragment.name).getD ""
  arguments := buffer.arguments ++ (fragment.function.bind FunctionFragment.arguments).getD ""

/-- `decode_arguments`. -/
def decodeArguments (loads : String → Option Json) (raw : String) : Dict :=
  if raw = "" then []
  else
    match loads raw with
    | some (.obj fields) => fields
    | _ => []

/-- The event for a buffer. -/
def ToolBuffer.done (loads : String → Option Json) (buffer : ToolBuffer) : StreamEvent :=
  .toolCallDone buffer.id buffer.name (decodeArguments loads buffer.arguments)

/-- The state of `stream` between two chunks. `calls` is history: the tool calls among the events,
each with the index of its buffer. -/
structure Adapter where
  toolBuffers : List (ℤ × ToolBuffer)
  finishReason : Option String
  usage : Option Dict
  events : List StreamEvent
  calls : List (ℤ × StreamEvent)
  deriving DecidableEq

/-- Before the first chunk. -/
def Adapter.init : Adapter := ⟨[], none, none, [], []⟩

/-- `tool_buffers.setdefault(..)` and the additions to the buffer. -/
def Adapter.fragment (adapter : Adapter) (fragment : ToolFragment) : Adapter :=
  { adapter with
    toolBuffers :=
      collect ToolFragment.index ToolBuffer.empty ToolBuffer.add adapter.toolBuffers fragment }

/-- Read the buffers out in the order of their indices, and clear them. -/
def Adapter.finish (loads : String → Option Json) (adapter : Adapter) (reason : String) :
    Adapter :=
  let done := (adapter.toolBuffers.insertionSort fun a b => a.1 ≤ b.1).map
    fun entry => (entry.1, entry.2.done loads)
  { adapter with
    toolBuffers := []
    finishReason := some reason
    events := adapter.events ++ done.map Prod.snd
    calls := adapter.calls ++ done }

section

variable {ρ : Type*} (loads : String → Option Json) (reasoningEvents : ρ → List ReasoningEvent)

/-- The text event of a delta. -/
def ChoiceDelta.textEvents (delta : ChoiceDelta ρ) : List StreamEvent :=
  match delta.content with
  | none => []
  | some text => if text = "" then [] else [.textDelta text]

/-- The body of the loop, for the first choice of a chunk. -/
def Adapter.choice (adapter : Adapter) (choice : Choice ρ) : Adapter :=
  let delta := choice.delta
  let told : Adapter :=
    { adapter with
      events := adapter.events ++ (reasoningEvents delta.reasoning).map ReasoningEvent.toStreamEvent
        ++ delta.textEvents }
  let collected := (delta.toolCalls.getD []).foldl Adapter.fragment told
  match choice.finishReason with
  | none => collected
  | some reason => collected.finish loads reason

/-- The body of the loop. -/
def Adapter.chunk (adapter : Adapter) (chunk : Chunk ρ) : Adapter :=
  let counted : Adapter := { adapter with usage := chunk.usage.getD adapter.usage }
  match chunk.choice with
  | none => counted
  | some choice => counted.choice loads reasoningEvents choice

/-- The loop. -/
def Adapter.run (chunks : List (Chunk ρ)) : Adapter :=
  chunks.foldl (Adapter.chunk loads reasoningEvents) Adapter.init

/-- `finish_reason or "stop"`. -/
def orStop : Option String → String
  | none => "stop"
  | some reason => if reason = "" then "stop" else reason

/-- What `stream` has streamed at its end, with the error it ends with. -/
structure ProviderStream where
  events : List StreamEvent
  error : Option ProviderError
  calls : List (ℤ × StreamEvent)
  deriving DecidableEq

/-- `OpenAIChatCompletionsProvider.stream`, once the response has begun. -/
def Response.stream (response : Response ρ) : ProviderStream :=
  let adapter := Adapter.run loads reasoningEvents response.chunks
  match response.error with
  | some error => ⟨adapter.events, some error, adapter.calls⟩
  | none =>
    ⟨adapter.events ++ [.streamDone (orStop adapter.finishReason) adapter.usage response.requestId],
      none, adapter.calls⟩

end

/-! ### The model call over it -/

/-- The loop of `stream_model_call` and what follows it: the events it yields, and the result or
the error. -/
def ModelCall.outcome (error : Option ProviderError) (call : ModelCall) :
    List StreamEvent → List AgentEvent × Except ProviderError ModelCallResult
  | [] => ([], .error (error.getD noFinish))
  | event :: events =>
    match call.step event with
    | .result result => ([], .ok result)
    | .continues call yielded =>
      let rest := ModelCall.outcome error call events
      (yielded.toList ++ rest.1, rest.2)

/-- `stream_model_call`. -/
def ProviderStream.modelCall (stream : ProviderStream) :
    List AgentEvent × Except ProviderError ModelCallResult :=
  ModelCall.init.outcome stream.error stream.events

/-- The event ends a stream. -/
def StreamEvent.isDone : StreamEvent → Bool
  | .streamDone .. => true
  | _ => false

/-- The event is a tool call. -/
def StreamEvent.isToolCall : StreamEvent → Bool
  | .toolCallDone .. => true
  | _ => false

/-- A model call fails on a stream without `StreamDone`. -/
theorem ModelCall.outcome_of_open {error : Option ProviderError} {events : List StreamEvent}
    (h : ∀ event ∈ events, event.isDone = false) (call : ModelCall) :
    (call.outcome error events).2 = .error (error.getD noFinish) := by
  induction events generalizing call with
  | nil => rfl
  | cons event events ih =>
    have hrest := ih fun later hlater => h later (List.mem_cons_of_mem _ hlater)
    have hopen := h event List.mem_cons_self
    rw [ModelCall.outcome]
    cases event with
    | streamDone => exact absurd hopen (by simp [StreamEvent.isDone])
    | _ => exact hrest _

/-- A model call succeeds on a stream with `StreamDone`. -/
theorem ModelCall.outcome_of_done {error : Option ProviderError} {events : List StreamEvent}
    (h : ∃ event ∈ events, event.isDone = true) (call : ModelCall) :
    ∃ result, (call.outcome error events).2 = .ok result := by
  induction events generalizing call with
  | nil =>
    obtain ⟨event, hin, -⟩ := h
    cases hin
  | cons event events ih =>
    obtain ⟨last, hlast, hdone⟩ := h
    rw [ModelCall.outcome]
    cases event with
    | streamDone => exact ⟨_, rfl⟩
    | _ =>
      rcases List.mem_cons.mp hlast with rfl | hlater
      · cases hdone
      · exact ih ⟨last, hlater, hdone⟩ _

/-! ### Fragments between finishing chunks -/

section

variable {ρ : Type*}

/-- The fragments of a response: those up to each finishing chunk since the one before it, and those
after the last. -/
structure Fragments where
  finished : List (List ToolFragment)
  late : List ToolFragment

/-- All fragments in their order. -/
def Fragments.all (fragments : Fragments) : List ToolFragment :=
  fragments.finished.flatten ++ fragments.late

/-- Count a chunk. -/
def Fragments.chunk (fragments : Fragments) (chunk : Chunk ρ) : Fragments :=
  match chunk.finishReason with
  | none => { fragments with late := fragments.late ++ chunk.fragments }
  | some _ => ⟨fragments.finished ++ [fragments.late ++ chunk.fragments], []⟩

/-- The fragments of the chunks. -/
def fragmentsOf (chunks : List (Chunk ρ)) : Fragments := chunks.foldl Fragments.chunk ⟨[], []⟩

theorem Fragments.all_chunk (fragments : Fragments) (chunk : Chunk ρ) :
    (fragments.chunk chunk).all = fragments.all ++ chunk.fragments := by
  rw [Fragments.chunk]
  split
  · rw [Fragments.all, Fragments.all, List.append_assoc]
  · rw [Fragments.all, Fragments.all, List.flatten_append, List.flatten_singleton, List.append_nil,
      List.append_assoc]

theorem fragmentsOf_append_singleton (chunks : List (Chunk ρ)) (chunk : Chunk ρ) :
    fragmentsOf (chunks ++ [chunk]) = (fragmentsOf chunks).chunk chunk := by
  rw [fragmentsOf, List.foldl_append]
  rfl

/-- No fragment is left out. -/
theorem all_fragmentsOf (chunks : List (Chunk ρ)) :
    (fragmentsOf chunks).all = chunks.flatMap Chunk.fragments := by
  induction chunks using List.reverseRecOn with
  | nil => rfl
  | append_singleton chunks chunk ih =>
    rw [fragmentsOf_append_singleton, Fragments.all_chunk, ih, List.flatMap_append,
      List.flatMap_singleton]

/-! ### What the fragments of an index say -/

/-- The concatenated identifier. -/
def idText (index : ℤ) (fragments : List ToolFragment) : String :=
  String.join ((fragments.filter fun f => f.index = index).map fun f => f.id.getD "")

/-- The concatenated name. -/
def nameText (index : ℤ) (fragments : List ToolFragment) : String :=
  String.join ((fragments.filter fun f => f.index = index).map
    fun f => (f.function.bind FunctionFragment.name).getD "")

/-- The concatenated arguments. -/
def argumentsText (index : ℤ) (fragments : List ToolFragment) : String :=
  String.join ((fragments.filter fun f => f.index = index).map
    fun f => (f.function.bind FunctionFragment.arguments).getD "")

/-- The tool call that the fragments of an index make. -/
def callOf (loads : String → Option Json) (index : ℤ) (fragments : List ToolFragment) :
    StreamEvent :=
  .toolCallDone (idText index fragments) (nameText index fragments)
    (decodeArguments loads (argumentsText index fragments))

/-- The tool calls of a response: one for each index with a fragment, in the order of the
indices. -/
def callsOf (loads : String → Option Json) (fragments : List ToolFragment) :
    List (ℤ × StreamEvent) :=
  (sortedKeys ToolFragment.index fragments).map fun index => (index, callOf loads index fragments)

private theorem foldl_add (fragments : List ToolFragment) (buffer : ToolBuffer) :
    fragments.foldl ToolBuffer.add buffer =
      ⟨buffer.id ++ String.join (fragments.map fun f => f.id.getD ""),
        buffer.name ++ String.join (fragments.map
          fun f => (f.function.bind FunctionFragment.name).getD ""),
        buffer.arguments ++ String.join (fragments.map
          fun f => (f.function.bind FunctionFragment.arguments).getD "")⟩ := by
  induction fragments generalizing buffer with
  | nil => simp only [List.foldl_nil, List.map_nil, String.join_nil, String.append_empty]
  | cons fragment fragments ih =>
    rw [List.foldl_cons, ih]
    simp only [ToolBuffer.add, List.map_cons, String.join_cons, String.append_assoc]

/-- The buffer of an index concatenates its fragments. -/
theorem done_entryOf (loads : String → Option Json) (fragments : List ToolFragment) (index : ℤ) :
    (entryOf ToolFragment.index ToolBuffer.empty ToolBuffer.add fragments index).done loads =
      callOf loads index fragments := by
  rw [entryOf, foldl_add]
  simp only [ToolBuffer.done, ToolBuffer.empty, String.empty_append]
  rfl

theorem callOf_congr (loads : String → Option Json) (index : ℤ)
    (fragments fragments' : List ToolFragment)
    (h : (fragments.filter fun f => f.index = index) = fragments'.filter fun f => f.index = index) :
    callOf loads index fragments = callOf loads index fragments' := by
  rw [callOf, callOf, idText, idText, nameText, nameText, argumentsText, argumentsText, h]

private theorem join_filter_append (f : ToolFragment → String) (index : ℤ)
    (before late : List ToolFragment) :
    String.join (((before ++ late).filter fun f => f.index = index).map f) =
      String.join ((before.filter fun f => f.index = index).map f) ++
        String.join ((late.filter fun f => f.index = index).map f) := by
  rw [List.filter_append, List.map_append, String.join_append]

/-- Late fragments leave the tool call of their index as it was. -/
def Keeps (loads : String → Option Json) (index : ℤ) (before late : List ToolFragment) : Prop :=
  idText index late = "" ∧ nameText index late = "" ∧
    decodeArguments loads (argumentsText index before ++ argumentsText index late) =
      decodeArguments loads (argumentsText index before)

theorem callOf_append_eq_iff (loads : String → Option Json) (index : ℤ)
    (before late : List ToolFragment) :
    callOf loads index (before ++ late) = callOf loads index before ↔
      Keeps loads index before late := by
  have hself : ∀ s t : String, s ++ t = s ↔ t = "" := by
    intro s t
    rw [← String.toList_inj, String.toList_append, List.append_right_eq_self,
      String.toList_eq_nil_iff]
  rw [callOf, callOf, StreamEvent.toolCallDone.injEq, Keeps, idText, nameText, argumentsText,
    join_filter_append, join_filter_append, join_filter_append]
  exact and_congr (hself _ _) (and_congr (hself _ _) Iff.rfl)

/-! ### The run of the adapter -/

variable (loads : String → Option Json) (reasoningEvents : ρ → List ReasoningEvent)

/-- The adapter in terms of the chunks it has read. -/
structure Adapter.Mirrors (adapter : Adapter) (chunks : List (Chunk ρ)) : Prop where
  buffers : Holds ToolFragment.index ToolBuffer.empty ToolBuffer.add (fragmentsOf chunks).late
    adapter.toolBuffers
  calls : adapter.calls = (fragmentsOf chunks).finished.flatMap (callsOf loads)
  events : adapter.events.filter StreamEvent.isToolCall = adapter.calls.map Prod.snd
  undone : ∀ event ∈ adapter.events, event.isDone = false

theorem foldl_fragment (fragments : List ToolFragment) (adapter : Adapter) :
    fragments.foldl Adapter.fragment adapter =
      { adapter with
        toolBuffers := fragments.foldl
          (collect ToolFragment.index ToolBuffer.empty ToolBuffer.add) adapter.toolBuffers } := by
  induction fragments generalizing adapter with
  | nil => rfl
  | cons fragment fragments ih => rw [List.foldl_cons, ih, List.foldl_cons, Adapter.fragment]

/-- Reasoning and text are no tool calls and no end. -/
theorem textual_events (delta : ChoiceDelta ρ) :
    ∀ event ∈ (reasoningEvents delta.reasoning).map ReasoningEvent.toStreamEvent ++
      delta.textEvents, event.isToolCall = false ∧ event.isDone = false := by
  intro event hevent
  rcases List.mem_append.mp hevent with hreasoning | htext
  · obtain ⟨told, -, rfl⟩ := List.mem_map.mp hreasoning
    cases told with
    | reasoningDelta => exact ⟨rfl, rfl⟩
    | continuation => exact ⟨rfl, rfl⟩
  · rw [ChoiceDelta.textEvents] at htext
    split at htext
    · cases htext
    · split_ifs at htext
      · cases htext
      · rw [List.mem_singleton.mp htext]
        exact ⟨rfl, rfl⟩

variable {loads reasoningEvents}

theorem Adapter.mirrors_init : Adapter.init.Mirrors loads ([] : List (Chunk ρ)) where
  buffers := holds_nil
  calls := rfl
  events := rfl
  undone _ h := by cases h

/-- Reading the buffers out. -/
theorem Adapter.finish_calls {adapter : Adapter} {late : List ToolFragment} {reason : String}
    (h : Holds ToolFragment.index ToolBuffer.empty ToolBuffer.add late adapter.toolBuffers) :
    adapter.finish loads reason =
      { adapter with
        toolBuffers := []
        finishReason := some reason
        events := adapter.events ++ (callsOf loads late).map Prod.snd
        calls := adapter.calls ++ callsOf loads late } := by
  have hdone : ((adapter.toolBuffers.insertionSort fun a b => a.1 ≤ b.1).map
      fun entry => (entry.1, entry.2.done loads)) = callsOf loads late := by
    rw [h.insertionSort_eq, List.map_map]
    refine List.map_congr_left fun index _ => ?_
    rw [Function.comp_apply, done_entryOf]
  rw [Adapter.finish, hdone]

theorem isToolCall_of_mem_callsOf {fragments : List ToolFragment} {event : StreamEvent}
    (h : event ∈ (callsOf loads fragments).map Prod.snd) :
    event.isToolCall = true ∧ event.isDone = false := by
  rw [callsOf, List.map_map] at h
  obtain ⟨index, -, rfl⟩ := List.mem_map.mp h
  exact ⟨rfl, rfl⟩

theorem Adapter.Mirrors.chunk {adapter : Adapter} {chunks : List (Chunk ρ)}
    (h : adapter.Mirrors loads chunks) (chunk : Chunk ρ) :
    (adapter.chunk loads reasoningEvents chunk).Mirrors loads (chunks ++ [chunk]) := by
  have hfragments := fragmentsOf_append_singleton chunks chunk
  obtain ⟨usage, choice⟩ := chunk
  cases choice with
  | none =>
    have hsame : fragmentsOf (chunks ++ [⟨usage, none⟩]) = fragmentsOf chunks := by
      rw [hfragments]
      simp only [Fragments.chunk, Chunk.finishReason, Chunk.fragments, Option.bind_none,
        List.append_nil]
    exact ⟨hsame ▸ h.buffers, hsame ▸ h.calls, h.events, h.undone⟩
  | some choice =>
    have htextual := textual_events reasoningEvents choice.delta
    have hevents : ((adapter.events ++ ((reasoningEvents choice.delta.reasoning).map
        ReasoningEvent.toStreamEvent ++ choice.delta.textEvents)).filter StreamEvent.isToolCall) =
          adapter.calls.map Prod.snd := by
      have hnone : (((reasoningEvents choice.delta.reasoning).map ReasoningEvent.toStreamEvent ++
          choice.delta.textEvents).filter StreamEvent.isToolCall) = [] :=
        List.filter_eq_nil_iff.mpr fun event hin => by rw [(htextual event hin).1]; exact nofun
      rw [List.filter_append, h.events, hnone, List.append_nil]
    have hundone : ∀ event ∈ adapter.events ++ ((reasoningEvents choice.delta.reasoning).map
        ReasoningEvent.toStreamEvent ++ choice.delta.textEvents), event.isDone = false := by
      intro event hin
      exact (List.mem_append.mp hin).elim (h.undone event) fun hnew => (htextual event hnew).2
    have hbuffers := h.buffers.foldl_collect (choice.delta.toolCalls.getD [])
    rw [← List.append_assoc] at hevents hundone
    -- a finish reason closes the fragments collected since the last one
    cases hreason : choice.finishReason with
    | none =>
      have hopen : fragmentsOf (chunks ++ [⟨usage, some choice⟩]) =
          { fragmentsOf chunks with
            late := (fragmentsOf chunks).late ++ choice.delta.toolCalls.getD [] } := by
        rw [hfragments]
        simp only [Fragments.chunk, Chunk.finishReason, Chunk.fragments, Option.bind_some, hreason]
      simp only [Adapter.chunk, Adapter.choice, hreason, foldl_fragment]
      exact ⟨hopen ▸ hbuffers, hopen ▸ h.calls, hevents, hundone⟩
    | some =>
      have hclosed : fragmentsOf (chunks ++ [⟨usage, some choice⟩]) =
          ⟨(fragmentsOf chunks).finished ++
            [(fragmentsOf chunks).late ++ choice.delta.toolCalls.getD []], []⟩ := by
        rw [hfragments]
        simp only [Fragments.chunk, Chunk.finishReason, Chunk.fragments, Option.bind_some, hreason]
      simp only [Adapter.chunk, Adapter.choice, hreason, foldl_fragment]
      rw [Adapter.finish_calls hbuffers]
      refine ⟨hclosed ▸ holds_nil, ?_, ?_, ?_⟩
      · rw [hclosed, List.flatMap_append, List.flatMap_singleton, h.calls]
      · have hall : ((callsOf loads ((fragmentsOf chunks).late ++
            choice.delta.toolCalls.getD [])).map Prod.snd).filter StreamEvent.isToolCall =
              (callsOf loads ((fragmentsOf chunks).late ++
                choice.delta.toolCalls.getD [])).map Prod.snd :=
          List.filter_eq_self.mpr fun event hin => (isToolCall_of_mem_callsOf hin).1
        rw [List.filter_append, hevents, hall, List.map_append]
      · intro event hin
        exact (List.mem_append.mp hin).elim (hundone event)
          fun hnew => (isToolCall_of_mem_callsOf hnew).2

/-- The adapter after some chunks. -/
theorem Adapter.mirrors_run (loads : String → Option Json)
    (reasoningEvents : ρ → List ReasoningEvent) (chunks : List (Chunk ρ)) :
    (Adapter.run loads reasoningEvents chunks).Mirrors loads chunks := by
  induction chunks using List.reverseRecOn with
  | nil => exact Adapter.mirrors_init
  | append_singleton chunks chunk ih =>
    rw [Adapter.run, List.foldl_append]
    exact ih.chunk chunk

end

/-! ### No tool call is lost -/

section

variable {ρ : Type*} (loads : String → Option Json) (reasoningEvents : ρ → List ReasoningEvent)

/-- The stream ends with `StreamDone`. -/
def ProviderStream.EndsDone (stream : ProviderStream) : Prop :=
  ∃ event, stream.events.getLast? = some event ∧ event.isDone = true

/-- A stream that ends with `StreamDone` has streamed exactly the tool calls of the response, in the
order of their indices; and a response without a finish reason makes the model call fail. -/
structure Response.Settles (response : Response ρ) : Prop where
  calls : (response.stream loads reasoningEvents).EndsDone →
    (response.stream loads reasoningEvents).calls =
        callsOf loads (response.chunks.flatMap Chunk.fragments) ∧
      (response.stream loads reasoningEvents).events.filter StreamEvent.isToolCall =
        (callsOf loads (response.chunks.flatMap Chunk.fragments)).map Prod.snd
  finish : (∀ chunk ∈ response.chunks, chunk.finishReason = none) →
    ∃ error, (response.stream loads reasoningEvents).modelCall.2 = .error error

/-- The finishing chunks stand where they should: there is one, the indices ascend strictly over the
fragments that the finishing chunks read out, and fragments after the last of them are of indices
that it, or one before it, has read out, and add nothing to their tool calls. -/
structure Response.WellFinished (response : Response ρ) : Prop where
  finishes : ∃ chunk ∈ response.chunks, chunk.finishReason ≠ none
  ascends : ((fragmentsOf response.chunks).finished.flatMap
    (sortedKeys ToolFragment.index)).Pairwise (· < ·)
  late : ∀ fragment ∈ (fragmentsOf response.chunks).late,
    fragment.index ∈ (fragmentsOf response.chunks).finished.flatMap (sortedKeys ToolFragment.index)
  keeps : ∀ index ∈ (fragmentsOf response.chunks).finished.flatMap (sortedKeys ToolFragment.index),
    Keeps loads index (fragmentsOf response.chunks).finished.flatten
      (fragmentsOf response.chunks).late

/-- The stream of a response that does not break off ends with `StreamDone`. -/
theorem Response.endsDone_iff (response : Response ρ) :
    (response.stream loads reasoningEvents).EndsDone ↔ response.error = none := by
  have hundone := (Adapter.mirrors_run loads reasoningEvents response.chunks).undone
  rw [ProviderStream.EndsDone, Response.stream]
  cases response.error with
  | none => exact iff_of_true ⟨_, List.getLast?_concat .., rfl⟩ rfl
  | some =>
    refine iff_of_false ?_ nofun
    rintro ⟨event, hlast, hdone⟩
    rw [hundone event (List.mem_of_getLast? hlast)] at hdone
    cases hdone

/-- The tool calls of a response are streamed exactly if they have been read out. -/
theorem Response.calls_eq_iff (response : Response ρ) :
    (response.stream loads reasoningEvents).calls =
        callsOf loads (response.chunks.flatMap Chunk.fragments) ↔
      ((fragmentsOf response.chunks).finished.flatMap
        (sortedKeys ToolFragment.index)).Pairwise (· < ·) ∧
      (∀ fragment ∈ (fragmentsOf response.chunks).late, fragment.index ∈
        (fragmentsOf response.chunks).finished.flatMap (sortedKeys ToolFragment.index)) ∧
      ∀ index ∈ (fragmentsOf response.chunks).finished.flatMap (sortedKeys ToolFragment.index),
        Keeps loads index (fragmentsOf response.chunks).finished.flatten
          (fragmentsOf response.chunks).late := by
  have hcalls : (response.stream loads reasoningEvents).calls =
      (fragmentsOf response.chunks).finished.flatMap (callsOf loads) := by
    rw [← (Adapter.mirrors_run loads reasoningEvents response.chunks).calls,
      Response.stream]
    cases response.error <;> rfl
  have hread := flatMap_readOut_eq_iff (callOf_congr loads) (fragmentsOf response.chunks).finished
    (fragmentsOf response.chunks).late
  simp only [callOf_append_eq_iff] at hread
  rw [hcalls, ← all_fragmentsOf, Fragments.all]
  exact hread

/-- The tool calls among the events are the ones counted. -/
theorem Response.filter_events (response : Response ρ) :
    (response.stream loads reasoningEvents).events.filter StreamEvent.isToolCall =
      (response.stream loads reasoningEvents).calls.map Prod.snd := by
  have hevents := (Adapter.mirrors_run loads reasoningEvents response.chunks).events
  rw [Response.stream]
  cases response.error with
  | none =>
    rw [List.filter_append, hevents]
    exact List.append_nil _
  | some => exact hevents

/-- The model call over a response fails exactly if the response has broken off. -/
theorem Response.modelCall_fails_iff (response : Response ρ) :
    (∃ error, (response.stream loads reasoningEvents).modelCall.2 = .error error) ↔
      response.error ≠ none := by
  have hundone := (Adapter.mirrors_run loads reasoningEvents response.chunks).undone
  rw [Response.stream]
  cases response.error with
  | some => exact iff_of_true ⟨_, ModelCall.outcome_of_open hundone _⟩ nofun
  | none =>
    refine iff_of_false ?_ (fun h => h rfl)
    rintro ⟨error, herror⟩
    have hsucceeds : ∀ done : StreamEvent, done.isDone = true → ∃ result,
        (ProviderStream.modelCall
          ⟨(Adapter.run loads reasoningEvents response.chunks).events ++ [done], none,
            (Adapter.run loads reasoningEvents response.chunks).calls⟩).2 = .ok result :=
      fun done hdone => ModelCall.outcome_of_done
        ⟨done, List.mem_append_right _ (List.mem_singleton_self done), hdone⟩ ModelCall.init
    obtain ⟨result, hresult⟩ := hsucceeds (.streamDone
      (orStop (Adapter.run loads reasoningEvents response.chunks).finishReason)
      (Adapter.run loads reasoningEvents response.chunks).usage response.requestId) rfl
    rw [hresult] at herror
    cases herror

/-- No tool call is lost, and a response without a finish reason fails, exactly if the response has
broken off with an error or is well finished. -/
theorem Response.settles_iff (response : Response ρ) :
    response.Settles loads reasoningEvents ↔
      response.error ≠ none ∨ response.WellFinished loads := by
  have hends := response.endsDone_iff loads reasoningEvents
  have hcalls := response.calls_eq_iff loads reasoningEvents
  have hfails := response.modelCall_fails_iff loads reasoningEvents
  constructor
  · intro h
    by_cases herror : response.error = none
    · refine Or.inr ?_
      obtain ⟨hascends, hlate, hkeeps⟩ := hcalls.mp (h.calls (hends.mpr herror)).1
      refine ⟨?_, hascends, hlate, hkeeps⟩
      by_contra hnone
      have hopen : ∀ chunk ∈ response.chunks, chunk.finishReason = none := by
        intro chunk hchunk
        by_contra hreason
        exact hnone ⟨chunk, hchunk, hreason⟩
      exact hfails.mp (h.finish hopen) herror
    · exact Or.inl herror
  · rintro (herror | ⟨⟨chunk, hchunk, hreason⟩, hascends, hlate, hkeeps⟩)
    · exact ⟨fun hdone => absurd (hends.mp hdone) herror, fun _ => hfails.mpr herror⟩
    · have heq := hcalls.mpr ⟨hascends, hlate, hkeeps⟩
      refine ⟨fun _ => ⟨heq, ?_⟩, fun hopen => absurd (hopen chunk hchunk) hreason⟩
      rw [response.filter_events loads reasoningEvents, heq]

/-- A response that ends in the middle of a tool call: the call is lost, and the model call
succeeds. -/
theorem Response.truncated_not_settles :
    ¬ Response.Settles (fun _ => none) (fun _ : Unit => [])
      ⟨[⟨none, some ⟨⟨(), none, some [⟨0, some "call_1", some ⟨some "web_search", some "\x7b"⟩⟩]⟩,
        none⟩⟩], none, none⟩ := by
  intro h
  obtain ⟨error, herror⟩ := h.finish (by simp [Chunk.finishReason])
  exact (Response.modelCall_fails_iff _ _ _).mp ⟨error, herror⟩ rfl

end

end IChat

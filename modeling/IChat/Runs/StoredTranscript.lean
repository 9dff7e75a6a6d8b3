import IChat.Agent.ChatAgent
import IChat.Runs.AgentConsumer

/-!
# The stored transcript and the streamed output

Two accumulators collect the text of a run: the model call its response blocks, and the worker the
pending blocks it needs when the run is cut before the response is complete. Both are compared with
the deltas that reach the sink through one reading: the sequence of characters, each with the
channel it belongs to, which fixes the concatenation of every channel and the order in which text
and reasoning alternate.

* `Coherent`: in what the agent yields, every message carries the deltas since the one before it;
* `ChatAgent.loopTexts_of_run`: the agent loop yields such streams, whatever the provider does;
* `stored_eq_streamed`: the transcript of every outcome carries what the sink was handed.
-/

namespace IChat

/-- The channel of a kind of reasoning. -/
def Channel.ofKind : ReasoningKind → Channel
  | .raw => .reasoning
  | .summary => .reasoningSummary

/-- A text as characters of a channel. -/
def Channel.tag (c : Channel) (text : String) : List (Channel × Char) :=
  text.toList.map fun char => (c, char)

@[simp] theorem Channel.tag_append (c : Channel) (s t : String) :
    c.tag (s ++ t) = c.tag s ++ c.tag t := by
  simp [Channel.tag, String.toList_append]

/-- The text of a block. -/
def ContentBlock.tagged : ContentBlock → List (Channel × Char)
  | .text piece => Channel.text.tag piece
  | .reasoning piece kind => (Channel.ofKind kind).tag piece
  | _ => []

/-- The text of a list of blocks. -/
def blocksText (blocks : List ContentBlock) : List (Channel × Char) :=
  blocks.flatMap ContentBlock.tagged

/-- The text of the assistant messages of a transcript. -/
def storedText (transcript : List Message) : List (Channel × Char) :=
  (transcript.filter fun m => m.role = .assistant).flatMap fun m => blocksText m.blocks

/-- The text an agent event adds. -/
def AgentEvent.tagged : AgentEvent → List (Channel × Char)
  | .textDelta text => Channel.text.tag text
  | .reasoningDelta text kind => (Channel.ofKind kind).tag text
  | _ => []

/-- The text a run event adds. -/
def RunEvent.tagged (e : RunEvent) : List (Channel × Char) :=
  match e.delta with
  | some (c, text) => c.tag text
  | none => []

/-- The text of the deltas the sink was handed. -/
def streamedText (handed : List SinkEvent) : List (Channel × Char) :=
  handed.flatMap fun e => e.toRunEvent.tagged

/-! ### Reading the text back -/

section Reading

variable {c : Channel} {events : List RunEvent} {transcript : List Message}
  {blocks : List ContentBlock} {block : ContentBlock}

/-- The characters of one channel. -/
def ofChannel (c : Channel) (text : List (Channel × Char)) : List Char :=
  text.filterMap fun p => if p.1 = c then some p.2 else none

@[simp] theorem ofChannel_append (s t : List (Channel × Char)) :
    ofChannel c (s ++ t) = ofChannel c s ++ ofChannel c t := List.filterMap_append

theorem ofChannel_tag (c' : Channel) (text : String) :
    ofChannel c (c'.tag text) = if c' = c then text.toList else [] := by
  unfold ofChannel Channel.tag
  rw [List.filterMap_map]
  split_ifs with h
  · simp [h]
  · simp [h]

theorem toList_channelText :
    (channelText c events).toList = ofChannel c (events.flatMap RunEvent.tagged) := by
  induction events with
  | nil => rfl
  | cons e events ih =>
    rw [channelText_cons, String.toList_append, ih, List.flatMap_cons, ofChannel_append]
    congr 1
    unfold RunEvent.channelText RunEvent.tagged
    cases e.delta with
    | none => rfl
    | some =>
      simp only [ofChannel_tag]
      split_ifs <;> rfl

theorem toList_text (m : Message) : m.text.toList = ofChannel .text (blocksText m.blocks) := by
  unfold Message.text blocksText
  rw [String.toList_join]
  induction m.blocks with
  | nil => rfl
  | cons block blocks ih =>
    rw [List.flatMap_cons, ofChannel_append, ← ih]
    cases block with
    | text => simp [ContentBlock.tagged, ofChannel_tag]
    | reasoning text kind => cases kind <;> simp [ContentBlock.tagged, ofChannel_tag,
        Channel.ofKind]
    | _ => rfl

theorem toList_reasoningText (m : Message) (kind : ReasoningKind) :
    (m.reasoningText kind).toList = ofChannel (.ofKind kind) (blocksText m.blocks) := by
  unfold Message.reasoningText blocksText
  rw [String.toList_join]
  induction m.blocks with
  | nil => rfl
  | cons block blocks ih =>
    rw [List.flatMap_cons, ofChannel_append, ← ih]
    cases block with
    | text => cases kind <;> simp [ContentBlock.tagged, ofChannel_tag, Channel.ofKind]
    | reasoning text kind' =>
      cases kind <;> cases kind' <;> simp [ContentBlock.tagged, ofChannel_tag, Channel.ofKind]
    | _ => rfl

/-- A text that is read off every message is read off the whole transcript. -/
theorem toList_join_stored {f : Message → String}
    (hf : ∀ m, (f m).toList = ofChannel c (blocksText m.blocks)) :
    (String.join ((transcript.filter fun m => m.role = .assistant).map f)).toList =
      ofChannel c (storedText transcript) := by
  unfold storedText
  rw [String.toList_join]
  induction transcript.filter fun m => decide (m.role = .assistant) with
  | nil => rfl
  | cons m rest ih =>
    rw [List.map_cons, List.flatMap_cons, List.flatMap_cons, ofChannel_append, ih, hf]

end Reading

/-! ### Both accumulators -/

section Accumulators

variable {blocks : List ContentBlock} {block : ContentBlock} {transcript : List Message}

@[simp] theorem blocksText_append (l₁ l₂ : List ContentBlock) :
    blocksText (l₁ ++ l₂) = blocksText l₁ ++ blocksText l₂ := List.flatMap_append

@[simp] theorem storedText_append (l₁ l₂ : List Message) :
    storedText (l₁ ++ l₂) = storedText l₁ ++ storedText l₂ := by
  simp [storedText]

@[simp] theorem streamedText_append (l₁ l₂ : List SinkEvent) :
    streamedText (l₁ ++ l₂) = streamedText l₁ ++ streamedText l₂ := List.flatMap_append

/-- A coalescing append adds the text of the block. -/
theorem blocksText_coalesceBlock :
    blocksText (coalesceBlock blocks block) = blocksText blocks ++ block.tagged := by
  rcases List.eq_nil_or_concat blocks with rfl | ⟨init, last, rfl⟩
  · simp [coalesceBlock, blocksText]
  · unfold coalesceBlock
    rw [List.concat_eq_append, List.getLast?_concat, List.dropLast_concat]
    split
    · rename_i heq
      cases heq
      simp [blocksText, ContentBlock.tagged]
    · rename_i heq
      cases heq
      split_ifs with hkind
      · subst hkind
        simp [blocksText, ContentBlock.tagged]
      · simp [blocksText]
    · simp [blocksText]

theorem blocksText_addPending (event : AgentEvent) :
    blocksText (addPending blocks event) = blocksText blocks ++ event.tagged := by
  cases event with
  | textDelta => exact blocksText_coalesceBlock
  | reasoningDelta => exact blocksText_coalesceBlock
  | _ => exact (List.append_nil _).symm

theorem storedText_appendPartialMessage :
    storedText (appendPartialMessage transcript blocks) =
      storedText transcript ++ blocksText blocks := by
  unfold appendPartialMessage
  split_ifs with hnil
  · rw [hnil]
    exact (List.append_nil _).symm
  · rw [storedText_append]
    simp [storedText]

/-- A run event carries the text of the agent event it was made from. -/
theorem tagged_toRunEvent {event : AgentEvent} {seq : ℕ} {names : List (String × String)}
    {e : SinkEvent} (h : toRunEvent event seq names = some e) :
    e.toRunEvent.tagged = event.tagged := by
  cases event with
  | textDelta =>
    cases h
    rfl
  | reasoningDelta text kind =>
    cases h
    cases kind <;> rfl
  | toolCallStarted =>
    cases h
    rfl
  | toolCallFinished toolName isError =>
    unfold toRunEvent at h
    cases isError <;> cases h <;> rfl
  | messageDone => cases h
  | agentFinal => cases h

end Accumulators

/-! ### What the agent yields -/

/-- The deltas since the last message, after an event. -/
def AgentEvent.pendingText (pending : List (Channel × Char)) : AgentEvent →
    List (Channel × Char)
  | .messageDone _ => []
  | event => pending ++ event.tagged

/-- The deltas since the last message, after a list of events. -/
def pendingAfter (pending : List (Channel × Char)) (events : List AgentEvent) :
    List (Channel × Char) :=
  events.foldl AgentEvent.pendingText pending

/-- A message carries the deltas that are pending when it comes. -/
def AgentEvent.Carries (pending : List (Channel × Char)) : AgentEvent → Prop
  | .messageDone message => storedText [message] = pending
  | _ => True

/-- Every message carries the deltas since the one before it. -/
def Coherent : List (Channel × Char) → List AgentEvent → Prop
  | _, [] => True
  | pending, event :: events =>
    event.Carries pending ∧ Coherent (event.pendingText pending) events

theorem coherent_append {pending : List (Channel × Char)} {before after : List AgentEvent} :
    Coherent pending (before ++ after) ↔
      Coherent pending before ∧ Coherent (pendingAfter pending before) after := by
  induction before generalizing pending with
  | nil => exact ⟨fun h => ⟨trivial, h⟩, And.right⟩
  | cons event before ih =>
    simp only [List.cons_append, Coherent, ih, pendingAfter, List.foldl_cons, and_assoc]

/-- Events without text leave nothing to carry. -/
theorem coherent_of_silent {pending : List (Channel × Char)} {events : List AgentEvent}
    (h : ∀ event ∈ events, event.tagged = [] ∧ event.isForwarded = true) :
    Coherent pending events ∧ pendingAfter pending events = pending := by
  induction events with
  | nil => exact ⟨trivial, rfl⟩
  | cons event events ih =>
    obtain ⟨htext, hforwarded⟩ := h event List.mem_cons_self
    have hrest := ih fun e he => h e (List.mem_cons_of_mem _ he)
    have hpending : event.pendingText pending = pending := by
      cases event with
      | messageDone => cases hforwarded
      | _ => exact (congrArg (pending ++ ·) htext).trans (List.append_nil _)
    refine ⟨⟨?_, ?_⟩, ?_⟩
    · cases event with
      | messageDone => cases hforwarded
      | _ => trivial
    · rw [hpending]
      exact hrest.1
    · rw [pendingAfter, List.foldl_cons, hpending]
      exact hrest.2

namespace ChatAgent

variable {agent : ChatAgent} {s s' : AgentLoop} {a : LoopAction} {actions : List LoopAction}

/-- What has been yielded is coherent, and the model call has collected what is pending. -/
structure LoopTexts (s : AgentLoop) : Prop where
  coherent : Coherent [] s.yielded
  pending : ∀ call, s.pc = .calling call →
    pendingAfter [] s.yielded = blocksText call.responseBlocks
  delivered : (∀ call, s.pc ≠ .calling call) → (∀ exc, s.pc ≠ .failed exc) →
    (∀ message, s.pc ≠ .raised message) → pendingAfter [] s.yielded = []

theorem loopTexts_start : LoopTexts agent.start where
  coherent := trivial
  pending call h := by
    cases h
    rfl
  delivered h := absurd rfl (h .init)

theorem pendingAfter_append {pending : List (Channel × Char)} {before after : List AgentEvent} :
    pendingAfter pending (before ++ after) = pendingAfter (pendingAfter pending before) after :=
  List.foldl_append

/-- The message of a response carries the text of its blocks. -/
theorem storedText_response {call : ModelCall} (h : call.Collects) :
    storedText [⟨.assistant, call.responseBlocks ++ call.toolCalls⟩] =
      blocksText call.responseBlocks := by
  have hcalls : blocksText call.toolCalls = [] := by
    refine List.flatMap_eq_nil_iff.mpr fun block hblock => ?_
    have hcall := h.toolCalls block hblock
    cases block with
    | toolCall => rfl
    | _ => cases hcall
  have hmessage : storedText [⟨.assistant, call.responseBlocks ++ call.toolCalls⟩] =
      blocksText (call.responseBlocks ++ call.toolCalls) := by simp [storedText]
  rw [hmessage, blocksText_append, hcalls, List.append_nil]

/-- The message of the tool results carries no text. -/
theorem storedText_resultMessage (results : List (ToolCall × ToolResult)) :
    storedText [resultMessage results] = [] := rfl

/-- A loop that stops has yielded nothing more. -/
theorem LoopTexts.stop {pc : LoopPc} (h : LoopTexts s)
    (hpc : (∃ exc, pc = .failed exc) ∨ ∃ message, pc = .raised message) :
    LoopTexts { s with pc := pc } := by
  refine ⟨h.coherent, fun call heq => ?_, fun _ hfailed hraised => ?_⟩
  · obtain ⟨_, rfl⟩ | ⟨_, rfl⟩ := hpc <;> cases heq
  · obtain ⟨exc, rfl⟩ | ⟨message, rfl⟩ := hpc
    · exact absurd rfl (hfailed exc)
    · exact absurd rfl (hraised message)

/-- A delta is collected as it is yielded. -/
theorem LoopTexts.continue {call call' : ModelCall} {event : StreamEvent}
    {yielded : Option AgentEvent} (h : LoopTexts s) (hpc : s.pc = .calling call)
    (hstep : call.step event = .continues call' yielded) :
    LoopTexts { s with pc := .calling call', yielded := s.yielded ++ yielded.toList } := by
  have hpending := h.pending call hpc
  have hboth : Coherent (pendingAfter [] s.yielded) yielded.toList ∧
      pendingAfter (pendingAfter [] s.yielded) yielded.toList =
        blocksText call'.responseBlocks := by
    cases yielded with
    | none =>
      refine ⟨trivial, hpending.trans ?_⟩
      cases event with
      | continuation =>
        cases hstep
        exact (blocksText_append _ _).symm ▸ (List.append_nil _).symm
      | toolCallDone =>
        cases hstep
        rfl
      | _ => cases hstep
    | some =>
      obtain ⟨text, rfl, rfl⟩ | ⟨text, kind, rfl, rfl⟩ := ModelCall.yielded_isDelta hstep
      · refine ⟨⟨trivial, trivial⟩, ?_⟩
        rw [blocksText_coalesceBlock, ← hpending]
        rfl
      · refine ⟨⟨trivial, trivial⟩, ?_⟩
        rw [blocksText_coalesceBlock, ← hpending]
        rfl
  refine ⟨coherent_append.mpr ⟨h.coherent, hboth.1⟩, fun call'' heq => ?_, fun hcalling => ?_⟩
  · cases heq
    exact pendingAfter_append.trans hboth.2
  · exact absurd rfl (hcalling call')

/-- A response hands over what it has collected. -/
theorem LoopTexts.respond {call : ModelCall} {event : StreamEvent} {result : ModelCallResult}
    (h : LoopTexts s) (hcollects : call.Collects) (hpc : s.pc = .calling call)
    (hstep : call.step event = .result result) : LoopTexts (agent.respond result s) := by
  have hcarries : storedText [result.message] = pendingAfter [] s.yielded := by
    rw [ModelCall.step_eq_result hstep, storedText_response hcollects, h.pending call hpc]
  -- what follows the message has no text
  have hround : ∀ silent : List AgentEvent, (∀ event ∈ silent, event.tagged = [] ∧
      event.isForwarded = true) → Coherent [] (s.yielded ++ .messageDone result.message :: silent) ∧
        pendingAfter [] (s.yielded ++ .messageDone result.message :: silent) = [] := by
    intro silent hsilent
    obtain ⟨hcoherent, hpending⟩ := @coherent_of_silent [] silent hsilent
    exact ⟨coherent_append.mpr ⟨h.coherent, hcarries, hcoherent⟩,
      pendingAfter_append.trans hpending⟩
  unfold ChatAgent.respond
  dsimp only
  split_ifs with hcalls hadmitted
  · have hfinal : Coherent [] (s.yielded ++
        [.messageDone result.message, .agentFinal result.usage result.providerRequestId]) :=
      coherent_append.mpr ⟨h.coherent, hcarries, trivial, trivial⟩
    exact ⟨hfinal, fun _ => LoopPc.noConfusion, fun _ _ _ => pendingAfter_append⟩
  all_goals
    obtain ⟨hcoherent, hpending⟩ := hround
      ((agent.admitCalls s.toolCallsUsed result.message.toolCalls).1.admitted.map fun call =>
        .toolCallStarted call.name call.arguments
          (agent.admitCalls s.toolCallsUsed result.message.toolCalls).1.admitted.length) (by
        intro event hevent
        obtain ⟨call, -, rfl⟩ := List.mem_map.mp hevent
        exact ⟨rfl, rfl⟩)
    exact ⟨hcoherent, fun _ => LoopPc.noConfusion, fun _ _ _ => hpending⟩

/-- The results of a batch have no text. -/
theorem LoopTexts.report {admission : Admission} {outcomes : List ToolResult} (h : LoopTexts s)
    (hpc : s.pc = .executing admission) : LoopTexts (ChatAgent.report admission outcomes s) := by
  have hnone : pendingAfter [] s.yielded = [] := by
    refine h.delivered ?_ ?_ ?_ <;> intro _ <;> rw [hpc] <;> exact LoopPc.noConfusion
  unfold ChatAgent.report
  dsimp only
  split
  · exact h.stop (.inr ⟨_, rfl⟩)
  · rename_i count _
    generalize (if 1 < admission.admitted.length then some count else none) = batchSourceCount
    set finished := (resolve admission outcomes).map fun entry =>
      AgentEvent.toolCallFinished entry.1.name entry.2.isError entry.2.metadata batchSourceCount
      with hfinished
    obtain ⟨hcoherent, hpending⟩ := @coherent_of_silent [] finished (by
      intro event hevent
      obtain ⟨entry, -, rfl⟩ := List.mem_map.mp hevent
      exact ⟨rfl, rfl⟩)
    have hyielded : Coherent [] (s.yielded ++ finished) :=
      coherent_append.mpr ⟨h.coherent, by rwa [hnone]⟩
    have hafter : pendingAfter [] (s.yielded ++ finished) = [] := by
      rw [pendingAfter_append, hnone, hpending]
    refine ⟨coherent_append.mpr ⟨hyielded, ?_, trivial⟩, fun call heq => ?_, fun hcalling => ?_⟩
    · show storedText [resultMessage (resolve admission outcomes)] = _
      rw [hafter, storedText_resultMessage]
    · cases heq
      exact pendingAfter_append
    · exact absurd rfl (hcalling .init)

theorem LoopTexts.step (h : LoopTexts s) (hinv : LoopInv agent s)
    (hstep : agent.step s a = some s') : LoopTexts s' := by
  unfold ChatAgent.step at hstep
  split at hstep
  · rename_i call event hpc
    split at hstep <;> cases hstep
    · rename_i hcontinues
      exact h.continue hpc hcontinues
    · rename_i hresult
      exact h.respond (hinv.collects call hpc) hpc hresult
  · cases hstep
    exact h.stop (.inl ⟨_, rfl⟩)
  · cases hstep
    exact h.stop (.inl ⟨_, rfl⟩)
  · cases hstep
    exact h.stop (.inr ⟨_, rfl⟩)
  · rename_i hpc
    split at hstep <;> cases hstep
    exact h.report hpc
  · cases hstep

/-- The agent loop yields coherent streams, whatever the provider and the tools answer. -/
theorem loopTexts_of_run (hrun : StepSystem.run agent.step agent.start actions = some s) :
    LoopTexts s := by
  let Inv (m : AgentLoop) : Prop := LoopInv agent m ∧ LoopTexts m
  have hstep : ∀ m a m', Inv m → agent.step m a = some m' → Inv m' :=
    fun m a m' ⟨hinv, htexts⟩ hnext => ⟨hinv.step hnext, htexts.step hinv hnext⟩
  have hend : Inv s := StepSystem.run_invariant hstep ⟨loopInv_start, loopTexts_start⟩ hrun
  exact hend.2

/-- A stream of events that a generator of the agent yields: in some run of the loop, up to a state
that ends the stream or in which nothing more comes before the worker is cancelled. -/
structure Yields (agent : ChatAgent) (stream : AgentStream) : Prop where
  run : ∃ actions s, StepSystem.run agent.step agent.start actions = some s ∧
    stream.events = s.yielded ∧
    match s.pc with
    | .finished => stream.ending = .finished
    | .failed exc => stream.ending = .providerError exc
    | .raised message => stream.ending = .raises message
    | _ => stream.ending = .hangs

/-- What the worker relies on of a stream. -/
theorem Yields.coherent {stream : AgentStream} (h : agent.Yields stream) :
    Coherent [] stream.events ∧
      (stream.ending = .finished → pendingAfter [] stream.events = []) := by
  obtain ⟨actions, s, hrun, hevents, hending⟩ := h.run
  have htexts := loopTexts_of_run hrun
  rw [hevents]
  refine ⟨htexts.coherent, fun hfinished => ?_⟩
  rw [hfinished] at hending
  refine htexts.delivered ?_ ?_ ?_ <;> intro _ hpc <;> rw [hpc] at hending <;> cases hending

end ChatAgent

/-! ### What the worker stores -/

section Worker

variable {a : Attempt} {event : AgentEvent} {events : List AgentEvent}
  (names : List (String × String))

/-- What the sink was handed is in the transcript or pending, and the rest of the stream is
coherent with what is pending. -/
structure Attempt.Mirrors (a : Attempt) (rest : List AgentEvent) : Prop where
  texts : streamedText a.sink.handed = storedText a.transcript ++ blocksText a.pendingBlocks
  coherent : Coherent (blocksText a.pendingBlocks) rest

/-- An event that is forwarded is pending from then on. -/
theorem Attempt.Mirrors.forward (h : a.Mirrors (event :: events))
    (hevent : event.isForwarded = true) : (a.forward names event).Mirrors events ∧
      blocksText (a.forward names event).pendingBlocks =
        event.pendingText (blocksText a.pendingBlocks) := by
  have hsome : toRunEvent event (a.seq + 1) names ≠ none := by
    rw [Ne, toRunEvent_eq_none_iff, hevent]
    decide
  obtain ⟨e, he⟩ := Option.ne_none_iff_exists'.mp hsome
  have hforward : a.forward names event =
      { a with
        sink := a.sink.emit e
        seq := a.seq + 1
        forwardedAny := true
        pendingBlocks := addPending a.pendingBlocks event } := by
    simp only [Attempt.forward, he]
  have hpending : event.pendingText (blocksText a.pendingBlocks) =
      blocksText a.pendingBlocks ++ event.tagged := by
    cases event with
    | messageDone => cases hevent
    | _ => rfl
  rw [hforward]
  refine ⟨⟨?_, ?_⟩, ?_⟩
  · have hhanded : streamedText [e] = event.tagged := by
      rw [← tagged_toRunEvent he]
      exact List.flatMap_singleton _ _
    simp only [FanoutSink.emit, streamedText_append, h.texts, hhanded, blocksText_addPending,
      List.append_assoc]
  · rw [blocksText_addPending, ← hpending]
    exact h.coherent.2
  · rw [blocksText_addPending, hpending]

/-- One turn of the loop. -/
theorem Attempt.Mirrors.observe (h : a.Mirrors (event :: events)) :
    (a.observe names event).Mirrors events ∧
      blocksText (a.observe names event).pendingBlocks =
        event.pendingText (blocksText a.pendingBlocks) := by
  cases event with
  | messageDone message =>
    -- the message takes over what was pending
    have hcarries : storedText [message] = blocksText a.pendingBlocks := h.coherent.1
    refine ⟨⟨?_, h.coherent.2⟩, rfl⟩
    have hempty : blocksText ([] : List ContentBlock) = [] := rfl
    show streamedText a.sink.handed = storedText (a.transcript ++ [message]) ++ blocksText []
    rw [storedText_append, hcarries, hempty, List.append_nil]
    exact h.texts
  | agentFinal usage providerRequestId =>
    have hsame : AgentEvent.pendingText (blocksText a.pendingBlocks)
        (.agentFinal usage providerRequestId) = blocksText a.pendingBlocks := List.append_nil _
    have hrest := h.coherent.2
    rw [hsame] at hrest
    exact ⟨⟨h.texts, hrest⟩, hsame.symm⟩
  | textDelta => exact h.forward names rfl
  | reasoningDelta => exact h.forward names rfl
  | toolCallStarted => exact h.forward names rfl
  | toolCallFinished => exact h.forward names rfl

/-- The loop, wherever it is cut. -/
theorem Attempt.Mirrors.consume (h : a.Mirrors events) (cancelledAt : ℕ → Bool)
    (sinkReturns : ℕ → Bool) (ending : StreamEnd) (wait : ℕ) :
    let r := Attempt.consume names cancelledAt sinkReturns ending wait events a
    streamedText r.1.sink.handed = storedText r.1.transcript ++ blocksText r.1.pendingBlocks ∧
      (r.2 = .finished → ending = .finished ∧
        blocksText r.1.pendingBlocks = pendingAfter (blocksText a.pendingBlocks) events) := by
  induction events generalizing a wait with
  | nil =>
    refine ⟨h.texts, fun hend => ⟨?_, rfl⟩⟩
    have hstream : AttemptEnd.ofStream (cancelledAt wait) ending = .finished := hend
    unfold AttemptEnd.ofStream at hstream
    split at hstream
    · cases hstream
    · split at hstream <;> first | rfl | cases hstream
  | cons event events ih =>
    obtain ⟨hnext, hpending⟩ := h.observe names
    unfold Attempt.consume
    split_ifs with hcancelled hsink
    · exact ⟨h.texts, AttemptEnd.noConfusion⟩
    · exact ⟨hnext.texts, AttemptEnd.noConfusion⟩
    · obtain ⟨htexts, hfinished⟩ := ih hnext (wait + 1)
      refine ⟨htexts, fun hend => ?_⟩
      obtain ⟨hending, hafter⟩ := hfinished hend
      rw [hpending] at hafter
      exact ⟨hending, hafter⟩

end Worker

/-- **The transcript is what was streamed.** For every agent loop, whatever its provider and its
tools answer in each attempt, and wherever the worker is cancelled or a provider error ends the
stream: the assistant messages of the outcome's transcript carry the characters of the deltas the
sink was handed, channel by channel and in the order in which text and reasoning alternate. -/
theorem stored_eq_streamed {agent : ChatAgent} {streams : ℕ → AgentStream} (policy : RetryPolicy)
    (names : List (String × String)) (around : Surroundings) (initialSeq : ℕ)
    {outcome : StreamOutcome} (hyields : ∀ attempt, agent.Yields (streams attempt))
    (houtcome : (consumeAgent policy names streams around initialSeq).outcome = some outcome) :
    let handed := (consumeAgent policy names streams around initialSeq).sink.handed
    let answers := outcome.transcript.filter fun m => m.role = .assistant
    storedText outcome.transcript = streamedText handed ∧
      String.join (answers.map Message.text) =
        channelText .text (handed.map SinkEvent.toRunEvent) ∧
      ∀ kind : ReasoningKind, String.join (answers.map fun m => m.reasoningText kind) =
        channelText (.ofKind kind) (handed.map SinkEvent.toRunEvent) := by
  have hstored : storedText outcome.transcript =
      streamedText (consumeAgent policy names streams around initialSeq).sink.handed := by
    obtain ⟨attempt, -, -, heq⟩ := consumeAttempts_eq policy.maxAttempts_pos
    unfold consumeAgent at houtcome ⊢
    rw [heq] at houtcome ⊢
    simp only at houtcome ⊢
    obtain ⟨hcoherent, hdelivered⟩ := (hyields attempt).coherent
    have hstart : (Attempt.start ⟨initialSeq, []⟩ initialSeq).Mirrors (streams attempt).events :=
      ⟨rfl, hcoherent⟩
    obtain ⟨htexts, hfinished⟩ := hstart.consume names (around.cancelledAt attempt)
      around.sinkReturns (streams attempt).ending 0
    have hattempt : Attempt.consume names (around.cancelledAt attempt) around.sinkReturns
        (streams attempt).ending 0 (streams attempt).events (.start ⟨initialSeq, []⟩ initialSeq) =
          attemptResult names streams around initialSeq attempt := rfl
    rw [hattempt] at htexts hfinished
    set r := attemptResult names streams around initialSeq attempt
    rw [htexts]
    cases hend : r.2 with
    | finished =>
      rw [hend] at houtcome hfinished
      cases houtcome
      obtain ⟨hending, hpending⟩ := hfinished rfl
      have hnone : blocksText r.1.pendingBlocks = [] := hpending.trans (hdelivered hending)
      rw [hnone, List.append_nil]
    | cancelled | failed =>
      rw [hend] at houtcome
      cases houtcome
      exact storedText_appendPartialMessage
    | raised =>
      rw [hend] at houtcome
      cases houtcome
  have hread : ∀ c, (channelText c ((consumeAgent policy names streams around
      initialSeq).sink.handed.map SinkEvent.toRunEvent)).toList =
        ofChannel c (storedText outcome.transcript) := by
    intro c
    rw [toList_channelText, hstored, List.flatMap_map]
    rfl
  refine ⟨hstored, String.toList_inj.mp ?_, fun kind => String.toList_inj.mp ?_⟩
  · rw [hread]
    exact toList_join_stored toList_text
  · rw [hread]
    exact toList_join_stored fun m => toList_reasoningText m kind

/-- An answer that a provider error cuts short. -/
def cutAnswer : AgentStream where
  events := [.reasoningDelta "Clocks" .raw, .textDelta "It is ", .textDelta "noon"]
  ending := .providerError ⟨"overloaded", "Overloaded", true⟩

/-- A worker that is never cancelled. -/
def undisturbed : Surroundings := ⟨fun _ _ => false, fun _ => false, fun _ => true⟩

theorem stored_eq_streamed_cutAnswer :
    ∃ outcome, (consumeAgent ⟨1, none, le_rfl⟩ [] (fun _ => cutAnswer) undisturbed 1).outcome =
        some outcome ∧
      outcome.transcript = [⟨.assistant, [.reasoning "Clocks" .raw, .text "It is noon"]⟩] ∧
      storedText outcome.transcript = streamedText
        (consumeAgent ⟨1, none, le_rfl⟩ [] (fun _ => cutAnswer) undisturbed 1).sink.handed := by
  have hyields : ∀ _ : ℕ, (⟨[], [], 0⟩ : ChatAgent).Yields cutAnswer := by
    intro _
    refine ⟨[.provider (.reasoningDelta "Clocks" .raw), .provider (.textDelta "It is "),
      .provider (.textDelta "noon"), .providerFails ⟨"overloaded", "Overloaded", true⟩], _, rfl,
      rfl, rfl⟩
  have houtcome : ∃ outcome, (consumeAgent ⟨1, none, le_rfl⟩ [] (fun _ => cutAnswer) undisturbed
      1).outcome = some outcome ∧
        outcome.transcript = [⟨.assistant, [.reasoning "Clocks" .raw, .text "It is noon"]⟩] := by
    obtain ⟨attempt, hpos, hmax, heq⟩ := @consumeAttempts_eq ⟨1, none, le_rfl⟩ []
      (fun _ => cutAnswer) undisturbed 1 0 Nat.one_pos
    obtain rfl : attempt = 1 := le_antisymm hmax hpos
    unfold consumeAgent
    rw [heq]
    exact ⟨_, rfl, by decide +kernel⟩
  obtain ⟨outcome, hsome, htranscript⟩ := houtcome
  obtain ⟨hstored, -⟩ := stored_eq_streamed ⟨1, none, le_rfl⟩ [] undisturbed 1 hyields hsome
  exact ⟨outcome, hsome, htranscript, hstored⟩

end IChat

import IChat.Agent.ChatCompletions
import IChat.Agent.Wire
import IChat.General.Lists
import IChat.General.Url

/-!
# Continuation state of OpenRouter

`OpenRouterProvider` keeps the `reasoning_details` of a response in continuation blocks, one for
each chunk that has some, and sends them back with the message. A block carries the replay key of
the route it came from, a digest of the normalized base URL and the model; on another route it is
left out.

* `streamed_details`: the blocks of a streamed message hold the details of all chunks, in order;
* `continuation_replayed`: on the same route all of them are sent, and on other routes a message is
  sent as if it had none.

`hashlib.sha256(..).hexdigest()` and the tables of Unicode are parameters.
-/

namespace IChat

/-- The parts of a delta that hold reasoning. A part that is missing is null. -/
structure OpenRouterDelta where
  reasoningDetails : Json
  reasoning : Json
  reasoningContent : Json

/-- What a delta can fail with: invalid details, or a format that has no hash. -/
inductive DeltaFailure where
  | provider (error : ProviderError)
  | unhashable
  deriving DecidableEq

/-- The error for invalid details. -/
def invalidReasoningDetails : ProviderError where
  code := "openrouter_invalid_reasoning_details"
  message := "OpenRouter returned invalid reasoning details"
  retryable := false

/-- `_reasoning_details`. A value of JSON stays what it is. -/
def reasoningDetails (raw : Json) : Except DeltaFailure (List Dict) :=
  match raw with
  | .null => .ok []
  | .arr items =>
    match items.mapM Json.obj? with
    | some details => .ok details
    | none => .error (.provider invalidReasoningDetails)
  | _ => .error (.provider invalidReasoningDetails)

/-- `_visible_reasoning_detail`. -/
def visibleReasoningDetail (detail : Dict) :
    Except DeltaFailure (Option (String × ReasoningKind)) :=
  if detail.get? "type" = some (.str "reasoning.summary") then
    .ok (((detail.get? "summary").bind Json.str?).map fun text => (text, .summary))
  else if detail.get? "type" ≠ some (.str "reasoning.text") then .ok none
  else
    match (detail.get? "text").bind Json.str? with
    | none => .ok none
    | some text =>
      match detail.get? "format" with
      | some (.arr _) => .error .unhashable
      | some (.obj _) => .error .unhashable
      | format =>
        .ok (some (text, if format = some (.str "google-gemini-v1") then .summary else .raw))

/-- `_plaintext_reasoning`. -/
def plaintextReasoning (delta : OpenRouterDelta) : Option String :=
  ([delta.reasoning, delta.reasoningContent].filterMap Json.str?).find? (· ≠ "")

/-- `_reasoning_events_from_delta`, of a provider that shows `outputs` and whose route has the
replay key. -/
def reasoningEventsFromDelta (outputs : List ReasoningKind) (replayKey : String)
    (delta : OpenRouterDelta) : Except DeltaFailure (List ReasoningEvent) := do
  let details ← reasoningDetails delta.reasoningDetails
  let continuation : List ReasoningEvent :=
    if details = [] then []
    else
      [.continuation "openrouter" "reasoning_details.v2" "assistant_message"
        [("reasoning_details", .arr (details.map .obj)), ("replay_key", .str replayKey)]]
  let visible ← details.mapM visibleReasoningDetail
  let shown := visible.filterMap fun
    | some (text, kind) => if text = "" then none else some (.reasoningDelta text kind)
    | none => none
  if shown ≠ [] then pure (continuation ++ shown)
  else
    match plaintextReasoning delta with
    | none => pure continuation
    | some text =>
      -- `self._reasoning_outputs == frozenset({"summary"})`
      let kind : ReasoningKind := if .summary ∈ outputs ∧ .raw ∉ outputs then .summary else .raw
      if kind ∈ outputs then pure (continuation ++ [.reasoningDelta text kind])
      else pure continuation

/-! ### Replay -/

/-- The details of a block that is replayed with the replay key. -/
def continuationDetails (replayKey : String) : ContentBlock → List Json
  | .providerContinuation owner codec scope payload =>
    if owner ≠ "openrouter" ∨ scope ≠ "assistant_message" then []
    else if codec = "reasoning_details.v2" ∧
        Dict.get? payload "replay_key" ≠ some (.str replayKey) then []
    else if codec ≠ "reasoning_details.v2" ∧ codec ≠ "reasoning_details.v1" then []
    else
      match Dict.get? payload "reasoning_details" with
      | some (.arr items) => if items.all (fun item => item.obj?.isSome) then items else []
      | _ => []
  | _ => []

/-- The text of a reasoning block. -/
def reasoningBlockText : ContentBlock → Option String
  | .reasoning text _ => some text
  | _ => none

/-- `_assistant_message_extras`. -/
def assistantMessageExtras (replayKey : String) (message : Message) : Dict :=
  let details := message.blocks.flatMap (continuationDetails replayKey)
  if details ≠ [] then [("reasoning_details", .arr details)]
  else
    let reasoning := String.join (message.blocks.filterMap reasoningBlockText)
    if reasoning ≠ "" then [("reasoning", .str reasoning)] else []

/-- The hook of OpenRouter. -/
def openRouterHook (replayKey : String) : ExtrasHook where
  extras := assistantMessageExtras replayKey
  keys message field hfield := by
    have hnames : "reasoning_details" ∉ ["role", "content", "tool_calls"] ∧
        "reasoning" ∉ ["role", "content", "tool_calls"] := by decide
    rw [assistantMessageExtras] at hfield
    dsimp only at hfield
    split_ifs at hfield
    · rw [List.mem_singleton.mp hfield]
      exact hnames.1
    · rw [List.mem_singleton.mp hfield]
      exact hnames.2
    · cases hfield
  withoutTools message := by
    have hdetails : message.withoutTools.blocks.flatMap (continuationDetails replayKey) =
        message.blocks.flatMap (continuationDetails replayKey) := by
      refine List.flatMap_filter_of_eq_nil fun block _ hblock => ?_
      cases block with
      | providerContinuation => cases hblock
      | _ => rfl
    have htexts : message.withoutTools.blocks.filterMap reasoningBlockText =
        message.blocks.filterMap reasoningBlockText := by
      rw [Message.withoutTools, List.filterMap_filter]
      refine congrArg (fun f => message.blocks.filterMap f) (funext fun block => ?_)
      cases block <;> rfl
    rw [assistantMessageExtras, assistantMessageExtras, hdetails, htexts]

/-! ### Routes -/

/-- Where a model call goes. -/
structure Route where
  baseUrl : String
  model : String
  deriving DecidableEq

section

variable (u : Url.UnicodeData) (sha256 : String → String)

/-- `_normalized_base_url`; nothing where it raises. A scheme is ASCII. -/
def normalizedBaseUrl (value : String) : Option String := do
  let parsed ← Url.urlsplit u (Text.strip value.toList)
  let scheme := parsed.scheme.map Char.toLower
  let host := u.lower ((parsed.hostname u).getD [])
  let host := if ':' ∈ host then '[' :: host ++ [']'] else host
  let defaultPort := if String.ofList scheme = "http" then 80 else 443
  let port ← parsed.port
  let netloc :=
    match port with
    | none => host
    | some port => if port = defaultPort then host else host ++ ':' :: Nat.toDigits 10 port
  some (String.ofList (Url.urlunsplit scheme netloc (Text.rstrip (· = '/') parsed.path)))

/-- The text that is digested for a route. -/
def Route.material (route : Route) : Option String :=
  (normalizedBaseUrl u route.baseUrl).map fun url => url ++ "\n" ++ route.model

/-- `_continuation_replay_key`. -/
def Route.replayKey (route : Route) : Option String :=
  (route.material u).map fun material => "openrouter:v1:" ++ sha256 material

variable {u sha256}

/-- A normalized base URL is one line. -/
theorem newline_notMem_normalizedBaseUrl (hlower : ∀ s, '\n' ∉ s → '\n' ∉ u.lower s)
    {value url : String} (h : normalizedBaseUrl u value = some url) : '\n' ∉ url.toList := by
  obtain ⟨parsed, hparsed, h⟩ := Option.bind_eq_some_iff.mp h
  obtain ⟨hscheme, hnetloc, hpath⟩ := Url.notMem_of_urlsplit hparsed
  have hhost := hlower _ (Url.SplitResult.notMem_hostname hlower hnetloc)
  dsimp only at h
  generalize u.lower ((parsed.hostname u).getD []) = host at h hhost
  obtain ⟨port, -, h⟩ := Option.bind_eq_some_iff.mp h
  cases h
  rw [String.toList_ofList]
  have hbracketed : '\n' ∉ if ':' ∈ host then '[' :: host ++ [']'] else host := by
    split
    · simp only [List.cons_append, List.mem_cons, List.mem_append, List.not_mem_nil, not_or,
        or_false]
      exact ⟨by decide, hhost, by decide⟩
    · exact hhost
  refine Url.notMem_urlunsplit ?_ ?_ ?_
  · intro hin
    obtain ⟨c, hc, hlow⟩ := List.mem_map.mp hin
    rw [Url.toLower_eq_newline hlow] at hc
    exact hscheme hc
  · cases port with
    | none => exact hbracketed
    | some port =>
      dsimp only
      generalize (if String.ofList (parsed.scheme.map Char.toLower) = "http" then 80 else 443) =
        defaultPort
      by_cases hport : port = defaultPort
      · rw [if_pos hport]
        exact hbracketed
      · rw [if_neg hport, List.mem_append, List.mem_cons, not_or, not_or]
        refine ⟨hbracketed, by decide, fun hin => ?_⟩
        exact absurd (Nat.isDigit_of_mem_toDigits (by decide) (by decide) hin) (by decide)
  · exact fun hin => hpath ((Text.rstrip_prefix _ _).subset hin)

/-- Routes that differ have texts that differ. -/
theorem Route.material_injective (hlower : ∀ s, '\n' ∉ s → '\n' ∉ u.lower s) {a b : Route}
    {material : String} (ha : a.material u = some material) (hb : b.material u = some material) :
    normalizedBaseUrl u a.baseUrl = normalizedBaseUrl u b.baseUrl ∧ a.model = b.model := by
  obtain ⟨urlA, hurlA, hmaterialA⟩ := Option.map_eq_some_iff.mp ha
  obtain ⟨urlB, hurlB, hmaterialB⟩ := Option.map_eq_some_iff.mp hb
  have heq : urlA.toList ++ '\n' :: a.model.toList = urlB.toList ++ '\n' :: b.model.toList := by
    have hlists := congrArg String.toList (hmaterialA.trans hmaterialB.symm)
    rw [String.toList_append, String.toList_append, String.toList_append, String.toList_append,
      List.append_assoc, List.append_assoc] at hlists
    exact hlists
  obtain ⟨hurls, hmodels⟩ := List.append_cons_inj_left
    (newline_notMem_normalizedBaseUrl hlower hurlA) (newline_notMem_normalizedBaseUrl hlower hurlB)
    heq
  rw [hurlA, hurlB, String.toList_inj.mp hurls]
  exact ⟨rfl, String.toList_inj.mp hmodels⟩

end

/-! ### A streamed message -/

/-- The chunk with what a hook makes of its reasoning. -/
def Chunk.evaluate {α β ε : Type*} (hook : α → Except ε β) (chunk : Chunk α) :
    Except ε (Chunk β) :=
  match chunk.choice with
  | none => .ok ⟨chunk.usage, none⟩
  | some choice =>
    (hook choice.delta.reasoning).map fun reasoning =>
      ⟨chunk.usage,
        some ⟨⟨reasoning, choice.delta.content, choice.delta.toolCalls⟩, choice.finishReason⟩⟩

/-- The result of a model call over a response of OpenRouter; nothing where it fails, be it with an
error of the response or at the reasoning of a chunk. -/
def openRouterCall (loads : String → Option Json) (outputs : List ReasoningKind)
    (replayKey : String) (response : Response OpenRouterDelta) : Option ModelCallResult :=
  match response.chunks.mapM (Chunk.evaluate (reasoningEventsFromDelta outputs replayKey)) with
  | .error _ => none
  | .ok chunks =>
    match (Response.stream loads id ⟨chunks, response.error, response.requestId⟩).modelCall.2 with
    | .error _ => none
    | .ok result => some result

/-- The details of a chunk. -/
def Chunk.details (chunk : Chunk OpenRouterDelta) : List Json :=
  match chunk.choice with
  | none => []
  | some choice =>
    match choice.delta.reasoning.reasoningDetails with
    | .arr items => items
    | _ => []

/-- The block is a continuation block. -/
def ContentBlock.continuation? : ContentBlock → Option ContentBlock
  | .providerContinuation owner codec scope payload =>
    some (.providerContinuation owner codec scope payload)
  | _ => none

/-- The continuation block that an event carries. -/
def StreamEvent.continuation? : StreamEvent → Option ContentBlock
  | .continuation owner codec scope payload =>
    some (.providerContinuation owner codec scope payload)
  | _ => none

theorem flatMap_continuationDetails (replayKey : String) (blocks : List ContentBlock) :
    blocks.flatMap (continuationDetails replayKey) =
      (blocks.filterMap ContentBlock.continuation?).flatMap (continuationDetails replayKey) := by
  induction blocks with
  | nil => rfl
  | cons block blocks ih =>
    rw [List.flatMap_cons, ih]
    cases block with
    | providerContinuation => exact List.flatMap_cons.symm
    | _ => rw [List.filterMap_cons_none rfl]; rfl

/-- A piece of text or reasoning leaves the continuation blocks as they are. -/
theorem filterMap_coalesceBlock {blocks : List ContentBlock} {block : ContentBlock}
    (hblock : block.continuation? = none) :
    (coalesceBlock blocks block).filterMap ContentBlock.continuation? =
      blocks.filterMap ContentBlock.continuation? := by
  have hlast : ∀ last piece : ContentBlock, blocks.getLast? = some last →
      last.continuation? = none → piece.continuation? = none →
        (blocks.dropLast ++ [piece]).filterMap ContentBlock.continuation? =
          blocks.filterMap ContentBlock.continuation? := by
    intro last piece hsome hold hnew
    conv_rhs => rw [← List.dropLast_append_getLast? last hsome]
    rw [List.filterMap_append, List.filterMap_append, List.filterMap_cons_none hnew,
      List.filterMap_cons_none hold]
  have happend : (blocks ++ [block]).filterMap ContentBlock.continuation? =
      blocks.filterMap ContentBlock.continuation? := by
    rw [List.filterMap_append, List.filterMap_cons_none hblock, List.filterMap_nil, List.append_nil]
  unfold coalesceBlock
  split
  · rename_i hsome
    exact hlast _ _ hsome rfl rfl
  · rename_i hsome
    split
    · exact hlast _ _ hsome rfl rfl
    · exact happend
  · exact happend

/-- The message of a model call has the continuation blocks of its stream, in order. -/
theorem ModelCall.outcome_continuations (error : Option ProviderError) (finishReason : String)
    (usage : Option Dict) (requestId : Option String) {events : List StreamEvent}
    (hopen : ∀ event ∈ events, event.isDone = false) {call : ModelCall} (hcall : call.Collects) :
    ∃ result,
      (call.outcome error (events ++ [.streamDone finishReason usage requestId])).2 = .ok result ∧
      result.message.role = .assistant ∧
      result.message.blocks.filterMap ContentBlock.continuation? =
        call.responseBlocks.filterMap ContentBlock.continuation? ++
          events.filterMap StreamEvent.continuation? := by
  induction events generalizing call with
  | nil =>
    refine ⟨_, rfl, rfl, ?_⟩
    have hcalls : call.toolCalls.filterMap ContentBlock.continuation? = [] := by
      refine List.filterMap_eq_nil_iff.mpr fun block hblock => ?_
      have hkind := hcall.toolCalls block hblock
      cases block with
      | providerContinuation => cases hkind
      | _ => rfl
    rw [List.filterMap_append, hcalls]
    rfl
  | cons event events ih =>
    have hrest := fun later hlater => hopen later (List.mem_cons_of_mem _ hlater)
    have hself := hopen event List.mem_cons_self
    cases hstep : call.step event with
    | result =>
      cases event with
      | streamDone => cases hself
      | _ => cases hstep
    | continues =>
      obtain ⟨result, hresult, hrole, hblocks⟩ := ih hrest (hcall.step hstep)
      have hnext : (call.outcome error
          (event :: events ++ [.streamDone finishReason usage requestId])).2 = .ok result := by
        rw [List.cons_append, ModelCall.outcome, hstep]
        exact hresult
      refine ⟨result, hnext, hrole, hblocks.trans ?_⟩
      cases event with
      | textDelta | reasoningDelta =>
        cases hstep
        rw [List.filterMap_cons_none rfl]
        exact congrArg (· ++ _) (filterMap_coalesceBlock rfl)
      | continuation =>
        cases hstep
        rw [List.filterMap_append, List.append_assoc]
        rfl
      | toolCallDone =>
        cases hstep
        rw [List.filterMap_cons_none rfl]
      | streamDone => cases hself

/-- The events that the reasoning of a chunk has given. -/
def Chunk.reasoning (chunk : Chunk (List ReasoningEvent)) : List ReasoningEvent :=
  match chunk.choice with
  | none => []
  | some choice => choice.delta.reasoning

/-- The continuation blocks of a stream are those of its chunks. -/
theorem continuations_run (loads : String → Option Json)
    (chunks : List (Chunk (List ReasoningEvent))) :
    (Adapter.run loads id chunks).events.filterMap StreamEvent.continuation? =
      chunks.flatMap fun chunk => chunk.reasoning.filterMap
        fun event => event.toStreamEvent.continuation? := by
  induction chunks using List.reverseRecOn with
  | nil => rfl
  | append_singleton chunks chunk ih =>
    have hmirrors := Adapter.mirrors_run loads id chunks
    rw [Adapter.run, List.foldl_append, List.flatMap_append, List.flatMap_singleton, ← ih]
    change ((Adapter.run loads id chunks).chunk loads id chunk).events.filterMap _ = _
    generalize Adapter.run loads id chunks = adapter at hmirrors
    obtain ⟨usage, choice⟩ := chunk
    cases choice with
    | none => exact (List.append_nil _).symm
    | some choice =>
      have htext : choice.delta.textEvents.filterMap StreamEvent.continuation? = [] := by
        rw [ChoiceDelta.textEvents]
        split
        · rfl
        · split <;> rfl
      have htold : (adapter.events ++ (choice.delta.reasoning).map ReasoningEvent.toStreamEvent ++
          choice.delta.textEvents).filterMap StreamEvent.continuation? =
            adapter.events.filterMap StreamEvent.continuation? ++
              choice.delta.reasoning.filterMap fun event => event.toStreamEvent.continuation? := by
        rw [List.filterMap_append, List.filterMap_append, htext, List.append_nil,
          List.filterMap_map]
        rfl
      cases hreason : choice.finishReason with
      | none =>
        simp only [Adapter.chunk, Adapter.choice, hreason, foldl_fragment]
        exact htold
      | some =>
        have hbuffers := hmirrors.buffers.foldl_collect (choice.delta.toolCalls.getD [])
        simp only [Adapter.chunk, Adapter.choice, hreason, foldl_fragment]
        rw [Adapter.finish_calls hbuffers]
        have hcalls : ∀ fragments, ((callsOf loads fragments).map Prod.snd).filterMap
            StreamEvent.continuation? = [] := by
          intro fragments
          rw [List.filterMap_eq_nil_iff]
          intro event hevent
          have hkind := (isToolCall_of_mem_callsOf hevent).1
          cases event with
          | toolCallDone => rfl
          | _ => cases hkind
        rw [List.filterMap_append, hcalls, List.append_nil]
        exact htold

private theorem eq_map_obj {items : List Json} {details : List Dict}
    (h : items.mapM Json.obj? = some details) : items = details.map Json.obj := by
  induction items generalizing details with
  | nil =>
    cases h
    rfl
  | cons item items ih =>
    rw [List.mapM_cons] at h
    obtain ⟨fields, hfields, h⟩ := Option.bind_eq_some_iff.mp h
    obtain ⟨rest, hrest, h⟩ := Option.bind_eq_some_iff.mp h
    cases h
    cases item with
    | obj =>
      cases hfields
      rw [List.map_cons, ih hrest]
    | _ => cases hfields

/-- A block of details is replayed with its own replay key. -/
theorem continuationDetails_self (replayKey : String) (details : List Dict) :
    continuationDetails replayKey
      (.providerContinuation "openrouter" "reasoning_details.v2" "assistant_message"
        [("reasoning_details", .arr (details.map .obj)), ("replay_key", .str replayKey)]) =
      details.map Json.obj := by
  have hall : (details.map Json.obj).all (fun item => item.obj?.isSome) = true := by
    rw [List.all_map, List.all_eq_true]
    exact fun _ _ => rfl
  rw [continuationDetails, if_neg (by simp), if_neg (by simp [Dict.get?_cons]), if_neg (by simp)]
  simp only [Dict.get?_cons, if_true, hall]

/-- The block is a `reasoning_details.v2` block of OpenRouter. -/
def ContentBlock.isV2 : ContentBlock → Bool
  | .providerContinuation owner codec _ _ => owner = "openrouter" && codec = "reasoning_details.v2"
  | _ => false

/-- The key under which a block is replayed. -/
def ContentBlock.replayKey? : ContentBlock → Option Json
  | .providerContinuation _ _ _ payload => Dict.get? payload "replay_key"
  | _ => none

/-- The continuation block of details. -/
def detailsEvents (replayKey : String) (details : List Dict) : List ReasoningEvent :=
  if details = [] then []
  else
    [.continuation "openrouter" "reasoning_details.v2" "assistant_message"
      [("reasoning_details", .arr (details.map .obj)), ("replay_key", .str replayKey)]]

/-- What a delta gives: a block for its details, if it has some, and pieces of text. -/
theorem reasoningEvents_shape {outputs : List ReasoningKind} {replayKey : String}
    {delta : OpenRouterDelta} {events : List ReasoningEvent}
    (h : reasoningEventsFromDelta outputs replayKey delta = .ok events) :
    ∃ details shown, events = detailsEvents replayKey details ++ shown ∧
      (∀ event ∈ shown, ∃ text kind, event = .reasoningDelta text kind) ∧
      (match delta.reasoningDetails with
      | .arr items => items
      | _ => []) = details.map Json.obj := by
  obtain ⟨details, hdetails, h⟩ := bind_eq_ok_iff.mp h
  obtain ⟨visible, -, h⟩ := bind_eq_ok_iff.mp h
  have hitems : (match delta.reasoningDetails with
      | .arr items => items
      | _ => []) = details.map Json.obj := by
    dsimp only [reasoningDetails] at hdetails
    split at hdetails
    · rename_i hnull
      cases hdetails
      rw [hnull]
      rfl
    · rename_i items harr
      rw [harr]
      split at hdetails
      · rename_i read hread
        cases hdetails
        exact eq_map_obj hread
      · cases hdetails
    · cases hdetails
  dsimp only at h
  have hshown : ∀ event ∈ (visible.filterMap fun
      | some (text, kind) => if text = "" then none else some (.reasoningDelta text kind)
      | none => none : List ReasoningEvent), ∃ text kind, event = .reasoningDelta text kind := by
    intro event hevent
    obtain ⟨detail, -, hsome⟩ := List.mem_filterMap.mp hevent
    split at hsome
    · split at hsome
      · cases hsome
      · exact ⟨_, _, (Option.some.inj hsome).symm⟩
    · cases hsome
  have hnone : ∀ event ∈ ([] : List ReasoningEvent), ∃ text kind,
      event = .reasoningDelta text kind := fun _ hin => absurd hin List.not_mem_nil
  split at h
  · exact ⟨details, _, (Except.ok.inj h).symm, hshown, hitems⟩
  · split at h
    · exact ⟨details, [], (Except.ok.inj h).symm.trans (List.append_nil _).symm, hnone, hitems⟩
    · generalize (if ReasoningKind.summary ∈ outputs ∧ ReasoningKind.raw ∉ outputs then
        ReasoningKind.summary else ReasoningKind.raw) = kind at h
      split at h
      · exact ⟨details, _, (Except.ok.inj h).symm,
          fun event hin => ⟨_, _, List.mem_singleton.mp hin⟩, hitems⟩
      · exact ⟨details, [], (Except.ok.inj h).symm.trans (List.append_nil _).symm, hnone, hitems⟩

/-- Pieces of text are no continuation blocks. -/
theorem continuations_detailsEvents {replayKey : String} {details : List Dict}
    {shown : List ReasoningEvent}
    (hshown : ∀ event ∈ shown, ∃ text kind, event = .reasoningDelta text kind) :
    ((detailsEvents replayKey details ++ shown).filterMap
        fun event => event.toStreamEvent.continuation?) =
      if details = [] then [] else
        [.providerContinuation "openrouter" "reasoning_details.v2" "assistant_message"
          [("reasoning_details", .arr (details.map .obj)), ("replay_key", .str replayKey)]] := by
  have hnone : (shown.filterMap fun event => event.toStreamEvent.continuation?) = [] := by
    rw [List.filterMap_eq_nil_iff]
    intro event hevent
    obtain ⟨text, kind, rfl⟩ := hshown event hevent
    rfl
  rw [List.filterMap_append, hnone, List.append_nil, detailsEvents]
  split <;> rfl

/-- The details that the events of a delta carry are those of the delta. -/
theorem details_of_reasoningEvents {outputs : List ReasoningKind} {replayKey : String}
    {delta : OpenRouterDelta} {events : List ReasoningEvent}
    (h : reasoningEventsFromDelta outputs replayKey delta = .ok events) :
    (events.filterMap fun event => event.toStreamEvent.continuation?).flatMap
        (continuationDetails replayKey) =
      match delta.reasoningDetails with
      | .arr items => items
      | _ => [] := by
  obtain ⟨details, shown, rfl, hshown, hitems⟩ := reasoningEvents_shape h
  rw [hitems, continuations_detailsEvents hshown]
  split
  · rename_i hempty
    rw [hempty]
    rfl
  · rw [List.flatMap_singleton, continuationDetails_self]

/-- The events of a delta carry the replay key of their route. -/
theorem replayKey_of_reasoningEvents {outputs : List ReasoningKind} {replayKey : String}
    {delta : OpenRouterDelta} {events : List ReasoningEvent}
    (h : reasoningEventsFromDelta outputs replayKey delta = .ok events) :
    ∀ block ∈ events.filterMap fun event => event.toStreamEvent.continuation?,
      block.replayKey? = some (.str replayKey) := by
  obtain ⟨details, shown, rfl, hshown, -⟩ := reasoningEvents_shape h
  rw [continuations_detailsEvents hshown]
  intro block hblock
  split at hblock
  · cases hblock
  · obtain rfl := List.mem_singleton.mp hblock
    simp [ContentBlock.replayKey?, Dict.get?_cons]

/-- The details of evaluated chunks are those of the chunks. -/
theorem details_of_evaluate {outputs : List ReasoningKind} {replayKey : String}
    {chunks : List (Chunk OpenRouterDelta)} {evaluated : List (Chunk (List ReasoningEvent))}
    (h : chunks.mapM (Chunk.evaluate (reasoningEventsFromDelta outputs replayKey)) =
      .ok evaluated) :
    (evaluated.flatMap fun chunk => chunk.reasoning.filterMap
        fun event => event.toStreamEvent.continuation?).flatMap (continuationDetails replayKey) =
      chunks.flatMap Chunk.details := by
  induction chunks generalizing evaluated with
  | nil =>
    cases h
    rfl
  | cons chunk chunks ih =>
    rw [List.mapM_cons] at h
    obtain ⟨first, hfirst, h⟩ := bind_eq_ok_iff.mp h
    obtain ⟨rest, hrest, h⟩ := bind_eq_ok_iff.mp h
    cases h
    rw [List.flatMap_cons, List.flatMap_append, ih hrest, List.flatMap_cons]
    congr 1
    rw [Chunk.evaluate] at hfirst
    rw [Chunk.details]
    cases hchoice : chunk.choice with
    | none =>
      rw [hchoice] at hfirst
      cases hfirst
      rfl
    | some =>
      rw [hchoice] at hfirst
      obtain ⟨events, hevents, rfl⟩ := map_eq_ok_iff.mp hfirst
      exact details_of_reasoningEvents hevents

/-- The continuation blocks of evaluated chunks carry the replay key of their route. -/
theorem replayKey_of_evaluate {outputs : List ReasoningKind} {replayKey : String}
    {chunks : List (Chunk OpenRouterDelta)} {evaluated : List (Chunk (List ReasoningEvent))}
    (h : chunks.mapM (Chunk.evaluate (reasoningEventsFromDelta outputs replayKey)) =
      .ok evaluated) :
    ∀ block ∈ evaluated.flatMap fun chunk => chunk.reasoning.filterMap
        fun event => event.toStreamEvent.continuation?,
      block.replayKey? = some (.str replayKey) := by
  intro block hblock
  obtain ⟨read, hread, hblock⟩ := List.mem_flatMap.mp hblock
  obtain ⟨chunk, -, heval⟩ := Except.exists_of_mapM_eq_ok h read hread
  rw [Chunk.evaluate] at heval
  cases hchoice : chunk.choice with
  | none =>
    rw [hchoice] at heval
    cases heval
    cases hblock
  | some =>
    rw [hchoice] at heval
    obtain ⟨events, hevents, rfl⟩ := map_eq_ok_iff.mp heval
    exact replayKey_of_reasoningEvents hevents block hblock

/-- The continuation blocks of a streamed message are those of its chunks, in order. -/
theorem streamed_continuations {loads : String → Option Json} {outputs : List ReasoningKind}
    {replayKey : String} {response : Response OpenRouterDelta} {result : ModelCallResult}
    (h : openRouterCall loads outputs replayKey response = some result) :
    ∃ chunks, response.chunks.mapM
        (Chunk.evaluate (reasoningEventsFromDelta outputs replayKey)) = .ok chunks ∧
      result.message.role = .assistant ∧
      result.message.blocks.filterMap ContentBlock.continuation? =
        chunks.flatMap fun chunk => chunk.reasoning.filterMap
          fun event => event.toStreamEvent.continuation? := by
  rw [openRouterCall] at h
  cases hchunks : response.chunks.mapM
      (Chunk.evaluate (reasoningEventsFromDelta outputs replayKey)) with
  | error failure =>
    rw [hchunks] at h
    cases h
  | ok chunks =>
    rw [hchunks] at h
    dsimp only at h
    split at h
    · cases h
    · rename_i streamed hstreamed
      cases h
      have herror : response.error = none := by
        by_contra hbroken
        obtain ⟨error, hfailed⟩ := (Response.modelCall_fails_iff loads id
          ⟨chunks, response.error, response.requestId⟩).mpr hbroken
        rw [hfailed] at hstreamed
        cases hstreamed
      have hundone := (Adapter.mirrors_run loads id chunks).undone
      obtain ⟨other, hother, hrole, hblocks⟩ := ModelCall.outcome_continuations none
        (orStop (Adapter.run loads id chunks).finishReason) (Adapter.run loads id chunks).usage
        response.requestId hundone ModelCall.collects_init
      have hsame : (Response.stream loads id
          ⟨chunks, response.error, response.requestId⟩).modelCall.2 = .ok other := by
        rw [Response.stream, herror]
        exact hother
      rw [hsame] at hstreamed
      cases hstreamed
      exact ⟨chunks, rfl, hrole, hblocks.trans (continuations_run loads chunks)⟩

/-- **A streamed message.** It is the assistant's, its blocks hold the details of all chunks, in
order, and they carry the replay key of the route. -/
theorem streamed_details {loads : String → Option Json} {outputs : List ReasoningKind}
    {replayKey : String} {response : Response OpenRouterDelta} {result : ModelCallResult}
    (h : openRouterCall loads outputs replayKey response = some result) :
    result.message.role = .assistant ∧
      result.message.blocks.flatMap (continuationDetails replayKey) =
        response.chunks.flatMap Chunk.details ∧
      ∀ block ∈ result.message.blocks, block.isV2 = true →
        block.replayKey? = some (.str replayKey) := by
  obtain ⟨chunks, hchunks, hrole, hblocks⟩ := streamed_continuations h
  refine ⟨hrole, ?_, fun block hblock hv2 => ?_⟩
  · rw [flatMap_continuationDetails, hblocks]
    exact details_of_evaluate hchunks
  · refine replayKey_of_evaluate hchunks block
      (hblocks ▸ List.mem_filterMap.mpr ⟨block, hblock, ?_⟩)
    cases block with
    | providerContinuation => rfl
    | _ => cases hv2

/-! ### What is sent -/

/-- The request carries the details that are replayed, and no field for them if there are none. -/
theorem replayed_details (replayKey : String) (resolved : Option (String → Option String))
    {message : Message} (hrole : message.role = .assistant) :
    ∃ payload, messagesToWire false false resolved (some (openRouterHook replayKey)) [message] =
        .ok [payload] ∧
      payload.get? "reasoning_details" =
        if message.blocks.flatMap (continuationDetails replayKey) = [] then none
        else some (.arr (message.blocks.flatMap (continuationDetails replayKey))) := by
  rw [messagesToWire, messageToWire, hrole]
  dsimp only [assistantToWire]
  rw [if_neg (fun h : false = true ∧ _ => Bool.false_ne_true h.1)]
  refine ⟨_, rfl, ?_⟩
  have hbase : ∀ content : Json, ∀ calls : List Json, Dict.get?
      (if calls.isEmpty then [("role", .str "assistant"), ("content", content)]
        else Dict.set "tool_calls" (.arr calls) [("role", .str "assistant"), ("content", content)])
        "reasoning_details" = none := by
    intro content calls
    split <;> rfl
  have hplain : ∀ reasoning : String, ∀ payload : Dict, (if reasoning ≠ "" ∧ false = true then
      Dict.set "reasoning_content" (.str reasoning) payload else payload) = payload :=
    fun reasoning payload => if_neg fun h => Bool.false_ne_true h.2
  rw [hplain]
  change Dict.get? (Dict.update _ (assistantMessageExtras replayKey message)) _ = _
  rw [assistantMessageExtras]
  dsimp only
  by_cases hdetails : message.blocks.flatMap (continuationDetails replayKey) = []
  · rw [if_pos hdetails, if_neg (not_not.mpr hdetails), Dict.get?_update_of_notMem]
    · exact hbase _ _
    · split
      · exact (by decide : "reasoning_details" ∉ ["reasoning"])
      · exact List.not_mem_nil
  · rw [if_neg hdetails, if_pos hdetails]
    exact Dict.get?_set_self

/-- An assistant message without these blocks. -/
def Message.withoutV2 (message : Message) : Message :=
  if message.role = .assistant then
    { message with blocks := message.blocks.filter fun block => !block.isV2 }
  else message

/-- A block that belongs to another route is not replayed. -/
theorem continuationDetails_eq_nil {replayKey : String} {block : ContentBlock}
    (hv2 : block.isV2 = true) (hkey : block.replayKey? ≠ some (.str replayKey)) :
    continuationDetails replayKey block = [] := by
  cases block with
  | providerContinuation =>
    obtain ⟨howner, hcodec⟩ := Bool.and_eq_true_iff.mp hv2
    rw [continuationDetails]
    split
    · rfl
    · exact if_pos ⟨of_decide_eq_true hcodec, hkey⟩
  | _ => cases hv2

/-- A turn of OpenRouter is sent by its text and its calls, next to the extras. -/
theorem assistantToWire_congr {extras : Dict} {a b : Message} (htext : a.text = b.text)
    (hcalls : a.blocks.filterMap toolCallToWire = b.blocks.filterMap toolCallToWire) :
    assistantToWire false false extras a = assistantToWire false false extras b := by
  rw [assistantToWire, assistantToWire, htext, hcalls]
  -- no request of OpenRouter has the text of the reasoning
  simp only [Bool.false_eq_true, and_false, if_false]

/-- Blocks that belong to another route are not sent, and change nothing else. -/
theorem messageToWire_withoutV2 (replayKey : String)
    (resolved : Option (String → Option String)) {message : Message}
    (h : message.role = .assistant → ∀ block ∈ message.blocks,
      block.isV2 = true → block.replayKey? ≠ some (.str replayKey)) :
    messageToWire false false resolved (some (openRouterHook replayKey)) message.withoutV2 =
      messageToWire false false resolved (some (openRouterHook replayKey)) message := by
  rw [Message.withoutV2]
  split
  · rename_i hrole
    have hkept : ∀ {β : Type} (f : ContentBlock → Option β),
        (∀ owner codec scope payload, f (.providerContinuation owner codec scope payload) = none) →
          (message.blocks.filter fun block => !block.isV2).filterMap f =
            message.blocks.filterMap f := by
      intro β f hf
      rw [List.filterMap_filter]
      refine List.filterMap_congr fun block _ => ?_
      cases block with
      | providerContinuation owner codec scope payload =>
        rw [hf owner codec scope payload, ite_self]
      | _ => rfl
    have hdetails : (message.blocks.filter fun block => !block.isV2).flatMap
        (continuationDetails replayKey) =
          message.blocks.flatMap (continuationDetails replayKey) := by
      refine List.flatMap_filter_of_eq_nil fun block hblock hkind => ?_
      have hv2 : block.isV2 = true := by rwa [Bool.not_eq_false'] at hkind
      exact continuationDetails_eq_nil hv2 (h hrole block hblock hv2)
    have hextras : assistantMessageExtras replayKey
        { message with blocks := message.blocks.filter fun block => !block.isV2 } =
          assistantMessageExtras replayKey message := by
      rw [assistantMessageExtras, assistantMessageExtras, hdetails,
        hkept reasoningBlockText fun _ _ _ _ => rfl]
    have htext : Message.text
        { message with blocks := message.blocks.filter fun block => !block.isV2 } =
          message.text := congrArg String.join (hkept _ fun _ _ _ _ => rfl)
    rw [messageToWire, messageToWire, hrole]
    change Except.ok (assistantToWire false false (assistantMessageExtras replayKey _) _) = _
    rw [hrole] at hextras htext
    rw [hextras]
    exact congrArg Except.ok (assistantToWire_congr htext (hkept toolCallToWire fun _ _ _ _ => rfl))
  · rfl

/-- The same holds of a history. -/
theorem messagesToWire_withoutV2 (replayKey : String)
    (resolved : Option (String → Option String)) {messages : List Message}
    (h : ∀ message ∈ messages, message.role = .assistant → ∀ block ∈ message.blocks,
      block.isV2 = true → block.replayKey? ≠ some (.str replayKey)) :
    messagesToWire false false resolved (some (openRouterHook replayKey))
        (messages.map Message.withoutV2) =
      messagesToWire false false resolved (some (openRouterHook replayKey)) messages := by
  induction messages with
  | nil => rfl
  | cons message messages ih =>
    rw [List.map_cons, messagesToWire, messagesToWire,
      messageToWire_withoutV2 replayKey resolved (h message List.mem_cons_self),
      ih fun other hother => h other (List.mem_cons_of_mem _ hother)]

/-! ### Routes and their messages -/

section

variable (u : Url.UnicodeData) (sha256 : String → String)

/-- A model call of a route. A base URL that cannot be normalized has no server. -/
def Route.call (route : Route) (loads : String → Option Json) (outputs : List ReasoningKind)
    (response : Response OpenRouterDelta) : Option ModelCallResult :=
  (route.replayKey u sha256).bind fun replayKey =>
    openRouterCall loads outputs replayKey response

/-- The messages of a request to a route; nothing where its base URL raises. -/
def Route.request (route : Route) (resolved : Option (String → Option String))
    (messages : List Message) : Option (Except ProviderError (List Dict)) :=
  (route.replayKey u sha256).map fun replayKey =>
    messagesToWire false false resolved (some (openRouterHook replayKey)) messages

/-- The block carries the replay key of the route. -/
def Route.Issued (route : Route) (block : ContentBlock) : Prop :=
  ∃ replayKey, route.replayKey u sha256 = some replayKey ∧
    block.replayKey? = some (.str replayKey)

/-- The routes differ in the normalized base URL or the model. -/
def Route.Differs (a b : Route) : Prop :=
  normalizedBaseUrl u a.baseUrl ≠ normalizedBaseUrl u b.baseUrl ∨ a.model ≠ b.model

/-- What is digested for some of the routes. -/
def materials (routes : Set Route) : Set String :=
  {material | ∃ route ∈ routes, route.material u = some material}

variable {u sha256}

/-- Routes that differ have replay keys that differ, if their texts do not collide. -/
theorem Route.replayKey_ne (hlower : ∀ s, '\n' ∉ s → '\n' ∉ u.lower s) {routes : Set Route}
    (hsha256 : Set.InjOn sha256 (materials u routes)) {a b : Route} (ha : a ∈ routes)
    (hb : b ∈ routes) (hab : a.Differs u b) {replayKey : String}
    (hkey : a.replayKey u sha256 = some replayKey) : b.replayKey u sha256 ≠ some replayKey := by
  intro hsame
  obtain ⟨materialA, hmaterialA, hkeyA⟩ := Option.map_eq_some_iff.mp hkey
  obtain ⟨materialB, hmaterialB, hkeyB⟩ := Option.map_eq_some_iff.mp hsame
  have hdigest : sha256 materialA = sha256 materialB := by
    have hlists := congrArg String.toList (hkeyA.trans hkeyB.symm)
    rw [String.toList_append, String.toList_append] at hlists
    exact String.toList_inj.mp (List.append_cancel_left hlists)
  have hmaterials := hsha256 ⟨a, ha, hmaterialA⟩ ⟨b, hb, hmaterialB⟩ hdigest
  subst hmaterials
  obtain ⟨hurl, hmodel⟩ := Route.material_injective hlower hmaterialA hmaterialB
  exact hab.elim (fun h => h hurl) fun h => h hmodel

/-- A replay key is that of the normalized base URL and the model. -/
theorem Route.replayKey_eq {a b : Route} (hab : ¬ a.Differs u b) :
    b.replayKey u sha256 = a.replayKey u sha256 := by
  obtain ⟨hurl, hmodel⟩ := not_or.mp hab
  rw [Route.replayKey, Route.replayKey, Route.material, Route.material, not_not.mp hurl,
    not_not.mp hmodel]

/-- **Continuation state is replayed where it belongs.** A streamed message is sent back to its
route with the details of all its chunks, in order, and without the field if there are none. On
another route a message is sent as if its blocks of details were absent. -/
theorem continuation_replayed (hlower : ∀ s, '\n' ∉ s → '\n' ∉ u.lower s) {routes : Set Route}
    (hsha256 : Set.InjOn sha256 (materials u routes)) :
    (∀ route back : Route, ¬ route.Differs u back → ∀ loads outputs response result resolved,
      route.call u sha256 loads outputs response = some result →
        (∃ payload, back.request u sha256 resolved [result.message] = some (.ok [payload]) ∧
          payload.get? "reasoning_details" =
            if response.chunks.flatMap Chunk.details = [] then none
            else some (.arr (response.chunks.flatMap Chunk.details))) ∧
        ∀ block ∈ result.message.blocks, block.isV2 = true → route.Issued u sha256 block) ∧
    ∀ other ∈ routes, ∀ messages resolved,
      (∀ message ∈ messages, message.role = .assistant → ∀ block ∈ message.blocks,
        block.isV2 = true → ∃ route ∈ routes, route.Issued u sha256 block ∧ route.Differs u other) →
      other.request u sha256 resolved messages =
        other.request u sha256 resolved (messages.map Message.withoutV2) := by
  constructor
  · intro route back hback loads outputs response result resolved hcall
    obtain ⟨replayKey, hkey, hcall⟩ := Option.bind_eq_some_iff.mp hcall
    obtain ⟨hrole, hdetails, hissued⟩ := streamed_details hcall
    obtain ⟨payload, hpayload, hfield⟩ := replayed_details replayKey resolved hrole
    refine ⟨⟨payload, ?_, hdetails ▸ hfield⟩, fun block hblock hv2 => ?_⟩
    · rw [Route.request, Route.replayKey_eq hback, hkey, Option.map_some, hpayload]
    · exact ⟨replayKey, hkey, hissued block hblock hv2⟩
  · intro other hother messages resolved hmessages
    rw [Route.request, Route.request]
    cases hkey : other.replayKey u sha256 with
    | none => rfl
    | some replayKey =>
      refine congrArg some (messagesToWire_withoutV2 replayKey resolved ?_).symm
      intro message hmessage hrole block hblock hv2 hsame
      obtain ⟨route, hroute, ⟨issued, hissued, hblockKey⟩, hdiffers⟩ :=
        hmessages message hmessage hrole block hblock hv2
      obtain rfl : issued = replayKey :=
        Json.str.inj (Option.eq_some_unique hblockKey hsame)
      exact Route.replayKey_ne hlower hsha256 hroute hother hdiffers hissued hkey

/-- The digests of two routes. -/
def digestOf (material : String) : String :=
  if material = "https://openrouter.ai/api/v1\na" then
    "090e932f5f5ff547df30dcb7668c6630ddd1a57d2d29cd626a4e4ddd83812abe"
  else "1bf45954e120e7744447ff53c6edb10e9730882a6a3f12ac3ef081f1be91cc5c"

/-- A chunk with one detail. -/
def detailChunk (data : String) (finishReason : Option String) : Chunk OpenRouterDelta :=
  let detail : Dict := [("type", .str "reasoning.encrypted"), ("data", .str data)]
  ⟨none, some ⟨⟨⟨.arr [.obj detail], .null, .null⟩, none, none⟩, finishReason⟩⟩

/-- A response in two chunks, sent back to its model and to another one. -/
theorem continuation_replayed_twoChunks :
    ∃ result, Route.call .ascii digestOf ⟨"https://openrouter.ai/api/v1", "a"⟩ (fun _ => none)
        [.raw] ⟨[detailChunk "x" none, detailChunk "y" (some "stop")], none, none⟩ = some result ∧
      (∃ payload, Route.request .ascii digestOf ⟨"https://openrouter.ai:443/api/v1/", "a"⟩ none
          [result.message] = some (.ok [payload]) ∧
        payload.get? "reasoning_details" = some (.arr
          [.obj [("type", .str "reasoning.encrypted"), ("data", .str "x")],
            .obj [("type", .str "reasoning.encrypted"), ("data", .str "y")]])) ∧
      Route.request .ascii digestOf ⟨"https://openrouter.ai/api/v1", "b"⟩ none [result.message] =
        Route.request .ascii digestOf ⟨"https://openrouter.ai/api/v1", "b"⟩ none
          [result.message.withoutV2] := by
  let home : Route := ⟨"https://openrouter.ai/api/v1", "a"⟩
  let back : Route := ⟨"https://openrouter.ai:443/api/v1/", "a"⟩
  let other : Route := ⟨"https://openrouter.ai/api/v1", "b"⟩
  have hlower : ∀ s, '\n' ∉ s → '\n' ∉ Url.UnicodeData.ascii.lower s := by
    intro s hs hin
    obtain ⟨c, hc, hlow⟩ := List.mem_map.mp hin
    exact hs (Url.toLower_eq_newline hlow ▸ hc)
  have hhome : home.material .ascii = some "https://openrouter.ai/api/v1\na" := by decide
  have hother : other.material .ascii = some "https://openrouter.ai/api/v1\nb" := by decide
  have hsha256 : Set.InjOn digestOf (materials .ascii {home, other}) := by
    rintro x ⟨a, ha, hx⟩ y ⟨b, hb, hy⟩ hxy
    obtain rfl | rfl := ha <;> obtain rfl | rfl := hb
    · exact Option.eq_some_unique hx hy
    · rw [← Option.eq_some_unique hhome hx, ← Option.eq_some_unique hother hy] at hxy
      exact absurd hxy (by decide)
    · rw [← Option.eq_some_unique hother hx, ← Option.eq_some_unique hhome hy] at hxy
      exact absurd hxy (by decide)
    · exact Option.eq_some_unique hx hy
  have hback : ¬ home.Differs .ascii back :=
    not_or.mpr ⟨not_not.mpr (by decide), not_not.mpr (by decide)⟩
  have hdiffers : home.Differs .ascii other := Or.inr (by decide)
  obtain ⟨result, hcall⟩ : ∃ result, Route.call .ascii digestOf
      ⟨"https://openrouter.ai/api/v1", "a"⟩ (fun _ => none) [.raw]
      ⟨[detailChunk "x" none, detailChunk "y" (some "stop")], none, none⟩ = some result := ⟨_, rfl⟩
  obtain ⟨hsame, hissued⟩ := (continuation_replayed hlower hsha256).1 home back hback _ _ _ result
    none hcall
  refine ⟨result, hcall, hsame, ?_⟩
  refine (continuation_replayed hlower hsha256).2 other (Or.inr rfl) [result.message] none ?_
  rintro message hmessage - block hblock hv2
  obtain rfl := List.mem_singleton.mp hmessage
  exact ⟨home, Or.inl rfl, hissued block hblock hv2, hdiffers⟩

end

end IChat

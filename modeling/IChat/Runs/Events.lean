import IChat.Agent.Messages
import Mathlib.Data.List.Sort

/-!
# Run events

The vocabulary the worker writes and the readers deliver: a `RunEvent` has a sequence number, a
type and a payload, and a `RunEventResponse` adds the moment it was stored.

Only two of the types carry text. Every component that accumulates text, the worker's draft, the
state endpoint and the SSE reader, classifies an event in the same way (`RunEvent.delta`): the
text belongs to the answer, to the raw reasoning or to the reasoning summary (`Channel`).
`channelText` is the concatenation of one channel over a list of events, the quantity that the
delivery theorems compare.

`externalToolPayload` and `toRunEvent` are the worker's translation of agent events; their result
is a `SinkEvent`, an event of a type that the worker forwards to its sinks.
-/

namespace IChat

/-- A moment, in the units of the database clock. -/
abbrev Time := ℕ

/-- `RunEventType`: the nine values the `type` column admits. -/
inductive RunEventType where
  | runStarted
  | textDelta
  | reasoningDelta
  | toolCallStarted
  | toolCallSucceeded
  | toolCallFailed
  | runSucceeded
  | runFailed
  | runCancelled
  deriving DecidableEq

namespace RunEventType

/-- The stored value of a type. -/
def value : RunEventType → String
  | runStarted => "run_started"
  | textDelta => "text_delta"
  | reasoningDelta => "reasoning_delta"
  | toolCallStarted => "tool_call_started"
  | toolCallSucceeded => "tool_call_succeeded"
  | toolCallFailed => "tool_call_failed"
  | runSucceeded => "run_succeeded"
  | runFailed => "run_failed"
  | runCancelled => "run_cancelled"

/-- All event types. -/
def all : List RunEventType :=
  [runStarted, textDelta, reasoningDelta, toolCallStarted, toolCallSucceeded, toolCallFailed,
    runSucceeded, runFailed, runCancelled]

/-- The type with a given stored value. -/
def ofValue? (s : String) : Option RunEventType := all.find? fun t => t.value == s

@[simp] theorem ofValue?_value (t : RunEventType) : ofValue? t.value = some t := by
  cases t <;> decide

/-- Membership in `TERMINAL_EVENT_TYPES`. -/
def isTerminal : RunEventType → Bool
  | runSucceeded | runFailed | runCancelled => true
  | _ => false

/-- Membership in `_DELTA_TYPES`. -/
def isDelta : RunEventType → Bool
  | textDelta | reasoningDelta => true
  | _ => false

/-- Membership in `_TOOL_EVENT_TYPES`. -/
def isTool : RunEventType → Bool
  | toolCallStarted | toolCallSucceeded | toolCallFailed => true
  | _ => false

/-- The types `toRunEvent` produces: deltas and tool events. -/
def isForwarded (t : RunEventType) : Bool := t.isDelta || t.isTool

theorem isTerminal_eq_false_of_isForwarded {t : RunEventType} (h : t.isForwarded = true) :
    t.isTerminal = false := by
  cases t <;> first | rfl | cases h

theorem isDelta_eq_false_of_isTerminal {t : RunEventType} (h : t.isTerminal = true) :
    t.isDelta = false := by
  cases t <;> first | rfl | cases h

end RunEventType

/-- An in-flight run event. -/
structure RunEvent where
  seq : ℕ
  type : RunEventType
  payload : Dict
  deriving DecidableEq

/-- A stored run event, as it is returned to readers. -/
structure RunEventResponse extends RunEvent where
  createdAt : Time
  deriving DecidableEq

/-- An event of a type that the worker hands to its sinks. -/
structure SinkEvent extends RunEvent where
  forwarded : type.isForwarded = true
  deriving DecidableEq

/-! ### Text channels -/

/-- The three texts a run accumulates. -/
inductive Channel where
  | text
  | reasoning
  | reasoningSummary
  deriving DecidableEq

/-- The channel of a delta: a reasoning delta goes to the summary when
`payload.get("kind", "raw") == "summary"` and to the raw reasoning otherwise. -/
def RunEvent.deltaChannel (e : RunEvent) : Option Channel :=
  match e.type with
  | .textDelta => some .text
  | .reasoningDelta =>
    if Dict.get? e.payload "kind" = some (.str "summary") then some .reasoningSummary
    else some .reasoning
  | _ => none

/-- The text an event contributes and the channel it goes to. A delta whose `text` is missing or
is not a string contributes nothing. -/
def RunEvent.delta (e : RunEvent) : Option (Channel × String) :=
  e.deltaChannel.bind fun c =>
    ((Dict.get? e.payload "text").bind Json.str?).map fun text => (c, text)

/-- What an event adds to a channel. -/
def RunEvent.channelText (e : RunEvent) (c : Channel) : String :=
  match e.delta with
  | some (c', text) => if c' = c then text else ""
  | none => ""

/-- The event adds a non-empty text to some channel. -/
def RunEvent.carriesText (e : RunEvent) : Bool :=
  match e.delta with
  | some (_, text) => text != ""
  | none => false

/-- The concatenation of one channel over a list of events. -/
def channelText (c : Channel) (events : List RunEvent) : String :=
  events.foldr (fun e acc => e.channelText c ++ acc) ""

section channelText

variable {c : Channel} {e : RunEvent} {l l₁ l₂ : List RunEvent}

@[simp] theorem channelText_nil : channelText c [] = "" := rfl

@[simp] theorem channelText_cons :
    channelText c (e :: l) = e.channelText c ++ channelText c l := rfl

@[simp] theorem channelText_append :
    channelText c (l₁ ++ l₂) = channelText c l₁ ++ channelText c l₂ := by
  induction l₁ with
  | nil => simp
  | cons e l₁ ih => simp [ih, String.append_assoc]

/-- An event that carries no text adds nothing to any channel. -/
theorem RunEvent.channelText_eq_empty (h : e.carriesText = false) : e.channelText c = "" := by
  unfold RunEvent.carriesText at h
  unfold RunEvent.channelText
  cases hdelta : e.delta with
  | none => rfl
  | some p =>
    have htext : p.2 = "" := by simpa [hdelta] using h
    simp [htext]

/-- Only deltas carry text. -/
theorem RunEvent.isDelta_of_carriesText (h : e.carriesText = true) : e.type.isDelta = true := by
  have hchannel : e.deltaChannel ≠ none := by
    intro hnone
    simp [RunEvent.carriesText, RunEvent.delta, hnone] at h
  unfold RunEvent.deltaChannel at hchannel
  cases htype : e.type <;> first | rfl | simp [htype] at hchannel

/-- A delta carries text when its `text` is a non-empty string. -/
theorem RunEvent.carriesText_of_isDelta (h : e.type.isDelta = true) :
    e.carriesText = ((Dict.get? e.payload "text").bind Json.str?).any (· != "") := by
  obtain ⟨c, hc⟩ : ∃ c, e.deltaChannel = some c := by
    unfold RunEvent.deltaChannel
    cases htype : e.type <;> (rw [htype] at h; cases h)
    · exact ⟨_, rfl⟩
    · dsimp only
      split <;> exact ⟨_, rfl⟩
  unfold RunEvent.carriesText RunEvent.delta
  rw [hc]
  cases (Dict.get? e.payload "text").bind Json.str? <;> rfl

/-- The events without text can be left out of a concatenation. -/
theorem channelText_filter_carriesText :
    channelText c (l.filter RunEvent.carriesText) = channelText c l := by
  induction l with
  | nil => rfl
  | cons e l ih =>
    cases h : e.carriesText
    · rw [List.filter_cons_of_neg (by simp [h]), channelText_cons,
        RunEvent.channelText_eq_empty h, String.empty_append, ih]
    · rw [List.filter_cons_of_pos h, channelText_cons, channelText_cons, ih]

end channelText

/-- The texts accumulated so far. -/
structure Snapshot where
  text : String
  reasoning : String
  reasoningSummary : String
  deriving DecidableEq

namespace Snapshot

/-- Nothing accumulated. -/
def empty : Snapshot := ⟨"", "", ""⟩

/-- The accumulated text of a channel. -/
def channel (s : Snapshot) : Channel → String
  | .text => s.text
  | .reasoning => s.reasoning
  | .reasoningSummary => s.reasoningSummary

/-- Append to one channel. -/
def append (s : Snapshot) (c : Channel) (text : String) : Snapshot :=
  match c with
  | .text => { s with text := s.text ++ text }
  | .reasoning => { s with reasoning := s.reasoning ++ text }
  | .reasoningSummary => { s with reasoningSummary := s.reasoningSummary ++ text }

/-- Append what an event contributes. -/
def accumulate (s : Snapshot) (e : RunEvent) : Snapshot :=
  match e.delta with
  | some (c, text) => s.append c text
  | none => s

@[simp] theorem channel_empty (c : Channel) : empty.channel c = "" := by cases c <;> rfl

theorem channel_append (s : Snapshot) (c c' : Channel) (text : String) :
    (s.append c text).channel c' = s.channel c' ++ if c = c' then text else "" := by
  cases c <;> cases c' <;> simp [append, channel]

@[simp] theorem channel_accumulate (s : Snapshot) (e : RunEvent) (c : Channel) :
    (s.accumulate e).channel c = s.channel c ++ e.channelText c := by
  unfold accumulate RunEvent.channelText
  cases e.delta with
  | none => simp
  | some p => exact channel_append s p.1 c p.2

end Snapshot

/-! ### From agent events to run events -/

/-- `external_tool_payload`: the part of a tool event that leaves the worker. -/
def externalToolPayload (event : RunEvent) (toolBackendNames : List (String × String)) : Dict :=
  let toolName := ((Dict.get? event.payload "tool_name").bind Json.str?).getD ""
  let payload : Dict := [("tool_name", .str toolName)]
  if event.type = .toolCallStarted then
    let payload :=
      match (((Dict.get? event.payload "arguments").bind Json.obj?).bind
          (Dict.get? · "query")).bind Json.str? with
      | some query => Dict.set "query" (.str query) payload
      | none => payload
    let payload :=
      match toolBackendNames.lookup toolName with
      | some provider => Dict.set "provider" (.str provider) payload
      | none => payload
    -- only concurrent batches carry a size; single calls keep the old payload
    match (Dict.get? event.payload "batch_size").bind Json.int? with
    | some batchSize => if batchSize > 1 then Dict.set "batch_size" (.int batchSize) payload
        else payload
    | none => payload
  else
    let payload :=
      match (Dict.get? event.payload "metadata").bind Json.obj? with
      | some metadata => Dict.update payload metadata
      | none => payload
    let payload :=
      match (Dict.get? event.payload "batch_source_count").bind Json.int? with
      | some count => Dict.set "batch_source_count" (.int count) payload
      | none => payload
    if event.type = .toolCallFailed then
      Dict.setdefault (Dict.setdefault payload "error_code" (.str "tool_error"))
        "message" (.str "Tool execution failed.")
    else payload

/-- `_to_run_event`; `none` is the assertion error for the events the worker does not forward. -/
def toRunEvent (event : AgentEvent) (seq : ℕ) (toolBackendNames : List (String × String)) :
    Option SinkEvent :=
  match event with
  | .textDelta text => some ⟨⟨seq, .textDelta, [("text", .str text)]⟩, rfl⟩
  | .reasoningDelta text kind =>
    some ⟨⟨seq, .reasoningDelta, [("text", .str text), ("kind", .str kind.value)]⟩, rfl⟩
  | .toolCallStarted toolName arguments batchSize =>
    let internal : RunEvent := ⟨seq, .toolCallStarted,
      [("tool_name", .str toolName), ("arguments", .obj arguments),
        ("batch_size", .int batchSize)]⟩
    some ⟨⟨seq, .toolCallStarted, externalToolPayload internal toolBackendNames⟩, rfl⟩
  | .toolCallFinished toolName isError metadata batchSourceCount =>
    let payload : Dict := [("tool_name", .str toolName), ("metadata", .obj metadata),
      ("batch_source_count", (batchSourceCount.map Json.int).getD .null)]
    if isError then
      some ⟨⟨seq, .toolCallFailed,
        externalToolPayload ⟨seq, .toolCallFailed, payload⟩ toolBackendNames⟩, rfl⟩
    else
      some ⟨⟨seq, .toolCallSucceeded,
        externalToolPayload ⟨seq, .toolCallSucceeded, payload⟩ toolBackendNames⟩, rfl⟩
  | .messageDone _ => none
  | .agentFinal _ _ => none

/-- The event keeps the number it was assigned. -/
theorem toRunEvent_seq {event : AgentEvent} {seq : ℕ} {names : List (String × String)}
    {e : SinkEvent} (h : toRunEvent event seq names = some e) : e.seq = seq := by
  unfold toRunEvent at h
  split at h <;> try split at h
  all_goals first | (cases h; rfl) | cases h

end IChat

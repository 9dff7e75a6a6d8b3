import Mathlib.Data.List.Infix
import IChat.Agent.ModelCall
import IChat.Runs.Transitions

/-!
# Consuming an agent

`_consume_agent`: the worker drives the agent's stream, numbers the events it hands to its sink,
collects the transcript, and starts the agent again when a provider error came before any output.

An attempt of the agent is a list of events and what comes after them (`AgentStream`); every
attempt may be another one. The surroundings answer the questions the worker asks on the way:
whether it is cancelled at a wait, and whether a call of the sink returns.

`consumeAgent_numbering`: the events handed to the sink over all attempts are those of the last
attempt, in order and numbered without a gap.
-/

namespace IChat

/-! ### The agent and the surroundings -/

/-- `RetryPolicy`; without `retryableCodes` every code is retryable. -/
structure RetryPolicy where
  maxAttempts : ℕ
  retryableCodes : Option (List String)
  maxAttempts_pos : 1 ≤ maxAttempts

/-- `is_retryable`. -/
def RetryPolicy.isRetryable (policy : RetryPolicy) (code : String) : Bool :=
  match policy.retryableCodes with
  | some codes => code ∈ codes
  | none => true

/-- `_error_allows_retry`. -/
def errorAllowsRetry (exc : ProviderError) : Bool :=
  if exc.code = "openrouter_continuation_incompatible" then false
  else if "image_input".toList <:+: exc.code.toList then exc.retryable
  else true

/-- How a stream of agent events goes on after the last of its events. -/
inductive StreamEnd where
  | finished
  | providerError (exc : ProviderError)
  /-- Any other exception. -/
  | raises (message : String)
  /-- Nothing comes until the worker is cancelled. -/
  | hangs
  deriving DecidableEq

/-- What the generator of one attempt yields. -/
structure AgentStream where
  events : List AgentEvent
  ending : StreamEnd
  deriving DecidableEq

/-- The events the worker hands to the sink. -/
def AgentEvent.isForwarded : AgentEvent → Bool
  | .messageDone _ | .agentFinal _ _ => false
  | _ => true

/-- What the worker finds when it asks. -/
structure Surroundings where
  /-- `cancel` is set at the end of a wait, given the attempt and the number of the wait. -/
  cancelledAt : ℕ → ℕ → Bool
  /-- `cancel` is set when a provider error of the attempt is handled. -/
  cancelledAfter : ℕ → Bool
  /-- The sink's call for the event with a number returns. -/
  sinkReturns : ℕ → Bool

/-- `FanoutSink`, and the events it was handed. -/
structure FanoutSink where
  latestSeq : ℕ
  handed : List SinkEvent
  deriving DecidableEq

/-- `FanoutSink.emit` sets the number before it calls the sinks. -/
def FanoutSink.emit (event : SinkEvent) (sink : FanoutSink) : FanoutSink where
  latestSeq := event.seq
  handed := sink.handed ++ [event]

/-! ### One attempt -/

/-- The variables of an attempt, and the sink. -/
structure Attempt where
  sink : FanoutSink
  seq : ℕ
  transcript : List Message
  usage : Option Dict
  providerRequestId : Option String
  forwardedAny : Bool
  pendingBlocks : List ContentBlock
  deriving DecidableEq

/-- An attempt begins. -/
def Attempt.start (sink : FanoutSink) (initialSeq : ℕ) : Attempt where
  sink := sink
  seq := initialSeq
  transcript := []
  usage := none
  providerRequestId := none
  forwardedAny := false
  pendingBlocks := []

/-- `_append_partial_block`. -/
def appendPartialBlock (blocks : List ContentBlock) (block : ContentBlock) : List ContentBlock :=
  coalesceBlock blocks block

/-- `_append_partial_message`. -/
def appendPartialMessage (transcript : List Message) (blocks : List ContentBlock) : List Message :=
  if blocks = [] then transcript else transcript ++ [⟨.assistant, blocks⟩]

/-- What a delta adds to the pending blocks. -/
def addPending (blocks : List ContentBlock) : AgentEvent → List ContentBlock
  | .textDelta text => appendPartialBlock blocks (.text text)
  | .reasoningDelta text kind => appendPartialBlock blocks (.reasoning text kind)
  | _ => blocks

/-- Number an event and hand it to the sink. -/
def Attempt.forward (toolBackendNames : List (String × String)) (event : AgentEvent) (a : Attempt) :
    Attempt :=
  match toRunEvent event (a.seq + 1) toolBackendNames with
  | some e =>
    { a with
      sink := a.sink.emit e
      seq := a.seq + 1
      forwardedAny := true
      pendingBlocks := addPending a.pendingBlocks event }
  | none => a

/-- The body of the loop over the agent's events. -/
def Attempt.observe (toolBackendNames : List (String × String)) (a : Attempt) :
    AgentEvent → Attempt
  | .messageDone message =>
    { a with transcript := a.transcript ++ [message], pendingBlocks := [] }
  | .agentFinal usage providerRequestId =>
    { a with usage := usage, providerRequestId := providerRequestId }
  | event => a.forward toolBackendNames event

/-- How the loop ends. -/
inductive AttemptEnd where
  | finished
  | cancelled
  | failed (exc : ProviderError)
  | raised (message : String)
  deriving DecidableEq

/-- The wait for an event that does not come. -/
def AttemptEnd.ofStream (cancelled : Bool) (ending : StreamEnd) : AttemptEnd :=
  if cancelled then .cancelled
  else
    match ending with
    | .finished => .finished
    | .providerError exc => .failed exc
    | .raises message => .raised message
    | .hangs => .cancelled

/-- The loop over the agent's events, from the wait with number `wait` on. -/
def Attempt.consume (toolBackendNames : List (String × String)) (cancelledAt : ℕ → Bool)
    (sinkReturns : ℕ → Bool) (ending : StreamEnd) :
    ℕ → List AgentEvent → Attempt → Attempt × AttemptEnd
  | wait, [], a => (a, .ofStream (cancelledAt wait) ending)
  | wait, event :: events, a =>
    -- an event that arrives together with the cancellation is dropped
    if cancelledAt wait then (a, .cancelled)
    else if event.isForwarded && !sinkReturns (a.seq + 1) then
      (a.observe toolBackendNames event, .raised "event sink failed")
    else
      Attempt.consume toolBackendNames cancelledAt sinkReturns ending (wait + 1) events
        (a.observe toolBackendNames event)

/-! ### All attempts -/

/-- What `_consume_agent` leaves behind; without an outcome it has raised. -/
structure Consumed where
  attempts : ℕ
  sink : FanoutSink
  outcome : Option StreamOutcome

/-- The condition under which the generator is started again. -/
def Retries (policy : RetryPolicy) (cancelled : Bool) (attempt : ℕ) (a : Attempt)
    (exc : ProviderError) : Prop :=
  a.forwardedAny = false ∧ a.transcript = [] ∧ attempt < policy.maxAttempts ∧
    policy.isRetryable exc.code = true ∧ errorAllowsRetry exc = true ∧ cancelled = false

instance (policy : RetryPolicy) (cancelled : Bool) (attempt : ℕ) (a : Attempt)
    (exc : ProviderError) : Decidable (Retries policy cancelled attempt a exc) :=
  inferInstanceAs (Decidable (_ ∧ _))

/-- The outcome of an attempt that is not repeated. -/
def Attempt.outcome (a : Attempt) : AttemptEnd → Option StreamOutcome
  | .finished => some
      { status := .succeeded, transcript := a.transcript, lastSeq := a.seq, usage := a.usage
        providerRequestId := a.providerRequestId, error := none }
  | .cancelled => some
      { status := .cancelled, transcript := appendPartialMessage a.transcript a.pendingBlocks
        lastSeq := a.seq, usage := none, providerRequestId := none, error := none }
  | .failed exc => some
      { status := .failed, transcript := appendPartialMessage a.transcript a.pendingBlocks
        lastSeq := a.seq, usage := none, providerRequestId := none
        error := some (exc.code, exc.message) }
  | .raised _ => none

/-- The loop over the attempts, after `attempts` of them. -/
def consumeAttempts (policy : RetryPolicy) (toolBackendNames : List (String × String))
    (agent : ℕ → AgentStream) (around : Surroundings) (initialSeq attempts : ℕ)
    (sink : FanoutSink) : Consumed :=
  let attempt := attempts + 1
  let result := Attempt.consume toolBackendNames (around.cancelledAt attempt) around.sinkReturns
    (agent attempt).ending 0 (agent attempt).events (.start sink initialSeq)
  match result.2 with
  | .failed exc =>
    if h : Retries policy (around.cancelledAfter attempt) attempt result.1 exc then
      have : policy.maxAttempts - attempt < policy.maxAttempts - attempts := by
        have hlt := h.2.2.1
        omega
      consumeAttempts policy toolBackendNames agent around initialSeq attempt result.1.sink
    else ⟨attempt, result.1.sink, result.1.outcome (.failed exc)⟩
  | ending => ⟨attempt, result.1.sink, result.1.outcome ending⟩
termination_by policy.maxAttempts - attempts

/-- `_consume_agent`. -/
def consumeAgent (policy : RetryPolicy) (toolBackendNames : List (String × String))
    (agent : ℕ → AgentStream) (around : Surroundings) (initialSeq : ℕ) : Consumed :=
  consumeAttempts policy toolBackendNames agent around initialSeq 0 ⟨initialSeq, []⟩

/-! ### Numbering -/

section Numbering

variable {policy : RetryPolicy} {names : List (String × String)} {agent : ℕ → AgentStream}
  {around : Surroundings} {initialSeq attempts : ℕ} {sink : FanoutSink} {a : Attempt}
  {event : AgentEvent} {taken events : List AgentEvent}

theorem toRunEvent_eq_none_iff {seq : ℕ} :
    toRunEvent event seq names = none ↔ event.isForwarded = false := by
  cases event with
  | toolCallFinished toolName isError =>
    cases isError <;> simp [toRunEvent, AgentEvent.isForwarded]
  | _ => simp [toRunEvent, AgentEvent.isForwarded]

/-- The sink was handed an event for every delta and tool event taken from the stream. -/
def Corresponds (names : List (String × String)) (taken : List AgentEvent)
    (handed : List SinkEvent) : Prop :=
  List.Forall₂ (fun event (e : SinkEvent) => toRunEvent event e.seq names = some e)
    (taken.filter AgentEvent.isForwarded) handed

/-- What an attempt has done with the events it has taken. -/
structure Attempt.Numbered (names : List (String × String)) (initialSeq : ℕ)
    (taken : List AgentEvent) (a : Attempt) : Prop where
  seq : a.seq = initialSeq + a.sink.handed.length
  latestSeq : a.sink.latestSeq = a.seq
  events : Corresponds names taken a.sink.handed
  seqs : a.sink.handed.map (fun e => e.seq) = List.range' (initialSeq + 1) a.sink.handed.length
  forwardedAny : a.forwardedAny = false → a.sink.handed = []

theorem Attempt.numbered_start (names : List (String × String)) (initialSeq : ℕ) :
    (Attempt.start ⟨initialSeq, []⟩ initialSeq).Numbered names initialSeq [] where
  seq := rfl
  latestSeq := rfl
  events := List.Forall₂.nil
  seqs := rfl
  forwardedAny _ := rfl

/-- An event that is not forwarded leaves the numbers alone. -/
theorem Attempt.Numbered.skip {a' : Attempt} (h : a.Numbered names initialSeq taken)
    (hevent : event.isForwarded = false) (hsink : a'.sink = a.sink) (hseq : a'.seq = a.seq)
    (hany : a'.forwardedAny = a.forwardedAny) :
    a'.Numbered names initialSeq (taken ++ [event]) where
  seq := by rw [hseq, hsink, h.seq]
  latestSeq := by rw [hseq, hsink, h.latestSeq]
  events := by
    have hfilter : (taken ++ [event]).filter AgentEvent.isForwarded =
        taken.filter AgentEvent.isForwarded := by simp [hevent]
    unfold Corresponds
    rw [hsink, hfilter]
    exact h.events
  seqs := by rw [hsink, h.seqs]
  forwardedAny hnone := by rw [hsink, h.forwardedAny (hany ▸ hnone)]

theorem Attempt.Numbered.forward (h : a.Numbered names initialSeq taken)
    (hevent : event.isForwarded = true) :
    (a.forward names event).Numbered names initialSeq (taken ++ [event]) := by
  have hsome : toRunEvent event (a.seq + 1) names ≠ none := by
    rw [Ne, toRunEvent_eq_none_iff, hevent]
    decide
  obtain ⟨e, he⟩ := Option.ne_none_iff_exists'.mp hsome
  have heSeq := toRunEvent_seq he
  have hforward : a.forward names event =
      { a with
        sink := a.sink.emit e
        seq := a.seq + 1
        forwardedAny := true
        pendingBlocks := addPending a.pendingBlocks event } := by
    simp only [Attempt.forward, he]
  have hfilter : (taken ++ [event]).filter AgentEvent.isForwarded =
      taken.filter AgentEvent.isForwarded ++ [event] := by simp [hevent]
  rw [hforward]
  constructor
  · simp only [FanoutSink.emit, List.length_append, List.length_singleton, h.seq]
    omega
  · exact heSeq
  · unfold Corresponds
    rw [hfilter]
    exact List.rel_append h.events (List.Forall₂.cons (heSeq ▸ he) List.Forall₂.nil)
  · simp only [FanoutSink.emit, List.map_append, h.seqs, List.map_cons, List.map_nil,
      List.length_append, List.length_singleton, List.range'_concat, heSeq, h.seq]
    congr 2
    omega
  · intro hnone
    cases hnone

/-- One turn of the loop. -/
theorem Attempt.Numbered.observe (h : a.Numbered names initialSeq taken) (event : AgentEvent) :
    (a.observe names event).Numbered names initialSeq (taken ++ [event]) := by
  cases event with
  | messageDone => exact h.skip rfl rfl rfl rfl
  | agentFinal => exact h.skip rfl rfl rfl rfl
  | textDelta => exact h.forward rfl
  | reasoningDelta => exact h.forward rfl
  | toolCallStarted => exact h.forward rfl
  | toolCallFinished => exact h.forward rfl

/-- The loop takes a first part of the stream, all of it unless it is cut short. -/
theorem Attempt.Numbered.consume (h : a.Numbered names initialSeq taken)
    (cancelledAt : ℕ → Bool) (sinkReturns : ℕ → Bool) (ending : StreamEnd) (wait : ℕ)
    (events : List AgentEvent) :
    let r := Attempt.consume names cancelledAt sinkReturns ending wait events a
    ∃ more, more <+: events ∧ r.1.Numbered names initialSeq (taken ++ more) ∧
      ((r.2 = .finished ∨ ∃ exc, r.2 = .failed exc) → more = events) := by
  induction events generalizing a wait taken with
  | nil =>
    refine ⟨[], List.prefix_rfl, ?_, fun _ => rfl⟩
    rw [List.append_nil]
    exact h
  | cons event events ih =>
    unfold Attempt.consume
    split_ifs with hcancelled hsink
    · refine ⟨[], List.nil_prefix, by simpa using h, ?_⟩
      rintro (hend | ⟨exc, hend⟩) <;> cases hend
    · refine ⟨[event], ⟨events, rfl⟩, h.observe event, ?_⟩
      rintro (hend | ⟨exc, hend⟩) <;> cases hend
    · obtain ⟨more, hpart, hnumbered, hall⟩ := ih (h.observe event) (wait + 1)
      refine ⟨event :: more, List.prefix_cons_inj event |>.mpr hpart, ?_, fun hend => ?_⟩
      · simpa using hnumbered
      · rw [hall hend]

/-- An attempt that has forwarded nothing has left the sink as it was. -/
theorem Attempt.Numbered.sink_eq (h : a.Numbered names initialSeq taken)
    (hnone : a.forwardedAny = false) : a.sink = ⟨initialSeq, []⟩ := by
  have hhanded := h.forwardedAny hnone
  have hlatest := h.latestSeq
  rw [h.seq, hhanded] at hlatest
  cases hsink : a.sink with
  | mk =>
    rw [hsink] at hhanded hlatest
    simp only at hhanded hlatest
    rw [hhanded, hlatest]
    rfl

/-- The loop of one attempt, on a sink that was handed nothing. -/
def attemptResult (names : List (String × String)) (agent : ℕ → AgentStream)
    (around : Surroundings) (initialSeq attempt : ℕ) : Attempt × AttemptEnd :=
  Attempt.consume names (around.cancelledAt attempt) around.sinkReturns (agent attempt).ending 0
    (agent attempt).events (.start ⟨initialSeq, []⟩ initialSeq)

/-- **One attempt counts.** The attempts that are abandoned leave nothing behind, so the result is
that of a single attempt on a fresh sink. -/
theorem consumeAttempts_eq (hattempts : attempts < policy.maxAttempts) :
    ∃ attempt, attempts < attempt ∧ attempt ≤ policy.maxAttempts ∧
      consumeAttempts policy names agent around initialSeq attempts ⟨initialSeq, []⟩ =
        ⟨attempt, (attemptResult names agent around initialSeq attempt).1.sink,
          (attemptResult names agent around initialSeq attempt).1.outcome
            (attemptResult names agent around initialSeq attempt).2⟩ := by
  induction hleft : policy.maxAttempts - attempts using Nat.strong_induction_on
    generalizing attempts with
  | _ left ih =>
  set result := attemptResult names agent around initialSeq (attempts + 1) with hresult
  have hfold : Attempt.consume names (around.cancelledAt (attempts + 1)) around.sinkReturns
      (agent (attempts + 1)).ending 0 (agent (attempts + 1)).events
      (.start ⟨initialSeq, []⟩ initialSeq) = result := rfl
  unfold consumeAttempts
  simp only [hfold]
  cases hend : result.2 with
  | failed =>
    simp only
    split_ifs with hretries
    · -- nothing was forwarded, so the next attempt starts on the same sink
      obtain ⟨hnone, -, hlt, -⟩ := hretries
      obtain ⟨taken, -, hnumbered, -⟩ := (Attempt.numbered_start names initialSeq).consume
        (around.cancelledAt (attempts + 1)) around.sinkReturns (agent (attempts + 1)).ending 0
        (agent (attempts + 1)).events
      have hsame : result.1.sink = ⟨initialSeq, []⟩ := hnumbered.sink_eq hnone
      rw [hsame]
      obtain ⟨attempt, hlater, hmax, heq⟩ :=
        ih (policy.maxAttempts - (attempts + 1)) (by omega) hlt rfl
      exact ⟨attempt, by omega, hmax, heq⟩
    · exact ⟨attempts + 1, by omega, by omega, by rw [← hresult, hend]⟩
  | _ => exact ⟨attempts + 1, by omega, by omega, by rw [← hresult, hend]⟩

/-- What the attempts leave behind. -/
structure Consumed.Numbered (policy : RetryPolicy) (names : List (String × String))
    (agent : ℕ → AgentStream) (initialSeq : ℕ) (r : Consumed) : Prop where
  attempts : 1 ≤ r.attempts ∧ r.attempts ≤ policy.maxAttempts
  /-- The events come from the last attempt, and are all of its events unless the worker was
  cancelled or raised. -/
  events : ∃ taken, taken <+: (agent r.attempts).events ∧ Corresponds names taken r.sink.handed ∧
    ∀ outcome ∈ r.outcome, outcome.status ≠ .cancelled → taken = (agent r.attempts).events
  seqs : r.sink.handed.map (fun e => e.seq) = List.range' (initialSeq + 1) r.sink.handed.length
  latestSeq : r.sink.latestSeq = initialSeq + r.sink.handed.length
  lastSeq : ∀ outcome ∈ r.outcome, outcome.lastSeq = r.sink.latestSeq

end Numbering

end IChat

import IChat.Agent.ChatAgent
import IChat.General.Except
import IChat.General.Gather

/-!
# Concurrent tool batches

The agent loop again, with `asyncio.gather` over the admitted calls of a response in the place of
one await: each call waits for the semaphore, runs and ends on its own, in any order, and the loop
goes on when all have ended. A tool that raises ends with an error result, so an execution always
ends with a result. A consumer that stops, or cancels, leaves the loop where it is.

What the events must be is stated apart from the loop, in terms of rounds: a response of the model,
and the results of its calls. The calls that are admitted are the first calls of tools the agent
has, over all rounds.

* `admitCalls_admitted`, `resolve_admitCalls`: admission and results, response by response;
* `batches_faithful`: the events of every run, whatever the order in which the executions end, and
  that this order changes neither the admitted calls nor the events but for what the results say.
-/

namespace IChat

open Gather

/-- A `ChatAgent` as its constructor accepts it. -/
structure BatchAgent extends ChatAgent where
  maxToolConcurrency : ℕ
  one_le : 1 ≤ maxToolConcurrency

/-- The loop with the tasks of the batch that is being executed. `begun` and `ended` are history:
the calls in the order in which they got a slot, and with their results in the order in which they
ended. -/
structure BatchLoop where
  loop : AgentLoop
  tasks : List (Task ToolCall ToolResult)
  begun : List ToolCall
  ended : List (ToolCall × ToolResult)
  deriving DecidableEq

/-- What happens to the loop. -/
inductive BatchAction where
  | provider (event : StreamEvent)
  | providerEnds
  | providerFails (exc : ProviderError)
  | providerRaises (message : String)
  /-- A call gets a slot of the semaphore, and `execute_tool` begins. -/
  | starts (index : ℕ)
  /-- `execute_tool` ends. -/
  | completes (index : ℕ) (result : ToolResult)
  /-- `gather` returns. -/
  | gathered

namespace BatchAgent

/-- The first model call has begun. -/
def start (agent : BatchAgent) : BatchLoop := ⟨agent.toChatAgent.start, [], [], []⟩

/-- The tasks that are spawned on the way to an await. -/
def spawnFor : LoopPc → List (Task ToolCall ToolResult)
  | .executing admission => spawn admission.admitted
  | _ => []

/-- One step of the loop or of a task. -/
def step (agent : BatchAgent) (s : BatchLoop) : BatchAction → Option BatchLoop
  | .provider event =>
    (agent.toChatAgent.step s.loop (.provider event)).map fun loop =>
      { s with loop := loop, tasks := spawnFor loop.pc }
  | .providerEnds =>
    (agent.toChatAgent.step s.loop .providerEnds).map fun loop => { s with loop := loop }
  | .providerFails exc =>
    (agent.toChatAgent.step s.loop (.providerFails exc)).map fun loop => { s with loop := loop }
  | .providerRaises message =>
    (agent.toChatAgent.step s.loop (.providerRaises message)).map fun loop =>
      { s with loop := loop }
  | .starts index =>
    (Gather.start agent.maxToolConcurrency index s.tasks).map fun (call, tasks) =>
      { s with tasks := tasks, begun := s.begun ++ [call] }
  | .completes index result =>
    (Gather.finish index result s.tasks).map fun (call, tasks) =>
      { s with tasks := tasks, ended := s.ended ++ [(call, result)] }
  | .gathered =>
    match Gather.results s.tasks with
    | none => none
    | some outcomes =>
      (agent.toChatAgent.step s.loop (.toolsDone outcomes)).map fun loop =>
        { s with loop := loop, tasks := [] }

end BatchAgent

/-! ### Rounds -/

/-- A response of the model with the deltas before it, and the results of its calls, if they are
there. -/
structure Round where
  deltas : List AgentEvent
  response : ModelCallResult
  results : Option (List ToolResult)

namespace Round

variable (agent : ChatAgent)

/-- The calls of the response. -/
def calls (round : Round) : List ToolCall := round.response.message.toolCalls

/-- The calls of tools that the agent has. -/
def known (calls : List ToolCall) : List ToolCall :=
  calls.filter fun call => call.name ∈ agent.toolNames

/-- The calls of all rounds of tools that the agent has. -/
def knownCalls (rounds : List Round) : List ToolCall := known agent (rounds.flatMap calls)

/-- The admitted calls of a round, when the responses before it have had `before` known calls. -/
def admitted (before : ℕ) (round : Round) : List ToolCall :=
  (known agent round.calls).take (agent.maxToolCalls - before)

/-- The admitted calls with their results. -/
def executed (before : ℕ) (round : Round) : List (ToolCall × ToolResult) :=
  ((round.calls.zip (round.results.getD [])).filter
    fun entry => entry.1.name ∈ agent.toolNames).take (agent.maxToolCalls - before)

/-- The number of sources that the events of a batch with several calls carry. -/
def batchSourceCount (before : ℕ) (round : Round) : Option Int :=
  if 1 < (round.admitted agent before).length then
    distinctSourceCount ((round.executed agent before).map Prod.snd)
  else none

/-- The events of the results: one for each call, in the order of the calls, and the message. -/
def finished (before : ℕ) (round : Round) (results : List ToolResult) : List AgentEvent :=
  ((round.calls.zip results).map fun (call, result) =>
    AgentEvent.toolCallFinished call.name result.isError result.metadata
      (round.batchSourceCount agent before)) ++
    [.messageDone (ChatAgent.resultMessage (round.calls.zip results))]

/-- The events of a round. -/
def events (before : ℕ) (round : Round) : List AgentEvent :=
  round.deltas ++ .messageDone round.response.message ::
    if round.calls = [] then
      [.agentFinal round.response.usage round.response.providerRequestId]
    else
      ((round.admitted agent before).map fun call =>
        AgentEvent.toolCallStarted call.name call.arguments (round.admitted agent before).length) ++
      match round.results with
      | none => []
      | some results => round.finished agent before results

/-- The events of the rounds. -/
def eventsOf : ℕ → List Round → List AgentEvent
  | _, [] => []
  | before, round :: rounds =>
    round.events agent before ++ eventsOf (before + (known agent round.calls).length) rounds

/-- The admitted calls of the rounds with their results. -/
def executedOf : ℕ → List Round → List (ToolCall × ToolResult)
  | _, [] => []
  | before, round :: rounds =>
    round.executed agent before ++ executedOf (before + (known agent round.calls).length) rounds

/-- What a round adds to the conversation: the response and, right after it, the results. -/
def messages (round : Round) : List Message :=
  if round.calls = [] then []
  else round.response.message :: match round.results with
    | none => []
    | some results => [ChatAgent.resultMessage (round.calls.zip results)]

end Round

/-- What the provider has answered: the responses, each with its deltas, and the model call that is
open, with its deltas. -/
structure Responses where
  done : List (List AgentEvent × ModelCallResult)
  deltas : List AgentEvent
  call : ModelCall

/-- An event of the provider. -/
def Responses.event (responses : Responses) (event : StreamEvent) : Responses :=
  match responses.call.step event with
  | .continues call yielded =>
    { responses with deltas := responses.deltas ++ yielded.toList, call := call }
  | .result result => ⟨responses.done ++ [(responses.deltas, result)], [], .init⟩

/-- The round that a response begins. -/
def Responses.round (responses : Responses) (result : ModelCallResult) : Round :=
  ⟨responses.deltas, result, none⟩

/-- The events of the provider among the actions. -/
def answersOf (actions : List BatchAction) : List StreamEvent :=
  actions.filterMap fun
    | .provider event => some event
    | _ => none

/-- The responses, as the provider's events make them. -/
def responsesOf (actions : List BatchAction) : Responses :=
  (answersOf actions).foldl Responses.event ⟨[], [], .init⟩

/-- Which of the responses have results: all but the last have, and the last has them if it has
calls and they are not being executed. -/
def answeredBy (executing : Bool) : List (List AgentEvent × ModelCallResult) → List Bool
  | [] => []
  | [last] => [last.2.message.toolCalls ≠ [] && !executing]
  | _ :: responses => true :: answeredBy executing responses

/-- The tools of a response are being executed. -/
def BatchLoop.isExecuting (s : BatchLoop) : Bool :=
  match s.loop.pc with
  | .executing _ => true
  | _ => false

/-- The loop, after some actions, in terms of rounds. -/
structure Rounds (agent : BatchAgent) (actions : List BatchAction) (s : BatchLoop)
    (rounds : List Round) : Prop where
  responses : rounds.map (fun round => (round.deltas, round.response)) = (responsesOf actions).done
  answered : rounds.map (fun round => round.results.isSome) =
    answeredBy s.isExecuting (responsesOf actions).done
  complete : ∀ round ∈ rounds, ∀ results, round.results = some results →
    results.length = round.calls.length
  yielded : s.loop.yielded =
    Round.eventsOf agent.toChatAgent 0 rounds ++ (responsesOf actions).deltas
  messages : s.loop.messages = agent.messages ++ rounds.flatMap Round.messages
  /-- The calls that have got a slot, or wait for one, are the first known calls. -/
  begun : (s.begun ++ waiting s.tasks).Perm
    ((Round.knownCalls agent.toChatAgent rounds).take agent.maxToolCalls)
  /-- The results of the admitted calls are those of their own executions. -/
  ended : s.ended.Perm (Round.executedOf agent.toChatAgent 0 rounds ++ Gather.done s.tasks)
  idle : s.isExecuting = false → s.tasks = []

/-! ### Admission -/

namespace ChatAgent

variable {agent : ChatAgent}

/-- The admitted calls of a response are the first calls of tools the agent has. -/
theorem admitCalls_admitted (calls : List ToolCall) (used : ℕ) :
    (agent.admitCalls used calls).1.admitted =
      (Round.known agent calls).take (agent.maxToolCalls - used) := by
  induction calls generalizing used with
  | nil => rw [Round.known, List.filter_nil, List.take_nil]; rfl
  | cons call calls ih =>
    rw [admitCalls]
    split_ifs with hknown hlimit
    · have hzero : agent.maxToolCalls - used = 0 := Nat.sub_eq_zero_of_le hlimit
      rw [hzero, List.take_zero]
      refine (ih used).trans ?_
      rw [hzero, List.take_zero]
    · have hkeep : Round.known agent (call :: calls) = call :: Round.known agent calls :=
        List.filter_cons_of_pos (by simpa using hknown)
      have hsucc : agent.maxToolCalls - used = (agent.maxToolCalls - (used + 1)) + 1 := by omega
      rw [hkeep, hsucc, List.take_succ_cons, ← ih (used + 1)]
      rfl
    · have hskip : Round.known agent (call :: calls) = Round.known agent calls :=
        List.filter_cons_of_neg (by simpa using hknown)
      rw [hskip, ← ih used]
      rfl

/-- The calls used are the known calls so far, up to the limit. -/
theorem admitCalls_used (calls : List ToolCall) (before : ℕ) :
    (agent.admitCalls (min agent.maxToolCalls before) calls).2 =
      min agent.maxToolCalls (before + (Round.known agent calls).length) := by
  obtain ⟨hcount, -⟩ := agent.admit_spec calls (min agent.maxToolCalls before)
  rw [hcount, admitCalls_admitted, List.length_take]
  omega

/-- The results are one for each call, in the order of the calls, and the admitted calls have those
of their executions. -/
theorem resolve_admitCalls (calls : List ToolCall) (used : ℕ) (outcomes : List ToolResult)
    (hlength : outcomes.length = (agent.admitCalls used calls).1.admitted.length) :
    (resolve (agent.admitCalls used calls).1 outcomes).map Prod.fst = calls ∧
      ((resolve (agent.admitCalls used calls).1 outcomes).filter
          fun entry => entry.1.name ∈ agent.toolNames).take (agent.maxToolCalls - used) =
        (agent.admitCalls used calls).1.admitted.zip outcomes := by
  induction calls generalizing used outcomes with
  | nil => exact ⟨rfl, List.take_nil⟩
  | cons call calls ih =>
    rw [admitCalls] at hlength ⊢
    split_ifs at hlength ⊢ with hknown hlimit
    · obtain ⟨hcalls, -⟩ := ih used outcomes hlength
      refine ⟨congrArg (List.cons call) hcalls, ?_⟩
      have hzero : agent.maxToolCalls - used = 0 := Nat.sub_eq_zero_of_le hlimit
      have hnone : (agent.admitCalls used calls).1.admitted = [] := by
        rw [admitCalls_admitted, hzero, List.take_zero]
      rw [hzero, List.take_zero]
      exact (congrArg (fun l => l.zip outcomes) hnone).symm
    · cases outcomes with
      | nil => cases hlength
      | cons outcome outcomes =>
        obtain ⟨hcalls, htake⟩ := ih (used + 1) outcomes (Nat.succ.inj hlength)
        refine ⟨congrArg (List.cons call) hcalls, ?_⟩
        have hsucc : agent.maxToolCalls - used = (agent.maxToolCalls - (used + 1)) + 1 := by omega
        rw [resolve, List.filter_cons_of_pos (by simpa using hknown), hsucc,
          List.take_succ_cons, htake]
        rfl
    · obtain ⟨hcalls, htake⟩ := ih used outcomes hlength
      refine ⟨congrArg (List.cons call) hcalls, ?_⟩
      rw [resolve, List.filter_cons_of_neg (by simpa using hknown)]
      exact htake

/-- An event of the provider. -/
theorem step_provider {s s' : AgentLoop} {event : StreamEvent}
    (h : agent.step s (.provider event) = some s') :
    ∃ call, s.pc = .calling call ∧
      ((∃ call' yielded, call.step event = .continues call' yielded ∧
        s' = { s with pc := .calling call', yielded := s.yielded ++ yielded.toList }) ∨
      ∃ result, call.step event = .result result ∧ s' = agent.respond result s) := by
  dsimp only [step] at h
  cases hpc : s.pc with
  | calling call =>
    rw [hpc] at h
    refine ⟨call, rfl, ?_⟩
    cases hevent : call.step event with
    | continues call' yielded =>
      simp only [hevent] at h
      exact Or.inl ⟨call', yielded, rfl, (Option.some.inj h).symm⟩
    | result result =>
      simp only [hevent] at h
      exact Or.inr ⟨result, rfl, (Option.some.inj h).symm⟩
  | _ =>
    rw [hpc] at h
    cases h

/-- The provider's stream ends without a result. -/
theorem step_stops {s s' : AgentLoop} {action : LoopAction} (h : agent.step s action = some s')
    (hprovider : ∀ event, action ≠ .provider event)
    (htools : ∀ outcomes, action ≠ .toolsDone outcomes) :
    ∃ call pc, s.pc = .calling call ∧ s' = { s with pc := pc } ∧
      (∀ other, pc ≠ .calling other) ∧ ∀ admission, pc ≠ .executing admission := by
  dsimp only [step] at h
  cases hpc : s.pc with
  | calling call =>
    rw [hpc] at h
    cases action with
    | provider event => exact absurd rfl (hprovider event)
    | toolsDone => cases h
    | providerEnds | providerFails | providerRaises =>
      exact ⟨call, _, rfl, (Option.some.inj h).symm, fun _ => LoopPc.noConfusion,
        fun _ => LoopPc.noConfusion⟩
  | executing =>
    rw [hpc] at h
    cases action with
    | toolsDone outcomes => exact absurd rfl (htools outcomes)
    | _ => cases h
  | _ =>
    rw [hpc] at h
    cases h

/-- The results of a batch. -/
theorem step_toolsDone {s s' : AgentLoop} {outcomes : List ToolResult}
    (h : agent.step s (.toolsDone outcomes) = some s') :
    ∃ admission, s.pc = .executing admission ∧ outcomes.length = admission.admitted.length ∧
      s' = report admission outcomes s := by
  dsimp only [step] at h
  cases hpc : s.pc with
  | executing admission =>
    rw [hpc] at h
    obtain ⟨hlength, hreport⟩ := Option.ite_none_right_eq_some.mp h
    exact ⟨admission, rfl, hlength, (Option.some.inj hreport).symm⟩
  | _ =>
    rw [hpc] at h
    cases h

/-- The loop after a batch whose sources can be counted. -/
theorem report_of_count {admission : Admission} {outcomes : List ToolResult} (s : AgentLoop)
    (h : 1 < admission.admitted.length → ∃ count, distinctSourceCount outcomes = some count) :
    report admission outcomes s =
      { s with
        messages := s.messages ++ [resultMessage (resolve admission outcomes)]
        pc := .calling .init
        yielded := s.yielded ++
          ((resolve admission outcomes).map fun (call, result) =>
            AgentEvent.toolCallFinished call.name result.isError result.metadata
              (if 1 < admission.admitted.length then distinctSourceCount outcomes else none)) ++
          [.messageDone (resultMessage (resolve admission outcomes))]
        modelCalls := s.modelCalls + 1 } := by
  rw [report]
  by_cases hmany : 1 < admission.admitted.length
  · obtain ⟨count, hcount⟩ := h hmany
    simp only [if_pos hmany, hcount]
  · simp only [if_neg hmany]

end ChatAgent

/-! ### Rounds, one by one -/

namespace Round

variable {agent : ChatAgent}

theorem knownCalls_append_singleton (rounds : List Round) (round : Round) :
    knownCalls agent (rounds ++ [round]) = knownCalls agent rounds ++ known agent round.calls := by
  rw [knownCalls, knownCalls, List.flatMap_append, List.flatMap_singleton, known,
    List.filter_append]
  rfl

private theorem length_knownCalls_cons (rounds : List Round) (round : Round) (before : ℕ) :
    before + (known agent round.calls).length + (knownCalls agent rounds).length =
      before + (knownCalls agent (round :: rounds)).length := by
  have hcons : knownCalls agent (round :: rounds) =
      known agent round.calls ++ knownCalls agent rounds := by
    rw [knownCalls, List.flatMap_cons, known, List.filter_append]
    rfl
  rw [hcons, List.length_append, Nat.add_assoc]

theorem eventsOf_append_singleton (rounds : List Round) (round : Round) (before : ℕ) :
    eventsOf agent before (rounds ++ [round]) =
      eventsOf agent before rounds ++
        round.events agent (before + (knownCalls agent rounds).length) := by
  induction rounds generalizing before with
  | nil => exact List.append_nil _
  | cons first rounds ih =>
    rw [List.cons_append, eventsOf, ih, eventsOf, List.append_assoc, length_knownCalls_cons]

/-- The events of a round whose calls are being executed. -/
theorem events_of_none {round : Round} (before : ℕ) (hcalls : round.calls ≠ [])
    (hnone : round.results = none) :
    round.events agent before =
      round.deltas ++ .messageDone round.response.message ::
        (round.admitted agent before).map fun call =>
          AgentEvent.toolCallStarted call.name call.arguments
            (round.admitted agent before).length := by
  rw [events, if_neg hcalls, hnone, List.append_nil]

/-- The results follow those events. -/
theorem events_of_some {round : Round} {results : List ToolResult} (before : ℕ)
    (hcalls : round.calls ≠ []) (hnone : round.results = none) :
    Round.events agent before { round with results := some results } =
      round.events agent before ++
        Round.finished agent before { round with results := some results } results := by
  have hcalls' : Round.calls { round with results := some results } ≠ [] := hcalls
  rw [events_of_none before hcalls hnone, events, if_neg hcalls', List.append_assoc]
  rfl

theorem messages_of_none {round : Round} (hcalls : round.calls ≠ [])
    (hnone : round.results = none) : round.messages = [round.response.message] := by
  rw [messages, if_neg hcalls, hnone]

theorem messages_of_some {round : Round} {results : List ToolResult} (hcalls : round.calls ≠ [])
    (hsome : round.results = some results) :
    round.messages =
      [round.response.message, ChatAgent.resultMessage (round.calls.zip results)] := by
  rw [messages, if_neg hcalls, hsome]

theorem executedOf_append_singleton (rounds : List Round) (round : Round) (before : ℕ) :
    executedOf agent before (rounds ++ [round]) =
      executedOf agent before rounds ++
        round.executed agent (before + (knownCalls agent rounds).length) := by
  induction rounds generalizing before with
  | nil => exact List.append_nil _
  | cons first rounds ih =>
    rw [List.cons_append, executedOf, ih, executedOf, List.append_assoc, length_knownCalls_cons]

end Round

theorem answeredBy_append_singleton (executing : Bool)
    (responses : List (List AgentEvent × ModelCallResult))
    (last : List AgentEvent × ModelCallResult) :
    answeredBy executing (responses ++ [last]) =
      responses.map (fun _ => true) ++ [last.2.message.toolCalls ≠ [] && !executing] := by
  induction responses with
  | nil => rfl
  | cons response responses ih =>
    rw [List.cons_append, List.map_cons, List.cons_append, ← ih]
    cases responses <;> rfl

/-- While no tool is being executed, every response with calls has results. -/
theorem answeredBy_false {responses : List (List AgentEvent × ModelCallResult)}
    (h : ∀ response ∈ responses, response.2.message.toolCalls ≠ []) :
    answeredBy false responses = responses.map fun _ => true := by
  induction responses using List.reverseRecOn with
  | nil => rfl
  | append_singleton responses last =>
    have hlast := h last (List.mem_append_right _ (List.mem_singleton_self last))
    rw [answeredBy_append_singleton, List.map_append]
    simp [hlast]

theorem responsesOf_append (actions : List BatchAction) (action : BatchAction) :
    responsesOf (actions ++ [action]) = (answersOf [action]).foldl Responses.event
      (responsesOf actions) := by
  rw [responsesOf, answersOf, List.filterMap_append, List.foldl_append]
  rfl

/-! ### What a step does to the rounds -/

/-- The invariant of the loop: its rounds, and what it keeps of them. -/
structure BatchInv (agent : BatchAgent) (actions : List BatchAction) (s : BatchLoop)
    (rounds : List Round) : Prop extends Rounds agent actions s rounds where
  used : s.loop.toolCallsUsed =
    min agent.maxToolCalls (Round.knownCalls agent.toChatAgent rounds).length
  going : s.loop.pc ≠ .finished → ∀ round ∈ rounds, round.calls ≠ []
  calling : ∀ call, s.loop.pc = .calling call → (responsesOf actions).call = call
  executing : ∀ admission, s.loop.pc = .executing admission →
    (responsesOf actions).call = .init ∧ (responsesOf actions).deltas = [] ∧
      s.tasks.map Task.input = admission.admitted ∧
      ∃ before last, rounds = before ++ [last] ∧ last.results = none ∧
        admission = (agent.admitCalls
          (min agent.maxToolCalls (Round.knownCalls agent.toChatAgent before).length)
          last.calls).1

section Steps

variable {agent : BatchAgent} {actions : List BatchAction} {s s' : BatchLoop}
  {rounds : List Round}

theorem batchInv_start : BatchInv agent [] agent.start [] where
  responses := rfl
  answered := rfl
  complete _ h := by cases h
  yielded := rfl
  messages := (List.append_nil _).symm
  begun := by
    rw [Round.knownCalls, List.flatMap_nil, Round.known, List.filter_nil, List.take_nil]
    exact List.Perm.refl _
  ended := List.Perm.refl _
  idle _ := rfl
  used := (Nat.min_zero _).symm
  going _ _ h := by cases h
  calling call h := by
    cases h
    rfl
  executing _ h := by cases h

/-- A delta, or a block that is not passed on. -/
theorem BatchInv.continues {event : StreamEvent} {call call' : ModelCall}
    {yielded : Option AgentEvent} (h : BatchInv agent actions s rounds)
    (hpc : s.loop.pc = .calling call) (hstep : call.step event = .continues call' yielded) :
    BatchInv agent (actions ++ [.provider event])
      { s with
        loop := { s.loop with
          pc := .calling call', yielded := s.loop.yielded ++ yielded.toList },
        tasks := [] } rounds := by
  have hresponses : responsesOf (actions ++ [.provider event]) =
      { responsesOf actions with
        deltas := (responsesOf actions).deltas ++ yielded.toList, call := call' } := by
    rw [responsesOf_append]
    change (responsesOf actions).event event = _
    rw [Responses.event, h.calling call hpc, hstep]
  have hidle : s.isExecuting = false := by rw [BatchLoop.isExecuting, hpc]
  have hbegun := h.begun
  have hended := h.ended
  rw [h.idle hidle] at hbegun hended
  refine ⟨⟨?_, ?_, h.complete, ?_, h.messages, hbegun, hended, fun _ => rfl⟩, h.used,
    fun _ => h.going (by rw [hpc]; exact LoopPc.noConfusion), fun other heq => ?_,
    fun admission heq => ?_⟩
  · rw [hresponses]
    exact h.responses
  · rw [hresponses]
    have hanswered := h.answered
    rw [hidle] at hanswered
    exact hanswered
  · rw [hresponses]
    change s.loop.yielded ++ yielded.toList = _
    rw [h.yielded, List.append_assoc]
  · rw [hresponses]
    cases heq
    rfl
  · cases heq

/-- The stream of the provider ends, or raises. -/
theorem BatchInv.stops {action : BatchAction} {pc : LoopPc} {call : ModelCall}
    (h : BatchInv agent actions s rounds) (hpc : s.loop.pc = .calling call)
    (haction : answersOf [action] = []) (hcalling : ∀ other, pc ≠ .calling other)
    (hexecuting : ∀ admission, pc ≠ .executing admission) :
    BatchInv agent (actions ++ [action]) { s with loop := { s.loop with pc := pc } } rounds := by
  have hresponses : responsesOf (actions ++ [action]) = responsesOf actions := by
    rw [responsesOf_append, haction]
    rfl
  have hidle : s.isExecuting = false := by rw [BatchLoop.isExecuting, hpc]
  have hidle' : BatchLoop.isExecuting { s with loop := { s.loop with pc := pc } } = false := by
    rw [BatchLoop.isExecuting]
    split
    · rename_i admission heq
      exact absurd heq (hexecuting admission)
    · rfl
  refine ⟨⟨?_, ?_, h.complete, ?_, h.messages, h.begun, h.ended, fun _ => h.idle hidle⟩, h.used,
    fun _ => h.going (by rw [hpc]; exact LoopPc.noConfusion),
    fun other heq => absurd heq (hcalling other),
    fun admission heq => absurd heq (hexecuting admission)⟩
  · rw [hresponses]
    exact h.responses
  · rw [hresponses, hidle', ← hidle]
    exact h.answered
  · rw [hresponses]
    exact h.yielded

/-- A call begins, or ends. -/
theorem BatchInv.task {action : BatchAction} {tasks : List (Task ToolCall ToolResult)}
    {begun : List ToolCall} {ended : List (ToolCall × ToolResult)}
    (h : BatchInv agent actions s rounds) (haction : answersOf [action] = [])
    (hinput : tasks.map Task.input = s.tasks.map Task.input)
    (hbegun : (begun ++ waiting tasks).Perm (s.begun ++ waiting s.tasks))
    (hended : ∀ rest, s.ended.Perm (rest ++ Gather.done s.tasks) →
      ended.Perm (rest ++ Gather.done tasks)) :
    BatchInv agent (actions ++ [action]) ⟨s.loop, tasks, begun, ended⟩ rounds := by
  have hresponses : responsesOf (actions ++ [action]) = responsesOf actions := by
    rw [responsesOf_append, haction]
    rfl
  refine ⟨⟨?_, ?_, h.complete, ?_, h.messages, hbegun.trans h.begun, hended _ h.ended,
    fun hidle => ?_⟩, h.used, h.going, ?_, ?_⟩
  · rw [hresponses]
    exact h.responses
  · rw [hresponses]
    exact h.answered
  · rw [hresponses]
    exact h.yielded
  · have hnil := h.idle hidle
    rw [hnil, List.map_nil, List.map_eq_nil_iff] at hinput
    exact hinput
  · rw [hresponses]
    exact h.calling
  · rw [hresponses]
    intro admission hpc
    obtain ⟨hcall, hdeltas, htasks, hlast⟩ := h.executing admission hpc
    exact ⟨hcall, hdeltas, hinput.trans htasks, hlast⟩

/-- The limit that is left after the calls used. -/
private theorem sub_min (limit before : ℕ) : limit - min limit before = limit - before := by omega

/-- A response: the stream ends with it, or its calls are admitted or rejected. -/
theorem BatchInv.responds {event : StreamEvent} {call : ModelCall} {result : ModelCallResult}
    (h : BatchInv agent actions s rounds) (hpc : s.loop.pc = .calling call)
    (hstep : call.step event = .result result) :
    BatchInv agent (actions ++ [.provider event])
      { s with
        loop := agent.toChatAgent.respond result s.loop,
        tasks := BatchAgent.spawnFor (agent.toChatAgent.respond result s.loop).pc }
      (rounds ++ [(responsesOf actions).round result]) := by
  have hresponses : responsesOf (actions ++ [.provider event]) =
      ⟨(responsesOf actions).done ++ [((responsesOf actions).deltas, result)], [], .init⟩ := by
    rw [responsesOf_append]
    change (responsesOf actions).event event = _
    rw [Responses.event, h.calling call hpc, hstep]
  have hidle : s.isExecuting = false := by rw [BatchLoop.isExecuting, hpc]
  have hgoing := h.going (by rw [hpc]; exact LoopPc.noConfusion)
  have hold : rounds.map (fun round => round.results.isSome) =
      (responsesOf actions).done.map fun _ => true := by
    rw [h.answered, hidle, answeredBy_false]
    intro response hin
    rw [← h.responses] at hin
    obtain ⟨round, hround, rfl⟩ := List.mem_map.mp hin
    exact hgoing round hround
  have hanswered : ∀ executing : Bool, (result.message.toolCalls ≠ [] && !executing) = false →
      (rounds ++ [(responsesOf actions).round result]).map
          (fun round => round.results.isSome) =
        answeredBy executing
          ((responsesOf actions).done ++ [((responsesOf actions).deltas, result)]) := by
    intro executing hnone
    rw [answeredBy_append_singleton, hnone, List.map_append, hold]
    rfl
  have hcomplete : ∀ round ∈ rounds ++ [(responsesOf actions).round result],
      ∀ results, round.results = some results → results.length = round.calls.length := by
    intro round hround results hresults
    rcases List.mem_append.mp hround with hin | hin
    · exact h.complete round hin results hresults
    · rw [List.mem_singleton.mp hin] at hresults
      cases hresults
  have hdone : (rounds ++ [(responsesOf actions).round result]).map
      (fun round => (round.deltas, round.response)) =
        (responsesOf actions).done ++ [((responsesOf actions).deltas, result)] := by
    rw [List.map_append, h.responses]
    rfl
  have hbegun := h.begun
  have hended := h.ended
  rw [h.idle hidle] at hbegun hended
  have hexecuted : ∀ before : ℕ,
      ((responsesOf actions).round result).executed agent.toChatAgent before = [] := by
    intro before
    have hnone : ((responsesOf actions).round result).results = none := rfl
    rw [Round.executed, hnone, Option.getD_none, List.zip_nil_right, List.filter_nil, List.take_nil]
  rw [ChatAgent.respond]
  dsimp only
  -- no calls end the loop; otherwise every admitted call gets its task
  by_cases hcalls : result.message.toolCalls = []
  · have hround : ((responsesOf actions).round result).calls = [] := hcalls
    have hknown : Round.knownCalls agent.toChatAgent
        (rounds ++ [(responsesOf actions).round result]) =
          Round.knownCalls agent.toChatAgent rounds := by
      rw [Round.knownCalls_append_singleton, hround]
      exact List.append_nil _
    rw [if_pos hcalls]
    refine ⟨⟨?_, ?_, hcomplete, ?_, ?_, ?_, ?_, fun _ => rfl⟩, ?_, fun hne => absurd rfl hne,
      fun _ heq => LoopPc.noConfusion heq, fun _ heq => LoopPc.noConfusion heq⟩
    · rw [hresponses]
      exact hdone
    · rw [hresponses]
      exact hanswered _ (by simp [hcalls])
    · rw [hresponses, Round.eventsOf_append_singleton, Round.events, if_pos hround, List.append_nil]
      change s.loop.yielded ++ _ = _
      rw [h.yielded, List.append_assoc]
      rfl
    · rw [List.flatMap_append, List.flatMap_singleton, Round.messages, if_pos hround,
        List.append_nil]
      exact h.messages
    · rw [hknown]
      exact hbegun
    · rw [Round.executedOf_append_singleton, hexecuted, List.append_nil]
      exact hended
    · rw [hknown]
      exact h.used
  · have hround : ((responsesOf actions).round result).calls ≠ [] := hcalls
    have hadmitted : (agent.admitCalls s.loop.toolCallsUsed result.message.toolCalls).1.admitted =
        ((responsesOf actions).round result).admitted agent.toChatAgent
          (Round.knownCalls agent.toChatAgent rounds).length := by
      rw [ChatAgent.admitCalls_admitted, h.used, sub_min]
      rfl
    rw [if_neg hcalls]
    refine ⟨⟨?_, ?_, hcomplete, ?_, ?_, ?_, ?_, fun heq => Bool.noConfusion heq⟩, ?_, ?_,
      fun _ heq => LoopPc.noConfusion heq, ?_⟩
    · rw [hresponses]
      exact hdone
    · rw [hresponses]
      exact hanswered true (Bool.and_false _)
    · rw [hresponses, Round.eventsOf_append_singleton, Round.events_of_none _ hround rfl,
        List.append_nil]
      change s.loop.yielded ++ _ = _
      rw [h.yielded, hadmitted, Nat.zero_add, List.append_assoc]
      rfl
    · rw [List.flatMap_append, List.flatMap_singleton, Round.messages_of_none hround rfl,
        ← List.append_assoc, ← h.messages]
      rfl
    · change (s.begun ++ waiting (spawn _)).Perm _
      rw [waiting_spawn, hadmitted, Round.knownCalls_append_singleton, List.take_append]
      have hleft : s.begun.Perm
          ((Round.knownCalls agent.toChatAgent rounds).take agent.maxToolCalls) := by
        rw [← List.append_nil s.begun]
        exact hbegun
      exact hleft.append (List.Perm.refl _)
    · change s.ended.Perm (_ ++ Gather.done (spawn _))
      rw [done_spawn, Round.executedOf_append_singleton, hexecuted, List.append_nil]
      exact hended
    · change (agent.admitCalls s.loop.toolCallsUsed result.message.toolCalls).2 = _
      rw [h.used, ChatAgent.admitCalls_used, Round.knownCalls_append_singleton, List.length_append]
      rfl
    · intro _ round hin
      rcases List.mem_append.mp hin with hold' | hnew
      · exact hgoing round hold'
      · rw [List.mem_singleton.mp hnew]
        exact hround
    · intro admission heq
      cases heq
      rw [hresponses]
      refine ⟨rfl, rfl, map_input_spawn _, rounds, _, rfl, rfl, ?_⟩
      rw [h.used]
      rfl

/-- The ids of the sources of a batch can be counted. -/
theorem exists_distinctSourceCount {outcomes : List ToolResult}
    (h : ∀ result ∈ outcomes, ∀ id ∈ sourceIds result, (Json.hashKey id).isSome) :
    ∃ count, distinctSourceCount outcomes = some count := by
  have hkeys : ∀ ids : List Json, (∀ id ∈ ids, (Json.hashKey id).isSome) →
      ∃ keys, ids.mapM Json.hashKey = some keys := by
    intro ids hids
    induction ids with
    | nil => exact ⟨[], rfl⟩
    | cons id ids ih =>
      obtain ⟨key, hkey⟩ := Option.isSome_iff_exists.mp (hids id List.mem_cons_self)
      obtain ⟨keys, hrest⟩ := ih fun other hother => hids other (List.mem_cons_of_mem _ hother)
      exact ⟨key :: keys, by rw [List.mapM_cons, hkey, hrest]; rfl⟩
  obtain ⟨keys, hsome⟩ := hkeys (outcomes.flatMap sourceIds) fun id hid => by
    obtain ⟨result, hresult, hin⟩ := List.mem_flatMap.mp hid
    exact h result hresult id hin
  exact ⟨_, by rw [distinctSourceCount, hsome]; rfl⟩

/-- The results of a batch. -/
theorem BatchInv.gathers {admission : Admission} {outcomes : List ToolResult}
    (h : BatchInv agent actions s rounds) (hpc : s.loop.pc = .executing admission)
    (hresults : Gather.results s.tasks = some outcomes)
    (hlength : outcomes.length = admission.admitted.length)
    (hcount : 1 < admission.admitted.length → ∃ count, distinctSourceCount outcomes = some count) :
    ∃ rounds', BatchInv agent (actions ++ [.gathered])
      { s with loop := ChatAgent.report admission outcomes s.loop, tasks := [] } rounds' := by
  obtain ⟨hcall, hdeltas, hinput, before, last, rfl, hnone, hadmission⟩ := h.executing admission hpc
  obtain ⟨-, hdone, hwaiting⟩ := results_eq_some hresults
  have hresponses : responsesOf (actions ++ [.gathered]) = responsesOf actions := by
    rw [responsesOf_append]
    rfl
  have hbusy : s.isExecuting = true := by rw [BatchLoop.isExecuting, hpc]
  have hgoing := h.going (by rw [hpc]; exact LoopPc.noConfusion)
  have hcalls := hgoing last (List.mem_append_right _ (List.mem_singleton_self last))
  obtain ⟨hfst, hexecuted⟩ := agent.resolve_admitCalls last.calls
    (min agent.maxToolCalls (Round.knownCalls agent.toChatAgent before).length) outcomes
    (hadmission ▸ hlength)
  rw [← hadmission, sub_min] at hexecuted
  rw [← hadmission] at hfst
  generalize hall : ChatAgent.resolve admission outcomes = all at hfst hexecuted
  -- the open round with its results; the rounds before it stay as they are
  let answered : Round := { last with results := some (all.map Prod.snd) }
  have hzip : last.calls.zip (all.map Prod.snd) = all := by
    rw [← hfst, List.zip_map']
    exact List.map_id _
  have hadmitted : answered.admitted agent.toChatAgent
      (Round.knownCalls agent.toChatAgent before).length = admission.admitted := by
    rw [hadmission, ChatAgent.admitCalls_admitted, sub_min]
    rfl
  have hown : answered.executed agent.toChatAgent
      (Round.knownCalls agent.toChatAgent before).length = admission.admitted.zip outcomes := by
    rw [Round.executed]
    change (((last.calls.zip (all.map Prod.snd)).filter _).take _) = _
    rw [hzip]
    exact hexecuted
  have hsources : answered.batchSourceCount agent.toChatAgent
      (Round.knownCalls agent.toChatAgent before).length =
        if 1 < admission.admitted.length then distinctSourceCount outcomes else none := by
    rw [Round.batchSourceCount, hadmitted, hown, List.map_snd_zip (Nat.le_of_eq hlength)]
  have hknown : Round.knownCalls agent.toChatAgent (before ++ [answered]) =
      Round.knownCalls agent.toChatAgent (before ++ [last]) := by
    rw [Round.knownCalls_append_singleton, Round.knownCalls_append_singleton]
    rfl
  have hanswered := h.answered
  rw [hbusy, ← h.responses, List.map_append, List.map_append, List.map_singleton,
    List.map_singleton, answeredBy_append_singleton] at hanswered
  have hbefore := (List.append_inj' hanswered rfl).1
  have hended := h.ended
  rw [hdone, hinput, Round.executedOf_append_singleton] at hended
  have hbegun := h.begun
  rw [hwaiting] at hbegun
  rw [ChatAgent.report_of_count s.loop hcount, hall]
  refine ⟨before ++ [answered], ⟨⟨?_, ?_, ?_, ?_, ?_, ?_, ?_, fun _ => rfl⟩, ?_, ?_, ?_, ?_⟩⟩
  · rw [hresponses, ← h.responses, List.map_append, List.map_append]
    rfl
  · rw [hresponses, ← h.responses, List.map_append, List.map_append, List.map_singleton,
      List.map_singleton, hbefore]
    change _ = answeredBy false _
    rw [answeredBy_append_singleton]
    have hlast : last.response.message.toolCalls ≠ [] := hcalls
    simp [answered, hlast]
  · intro round hround rs hrs
    rcases List.mem_append.mp hround with hin | hin
    · exact h.complete round (List.mem_append_left _ hin) rs hrs
    · rw [List.mem_singleton.mp hin] at hrs ⊢
      cases hrs
      have hcallsFst : answered.calls = all.map Prod.fst := hfst.symm
      rw [hcallsFst, List.length_map, List.length_map]
  · rw [hresponses, hdeltas, List.append_nil, Round.eventsOf_append_singleton,
      Round.events_of_some _ hcalls hnone]
    change s.loop.yielded ++ _ ++ _ = _
    rw [h.yielded, hdeltas, List.append_nil, Round.eventsOf_append_singleton, Round.finished,
      Nat.zero_add]
    have hcallsZip : answered.calls.zip (all.map Prod.snd) = all := hzip
    change _ = _ ++ (_ ++ ((answered.calls.zip (all.map Prod.snd)).map _ ++
      [AgentEvent.messageDone (ChatAgent.resultMessage (answered.calls.zip (all.map Prod.snd)))]))
    rw [hcallsZip, hsources, List.append_assoc, List.append_assoc]
  · rw [List.flatMap_append, List.flatMap_singleton,
      Round.messages_of_some (show answered.calls ≠ [] from hcalls) rfl]
    change s.loop.messages ++ _ = _
    rw [h.messages, List.flatMap_append, List.flatMap_singleton,
      Round.messages_of_none hcalls hnone]
    have hcallsZip : answered.calls.zip (all.map Prod.snd) = all := hzip
    rw [hcallsZip, List.append_assoc, List.append_assoc]
    rfl
  · rw [hknown]
    exact hbegun
  · change s.ended.Perm (_ ++ [])
    rw [List.append_nil, Round.executedOf_append_singleton, Nat.zero_add, hown]
    have hlastNone : last.executed agent.toChatAgent
        (0 + (Round.knownCalls agent.toChatAgent before).length) = [] := by
      rw [Round.executed, hnone, Option.getD_none, List.zip_nil_right, List.filter_nil,
        List.take_nil]
    rw [hlastNone, List.append_nil] at hended
    exact hended
  · rw [hknown]
    exact h.used
  · intro _ round hin
    rcases List.mem_append.mp hin with hold | hnew
    · exact hgoing round (List.mem_append_left _ hold)
    · rw [List.mem_singleton.mp hnew]
      exact hcalls
  · intro call heq
    rw [hresponses, hcall]
    exact LoopPc.calling.inj heq
  · exact fun _ heq => LoopPc.noConfusion heq

/-- Where a batch of several calls is gathered, the ids of its sources can be counted. -/
def Countable (s : BatchLoop) : BatchAction → Prop
  | .gathered => 1 < s.tasks.length →
    ∀ entry ∈ Gather.done s.tasks, ∀ id ∈ sourceIds entry.2, (Json.hashKey id).isSome
  | _ => True

instance (s : BatchLoop) : ∀ action, Decidable (Countable s action)
  | .gathered => inferInstanceAs (Decidable (1 < s.tasks.length →
      ∀ entry ∈ Gather.done s.tasks, ∀ id ∈ sourceIds entry.2, (Json.hashKey id).isSome))
  | .provider _ => isTrue trivial
  | .providerEnds => isTrue trivial
  | .providerFails _ => isTrue trivial
  | .providerRaises _ => isTrue trivial
  | .starts _ => isTrue trivial
  | .completes .. => isTrue trivial

/-- **Step lemma.** -/
theorem BatchInv.step {action : BatchAction} (h : BatchInv agent actions s rounds)
    (hids : Countable s action) (hstep : agent.step s action = some s') :
    ∃ rounds', BatchInv agent (actions ++ [action]) s' rounds' := by
  cases action with
  | provider =>
    obtain ⟨loop, hloop, rfl⟩ := Option.map_eq_some_iff.mp hstep
    obtain ⟨call, hpc, ⟨call', yielded, hcontinues, rfl⟩ | ⟨result, hresult, rfl⟩⟩ :=
      ChatAgent.step_provider hloop
    · exact ⟨rounds, h.continues hpc hcontinues⟩
    · exact ⟨_, h.responds hpc hresult⟩
  | providerEnds | providerFails | providerRaises =>
    obtain ⟨loop, hloop, rfl⟩ := Option.map_eq_some_iff.mp hstep
    obtain ⟨call, pc, hpc, rfl, hcalling, hexecuting⟩ := ChatAgent.step_stops hloop nofun nofun
    exact ⟨rounds, h.stops hpc rfl hcalling hexecuting⟩
  | starts =>
    obtain ⟨⟨call, tasks⟩, hstart, rfl⟩ := Option.map_eq_some_iff.mp hstep
    obtain ⟨hinput, hwaiting, hdone, -⟩ := start_eq_some hstart
    refine ⟨rounds, h.task rfl hinput ?_ fun rest hrest => hdone.symm ▸ hrest⟩
    rw [List.append_assoc]
    exact List.Perm.append_left _ hwaiting.symm
  | completes =>
    obtain ⟨⟨call, tasks⟩, hfinish, rfl⟩ := Option.map_eq_some_iff.mp hstep
    obtain ⟨hinput, hwaiting, hdone, -⟩ := finish_eq_some hfinish
    refine ⟨rounds, h.task rfl hinput (by rw [hwaiting]) fun rest hrest => ?_⟩
    refine (hrest.append_right _).trans ?_
    rw [List.append_assoc]
    refine List.Perm.append_left _ ?_
    exact List.perm_append_comm.trans hdone.symm
  | gathered =>
    rw [BatchAgent.step] at hstep
    cases hresults : Gather.results s.tasks with
    | none =>
      rw [hresults] at hstep
      cases hstep
    | some outcomes =>
      rw [hresults] at hstep
      obtain ⟨loop, hloop, rfl⟩ := Option.map_eq_some_iff.mp hstep
      obtain ⟨admission, hpc, hlength, rfl⟩ := ChatAgent.step_toolsDone hloop
      obtain ⟨htasks, hdone, -⟩ := results_eq_some hresults
      refine h.gathers hpc hresults hlength fun hmany => exists_distinctSourceCount ?_
      intro result hresult
      -- every outcome is the result of a task
      have hsnd : (Gather.done s.tasks).map Prod.snd = outcomes := by
        rw [hdone, List.map_snd_zip (Nat.le_of_eq (by rw [List.length_map, htasks]))]
      rw [← hsnd] at hresult
      obtain ⟨entry, hentry, rfl⟩ := List.mem_map.mp hresult
      exact hids (by rw [← htasks, hlength]; exact hmany) entry hentry

/-- **Run lemma.** -/
theorem exists_batchInv (hrun : StepSystem.run agent.step agent.start actions = some s)
    (hids : StepSystem.Along agent.step Countable agent.start actions) :
    ∃ rounds, BatchInv agent actions s rounds := by
  induction actions using List.reverseRecOn generalizing s with
  | nil =>
    cases hrun
    exact ⟨[], batchInv_start⟩
  | append_singleton actions action ih =>
    obtain ⟨before, hbefore, hlast⟩ := StepSystem.run_append.mp hrun
    obtain ⟨hidsBefore, hidsLast⟩ := (StepSystem.along_append hbefore).mp hids
    obtain ⟨rounds, hinv⟩ := ih hbefore hidsBefore
    obtain ⟨after, hstep, hnil⟩ := StepSystem.run_cons_iff.mp hlast
    cases hnil
    exact hinv.step hidsLast.1 hstep

end Steps

/-! ### Timing -/

/-- The block without what a tool has said. -/
def ContentBlock.skeleton : ContentBlock → ContentBlock
  | .toolResult toolCallId _ _ => .toolResult toolCallId "" false
  | block => block

/-- The event without what a tool has said. -/
def AgentEvent.skeleton : AgentEvent → AgentEvent
  | .toolCallFinished toolName _ _ _ => .toolCallFinished toolName false [] none
  | .messageDone message =>
    .messageDone { message with blocks := message.blocks.map ContentBlock.skeleton }
  | event => event

section Timing

variable {agent : ChatAgent}

/-- The results of a batch, but for what they say, are determined by its calls. -/
theorem Round.skeleton_finished (agent : ChatAgent) {round : Round} {results : List ToolResult}
    (before : ℕ)
    (hlength : results.length = round.calls.length) :
    (round.finished agent before results).map AgentEvent.skeleton =
      (round.calls.map fun call => AgentEvent.toolCallFinished call.name false [] none) ++
        [.messageDone ⟨.user, round.calls.map fun call => .toolResult call.id "" false⟩] := by
  have hcalls : (round.calls.zip results).map Prod.fst = round.calls :=
    List.map_fst_zip (Nat.le_of_eq hlength.symm)
  rw [Round.finished, List.map_append, List.map_map, List.map_singleton]
  congr 1
  · conv_rhs => rw [← hcalls, List.map_map]
    rfl
  · conv_rhs => rw [← hcalls, List.map_map]
    rw [AgentEvent.skeleton, ChatAgent.resultMessage, List.map_map]
    rfl

/-- The events of a round, but for what the results say, are determined by the response and by
whether the results are there. -/
theorem Round.skeleton_events {round round' : Round} (before : ℕ)
    (hsame : (round.deltas, round.response) = (round'.deltas, round'.response))
    (hsome : round.results.isSome = round'.results.isSome)
    (hlength : ∀ results, round.results = some results → results.length = round.calls.length)
    (hlength' : ∀ results, round'.results = some results →
      results.length = round'.calls.length) :
    (round.events agent before).map AgentEvent.skeleton =
      (round'.events agent before).map AgentEvent.skeleton := by
  obtain ⟨deltas, response, results⟩ := round
  obtain ⟨deltas', response', results'⟩ := round'
  obtain ⟨rfl, rfl⟩ := Prod.mk.inj hsame
  cases results with
  | none =>
    obtain rfl : results' = none := Option.isNone_iff_eq_none.mp (by simpa using hsome.symm)
    rfl
  | some results =>
    obtain ⟨results', rfl⟩ := Option.isSome_iff_exists.mp hsome.symm
    have hleft := Round.skeleton_finished agent before (hlength results rfl)
    have hright := Round.skeleton_finished agent before (hlength' results' rfl)
    rw [Round.events, Round.events]
    by_cases hcalls : Round.calls ⟨deltas, response, some results⟩ = []
    · have hcalls' : Round.calls ⟨deltas, response, some results'⟩ = [] := hcalls
      rw [if_pos hcalls, if_pos hcalls']
    · have hcalls' : Round.calls ⟨deltas, response, some results'⟩ ≠ [] := hcalls
      rw [if_neg hcalls, if_neg hcalls']
      simp only [List.map_append, List.map_cons, hleft, hright]
      rfl

theorem Round.skeleton_eventsOf {rounds rounds' : List Round} (before : ℕ)
    (hsame : rounds.map (fun round => (round.deltas, round.response)) =
      rounds'.map fun round => (round.deltas, round.response))
    (hsome : rounds.map (fun round => round.results.isSome) =
      rounds'.map fun round => round.results.isSome)
    (hlength : ∀ round ∈ rounds, ∀ results, round.results = some results →
      results.length = round.calls.length)
    (hlength' : ∀ round ∈ rounds', ∀ results, round.results = some results →
      results.length = round.calls.length) :
    (Round.eventsOf agent before rounds).map AgentEvent.skeleton =
      (Round.eventsOf agent before rounds').map AgentEvent.skeleton := by
  induction rounds generalizing rounds' before with
  | nil =>
    obtain rfl : rounds' = [] := List.map_eq_nil_iff.mp hsame.symm
    rfl
  | cons round rounds ih =>
    cases rounds' with
    | nil => cases hsame
    | cons round' =>
      obtain ⟨hfirst, hrest⟩ := List.cons.inj hsame
      obtain ⟨hfirstSome, hrestSome⟩ := List.cons.inj hsome
      have hcalls : round.calls = round'.calls :=
        congrArg (fun response : ModelCallResult => response.message.toolCalls)
          (Prod.mk.inj hfirst).2
      rw [Round.eventsOf, Round.eventsOf, List.map_append, List.map_append, hcalls,
        ih _ hrest hrestSome (fun r hr => hlength r (List.mem_cons_of_mem _ hr))
          fun r hr => hlength' r (List.mem_cons_of_mem _ hr),
        Round.skeleton_events before hfirst hfirstSome (hlength round List.mem_cons_self)
          (hlength' round' List.mem_cons_self)]

end Timing

/-- **Order-faithful and budgeted batches.** In every run in which the sources of each batch can be
counted, and after any number of steps: the events and the messages are those of rounds, the calls
that are executed are the first known calls of the run, at most `maxToolCalls` of them, and each
call has the result of its own execution. Another run with the same answers of the provider admits
the same calls and yields the same events, but for what the results say. -/
theorem batches_faithful (agent : BatchAgent) {actions : List BatchAction} {s : BatchLoop}
    (hrun : StepSystem.run agent.step agent.start actions = some s)
    (hids : StepSystem.Along agent.step Countable agent.start actions) :
    (∃ rounds, Rounds agent actions s rounds) ∧ s.begun.length ≤ agent.maxToolCalls ∧
      ∀ actions' s', StepSystem.run agent.step agent.start actions' = some s' →
        StepSystem.Along agent.step Countable agent.start actions' →
          answersOf actions' = answersOf actions → s'.isExecuting = s.isExecuting →
            (s'.begun ++ waiting s'.tasks).Perm (s.begun ++ waiting s.tasks) ∧
              s'.loop.yielded.map AgentEvent.skeleton =
                s.loop.yielded.map AgentEvent.skeleton := by
  obtain ⟨rounds, h⟩ := exists_batchInv hrun hids
  refine ⟨⟨rounds, h.toRounds⟩, ?_, fun actions' s' hrun' hids' hanswers hexecuting => ?_⟩
  · have hlength := h.begun.length_eq
    rw [List.length_append, List.length_take] at hlength
    omega
  · obtain ⟨rounds', h'⟩ := exists_batchInv hrun' hids'
    have hresponses : responsesOf actions' = responsesOf actions := by
      rw [responsesOf, hanswers, responsesOf]
    have hsame := h'.responses
    have hsome := h'.answered
    have hyielded := h'.yielded
    rw [hresponses] at hsame hsome hyielded
    rw [hexecuting, ← h.answered] at hsome
    rw [← h.responses] at hsame
    have hknown : Round.knownCalls agent.toChatAgent rounds' =
        Round.knownCalls agent.toChatAgent rounds := by
      have hcalls : rounds'.map Round.calls = rounds.map Round.calls := by
        have hmap := congrArg (List.map fun p : List AgentEvent × ModelCallResult =>
          p.2.message.toolCalls) hsame
        rw [List.map_map, List.map_map] at hmap
        exact hmap
      rw [Round.knownCalls, Round.knownCalls, List.flatMap_def, List.flatMap_def, hcalls]
    constructor
    · refine (h'.begun.trans ?_).trans h.begun.symm
      rw [hknown]
    · rw [hyielded, h.yielded, List.map_append, List.map_append,
        Round.skeleton_eventsOf 0 hsame hsome h'.complete h.complete]

/-! ### A search -/

/-- An agent with one tool. -/
def searcher : BatchAgent := ⟨⟨["web_search"], [], 2⟩, 4, by decide⟩

/-- Two calls in one response. -/
def askTwice : List BatchAction :=
  [.provider (.toolCallDone "call_1" "web_search" []),
    .provider (.toolCallDone "call_2" "web_search" []),
    .provider (.streamDone "tool_calls" none none), .starts 0, .starts 1]

/-- The second call ends first. -/
theorem batches_faithful_askTwice :
    ∃ s, StepSystem.run searcher.step searcher.start
        (askTwice ++ [.completes 1 ⟨"two", false, []⟩,
          .completes 0 ⟨"one", false, []⟩, .gathered]) =
          some s ∧
      (∃ rounds, Rounds searcher
        (askTwice ++ [.completes 1 ⟨"two", false, []⟩, .completes 0 ⟨"one", false, []⟩, .gathered])
          s rounds) ∧
      s.begun.length ≤ 2 := by
  have hrun : StepSystem.run searcher.step searcher.start
      (askTwice ++ [.completes 1 ⟨"two", false, []⟩, .completes 0 ⟨"one", false, []⟩, .gathered]) =
        some _ := rfl
  obtain ⟨hrounds, hlimit, -⟩ := batches_faithful searcher hrun (by decide)
  exact ⟨_, hrun, hrounds, hlimit⟩

/-- A tool names the source by a list, which has no hash. -/
def listedSource : ToolResult := ⟨"found", false, [("sources", .arr [.obj [("id", .arr [])]])]⟩

/-- Counting the sources raises, and the calls of the response are never answered. -/
theorem not_rounds_listedSource :
    ∃ s, StepSystem.run searcher.step searcher.start
        (askTwice ++ [.completes 0 listedSource, .completes 1 listedSource, .gathered]) = some s ∧
      ¬ ∃ rounds, Rounds searcher
        (askTwice ++ [.completes 0 listedSource, .completes 1 listedSource, .gathered])
          s rounds := by
  refine ⟨_, rfl, ?_⟩
  rintro ⟨rounds, h⟩
  have hresponses : rounds.map (fun round => (round.deltas, round.response)) =
      [([], ⟨⟨.assistant, [.toolCall "call_1" "web_search" [], .toolCall "call_2" "web_search" []]⟩,
        none, none⟩)] := h.responses
  have hanswered : rounds.map (fun round => round.results.isSome) = [true] := h.answered
  have hmessages := congrArg List.length h.messages
  obtain ⟨round, rfl, hround⟩ := List.map_eq_singleton_iff.mp hresponses
  obtain ⟨results, hresults⟩ := Option.isSome_iff_exists.mp (List.cons.inj hanswered).1
  have hcalls : round.calls ≠ [] := by
    rw [Round.calls, (Prod.mk.inj hround).2]
    decide
  rw [List.flatMap_singleton, Round.messages_of_some hcalls hresults] at hmessages
  cases hmessages

end IChat

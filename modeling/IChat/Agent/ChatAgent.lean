import IChat.Agent.ModelCall
import IChat.General.StepSystem

/-!
# The agent loop

`ChatAgent.stream` as a step system. The loop awaits either the next event of a model call or the
results of a batch of tools, so a step is what the provider or the tools answer, together with the
code that runs until the next await; the events yielded on the way are kept in `yielded`. A provider
or a tool may answer anything, and it may know the history.

Admission is decided in the order of the calls before any of them runs: an unknown tool is
rejected, and so is every call beyond `maxToolCalls`. A rejected call is answered with an error
result and the loop goes on, so what ends it is a response that requests no tool.

* `ChatAgent.bounded`: how many tools are executed and how many model calls are made;
* `no_bound_on_modelCalls`: the tool limit alone does not bound the model calls.
-/

namespace IChat

/-! ### Tools -/

/-- `ToolCallBlock`. -/
structure ToolCall where
  id : String
  name : String
  arguments : Dict
  deriving DecidableEq

/-- `ToolResult`. -/
structure ToolResult where
  content : String
  isError : Bool
  metadata : Dict
  deriving DecidableEq

/-- `_error_result`. -/
def errorResult (code message : String) : ToolResult where
  content := message ++ " (" ++ code ++ ")"
  isError := true
  metadata := [("error_code", .str code), ("message", .str message)]

/-- The tool calls of a message, in its order. -/
def Message.toolCalls (m : Message) : List ToolCall :=
  m.blocks.filterMap fun
    | .toolCall id name arguments => some ⟨id, name, arguments⟩
    | _ => none

/-- A tool is about to run. -/
def AgentEvent.isToolCallStarted : AgentEvent → Bool
  | .toolCallStarted .. => true
  | _ => false

/-- The key of a value in a Python set; a list or a dictionary has none. Truth values are integers,
and a floating-point number without a fraction equals one. -/
def Json.hashKey : Json → Option Json
  | .bool b => some (.int (if b then 1 else 0))
  | .float literal =>
    match Json.truncate literal with
    | some (n, true) => some (.int n)
    | _ => some (.float literal)
  | .arr _ => none
  | .obj _ => none
  | value => some value

/-- The ids of the sources of one result. -/
def sourceIds (result : ToolResult) : List Json :=
  match result.isError, Dict.get? result.metadata "sources" with
  | false, some (.arr sources) =>
    sources.filterMap fun
      | .obj source => some ((Dict.get? source "id").getD .null)
      | _ => none
  | _, _ => []

/-- `_distinct_source_count`; absent when it raises, as it does for an id that has no hash. -/
def distinctSourceCount (results : List ToolResult) : Option Int :=
  ((results.flatMap sourceIds).mapM Json.hashKey).map fun keys => (keys.eraseDups.length : Int)

/-! ### The loop -/

/-- What the loop reads of a `ChatAgent`. -/
structure ChatAgent where
  /-- The names in the tool registry. -/
  toolNames : List String
  messages : List Message
  maxToolCalls : ℕ

/-- The calls of a response in order, each with the result it is rejected with, if it is. -/
abbrev Admission : Type := List (ToolCall × Option ToolResult)

/-- The calls that are admitted. -/
def Admission.admitted (admission : Admission) : List ToolCall :=
  admission.filterMap fun entry => if entry.2.isNone then some entry.1 else none

/-- Where the loop waits. -/
inductive LoopPc where
  /-- For the provider. -/
  | calling (call : ModelCall)
  /-- For the tools. -/
  | executing (admission : Admission)
  | finished
  | failed (exc : ProviderError)
  | raised (message : String)
  deriving DecidableEq

/-- The variables of `ChatAgent.stream`. The code keeps neither the events it has yielded nor the
numbers of its model calls and of the responses none of whose tools it executed. -/
structure AgentLoop where
  messages : List Message
  toolCallsUsed : ℕ
  pc : LoopPc
  yielded : List AgentEvent
  modelCalls : ℕ
  refusedRounds : ℕ
  deriving DecidableEq

/-- What the loop awaits is there. -/
inductive LoopAction where
  | provider (event : StreamEvent)
  /-- The provider's stream ends. -/
  | providerEnds
  | providerFails (exc : ProviderError)
  /-- The provider raises anything else. -/
  | providerRaises (message : String)
  /-- The results of the admitted calls, in their order. -/
  | toolsDone (outcomes : List ToolResult)

namespace ChatAgent

/-- The first model call has begun. -/
def start (agent : ChatAgent) : AgentLoop where
  messages := agent.messages
  toolCallsUsed := 0
  pc := .calling .init
  yielded := []
  modelCalls := 1
  refusedRounds := 0

/-- The loop over the calls of a response, with the number of tool calls used. -/
def admitCalls (agent : ChatAgent) : ℕ → List ToolCall → Admission × ℕ
  | used, [] => ([], used)
  | used, call :: calls =>
    if call.name ∉ agent.toolNames then
      let rest := agent.admitCalls used calls
      let result := errorResult "unknown_tool" ("Unsupported tool: " ++ call.name ++ ".")
      ((call, some result) :: rest.1, rest.2)
    else if agent.maxToolCalls ≤ used then
      let rest := agent.admitCalls used calls
      let result := errorResult "tool_call_limit"
        "Tool call limit reached. Continuing without executing more tools."
      ((call, some result) :: rest.1, rest.2)
    else
      let rest := agent.admitCalls (used + 1) calls
      ((call, none) :: rest.1, rest.2)

/-- From the result of a model call to the next await. -/
def respond (agent : ChatAgent) (result : ModelCallResult) (s : AgentLoop) : AgentLoop :=
  let calls := result.message.toolCalls
  if calls = [] then
    { s with
      pc := .finished
      yielded := s.yielded ++
        [.messageDone result.message, .agentFinal result.usage result.providerRequestId] }
  else
    let admission := (agent.admitCalls s.toolCallsUsed calls).1
    let admitted := admission.admitted
    { s with
      messages := s.messages ++ [result.message]
      toolCallsUsed := (agent.admitCalls s.toolCallsUsed calls).2
      pc := .executing admission
      yielded := s.yielded ++ .messageDone result.message ::
        admitted.map fun call => .toolCallStarted call.name call.arguments admitted.length
      refusedRounds := if admitted = [] then s.refusedRounds + 1 else s.refusedRounds }

/-- The results of all calls, in their order: the admitted ones take theirs from the batch. -/
def resolve : Admission → List ToolResult → List (ToolCall × ToolResult)
  | (call, some rejected) :: rest, outcomes => (call, rejected) :: resolve rest outcomes
  | (call, none) :: rest, outcome :: outcomes => (call, outcome) :: resolve rest outcomes
  | _, _ => []

/-- The message that carries the results. -/
def resultMessage (results : List (ToolCall × ToolResult)) : Message where
  role := .user
  blocks := results.map fun (call, result) =>
    .toolResult call.id result.content result.isError

/-- From the results of a batch to the next model call. -/
def report (admission : Admission) (outcomes : List ToolResult) (s : AgentLoop) : AgentLoop :=
  let results := resolve admission outcomes
  let batch := if 1 < admission.admitted.length then distinctSourceCount outcomes else some 0
  match batch with
  | none => { s with pc := .raised "unhashable type" }
  | some count =>
    let batchSourceCount := if 1 < admission.admitted.length then some count else none
    { s with
      messages := s.messages ++ [resultMessage results]
      pc := .calling .init
      yielded := s.yielded ++
        (results.map fun (call, result) =>
          .toolCallFinished call.name result.isError result.metadata batchSourceCount) ++
        [.messageDone (resultMessage results)]
      modelCalls := s.modelCalls + 1 }

/-- One answer, and the code up to the next await. -/
def step (agent : ChatAgent) (s : AgentLoop) (a : LoopAction) : Option AgentLoop :=
  match s.pc, a with
  | .calling call, .provider event =>
    match call.step event with
    | .continues call yielded =>
      some { s with pc := .calling call, yielded := s.yielded ++ yielded.toList }
    | .result result => some (agent.respond result s)
  | .calling _, .providerEnds => some { s with pc := .failed noFinish }
  | .calling _, .providerFails exc => some { s with pc := .failed exc }
  | .calling _, .providerRaises message => some { s with pc := .raised message }
  | .executing admission, .toolsDone outcomes =>
    if outcomes.length = admission.admitted.length then some (report admission outcomes s)
    else none
  | _, _ => none

/-! ### What a round does -/

section Rounds

variable {agent : ChatAgent} {s s' : AgentLoop} {a : LoopAction} {actions : List LoopAction}

/-- Admission counts the calls it admits and stays within the limit. -/
theorem admit_spec (calls : List ToolCall) (used : ℕ) :
    (agent.admitCalls used calls).2 = used + (agent.admitCalls used calls).1.admitted.length ∧
      (used ≤ agent.maxToolCalls → (agent.admitCalls used calls).2 ≤ agent.maxToolCalls) := by
  induction calls generalizing used with
  | nil => exact ⟨rfl, id⟩
  | cons call calls ih =>
    simp only [admitCalls]
    split_ifs with hknown hlimit
    · exact ih used
    · obtain ⟨hcount, hmax⟩ := ih (used + 1)
      have hlength : Admission.admitted ((call, none) :: (agent.admitCalls (used + 1) calls).1) =
          call :: (agent.admitCalls (used + 1) calls).1.admitted := rfl
      constructor
      · rw [hlength, List.length_cons, hcount]
        omega
      · intro _
        exact hmax (by omega)
    · exact ih used

/-- No final event has been yielded, and every response so far requested a tool. -/
def Unfinished (events : List AgentEvent) : Prop :=
  ∀ event ∈ events, match event with
    | .agentFinal _ _ => False
    | .messageDone message => message.role = .assistant → message.toolCalls ≠ []
    | _ => True

/-- The final event follows the first response that requests no tool. -/
def Final (events : List AgentEvent) : Prop :=
  ∃ before message usage providerRequestId,
    events = before ++ [.messageDone message, .agentFinal usage providerRequestId] ∧
      message.role = .assistant ∧ message.toolCalls = [] ∧ Unfinished before

/-- How many tools have been executed and how many model calls made, and when the stream ends. -/
structure Bounded (agent : ChatAgent) (s : AgentLoop) : Prop where
  executed : s.yielded.countP AgentEvent.isToolCallStarted = s.toolCallsUsed
  limit : s.toolCallsUsed ≤ agent.maxToolCalls
  modelCalls : s.modelCalls ≤ 1 + s.toolCallsUsed + s.refusedRounds
  finished : s.pc = .finished → Final s.yielded
  unfinished : s.pc ≠ .finished → Unfinished s.yielded

/-- The invariant of the loop. -/
structure LoopInv (agent : ChatAgent) (s : AgentLoop) : Prop extends Bounded agent s where
  /-- The round that is being executed is counted already. -/
  executing : ∀ admission, s.pc = .executing admission →
    s.modelCalls ≤ s.toolCallsUsed + s.refusedRounds
  collects : ∀ call, s.pc = .calling call → call.Collects

theorem loopInv_start : LoopInv agent agent.start where
  executed := rfl
  limit := Nat.zero_le _
  modelCalls := Nat.le_refl _
  finished h := by cases h
  unfinished _ _ hmem := by cases hmem
  executing _ h := by cases h
  collects call h := by
    cases h
    exact ModelCall.collects_init

theorem Unfinished.append {before after : List AgentEvent} (hbefore : Unfinished before)
    (hafter : Unfinished after) : Unfinished (before ++ after) := fun event hevent =>
  (List.mem_append.mp hevent).elim (hbefore event) (hafter event)

/-- The tool calls of a response are those that were collected. -/
theorem toolCalls_eq_nil_iff {call : ModelCall} (h : call.Collects) :
    Message.toolCalls ⟨.assistant, call.responseBlocks ++ call.toolCalls⟩ = [] ↔
      call.toolCalls = [] := by
  unfold Message.toolCalls
  rw [List.filterMap_eq_nil_iff]
  constructor
  · intro hnone
    refine List.eq_nil_iff_forall_not_mem.mpr fun block hblock => ?_
    have hcall := h.toolCalls block hblock
    have hskipped := hnone block (List.mem_append_right _ hblock)
    cases block with
    | toolCall => cases hskipped
    | _ => cases hcall
  · intro hnil block hblock
    rw [hnil, List.append_nil] at hblock
    have hother := h.response block hblock
    cases block with
    | toolCall => cases hother
    | _ => rfl

/-- A loop that stops with an error, or whose tools raise, has yielded nothing more. -/
theorem LoopInv.stop {pc : LoopPc} (h : LoopInv agent s) (hpc : s.pc ≠ .finished)
    (hfinished : pc ≠ .finished) (hcalling : ∀ call, pc ≠ .calling call)
    (hexecuting : ∀ admission, pc ≠ .executing admission) :
    LoopInv agent { s with pc := pc } where
  executed := h.executed
  limit := h.limit
  modelCalls := h.modelCalls
  finished heq := absurd heq hfinished
  unfinished _ := h.unfinished hpc
  executing admission heq := absurd heq (hexecuting admission)
  collects call heq := absurd heq (hcalling call)

/-- A delta, or a block that is not passed on. -/
theorem LoopInv.continue {call call' : ModelCall} {event : StreamEvent}
    {yielded : Option AgentEvent} (h : LoopInv agent s) (hpc : s.pc = .calling call)
    (hstep : call.step event = .continues call' yielded) :
    LoopInv agent { s with pc := .calling call', yielded := s.yielded ++ yielded.toList } := by
  have hdelta : Unfinished yielded.toList ∧
      yielded.toList.countP AgentEvent.isToolCallStarted = 0 := by
    cases yielded with
    | none => exact ⟨fun _ hmem => absurd hmem List.not_mem_nil, rfl⟩
    | some =>
      obtain ⟨text, rfl, -⟩ | ⟨text, kind, rfl, -⟩ := ModelCall.yielded_isDelta hstep
      · exact ⟨fun e he => (by rw [List.mem_singleton.mp he]; trivial), rfl⟩
      · exact ⟨fun e he => (by rw [List.mem_singleton.mp he]; trivial), rfl⟩
  have hopen := h.unfinished (by rw [hpc]; exact LoopPc.noConfusion)
  constructor
  · constructor
    · rw [List.countP_append, hdelta.2, h.executed]
      rfl
    · exact h.limit
    · exact h.modelCalls
    · intro heq
      cases heq
    · exact fun _ => hopen.append hdelta.1
  · intro admission heq
    cases heq
  · intro call'' heq
    cases heq
    exact (h.collects call hpc).step hstep

/-- A response: the stream ends with it, or its tools are admitted or rejected. -/
theorem LoopInv.respond {call : ModelCall} {event : StreamEvent} {result : ModelCallResult}
    (h : LoopInv agent s) (hpc : s.pc = .calling call)
    (hstep : call.step event = .result result) : LoopInv agent (agent.respond result s) := by
  have hopen := h.unfinished (by rw [hpc]; exact LoopPc.noConfusion)
  have hrole : result.message.role = .assistant := by rw [ModelCall.step_eq_result hstep]
  unfold ChatAgent.respond
  dsimp only
  split_ifs with hcalls hadmitted
  · constructor
    · constructor
      · simp [h.executed, AgentEvent.isToolCallStarted]
      · exact h.limit
      · exact h.modelCalls
      · exact fun _ => ⟨s.yielded, result.message, result.usage, result.providerRequestId, rfl,
          hrole, hcalls, hopen⟩
      · exact fun hne => absurd rfl hne
    · intro admission heq
      cases heq
    · intro call' heq
      cases heq
  all_goals
    obtain ⟨hused, hmax⟩ := agent.admit_spec result.message.toolCalls s.toolCallsUsed
    set admitted := (agent.admitCalls s.toolCallsUsed result.message.toolCalls).1.admitted
    have hstarted : ∀ n : ℕ, (admitted.map fun call =>
        AgentEvent.toolCallStarted call.name call.arguments n).countP
          AgentEvent.isToolCallStarted = admitted.length := by
      intro n
      rw [List.countP_map]
      exact List.countP_eq_length.mpr fun _ _ => rfl
    have hround : Unfinished (.messageDone result.message :: admitted.map fun call =>
        AgentEvent.toolCallStarted call.name call.arguments admitted.length) := by
      intro event hevent
      rcases List.mem_cons.mp hevent with rfl | hevent
      · exact fun _ => hcalls
      · obtain ⟨call, -, rfl⟩ := List.mem_map.mp hevent
        trivial
    have hcount : (s.yielded ++ .messageDone result.message :: admitted.map fun call =>
        AgentEvent.toolCallStarted call.name call.arguments admitted.length).countP
          AgentEvent.isToolCallStarted = s.toolCallsUsed + admitted.length := by
      rw [List.countP_append, List.countP_cons, hstarted, h.executed]
      rfl
    have hcalled := h.modelCalls
  · -- no tool runs: the round counts as refused
    have hzero : admitted.length = 0 := by rw [hadmitted, List.length_nil]
    refine ⟨⟨hcount.trans hused.symm, hmax h.limit, ?_, LoopPc.noConfusion,
      fun _ => hopen.append hround⟩, fun admission _ => ?_, fun call' => LoopPc.noConfusion⟩
    · simp only
      omega
    · simp only
      omega
  · -- at least one tool runs: the round is paid for by the calls used
    have hpos : 0 < admitted.length := List.length_pos_iff.mpr hadmitted
    refine ⟨⟨hcount.trans hused.symm, hmax h.limit, ?_, LoopPc.noConfusion,
      fun _ => hopen.append hround⟩, fun admission _ => ?_, fun call' => LoopPc.noConfusion⟩
    · simp only
      omega
    · simp only
      omega

/-- The results of a batch, or the exception of counting its sources. -/
theorem LoopInv.report {admission : Admission} {outcomes : List ToolResult} (h : LoopInv agent s)
    (hpc : s.pc = .executing admission) : LoopInv agent
    (ChatAgent.report admission outcomes s) := by
  have hne : s.pc ≠ .finished := by rw [hpc]; exact LoopPc.noConfusion
  have hopen := h.unfinished hne
  have hcalled := h.executing admission hpc
  unfold ChatAgent.report
  dsimp only
  split
  · exact h.stop hne LoopPc.noConfusion (fun _ => LoopPc.noConfusion) fun _ => LoopPc.noConfusion
  · rename_i count _
    generalize (if 1 < admission.admitted.length then some count else none) = batchSourceCount
    set finished := (resolve admission outcomes).map fun (call, result) =>
      AgentEvent.toolCallFinished call.name result.isError result.metadata batchSourceCount
      with hfinished
    have hplain : Unfinished (finished ++
        [.messageDone (resultMessage (resolve admission outcomes))]) := by
      intro event hevent
      rcases List.mem_append.mp hevent with hevent | hevent
      · obtain ⟨entry, -, rfl⟩ := List.mem_map.mp hevent
        trivial
      · rw [List.mem_singleton.mp hevent]
        exact fun hrole => by cases hrole
    have hnone : (finished ++ [AgentEvent.messageDone
      (resultMessage (resolve admission outcomes))]).countP
        AgentEvent.isToolCallStarted = 0 := by
      refine List.countP_eq_zero.mpr fun event hevent => ?_
      rcases List.mem_append.mp hevent with hevent | hevent
      · obtain ⟨entry, -, rfl⟩ := List.mem_map.mp hevent
        exact Bool.false_ne_true
      · rw [List.mem_singleton.mp hevent]
        exact Bool.false_ne_true
    rw [List.append_assoc]
    refine ⟨⟨?_, h.limit, ?_, LoopPc.noConfusion, fun _ => hopen.append hplain⟩,
      fun _ => LoopPc.noConfusion, fun call heq => ?_⟩
    · rw [List.countP_append, hnone, h.executed]
      rfl
    · simp only
      omega
    · cases heq
      exact ModelCall.collects_init

/-- **Step lemma.** -/
theorem LoopInv.step (h : LoopInv agent s) (hstep : agent.step s a = some s') :
    LoopInv agent s' := by
  unfold ChatAgent.step at hstep
  split at hstep
  · rename_i call event hpc
    split at hstep <;> cases hstep
    · rename_i hcontinues
      exact h.continue hpc hcontinues
    · rename_i hresult
      exact h.respond hpc hresult
  · rename_i hpc
    cases hstep
    exact h.stop (by rw [hpc]; exact LoopPc.noConfusion) LoopPc.noConfusion
      (fun _ => LoopPc.noConfusion) fun _ => LoopPc.noConfusion
  · rename_i hpc
    cases hstep
    exact h.stop (by rw [hpc]; exact LoopPc.noConfusion) LoopPc.noConfusion
      (fun _ => LoopPc.noConfusion) fun _ => LoopPc.noConfusion
  · rename_i hpc
    cases hstep
    exact h.stop (by rw [hpc]; exact LoopPc.noConfusion) LoopPc.noConfusion
      (fun _ => LoopPc.noConfusion) fun _ => LoopPc.noConfusion
  · rename_i hpc
    split at hstep <;> cases hstep
    exact h.report hpc
  · cases hstep

/-- **Run lemma.** -/
theorem loopInv_of_run (hrun : StepSystem.run agent.step agent.start actions = some s) :
    LoopInv agent s :=
  StepSystem.run_invariant (fun _ _ _ h hstep => h.step hstep) loopInv_start hrun

/-- **A bounded loop, as far as the tools go.** Whatever the provider and the tools answer, at most
`maxToolCalls` tools are executed, and beyond the first there is at most one model call for each
tool executed and for each response none of whose tools was executed. The final event follows the
first response that requests no tool and nothing else, and a model call that has collected no tool
call ends the stream with its `StreamDone`. -/
theorem bounded (hrun : StepSystem.run agent.step agent.start actions = some s) :
    s.yielded.countP AgentEvent.isToolCallStarted ≤ agent.maxToolCalls ∧
      s.modelCalls ≤ 1 + agent.maxToolCalls + s.refusedRounds ∧
      (s.pc = .finished → Final s.yielded) ∧ (s.pc ≠ .finished → Unfinished s.yielded) ∧
      ∀ call, s.pc = .calling call → ∀ finishReason usage providerRequestId,
        ∃ s', agent.step s
            (.provider (.streamDone finishReason usage providerRequestId)) = some s' ∧
          (s'.pc = .finished ↔ call.toolCalls = []) := by
  have h := loopInv_of_run hrun
  have hcalls := h.modelCalls
  have hlimit := h.limit
  have hexecuted := h.executed
  refine ⟨by omega, by omega, h.finished, h.unfinished,
    fun call hpc finishReason usage providerRequestId => ?_⟩
  refine ⟨agent.respond ⟨⟨.assistant, call.responseBlocks ++ call.toolCalls⟩, usage,
    providerRequestId⟩ s, ?_, ?_⟩
  · simp only [step, hpc, ModelCall.step]
  · rw [← toolCalls_eq_nil_iff (h.collects call hpc)]
    unfold respond
    dsimp only
    split_ifs with hnil <;> simp [hnil]

end Rounds

/-! ### A provider that never stops asking -/

/-- Ask for a tool the agent does not have, once. -/
def askInVain : List LoopAction :=
  [.provider (.toolCallDone "call" "lookup" []), .provider (.streamDone "tool_calls" none none),
    .toolsDone []]

/-- An agent without tools, as it is built when the web search is switched off. -/
def withoutTools : ChatAgent := ⟨[], [], 0⟩

/-- The tool limit does not bound the number of model calls: a provider that answers every refusal
with another request keeps the loop going. -/
theorem no_bound_on_modelCalls :
    ¬∃ bound : ℕ → ℕ, ∀ (agent : ChatAgent) (actions : List LoopAction) (s : AgentLoop),
      StepSystem.run agent.step agent.start actions = some s →
        s.modelCalls ≤ bound agent.maxToolCalls := by
  rintro ⟨bound, hbound⟩
  have hrounds : ∀ n, ∃ s,
      StepSystem.run withoutTools.step withoutTools.start (List.replicate n askInVain).flatten =
        some s ∧ s.pc = .calling .init ∧ s.modelCalls = 1 + n := by
    intro n
    induction n with
    | zero => exact ⟨_, rfl, rfl, rfl⟩
    | succ n ih =>
      obtain ⟨s, hrun, hpc, hcalls⟩ := ih
      rw [List.replicate_succ', List.flatten_append, List.flatten_singleton]
      obtain ⟨messages, used, pc, yielded, modelCalls, refusedRounds⟩ := s
      simp only at hpc hcalls
      subst hpc hcalls
      exact ⟨_, StepSystem.run_append.mpr ⟨_, hrun, rfl⟩, rfl, rfl⟩
  obtain ⟨s, hrun, -, hcalls⟩ := hrounds (bound 0)
  have hle : s.modelCalls ≤ bound 0 := hbound withoutTools _ s hrun
  omega

/-- One search, and an answer. -/
def searchOnce : List LoopAction :=
  [.provider (.toolCallDone "call_1" "web_search" []),
    .provider (.streamDone "tool_calls" none none), .toolsDone [⟨"found", false, []⟩],
    .provider (.textDelta "It is noon."), .provider (.streamDone "stop" none none)]

theorem bounded_searchOnce :
    ∃ s, StepSystem.run (step ⟨["web_search"], [], 1⟩) (start ⟨["web_search"], [], 1⟩) searchOnce =
        some s ∧
      s.modelCalls = 2 ∧ s.refusedRounds = 0 ∧ s.modelCalls ≤ 1 + 1 + s.refusedRounds ∧
      Final s.yielded := by
  obtain ⟨s, hrun, hcalls, hrefused, hpc⟩ :
      ∃ s, StepSystem.run (step ⟨["web_search"], [], 1⟩) (start ⟨["web_search"], [], 1⟩)
          searchOnce = some s ∧
        s.modelCalls = 2 ∧ s.refusedRounds = 0 ∧ s.pc = .finished :=
    StepSystem.exists_run (by decide +kernel)
  obtain ⟨-, hmax, hfinal, -⟩ := bounded hrun
  exact ⟨s, hrun, hcalls, hrefused, hmax, hfinal hpc⟩

end ChatAgent

end IChat

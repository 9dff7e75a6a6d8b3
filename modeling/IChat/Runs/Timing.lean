import Mathlib.Algebra.Order.Floor.Ring
import Mathlib.Data.Int.ConditionallyCompleteOrder
import Mathlib.Data.List.Induction
import Mathlib.Data.Rat.Floor
import Mathlib.Logic.Function.Basic
import IChat.Agent.Messages

/-!
# The timing of a run

`RunTimer` cuts the execution of a run into phases. The marks are milliseconds since the start, each
a rounded difference of two readings of the clock; the durations are differences of marks.
`timing_partition`: every record that a timer returns has durations that are not negative and sum
to the execution time, whatever it was told before.
-/

namespace IChat.Timing

/-- The rounding of floating-point results: it keeps the order and the zero. -/
structure FloatRounding where
  fl : ℚ → ℚ
  monotone : Monotone fl
  zero : fl 0 = 0

/-- `round`, which takes the even one of two nearest integers. -/
def roundHalfEven (x : ℚ) : ℤ :=
  if x - ⌊x⌋ < 1 / 2 then ⌊x⌋
  else if 1 / 2 < x - ⌊x⌋ then ⌊x⌋ + 1
  else if ⌊x⌋ % 2 = 0 then ⌊x⌋ else ⌊x⌋ + 1

inductive Phase
  | preparing | modelWait | reasoning | tool | answering | finalizing
  deriving DecidableEq, Repr

/-- `PHASES`. -/
def phases : List Phase := [.preparing, .modelWait, .reasoning, .tool, .answering, .finalizing]

/-- An entry of `tools`. -/
structure ToolTiming where
  name : String
  ms : ℤ
  ok : Bool
  deriving DecidableEq

/-- The record that `finish` returns. -/
structure TimingRecord where
  version : ℤ
  outcome : String
  queuedMs : Option ℤ
  executionMs : ℤ
  workMs : Option ℤ
  ttftMs : Option ℤ
  phases : Phase → ℤ
  modelCalls : ℕ
  attempts : ℕ
  tools : List ToolTiming

/-- `RunTimer`. -/
structure RunTimer where
  start : ℚ
  queuedMs : Option ℤ
  phase : Phase
  phaseMark : ℤ
  durations : Phase → ℤ
  modelCalls : ℕ
  attempts : ℕ
  ttftMs : Option ℤ
  firstTextMs : List (ℕ × ℤ)
  tools : List ToolTiming
  result : Option TimingRecord

namespace RunTimer

/-- `__init__`, at a reading of the clock. -/
def create (queuedMs : Option ℤ) (clock : ℚ) : RunTimer where
  start := clock
  queuedMs := queuedMs
  phase := .preparing
  phaseMark := 0
  durations := fun _ => 0
  modelCalls := 0
  attempts := 0
  ttftMs := none
  firstTextMs := []
  tools := []
  result := none

/-- `_now_ms`, for a reading of the clock. -/
def nowMs (rounding : FloatRounding) (timer : RunTimer) (clock : ℚ) : ℤ :=
  roundHalfEven (rounding.fl (rounding.fl (clock - timer.start) * 1000))

/-- `_switch`, at a mark. -/
def switch (now : ℤ) (phase : Phase) (timer : RunTimer) : RunTimer :=
  if phase ≠ timer.phase then
    { timer with
      durations := Function.update timer.durations timer.phase
        (timer.durations timer.phase + (now - timer.phaseMark))
      phase := phase
      phaseMark := now }
  else timer

/-- `stream_started`. -/
def streamStarted (now : ℤ) (timer : RunTimer) : RunTimer :=
  let timer := timer.switch now .modelWait
  let timer := { timer with attempts := timer.attempts + 1 }
  if timer.attempts = 1 then { timer with modelCalls := 1 } else timer

/-- `self._ttft_ms` and `self._first_text_ms`, at the mark of a delta. -/
def markDelta (now : ℤ) (isText : Bool) (timer : RunTimer) : RunTimer :=
  { timer with
    ttftMs := timer.ttftMs.or (some now)
    firstTextMs :=
      if isText && (timer.firstTextMs.lookup timer.modelCalls).isNone then
        timer.firstTextMs ++ [(timer.modelCalls, now)]
      else timer.firstTextMs }

/-- `observe`; the elapsed time of a call that finished comes with the event. -/
def observe (now : ℤ) (event : AgentEvent) (elapsedMs : Option ℤ) (timer : RunTimer) : RunTimer :=
  match event with
  | .textDelta _ => (timer.switch now .answering).markDelta now true
  | .reasoningDelta _ _ => (timer.switch now .reasoning).markDelta now false
  | .toolCallStarted _ _ _ => timer.switch now .tool
  | .toolCallFinished toolName isError _ _ =>
    let timer := timer.switch now .modelWait
    { timer with tools := timer.tools ++ [⟨toolName, elapsedMs.getD 0, !isError⟩] }
  | .messageDone message =>
    if message.role = .user then
      let timer := timer.switch now .modelWait
      { timer with modelCalls := timer.modelCalls + 1 }
    else timer
  | .agentFinal _ _ => timer

/-- `stream_ended`. -/
def streamEnded (now : ℤ) (timer : RunTimer) : RunTimer := timer.switch now .finalizing

/-- The record of a timer whose current phase is closed. -/
def record (executionMs : ℤ) (outcome : String) (timer : RunTimer) : TimingRecord where
  version := 1
  outcome := outcome
  queuedMs := timer.queuedMs
  executionMs := executionMs
  workMs := if 0 < timer.modelCalls then timer.firstTextMs.lookup timer.modelCalls else none
  ttftMs := timer.ttftMs
  phases := timer.durations
  modelCalls := timer.modelCalls
  attempts := timer.attempts
  tools := timer.tools

/-- `finish`: the timer, and the record it returns. -/
def finish (now : ℤ) (outcome : String) (timer : RunTimer) : RunTimer × TimingRecord :=
  let timer := timer.switch now timer.phase
  let timer := { timer with
    durations := Function.update timer.durations timer.phase
      (timer.durations timer.phase + (now - timer.phaseMark))
    phaseMark := now }
  ({ timer with result := some (timer.record now outcome) }, timer.record now outcome)

end RunTimer

/-- What the worker calls. -/
inductive TimerCall
  | streamStarted
  | observe (event : AgentEvent) (elapsedMs : Option ℤ)
  | streamEnded
  | finish (outcome : String)

/-- A call at a reading of the clock. -/
def RunTimer.apply (rounding : FloatRounding) (timer : RunTimer) (call : ℚ × TimerCall) :
    RunTimer :=
  let now := timer.nowMs rounding call.1
  match call.2 with
  | .streamStarted => timer.streamStarted now
  | .observe event elapsedMs => timer.observe now event elapsedMs
  | .streamEnded => timer.streamEnded now
  | .finish outcome => (timer.finish now outcome).1

/-- The timer after some calls. -/
def timerAfter (rounding : FloatRounding) (queuedMs : Option ℤ) (start : ℚ)
    (calls : List (ℚ × TimerCall)) : RunTimer :=
  calls.foldl (RunTimer.apply rounding) (.create queuedMs start)

/-- The tool calls that finished, as the timer lists them. -/
def finishedTools (calls : List (ℚ × TimerCall)) : List ToolTiming :=
  calls.filterMap fun call =>
    match call.2 with
    | .observe (.toolCallFinished toolName isError _ _) elapsedMs =>
      some ⟨toolName, elapsedMs.getD 0, !isError⟩
    | _ => none

/-- What a record promises, after the calls before it. -/
structure RecordExact (calls : List (ℚ × TimerCall)) (record : TimingRecord) : Prop where
  nonneg : ∀ phase, 0 ≤ record.phases phase
  sum : (phases.map record.phases).sum = record.executionMs
  first : ∀ ttft work, record.ttftMs = some ttft → record.workMs = some work → ttft ≤ work
  work : ∀ work, record.workMs = some work → work ≤ record.executionMs
  ttft : ∀ ttft, record.ttftMs = some ttft → ttft ≤ record.executionMs
  tools : record.tools = finishedTools calls

/-! ### Marks -/

theorem floor_le_roundHalfEven (x : ℚ) : ⌊x⌋ ≤ roundHalfEven x := by
  rw [roundHalfEven]
  split_ifs <;> omega

theorem roundHalfEven_le (x : ℚ) : roundHalfEven x ≤ ⌊x⌋ + 1 := by
  rw [roundHalfEven]
  split_ifs <;> omega

theorem roundHalfEven_monotone : Monotone roundHalfEven := by
  intro x y hxy
  have hfloor : ⌊x⌋ ≤ ⌊y⌋ := Int.floor_mono hxy
  by_cases hsame : ⌊x⌋ = ⌊y⌋
  · have hrest : x - ⌊x⌋ ≤ y - ⌊y⌋ := by
      rw [hsame]
      linarith
    rw [roundHalfEven, roundHalfEven, hsame] at *
    split_ifs <;> first | omega | linarith
  · have hx := roundHalfEven_le x
    have hy := floor_le_roundHalfEven y
    omega

section timer

variable {rounding : FloatRounding} {timer : RunTimer} {mark now : ℤ} {start clock : ℚ}
variable {calls before after : List (ℚ × TimerCall)} {queuedMs : Option ℤ}

/-- The marks are in the order of the readings. -/
theorem nowMs_monotone (rounding : FloatRounding) (timer : RunTimer) :
    Monotone (timer.nowMs rounding) := by
  intro clock clock' h
  refine roundHalfEven_monotone (rounding.monotone ?_)
  exact mul_le_mul_of_nonneg_right (rounding.monotone (sub_le_sub_right h _)) (by norm_num)

theorem nowMs_nonneg (h : timer.start ≤ clock) : 0 ≤ timer.nowMs rounding clock := by
  have hzero : timer.nowMs rounding timer.start = 0 := by
    rw [RunTimer.nowMs, sub_self, rounding.zero, zero_mul, rounding.zero, roundHalfEven,
      Int.floor_zero, if_pos (by norm_num)]
  rw [← hzero]
  exact nowMs_monotone rounding timer h

/-- Adding to one duration adds to the sum. -/
theorem sum_durations_update (durations : Phase → ℤ) (phase : Phase) (ms : ℤ) :
    (phases.map (Function.update durations phase (durations phase + ms))).sum =
      (phases.map durations).sum + ms := by
  cases phase <;> simp [phases, Function.update] <;> ring

/-- What a timer keeps up to a mark. -/
structure RunTimer.Consistent (mark : ℤ) (timer : RunTimer) : Prop where
  phaseMark : timer.phaseMark ≤ mark
  nonneg : ∀ phase, 0 ≤ timer.durations phase
  sum : (phases.map timer.durations).sum = timer.phaseMark
  ttft : ∀ ttft, timer.ttftMs = some ttft → ttft ≤ mark
  first : ∀ call ∈ timer.firstTextMs, call.2 ≤ mark ∧ ∃ ttft, timer.ttftMs =
    some ttft ∧ ttft ≤ call.2

theorem consistent_create (queuedMs : Option ℤ) (start : ℚ) (h : 0 ≤ mark) :
    (RunTimer.create queuedMs start).Consistent mark where
  phaseMark := h
  nonneg _ := Int.le_refl 0
  sum := rfl
  ttft _ h := nomatch h
  first _ h := absurd h List.not_mem_nil

/-- Closing the current phase. -/
theorem RunTimer.Consistent.update (h : timer.Consistent mark) (hnow : mark ≤ now) :
    (∀ phase, 0 ≤ Function.update timer.durations timer.phase
      (timer.durations timer.phase + (now - timer.phaseMark)) phase) ∧
    (phases.map (Function.update timer.durations timer.phase
      (timer.durations timer.phase + (now - timer.phaseMark)))).sum = now := by
  constructor
  · intro phase
    have hmark := h.phaseMark
    have hold := h.nonneg timer.phase
    by_cases hphase : phase = timer.phase
    · rw [hphase, Function.update_self]
      omega
    · rw [Function.update_of_ne hphase]
      exact h.nonneg phase
  · rw [sum_durations_update, h.sum]
    omega

/-- **Switching** the phase. -/
theorem RunTimer.Consistent.switch (h : timer.Consistent mark) (hnow : mark ≤ now)
    (phase : Phase) : (timer.switch now phase).Consistent now := by
  have hfirst : ∀ call ∈ timer.firstTextMs,
      call.2 ≤ now ∧ ∃ ttft, timer.ttftMs = some ttft ∧ ttft ≤ call.2 :=
    fun call hcall => ⟨(h.first call hcall).1.trans hnow, (h.first call hcall).2⟩
  rw [RunTimer.switch]
  split_ifs with hphase
  · obtain ⟨hnonneg, hsum⟩ := h.update hnow
    exact ⟨Int.le_refl now, hnonneg, hsum, fun ttft ht => (h.ttft ttft ht).trans hnow, hfirst⟩
  · exact ⟨h.phaseMark.trans hnow, h.nonneg, h.sum, fun ttft ht => (h.ttft ttft ht).trans hnow,
      hfirst⟩

/-- Marking a delta. -/
theorem RunTimer.Consistent.markDelta (h : timer.Consistent now) (isText : Bool) :
    (timer.markDelta now isText).Consistent now := by
  have hsome : ∃ ttft, timer.ttftMs.or (some now) = some ttft ∧ ttft ≤ now := by
    cases httft : timer.ttftMs with
    | none => exact ⟨now, rfl, Int.le_refl now⟩
    | some ttft => exact ⟨ttft, rfl, h.ttft ttft httft⟩
  have hkeep : ∀ ttft, timer.ttftMs = some ttft → timer.ttftMs.or (some now) = some ttft :=
    fun ttft ht => by rw [ht]; rfl
  refine ⟨h.phaseMark, h.nonneg, h.sum, fun ttft ht => ?_, fun call hcall => ?_⟩
  · obtain ⟨ttft', ht', hle⟩ := hsome
    obtain rfl := Option.eq_some_unique ht' ht
    exact hle
  · have hold : call ∈ timer.firstTextMs → call.2 ≤ now ∧
        ∃ ttft, timer.ttftMs.or (some now) = some ttft ∧ ttft ≤ call.2 := by
      intro hcall
      obtain ⟨hle, ttft, ht, hfirst⟩ := h.first call hcall
      exact ⟨hle, ttft, hkeep ttft ht, hfirst⟩
    rw [RunTimer.markDelta] at hcall
    dsimp only at hcall
    split_ifs at hcall
    · rcases List.mem_append.mp hcall with hcall | hcall
      · exact hold hcall
      · rw [List.mem_singleton.mp hcall]
        exact ⟨Int.le_refl now, hsome⟩
    · exact hold hcall

/-- Switching changes neither the counters nor the tools. -/
theorem switch_tools (timer : RunTimer) (now : ℤ) (phase : Phase) :
    (timer.switch now phase).tools = timer.tools := by
  rw [RunTimer.switch]
  split_ifs
  · rfl
  · rfl

theorem switch_start (timer : RunTimer) (now : ℤ) (phase : Phase) :
    (timer.switch now phase).start = timer.start := by
  rw [RunTimer.switch]
  split_ifs
  · rfl
  · rfl

/-- The counters are not among what is kept. -/
theorem RunTimer.Consistent.count (h : timer.Consistent mark) (modelCalls attempts : ℕ)
    (tools : List ToolTiming) (result : Option TimingRecord) :
    RunTimer.Consistent mark { timer with modelCalls, attempts, tools, result } :=
  ⟨h.phaseMark, h.nonneg, h.sum, h.ttft, h.first⟩

theorem RunTimer.Consistent.observe (h : timer.Consistent mark) (hnow : mark ≤ now)
    (event : AgentEvent) (elapsedMs : Option ℤ) :
    (timer.observe now event elapsedMs).Consistent now := by
  have hkept : timer.Consistent now :=
    ⟨h.phaseMark.trans hnow, h.nonneg, h.sum, fun ttft ht => (h.ttft ttft ht).trans hnow,
      fun call hcall => ⟨(h.first call hcall).1.trans hnow, (h.first call hcall).2⟩⟩
  cases event with
  | textDelta => exact (h.switch hnow _).markDelta true
  | reasoningDelta => exact (h.switch hnow _).markDelta false
  | toolCallStarted => exact h.switch hnow _
  | toolCallFinished => exact (h.switch hnow _).count ..
  | messageDone =>
    rw [RunTimer.observe]
    split_ifs
    · exact (h.switch hnow _).count ..
    · exact hkept
  | agentFinal => exact hkept

theorem RunTimer.Consistent.streamStarted (h : timer.Consistent mark) (hnow : mark ≤ now) :
    (timer.streamStarted now).Consistent now := by
  rw [RunTimer.streamStarted]
  dsimp only
  split_ifs
  · exact (h.switch hnow _).count ..
  · exact (h.switch hnow _).count ..

/-- Closing the timer: the durations sum to the mark at which it is closed. -/
theorem RunTimer.Consistent.finish (h : timer.Consistent mark) (hnow : mark ≤ now)
    (outcome : String) : (timer.finish now outcome).1.Consistent now ∧
      (∀ phase, 0 ≤ (timer.finish now outcome).2.phases phase) ∧
      (phases.map (timer.finish now outcome).2.phases).sum = now := by
  have hswitch : timer.switch now timer.phase = timer := if_neg (not_not.mpr rfl)
  obtain ⟨hnonneg, hsum⟩ := h.update hnow
  rw [RunTimer.finish, hswitch]
  exact ⟨⟨Int.le_refl now, hnonneg, hsum, fun ttft ht => (h.ttft ttft ht).trans hnow,
    fun call hcall => ⟨(h.first call hcall).1.trans hnow, (h.first call hcall).2⟩⟩, hnonneg, hsum⟩

/-- **Step**: what one call leaves. -/
theorem RunTimer.Consistent.apply (rounding : FloatRounding) (call : ℚ × TimerCall)
    (h : timer.Consistent mark)
    (hnow : mark ≤ timer.nowMs rounding call.1) :
    (timer.apply rounding call).Consistent (timer.nowMs rounding call.1) := by
  obtain ⟨clock, call⟩ := call
  cases call with
  | streamStarted => exact h.streamStarted hnow
  | observe event elapsedMs => exact h.observe hnow event elapsedMs
  | streamEnded => exact h.switch hnow _
  | finish outcome => exact (h.finish hnow outcome).1

/-- A call does not move the start, and adds the tool call that it tells of. -/
theorem apply_start_tools (rounding : FloatRounding) (timer : RunTimer) (call : ℚ × TimerCall) :
    (timer.apply rounding call).start = timer.start ∧
      (timer.apply rounding call).tools = timer.tools ++ finishedTools [call] := by
  obtain ⟨clock, call⟩ := call
  have hnil : timer.tools = timer.tools ++ [] := (List.append_nil _).symm
  cases call with
  | streamStarted =>
    rw [RunTimer.apply, RunTimer.streamStarted]
    dsimp only
    split_ifs
    · exact ⟨switch_start .., (switch_tools ..).trans hnil⟩
    · exact ⟨switch_start .., (switch_tools ..).trans hnil⟩
  | observe event =>
    rw [RunTimer.apply]
    dsimp only
    cases event with
    | textDelta | reasoningDelta => exact ⟨switch_start .., (switch_tools ..).trans hnil⟩
    | toolCallStarted =>
      exact ⟨switch_start .., (switch_tools ..).trans hnil⟩
    | toolCallFinished =>
      rw [RunTimer.observe]
      dsimp only
      rw [switch_tools]
      exact ⟨switch_start .., rfl⟩
    | messageDone =>
      rw [RunTimer.observe]
      split_ifs
      · exact ⟨switch_start .., (switch_tools ..).trans hnil⟩
      · exact ⟨rfl, hnil⟩
    | agentFinal => exact ⟨rfl, hnil⟩
  | streamEnded => exact ⟨switch_start .., (switch_tools ..).trans hnil⟩
  | finish =>
    have hswitch : ∀ now, timer.switch now timer.phase = timer :=
      fun now => if_neg (not_not.mpr rfl)
    rw [RunTimer.apply]
    dsimp only
    rw [RunTimer.finish, hswitch]
    exact ⟨rfl, hnil⟩

theorem finishedTools_append (calls calls' : List (ℚ × TimerCall)) :
    finishedTools (calls ++ calls') = finishedTools calls ++ finishedTools calls' :=
  List.filterMap_append ..

/-- **Run**: at every later reading of the clock the timer is consistent. -/
theorem consistent_timerAfter (rounding : FloatRounding) (queuedMs : Option ℤ)
    (hclock : (calls.map Prod.fst).Pairwise (· ≤ ·))
    (hstart : ∀ call ∈ calls, start ≤ call.1) (hlast : ∀ call ∈ calls, call.1 ≤ clock)
    (hle : start ≤ clock) :
    (timerAfter rounding queuedMs start calls).Consistent
        ((timerAfter rounding queuedMs start calls).nowMs rounding clock) ∧
      (timerAfter rounding queuedMs start calls).start = start ∧
      (timerAfter rounding queuedMs start calls).tools = finishedTools calls := by
  induction calls using List.reverseRecOn generalizing clock with
  | nil =>
    exact ⟨consistent_create queuedMs start (nowMs_nonneg hle), rfl, rfl⟩
  | append_singleton calls call ih =>
    rw [List.map_append, List.pairwise_append] at hclock
    have hcall := List.mem_append_right calls (List.mem_singleton_self call)
    have hbefore : ∀ c ∈ calls, c.1 ≤ call.1 := fun c hc =>
      hclock.2.2 c.1 (List.mem_map_of_mem hc) call.1 List.mem_cons_self
    obtain ⟨hconsistent, hsame, htools⟩ := ih hclock.1
      (fun c hc => hstart c (List.mem_append_left _ hc)) hbefore (hstart call hcall)
    have happly : timerAfter rounding queuedMs start (calls ++ [call]) =
        (timerAfter rounding queuedMs start calls).apply rounding call := List.foldl_concat ..
    obtain ⟨hkept, hadded⟩ :=
      apply_start_tools rounding (timerAfter rounding queuedMs start calls) call
    have hmark : (timerAfter rounding queuedMs start calls).nowMs rounding call.1 ≤
        (timerAfter rounding queuedMs start (calls ++ [call])).nowMs rounding clock := by
      have hreading := nowMs_monotone rounding (timerAfter rounding queuedMs start calls)
        (hlast call hcall)
      have hsame : ((timerAfter rounding queuedMs start calls).apply rounding call).nowMs rounding
          clock = (timerAfter rounding queuedMs start calls).nowMs rounding clock := by
        rw [RunTimer.nowMs, RunTimer.nowMs, hkept]
      rw [happly, hsame]
      exact hreading
    have hstep := hconsistent.apply rounding call (Int.le_refl _)
    rw [← happly] at hstep
    refine ⟨⟨hstep.phaseMark.trans hmark, hstep.nonneg, hstep.sum,
      fun ttft ht => (hstep.ttft ttft ht).trans hmark,
      fun c hc => ⟨(hstep.first c hc).1.trans hmark, (hstep.first c hc).2⟩⟩, ?_, ?_⟩
    · rw [happly, hkept, hsame]
    · rw [happly, hadded, htools, finishedTools_append]

end timer

/-- **The partition**: every record that is returned, at any point of the calls, has durations that
are not negative and sum to the execution time, marks in their order, and the tool calls. -/
theorem timing_partition (rounding : FloatRounding) (queuedMs : Option ℤ) {start : ℚ}
    {calls : List (ℚ × TimerCall)} (hclock : (calls.map Prod.fst).Pairwise (· ≤ ·))
    (hstart : ∀ call ∈ calls, start ≤ call.1) :
    ∀ before clock outcome after, calls = before ++ (clock, .finish outcome) :: after →
      RecordExact before (((timerAfter rounding queuedMs start before).finish
        ((timerAfter rounding queuedMs start before).nowMs rounding clock) outcome).2) := by
  rintro before clock outcome after rfl
  rw [List.map_append, List.pairwise_append] at hclock
  have hlast : ∀ c ∈ before, c.1 ≤ clock := fun c hc =>
    hclock.2.2 c.1 (List.mem_map_of_mem hc) clock List.mem_cons_self
  obtain ⟨hconsistent, -, htools⟩ := consistent_timerAfter rounding queuedMs hclock.1
    (fun c hc => hstart c (List.mem_append_left _ hc)) hlast
    (hstart (clock, .finish outcome) (List.mem_append_right _ List.mem_cons_self))
  generalize timerAfter rounding queuedMs start before = timer at hconsistent htools ⊢
  obtain ⟨hafter, hnonneg, hsum⟩ := hconsistent.finish (Int.le_refl _) outcome
  generalize timer.nowMs rounding clock = now at hconsistent hafter hnonneg hsum ⊢
  have hswitch : timer.switch now timer.phase = timer := if_neg (not_not.mpr rfl)
  have hwork : ∀ work, (if 0 < timer.modelCalls then timer.firstTextMs.lookup timer.modelCalls
      else none) = some work → (timer.modelCalls, work) ∈ timer.firstTextMs := by
    intro work hsome
    split_ifs at hsome
    obtain ⟨before, after, heq, -⟩ := List.lookup_eq_some_iff.mp hsome
    rw [heq]
    exact List.mem_append_right _ List.mem_cons_self
  refine ⟨hnonneg, hsum, fun ttft work ht hw => ?_, fun work hw => ?_, fun ttft ht => ?_, ?_⟩
  · rw [RunTimer.finish, hswitch] at ht hw
    obtain ⟨-, ttft', ht', hle⟩ := hconsistent.first _ (hwork work hw)
    obtain rfl := Option.eq_some_unique ht' ht
    exact hle
  · rw [RunTimer.finish, hswitch] at hw
    exact (hconsistent.first _ (hwork work hw)).1
  · rw [RunTimer.finish, hswitch] at ht
    exact hconsistent.ttft ttft ht
  · rw [RunTimer.finish, hswitch]
    exact htools

/-- The rounding of numbers that are exact. -/
def exactRounding : FloatRounding := ⟨id, monotone_id, rfl⟩

/-- A run that answers with one text. -/
def answeredCalls : List (ℚ × TimerCall) :=
  [(0, .streamStarted), (1, .observe (.textDelta "Hi") none), (2, .streamEnded)]

theorem timing_partition_answer :
    RecordExact answeredCalls (((timerAfter exactRounding none 0 answeredCalls).finish
      ((timerAfter exactRounding none 0 answeredCalls).nowMs exactRounding 2) "completed").2) :=
  @timing_partition exactRounding none 0 (answeredCalls ++ [(2, .finish "completed")]) (by decide)
    (by decide) answeredCalls 2 "completed" [] rfl

end IChat.Timing

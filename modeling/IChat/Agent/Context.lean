import Mathlib.Algebra.Ring.Int.Defs
import IChat.Agent.Messages
import IChat.General.JsonText
import IChat.General.Segments

/-!
# The context of a model call

`build_context` puts the system prompt before the newest turns of the history that fit a token
budget. The history is cut where a user speaks, so a tool call and its result stay together.

- `isLeft_trimToBudget`: the history is cut at the start of a turn, where the longest rest within
  the budget starts, or else the last turn;
- `resultsFollowCalls_drop`, `answered_drop`: a cut there separates no result from its call;
- `buildContext_spec`: both, and that a higher budget keeps more.
-/

namespace IChat.Context

/-- Flat overhead of a message. -/
def perMessageOverheadTokens : ℤ := 4

def systemText (text : String) : Message := ⟨.system, [.text text]⟩

/-- The text of a block that is counted. -/
def blockText : ContentBlock → String
  | .toolCall _ _ arguments => (Json.obj arguments).dumps ", " ": "
  | .toolResult _ content _ => content
  | .providerContinuation _ _ _ payload => (Json.obj payload).dumps "," ":"
  | .attachmentNotice _ filename mediaType notice =>
    "\n".intercalate [filename, mediaType, notice]
  | .image _ filename mediaType sha256 width height processorVersion warnings =>
    "\n".intercalate
      ([filename, mediaType, sha256, toString width, toString height, processorVersion] ++ warnings)
  | .document _ filename mediaType text sha256 extractorVersion warnings _ _ =>
    "\n".intercalate ([filename, mediaType, sha256, extractorVersion] ++ warnings) ++ "\n" ++ text
  | .text text => text
  | .reasoning text _ => text

def isImage : ContentBlock → Bool
  | .image .. => true
  | _ => false

section

variable (count : String → ℤ) (imageTokenReserve : ℤ)

def messageTokens (m : Message) : ℤ :=
  let text := "\n".intercalate ((m.blocks.map blockText).filter (· ≠ ""))
  count text + perMessageOverheadTokens + m.blocks.countP isImage * max imageTokenReserve 0

/-- A user message that carries something other than tool results. -/
def isTurnBoundary (m : Message) : Bool :=
  decide (m.role = .user) && m.blocks.any fun block => !block.isToolResult

/-- Where the segments start: at the turns, and at the start of the history. -/
def segmentStarts (history : List Message) : List ℕ :=
  let starts := history.findIdxs isTurnBoundary
  if starts.head? = some 0 then starts else 0 :: starts

def trimToBudget (history : List Message) (budgetTokens : ℤ) : List Message :=
  if history = [] then []
  else
    let segments := history.slices (segmentStarts history ++ [history.length])
    let costs := segments.map fun segment => (segment.map
      (messageTokens count imageTokenReserve)).sum
    (List.trimSegments budgetTokens segments costs costs.sum).flatten

def buildContext (systemPrompt : String) (history : List Message) (budgetTokens : ℤ) :
    List Message :=
  let historyBudget :=
    budgetTokens - messageTokens count imageTokenReserve (systemText systemPrompt)
  systemText systemPrompt :: trimToBudget count imageTokenReserve history historyBudget

end

/-! ### Turns -/

/-- A history may be cut where a turn starts, or not at all. -/
def IsStart (history : List Message) (k : ℕ) : Prop :=
  k = 0 ∨ ∃ m, history[k]? = some m ∧ isTurnBoundary m = true

theorem mem_segmentStarts {history : List Message} {k : ℕ} :
    k ∈ segmentStarts history ↔ IsStart history k := by
  have hmem : k ∈ history.findIdxs isTurnBoundary ↔
      ∃ m, history[k]? = some m ∧ isTurnBoundary m = true := by
    rw [List.mem_findIdxs_iff_exists_getElem_pos]
    constructor
    · rintro ⟨hlt, hboundary⟩
      exact ⟨history[k], List.getElem?_eq_getElem hlt, hboundary⟩
    · rintro ⟨m, hm, hboundary⟩
      obtain ⟨hlt, rfl⟩ := List.getElem?_eq_some_iff.mp hm
      exact ⟨hlt, hboundary⟩
  rw [segmentStarts]
  split
  · rename_i hhead
    rw [IsStart, ← hmem]
    refine ⟨Or.inr, fun h => h.elim (fun hzero => ?_) id⟩
    rw [hzero]
    exact List.mem_of_mem_head? hhead
  · rw [List.mem_cons, hmem, IsStart]

/-- The starts are in order, and the first is the start of the history. -/
theorem exists_segmentStarts (history : List Message) :
    ∃ starts, segmentStarts history = 0 :: starts ∧ (0 :: starts).Pairwise (· < ·) := by
  have hsorted : (history.findIdxs isTurnBoundary).Pairwise (· < ·) := List.pairwise_findIdxs
  rw [segmentStarts]
  split
  · rename_i hhead
    obtain ⟨starts, hstarts⟩ := List.head?_eq_some_iff.mp hhead
    rw [hstarts] at hsorted ⊢
    exact ⟨starts, rfl, hsorted⟩
  · rename_i hhead
    refine ⟨_, rfl, List.pairwise_cons.mpr ⟨fun k hk => ?_, hsorted⟩⟩
    -- were an index zero, it would be the first
    rcases Nat.eq_zero_or_pos k with rfl | hpos
    · obtain ⟨first, rest, hcons⟩ := List.exists_cons_of_ne_nil (List.ne_nil_of_mem hk)
      rw [hcons] at hhead hk hsorted
      rcases List.mem_cons.mp hk with heq | hrest
      · exact absurd (congrArg some heq.symm) hhead
      · exact absurd (List.rel_of_pairwise_cons hsorted hrest) (Nat.not_lt_zero first)
    · exact hpos

/-- The cost of some messages. -/
def cost (count : String → ℤ) (imageTokenReserve : ℤ) (messages : List Message) : ℤ :=
  (messages.map (messageTokens count imageTokenReserve)).sum

section

variable (count : String → ℤ) (imageTokenReserve : ℤ)

theorem cost_append (s t : List Message) :
    cost count imageTokenReserve (s ++ t) =
      cost count imageTokenReserve s + cost count imageTokenReserve t := by
  rw [cost, List.map_append, List.sum_append]
  rfl

/-- The costs of the segments add up to the cost of the messages in them. -/
theorem sum_map_cost (segments : List (List Message)) :
    (segments.map (cost count imageTokenReserve)).sum =
      cost count imageTokenReserve segments.flatten := by
  induction segments with
  | nil => rfl
  | cons segment segments ih =>
    rw [List.map_cons, List.sum_cons, ih, List.flatten_cons, cost_append]

/-- Trimming leaves the longest rest of the history within the budget that starts where a segment
does, or the last segment. -/
theorem isLeft_trimToBudget (history : List Message) (budget : ℤ) :
    ∃ k, List.IsLeft (cost count imageTokenReserve) budget history (segmentStarts history) k ∧
      trimToBudget count imageTokenReserve history budget = history.drop k := by
  obtain ⟨starts, hstarts, hsorted⟩ := exists_segmentStarts history
  have hlast : ∀ i ∈ 0 :: starts, i ≤ history.length := by
    intro i hi
    rw [← hstarts, mem_segmentStarts] at hi
    rcases hi with rfl | ⟨m, hm, -⟩
    · exact Nat.zero_le _
    · exact Nat.le_of_lt (List.getElem?_eq_some_iff.mp hm).1
  have hall := List.flatten_slices (hsorted.imp Nat.le_of_lt) hlast
  obtain ⟨k, hk, hleft⟩ : ∃ k, List.IsLeft (cost count imageTokenReserve) budget history
      (0 :: starts) k ∧ _ :=
    List.isLeft_trimSegments (cost_append count imageTokenReserve) hsorted hlast
  rw [hstarts]
  refine ⟨k, hk, ?_⟩
  rw [trimToBudget, hstarts]
  by_cases hnil : history = []
  · rw [if_pos hnil, hnil, List.drop_nil]
  · rw [if_neg hnil, ← hleft, ← hall, ← sum_map_cost]
    rfl

end

/-! ### Calls and results -/

/-- The message is an assistant's and holds the call. -/
def HasCall (m : Message) (id : String) : Prop :=
  m.role = .assistant ∧ ∃ name arguments, ContentBlock.toolCall id name arguments ∈ m.blocks

/-- The message holds the result of the call. -/
def HasResult (m : Message) (id : String) : Prop :=
  ∃ content isError, ContentBlock.toolResult id content isError ∈ m.blocks

/-- A call in one message and its result in a later one of the same turn. -/
structure Answers (history : List Message) (i j : ℕ) (id : String) : Prop where
  lt : i < j
  call : ∃ m, history[i]? = some m ∧ HasCall m id
  result : ∃ m, history[j]? = some m ∧ HasResult m id
  sameTurn : ∀ k m, i < k → k ≤ j → history[k]? = some m → isTurnBoundary m = false

/-- Every result follows its call within a turn. -/
def ResultsFollowCalls (history : List Message) : Prop :=
  ∀ j m id, history[j]? = some m → HasResult m id → ∃ i, Answers history i j id

/-- A call and its result, when the messages before the call are left out. -/
theorem Answers.drop {history : List Message} {i j : ℕ} {id : String} (h : Answers history i j id)
    {k : ℕ} (hk : k ≤ i) : Answers (history.drop k) (i - k) (j - k) id := by
  have hlt := h.lt
  have hshift : ∀ n, k ≤ n → (history.drop k)[n - k]? = history[n]? := by
    intro n hn
    rw [List.getElem?_drop, Nat.add_sub_cancel' hn]
  refine ⟨by omega, ?_, ?_, fun n m hin hnj hm => ?_⟩
  · rw [hshift i hk]
    exact h.call
  · rw [hshift j (by omega)]
    exact h.result
  · rw [List.getElem?_drop] at hm
    exact h.sameTurn (k + n) m (by omega) (by omega) hm

/-- The history is not cut between a call and its result. -/
theorem Answers.le_of_isStart {history : List Message} {i j k : ℕ} {id : String}
    (h : Answers history i j id) (hk : IsStart history k) (hkj : k ≤ j) : k ≤ i := by
  by_contra hlt
  rcases hk with rfl | ⟨m, hm, hboundary⟩
  · exact hlt (Nat.zero_le i)
  · rw [h.sameTurn k m (by omega) hkj hm] at hboundary
    exact Bool.noConfusion hboundary

theorem ResultsFollowCalls.drop {history : List Message} (h : ResultsFollowCalls history) {k : ℕ}
    (hk : IsStart history k) : ResultsFollowCalls (history.drop k) := by
  intro j m id hm hresult
  rw [List.getElem?_drop] at hm
  obtain ⟨i, hanswers⟩ := h (k + j) m id hm hresult
  have hki := hanswers.le_of_isStart hk (Nat.le_add_right k j)
  have hdrop := hanswers.drop hki
  rw [Nat.add_sub_cancel_left] at hdrop
  exact ⟨i - k, hdrop⟩

/-- The context is the system message and a rest of the history. The rest starts with a turn or is
the whole history; it is the longest such rest within what the system message leaves of the budget,
or the last turn where none is. When every result follows its call within a turn, so it does in the
context, and a call in the context whose result is in the history has it in the context. A higher
budget drops no message that a lower one keeps. -/
theorem buildContext_spec (count : String → ℤ) (imageTokenReserve : ℤ) (systemPrompt : String)
    (history : List Message) (budget : ℤ) :
    ∃ k, buildContext count imageTokenReserve systemPrompt history budget =
        systemText systemPrompt :: history.drop k ∧
      IsStart history k ∧
      (let remaining :=
        budget - messageTokens count imageTokenReserve (systemText systemPrompt)
      (cost count imageTokenReserve (history.drop k) ≤ remaining ∧
        ∀ j < k, IsStart history j →
          remaining < cost count imageTokenReserve (history.drop j)) ∨
      ∀ j, IsStart history j →
        remaining < cost count imageTokenReserve (history.drop j) ∧ j ≤ k) ∧
      (ResultsFollowCalls history → ResultsFollowCalls (history.drop k) ∧
        ∀ i j id, k ≤ i → Answers history i j id →
          Answers (history.drop k) (i - k) (j - k) id) ∧
      ∀ higher, budget ≤ higher →
        ∃ m ≤ k, buildContext count imageTokenReserve systemPrompt history higher =
          systemText systemPrompt :: history.drop m := by
  obtain ⟨k, hk, hkept⟩ := isLeft_trimToBudget count imageTokenReserve history
    (budget - messageTokens count imageTokenReserve (systemText systemPrompt))
  have hstart := mem_segmentStarts.mp hk.1
  refine ⟨k, by rw [buildContext, hkept], hstart, ?_, fun hpaired => ?_, fun higher hle => ?_⟩
  · refine hk.2.imp (fun h => ⟨h.1, fun j hj hstart => ?_⟩) fun h j hstart => ?_
    · exact h.2 j (mem_segmentStarts.mpr hstart) hj
    · exact h j (mem_segmentStarts.mpr hstart)
  · exact ⟨hpaired.drop hstart, fun i j id hki hanswers => hanswers.drop hki⟩
  · obtain ⟨m, hm, hmore⟩ := isLeft_trimToBudget count imageTokenReserve history
      (higher - messageTokens count imageTokenReserve (systemText systemPrompt))
    exact ⟨m, hk.le_of_le hm (by omega), by rw [buildContext, hmore]⟩

end IChat.Context
